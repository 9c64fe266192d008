/-
  MythLab.Ssh.KnownHostsStore — the known-hosts file, behind a gate of one place.

  Every operation waits at the gate, works on the file and gives its permit back in a
  `finally`. An update writes a temporary file and moves it over the known-hosts file; the
  same `finally` first deletes the temporary file if it is still there. Any call to the
  file system may throw, and so may the update and a cancellation. `State` holds the
  files, the update's local `temporary`, and the gate.

  Proved (`gate_released`): in every run, while no operation is inside the gate, the gate
  holds its permit, and every waiting operation can enter, exactly as long as no deletion
  of a temporary file has thrown. One that throws skips the release after it
  (`deletion_keeps_the_permit`), and the gate stays shut.
-/
import Mathlib.Logic.Function.Basic
import MythLab.Lib.Gate
import MythLab.Lib.Machine
import MythLab.Ssh.KnownHosts

namespace MythLab.Ssh.KnownHostsStore

open Lib Dotnet KnownHosts

/-- The known-hosts file, or the temporary file of an update by its fresh name. -/
inductive File where
  | knownHosts
  | temporary (name : Guid)
  deriving DecidableEq, Repr

inductive Request where
  | list
  | trust (host : KnownHost)
  | remove (host : KnownHost)
  deriving DecidableEq, Repr

structure State where
  files : File → Option (List UInt8)
  temporary : Option Guid
  gate : Gate Request

inductive Site where
  | length
  | read
  | createDirectory
  | createTemporary
  | writeTemporary
  | cancellation
  | move
  | delete
  deriving DecidableEq, Repr

/-! ## The file system -/

abbrev Run (α : Type) := State → Except Exn α × State

def lengthOf (file : File) : Run Nat := fun s =>
  match s.files file with
  | some bytes => (.ok bytes.length, s)
  | none => (.error (.io "Could not find file."), s)

def readAll (file : File) : Run (List UInt8) := fun s =>
  match s.files file with
  | some bytes => (.ok bytes, s)
  | none => (.error (.io "Could not find file."), s)

def write (file : File) (bytes : List UInt8) : Run Unit := fun s =>
  (.ok (), { s with files := Function.update s.files file (some bytes) })

/-- `File.Move(source, target, true)`. -/
def move (source target : File) : Run Unit := fun s =>
  match s.files source with
  | some bytes =>
    (.ok (), { s with files := Function.update (Function.update s.files target (some bytes)) source none })
  | none => (.error (.io "Could not find file."), s)

def delete (file : File) : Run Unit := fun s => (.ok (), { s with files := Function.update s.files file none })

/-! ## The operations, inside the gate -/

abbrev Op (α : Type) := Eff (World State Site) Exn α

def modify (f : State → State) : Op Unit := Eff.modify fun w => { w with state := f w.state }

/-- `File.Exists`, which does not throw. -/
def fileExists (file : File) : Op Bool := do
  let w ← Eff.get
  pure (w.state.files file).isSome

/-- `gate.Release()`. -/
def release : Op Unit := do
  let w ← Eff.get
  Eff.lift (throwIf (w.state.gate.permits = 1)
    (.other "Adding the specified count to the semaphore would cause it to exceed its maximum count."))
  modify fun s => { s with gate := s.gate.release }

section Operations

variable (fw : Framework) (json : Json) (faults : Nat → Fault Exn)

def readStored : Op (List KnownHost) := do
  let length ← call faults .length (lengthOf .knownHosts)
  Eff.lift (throwIf (4 * 1024 * 1024 < length) (.invalidData "Known-hosts file is too large."))
  let bytes ← call faults .read (readAll .knownHosts)
  Eff.lift (parse fw json bytes)

def read : Op (List KnownHost) := do
  let stored ← fileExists .knownHosts
  Eff.provided (stored = true) (readStored fw json faults) []

def list : Op (List KnownHost) := tryFinally (read fw json faults) release

/-- Creating and filling the temporary file are two steps: a write that throws may leave
    it empty. -/
def replaceFile (name : Guid) (entries : List KnownHost) : Op Unit := do
  call faults .createDirectory fun s => (.ok (), s)
  modify fun s => { s with temporary := some name }
  call faults .createTemporary (write (.temporary name) [])
  call faults .writeTemporary (write (.temporary name) (json.serialize entries))
  checkpoint faults .cancellation
  statement faults .move (move (.temporary name) .knownHosts)

/-- `if (temporary is not null && File.Exists(temporary)) File.Delete(temporary);` -/
def deleteTemporary : Op Unit := do
  let w ← Eff.get
  match w.state.temporary with
  | none => pure ()
  | some name =>
    Eff.provided (w.state.files (.temporary name)).isSome (call faults .delete (delete (.temporary name))) ()

def update (change : List KnownHost → Except Exn (List KnownHost)) (name : Guid) : Op Unit := do
  modify fun s => { s with temporary := none }
  tryFinally
    (do
      let entries ← read fw json faults
      let updated ← Eff.lift (change entries)
      replaceFile json faults name updated)
    (do
      deleteTemporary faults
      release)

/-- What a caller that has entered does, up to its end; `name` is fresh. -/
def operation (name : Guid) : Request → Op Unit
  | .list => discard (list fw json faults)
  | .trust host => update fw json faults (trust host) name
  | .remove host => update fw json faults (remove host) name

/-! ## The store -/

inductive Event where
  | call (r : Request)
  | enter (i : Nat)
  /-- The wait of a caller is cancelled. -/
  | abandon (i : Nat)
  /-- A caller that has entered does its work and leaves. -/
  | finish (i : Nat) (name : Guid)
  /-- The file is edited or deleted from outside. -/
  | edit (contents : Option (List UInt8))

def onGate (w : World State Site) (g : Gate Request) : World State Site :=
  { w with state := { w.state with gate := g } }

def step (w : World State Site) : Event → Option (World State Site)
  | .call r => some (onGate w (w.state.gate.arrive r))
  | .enter i => (w.state.gate.enter i).map (onGate w)
  | .abandon i => some (onGate w (w.state.gate.abandon i))
  | .finish i name =>
    match w.state.gate.inside[i]? with
    | some r =>
      let w' := (operation fw json faults name r w).2
      if w.state.files (.temporary name) = none then some (onGate w' (w'.state.gate.leave i)) else none
    | none => none
  | .edit contents =>
    some { w with state := { w.state with files := Function.update w.state.files .knownHosts contents } }

/-- Any file, or none; nobody at the gate; nothing called yet. -/
def Start (w : World State Site) : Prop := w.state.gate = Gate.fresh ∧ w.calls = []

def store : Machine (World State Site) Event := ⟨Start, step fw json faults⟩

end Operations

/-! ## What an operation does to the gate -/

/-- The deletion of a temporary file has thrown. -/
def deletionThrew (calls : List (Lib.Call Site)) : Bool := calls.any fun c => c.site = .delete && c.threw

@[simp] theorem deletionThrew_snoc (calls : List (Lib.Call Site)) (site : Site) (threw : Bool) :
    deletionThrew (calls ++ [⟨site, threw⟩]) = (deletionThrew calls || (site = .delete && threw)) := by
  simp [deletionThrew]

/-- The gate is `g`, and `b` says whether a deletion has thrown. -/
def At (g : Gate Request) (b : Bool) (w : World State Site) : Prop := w.state.gate = g ∧ deletionThrew w.calls = b

section Specs

variable {fw : Framework} {json : Json} {faults : Nat → Fault Exn} {g : Gate Request} {b : Bool} {w : World State Site}

theorem at_snoc {site : Site} (hsite : site ≠ .delete) {s : State} (hs : s.gate = g) (threw : Bool)
    {calls : List (Lib.Call Site)} (hc : deletionThrew calls = b) : At g b ⟨s, calls ++ [⟨site, threw⟩]⟩ :=
  ⟨hs, by simp [hsite, hc]⟩

theorem call_keeps {α : Type} {site : Site} (hsite : site ≠ .delete) {run : Run α}
    (hrun : ∀ s, (run s).2.gate = s.gate) : Eff.Keeps (At g b) (call faults site run) :=
  keeps_call (fun w _ hw => at_snoc hsite ((hrun w.state).trans hw.1) _ hw.2) fun _ hw => at_snoc hsite hw.1 _ hw.2

theorem statement_keeps {α : Type} {site : Site} (hsite : site ≠ .delete) {run : Run α}
    (hrun : ∀ s, (run s).2.gate = s.gate) : Eff.Keeps (At g b) (statement faults site run) :=
  keeps_statement (fun w _ hw => at_snoc hsite ((hrun w.state).trans hw.1) _ hw.2)
    fun _ hw => at_snoc hsite hw.1 _ hw.2

theorem modify_keeps {f : State → State} (hf : ∀ s, (f s).gate = s.gate) : Eff.Keeps (At g b) (modify f) :=
  .modify fun w hw => ⟨(hf w.state).trans hw.1, hw.2⟩

theorem lengthOf_gate (file : File) (s : State) : (lengthOf file s).2.gate = s.gate := by
  unfold lengthOf; split <;> rfl

theorem readAll_gate (file : File) (s : State) : (readAll file s).2.gate = s.gate := by
  unfold readAll; split <;> rfl

theorem move_gate (source target : File) (s : State) : (move source target s).2.gate = s.gate := by
  unfold move; split <;> rfl

theorem read_keeps : Eff.Keeps (At g b) (read fw json faults) := by
  unfold read fileExists readStored
  refine .bind (.bind .get fun _ => .pure _) fun stored => .provided ?_
  refine .bind (call_keeps (by decide) (lengthOf_gate _)) ?_
  intro length
  refine .bind (.lift _) ?_
  intro _
  exact .bind (call_keeps (by decide) (readAll_gate _)) fun bytes => .lift _

theorem replaceFile_keeps (name : Guid) (entries : List KnownHost) :
    Eff.Keeps (At g b) (replaceFile json faults name entries) := by
  unfold replaceFile
  refine .bind (call_keeps (by decide) fun _ => rfl) ?_
  intro _
  refine .bind (modify_keeps fun _ => rfl) ?_
  intro _
  refine .bind (call_keeps (by decide) fun _ => rfl) ?_
  intro _
  refine .bind (call_keeps (by decide) fun _ => rfl) ?_
  intro _
  refine .bind (statement_keeps (by decide) fun _ => rfl) ?_
  intro _
  exact statement_keeps (by decide) (move_gate _ _)

/-- With the permit in hand the release goes through, and changes nothing else. -/
theorem release_runs (hg : w.state.gate.permits = 0) : release.wp (fun r w' =>
    r = .ok () ∧ w' = { w with state := { w.state with gate := w.state.gate.release } }) w := by
  unfold release modify
  rw [Eff.wp_get_bind]
  have hfree : throwIf (ε := Exn) (w.state.gate.permits = 1)
      (.other "Adding the specified count to the semaphore would cause it to exceed its maximum count.") = .ok () := by
    rw [throwIf_ok_iff, hg]
    decide
  rw [hfree, Eff.wp_lift_bind]
  exact ⟨rfl, rfl⟩

theorem release_spec (hw : At g b w) (hg : g.permits = 0) :
    release.wp (fun r w' => r = .ok () ∧ At g.release b w') w := by
  obtain ⟨rfl, hb⟩ := hw
  refine Eff.wp_mono (release_runs hg) ?_
  intro r w' ⟨hr, hw'⟩
  subst hw'
  exact ⟨hr, rfl, hb⟩

/-- Deleting the temporary file goes through, or a deletion has thrown. -/
theorem deleteTemporary_spec (hw : At g false w) :
    (deleteTemporary faults).wp (fun r w' => At g (threw r) w') w := by
  unfold deleteTemporary
  rw [Eff.wp_get_bind]
  rcases w.state.temporary with _ | name
  · exact hw
  · refine Eff.wp_provided ?_ fun _ => hw
    intro _
    refine wp_call ⟨hw.1, ?_⟩ fun tookEffect e _ => ⟨?_, ?_⟩
    · simp [hw.2, delete]
    · cases tookEffect <;> exact hw.1
    · simp

/-- How an operation leaves the gate: with its permit back, unless a deletion threw. -/
def Left (g : Gate Request) (w : World State Site) : Prop := At g.release false w ∨ At g true w

theorem list_spec (hw : At g false w) (hg : g.permits = 0) :
    (list fw json faults).wp (fun _ w' => At g.release false w') w := by
  unfold list
  rw [Eff.wp_finally]
  refine Eff.wp_mono (read_keeps w hw) ?_
  intro _ w' hw'
  refine Eff.wp_mono (release_spec hw' hg) ?_
  intro r' w'' hr
  obtain ⟨rfl, hr⟩ := hr
  exact hr

theorem update_spec {change : List KnownHost → Except Exn (List KnownHost)} {name : Guid} (hw : At g false w)
    (hg : g.permits = 0) : (update fw json faults change name).wp (fun _ w' => Left g w') w := by
  unfold update modify
  rw [Eff.wp_modify_bind, Eff.wp_finally]
  have hbody : Eff.Keeps (At g false) (do
      let entries ← read fw json faults
      let updated ← Eff.lift (change entries)
      replaceFile json faults name updated) :=
    .bind read_keeps fun entries => .bind (.lift _) fun updated => replaceFile_keeps name updated
  refine Eff.wp_mono (hbody ⟨{ w.state with temporary := none }, w.calls⟩ hw) ?_
  intro r w' hw'
  rw [Eff.wp_bind]
  refine Eff.wp_mono (deleteTemporary_spec hw') ?_
  intro r' w'' hd
  rcases r' with e | u
  · exact Or.inr hd
  · refine Eff.wp_mono (release_spec hd hg) ?_
    intro r'' v hr
    obtain ⟨rfl, hr⟩ := hr
    exact Or.inl hr

theorem operation_spec (r : Request) {name : Guid} (hw : At g false w) (hg : g.permits = 0) :
    (operation fw json faults name r).wp (fun _ w' => Left g w') w := by
  cases r with
  | list => exact Eff.wp_discard.mpr (Eff.wp_mono (list_spec hw hg) fun _ _ h => Or.inl h)
  | trust host => exact update_spec hw hg
  | remove host => exact update_spec hw hg

end Specs

/-! ## The gate over a run -/

section Gate

variable {fw : Framework} {json : Json} {faults : Nat → Fault Exn} {w w' : World State Site}

/-- The permit is lost exactly when a deletion has thrown. -/
def GateSound (w : World State Site) : Prop := w.state.gate.Sound (deletionThrew w.calls).toNat

theorem step_gateSound {e : Event} (hw : GateSound w) (hs : step fw json faults w e = some w') : GateSound w' := by
  cases e with
  | call r =>
    cases hs
    exact hw.arrive r
  | enter i =>
    obtain ⟨g, hg, rfl⟩ := Option.map_eq_some_iff.mp hs
    exact hw.enter hg
  | abandon i =>
    cases hs
    exact hw.abandon i
  | finish i name =>
    simp only [step] at hs
    split at hs
    · rename_i r hr
      split at hs
      · cases hs
        obtain ⟨hp, hn, -, -⟩ := hw.inside hr
        have hb : deletionThrew w.calls = false := by simpa using hn
        have hleft : Left w.state.gate (operation fw json faults name r w).2 := operation_spec r ⟨rfl, hb⟩ hp
        unfold GateSound onGate
        rcases hleft with ⟨hg, hd⟩ | ⟨hg, hd⟩
        · rw [hg, hd]
          exact hw.leave_released hr
        · rw [hg, hd]
          exact hw.leave_lost hr
      · cases hs
    · cases hs
  | edit contents =>
    cases hs
    exact hw

theorem runs_gateSound {log : List (World State Site × Event)} (h : (store fw json faults).Runs log w) :
    GateSound w := by
  have hstep : ∀ w e w', GateSound w → (store fw json faults).step w e = some w' → GateSound w' :=
    fun _ _ _ hw hs => step_gateSound hw hs
  refine Machine.Reach.inv ?_ hstep ⟨log, h⟩
  intro w hw
  obtain ⟨hg, hc⟩ := hw
  unfold GateSound
  rw [hg, hc]
  exact Gate.Sound.fresh

/-- The gate is released on every exit but one: while no operation is inside, the permit
    is there and every waiting operation can enter, exactly as long as no deletion of a
    temporary file has thrown. -/
theorem gate_released (fw : Framework) (json : Json) (faults : Nat → Fault Exn) {log : List (World State Site × Event)}
    {w : World State Site} (h : (store fw json faults).Runs log w) (hidle : w.state.gate.inside = []) :
    (w.state.gate.permits = 1 ∧
        ∀ i < w.state.gate.waiting.length, ((store fw json faults).step w (.enter i)).isSome) ↔
      deletionThrew w.calls = false := by
  have hfree : w.state.gate.permits = 1 ↔ deletionThrew w.calls = false := by
    rw [(runs_gateSound h).idle hidle]
    simp
  refine ⟨fun hp => hfree.mp hp.1, fun hd => ⟨hfree.mpr hd, ?_⟩⟩
  intro i hi
  show ((w.state.gate.enter i).map (onGate w)).isSome
  rw [Option.isSome_map, Gate.enter_isSome hi, hfree.mpr hd]
  exact Nat.one_pos

end Gate

/-! ## A run -/

def nas : KnownHost := identify Framework.ascii (str "nas") 22 (str "ssh-ed25519") [1, 2, 3]

/-- No file yet. -/
def fresh : World State Site := ⟨{ files := fun _ => none, temporary := none, gate := Gate.fresh }, []⟩

theorem trusted_nas_releases :
    ∃ log w, (store Framework.ascii Json.plain fun _ => .none).Runs log w ∧ w.calls.length = 5 ∧
      (w.state.gate.permits = 1 ∧
        ∀ i < w.state.gate.waiting.length,
          ((store Framework.ascii Json.plain fun _ => .none).step w (.enter i)).isSome) := by
  have h := Machine.runs_of_exec (M := store Framework.ascii Json.plain fun _ => .none) (s := fresh) ⟨rfl, rfl⟩
    (show Machine.exec _ _ [.call (.trust nas), .enter 0, .finish 0 1, .call .list] = _ from rfl)
  exact ⟨_, _, h, rfl, (gate_released _ _ _ h rfl).mpr rfl⟩

/-- The move of the temporary file throws, and so does its deletion. -/
def moveAndDeleteThrow : Nat → Fault Exn
  | 4 => .throws false (.io "The process cannot access the file.")
  | 5 => .throws false (.io "The process cannot access the file.")
  | _ => .none

theorem deletion_keeps_the_permit :
    ¬ ∀ (fw : Framework) (json : Json) (faults : Nat → Fault Exn) (log : List (World State Site × Event))
        (w : World State Site), (store fw json faults).Runs log w → w.state.gate.inside = [] →
        w.state.gate.permits = 1 := by
  intro h
  have hrun := Machine.runs_of_exec (M := store Framework.ascii Json.plain moveAndDeleteThrow) (s := fresh) ⟨rfl, rfl⟩
    (show Machine.exec _ _ [.call (.trust nas), .enter 0, .finish 0 1] = _ from rfl)
  have hpermit := h _ _ _ _ _ hrun rfl
  exact absurd hpermit (by decide)

end MythLab.Ssh.KnownHostsStore
