/-
  MythLab.Storage.SettingsStore — the settings file, behind a gate of one place.

  A save checks the settings, waits at the gate, writes them to a temporary file and moves
  that over the settings file; a `finally` deletes the temporary file if it is still
  there, and an inner `finally` gives the permit back in any case. A load reads the file
  and checks what it says; where there is no file it returns the defaults. Any call to the
  file system may throw, and so may a cancellation where the token is looked at.

  Proved: a save replaces the file or leaves it alone (`save_replaces`), what it saved is
  loaded (`load_saved`), and in every run from a free gate the permit is there between two
  calls and a load sees the settings that were saved last (`last_saved_is_loaded`).
-/
import MythLab.Lib.Machine
import MythLab.Lib.Replacement
import MythLab.Settings.AppSettings

namespace MythLab.Storage.SettingsStore

open Lib Dotnet Settings

/-- The settings file, or the temporary file of a save by its fresh name. -/
inductive File where
  | settings
  | temporary (name : Guid)
  deriving DecidableEq, Repr

/-- `JsonSerializer` on the settings, to and from the bytes of the file. A file may hold null. -/
structure Json where
  serialize : AppSettings → List UInt8
  deserialize : List UInt8 → Except Exn (Option AppSettings)

/-- What an open file says. -/
def parse (json : Json) (bytes : List UInt8) : Except Exn AppSettings := do
  match ← json.deserialize bytes with
  | none => .error (.invalidData "Settings file is empty.")
  | some settings => do
    settings.validate
    pure settings

/-- What a load makes of the file, or of none. -/
def stored (json : Json) : Option (List UInt8) → Except Exn AppSettings
  | none => .ok {}
  | some bytes => parse json bytes

structure State where
  files : File → Option (List UInt8)
  permits : Nat

inductive Site where
  | wait
  | openRead
  | read
  | createDirectory
  | createTemporary
  | write
  | flush
  | dispose
  | cancellation
  | move
  | delete
  deriving DecidableEq, Repr

/-! ## The file system -/

abbrev Run (α : Type) := State → Except Exn α × State

/-- A call that changes nothing here. -/
def nothing : Run Unit := fun s => (.ok (), s)

def openRead (file : File) : Run Unit := fun s =>
  match s.files file with
  | some _ => (.ok (), s)
  | none => (.error (.io "Could not find file."), s)

def readAll (file : File) : Run (List UInt8) := fun s =>
  match s.files file with
  | some bytes => (.ok bytes, s)
  | none => (.error (.io "Could not find file."), s)

/-- `FileMode.CreateNew`. -/
def createNew (file : File) : Run Unit := fun s =>
  match s.files file with
  | some _ => (.error (.io "The file already exists."), s)
  | none => (.ok (), { s with files := Function.update s.files file (some []) })

/-- One byte more at the end of an open file. -/
def append (file : File) (byte : UInt8) : Run Unit := fun s =>
  (.ok (), { s with files := Function.update s.files file ((s.files file).map (· ++ [byte])) })

/-- `File.Move(source, target, overwrite: true)`. -/
def move (source target : File) : Run Unit := fun s =>
  match s.files source with
  | some bytes =>
    (.ok (), { s with files := Function.update (Function.update s.files target (some bytes)) source none })
  | none => (.error (.io "Could not find file."), s)

def delete (file : File) : Run Unit := fun s => (.ok (), { s with files := Function.update s.files file none })

/-! ## The operations -/

abbrev Op (α : Type) := Eff (World State Site) Exn α

/-- `File.Exists`, which does not throw. -/
def fileExists (file : File) : Op Bool := do
  let w ← Eff.get
  pure (w.state.files file).isSome

/-- `gate.Release()`. -/
def release : Op Unit := do
  let w ← Eff.get
  Eff.lift (throwIf (w.state.permits = 1)
    (.other "Adding the specified count to the semaphore would cause it to exceed its maximum count."))
  Eff.modify fun w => { w with state := { w.state with permits := w.state.permits + 1 } }

section Operations

variable (json : Json) (faults : Nat → Fault Exn)

/-- `gate.WaitAsync`, over when the permit is there: it is taken, or the wait is cancelled. -/
def wait : Op Unit := statement faults .wait fun s => (.ok (), { s with permits := s.permits - 1 })

def loadStored : Op AppSettings := do
  call faults .openRead (openRead .settings)
  tryFinally
    (do
      let bytes ← call faults .read (readAll .settings)
      Eff.lift (parse json bytes))
    (call faults .dispose nothing)

def load : Op AppSettings := do
  wait faults
  tryFinally
    (do
      let stored ← fileExists .settings
      Eff.provided (stored = true) (loadStored json faults) {})
    release

/-- The bytes are written one by one: a write that throws leaves those before it. -/
def writeTemporary (name : Guid) (settings : AppSettings) : Op Unit := do
  call faults .createTemporary (createNew (.temporary name))
  tryFinally
    (do
      (json.serialize settings).forM fun byte => call faults .write (append (.temporary name) byte)
      call faults .flush nothing)
    (call faults .dispose nothing)

def replaceFile (name : Guid) (settings : AppSettings) : Op Unit := do
  call faults .createDirectory nothing
  writeTemporary json faults name settings
  checkpoint faults .cancellation
  statement faults .move (move (.temporary name) .settings)

/-- `if (File.Exists(temporary)) File.Delete(temporary);` -/
def deleteTemporary (name : Guid) : Op Unit := do
  let stored ← fileExists (.temporary name)
  Eff.provided (stored = true) (call faults .delete (delete (.temporary name))) ()

/-- `name` is the new identifier in the temporary file's name. -/
def save (settings : AppSettings) (name : Guid) : Op Unit := do
  Eff.lift settings.validate
  wait faults
  tryFinally (replaceFile json faults name settings) (tryFinally (deleteTemporary faults name) release)

end Operations

/-! ## A save -/

theorem temporary_ne (name : Guid) : File.temporary name ≠ .settings := by
  intro h
  cases h

/-- The two files of a save. -/
def replacing (name : Guid) : Replacing State File (List UInt8) := ⟨State.files, .settings, .temporary name, temporary_ne name⟩

section Specs

variable {json : Json} {faults : Nat → Fault Exn} {settings : AppSettings} {name : Guid} {w w' : World State Site}

theorem nothing_spares : (replacing name).Spares nothing := Replacing.spares_of_eq fun _ => rfl

theorem createNew_spares : (replacing name).Spares (createNew (.temporary name)) := by
  intro s
  unfold createNew
  split
  · exact ⟨s.files (.temporary name), (Function.update_eq_self ..).symm⟩
  · exact ⟨some [], rfl⟩

theorem append_spares (byte : UInt8) : (replacing name).Spares (append (.temporary name) byte) := fun _ => ⟨_, rfl⟩

theorem move_isMove : (replacing name).IsMove (move (.temporary name) .settings) := by
  intro s b hb
  change s.files (.temporary name) = some b at hb
  unfold move
  rw [hb]
  exact ⟨rfl, rfl⟩

theorem delete_isDelete : (replacing name).IsDelete (delete (.temporary name)) := fun _ => ⟨rfl, rfl⟩

/-- Byte after byte is written behind `before`. -/
theorem writeAll_spec {bytes before : List UInt8} (hw : (replacing name).Aside w (some before) w') :
    (bytes.forM fun byte => call faults .write (append (.temporary name) byte)).wp
      ((replacing name).Written w (before ++ bytes)) w' := by
  induction bytes generalizing before w' with
  | nil =>
    rw [List.append_nil]
    exact hw
  | cons byte bytes ih =>
    show Eff.wp (_ >>= _) _ w'
    rw [Eff.wp_bind]
    have hfile : w'.state.files (.temporary name) = some before :=
      (congrFun hw.2 (.temporary name)).trans (Function.update_self ..)
    have hbyte : (call faults .write (append (.temporary name) byte)).wp
        ((replacing name).Written w (before ++ [byte])) w' := by
      refine Replacing.wp_write ⟨_, hw⟩ (append_spares byte) ?_
      intro _ _
      show Function.update w'.state.files _ _ = _
      rw [hfile]
      rfl
    refine Eff.wp_mono hbyte ?_
    intro r v hv
    rcases r with e | u
    · exact hv
    · rw [← List.singleton_append, ← List.append_assoc]
      exact ih hv

/-- The temporary file is finished when it is closed. -/
theorem writeTemporary_spec (hw : (replacing name).Untouched w w') :
    (writeTemporary json faults name settings).wp ((replacing name).Written w (json.serialize settings)) w' := by
  unfold writeTemporary
  rw [Eff.wp_bind]
  have hcreate : (call faults .createTemporary (createNew (.temporary name))).wp ((replacing name).Written w []) w' := by
    refine Replacing.wp_write hw createNew_spares ?_
    intro _ hr
    unfold createNew at hr ⊢
    split
    · rename_i hfile
      rw [hfile] at hr
      cases hr
    · rfl
  refine Eff.wp_mono hcreate ?_
  intro r v hv
  rcases r with e | u
  · exact hv
  · refine Replacing.wp_finally_idle ?_ fun _ => rfl
    rw [Eff.wp_bind]
    refine Eff.wp_mono (writeAll_spec hv) ?_
    intro r v' hv'
    rcases r with e | u
    · exact hv'
    · exact Replacing.wp_idle hv' fun _ => rfl

theorem replaceFile_spec (hfresh : w.state.files (.temporary name) = none) (hw : (replacing name).Untouched w w') :
    (replaceFile json faults name settings).wp ((replacing name).Moved w (· = json.serialize settings)) w' := by
  unfold replaceFile
  refine Replacing.wp_bind_of_keeps (Replacing.keeps_call nothing_spares) hw ?_
  intro _ v hv
  refine Replacing.wp_bind_of_written (writeTemporary_spec hv) ?_
  intro _ v' hv'
  refine Replacing.wp_bind_of_written (Replacing.wp_checkpoint hv') ?_
  intro _ v'' hv''
  exact Replacing.wp_move hfresh hv'' rfl move_isMove

/-! ## The permit -/

/-- What a call of a save does to the permits: nothing, but for the wait and the release. -/
theorem call_permits {n : Nat} {site : Site} {α : Type} {run : Run α} (hrun : ∀ s, (run s).2.permits = s.permits) :
    Eff.Keeps (fun w => w.state.permits = n) (call faults site run) :=
  keeps_call (fun w _ hw => (hrun w.state).trans hw) fun _ hw => hw

theorem statement_permits {n : Nat} {site : Site} {α : Type} {run : Run α} (hrun : ∀ s, (run s).2.permits = s.permits) :
    Eff.Keeps (fun w => w.state.permits = n) (statement faults site run) :=
  keeps_statement (fun w _ hw => (hrun w.state).trans hw) fun _ hw => hw

theorem createNew_permits (file : File) (s : State) : (createNew file s).2.permits = s.permits := by
  unfold createNew
  split <;> rfl

theorem move_permits (source target : File) (s : State) : (move source target s).2.permits = s.permits := by
  unfold move
  split <;> rfl

theorem replaceFile_permits {n : Nat} :
    Eff.Keeps (fun w => w.state.permits = n) (replaceFile json faults name settings) := by
  unfold replaceFile writeTemporary
  refine .bind (call_permits fun _ => rfl) ?_
  intro _
  refine .bind (.bind (call_permits (createNew_permits _)) ?_) ?_
  · intro _
    refine .finally (.bind (.forM ?_ _) ?_) (call_permits fun _ => rfl)
    · exact fun byte => call_permits fun _ => rfl
    · exact fun _ => call_permits fun _ => rfl
  · intro _
    refine .bind (statement_permits fun _ => rfl) ?_
    intro _
    exact statement_permits (move_permits _ _)

theorem deleteTemporary_permits {n : Nat} : Eff.Keeps (fun w => w.state.permits = n) (deleteTemporary faults name) :=
  .bind (.bind .get fun _ => .pure _) fun _ => .provided (call_permits fun _ => rfl)

theorem release_spec (hw : w.state.permits = 0) :
    release.wp (fun r w' => r = .ok () ∧ w' = { w with state := { w.state with permits := 1 } }) w := by
  unfold release
  rw [Eff.wp_get_bind]
  have hfree : throwIf (ε := Exn) (w.state.permits = 1)
      (.other "Adding the specified count to the semaphore would cause it to exceed its maximum count.") = .ok () := by
    rw [throwIf_ok_iff, hw]
    decide
  rw [hfree, Eff.wp_lift_bind]
  refine ⟨rfl, ?_⟩
  show World.mk { w.state with permits := w.state.permits + 1 } w.calls = _
  rw [hw]

/-- What is done with the permit in hand gives it back. -/
theorem save_releases {v : World State Site} (hv : v.state.permits = 0) :
    (tryFinally (replaceFile json faults name settings) (tryFinally (deleteTemporary faults name) release)).wp
      (fun _ w' => w'.state.permits = 1) v := by
  rw [Eff.wp_finally]
  refine Eff.wp_mono (replaceFile_permits v hv) ?_
  intro r w' hw'
  rw [Eff.wp_finally]
  refine Eff.wp_mono (deleteTemporary_permits w' hw') ?_
  intro r' w'' hw''
  refine Eff.wp_mono (release_spec hw'') ?_
  intro r'' u ⟨hr, hu⟩
  subst hr hu
  cases r' <;> rfl

/-! ## The whole save -/

/-- The deletion goes through, or has thrown; the release follows in either case. -/
theorem cleanUp_stopped (hfresh : w.state.files (.temporary name) = none) (hpermits : w'.state.permits = 0)
    (hw : (replacing name).Untouched w w') :
    (tryFinally (deleteTemporary faults name) release).wp ((replacing name).Cleared .delete w) w' := by
  rw [Eff.wp_finally]
  have hdelete : (deleteTemporary faults name).wp ((replacing name).Cleared .delete w) w' :=
    Replacing.wp_delete hfresh hw delete_isDelete
  refine Eff.wp_mono (Eff.wp_and hdelete (deleteTemporary_permits w' hpermits)) ?_
  intro r v ⟨hcleared, hv⟩
  refine Eff.wp_mono (release_spec hv) ?_
  intro r' u ⟨hr, hu⟩
  subst hr hu
  exact hcleared

theorem cleanUp_moved (hpermits : w'.state.permits = 0) (hgone : w'.state.files (.temporary name) = none) :
    (tryFinally (deleteTemporary faults name) release).wp
      (fun r w'' => r = .ok () ∧ w''.calls = w'.calls ∧ w''.state.files = w'.state.files) w' := by
  rw [Eff.wp_finally]
  have hdelete : (deleteTemporary faults name).wp (fun r v => r = .ok () ∧ v = w') w' := by
    unfold deleteTemporary fileExists
    rw [Eff.wp_bind, Eff.wp_get_bind, Eff.wp_pure]
    refine Eff.wp_provided ?_ fun _ => ⟨rfl, rfl⟩
    intro hstored
    rw [hgone] at hstored
    cases hstored
  refine Eff.wp_mono hdelete ?_
  intro r v ⟨hr, hv⟩
  subst hr hv
  refine Eff.wp_mono (release_spec hpermits) ?_
  intro r' u ⟨hr, hu⟩
  subst hr hu
  exact ⟨rfl, rfl, rfl⟩

/-- A save that returns has replaced the settings file by valid settings, and one that
    throws has left it alone; the permit is back. -/
theorem save_replaces (hfresh : w.state.files (.temporary name) = none) (hpermit : w.state.permits = 1) :
    (save json faults settings name).wp (fun r w' =>
      (replacing name).Replaced .delete w (fun b => settings.validate = .ok () ∧ b = json.serialize settings) r w' ∧
        w'.state.permits = 1) w := by
  unfold save
  refine Eff.wp_lift_step ?_ ?_
  · intro e _
    exact ⟨⟨[], by simp, Or.inl rfl⟩, hpermit⟩
  · intro _ hvalid
    unfold wait
    rw [Eff.wp_bind]
    refine wp_statement ?_ ?_
    · have hzero : w.state.permits - 1 = 0 := by omega
      refine Eff.wp_and ?_ (save_releases hzero)
      have hbefore : (replacing name).Aside w none w := Replacing.Aside.refl hfresh
      have haside : (replacing name).Untouched w
          ⟨{ w.state with permits := w.state.permits - 1 }, w.calls ++ [⟨.wait, false⟩]⟩ :=
        ⟨none, hbefore.idle (s := { w.state with permits := w.state.permits - 1 }) rfl ⟨.wait, false⟩⟩
      refine Replacing.wp_replace (I := fun w' => w'.state.permits = 0) ?_ ?_ ?_ hfresh
      · refine Eff.wp_mono (Eff.wp_and (replaceFile_permits _ hzero) (replaceFile_spec hfresh haside)) ?_
        intro r w' ⟨hpermits, hr⟩
        refine ⟨hpermits, ?_⟩
        rcases r with e | u
        · exact hr
        · obtain ⟨hcalls, b, hb, hfiles⟩ := hr
          exact ⟨hcalls, b, ⟨hvalid, hb⟩, hfiles⟩
      · intro w' hpermits hw'
        exact cleanUp_stopped hfresh hpermits hw'
      · intro w' hpermits hgone
        exact cleanUp_moved hpermits hgone
    · intro e _
      exact ⟨⟨[_], rfl, Or.inl rfl⟩, hpermit⟩

/-! ## A load -/

theorem loadStored_spec {bytes : List UInt8} (hfile : w.state.files .settings = some bytes) :
    (loadStored json faults).wp (Yields faults w.state (parse json bytes)) w := by
  have hopen : openRead .settings w.state = (.ok (), w.state) := by simp [openRead, hfile]
  have hread : readAll .settings w.state = (.ok bytes, w.state) := by simp [readAll, hfile]
  unfold loadStored
  refine wp_bind_yields (wp_call_yields rfl hopen) nofun ?_
  intro _ v _ hv
  refine wp_finally_yields ?_ rfl
  refine wp_bind_yields (wp_call_yields hv hread) nofun ?_
  intro bytes' v' hbytes hv'
  cases hbytes
  exact wp_lift_yields hv'

/-- A load returns what the file says and changes nothing, unless a call throws. -/
theorem load_spec (hpermit : w.state.permits = 1) :
    (load json faults).wp (Yields faults w.state (stored json (w.state.files .settings))) w := by
  unfold load wait
  rw [Eff.wp_bind]
  refine wp_statement ?_ ?_
  · show Eff.wp (tryFinally _ _) _ _
    rw [Eff.wp_finally]
    have hbody : Eff.wp (do
        let stored ← fileExists .settings
        Eff.provided (stored = true) (loadStored json faults) {})
        (Yields faults { w.state with permits := 0 } (stored json (w.state.files .settings)))
        ⟨{ w.state with permits := w.state.permits - 1 }, w.calls ++ [⟨.wait, false⟩]⟩ := by
      rw [hpermit]
      unfold fileExists
      rw [Eff.wp_bind, Eff.wp_get_bind, Eff.wp_pure]
      refine Eff.wp_provided ?_ ?_
      · intro hstored
        obtain ⟨bytes, hfile⟩ := Option.isSome_iff_exists.mp hstored
        change w.state.files .settings = some bytes at hfile
        rw [hfile]
        exact loadStored_spec hfile
      · intro hnone
        have hfile : w.state.files .settings = none := Option.not_isSome_iff_eq_none.mp hnone
        rw [hfile]
        exact ⟨rfl, Or.inl rfl⟩
    refine Eff.wp_mono hbody ?_
    intro r w' ⟨hstate, hr⟩
    refine Eff.wp_mono (release_spec (congrArg State.permits hstate)) ?_
    intro r' u ⟨hr', hu⟩
    subst hr' hu
    refine ⟨?_, hr⟩
    show { w'.state with permits := 1 } = w.state
    rw [hstate, ← hpermit]
  · intro e h
    exact ⟨rfl, Or.inr ⟨rfl, _, h⟩⟩

/-- Valid settings that were serialized are read back. -/
theorem stored_serialize (hvalid : settings.validate = .ok ())
    (hjson : json.deserialize (json.serialize settings) = .ok (some settings)) :
    stored json (some (json.serialize settings)) = .ok settings := by
  show (json.deserialize (json.serialize settings) >>= _) = _
  rw [hjson]
  show (settings.validate >>= fun _ => _) = _
  rw [hvalid]
  rfl

end Specs

/-! ## Runs -/

inductive Event where
  | load
  | save (settings : AppSettings) (name : Guid)
  /-- The file is edited or deleted from outside. -/
  | edit (contents : Option (List UInt8))

section Runs

variable (json : Json) (faults : Nat → Fault Exn)

/-- One call at a time has the permit, and it keeps it to its end. -/
def step (w : World State Site) : Event → Option (World State Site)
  | .load => if w.state.permits = 0 then none else some (load json faults w).2
  | .save settings name =>
    if w.state.permits = 0 ∨ w.state.files (.temporary name) ≠ none then none else some (save json faults settings name w).2
  | .edit contents => some { w with state := { w.state with files := Function.update w.state.files .settings contents } }

/-- No settings file yet, and the permit is there. -/
def Start (w : World State Site) : Prop := w.state.permits = 1 ∧ w.state.files .settings = none

def store : Machine (World State Site) Event := ⟨Start, step json faults⟩

/-- The settings saved last, after one more call. -/
def savedBy (last : Option AppSettings) (p : World State Site × Event) : Option AppSettings :=
  match p.2 with
  | .save settings name => if threw (save json faults settings name p.1).1 then last else some settings
  | _ => last

/-- The settings of the last save that returned. -/
def lastSaved (log : List (World State Site × Event)) : Option AppSettings := log.foldl (savedBy json faults) none

/-- Nothing else touches the file. -/
def ByCalls (_ : World State Site) : Event → Prop
  | .edit _ => False
  | _ => True

end Runs

section Runs

variable {json : Json} {faults : Nat → Fault Exn} {log : List (World State Site × Event)} {w w' : World State Site}

theorem step_permit {e : Event} (hw : w.state.permits = 1) (hs : step json faults w e = some w') : w'.state.permits = 1 := by
  cases e with
  | load =>
    simp only [step, hw, Nat.one_ne_zero, if_false, Option.some.injEq] at hs
    have hload : (load json faults).wp _ w := load_spec hw
    obtain ⟨hstate, -⟩ := hload
    rw [← hs, hstate, hw]
  | save settings name =>
    simp only [step, hw, Nat.one_ne_zero, false_or] at hs
    split at hs
    · cases hs
    · rename_i hfresh
      cases hs
      exact (save_replaces (Decidable.not_not.mp hfresh) hw).2
  | edit contents =>
    cases hs
    exact hw

/-- The permit comes back from every call, whatever throws. -/
theorem permit_between_calls (h : (store json faults).Runs log w) : w.state.permits = 1 := by
  have hstep : ∀ w e w', w.state.permits = 1 → (store json faults).step w e = some w' → w'.state.permits = 1 :=
    fun _ _ _ hw hs => step_permit hw hs
  have hstart : ∀ w, (store json faults).init w → w.state.permits = 1 := fun _ hw => hw.1
  exact Machine.Reach.inv hstart hstep ⟨log, h⟩

/-- The file holds what was saved last. -/
def Shows (json : Json) (faults : Nat → Fault Exn) (log : List (World State Site × Event)) (w : World State Site) : Prop :=
  w.state.files .settings = (lastSaved json faults log).map json.serialize ∧
    ∀ settings, lastSaved json faults log = some settings → settings.validate = .ok ()

theorem step_shows {e : Event} (hpermit : w.state.permits = 1) (hw : Shows json faults log w) (he : ByCalls w e)
    (hs : step json faults w e = some w') : Shows json faults (log ++ [(w, e)]) w' := by
  have hlast : lastSaved json faults (log ++ [(w, e)]) = savedBy json faults (lastSaved json faults log) (w, e) := by
    simp [lastSaved]
  unfold Shows
  rw [hlast]
  cases e with
  | load =>
    simp only [step, hpermit, Nat.one_ne_zero, if_false, Option.some.injEq] at hs
    have hload : (load json faults).wp _ w := load_spec hpermit
    obtain ⟨hstate, -⟩ := hload
    rw [← hs, hstate]
    exact hw
  | save settings name =>
    simp only [step, hpermit, Nat.one_ne_zero, false_or] at hs
    split at hs
    · cases hs
    · rename_i hfresh
      cases hs
      have hspec : (save json faults settings name).wp _ w := save_replaces (Decidable.not_not.mp hfresh) hpermit
      obtain ⟨hreplaced, -⟩ := hspec
      unfold savedBy
      rcases hr : (save json faults settings name w).1 with e | u
      · rw [hr] at hreplaced
        have hold : (save json faults settings name w).2.state.files .settings = w.state.files .settings :=
          hreplaced.target_old
        simp only [hr, threw_error, if_true]
        rw [hold]
        exact hw
      · rw [hr] at hreplaced
        obtain ⟨b, ⟨hvalid, rfl⟩, hfile⟩ := hreplaced.target_new
        simp only [hr, threw_ok, Bool.false_eq_true, if_false, Option.some.injEq]
        refine ⟨hfile, ?_⟩
        intro saved hsaved
        rw [← hsaved, hvalid]
  | edit contents => exact he.elim

/-- In every run that only the store's calls touch the file in, whatever throws, a load
    returns the settings saved last, or the defaults before the first save. -/
theorem last_saved_is_loaded (h : (store json faults).Runs log w) (hcalls : Machine.Throughout ByCalls log)
    (hjson : ∀ settings, settings.validate = .ok () →
      json.deserialize (json.serialize settings) = .ok (some settings)) (faults' : Nat → Fault Exn) :
    (load json faults').wp (Yields faults' w.state (.ok ((lastSaved json faults log).getD {}))) w := by
  have hshows : Shows json faults log w := by
    refine Machine.Runs.log_inv (I := fun log w => Machine.Throughout ByCalls log → Shows json faults log w) ?_ ?_ h hcalls
    · intro w hw _
      exact ⟨hw.2, nofun⟩
    · intro log w e w' hr ih hs hcalls
      obtain ⟨hlog, he⟩ := (Machine.throughout_snoc _ _ _ _).mp hcalls
      exact step_shows (permit_between_calls hr) (ih hlog) he hs
  obtain ⟨hfile, hvalid⟩ := hshows
  have hstored : stored json (w.state.files .settings) = .ok ((lastSaved json faults log).getD {}) := by
    rw [hfile]
    cases hlast : lastSaved json faults log with
    | none => rfl
    | some settings =>
      have hok := hvalid settings hlast
      exact stored_serialize hok (hjson settings hok)
  rw [← hstored]
  exact load_spec (permit_between_calls h)

end Runs

end MythLab.Storage.SettingsStore
