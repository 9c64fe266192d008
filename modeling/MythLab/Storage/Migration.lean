/-
  MythLab.Storage.Migration — calls of `InitializeAsync` on one database file, of any
  number of repositories in any number of processes.

  A call waits at its repository's gate, opens its own connection, reads the user version,
  switches the journal mode and, where it read version 0, executes the schema's batch in a
  transaction. `BeginTransaction` takes the write lock (`writer`); the transaction works on
  its own version of the file until it commits. A step (`advance`) is one SQL statement, or
  one await or check between two of them; a call may be cancelled, time out at a lock, or
  fail, in any of its steps, and then rolls back.

  Proved (`initialized_iff`), in every state of every run: the file is fresh or complete
  and has its rows, it is complete once a call has succeeded, and the calls can go on until
  all have ended; and the calls that were not cancelled, did not time out and met no
  failure have all succeeded exactly if no call began to create the tables of a file that
  was at version 1 already, having read its version before another call committed.
-/
import MythLab.Lib.Indexed
import MythLab.Lib.Machine
import MythLab.Storage.Schema

namespace MythLab.Storage.Migration

open Lib Dotnet Schema

inductive Outcome where
  | succeeded
  | cancelled
  /-- SQLite gave up waiting for a lock. -/
  | timedOut
  /-- The file system or SQLite failed. -/
  | failed
  /-- The code or a statement refused. -/
  | refused (e : Exn)
  deriving DecidableEq, Repr

inductive Phase where
  /-- At the gate. -/
  | waiting
  | starting
  | opened
  | reading
  | switching (current : Nat)
  | beginning
  /-- In the transaction: the statements left, and the file as the transaction sees it. -/
  | creating (rest : List Statement) (file : File)
  | committing (file : File)
  | ended (outcome : Outcome)

/-- The call is past the gate. -/
def Phase.inside : Phase → Bool
  | .waiting | .ended _ => false
  | _ => true

/-- It executes a statement, and may have to wait for a lock. -/
def Phase.executes : Phase → Bool
  | .reading | .switching _ | .beginning | .creating (_ :: _) _ | .committing _ => true
  | _ => false

/-- It looks at its token next. -/
def Phase.checks : Phase → Bool
  | .starting | .opened | .creating [] _ => true
  | _ => false

/-- It has the write lock. -/
def Phase.writes : Phase → Bool
  | .creating _ _ | .committing _ => true
  | _ => false

def Phase.isEnded : Phase → Bool
  | .ended _ => true
  | _ => false

structure Call where
  repository : Nat
  /-- Its token. -/
  cancelled : Bool
  phase : Phase

structure State where
  file : File
  wal : Bool
  /-- The call with the write lock. -/
  writer : Option Nat
  /-- Free places at each repository's gate. -/
  permits : Nat → Nat
  initialized : Nat → Bool
  calls : List Call

inductive Event where
  | initializeAsync (repository : Nat)
  | cancel (i : Nat)
  | advance (i : Nat)
  | timesOut (i : Nat)
  | fails (i : Nat)
  deriving Repr

def goOn (s : State) (i : Nat) (c : Call) (phase : Phase) : State :=
  { s with calls := s.calls.set i { c with phase := phase } }

def enter (s : State) (i : Nat) (c : Call) : State :=
  { goOn s i c .starting with
    permits := Function.update s.permits c.repository (s.permits c.repository - 1) }

/-- The call leaves the gate; what its transaction did is lost unless it has committed. -/
def finish (s : State) (i : Nat) (c : Call) (outcome : Outcome) : State :=
  { goOn s i c (.ended outcome) with
    writer := if s.writer = some i then none else s.writer
    permits := Function.update s.permits c.repository (s.permits c.repository + 1)
    initialized :=
      if outcome = .succeeded then Function.update s.initialized c.repository true else s.initialized }

/-- `ThrowIfCancellationRequested`, and on. -/
def checked (s : State) (i : Nat) (c : Call) (phase : Phase) : State :=
  if c.cancelled then finish s i c .cancelled else goOn s i c phase

def advance (s : State) (i : Nat) (c : Call) : Option State :=
  match c.phase with
  | .waiting =>
    if c.cancelled then some (goOn s i c (.ended .cancelled))
    else if 0 < s.permits c.repository then some (enter s i c)
    else none
  | .starting => some (checked s i c .opened)
  | .opened => some (checked s i c .reading)
  | .reading =>
    if s.file.userVersion > 1 then
      some (finish s i c (.refused (.invalidOperation "The database was created by a newer application version.")))
    else some (goOn s i c (.switching s.file.userVersion))
  | .switching current =>
    -- the journal mode of a file that is in WAL mode already does not change
    if s.wal ∨ s.writer = none then
      if current = 0 then some (goOn { s with wal := true } i c .beginning)
      else some (finish { s with wal := true } i c .succeeded)
    else none
  | .beginning =>
    if s.writer = none then some { goOn s i c (.creating schema s.file) with writer := some i } else none
  | .creating (statement :: rest) file =>
    match execute statement file with
    | .ok file => some (goOn s i c (.creating rest file))
    | .error e => some (finish s i c (.refused e))
  | .creating [] file => some (checked s i c (.committing file))
  | .committing file => some (finish { s with file := file } i c .succeeded)
  | .ended _ => none

def step (s : State) : Event → Option State
  | .initializeAsync repository => some { s with calls := s.calls ++ [⟨repository, false, .waiting⟩] }
  | .cancel i =>
    match s.calls[i]? with
    | some c => if c.phase.isEnded then none else some { s with calls := s.calls.set i { c with cancelled := true } }
    | none => none
  | .advance i =>
    match s.calls[i]? with
    | some c => advance s i c
    | none => none
  | .timesOut i =>
    match s.calls[i]? with
    | some c => if c.phase.executes then some (finish s i c .timedOut) else none
    | none => none
  | .fails i =>
    match s.calls[i]? with
    | some c => if c.phase.inside then some (finish s i c .failed) else none
    | none => none

def initial (start : File) (wal : Bool) : State where
  file := start
  wal := wal
  writer := none
  permits _ := 1
  initialized _ := false
  calls := []

def machine (start : File) : Machine State Event := ⟨fun s => Whole start ∧ ∃ wal, s = initial start wal, step⟩

/-! ## What a step does -/

section Steps

variable {s s' : State} {e : Event} {i : Nat} {c : Call} {p : Phase} {o : Outcome}

/-- The steps on the way of a call. -/
inductive Moves (s : State) : Phase → Phase → Prop
  | opens : Moves s .starting .opened
  | checks : Moves s .opened .reading
  | reads : s.file.userVersion ≤ 1 → Moves s .reading (.switching s.file.userVersion)
  | switches : Moves s (.switching 0) .beginning
  | creates {statement : Statement} {rest : List Statement} {file file' : File} :
      execute statement file = .ok file' → Moves s (.creating (statement :: rest) file) (.creating rest file')
  | created {file : File} : Moves s (.creating [] file) (.committing file)

/-- How a call ends on its own without having changed the file, other than by a refusal. -/
inductive Ends : Phase → Outcome → Prop
  | cancelled {p : Phase} : p.checks = true → Ends p .cancelled
  | migrated {current : Nat} : current ≠ 0 → Ends (.switching current) .succeeded

inductive Change (s : State) : Event → State → Prop
  | initializeAsync (repository : Nat) :
      Change s (.initializeAsync repository) { s with calls := s.calls ++ [⟨repository, false, .waiting⟩] }
  | cancel {i : Nat} {c : Call} : s.calls[i]? = some c → c.phase.isEnded = false →
      Change s (.cancel i) { s with calls := s.calls.set i { c with cancelled := true } }
  | giveUp {i : Nat} {c : Call} : s.calls[i]? = some c → c.phase = .waiting →
      Change s (.advance i) (goOn s i c (.ended .cancelled))
  | enter {i : Nat} {c : Call} : s.calls[i]? = some c → c.phase = .waiting → 0 < s.permits c.repository →
      Change s (.advance i) (enter s i c)
  | moves {i : Nat} {c : Call} {p : Phase} (wal : Bool) : s.calls[i]? = some c → Moves s c.phase p →
      Change s (.advance i) (goOn { s with wal := wal } i c p)
  | begins {i : Nat} {c : Call} : s.calls[i]? = some c → c.phase = .beginning → s.writer = none →
      Change s (.advance i) { goOn s i c (.creating schema s.file) with writer := some i }
  | commits {i : Nat} {c : Call} {file : File} : s.calls[i]? = some c → c.phase = .committing file →
      Change s (.advance i) (finish { s with file := file } i c .succeeded)
  | newer {i : Nat} {c : Call} (e : Exn) : s.calls[i]? = some c → c.phase = .reading → 1 < s.file.userVersion →
      Change s (.advance i) (finish s i c (.refused e))
  | refuses {i : Nat} {c : Call} {statement : Statement} {rest : List Statement} {file : File} {e : Exn} :
      s.calls[i]? = some c → c.phase = .creating (statement :: rest) file → execute statement file = .error e →
      Change s (.advance i) (finish s i c (.refused e))
  | ends {i : Nat} {c : Call} {o : Outcome} (wal : Bool) : s.calls[i]? = some c → Ends c.phase o →
      Change s (.advance i) (finish { s with wal := wal } i c o)
  | timesOut {i : Nat} {c : Call} : s.calls[i]? = some c → c.phase.executes = true →
      Change s (.timesOut i) (finish s i c .timedOut)
  | fails {i : Nat} {c : Call} : s.calls[i]? = some c → c.phase.inside = true →
      Change s (.fails i) (finish s i c .failed)

theorem checked_change {q : Phase} (hc : s.calls[i]? = some c) (hchecks : c.phase.checks = true)
    (hmoves : Moves s c.phase q) : Change s (.advance i) (checked s i c q) := by
  unfold checked
  split
  · exact .ends s.wal hc (.cancelled hchecks)
  · exact .moves s.wal hc hmoves

theorem advance_change (hc : s.calls[i]? = some c) (hs : advance s i c = some s') : Change s (.advance i) s' := by
  unfold advance at hs
  split at hs
  · rename_i hp
    split at hs
    · cases hs
      exact .giveUp hc hp
    · split at hs <;> cases hs
      exact .enter hc hp ‹_›
  · rename_i hp
    cases hs
    exact checked_change hc (by rw [hp]; rfl) (hp ▸ .opens)
  · rename_i hp
    cases hs
    exact checked_change hc (by rw [hp]; rfl) (hp ▸ .checks)
  · rename_i hp
    split at hs <;> cases hs
    · exact .newer _ hc hp ‹_›
    · exact .moves s.wal hc (hp ▸ .reads (Nat.le_of_not_lt ‹_›))
  · rename_i current hp
    split at hs
    · split at hs <;> cases hs
      · rename_i hzero
        rw [hzero] at hp
        exact .moves true hc (hp ▸ .switches)
      · exact .ends true hc (hp ▸ .migrated ‹_›)
    · cases hs
  · rename_i hp
    split at hs <;> cases hs
    exact .begins hc hp ‹_›
  · rename_i hp
    split at hs <;> cases hs
    · exact .moves s.wal hc (hp ▸ .creates ‹_›)
    · exact .refuses hc hp ‹_›
  · rename_i hp
    cases hs
    exact checked_change hc (by rw [hp]; rfl) (hp ▸ .created)
  · rename_i hp
    cases hs
    exact .commits hc hp
  · cases hs

theorem step_change (hs : step s e = some s') : Change s e s' := by
  cases e with
  | initializeAsync repository =>
    cases hs
    exact .initializeAsync repository
  | cancel i =>
    simp only [step] at hs
    split at hs
    · split at hs <;> cases hs
      exact .cancel ‹_› ((Bool.not_eq_true _).mp ‹_›)
    · cases hs
  | advance i =>
    simp only [step] at hs
    split at hs
    · exact advance_change ‹_› hs
    · cases hs
  | timesOut i =>
    simp only [step] at hs
    split at hs
    · split at hs <;> cases hs
      exact .timesOut ‹_› ‹_›
    · cases hs
  | fails i =>
    simp only [step] at hs
    split at hs
    · split at hs <;> cases hs
      exact .fails ‹_› ‹_›
    · cases hs

end Steps

/-! ## Invariants -/

/-- What call `i` knows of the file in each phase. -/
def Settled (s : State) (i : Nat) : Phase → Prop
  | .switching current => current = 0 ∨ Complete s.file
  | .creating rest file => s.writer = some i ∧ ∃ done, done ++ rest = schema ∧ run done s.file = .ok file
  | .committing file => s.writer = some i ∧ run schema s.file = .ok file
  | .ended .succeeded => Complete s.file
  | _ => True

/-- Whether the call has the permit of the repository's gate. -/
def holds (repository : Nat) (c : Call) : Nat := if c.repository = repository ∧ c.phase.inside = true then 1 else 0

theorem holds_outside {r : Nat} {c : Call} (h : c.phase.inside = false) : holds r c = 0 := by simp [holds, h]

theorem holds_congr {r : Nat} {c d : Call} (hr : d.repository = c.repository) (h : d.phase.inside = c.phase.inside) :
    holds r d = holds r c := by
  unfold holds
  rw [hr, h]

structure Inv (start : File) (s : State) : Prop where
  whole : Whole s.file
  rows : s.file.db = start.db
  calls : ∀ i c, s.calls[i]? = some c → Settled s i c.phase
  gates : ∀ r, s.permits r + weight (holds r) s.calls = 1
  writer : ∀ i, s.writer = some i → ∃ c, s.calls[i]? = some c ∧ c.phase.writes = true

section Invariants

variable {start : File} {s s' : State} {i j : Nat} {c : Call} {p : Phase}

/-- What a call knows stays true while the file only becomes complete, and does not change
    under the writer. -/
theorem Settled.mono (h : Settled s j p) (hfile : Complete s.file → Complete s'.file)
    (hwriter : s.writer = some j → s'.writer = some j ∧ s'.file = s.file) : Settled s' j p := by
  unfold Settled at h ⊢
  split
  · exact h.imp_right hfile
  · obtain ⟨hw, done, hdone, hrun⟩ := h
    obtain ⟨hw', hsame⟩ := hwriter hw
    exact ⟨hw', done, hdone, hsame ▸ hrun⟩
  · obtain ⟨hw, hrun⟩ := h
    obtain ⟨hw', hsame⟩ := hwriter hw
    exact ⟨hw', hsame ▸ hrun⟩
  · exact hfile h
  · trivial

theorem initial_inv (hstart : Whole start) (wal : Bool) : Inv start (initial start wal) where
  whole := hstart
  rows := rfl
  calls _ _ h := nomatch h
  gates _ := rfl
  writer _ h := nomatch h

/-- A step of call `i` keeps the invariant if these things hold. -/
theorem Inv.update (h : Inv start s) (hc : s.calls[i]? = some c) {c' : Call} (hcalls : s'.calls = s.calls.set i c')
    (hwhole : Whole s'.file) (hrows : s'.file.db = start.db) (hself : Settled s' i c'.phase)
    (hfile : Complete s.file → Complete s'.file)
    (hothers : ∀ j ≠ i, s.writer = some j → s'.writer = some j ∧ s'.file = s.file)
    (hgates : ∀ r, s'.permits r + holds r c' = s.permits r + holds r c)
    (hwriter : ∀ j, s'.writer = some j → j = i ∧ c'.phase.writes = true ∨ j ≠ i ∧ s.writer = some j) :
    Inv start s' where
  whole := hwhole
  rows := hrows
  calls j d hd := by
    rw [hcalls] at hd
    rcases getElem?_set_cases hd with ⟨hne, hd⟩ | ⟨rfl, rfl⟩
    · exact (h.calls j d hd).mono hfile (hothers j (Ne.symm hne))
    · exact hself
  gates r := by
    have hsum := h.gates r
    have hset := weight_set (holds r) hc c'
    have hkept := hgates r
    rw [hcalls]
    omega
  writer j hj := by
    rw [hcalls]
    rcases hwriter j hj with ⟨rfl, hwrites⟩ | ⟨hne, hj⟩
    · refine ⟨c', ?_, hwrites⟩
      obtain ⟨hlt, -⟩ := List.getElem?_eq_some_iff.mp hc
      rw [List.getElem?_set_self hlt]
    · obtain ⟨d, hd, hwrites⟩ := h.writer j hj
      refine ⟨d, ?_, hwrites⟩
      rw [List.getElem?_set_ne (Ne.symm hne), hd]

theorem Moves.inside {q : Phase} (hm : Moves s p q) : p.inside = true ∧ q.inside = true := by
  cases hm <;> exact ⟨rfl, rfl⟩

theorem Moves.writes {q : Phase} (hm : Moves s p q) (hp : p.writes = true) : q.writes = true := by
  cases hm <;> first | rfl | cases hp

theorem Moves.settled {q : Phase} (hm : Moves s p q) (hwhole : Whole s.file) (hp : Settled s i p) : Settled s i q := by
  cases hm with
  | opens => trivial
  | checks => trivial
  | reads => exact hwhole.imp (fun hfresh => hfresh.version) id
  | switches => trivial
  | creates hexecute =>
    obtain ⟨hwriter, done, hdone, hrun⟩ := hp
    exact ⟨hwriter, _, by rw [List.append_assoc, List.singleton_append, hdone], (run_snoc hrun _).trans hexecute⟩
  | created =>
    obtain ⟨hwriter, done, hdone, hrun⟩ := hp
    rw [List.append_nil] at hdone
    exact ⟨hwriter, hdone ▸ hrun⟩

theorem Inv.settled (h : Inv start s) (hc : s.calls[i]? = some c) (hp : c.phase = p) : Settled s i p :=
  hp ▸ h.calls i c hc

theorem Inv.writes (h : Inv start s) (hc : s.calls[i]? = some c) (hi : s.writer = some i) : c.phase.writes = true := by
  obtain ⟨d, hd, hwrites⟩ := h.writer i hi
  obtain rfl := Option.some.inj (hc.symm.trans hd)
  exact hwrites

/-- A step of call `i` that leaves the file and the lock. -/
theorem Inv.replace (h : Inv start s) (hc : s.calls[i]? = some c) {c' : Call} (hcalls : s'.calls = s.calls.set i c')
    (hfile : s'.file = s.file) (hwriter : s'.writer = s.writer) (hself : Settled s' i c'.phase)
    (hgates : ∀ r, s'.permits r + holds r c' = s.permits r + holds r c)
    (hwrites : c.phase.writes = true → c'.phase.writes = true) : Inv start s' := by
  refine h.update hc hcalls (hfile ▸ h.whole) (hfile ▸ h.rows) hself (fun hf => hfile ▸ hf) ?_ hgates ?_
  · intro j _ hj
    exact ⟨hwriter.trans hj, hfile⟩
  · intro j hj
    rw [hwriter] at hj
    by_cases hji : j = i
    · subst hji
      exact Or.inl ⟨rfl, hwrites (h.writes hc hj)⟩
    · exact Or.inr ⟨hji, hj⟩

theorem moves_inv (h : Inv start s) (hc : s.calls[i]? = some c) (hm : Moves s c.phase p) (wal : Bool) :
    Inv start (goOn { s with wal := wal } i c p) := by
  have hsettled : Settled s i p := hm.settled h.whole (h.calls i c hc)
  refine h.replace hc rfl rfl rfl (hsettled.mono id fun hw => ⟨hw, rfl⟩) ?_ hm.writes
  intro r
  exact congrArg _ (holds_congr rfl (hm.inside.2.trans hm.inside.1.symm))

theorem finish_inv {wal : Bool} {file : File} {o : Outcome} (h : Inv start s) (hc : s.calls[i]? = some c)
    (hin : c.phase.inside = true) (hwhole : Whole file) (hrows : file.db = start.db)
    (hfile : Complete s.file → Complete file) (hchange : file = s.file ∨ s.writer = some i)
    (hsucceeded : o = .succeeded → Complete file) :
    Inv start (finish { s with wal := wal, file := file } i c o) := by
  refine h.update hc rfl hwhole hrows ?_ hfile ?_ ?_ ?_
  · cases o with
    | succeeded => exact hsucceeded rfl
    | _ => trivial
  · intro j hne hj
    have hother : s.writer ≠ some i := by
      rw [hj]
      simpa using hne
    exact ⟨(if_neg hother).trans hj, hchange.resolve_right hother⟩
  · intro r
    show Function.update s.permits c.repository (s.permits c.repository + 1) r +
      holds r { c with phase := Phase.ended o } = _
    rw [holds_outside rfl]
    unfold holds
    by_cases hr : c.repository = r
    · subst hr
      simp [hin]
    · rw [Function.update_of_ne (Ne.symm hr), if_neg fun hboth => hr hboth.1]
  · intro j hj
    by_cases hi : s.writer = some i
    · rw [show (finish { s with wal := wal, file := file } i c o).writer = none from if_pos hi] at hj
      cases hj
    · rw [show (finish { s with wal := wal, file := file } i c o).writer = s.writer from if_neg hi] at hj
      exact Or.inr ⟨fun he => hi (he ▸ hj), hj⟩

/-- An end that leaves the file as it is. -/
theorem ends_inv {wal : Bool} {o : Outcome} (h : Inv start s) (hc : s.calls[i]? = some c) (hin : c.phase.inside = true)
    (hsucceeded : o = .succeeded → Complete s.file) : Inv start (finish { s with wal := wal } i c o) :=
  finish_inv h hc hin h.whole h.rows id (Or.inl rfl) hsucceeded

theorem inside_of_executes (h : p.executes = true) : p.inside = true := by
  unfold Phase.executes at h
  split at h <;> first | rfl | cases h

theorem inside_of_checks (h : p.checks = true) : p.inside = true := by
  unfold Phase.checks at h
  split at h <;> first | rfl | cases h

theorem Ends.inside {o : Outcome} (he : Ends p o) : p.inside = true := by
  cases he with
  | cancelled hchecks => exact inside_of_checks hchecks
  | migrated => rfl

theorem Ends.complete (he : Ends p .succeeded) (hp : Settled s i p) : Complete s.file := by
  cases he with
  | migrated hne => exact hp.resolve_left hne

theorem step_inv {e : Event} (h : Inv start s) (hs : step s e = some s') : Inv start s' := by
  cases step_change hs with
  | initializeAsync repository =>
    refine ⟨h.whole, h.rows, ?_, ?_, ?_⟩
    · intro j d hd
      rcases getElem?_snoc_cases hd with hd | ⟨-, rfl⟩
      · exact h.calls j d hd
      · trivial
    · intro r
      show s.permits r + weight (holds r) (s.calls ++ [_]) = 1
      rw [weight_snoc, holds_outside rfl]
      exact h.gates r
    · intro j hj
      obtain ⟨d, hd, hwrites⟩ := h.writer j hj
      obtain ⟨hlt, -⟩ := List.getElem?_eq_some_iff.mp hd
      exact ⟨d, (List.getElem?_append_left hlt).trans hd, hwrites⟩
  | @cancel i c hc hopen => exact h.replace hc rfl rfl rfl (h.calls i c hc) (fun _ => rfl) id
  | giveUp hc hp =>
    refine h.replace hc rfl rfl rfl trivial ?_ ?_
    · intro r
      exact congrArg _ (holds_congr rfl (by rw [hp]; rfl))
    · rw [hp]
      exact nofun
  | @enter i c hc hp hpermit =>
    refine h.replace hc rfl rfl rfl trivial ?_ ?_
    · intro r
      rw [holds_outside (c := c) (by rw [hp]; rfl)]
      show Function.update s.permits c.repository (s.permits c.repository - 1) r + _ = _
      by_cases hr : c.repository = r
      · subst hr
        simp only [Function.update_self, holds, Phase.inside, and_self, if_true]
        omega
      · simp [holds, hr, Ne.symm hr]
    · rw [hp]
      exact nofun
  | moves wal hc hm => exact moves_inv h hc hm wal
  | @begins i c hc hp hfree =>
    refine h.update hc rfl h.whole h.rows ⟨rfl, [], rfl, rfl⟩ id ?_ ?_ ?_
    · intro j _ hj
      rw [hfree] at hj
      cases hj
    · intro r
      exact congrArg _ (holds_congr rfl (by rw [hp]; rfl))
    · intro j hj
      obtain rfl := Option.some.inj hj
      exact Or.inl ⟨rfl, rfl⟩
  | @commits i c file hc hp =>
    obtain ⟨hwriter, hrun⟩ := h.settled hc hp
    obtain ⟨hcomplete, hrows⟩ := h.whole.run_schema hrun
    exact @finish_inv _ _ _ _ s.wal file _ h hc (by rw [hp]; rfl) (Or.inr hcomplete) (hrows.trans h.rows) (fun _ => hcomplete)
      (Or.inr hwriter) fun _ => hcomplete
  | newer e hc hp => exact ends_inv h hc (by rw [hp]; rfl) nofun
  | refuses hc hp => exact ends_inv h hc (by rw [hp]; rfl) nofun
  | ends wal hc he =>
    refine ends_inv h hc he.inside ?_
    intro ho
    subst ho
    exact he.complete (h.calls _ _ hc)
  | timesOut hc hexecutes => exact ends_inv h hc (inside_of_executes hexecutes) nofun
  | fails hc hin => exact ends_inv h hc hin nofun

end Invariants

/-! ## Refusals -/

/-- A call that begins to create tables begins on a file at version 0. -/
def StartsFresh (s : State) : Event → Prop
  | .advance i =>
    match s.calls[i]? with
    | some ⟨_, _, .creating rest _⟩ => rest = schema → s.file.userVersion = 0
    | _ => True
  | _ => True

instance (s : State) (e : Event) : Decidable (StartsFresh s e) := by
  unfold StartsFresh
  split
  · split <;> infer_instance
  · infer_instance

/-- The call was cancelled, timed out, failed or succeeded, or is still open. -/
def NotRefused (c : Call) : Prop := ∀ e, c.phase ≠ .ended (.refused e)

def NoneRefused (s : State) : Prop := ∀ c ∈ s.calls, NotRefused c

section Refusals

variable {start : File} {s s' : State} {e : Event} {i : Nat} {c : Call} {p : Phase}

theorem notRefused_of_open (h : c.phase.isEnded = false) : NotRefused c := by
  intro e he
  rw [he] at h
  cases h

theorem isEnded_of_inside (h : p.inside = true) : p.isEnded = false := by
  cases p <;> first | rfl | cases h

theorem noneRefused_set {c' : Call} (hc : s.calls[i]? = some c) (hopen : c.phase.isEnded = false)
    (hcalls : s'.calls = s.calls.set i c') : NoneRefused s' ↔ NoneRefused s ∧ NotRefused c' := by
  unfold NoneRefused
  rw [hcalls]
  exact forall_set_iff hc (notRefused_of_open hopen)

theorem startsFresh_creating {rest : List Statement} {file : File} (hc : s.calls[i]? = some c)
    (hp : c.phase = .creating rest file) : StartsFresh s (.advance i) ↔ (rest = schema → s.file.userVersion = 0) := by
  obtain ⟨r, b, p⟩ := c
  obtain rfl : p = .creating rest file := hp
  simp only [StartsFresh, hc]

theorem startsFresh_of (hc : s.calls[i]? = some c)
    (h : ∀ statement rest file, c.phase ≠ .creating (statement :: rest) file) : StartsFresh s (.advance i) := by
  obtain ⟨r, b, p⟩ := c
  simp only [StartsFresh, hc]
  split
  · rename_i rest file heq
    cases heq
    cases rest with
    | nil => exact nofun
    | cons statement rest => exact absurd rfl (h statement rest file)
  · trivial

/-- A call whose next statement succeeds has not begun on a complete file. -/
theorem Inv.fresh_of_ok {statement : Statement} {rest : List Statement} {file file' : File} (h : Inv start s)
    (hc : s.calls[i]? = some c) (hp : c.phase = .creating (statement :: rest) file)
    (hexecute : execute statement file = .ok file') : Fresh s.file := by
  obtain ⟨-, done, hdone, hrun⟩ := h.settled hc hp
  refine h.whole.resolve_right fun hcomplete => ?_
  have hnext : done ++ [statement] = [] := by
    have hsplit : (done ++ [statement]) ++ rest = schema := by
      rw [List.append_assoc, List.singleton_append, hdone]
    exact hcomplete.fails hsplit ((run_snoc hrun statement).trans hexecute)
  simp at hnext

/-- A call whose next statement fails is at the first, on a complete file. -/
theorem Inv.complete_of_error {statement : Statement} {rest : List Statement} {file : File} {x : Exn}
    (h : Inv start s) (hc : s.calls[i]? = some c) (hp : c.phase = .creating (statement :: rest) file)
    (hexecute : execute statement file = .error x) : statement :: rest = schema ∧ Complete s.file := by
  obtain ⟨-, done, hdone, hrun⟩ := h.settled hc hp
  have hcomplete : Complete s.file := by
    refine h.whole.resolve_left fun hfresh => ?_
    obtain ⟨file', hok⟩ := hfresh.executes hdone hrun
    rw [hexecute] at hok
    cases hok
  obtain rfl := hcomplete.fails hdone hrun
  exact ⟨hdone, hcomplete⟩

theorem Moves.startsFresh (h : Inv start s) (hc : s.calls[i]? = some c) (hm : Moves s c.phase p) :
    StartsFresh s (.advance i) := by
  generalize hp : c.phase = q at hm
  cases hm with
  | creates hexecute => exact (startsFresh_creating hc hp).mpr fun _ => (h.fresh_of_ok hc hp hexecute).version
  | _ => exact startsFresh_of hc (by rw [hp]; nofun)

theorem Ends.startsFresh {o : Outcome} (hc : s.calls[i]? = some c) (he : Ends c.phase o) :
    StartsFresh s (.advance i) := by
  refine startsFresh_of hc ?_
  intro statement rest file hp
  rw [hp] at he
  cases he with
  | cancelled hchecks => cases hchecks

theorem Ends.not_refused {o : Outcome} {x : Exn} (he : Ends p o) : o ≠ .refused x := by
  cases he <;> exact nofun

/-- In a step a call is refused exactly if it begins to create tables too late. -/
theorem step_refused (h : Inv start s) (hs : step s e = some s') :
    NoneRefused s' ↔ NoneRefused s ∧ StartsFresh s e := by
  -- the step of a call that is not refused in it
  have hfine : ∀ {i : Nat} {c c' : Call}, s.calls[i]? = some c → c.phase.isEnded = false →
      s'.calls = s.calls.set i c' → NotRefused c' → StartsFresh s e → (NoneRefused s' ↔ NoneRefused s ∧ StartsFresh s e) := by
    intro i c c' hc hopen hcalls hnot hfresh
    rw [noneRefused_set hc hopen hcalls]
    exact and_congr_right fun _ => iff_of_true hnot hfresh
  cases step_change hs with
  | initializeAsync repository =>
    refine ⟨fun hall => ⟨fun c hc => hall c (List.mem_append_left _ hc), trivial⟩, fun hall => ?_⟩
    exact forall_snoc hall.1 nofun
  | cancel hc hopen => exact hfine hc hopen rfl (notRefused_of_open hopen) trivial
  | giveUp hc hp =>
    exact hfine hc (by rw [hp]; rfl) rfl nofun (startsFresh_of hc (by rw [hp]; nofun))
  | enter hc hp =>
    exact hfine hc (by rw [hp]; rfl) rfl nofun (startsFresh_of hc (by rw [hp]; nofun))
  | moves wal hc hm =>
    refine hfine hc (isEnded_of_inside hm.inside.1) rfl ?_ (hm.startsFresh h hc)
    exact notRefused_of_open (isEnded_of_inside hm.inside.2)
  | begins hc hp =>
    exact hfine hc (by rw [hp]; rfl) rfl nofun (startsFresh_of hc (by rw [hp]; nofun))
  | commits hc hp =>
    exact hfine hc (by rw [hp]; rfl) rfl nofun (startsFresh_of hc (by rw [hp]; nofun))
  | newer x hc hp hnewer =>
    have hle := h.whole.version_le
    omega
  | refuses hc hp hexecute =>
    obtain ⟨hfirst, hcomplete⟩ := h.complete_of_error hc hp hexecute
    rw [noneRefused_set hc (by rw [hp]; rfl) rfl]
    refine and_congr_right fun _ => iff_of_false (fun hnot => hnot _ rfl) ?_
    intro hfresh
    have hversion := (startsFresh_creating hc hp).mp hfresh hfirst
    rw [hcomplete.version] at hversion
    cases hversion
  | ends wal hc he =>
    refine hfine hc (isEnded_of_inside he.inside) rfl ?_ (he.startsFresh hc)
    intro x hx
    exact he.not_refused (Phase.ended.inj hx)
  | timesOut hc hexecutes =>
    exact hfine hc (isEnded_of_inside (inside_of_executes hexecutes)) rfl nofun trivial
  | fails hc hin => exact hfine hc (isEnded_of_inside hin) rfl nofun trivial

end Refusals

/-! ## The calls go on -/

/-- How many steps a call has before it at most. -/
def Phase.remaining : Phase → Nat
  | .waiting => schema.length + 8
  | .starting => schema.length + 7
  | .opened => schema.length + 6
  | .reading => schema.length + 5
  | .switching _ => schema.length + 4
  | .beginning => schema.length + 3
  | .creating rest _ => rest.length + 2
  | .committing _ => 1
  | .ended _ => 0

def work (s : State) : Nat := weight (fun c => c.phase.remaining) s.calls

section Progress

variable {start : File} {s s' : State} {i : Nat} {c : Call} {p : Phase}

theorem work_set {c' : Call} (hc : s.calls[i]? = some c) (hcalls : s'.calls = s.calls.set i c')
    (hlower : c'.phase.remaining < c.phase.remaining) : work s' < work s := by
  have hset := weight_set (fun c => c.phase.remaining) hc c'
  unfold work
  rw [hcalls]
  omega

theorem remaining_pos (h : p.isEnded = false) : 0 < p.remaining := by
  cases p <;> first | exact Nat.succ_pos _ | cases h

theorem Moves.remaining {q : Phase} (hm : Moves s p q) : q.remaining < p.remaining := by
  cases hm <;> simp [Phase.remaining]

theorem advance_work (hs : step s (.advance i) = some s') : work s' < work s := by
  cases step_change hs with
  | giveUp hc hp => exact work_set hc rfl (by rw [hp]; exact Nat.succ_pos _)
  | enter hc hp => exact work_set hc rfl (by rw [hp]; exact Nat.lt_succ_self _)
  | moves wal hc hm => exact work_set hc rfl hm.remaining
  | begins hc hp => exact work_set hc rfl (by rw [hp]; exact Nat.lt_succ_self _)
  | commits hc hp => exact work_set hc rfl (by rw [hp]; exact Nat.succ_pos _)
  | newer x hc hp => exact work_set hc rfl (by rw [hp]; exact Nat.succ_pos _)
  | refuses hc hp => exact work_set hc rfl (by rw [hp]; exact Nat.succ_pos _)
  | ends wal hc he => exact work_set hc rfl (remaining_pos (isEnded_of_inside he.inside))

/-- A call past the gate can go on, unless another has the write lock. -/
theorem advance_of_inside (hc : s.calls[i]? = some c) (hin : c.phase.inside = true)
    (hfree : s.writer = none ∨ c.phase.writes = true) : ∃ s', step s (.advance i) = some s' := by
  simp only [step, hc]
  unfold advance
  split
  · rename_i hp
    rw [hp] at hin
    cases hin
  · exact ⟨_, rfl⟩
  · exact ⟨_, rfl⟩
  · split <;> exact ⟨_, rfl⟩
  · rename_i hp
    have hnone : s.writer = none := hfree.resolve_right (by rw [hp]; nofun)
    rw [if_pos (Or.inr hnone)]
    split <;> exact ⟨_, rfl⟩
  · rename_i hp
    have hnone : s.writer = none := hfree.resolve_right (by rw [hp]; nofun)
    rw [if_pos hnone]
    exact ⟨_, rfl⟩
  · split <;> exact ⟨_, rfl⟩
  · exact ⟨_, rfl⟩
  · exact ⟨_, rfl⟩
  · rename_i hp
    rw [hp] at hin
    cases hin

theorem inside_of_writes (h : p.writes = true) : p.inside = true := by
  cases p <;> first | rfl | cases h

/-- With nobody past a gate, a call that waits there can enter. -/
theorem advance_of_waiting (h : Inv start s) (hc : s.calls[i]? = some c) (hp : c.phase = .waiting)
    (hnobody : ∀ d ∈ s.calls, d.phase.inside = false) : ∃ s', step s (.advance i) = some s' := by
  have hweight : weight (holds c.repository) s.calls = 0 := weight_zero fun d hd => holds_outside (hnobody d hd)
  have hpermit : 0 < s.permits c.repository := by
    have hgate := h.gates c.repository
    omega
  simp only [step, hc, advance, hp, if_pos hpermit]
  split <;> exact ⟨_, rfl⟩

/-- While a call has not ended, one of the calls can go on. -/
theorem can_advance (h : Inv start s) (hc : c ∈ s.calls) (hopen : c.phase.isEnded = false) :
    ∃ i s', step s (.advance i) = some s' := by
  cases hw : s.writer with
  | some i =>
    obtain ⟨d, hd, hwrites⟩ := h.writer i hw
    exact ⟨i, advance_of_inside hd (inside_of_writes hwrites) (Or.inr hwrites)⟩
  | none =>
    by_cases hsome : ∃ d ∈ s.calls, d.phase.inside = true
    · obtain ⟨d, hd, hin⟩ := hsome
      obtain ⟨i, hi⟩ := List.mem_iff_getElem?.mp hd
      exact ⟨i, advance_of_inside hi hin (Or.inl hw)⟩
    · have hnobody : ∀ d ∈ s.calls, d.phase.inside = false :=
        fun d hd => (Bool.not_eq_true _).mp fun hin => hsome ⟨d, hd, hin⟩
      have hwaiting : c.phase = .waiting := by
        have houtside := hnobody c hc
        generalize c.phase = p at hopen houtside
        cases p with
        | waiting => rfl
        | ended => cases hopen
        | _ => cases houtside
      obtain ⟨i, hi⟩ := List.mem_iff_getElem?.mp hc
      exact ⟨i, advance_of_waiting h hi hwaiting hnobody⟩

theorem exec_advances {turns : List Nat} {log : List (State × Event)} (h : Inv start s)
    (hexec : (machine start).exec s (turns.map .advance) = some (log, s')) :
    Inv start s' ∧ turns.length + work s' ≤ work s := by
  induction turns generalizing s log with
  | nil =>
    cases hexec
    exact ⟨h, by simp⟩
  | cons i turns ih =>
    simp only [List.map_cons, Machine.exec] at hexec
    split at hexec
    · cases hexec
    · rename_i t hs
      obtain ⟨r, hr, he⟩ := Option.map_eq_some_iff.mp hexec
      obtain ⟨rfl, rfl⟩ := Prod.mk.inj he
      have hstep : step s (.advance i) = some t := hs
      obtain ⟨hinv, hwork⟩ := ih (step_inv h hstep) hr
      have hlower := advance_work hstep
      refine ⟨hinv, ?_⟩
      simp only [List.length_cons]
      omega

end Progress

/-! ## The whole run -/

structure Initialized (start : File) (s : State) : Prop where
  /-- A call that ended uncancelled, with no lock missed and no failure, has succeeded. -/
  succeeds : NoneRefused s
  complete : ∀ c ∈ s.calls, c.phase = .ended .succeeded → Complete s.file
  whole : Whole s.file
  rows : s.file.db = start.db
  /-- The calls go on for at most `work s` turns, and then they have all ended. -/
  proceeds : ∀ (turns : List Nat) log t, (machine start).exec s (turns.map .advance) = some (log, t) →
    turns.length ≤ work s ∧ ((∃ c ∈ t.calls, c.phase.isEnded = false) → ∃ i t', step t (.advance i) = some t')

/-- The calls of `InitializeAsync` are right together exactly if none begins to create the
    tables of a file that another has brought to version 1 after the first read version 0. -/
theorem initialized_iff {start : File} {log : List (State × Event)} {s : State} (hrun : (machine start).Runs log s) :
    Initialized start s ↔ Machine.Throughout StartsFresh log := by
  have hboth : Inv start s ∧ (NoneRefused s ↔ Machine.Throughout StartsFresh log) := by
    refine hrun.log_inv (I := fun log s => Inv start s ∧ (NoneRefused s ↔ Machine.Throughout StartsFresh log)) ?_ ?_
    · intro s ⟨hstart, wal, hs⟩
      subst hs
      exact ⟨initial_inv hstart wal, iff_of_true nofun nofun⟩
    · intro log s e s' _ ⟨hinv, hiff⟩ hs
      refine ⟨step_inv hinv hs, ?_⟩
      rw [step_refused hinv hs, Machine.throughout_snoc, hiff]
  obtain ⟨hinv, hiff⟩ := hboth
  refine ⟨fun h => hiff.mp h.succeeds, fun hfresh => ⟨hiff.mpr hfresh, ?_, hinv.whole, hinv.rows, ?_⟩⟩
  · intro c hc hsucceeded
    obtain ⟨i, hi⟩ := List.mem_iff_getElem?.mp hc
    exact hinv.settled hi hsucceeded
  · intro turns log t hexec
    obtain ⟨hinv', hwork⟩ := exec_advances hinv hexec
    refine ⟨by omega, ?_⟩
    intro ⟨c, hc, hopen⟩
    exact can_advance hinv' hc hopen

/-! ## Two starts on a new file -/

def noFile : File := ⟨0, [], Database.empty⟩

theorem noFile_whole : Whole noFile := Or.inl ⟨rfl, rfl, rfl⟩

def turns (i n : Nat) : List Event := List.replicate n (.advance i)

def succeeded (s : State) (i : Nat) : Bool :=
  match s.calls[i]? with
  | some ⟨_, _, .ended .succeeded⟩ => true
  | _ => false

/-- The second reads the version after the first has committed. -/
theorem second_start_waits : ∃ log s, (machine noFile).Runs log s ∧ Initialized noFile s ∧ succeeded s 0 = true ∧
    succeeded s 1 = true := by
  obtain ⟨log, s, hrun, hok, hp⟩ := (machine noFile).exists_run StartsFresh (fun s => succeeded s 0 && succeeded s 1)
    ([.initializeAsync 0, .initializeAsync 1] ++ turns 1 3 ++ turns 0 16 ++ turns 1 2) ⟨noFile_whole, false, rfl⟩
    (by decide +kernel)
  exact ⟨log, s, hrun, (initialized_iff hrun).mpr hok, Bool.and_eq_true_iff.mp hp⟩

/-- SQLite said that there is such a table. -/
def tableExists (s : State) (i : Nat) : Bool :=
  match s.calls[i]? with
  | some ⟨_, _, .ended (.refused (.sqlite 1 message))⟩ => message == "table devices already exists"
  | _ => false

theorem refused_of_tableExists {s : State} {i : Nat} (h : tableExists s i = true) : ¬ NoneRefused s := by
  unfold tableExists at h
  split at h
  · rename_i hi
    exact fun hnone => hnone _ (List.mem_of_getElem? hi) _ rfl
  · cases h

/-- Both read version 0; then the first commits, and the second finds its tables there. -/
theorem second_start_is_refused : ¬ ∀ start log s, Whole start → (machine start).Runs log s → Initialized start s := by
  intro hall
  obtain ⟨log, s, hrun, -, hp⟩ := (machine noFile).exists_run (fun _ _ => True) (tableExists · 1)
    ([.initializeAsync 0, .initializeAsync 1] ++ turns 1 4 ++ turns 0 16 ++ turns 1 3) ⟨noFile_whole, false, rfl⟩
    (by decide +kernel)
  exact refused_of_tableExists hp (hall noFile log s noFile_whole hrun).succeeds

end MythLab.Storage.Migration
