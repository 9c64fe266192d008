/-
  MythLab.App.Drain — what runs while the main window closes: `OnClosing` from the close
  request to `drained`, together with the terminal windows, the operations and the scans
  it waits for.

  The drain closes the terminal windows there are at the request one after the other, then
  stops the operations, waits for the monitor and for the operations there are then, and
  last for the scan that was the latest at the request. Each event is what runs between
  two awaits: of the main window (`window`), of a terminal window, of the operations, of a
  scan, or of the drain (`resume`), which goes on when what it awaits has ended. Waiting
  for the operations throws when one of them ended as cancelled; the drain catches that
  and is over.

  `projects`: the main window in a run of this machine is in a run of `MainWindow`.

  Proved (`drained_drains`), for the step of any run that sets `drained`: nothing that the
  close was to wait for is running, exactly unless an awaited sweep has been cut off
  between two batches while the scan still runs. `cut_off_is_users`: such a sweep was
  started by the user over more than eight cards. `drain_skips_the_scan` is such a run.
-/
import MythLab.App.MainWindow
import MythLab.App.Operations
import MythLab.App.TerminalWindow

namespace MythLab.App.Drain

open Lib

/-- What `OnClosing` awaits. -/
inductive Phase where
  | idle
  /-- `CloseSessionAsync` of the first of these terminal windows. -/
  | terminals (windows : List Nat)
  /-- `lifetime.CancelAsync()` -/
  | cancelling
  | monitor
  /-- `Task.WhenAll` of these tasks. -/
  | operations (tasks : List Operations.Task)
  | scan
  | over
  deriving DecidableEq, Repr

structure State where
  window : MainWindow.State
  phase : Phase
  terminals : List TerminalWindow.State
  operations : Operations.State
  /-- Whether each scan started so far is running. -/
  scans : List Bool
  /-- The terminal windows there were at the close request. -/
  wereOpen : List Nat
  /-- `ScanCommand.ExecutionTask` at the close request. -/
  scan : Option Nat

inductive Event where
  | window (e : MainWindow.Event)
  | openTerminal
  | terminal (i : Nat) (e : TerminalWindow.Event)
  | operations (e : Operations.Event)
  | startScan
  | scanEnds (i : Nat)
  | resume

def scanRuns (s : State) (i : Nat) : Bool := s.scans[i]?.getD false

/-- The scan of the close request is running. -/
def scanRunning (s : State) : Bool := s.scan.any (scanRuns s)

def closed (s : State) (i : Nat) : Bool := s.terminals[i]?.any fun t => t.drained

/-- `terminals.ToArray()`: a window leaves the set when it has closed. -/
def openTerminals (s : State) : List Nat := (List.range s.terminals.length).filter fun i => !closed s i

/-- Go on to the next terminal window, or to stopping the operations. -/
def closeNext (s : State) (windows : List Nat) : State :=
  match windows with
  | [] => { s with phase := .cancelling, operations := Operations.stop s.operations }
  | i :: _ => { s with phase := .terminals windows, terminals := s.terminals.modify i TerminalWindow.closeSession }

/-- `OnClosing` past its guards, up to its first `await`. -/
def beginDrain (s : State) : State :=
  closeNext
    { s with
      wereOpen := openTerminals s
      scan := if s.scans = [] then none else some (s.scans.length - 1) }
    (openTerminals s)

/-- The `finally` of `OnClosing`. -/
def finish (s : State) : State := { s with window := MainWindow.drainCompletes s.window, phase := .over }

/-- `OnClosing` runs on, if what it awaits has ended. -/
def resume (s : State) : Option State :=
  match s.phase with
  | .terminals (i :: rest) => if closed s i then some (closeNext s rest) else none
  | .cancelling => some { s with phase := .monitor }
  | .monitor =>
    if Operations.monitorRuns s.operations then none
    else some { s with phase := .operations (Operations.operations s.operations) }
  | .operations tasks =>
    if tasks.any (Operations.running s.operations) then none
    -- `WhenAll` throws, and the wait for the scan is skipped
    else if tasks.any (Operations.cancelled s.operations) then some (finish s)
    else some { s with phase := .scan }
  | .scan => if scanRunning s then none else some (finish s)
  | _ => none

def onWindow (s : State) (w : MainWindow.State) : State :=
  if s.window.waitingForScan = false ∧ w.waitingForScan = true then beginDrain { s with window := w }
  else { s with window := w }

def step (s : State) : Event → Option State
  | .window e => if e = .drainCompletes then none else (MainWindow.step s.window e).map (onWindow s)
  | .openTerminal => some { s with terminals := s.terminals ++ [TerminalWindow.shown] }
  | .terminal i e =>
    match s.terminals[i]? with
    | some t => (TerminalWindow.step t e).map fun t' => { s with terminals := s.terminals.set i t' }
    | none => none
  | .operations e => (Operations.step s.operations e).map fun o => { s with operations := o }
  | .startScan => if s.scans.any id then none else some { s with scans := s.scans ++ [true] }
  | .scanEnds i => if scanRuns s i then some { s with scans := s.scans.set i false } else none
  | .resume => resume s

/-- The window has just been shown. -/
def Start (s : State) : Prop :=
  MainWindow.Start s.window ∧ s.phase = .idle ∧ s.terminals = [] ∧ s.scans = [] ∧ s.wereOpen = [] ∧ s.scan = none ∧
    s.operations.sweeps = [] ∧ s.operations.wakes = [] ∧ s.operations.monitor = .notStarted ∧
    s.operations.checking = false ∧ s.operations.stopped = false ∧ s.operations.cancelled = false

def drain : Machine State Event := ⟨Start, step⟩

/-! ## What a step does -/

/-- Where the drain may end: the tasks it awaits have ended, one of them cancelled; or the
    scan has. -/
def Ending (s : State) : Prop :=
  (∃ tasks, s.phase = .operations tasks ∧ tasks.any (Operations.running s.operations) = false ∧
    tasks.any (Operations.cancelled s.operations) = true) ∨ s.phase = .scan ∧ scanRunning s = false

/-- What `OnClosing` does when it runs on. -/
inductive Resumed (s : State) : State → Prop
  | next {i : Nat} {rest : List Nat} : s.phase = .terminals (i :: rest) → closed s i = true →
      Resumed s (closeNext s rest)
  | cancelled : s.phase = .cancelling → Resumed s { s with phase := .monitor }
  | monitor : s.phase = .monitor → Operations.monitorRuns s.operations = false →
      Resumed s { s with phase := .operations (Operations.operations s.operations) }
  | operations {tasks : List Operations.Task} : s.phase = .operations tasks →
      tasks.any (Operations.running s.operations) = false → Resumed s { s with phase := .scan }
  | ends : Ending s → Resumed s (finish s)

theorem resume_resumed {s s' : State} (hs : resume s = some s') : Resumed s s' := by
  unfold resume at hs
  split at hs
  · rename_i hp
    split at hs <;> cases hs
    exact .next hp ‹_›
  · rename_i hp
    cases hs
    exact .cancelled hp
  · rename_i hp
    split at hs <;> cases hs
    rename_i hm
    exact .monitor hp ((Bool.not_eq_true _).mp hm)
  · rename_i tasks hp
    split at hs
    · cases hs
    · rename_i hnone
      have hended := (Bool.not_eq_true _).mp hnone
      split at hs <;> cases hs
      · rename_i hcut
        exact .ends (Or.inl ⟨tasks, hp, hended, hcut⟩)
      · exact .operations hp hended
  · rename_i hp
    split at hs <;> cases hs
    rename_i hscan
    exact .ends (Or.inr ⟨hp, (Bool.not_eq_true _).mp hscan⟩)
  · cases hs

inductive Change (s : State) : Event → State → Prop
  | window {e : MainWindow.Event} {w : MainWindow.State} : e ≠ .drainCompletes → MainWindow.step s.window e = some w →
      Change s (.window e) (onWindow s w)
  | openTerminal : Change s .openTerminal { s with terminals := s.terminals ++ [TerminalWindow.shown] }
  | terminal {i : Nat} {e : TerminalWindow.Event} {t t' : TerminalWindow.State} : s.terminals[i]? = some t →
      TerminalWindow.step t e = some t' → Change s (.terminal i e) { s with terminals := s.terminals.set i t' }
  | operations {e : Operations.Event} {o : Operations.State} : Operations.step s.operations e = some o →
      Change s (.operations e) { s with operations := o }
  | scans {e : Event} (scans : List Bool) : Change s e { s with scans := scans }
  | resume {s' : State} : Resumed s s' → Change s .resume s'

theorem step_change {s s' : State} {e : Event} (hs : step s e = some s') : Change s e s' := by
  cases e with
  | window e =>
    simp only [step] at hs
    split at hs
    · cases hs
    · rename_i he
      obtain ⟨w, hw, rfl⟩ := Option.map_eq_some_iff.mp hs
      exact .window he hw
  | openTerminal => cases hs; exact .openTerminal
  | terminal i e =>
    simp only [step] at hs
    split at hs
    · rename_i t ht
      obtain ⟨t', ht', rfl⟩ := Option.map_eq_some_iff.mp hs
      exact .terminal ht ht'
    · cases hs
  | operations e =>
    obtain ⟨o, ho, rfl⟩ := Option.map_eq_some_iff.mp hs
    exact .operations ho
  | startScan =>
    simp only [step] at hs
    split at hs <;> cases hs
    exact .scans _
  | scanEnds i =>
    simp only [step] at hs
    split at hs <;> cases hs
    exact .scans _
  | resume => exact .resume (resume_resumed hs)

/-! ## The drain -/

/-- A terminal window that has closed stays closed. -/
def KeepsClosed (s s' : State) : Prop := ∀ i, closed s i = true → closed s' i = true

theorem keepsClosed_modify (s : State) (i : Nat) {f : TerminalWindow.State → TerminalWindow.State}
    (hf : ∀ t : TerminalWindow.State, t.drained = true → (f t).drained = true) :
    KeepsClosed s { s with terminals := s.terminals.modify i f } := by
  intro j hj
  obtain ⟨t, ht, hd⟩ := (Option.any_eq_true _ _).mp hj
  unfold closed
  rw [List.getElem?_modify, ht]
  by_cases hij : i = j
  · simpa [hij] using hf t hd
  · simpa [hij] using hd

theorem closeNext_closed (s : State) (windows : List Nat) : KeepsClosed s (closeNext s windows) := by
  unfold closeNext
  split
  · intro _ h
    exact h
  · rename_i i _
    refine keepsClosed_modify s i ?_
    intro t ht
    unfold TerminalWindow.closeSession
    split <;> exact ht

@[simp] theorem closeNext_window (s : State) (windows : List Nat) : (closeNext s windows).window = s.window := by
  unfold closeNext; split <;> rfl

@[simp] theorem beginDrain_window (s : State) : (beginDrain s).window = s.window := closeNext_window _ _

/-- All terminal windows of the close request have closed. -/
def AllClosed (s : State) : Prop := ∀ i ∈ s.wereOpen, closed s i = true

/-- What the drain has reached where it is. -/
def Reached (s : State) : Prop :=
  match s.phase with
  | .idle | .over => True
  | .terminals windows => ∀ i ∈ s.wereOpen, i ∈ windows ∨ closed s i = true
  | .cancelling | .monitor => AllClosed s ∧ s.operations.stopped = true
  | .operations tasks => AllClosed s ∧ s.operations.stopped = true ∧
      (∀ t, Operations.running s.operations t = true → t ∈ tasks) ∧
      ∀ i, .sweep i ∈ tasks → Operations.isUsers s.operations i = true
  | .scan => AllClosed s ∧ s.operations.stopped = true ∧ ∀ t, Operations.running s.operations t = false

structure Inv (s : State) : Prop where
  operations : Operations.Inv s.operations
  terminals : ∀ t ∈ s.terminals, TerminalWindow.Inv t
  waiting : s.phase ≠ .idle → s.phase ≠ .over → s.window.waitingForScan = true
  reached : Reached s

/-- A step that leaves the drain where it is. -/
theorem Reached.of_same {s s' : State} (h : Reached s) (hphase : s'.phase = s.phase) (hopen : s'.wereOpen = s.wereOpen)
    (hclosed : KeepsClosed s s') (hstopped : s.operations.stopped = true → s'.operations.stopped = true ∧
      (∀ t, Operations.running s'.operations t = true → Operations.running s.operations t = true) ∧
      ∀ i, Operations.isUsers s.operations i = true → Operations.isUsers s'.operations i = true) : Reached s' := by
  have hall : AllClosed s → AllClosed s' := fun ha i hi => hclosed i (ha i (hopen ▸ hi))
  unfold Reached at h ⊢
  rw [hphase]
  split
  · trivial
  · trivial
  · rename_i windows hp
    rw [hp] at h
    intro i hi
    rcases h i (hopen ▸ hi) with hw | hc
    · exact Or.inl hw
    · exact Or.inr (hclosed i hc)
  · rename_i hp
    rw [hp] at h
    exact ⟨hall h.1, (hstopped h.2).1⟩
  · rename_i hp
    rw [hp] at h
    exact ⟨hall h.1, (hstopped h.2).1⟩
  · rename_i tasks hp
    rw [hp] at h
    obtain ⟨ha, hs, hr, hu⟩ := h
    obtain ⟨hs', hr', hu'⟩ := hstopped hs
    exact ⟨hall ha, hs', fun t ht => hr t (hr' t ht), fun i hi => hu' i (hu i hi)⟩
  · rename_i hp
    rw [hp] at h
    obtain ⟨ha, hs, hr⟩ := h
    obtain ⟨hs', hr', -⟩ := hstopped hs
    refine ⟨hall ha, hs', ?_⟩
    intro t
    by_contra ht
    have hrun := hr' t (by simpa using ht)
    simp [hr t] at hrun

/-- Going on to `windows`, once all other terminal windows have closed. -/
theorem closeNext_reached {s : State} {windows : List Nat} (h : ∀ i ∈ s.wereOpen, i ∈ windows ∨ closed s i = true) :
    Reached (closeNext s windows) := by
  have hkeep := closeNext_closed s windows
  cases windows with
  | nil =>
    refine ⟨fun i hi => hkeep i ?_, rfl⟩
    rcases h i hi with hw | hc
    · cases hw
    · exact hc
  | cons j rest =>
    intro i hi
    rcases h i hi with hw | hc
    · exact Or.inl hw
    · exact Or.inr (hkeep i hc)

theorem closeNext_inv {s : State} {windows : List Nat} (hops : Operations.Inv s.operations)
    (hterminals : ∀ t ∈ s.terminals, TerminalWindow.Inv t) (hwaiting : s.window.waitingForScan = true)
    (h : ∀ i ∈ s.wereOpen, i ∈ windows ∨ closed s i = true) : Inv (closeNext s windows) := by
  refine ⟨?_, ?_, fun _ _ => by rw [closeNext_window]; exact hwaiting, closeNext_reached h⟩
  · cases windows with
    | nil => exact Operations.stop_inv hops
    | cons i rest => exact hops
  · cases windows with
    | nil => exact hterminals
    | cons i rest => exact forall_modify hterminals fun t ht _ => TerminalWindow.closeSession_inv (hterminals t ht)

theorem beginDrain_inv {s : State} (hops : Operations.Inv s.operations)
    (hterminals : ∀ t ∈ s.terminals, TerminalWindow.Inv t) (hwaiting : s.window.waitingForScan = true) :
    Inv (beginDrain s) :=
  closeNext_inv hops hterminals hwaiting fun _ hi => Or.inl hi

theorem finish_inv {s : State} (h : Inv s) : Inv (finish s) :=
  ⟨h.operations, h.terminals, fun _ hover => absurd rfl hover, trivial⟩

theorem resume_inv {s s' : State} (h : Inv s) (hs : Resumed s s') : Inv s' := by
  have hreached := h.reached
  unfold Reached at hreached
  have hwaiting := h.waiting
  cases hs with
  | next hp hclosed =>
    rw [hp] at hreached
    refine closeNext_inv h.operations h.terminals (hwaiting (by simp [hp]) (by simp [hp])) ?_
    intro j hj
    rcases hreached j hj with hw | hc
    · rcases List.mem_cons.mp hw with rfl | hw
      · exact Or.inr hclosed
      · exact Or.inl hw
    · exact Or.inr hc
  | cancelled hp =>
    rw [hp] at hreached
    exact ⟨h.operations, h.terminals, fun _ _ => hwaiting (by simp [hp]) (by simp [hp]), hreached⟩
  | monitor hp hended =>
    rw [hp] at hreached
    refine ⟨h.operations, h.terminals, fun _ _ => hwaiting (by simp [hp]) (by simp [hp]),
      hreached.1, hreached.2, fun t ht => Operations.operations_of_running h.operations ht, ?_⟩
    intro i hi
    exact Operations.listed_isUsers h.operations hended (Operations.mem_operations.mp hi)
  | operations hp hnone =>
    rw [hp] at hreached
    obtain ⟨hall, hstopped, hrunning, -⟩ := hreached
    refine ⟨h.operations, h.terminals, fun _ _ => hwaiting (by simp [hp]) (by simp [hp]), hall, hstopped, ?_⟩
    intro t
    by_contra ht
    have hrun : Operations.running s.operations t = true := by simpa using ht
    exact List.any_eq_false.mp hnone t (hrunning t hrun) hrun
  | ends hend => exact finish_inv h

theorem step_inv {s s' : State} {e : Event} (h : Inv s) (hs : step s e = some s') : Inv s' := by
  have same : ∀ {t : State}, t.operations = s.operations → (s.operations.stopped = true →
      t.operations.stopped = true ∧
      (∀ k, Operations.running t.operations k = true → Operations.running s.operations k = true) ∧
      ∀ i, Operations.isUsers s.operations i = true → Operations.isUsers t.operations i = true) := by
    intro t ht hstop
    rw [ht]
    exact ⟨hstop, fun _ hk => hk, fun _ hi => hi⟩
  cases step_change hs with
  | window he hw =>
    unfold onWindow
    split
    · rename_i hbegin
      exact beginDrain_inv h.operations h.terminals hbegin.2
    · exact ⟨h.operations, h.terminals, fun hi ho => (MainWindow.step_frame hw he).2 (h.waiting hi ho),
        h.reached.of_same rfl rfl (fun _ hc => hc) (same rfl)⟩
  | openTerminal =>
    refine ⟨h.operations, forall_snoc h.terminals fun hd => (nomatch hd), h.waiting,
      h.reached.of_same rfl rfl ?_ (same rfl)⟩
    intro i hi
    obtain ⟨t, ht, hd⟩ := (Option.any_eq_true _ _).mp hi
    unfold closed
    rw [List.getElem?_append_left (List.getElem?_eq_some_iff.mp ht).1, ht]
    exact hd
  | @terminal i e t t' ht ht' =>
    refine ⟨h.operations, ?_, h.waiting, h.reached.of_same rfl rfl ?_ (same rfl)⟩
    · intro u hu
      rcases List.mem_or_eq_of_mem_set hu with hu | rfl
      · exact h.terminals u hu
      · exact TerminalWindow.step_inv (h.terminals t (List.mem_of_getElem? ht)) ht'
    · intro j hj
      obtain ⟨u, hu, hd⟩ := (Option.any_eq_true _ _).mp hj
      unfold closed
      rw [List.getElem?_set]
      by_cases hij : i = j
      · subst hij
        obtain rfl : u = t := Option.some.inj (hu.symm.trans ht)
        simp [(List.getElem?_eq_some_iff.mp ht).1, TerminalWindow.step_drained hd ht']
      · simpa [hij, hu] using hd
  | operations ho =>
    refine ⟨Operations.step_inv h.operations ho, h.terminals, h.waiting,
      h.reached.of_same rfl rfl (fun _ hc => hc) ?_⟩
    intro hstop
    obtain ⟨hs', hr⟩ := Operations.step_stopped hstop ho
    exact ⟨hs', hr, fun i hi => Operations.step_isUsers hi ho⟩
  | scans scans =>
    exact ⟨h.operations, h.terminals, h.waiting, h.reached.of_same rfl rfl (fun _ hc => hc) (same rfl)⟩
  | resume hresumed => exact resume_inv h hresumed

theorem runs_inv {log : List (State × Event)} {s : State} (h : drain.Runs log s) : Inv s := by
  have hstep : ∀ s e s', Inv s → drain.step s e = some s' → Inv s' := fun _ _ _ hi hs => step_inv hi hs
  refine Machine.Reach.inv ?_ hstep ⟨log, h⟩
  intro s hs
  obtain ⟨-, hphase, hterminals, -, -, -, hsweeps, hwakes, -, -, hstopped, hcancelled⟩ := hs
  refine ⟨⟨?_, ?_, hstopped.trans hcancelled.symm, ?_⟩, ?_, fun hi => absurd hphase hi, ?_⟩
  · simp [hsweeps]
  · simp [hwakes]
  · simp [hsweeps]
  · simp [hterminals]
  · unfold Reached
    rw [hphase]
    trivial

theorem onWindow_window (s : State) (w : MainWindow.State) : (onWindow s w).window = w := by
  unfold onWindow
  split
  · exact beginDrain_window _
  · rfl

/-- Where the drain may end, the main window waits for it. -/
theorem Ending.waiting {s : State} (hend : Ending s) (h : Inv s) : s.window.waitingForScan = true := by
  rcases hend with ⟨tasks, hp, -, -⟩ | ⟨hp, -⟩ <;> exact h.waiting (by simp [hp]) (by simp [hp])

/-- The main window of a run is in a run of its own machine. -/
theorem projects {log : List (State × Event)} {s : State} (h : drain.Runs log s) :
    ∃ log', MainWindow.mainWindow.Runs log' s.window := by
  induction h with
  | init hs => exact ⟨[], .init hs.1⟩
  | @step log s s' e hr hs ih =>
    obtain ⟨log', ih⟩ := ih
    cases step_change hs with
    | @window e w he hw =>
      rw [onWindow_window]
      exact ⟨_, ih.step e hw⟩
    | openTerminal => exact ⟨log', ih⟩
    | terminal ht ht' => exact ⟨log', ih⟩
    | operations ho => exact ⟨log', ih⟩
    | scans scans => exact ⟨log', ih⟩
    | resume hresumed =>
      cases hresumed with
      | next hp hclosed =>
        rw [closeNext_window]
        exact ⟨log', ih⟩
      | cancelled hp => exact ⟨log', ih⟩
      | monitor hp hended => exact ⟨log', ih⟩
      | operations hp hnone => exact ⟨log', ih⟩
      | ends hend =>
        exact ⟨_, Machine.Runs.step MainWindow.Event.drainCompletes ih (if_pos (hend.waiting (runs_inv hr)))⟩

/-! ## When the drain is over -/

/-- Nothing is running that the close was to wait for. -/
structure NothingRuns (s : State) : Prop where
  sweeps : ∀ sweep ∈ s.operations.sweeps, sweep.outcome ≠ none ∧ sweep.pending = 0
  wakes : ∀ wake ∈ s.operations.wakes, wake.running = false
  terminals : ∀ i ∈ s.wereOpen, ∀ t, s.terminals[i]? = some t → t.running = false
  scan : scanRunning s = false

/-- A sweep that the drain awaits has been cut off between two batches. -/
def CutOff (s : State) : Prop :=
  ∃ tasks, s.phase = .operations tasks ∧ ∃ i, .sweep i ∈ tasks ∧ Operations.cancelled s.operations (.sweep i) = true

/-- Such a sweep was started by the user, over more than eight cards. -/
theorem cut_off_is_users {log : List (State × Event)} {s : State} (h : drain.Runs log s) {tasks : List Operations.Task}
    (hp : s.phase = .operations tasks) {i : Nat} (hi : .sweep i ∈ tasks)
    (hcut : Operations.cancelled s.operations (.sweep i) = true) :
    Operations.isUsers s.operations i = true ∧ ∃ sweep, s.operations.sweeps[i]? = some sweep ∧ 8 < sweep.cards := by
  have hinv := runs_inv h
  have hreached := hinv.reached
  unfold Reached at hreached
  rw [hp] at hreached
  obtain ⟨sweep, hs, hc⟩ := (Option.any_eq_true _ _).mp hcut
  exact ⟨hreached.2.2.2 i hi, sweep, hs, Operations.cut_off_many hinv.operations hs (of_decide_eq_true hc)⟩

/-- Where all terminal windows have closed and no task runs, only the scan is left. -/
theorem nothingRuns_iff {s : State} (h : Inv s) (hall : AllClosed s)
    (hnone : ∀ t, Operations.running s.operations t = false) : NothingRuns (finish s) ↔ scanRunning s = false := by
  refine ⟨fun hn => hn.scan, fun hscan => ⟨?_, ?_, ?_, hscan⟩⟩
  · intro sweep hs
    obtain ⟨i, hi⟩ := List.mem_iff_getElem?.mp hs
    have hended : sweep.outcome ≠ none := by
      intro hr
      have hrun : Operations.running s.operations (.sweep i) = true :=
        (Option.any_eq_true _ _).mpr ⟨sweep, hi, decide_eq_true hr⟩
      simp [hnone] at hrun
    exact ⟨hended, (h.operations.sweeps sweep hs).ended hended⟩
  · intro wake hw
    obtain ⟨i, hi⟩ := List.mem_iff_getElem?.mp hw
    by_contra hr
    have hrun : Operations.running s.operations (.wake i) = true :=
      (Option.any_eq_true _ _).mpr ⟨wake, hi, by simpa using hr⟩
    simp [hnone] at hrun
  · intro i hi t ht
    obtain ⟨t', ht', hd⟩ := (Option.any_eq_true _ _).mp (hall i hi)
    obtain rfl : t' = t := Option.some.inj (ht'.symm.trans ht)
    exact (h.terminals t' (List.mem_of_getElem? ht') hd).2

/-- A step that sets `drained` is the end of the drain. -/
theorem drained_by_finish {s s' : State} {e : Event} (hs : step s e = some s') (hbefore : s.window.drained = false)
    (hafter : s'.window.drained = true) : Ending s ∧ s' = finish s := by
  have hsame : s'.window ≠ s.window := by
    intro hw
    simp [hw, hbefore] at hafter
  cases step_change hs with
  | window he hw =>
    simp [onWindow_window, (MainWindow.step_frame hw he).1, hbefore] at hafter
  | openTerminal => exact absurd rfl hsame
  | terminal ht ht' => exact absurd rfl hsame
  | operations ho => exact absurd rfl hsame
  | scans scans => exact absurd rfl hsame
  | resume hresumed =>
    cases hresumed with
    | next hp hclosed => exact absurd (closeNext_window _ _) hsame
    | cancelled hp => exact absurd rfl hsame
    | monitor hp hended => exact absurd rfl hsame
    | operations hp hnone => exact absurd rfl hsame
    | ends hend => exact ⟨hend, rfl⟩

/-- The step that ends the drain leaves nothing running of what the close was to wait for,
    unless an awaited sweep was cut off while the scan runs. -/
theorem drained_drains {log : List (State × Event)} {s s' : State} {e : Event} (h : drain.Runs log s)
    (hs : drain.step s e = some s') (hbefore : s.window.drained = false) (hafter : s'.window.drained = true) :
    NothingRuns s' ↔ ¬ (CutOff s ∧ scanRunning s = true) := by
  have hinv := runs_inv h
  have hreached := hinv.reached
  unfold Reached at hreached
  obtain ⟨hend, rfl⟩ := drained_by_finish hs hbefore hafter
  rcases hend with ⟨tasks, hp, hended, hcut⟩ | ⟨hp, hscan⟩
  · rw [hp] at hreached
    obtain ⟨hall, -, hrunning, -⟩ := hreached
    have hnone : ∀ t, Operations.running s.operations t = false := by
      intro t
      by_contra ht
      have hrun : Operations.running s.operations t = true := by simpa using ht
      have hmem := List.any_eq_false.mp hended t (hrunning t hrun)
      exact hmem hrun
    have hcutoff : CutOff s := by
      obtain ⟨t, ht, hc⟩ := List.any_eq_true.mp hcut
      cases t with
      | sweep i => exact ⟨tasks, hp, i, ht, hc⟩
      | wake i => cases hc
    rw [nothingRuns_iff hinv hall hnone]
    constructor
    · intro hscan ⟨_, hr⟩
      simp [hscan] at hr
    · intro hno
      by_contra hr
      exact hno ⟨hcutoff, by simpa using hr⟩
  · rw [hp] at hreached
    obtain ⟨hall, -, hnone⟩ := hreached
    rw [nothingRuns_iff hinv hall hnone, hscan]
    simp

/-! ## Runs -/

def shown : State where
  window := MainWindow.shown
  phase := .idle
  terminals := []
  operations := ⟨9, [], [], .notStarted, false, false, false⟩
  scans := []
  wereOpen := []
  scan := none

/-- The close waits for a running scan. -/
def scanAlone : List Event :=
  [.startScan, .window .requestClose, .resume, .resume, .resume, .scanEnds 0]

theorem scan_alone_is_awaited :
    ∃ log s s', drain.Runs log s ∧ drain.step s .resume = some s' ∧ s'.window.drained = true ∧ NothingRuns s' := by
  have h := Machine.runs_of_exec (M := drain) (s := shown)
    ⟨⟨rfl, rfl, rfl, rfl, rfl⟩, rfl, rfl, rfl, rfl, rfl, rfl, rfl, rfl, rfl, rfl, rfl⟩
    (show Machine.exec _ _ scanAlone = _ from rfl)
  exact ⟨_, _, _, h, rfl, rfl, (drained_drains h (e := .resume) rfl rfl rfl).mpr fun hcut => nomatch hcut.2⟩

/-- A sweep of nine cards, started by the user, and a scan; the close comes while the
    first eight checks run. -/
def sweepAndScan : List Event :=
  [.startScan, .operations .checkNow, .window .requestClose, .resume, .resume] ++
    List.replicate 8 (.operations (.checkEnds 0)) ++ [.operations (.batchEnds 0)]

theorem drain_skips_the_scan :
    ¬ ∀ (log : List (State × Event)) (s s' : State) (e : Event), drain.Runs log s → drain.step s e = some s' →
        s.window.drained = false → s'.window.drained = true → NothingRuns s' := by
  intro h
  have hrun := Machine.runs_of_exec (M := drain) (s := shown)
    ⟨⟨rfl, rfl, rfl, rfl, rfl⟩, rfl, rfl, rfl, rfl, rfl, rfl, rfl, rfl, rfl, rfl, rfl⟩
    (show Machine.exec _ _ sweepAndScan = _ from rfl)
  have hscan := (h _ _ _ .resume hrun rfl rfl rfl).scan
  cases hscan

end MythLab.App.Drain
