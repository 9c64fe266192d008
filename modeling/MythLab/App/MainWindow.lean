/-
  MythLab.App.MainWindow — closing the main window.

  A close request is refused while a metadata operation runs on one of the three models
  and remembered (`closeRequested`); when the last one finishes, `ResumeClose` queues a
  `resume`. Otherwise the first request starts the drain, in which the window stays open;
  the drain ends by queueing a `close`, and from then on (`drained`) a request with no
  operation running closes the window. Queued actions run in order, each between two other
  steps. An operation may start at any time, also during the drain.

  Proved (`close_resumes`), in every run: where a close is requested, nothing is busy, no
  drain is running and the window is open, a queued action resumes the close exactly if the
  queued `close` has not run while a model was busy. One that does is refused and
  remembered, and the `resume` queued for it does nothing, because `drained` is set
  (`deferred_close_is_lost`).
-/
import Mathlib.Logic.Function.Basic
import MythLab.Lib.Machine

namespace MythLab.App.MainWindow

open Lib

inductive Model where
  | shell
  | discovery
  | connections
  deriving DecidableEq, Repr

/-- What the dispatcher runs at background priority. -/
inductive Action where
  /-- `if (!drained && !waitingForScan) Close();` -/
  | resume
  /-- `Close()` -/
  | close
  deriving DecidableEq, Repr

structure State where
  isOpen : Bool
  isEnabled : Bool
  notice : String
  busy : Model → Bool
  waitingForScan : Bool
  drained : Bool
  closeRequested : Bool
  queue : List Action

inductive Event where
  | requestClose
  | start (m : Model)
  | finish (m : Model)
  | drainCompletes
  | dispatch
  deriving DecidableEq, Repr

def isBusy (s : State) : Bool := s.busy .shell || s.busy .discovery || s.busy .connections

/-- `Close()`, with `OnClosing`. -/
def close (s : State) : State :=
  if s.isOpen = false ∨ s.waitingForScan = true then s
  else if isBusy s then
    { s with
      closeRequested := true
      isEnabled := false
      notice := "Closing after the current metadata operation finishes..." }
  else if s.drained then { s with isOpen := false }
  else { s with waitingForScan := true }

/-- The `finally` of `OnClosing`. -/
def drainCompletes (s : State) : State :=
  { s with drained := true, waitingForScan := false, queue := s.queue ++ [.close] }

/-- `ResumeClose`, for a change of `IsBusy`. -/
def resumeClose (s : State) : State :=
  if s.isOpen = true ∧ s.closeRequested = true ∧ isBusy s = false then { s with queue := s.queue ++ [.resume] } else s

def setIsBusy (s : State) (m : Model) (value : Bool) : State :=
  resumeClose { s with busy := Function.update s.busy m value }

def perform (s : State) : Action → State
  | .resume => if s.drained = false ∧ s.waitingForScan = false then close s else s
  | .close => close s

def step (s : State) : Event → Option State
  | .requestClose => some (close s)
  | .start m => if s.busy m then none else some (setIsBusy s m true)
  | .finish m => if s.busy m then some (setIsBusy s m false) else none
  | .drainCompletes => if s.waitingForScan then some (drainCompletes s) else none
  | .dispatch =>
    match s.queue with
    | [] => none
    | a :: rest => some (perform { s with queue := rest } a)

/-- The window is shown; operations may be running. -/
def Start (s : State) : Prop :=
  s.isOpen = true ∧ s.waitingForScan = false ∧ s.drained = false ∧ s.closeRequested = false ∧ s.queue = []

def mainWindow : Machine State Event := ⟨Start, step⟩

/-! ## What a step does -/

inductive Change (s : State) : Event → State → Prop
  | requestClose : Change s .requestClose (close s)
  | setIsBusy {e : Event} (m : Model) (value : Bool) : e = .start m ∨ e = .finish m → Change s e (setIsBusy s m value)
  | drainCompletes : s.waitingForScan = true → Change s .drainCompletes (drainCompletes s)
  | dispatch {a : Action} {rest : List Action} : s.queue = a :: rest →
      Change s .dispatch (perform { s with queue := rest } a)

theorem step_change {s s' : State} {e : Event} (hs : step s e = some s') : Change s e s' := by
  cases e with
  | requestClose => cases hs; exact .requestClose
  | start m =>
    simp only [step] at hs
    split at hs <;> cases hs
    exact .setIsBusy m true (Or.inl rfl)
  | finish m =>
    simp only [step] at hs
    split at hs <;> cases hs
    exact .setIsBusy m false (Or.inr rfl)
  | drainCompletes =>
    simp only [step] at hs
    split at hs <;> cases hs
    exact .drainCompletes ‹_›
  | dispatch =>
    simp only [step] at hs
    split at hs <;> cases hs
    exact .dispatch ‹_›

/-- The four things `Close()` does. -/
theorem close_cases (s : State) :
    (s.isOpen = false ∨ s.waitingForScan = true) ∧ close s = s ∨
      s.isOpen = true ∧ s.waitingForScan = false ∧
        (isBusy s = true ∧ close s = { s with
            closeRequested := true
            isEnabled := false
            notice := "Closing after the current metadata operation finishes..." } ∨
          isBusy s = false ∧ s.drained = true ∧ close s = { s with isOpen := false } ∨
          isBusy s = false ∧ s.drained = false ∧ close s = { s with waitingForScan := true }) := by
  unfold close
  by_cases h : s.isOpen = false ∨ s.waitingForScan = true
  · exact Or.inl ⟨h, if_pos h⟩
  · right
    have hn := not_or.mp h
    refine ⟨by simpa using hn.1, by simpa using hn.2, ?_⟩
    rw [if_neg h]
    by_cases hb : isBusy s = true
    · exact Or.inl ⟨hb, if_pos hb⟩
    · right
      rw [if_neg hb]
      by_cases hd : s.drained = true
      · exact Or.inl ⟨by simpa using hb, hd, if_pos hd⟩
      · exact Or.inr ⟨by simpa using hb, by simpa using hd, if_neg hd⟩

@[simp] theorem close_queue (s : State) : (close s).queue = s.queue := by
  unfold close; repeat' split
  all_goals rfl

@[simp] theorem close_drained (s : State) : (close s).drained = s.drained := by
  unfold close; repeat' split
  all_goals rfl

@[simp] theorem close_busy (s : State) : isBusy (close s) = isBusy s := by
  unfold close; repeat' split
  all_goals rfl

theorem perform_queue (s : State) (a : Action) : (perform s a).queue = s.queue := by
  cases a <;> simp only [perform]
  · split
    · exact close_queue s
    · rfl
  · exact close_queue s

theorem perform_drained (s : State) (a : Action) : (perform s a).drained = s.drained := by
  cases a <;> simp only [perform]
  · split
    · exact close_drained s
    · rfl
  · exact close_drained s

/-! ## The queued close -/

abbrev Log := List (State × Event)

/-- The queued `close` has run while a model was busy. -/
def RanWhileBusy (log : Log) : Prop :=
  ∃ p ∈ log, p.2 = .dispatch ∧ p.1.queue.head? = some .close ∧ isBusy p.1 = true

/-- The drain queues `close` once. While the window is open it is still in the queue, or
    it has run while a model was busy. -/
structure Queued (log : Log) (s : State) : Prop where
  before : s.drained = false → s.queue.count .close = 0 ∧ ¬ RanWhileBusy log
  waiting : s.waitingForScan = true → s.drained = false
  after : s.drained = true → s.isOpen = true →
    s.queue.count .close = 1 ∧ ¬ RanWhileBusy log ∨ s.queue.count .close = 0 ∧ RanWhileBusy log

theorem ranWhileBusy_snoc {log : Log} {s : State} {e : Event} :
    RanWhileBusy (log ++ [(s, e)]) ↔
      RanWhileBusy log ∨ e = .dispatch ∧ s.queue.head? = some .close ∧ isBusy s = true := by
  simp [RanWhileBusy, or_and_right, exists_or]

/-- A step that neither queues nor runs a `close`. -/
theorem Queued.of_same {log : Log} {s s' : State} {e : Event} (h : Queued log s)
    (hcount : s'.queue.count .close = s.queue.count .close) (hdrained : s'.drained = s.drained)
    (hopen : s'.isOpen = true → s.isOpen = true) (hwaiting : s'.waitingForScan = true → s.drained = false)
    (hran : ¬ (e = .dispatch ∧ s.queue.head? = some .close)) : Queued (log ++ [(s, e)]) s' := by
  have hlog : RanWhileBusy (log ++ [(s, e)]) ↔ RanWhileBusy log := by
    rw [ranWhileBusy_snoc]
    exact ⟨fun hr => hr.resolve_right fun ⟨he, hh, _⟩ => hran ⟨he, hh⟩, Or.inl⟩
  refine ⟨?_, fun hw => hdrained.trans (hwaiting hw), ?_⟩
  · intro hd
    rw [hcount, hlog]
    exact h.before (hdrained ▸ hd)
  · intro hd ho
    rw [hcount, hlog]
    exact h.after (hdrained ▸ hd) (hopen ho)

theorem close_isOpen {s : State} (h : (close s).isOpen = true) : s.isOpen = true := by
  rcases close_cases s with ⟨-, hc⟩ | ⟨ho, -⟩
  · rwa [hc] at h
  · exact ho

theorem close_waiting {s : State} (hs : s.waitingForScan = true → s.drained = false)
    (h : (close s).waitingForScan = true) : s.drained = false := by
  rcases close_cases s with ⟨-, hc⟩ | ⟨-, hw, ⟨-, hc⟩ | ⟨-, -, hc⟩ | ⟨-, hd, -⟩⟩
  · exact hs (hc ▸ h)
  · rw [hc] at h; exact hs h
  · rw [hc] at h; exact hs h
  · exact hd

theorem setIsBusy_same (s : State) (m : Model) (b : Bool) :
    (setIsBusy s m b).queue.count .close = s.queue.count .close ∧ (setIsBusy s m b).drained = s.drained ∧
      (setIsBusy s m b).isOpen = s.isOpen ∧ (setIsBusy s m b).waitingForScan = s.waitingForScan := by
  unfold setIsBusy resumeClose
  split <;> simp

/-- Running the queued `close`: if the window stays open, a model was busy. -/
theorem perform_close_queued {log : Log} {s : State} {rest : List Action} (h : Queued log s)
    (hq : s.queue = .close :: rest) : Queued (log ++ [(s, .dispatch)]) (perform { s with queue := rest } .close) := by
  have hdrained : s.drained = true := by
    by_contra hn
    have hzero := (h.before (by simpa using hn)).1
    simp [hq] at hzero
  have hd' : (perform { s with queue := rest } .close).drained = true := (perform_drained _ _).trans hdrained
  refine ⟨?_, ?_, fun _ ho => Or.inr ?_⟩
  · intro hd
    simp [hd'] at hd
  · intro hw
    have hno : s.drained = false := close_waiting (s := { s with queue := rest }) h.waiting hw
    simp [hdrained] at hno
  · have hopen : s.isOpen = true := close_isOpen (s := { s with queue := rest }) ho
    have hbusy : isBusy s = true := by
      rcases close_cases { s with queue := rest } with ⟨hc, -⟩ | ⟨-, -, ⟨hb, -⟩ | ⟨-, -, hc⟩ | ⟨-, hd, -⟩⟩
      · rcases hc with hc | hc
        · simp [hopen] at hc
        · have hno := h.waiting hc
          simp [hdrained] at hno
      · exact hb
      · simp only [perform] at ho
        simp [hc] at ho
      · simp [hdrained] at hd
    refine ⟨?_, ranWhileBusy_snoc.mpr (Or.inr ⟨rfl, by rw [hq]; rfl, hbusy⟩)⟩
    rw [perform_queue]
    rcases h.after hdrained hopen with ⟨hcount, -⟩ | ⟨hcount, -⟩
    · simpa [hq] using hcount
    · simp [hq] at hcount

theorem step_queued {log : Log} {s s' : State} {e : Event} (h : Queued log s) (hs : step s e = some s') :
    Queued (log ++ [(s, e)]) s' := by
  cases step_change hs with
  | requestClose => exact h.of_same (by simp) (by simp) close_isOpen (close_waiting h.waiting) fun hr => nomatch hr.1
  | setIsBusy m value he =>
    obtain ⟨hc, hd, ho, hw⟩ := setIsBusy_same s m value
    refine h.of_same hc hd (by simp [ho]) (by rw [hw]; exact h.waiting) ?_
    intro hr
    rcases he with rfl | rfl <;> exact nomatch hr.1
  | drainCompletes hw =>
    obtain ⟨hcount, hran⟩ := h.before (h.waiting hw)
    have hlog : ¬ RanWhileBusy (log ++ [(s, .drainCompletes)]) := by
      rw [ranWhileBusy_snoc]
      exact not_or.mpr ⟨hran, fun hr => nomatch hr.1⟩
    refine ⟨fun hd => (nomatch hd), fun hw => (nomatch hw), fun _ _ => Or.inl ⟨?_, hlog⟩⟩
    simp [drainCompletes, hcount]
  | @dispatch a rest hq =>
    cases a with
    | resume =>
      -- whether or not it calls `Close()`, only the head of the queue is gone
      have hwaiting : (perform { s with queue := rest } .resume).waitingForScan = true → s.drained = false := by
        simp only [perform]
        split
        · exact close_waiting h.waiting
        · exact h.waiting
      refine h.of_same ?_ (perform_drained _ _) ?_ hwaiting ?_
      · rw [perform_queue, hq]
        simp
      · intro ho
        simp only [perform] at ho
        split at ho
        · exact close_isOpen (s := { s with queue := rest }) ho
        · exact ho
      · intro hr
        rw [hq] at hr
        cases hr.2
    | close => exact perform_close_queued h hq

theorem close_keeps_waiting {s : State} (h : s.waitingForScan = true) : (close s).waitingForScan = true := by
  rcases close_cases s with ⟨-, hc⟩ | ⟨-, hw, -⟩
  · rw [hc]; exact h
  · simp [hw] at h

/-- Only the end of the drain sets `drained`, and ends the wait. -/
theorem step_frame {s s' : State} {e : Event} (hs : step s e = some s') (he : e ≠ .drainCompletes) :
    s'.drained = s.drained ∧ (s.waitingForScan = true → s'.waitingForScan = true) := by
  cases step_change hs with
  | requestClose => exact ⟨close_drained s, close_keeps_waiting⟩
  | setIsBusy m value =>
    obtain ⟨-, hd, -, hw⟩ := setIsBusy_same s m value
    exact ⟨hd, fun h => hw.trans h⟩
  | drainCompletes => exact absurd rfl he
  | @dispatch a rest hq =>
    refine ⟨perform_drained _ a, ?_⟩
    intro h
    cases a with
    | resume =>
      simp only [perform]
      split
      · exact close_keeps_waiting h
      · exact h
    | close => exact close_keeps_waiting h

/-! ## The remembered request -/

/-- A request remembered before the drain is taken up: an operation is still running, or
    a `resume` is queued. -/
def Remembered (s : State) : Prop :=
  s.isOpen = true → s.closeRequested = true → s.drained = false → s.waitingForScan = false →
    isBusy s = true ∨ Action.resume ∈ s.queue

theorem close_remembered (s : State) : Remembered (close s) := by
  intro ho hr hd hw
  rcases close_cases s with ⟨hc, he⟩ | ⟨-, -, ⟨hb, he⟩ | ⟨-, -, he⟩ | ⟨-, -, he⟩⟩
  · rw [he] at ho hw
    rcases hc with hc | hc
    · simp [ho] at hc
    · simp [hw] at hc
  · exact Or.inl ((close_busy s).trans hb)
  · simp [he] at ho
  · simp [he] at hw

theorem resumeClose_remembered (s : State) : Remembered (resumeClose s) := by
  intro ho hr hd hw
  unfold resumeClose at ho hr ⊢
  by_cases hb : isBusy s = true
  · left
    split <;> exact hb
  · right
    split
    · simp
    · rename_i hn
      rw [if_neg hn] at ho hr
      exact absurd ⟨ho, hr, by simpa using hb⟩ hn

theorem step_remembered {s s' : State} {e : Event} (hs : step s e = some s') : Remembered s' := by
  cases step_change hs with
  | requestClose => exact close_remembered s
  | setIsBusy m value => exact resumeClose_remembered _
  | drainCompletes hw => exact fun _ _ hd _ => (nomatch hd)
  | @dispatch a rest hq =>
    cases a with
    | resume =>
      simp only [perform]
      split
      · exact close_remembered _
      · rename_i hn
        intro _ _ hd hw
        exact absurd ⟨hd, hw⟩ hn
    | close => exact close_remembered _

/-! ## Every run -/

/-- The invariant of a run. -/
def RunInv (log : Log) (s : State) : Prop := Queued log s ∧ Remembered s

theorem runs_inv {log : Log} {s : State} (h : mainWindow.Runs log s) : RunInv log s := by
  refine h.log_inv (I := RunInv) ?_ ?_
  · intro s hs
    obtain ⟨-, hw, hd, hr, hq⟩ := hs
    refine ⟨⟨fun _ => ⟨by simp [hq], fun ⟨_, hp, _⟩ => (nomatch hp)⟩, ?_, ?_⟩, ?_⟩
    · intro h
      simp [hw] at h
    · intro h
      simp [hd] at h
    · intro _ h
      simp [hr] at h
  · intro log s e s' _ hinv hstep
    exact ⟨step_queued hinv.1 hstep, step_remembered hstep⟩

/-- Run in `s`, the action closes the window or starts the drain that will. -/
def Resumes (s : State) (a : Action) : Prop := (perform s a).isOpen = false ∨ (perform s a).waitingForScan = true

/-- A remembered close request is taken up, unless the `close` of the drain has run while a
    model was busy. -/
theorem close_resumes {log : Log} {s : State} (h : mainWindow.Runs log s) (hrequested : s.closeRequested = true)
    (hidle : isBusy s = false) (hdrain : s.waitingForScan = false) (hopen : s.isOpen = true) :
    (∃ a ∈ s.queue, Resumes s a) ↔ ¬ RanWhileBusy log := by
  obtain ⟨hqueued, hremembered⟩ := runs_inv h
  have hcases := close_cases s
  rw [hopen, hdrain, hidle] at hcases
  simp only [Bool.true_eq_false, Bool.false_eq_true, or_self, false_and, true_and, false_or] at hcases
  by_cases hd : s.drained = true
  · -- only a queued `close` closes the window now
    have hclose : Resumes s .close := by
      rcases hcases with ⟨-, hc⟩ | ⟨hn, -⟩
      · exact Or.inl (by simp only [perform]; rw [hc])
      · simp [hd] at hn
    have hresume : ¬ Resumes s .resume := by
      simp [Resumes, perform, hd, hopen, hdrain]
    have hmem : (∃ a ∈ s.queue, Resumes s a) ↔ Action.close ∈ s.queue := by
      refine ⟨?_, fun hq => ⟨_, hq, hclose⟩⟩
      intro ⟨a, ha, hr⟩
      cases a with
      | resume => exact absurd hr hresume
      | close => exact ha
    rw [hmem, ← List.count_pos_iff]
    rcases hqueued.after hd hopen with ⟨hcount, hran⟩ | ⟨hcount, hran⟩
    · exact ⟨fun _ => hran, fun _ => by omega⟩
    · exact ⟨fun hpos => by omega, fun hno => absurd hran hno⟩
  · have hd' : s.drained = false := by simpa using hd
    have hresume : Action.resume ∈ s.queue := by
      rcases hremembered hopen hrequested hd' hdrain with hb | hq
      · simp [hidle] at hb
      · exact hq
    refine ⟨fun _ => (hqueued.before hd').2, fun _ => ⟨_, hresume, Or.inr ?_⟩⟩
    rcases hcases with ⟨hn, -⟩ | ⟨-, hc⟩
    · exact absurd hn hd
    · simp only [perform, hd', hdrain]
      rw [if_pos ⟨trivial, trivial⟩, hc]

/-! ## Runs -/

def shown : State := ⟨true, true, "", fun _ => false, false, false, false, []⟩

/-- A close requested while an operation runs is taken up when it has finished. -/
theorem request_during_operation_resumes :
    ∃ log s, mainWindow.Runs log s ∧ s.queue = [.resume] ∧ ((∃ a ∈ s.queue, Resumes s a) ↔ ¬ RanWhileBusy log) := by
  have h := Machine.runs_of_exec (M := mainWindow) (s := shown) ⟨rfl, rfl, rfl, rfl, rfl⟩
    (show Machine.exec _ _ [.start .shell, .requestClose, .finish .shell] = _ from rfl)
  exact ⟨_, _, h, rfl, close_resumes h rfl rfl rfl rfl⟩

/-- A connections operation starts during the drain, in the window that is still enabled,
    and is running when the queued `close` comes. -/
theorem deferred_close_is_lost :
    ¬ ∀ (log : Log) (s : State), mainWindow.Runs log s → s.closeRequested = true → isBusy s = false →
        s.waitingForScan = false → s.isOpen = true → ∃ a ∈ s.queue, Resumes s a := by
  intro h
  have hrun := Machine.runs_of_exec (M := mainWindow) (s := shown) ⟨rfl, rfl, rfl, rfl, rfl⟩ (show Machine.exec _ _
    [.requestClose, .start .connections, .drainCompletes, .dispatch, .finish .connections] = _ from rfl)
  obtain ⟨a, ha, hr⟩ := h _ _ hrun rfl rfl rfl rfl
  cases List.mem_singleton.mp ha
  rcases hr with hr | hr <;> cases hr

end MythLab.App.MainWindow
