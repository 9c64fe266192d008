/-
  MythLab.WakeOnLan.WakeDeviceService — `WakeAsync`: a check, the packets, and checks until
  one of them answers Online, the deadline fires or the caller cancels.

  The status service and the sender may answer anything at any time, exceptions included;
  the caller may cancel and the deadline may fire between any two steps, also between an
  exception and the filter that looks at the caller's token. `history` keeps the calls of a
  wake and what came back.

  `Polled` and `Story` say what such a history can look like, phase by phase; every wake
  keeps to them (`story_of_reach`). The verdict is read off the story (`wake_verdict`). Once
  the deadline's token is cancelled the wait is over in a few steps (`wait_is_over`).
-/
import MythLab.Lib.Machine
import MythLab.WakeOnLan.WakeContracts

namespace MythLab.WakeOnLan.WakeDeviceService

open Lib Dotnet Devices

inductive Happening where
  /-- `status.CheckAsync` is called, for the `n`-th time from 0 on. -/
  | checkStarts (n : Nat)
  | checkAnswers (n : Nat) (observation : StatusObservation)
  | checkThrows (n : Nat) (e : Exn)
  | sendStarts
  | sendCompletes
  | sendThrows (e : Exn)
  /-- `Task.Delay` throws. -/
  | delayCancelled
  deriving DecidableEq, Repr

/-- Where a call of `WakeAsync` is. In the loop: `before`, `latest` and how many checks it has made. -/
inductive Phase where
  | checkingFirst
  | sending (before : StatusObservation)
  | delaying (before latest : StatusObservation) (n : Nat)
  | waiting (before latest : StatusObservation) (n : Nat)
  | checking (before latest : StatusObservation) (n : Nat)
  /-- An `OperationCanceledException` is thrown in the loop, and its filter has not run. -/
  | caught (latest : StatusObservation)
  | returned (outcome : WakeOutcome)
  | threw (e : Exn)
  deriving DecidableEq, Repr

structure State where
  phase : Phase
  /-- `cancellationToken.IsCancellationRequested` -/
  cancelled : Bool := false
  /-- `deadline.IsCancellationRequested`: by its timer, or because it is linked to the caller's token. -/
  deadline : Bool := false
  reports : List WakeProgress := []
  history : List Happening := []
  deriving DecidableEq, Repr

inductive Event where
  /-- The caller cancels its token. -/
  | cancel
  /-- The deadline's source is cancelled. -/
  | deadlineFires
  /-- The check of a device that has not been woken ends. -/
  | firstAnswers (answer : Except Exn StatusObservation)
  | senderReports (progress : WakeProgress)
  | sent (result : Except Exn Unit)
  /-- `Task.Delay` is called. -/
  | delayStarts
  | delayEnds (completed : Bool)
  | answers (answer : Except Exn StatusObservation)
  /-- The exception filter looks at the caller's token. -/
  | filtered
  deriving DecidableEq, Repr

def Phase.isOver : Phase → Bool
  | .returned _ | .threw _ => true
  | _ => false

def Phase.inLoop : Phase → Bool
  | .delaying .. | .waiting .. | .checking .. | .caught _ => true
  | _ => false

def State.note (s : State) (phase : Phase) (happened : List Happening) : State :=
  { s with phase := phase, history := s.history ++ happened }

def State.report (s : State) (progress : WakeProgress) : State := { s with reports := s.reports ++ [progress] }

@[simp] theorem note_phase (s : State) (p : Phase) (h : List Happening) : (s.note p h).phase = p := rfl
@[simp] theorem note_history (s : State) (p : Phase) (h : List Happening) :
    (s.note p h).history = s.history ++ h := rfl
@[simp] theorem report_phase (s : State) (w : WakeProgress) : (s.report w).phase = s.phase := rfl
@[simp] theorem report_history (s : State) (w : WakeProgress) : (s.report w).history = s.history := rfl

def alreadyOnline : Str :=
  str ("Already Online by the configured check. No packets sent; wake support cannot be verified while already " ++
    "online.")

def wakeTimedOut : Str :=
  str ("Wake wait timed out. Check the MAC, NIC/broadcast, BIOS/NIC wake settings, power state and chosen ICMP/TCP " ++
    "check.")

def nowOnline (verified : Bool) : Str :=
  if verified then str "Offline → wake → Online observed. Wake configuration verified by observation."
  else str "Now Online. Initial availability was unknown, so wake support remains unverified."

theorem alreadyOnline_ne : alreadyOnline ≠ wakeTimedOut := by decide +kernel

theorem nowOnline_ne (verified : Bool) : nowOnline verified ≠ wakeTimedOut := by
  cases verified <;> decide +kernel

/-- `WakeAsync` up to its first `await`. -/
def start (device : Device) (timeout interval : Int) : State :=
  if device.wake.capability = .disabled then { phase := .threw (.argument "Wake-on-LAN is disabled.") }
  else if timeout ≤ 0 ∨ interval ≤ 0 then
    { phase := .threw (.argument "Wake wait and polling intervals must be positive.") }
  else
    { phase := .checkingFirst
      reports := [⟨.unknown, str "Checking availability before wake…"⟩]
      history := [.checkStarts 0] }

def step (s : State) : Event → Option State
  | .cancel => if s.phase.isOver ∨ s.cancelled then none else some { s with cancelled := true }
  | .deadlineFires => if s.phase.inLoop ∧ s.deadline = false then some { s with deadline := true } else none
  | .firstAnswers answer =>
    match s.phase, answer with
    | .checkingFirst, .ok before =>
      if before.state = .online then
        some (s.note (.returned ⟨before, false, alreadyOnline⟩) [.checkAnswers 0 before])
      else some (s.note (.sending before) [.checkAnswers 0 before, .sendStarts])
    | .checkingFirst, .error e => some (s.note (.threw e) [.checkThrows 0 e])
    | _, _ => none
  | .senderReports progress =>
    match s.phase with
    | .sending _ => some (s.report progress)
    | _ => none
  | .sent result =>
    match s.phase, result with
    | .sending before, .ok () =>
      -- The source is linked: it starts cancelled where the caller has cancelled.
      some (({ s with deadline := s.cancelled }.note (.delaying before before 0) [.sendCompletes]).report
        ⟨.waking, str "Wake packets sent. Waiting for the configured status check to succeed…"⟩)
    | .sending _, .error e => some (s.note (.threw e) [.sendThrows e])
    | _, _ => none
  | .delayStarts =>
    match s.phase with
    | .delaying before latest n =>
      if s.deadline then some (s.note (.caught latest) [.delayCancelled])
      else some { s with phase := .waiting before latest n }
    | _ => none
  | .delayEnds completed =>
    match s.phase with
    | .waiting before latest n =>
      if completed then some (s.note (.checking before latest n) [.checkStarts (n + 1)])
      else if s.deadline then some (s.note (.caught latest) [.delayCancelled])
      else none
    | _ => none
  | .answers answer =>
    match s.phase, answer with
    | .checking before _ n, .ok latest =>
      if latest.state = .online then
        let verified := decide (before.state = .offline)
        some (s.note (.returned ⟨latest, verified, nowOnline verified⟩) [.checkAnswers (n + 1) latest])
      else
        some ((s.note (.delaying before latest (n + 1)) [.checkAnswers (n + 1) latest]).report
          ⟨.waking, str "Still waiting. " ++ latest.detail⟩)
    | .checking _ latest n, .error e =>
      if e = .operationCanceled then some (s.note (.caught latest) [.checkThrows (n + 1) e])
      else some (s.note (.threw e) [.checkThrows (n + 1) e])
    | _, _ => none
  | .filtered =>
    match s.phase with
    | .caught latest =>
      if s.cancelled then some { s with phase := .threw .operationCanceled }
      else some { s with phase := .returned ⟨latest, false, wakeTimedOut⟩ }
    | _ => none

def machine (device : Device) (timeout interval : Int) : Machine State Event :=
  ⟨(· = start device timeout interval), step⟩

/-! ## What a step does -/

inductive Change (s : State) : Event → State → Prop
  | cancels : s.phase.isOver = false → s.cancelled = false → Change s .cancel { s with cancelled := true }
  | fires : s.phase.inLoop = true → s.deadline = false → Change s .deadlineFires { s with deadline := true }
  | firstOnline {o : StatusObservation} : s.phase = .checkingFirst → o.state = .online →
      Change s (.firstAnswers (.ok o)) (s.note (.returned ⟨o, false, alreadyOnline⟩) [.checkAnswers 0 o])
  | firstDown {o : StatusObservation} : s.phase = .checkingFirst → o.state ≠ .online →
      Change s (.firstAnswers (.ok o)) (s.note (.sending o) [.checkAnswers 0 o, .sendStarts])
  | firstThrows {e : Exn} : s.phase = .checkingFirst →
      Change s (.firstAnswers (.error e)) (s.note (.threw e) [.checkThrows 0 e])
  | reports {before : StatusObservation} (progress : WakeProgress) : s.phase = .sending before →
      Change s (.senderReports progress) (s.report progress)
  | sent {before : StatusObservation} (deadline : Bool) (progress : WakeProgress) : s.phase = .sending before →
      Change s (.sent (.ok ()))
        (({ s with deadline := deadline }.note (.delaying before before 0) [.sendCompletes]).report progress)
  | sendThrows {before : StatusObservation} {e : Exn} : s.phase = .sending before →
      Change s (.sent (.error e)) (s.note (.threw e) [.sendThrows e])
  /-- The delay finds its source cancelled, or it is cancelled under it. -/
  | delayCut {e : Event} {before latest : StatusObservation} {n : Nat} :
      s.phase = .delaying before latest n ∨ s.phase = .waiting before latest n →
      Change s e (s.note (.caught latest) [.delayCancelled])
  | delays {before latest : StatusObservation} {n : Nat} : s.phase = .delaying before latest n → s.deadline = false →
      Change s .delayStarts { s with phase := .waiting before latest n }
  | checks {before latest : StatusObservation} {n : Nat} : s.phase = .waiting before latest n →
      Change s (.delayEnds true) (s.note (.checking before latest n) [.checkStarts (n + 1)])
  | online {before latest o : StatusObservation} {n : Nat} : s.phase = .checking before latest n → o.state = .online →
      Change s (.answers (.ok o))
        (s.note (.returned ⟨o, decide (before.state = .offline), nowOnline (decide (before.state = .offline))⟩)
          [.checkAnswers (n + 1) o])
  | down {before latest o : StatusObservation} {n : Nat} (progress : WakeProgress) :
      s.phase = .checking before latest n → o.state ≠ .online →
      Change s (.answers (.ok o)) ((s.note (.delaying before o (n + 1)) [.checkAnswers (n + 1) o]).report progress)
  | checkCut {before latest : StatusObservation} {n : Nat} : s.phase = .checking before latest n →
      Change s (.answers (.error .operationCanceled))
        (s.note (.caught latest) [.checkThrows (n + 1) .operationCanceled])
  | checkThrows {before latest : StatusObservation} {n : Nat} {e : Exn} : s.phase = .checking before latest n →
      e ≠ .operationCanceled → Change s (.answers (.error e)) (s.note (.threw e) [.checkThrows (n + 1) e])
  | cancelled {latest : StatusObservation} : s.phase = .caught latest → s.cancelled = true →
      Change s .filtered { s with phase := .threw .operationCanceled }
  | timedOut {latest : StatusObservation} : s.phase = .caught latest → s.cancelled = false →
      Change s .filtered { s with phase := .returned ⟨latest, false, wakeTimedOut⟩ }

theorem step_change {s s' : State} {e : Event} (he : step s e = some s') : Change s e s' := by
  cases e with
  | cancel =>
    simp only [step] at he
    split at he <;> cases he
    rename_i hno
    rw [not_or, Bool.not_eq_true, Bool.not_eq_true] at hno
    exact .cancels hno.1 hno.2
  | deadlineFires =>
    simp only [step] at he
    split at he <;> cases he
    rename_i h
    exact .fires h.1 h.2
  | firstAnswers answer =>
    simp only [step] at he
    split at he
    · split at he <;> cases he
      · exact .firstOnline ‹_› ‹_›
      · exact .firstDown ‹_› ‹_›
    · cases he
      exact .firstThrows ‹_›
    · cases he
  | senderReports progress =>
    simp only [step] at he
    split at he <;> cases he
    exact .reports progress ‹_›
  | sent result =>
    simp only [step] at he
    split at he <;> cases he
    · exact .sent _ _ ‹_›
    · exact .sendThrows ‹_›
  | delayStarts =>
    simp only [step] at he
    split at he
    · rename_i hp
      split at he <;> cases he
      · exact .delayCut (Or.inl hp)
      · exact .delays hp ((Bool.not_eq_true _).mp ‹_›)
    · cases he
  | delayEnds completed =>
    simp only [step] at he
    split at he
    · rename_i hp
      cases completed with
      | true =>
        cases he
        exact .checks hp
      | false =>
        rw [if_neg Bool.false_ne_true] at he
        split at he <;> cases he
        exact .delayCut (Or.inr hp)
    · cases he
  | answers answer =>
    simp only [step] at he
    split at he
    · split at he <;> cases he
      · exact .online ‹_› ‹_›
      · exact .down _ ‹_› ‹_›
    · split at he <;> cases he
      · rename_i hoc
        subst hoc
        exact .checkCut ‹_›
      · exact .checkThrows ‹_› ‹_›
    · cases he
  | filtered =>
    simp only [step] at he
    split at he
    · split at he <;> cases he
      · exact .cancelled ‹_› ‹_›
      · exact .timedOut ‹_› ((Bool.not_eq_true _).mp ‹_›)
    · cases he

/-! ## What a wake's calls can look like -/

/-- `n` checks after the packets, none of them Online, `latest` the last answer. -/
inductive Polled (before : StatusObservation) : StatusObservation → Nat → List Happening → Prop
  | sent : before.state ≠ .online →
      Polled before before 0 [.checkStarts 0, .checkAnswers 0 before, .sendStarts, .sendCompletes]
  | answered {latest o : StatusObservation} {n : Nat} {h : List Happening} : Polled before latest n h →
      o.state ≠ .online → Polled before o (n + 1) (h ++ [.checkStarts (n + 1), .checkAnswers (n + 1) o])

/-- The exception that interrupted the loop, as a history shows it. -/
inductive Interruption (n : Nat) : List Happening → Prop
  | delay : Interruption n [.delayCancelled]
  | check : Interruption n [.checkStarts (n + 1), .checkThrows (n + 1) .operationCanceled]

/-- What a wake has called, where it is in a phase and the caller has cancelled or not. -/
inductive Story (cancelled : Bool) : Phase → List Happening → Prop
  | refused (e : Exn) : Story cancelled (.threw e) []
  | checkingFirst : Story cancelled .checkingFirst [.checkStarts 0]
  | firstThrew (e : Exn) : Story cancelled (.threw e) [.checkStarts 0, .checkThrows 0 e]
  | alreadyOnline {o : StatusObservation} : o.state = .online →
      Story cancelled (.returned ⟨o, false, WakeDeviceService.alreadyOnline⟩) [.checkStarts 0, .checkAnswers 0 o]
  | sending {before : StatusObservation} : before.state ≠ .online →
      Story cancelled (.sending before) [.checkStarts 0, .checkAnswers 0 before, .sendStarts]
  | sendThrew {before : StatusObservation} (e : Exn) : before.state ≠ .online →
      Story cancelled (.threw e) [.checkStarts 0, .checkAnswers 0 before, .sendStarts, .sendThrows e]
  | delaying {before latest : StatusObservation} {n : Nat} {h : List Happening} : Polled before latest n h →
      Story cancelled (.delaying before latest n) h
  | waiting {before latest : StatusObservation} {n : Nat} {h : List Happening} : Polled before latest n h →
      Story cancelled (.waiting before latest n) h
  | checking {before latest : StatusObservation} {n : Nat} {h : List Happening} : Polled before latest n h →
      Story cancelled (.checking before latest n) (h ++ [.checkStarts (n + 1)])
  | caught {before latest : StatusObservation} {n : Nat} {h i : List Happening} : Polled before latest n h →
      Interruption n i → Story cancelled (.caught latest) (h ++ i)
  | online {before latest o : StatusObservation} {n : Nat} {h : List Happening} : Polled before latest n h →
      o.state = .online →
      Story cancelled (.returned ⟨o, decide (before.state = .offline), nowOnline (decide (before.state = .offline))⟩)
        (h ++ [.checkStarts (n + 1), .checkAnswers (n + 1) o])
  | checkThrew {before latest : StatusObservation} {n : Nat} {h : List Happening} {e : Exn} :
      Polled before latest n h → e ≠ .operationCanceled →
      Story cancelled (.threw e) (h ++ [.checkStarts (n + 1), .checkThrows (n + 1) e])
  | timedOut {before latest : StatusObservation} {n : Nat} {h i : List Happening} : cancelled = false →
      Polled before latest n h → Interruption n i → Story cancelled (.returned ⟨latest, false, wakeTimedOut⟩) (h ++ i)
  | cancelled {before latest : StatusObservation} {n : Nat} {h i : List Happening} : cancelled = true →
      Polled before latest n h → Interruption n i → Story cancelled (.threw .operationCanceled) (h ++ i)

variable {before latest : StatusObservation} {n : Nat} {h i : List Happening} {p : Phase} {s s' : State} {e : Event}
  {device : Device} {timeout interval : Int} {c : Bool}

theorem Story.of_checkingFirst (hs : Story c .checkingFirst h) : h = [.checkStarts 0] := by cases hs; rfl

theorem Story.of_sending (hs : Story c (.sending before) h) :
    h = [.checkStarts 0, .checkAnswers 0 before, .sendStarts] ∧ before.state ≠ .online := by
  cases hs with
  | sending hb => exact ⟨rfl, hb⟩

theorem Story.of_delaying (hs : Story c (.delaying before latest n) h) : Polled before latest n h := by
  cases hs with
  | delaying hp => exact hp

theorem Story.of_waiting (hs : Story c (.waiting before latest n) h) : Polled before latest n h := by
  cases hs with
  | waiting hp => exact hp

theorem Story.of_checking (hs : Story c (.checking before latest n) h) :
    ∃ h', h = h' ++ [.checkStarts (n + 1)] ∧ Polled before latest n h' := by
  cases hs with
  | checking hp => exact ⟨_, rfl, hp⟩

theorem Story.of_caught (hs : Story c (.caught latest) h) :
    ∃ before n h' i, h = h' ++ i ∧ Polled before latest n h' ∧ Interruption n i := by
  cases hs with
  | caught hp hi => exact ⟨_, _, _, _, rfl, hp, hi⟩

theorem start_story : Story c (start device timeout interval).phase (start device timeout interval).history := by
  unfold start
  split
  · exact .refused _
  · split
    · exact .refused _
    · exact .checkingFirst

/-- Cancelling changes nothing that has been called. -/
theorem Story.cancel (hs : Story c s.phase s.history) (ho : s.phase.isOver = false) :
    Story true s.phase s.history := by
  generalize s.phase = p, s.history = h at hs ho
  cases hs with
  | checkingFirst => exact .checkingFirst
  | sending hb => exact .sending hb
  | delaying hp => exact .delaying hp
  | waiting hp => exact .waiting hp
  | checking hp => exact .checking hp
  | caught hp hi => exact .caught hp hi
  | _ => cases ho

theorem step_story (hs : Story s.cancelled s.phase s.history) (he : step s e = some s') :
    Story s'.cancelled s'.phase s'.history := by
  cases step_change he with
  | cancels ho => exact hs.cancel ho
  | fires => exact hs
  | firstOnline hp hon =>
    have hh := (hp ▸ hs).of_checkingFirst
    simpa [hh] using Story.alreadyOnline hon
  | firstDown hp hon =>
    have hh := (hp ▸ hs).of_checkingFirst
    simpa [hh] using Story.sending hon
  | @firstThrows e hp =>
    have hh := (hp ▸ hs).of_checkingFirst
    simpa [hh] using Story.firstThrew e
  | reports => exact hs
  | sent deadline progress hp =>
    obtain ⟨hh, hb⟩ := (hp ▸ hs).of_sending
    simpa [hh] using Story.delaying (.sent hb)
  | @sendThrows b e hp =>
    obtain ⟨hh, hb⟩ := (hp ▸ hs).of_sending
    simpa [hh] using Story.sendThrew e hb
  | delayCut hp =>
    rcases hp with hp | hp
    · exact .caught (hp ▸ hs).of_delaying .delay
    · exact .caught (hp ▸ hs).of_waiting .delay
  | delays hp => exact .waiting (hp ▸ hs).of_delaying
  | checks hp => exact .checking (hp ▸ hs).of_waiting
  | online hp hon =>
    obtain ⟨h, hh, hpolled⟩ := (hp ▸ hs).of_checking
    simpa [hh] using Story.online hpolled hon
  | down progress hp hon =>
    obtain ⟨h, hh, hpolled⟩ := (hp ▸ hs).of_checking
    simpa [hh] using Story.delaying (.answered hpolled hon)
  | checkCut hp =>
    obtain ⟨h, hh, hpolled⟩ := (hp ▸ hs).of_checking
    simpa [hh] using Story.caught hpolled .check
  | checkThrows hp hoc =>
    obtain ⟨h, hh, hpolled⟩ := (hp ▸ hs).of_checking
    simpa [hh] using Story.checkThrew hpolled hoc
  | cancelled hp hc =>
    obtain ⟨b, n, h, i, hh, hpolled, hi⟩ := (hp ▸ hs).of_caught
    rw [hh]
    exact .cancelled hc hpolled hi
  | timedOut hp hc =>
    obtain ⟨b, n, h, i, hh, hpolled, hi⟩ := (hp ▸ hs).of_caught
    rw [hh]
    exact .timedOut hc hpolled hi

theorem story_of_reach (h : (machine device timeout interval).Reach s) : Story s.cancelled s.phase s.history := by
  refine h.inv ?_ fun _ _ _ => step_story
  intro s hs
  subst hs
  exact start_story

/-! ## The verdict -/

def Happening.answered : Happening → Option StatusObservation
  | .checkAnswers _ o => some o
  | _ => none

/-- The answer of the last check that completed. -/
def lastAnswer (h : List Happening) : Option StatusObservation := (h.filterMap Happening.answered).getLast?

/-- The first answer was Offline, the sender completed, and a check started after that answered Online. -/
def Verified (h : List Happening) : Prop :=
  (∃ o, .checkAnswers 0 o ∈ h ∧ o.state = .offline) ∧ .sendCompletes ∈ h ∧
    ∃ n o, [.sendCompletes, .checkStarts n, .checkAnswers n o].Sublist h ∧ o.state = .online

/-- The sender is called at most once, and not at all where the first answer is Online. -/
def SendsOnce (h : List Happening) : Prop :=
  h.count .sendStarts ≤ 1 ∧ ∀ o, .checkAnswers 0 o ∈ h → o.state = .online → .sendStarts ∉ h

/-- A check, the sender or a delay threw `OperationCanceledException`. -/
def Interrupted (h : List Happening) : Prop :=
  .delayCancelled ∈ h ∨ .sendThrows .operationCanceled ∈ h ∨ ∃ n, .checkThrows n .operationCanceled ∈ h

theorem lastAnswer_append (h : List Happening) (n : Nat) (o : StatusObservation) :
    lastAnswer (h ++ [.checkStarts n, .checkAnswers n o]) = some o := by
  have hsplit : h ++ [.checkStarts n, .checkAnswers n o] = (h ++ [.checkStarts n]) ++ [.checkAnswers n o] := by simp
  unfold lastAnswer
  rw [hsplit, List.filterMap_append]
  exact List.getLast?_concat

/-- What interrupts adds no answer. -/
theorem lastAnswer_interruption (hi : Interruption n i) : lastAnswer (h ++ i) = lastAnswer h := by
  have hnone : i.filterMap Happening.answered = [] := by cases hi <;> rfl
  unfold lastAnswer
  rw [List.filterMap_append, hnone, List.append_nil]

namespace Polled

theorem sends (hp : Polled before latest n h) : h.count .sendStarts = 1 := by
  induction hp with
  | sent hb => rfl
  | answered _ _ ih => simpa using ih

theorem completes (hp : Polled before latest n h) : .sendCompletes ∈ h := by
  induction hp with
  | sent hb => simp
  | answered _ _ ih => exact List.mem_append_left _ ih

theorem lastAnswer_eq (hp : Polled before latest n h) : lastAnswer h = some latest := by
  cases hp with
  | sent hb => rfl
  | answered => exact lastAnswer_append _ _ _

theorem first_iff (hp : Polled before latest n h) {o : StatusObservation} : .checkAnswers 0 o ∈ h ↔ o = before := by
  induction hp with
  | sent hb => simp
  | answered _ _ ih => simpa using ih

/-- No check has answered Online. -/
theorem down (hp : Polled before latest n h) {k : Nat} {o : StatusObservation} (ho : .checkAnswers k o ∈ h) :
    o.state ≠ .online := by
  induction hp with
  | sent hb =>
    simp only [List.mem_cons, reduceCtorEq, Happening.checkAnswers.injEq, List.not_mem_nil, or_false, false_or] at ho
    rw [ho.2]
    exact hb
  | answered _ hdown ih =>
    rcases List.mem_append.mp ho with ho | ho
    · exact ih ho
    · simp only [List.mem_cons, reduceCtorEq, Happening.checkAnswers.injEq, List.not_mem_nil, or_false, false_or] at ho
      rw [ho.2]
      exact hdown

/-- Nothing has been thrown. -/
theorem calm (hp : Polled before latest n h) :
    (∀ k e, .checkThrows k e ∉ h) ∧ (∀ e, .sendThrows e ∉ h) ∧ .delayCancelled ∉ h := by
  induction hp with
  | sent hb => simp
  | answered _ _ ih => simpa using ih

theorem not_interrupted (hp : Polled before latest n h) : ¬ Interrupted h := by
  obtain ⟨hcheck, hsend, hdelay⟩ := hp.calm
  intro hi
  rcases hi with hi | hi | ⟨k, hi⟩
  · exact hdelay hi
  · exact hsend _ hi
  · exact hcheck k _ hi

/-- What comes later sends nothing and is no first check. -/
theorem sendsOnce (hp : Polled before latest n h) (hi : i.count .sendStarts = 0 ∧ ∀ o, .checkAnswers 0 o ∉ i) :
    SendsOnce (h ++ i) := by
  refine ⟨by rw [List.count_append, hp.sends, hi.1], ?_⟩
  intro o ho hon
  rcases List.mem_append.mp ho with ho | ho
  · exact absurd hon (hp.down ho)
  · exact absurd ho (hi.2 o)

theorem sent_then (hp : Polled before latest n h) (o : StatusObservation) :
    [.sendCompletes, .checkStarts (n + 1), .checkAnswers (n + 1) o].Sublist
      (h ++ [.checkStarts (n + 1), .checkAnswers (n + 1) o]) :=
  (List.singleton_sublist.mpr hp.completes).append (.refl _)

end Polled

namespace Story

theorem sendsOnce (hs : Story c p h) : SendsOnce h := by
  have hquiet {n : Nat} {i : List Happening} (hi : Interruption n i) :
      i.count .sendStarts = 0 ∧ ∀ o, .checkAnswers 0 o ∉ i := by
    cases hi <;> simp
  cases hs with
  | refused | checkingFirst | firstThrew | alreadyOnline => simp [SendsOnce]
  | sending hb => simpa [SendsOnce] using hb
  | sendThrew e hb => simpa [SendsOnce] using hb
  | delaying hp | waiting hp => simpa using hp.sendsOnce (i := []) (by simp)
  | checking hp | online hp | checkThrew hp => exact hp.sendsOnce (by simp)
  | caught hp hi => exact hp.sendsOnce (hquiet hi)
  | timedOut _ hp hi => exact hp.sendsOnce (hquiet hi)
  | cancelled _ hp hi => exact hp.sendsOnce (hquiet hi)

/-- What an outcome says is what has been seen. -/
theorem returned {outcome : WakeOutcome} (hs : Story c (.returned outcome) h) :
    (outcome.verified = true ↔ Verified h) ∧ lastAnswer h = some outcome.observation ∧ ∀ e, .sendThrows e ∉ h := by
  cases hs with
  | @alreadyOnline o hon =>
    refine ⟨⟨nofun, ?_⟩, rfl, by simp⟩
    intro hv
    exact absurd hv.2.1 (by simp)
  | @online b l o n h hp hon =>
    refine ⟨?_, lastAnswer_append _ _ _, by simpa using hp.calm.2.1⟩
    simp only [decide_eq_true_eq]
    constructor
    · intro hoff
      exact ⟨⟨b, List.mem_append_left _ (hp.first_iff.mpr rfl), hoff⟩, List.mem_append_left _ hp.completes,
        n + 1, o, hp.sent_then o, hon⟩
    · intro hv
      obtain ⟨f, hf, hoff⟩ := hv.1
      have hfirst : f = b := by
        refine hp.first_iff.mp ?_
        simpa using hf
      exact hfirst ▸ hoff
  | @timedOut b l n h i hc hp hi =>
    refine ⟨⟨nofun, ?_⟩, (lastAnswer_interruption hi).trans hp.lastAnswer_eq, ?_⟩
    · intro hv
      obtain ⟨-, -, k, o, hsub, hon⟩ := hv
      have hmem : .checkAnswers k o ∈ h ++ i := hsub.subset (by simp)
      rcases List.mem_append.mp hmem with hmem | hmem
      · exact absurd hon (hp.down hmem)
      · cases hi <;> simp at hmem
    · cases hi <;> simpa using hp.calm.2.1

/-- Once the caller has cancelled, what interrupts is the cancellation. -/
theorem cancelled_wins (hs : Story true p h) :
    (∀ outcome, p = .returned outcome → outcome.detail ≠ wakeTimedOut) ∧
    (Interrupted h → (∀ outcome, p ≠ .returned outcome) ∧ ∀ e, p = .threw e → e = .operationCanceled) := by
  have hcalm {b l : StatusObservation} {n : Nat} {h i : List Happening} (hp : Polled b l n h) (hi : ¬ Interrupted i) :
      ¬ Interrupted (h ++ i) := by
    have hno := hp.not_interrupted
    simp only [Interrupted, List.mem_append, exists_or] at hno hi ⊢
    tauto
  cases hs with
  | refused | checkingFirst | sending | delaying | waiting | checking | caught | cancelled => simp [Interrupted]
  | firstThrew e => simp [Interrupted, eq_comm]
  | sendThrew e => simp [Interrupted, eq_comm]
  | alreadyOnline =>
    refine ⟨?_, fun hi => by simp [Interrupted] at hi⟩
    intro outcome ho
    cases ho
    exact alreadyOnline_ne
  | online hp =>
    refine ⟨?_, fun hi => absurd hi (hcalm hp (by simp [Interrupted]))⟩
    intro outcome ho
    cases ho
    exact nowOnline_ne _
  | checkThrew hp he => exact ⟨nofun, fun hi => absurd hi (hcalm hp (by simp [Interrupted, he.symm]))⟩
  | timedOut hc => cases hc

end Story

/-- The sender is called at most once, and not where the first answer is Online. An outcome
    is verified exactly when it should be, reports the last answer, and never follows a failed
    send. Once the caller has cancelled no outcome is a time-out, and an interrupted wake
    returns nothing: what it throws is the cancellation. -/
theorem wake_verdict (hr : (machine device timeout interval).Reach s) :
    SendsOnce s.history ∧
    (∀ outcome, s.phase = .returned outcome →
      (outcome.verified = true ↔ Verified s.history) ∧ lastAnswer s.history = some outcome.observation ∧
        ∀ e, .sendThrows e ∉ s.history) ∧
    (s.cancelled = true →
      (∀ outcome, s.phase = .returned outcome → outcome.detail ≠ wakeTimedOut) ∧
      (Interrupted s.history →
        (∀ outcome, s.phase ≠ .returned outcome) ∧ ∀ e, s.phase = .threw e → e = .operationCanceled)) := by
  have hs := story_of_reach hr
  refine ⟨hs.sendsOnce, ?_, ?_⟩
  · intro outcome ho
    exact (ho ▸ hs).returned
  · intro hc
    exact (hc ▸ hs).cancelled_wins

def server : Device := { id := 1, wake := { capability := .enabledUnverified } }

def serverWakes : List Event :=
  [.firstAnswers (.ok ⟨.offline, ⟨0, 0⟩, []⟩), .sent (.ok ()), .delayStarts, .delayEnds true,
    .answers (.ok ⟨.unknown, ⟨1, 0⟩, []⟩), .delayStarts, .delayEnds true, .answers (.ok ⟨.online, ⟨2, 0⟩, []⟩)]

theorem server_verified : ∃ s, (machine server 1200000000 30000000).Reach s ∧ SendsOnce s.history ∧
    Verified s.history := by
  obtain ⟨log, s, hr, -, hs⟩ := Machine.exists_run (machine server 1200000000 30000000) (fun _ _ => True)
    (fun s => s.phase = .returned ⟨⟨.online, ⟨2, 0⟩, []⟩, true, nowOnline true⟩) serverWakes rfl (by decide +kernel)
  obtain ⟨hsends, houtcome, -⟩ := wake_verdict ⟨log, hr⟩
  exact ⟨s, ⟨log, hr⟩, hsends, (houtcome _ (of_decide_eq_true hs)).1.mp rfl⟩

/-! ## The end of the wait -/

/-- Waiting on a cancelled source. -/
def Ending (s : State) : Prop := s.deadline = true ∧ s.phase.inLoop = true

def Phase.rank : Phase → Nat
  | .waiting .. => 4
  | .checking .. => 3
  | .delaying .. => 2
  | .caught _ => 1
  | _ => 0

/-- The steps that are left once the deadline's source is cancelled. -/
def rank (s : State) : Nat := s.phase.rank + (!s.cancelled).toNat

theorem step_over (ho : s.phase.isOver = true) : step s e = none := by
  obtain ⟨phase, c, d, r, h⟩ := s
  cases phase with
  | returned | threw => cases e <;> simp [step, Phase.isOver, Phase.inLoop]
  | _ => cases ho

/-- A step of the loop goes on to a phase of lower rank, in the loop or at its end. -/
theorem goes_on (hs : Ending s) (hc : s'.cancelled = s.cancelled) (hd : s'.deadline = s.deadline)
    (hp : s'.phase.rank < s.phase.rank) (hl : s'.phase.inLoop = true ∨ s'.phase.isOver = true) :
    rank s' < rank s ∧ (Ending s' ∨ s'.phase.isOver = true) := by
  refine ⟨?_, hl.imp (fun hl => ⟨hd.trans hs.1, hl⟩) id⟩
  unfold rank
  rw [hc]
  omega

theorem step_ending (hs : Ending s) (he : step s e = some s') :
    rank s' < rank s ∧ (Ending s' ∨ s'.phase.isOver = true) := by
  have hl := hs.2
  cases step_change he with
  | cancels ho hc => exact ⟨by simp [rank, hc], Or.inl hs⟩
  | fires _ hd => cases hs.1.symm.trans hd
  | firstOnline hp | firstDown hp | firstThrows hp | reports _ hp | sent _ _ hp | sendThrows hp =>
    rw [hp] at hl
    cases hl
  | delayCut hp =>
    rcases hp with hp | hp
    · exact goes_on hs rfl rfl (by simp [hp, Phase.rank]) (Or.inl rfl)
    · exact goes_on hs rfl rfl (by simp [hp, Phase.rank]) (Or.inl rfl)
  | delays _ hd => cases hs.1.symm.trans hd
  | checks hp => exact goes_on hs rfl rfl (by simp [hp, Phase.rank]) (Or.inl rfl)
  | online hp => exact goes_on hs rfl rfl (by simp [hp, Phase.rank]) (Or.inr rfl)
  | down _ hp => exact goes_on hs rfl rfl (by simp [hp, Phase.rank]) (Or.inl rfl)
  | checkCut hp => exact goes_on hs rfl rfl (by simp [hp, Phase.rank]) (Or.inl rfl)
  | checkThrows hp => exact goes_on hs rfl rfl (by simp [hp, Phase.rank]) (Or.inr rfl)
  | cancelled hp => exact goes_on hs rfl rfl (by simp [hp, Phase.rank]) (Or.inr rfl)
  | timedOut hp => exact goes_on hs rfl rfl (by simp [hp, Phase.rank]) (Or.inr rfl)

/-- A wait whose source is cancelled, by its deadline or by the caller, goes on for at most five steps. -/
theorem wait_is_over {log : List (State × Event)} {t : State} (hs : Ending s)
    (hr : (⟨(· = s), step⟩ : Machine State Event).Runs log t) : log.length ≤ 5 := by
  have hrank (u : State) : rank u ≤ 5 := by
    have hflag : (!u.cancelled).toNat ≤ 1 := Bool.toNat_le _
    have hphase : u.phase.rank ≤ 4 := by cases u.phase <;> simp [Phase.rank]
    unfold rank
    omega
  have hinv : (Ending t ∨ t.phase.isOver = true) ∧ Machine.Throughout (fun s _ => Ending s) log := by
    refine hr.log_inv (I := fun log t => (Ending t ∨ t.phase.isOver = true) ∧
      Machine.Throughout (fun s _ => Ending s) log) ?_ ?_
    · intro u hu
      subst hu
      exact ⟨Or.inl hs, List.forall_mem_nil _⟩
    · intro log u e u' _ hi he
      rcases hi.1 with hending | hover
      · exact ⟨(step_ending hending he).2, (Machine.throughout_snoc _ _ _ _).mpr ⟨hi.2, hending⟩⟩
      · cases (step_over hover).symm.trans he
  have hlen := hr.length_le rank 5 (fun u _ => hrank u) (fun _ _ _ hu he => (step_ending hu he).1) hinv.2
  omega

end MythLab.WakeOnLan.WakeDeviceService
