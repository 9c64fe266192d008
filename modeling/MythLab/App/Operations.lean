/-
  MythLab.App.Operations — the sweeps and wakes of `DeviceActivityViewModel`, the monitor
  that starts sweeps, and what stopping waits for.

  A sweep checks the cards in batches of eight and looks at the token before each batch,
  so that it ends completed, or cancelled between two batches; a single check or a wake
  ends by itself, whatever it meets. A sweep or wake is in `operations` from its start
  until the code that started it has run on after its end. `stopped` lets no other one
  start.

  `Change` lists what a step can do; the invariants are by cases on it. What runs is in
  `operations` (`operations_of_running`), and once stopped nothing starts
  (`step_stopped`). Only a sweep of more than eight cards can be cancelled
  (`cut_off_many`), and the sweeps in `operations` once the monitor has ended are those
  the user started (`listed_isUsers`).
-/
import MythLab.Lib.Indexed
import Mathlib.Tactic.ByContra

namespace MythLab.App.Operations

open Lib

inductive Outcome where
  | completed
  | cancelled
  deriving DecidableEq, Repr

/-- A call of `CheckAllAsync`. -/
structure Sweep where
  byMonitor : Bool
  cards : Nat
  /-- The sizes of the batches not begun. -/
  batches : List Nat
  /-- The checks of the present batch that are running. -/
  pending : Nat
  outcome : Option Outcome
  listed : Bool
  deriving DecidableEq, Repr

/-- A call of `RunWakeAsync`. -/
structure Wake where
  running : Bool
  listed : Bool
  deriving DecidableEq, Repr

inductive Monitor where
  | notStarted
  | checking (sweep : Nat)
  | delaying
  | ended
  deriving DecidableEq, Repr

structure State where
  cards : Nat
  sweeps : List Sweep
  wakes : List Wake
  monitor : Monitor
  checking : Bool
  stopped : Bool
  /-- The lifetime token. -/
  cancelled : Bool
  deriving DecidableEq, Repr

inductive Event where
  | synchronize (cards : Nat)
  /-- `Start()` -/
  | startMonitor
  /-- The delay of the monitor is over, or cancelled. -/
  | monitorWakes
  /-- The command of the user. -/
  | checkNow
  | checkEnds (sweep : Nat)
  | batchEnds (sweep : Nat)
  /-- `CheckNowAsync` runs on after its sweep. -/
  | sweepReturns (sweep : Nat)
  /-- `BeginWakeAsync`, for a card that can be woken. -/
  | wake
  | wakeEnds (wake : Nat)
  /-- `BeginWakeAsync` runs on after its wake. -/
  | wakeReturns (wake : Nat)
  deriving DecidableEq, Repr

/-- `Chunk(8)`, sizes only. -/
def chunks (cards : Nat) : List Nat := List.replicate (cards / 8) 8 ++ if cards % 8 = 0 then [] else [cards % 8]

/-- The head of the loop of `CheckAllAsync`. -/
def nextBatch (cancelled : Bool) (sweep : Sweep) : Sweep :=
  match sweep.batches with
  | [] => { sweep with outcome := some .completed }
  | n :: rest =>
    if cancelled then { sweep with outcome := some .cancelled } else { sweep with batches := rest, pending := n }

/-- `CheckNowAsync` past its guard, up to its `await`. -/
def beginSweep (s : State) (byMonitor : Bool) : State :=
  { s with
    checking := true
    sweeps := s.sweeps ++ [nextBatch s.cancelled
      { byMonitor := byMonitor, cards := s.cards, batches := chunks s.cards, pending := 0, outcome := none,
        listed := true }] }

/-- The loop of `MonitorAsync`, up to its next `await`. -/
def monitorLoop (s : State) : State :=
  if s.cancelled then { s with monitor := .ended }
  else if s.stopped || s.checking then { s with monitor := .delaying }
  else { beginSweep s true with monitor := .checking s.sweeps.length }

def updateSweep (s : State) (i : Nat) (f : Sweep → Sweep) : State := { s with sweeps := s.sweeps.modify i f }

def updateWake (s : State) (i : Nat) (f : Wake → Wake) : State := { s with wakes := s.wakes.modify i f }

def step (s : State) : Event → Option State
  | .synchronize cards => some { s with cards := cards }
  | .startMonitor => if s.monitor = .notStarted then some (monitorLoop s) else some s
  | .monitorWakes => if s.monitor = .delaying then some (monitorLoop s) else none
  | .checkNow => if s.stopped || s.checking then some s else some (beginSweep s false)
  | .checkEnds i =>
    match s.sweeps[i]? with
    | some sweep =>
      if 0 < sweep.pending then some (updateSweep s i fun sweep => { sweep with pending := sweep.pending - 1 })
      else none
    | none => none
  | .batchEnds i =>
    match s.sweeps[i]? with
    | some sweep =>
      if sweep.outcome = none ∧ sweep.pending = 0 then some (updateSweep s i (nextBatch s.cancelled)) else none
    | none => none
  | .sweepReturns i =>
    match s.sweeps[i]? with
    | some sweep =>
      if sweep.outcome ≠ none ∧ sweep.listed then
        some { updateSweep s i fun sweep => { sweep with listed := false } with
          checking := false
          monitor := if s.monitor = .checking i then .delaying else s.monitor }
      else none
    | none => none
  | .wake => if s.stopped then some s else some { s with wakes := s.wakes ++ [⟨true, true⟩] }
  | .wakeEnds i =>
    match s.wakes[i]? with
    | some wake => if wake.running then some (updateWake s i fun wake => { wake with running := false }) else none
    | none => none
  | .wakeReturns i =>
    match s.wakes[i]? with
    | some wake =>
      if wake.running = false then some (updateWake s i fun wake => { wake with listed := false }) else none
    | none => none

/-- `stopped = true; await lifetime.CancelAsync();`, up to its `await`. -/
def stop (s : State) : State := { s with stopped := true, cancelled := true }

def monitorRuns (s : State) : Bool := s.monitor ≠ .notStarted && s.monitor ≠ .ended

/-! ## Tasks -/

inductive Task where
  | sweep (i : Nat)
  | wake (i : Nat)
  deriving DecidableEq, Repr

def running (s : State) : Task → Bool
  | .sweep i => s.sweeps[i]?.any fun sweep => sweep.outcome = none
  | .wake i => s.wakes[i]?.any fun wake => wake.running

def listed (s : State) : Task → Bool
  | .sweep i => s.sweeps[i]?.any fun sweep => sweep.listed
  | .wake i => s.wakes[i]?.any fun wake => wake.listed

def cancelled (s : State) : Task → Bool
  | .sweep i => s.sweeps[i]?.any fun sweep => sweep.outcome = some .cancelled
  | .wake _ => false

/-- The sweep was started by the user. -/
def isUsers (s : State) (i : Nat) : Bool := s.sweeps[i]?.any fun sweep => !sweep.byMonitor

/-- `operations.ToArray()` -/
def operations (s : State) : List Task :=
  (((List.range s.sweeps.length).map Task.sweep) ++ ((List.range s.wakes.length).map Task.wake)).filter (listed s)

theorem mem_operations {s : State} {t : Task} : t ∈ operations s ↔ listed s t = true := by
  unfold operations
  rw [List.mem_filter]
  refine ⟨And.right, fun h => ⟨?_, h⟩⟩
  cases t with
  | sweep i =>
    obtain ⟨sweep, hi, -⟩ := (Option.any_eq_true _ _).mp h
    exact List.mem_append_left _ (List.mem_map.mpr ⟨i, List.mem_range.mpr (List.getElem?_eq_some_iff.mp hi).1, rfl⟩)
  | wake i =>
    obtain ⟨wake, hi, -⟩ := (Option.any_eq_true _ _).mp h
    exact List.mem_append_right _ (List.mem_map.mpr ⟨i, List.mem_range.mpr (List.getElem?_eq_some_iff.mp hi).1, rfl⟩)

/-! ## What a step can do -/

inductive Change (s : State) : State → Prop
  | same : Change s s
  | cards (cards : Nat) : Change s { s with cards := cards }
  | monitor : (∀ i, s.monitor ≠ .checking i) → Change s (monitorLoop s)
  | sweep : s.stopped = false → Change s (beginSweep s false)
  | checkEnds (i : Nat) : Change s (updateSweep s i fun sweep => { sweep with pending := sweep.pending - 1 })
  | batchEnds {i : Nat} {sweep : Sweep} : s.sweeps[i]? = some sweep → sweep.outcome = none → sweep.pending = 0 →
      Change s (updateSweep s i (nextBatch s.cancelled))
  | sweepReturns {i : Nat} {sweep : Sweep} : s.sweeps[i]? = some sweep → sweep.outcome ≠ none →
      Change s { updateSweep s i fun sweep => { sweep with listed := false } with
        checking := false
        monitor := if s.monitor = .checking i then .delaying else s.monitor }
  | wake : s.stopped = false → Change s { s with wakes := s.wakes ++ [⟨true, true⟩] }
  | wakeEnds (i : Nat) : Change s (updateWake s i fun wake => { wake with running := false })
  | wakeReturns {i : Nat} {wake : Wake} : s.wakes[i]? = some wake → wake.running = false →
      Change s (updateWake s i fun wake => { wake with listed := false })

theorem step_change {s s' : State} {e : Event} (hs : step s e = some s') : Change s s' := by
  cases e with
  | synchronize cards => cases hs; exact .cards cards
  | startMonitor =>
    simp only [step] at hs
    split at hs <;> cases hs
    · rename_i hm
      exact .monitor fun i hi => by rw [hm] at hi; cases hi
    · exact .same
  | monitorWakes =>
    simp only [step] at hs
    split at hs <;> cases hs
    rename_i hm
    exact .monitor fun i hi => by rw [hm] at hi; cases hi
  | checkNow =>
    simp only [step] at hs
    split at hs <;> cases hs
    · exact .same
    · rename_i hguard
      simp only [Bool.or_eq_true, not_or, Bool.not_eq_true] at hguard
      exact .sweep hguard.1
  | checkEnds i =>
    simp only [step] at hs
    split at hs
    · split at hs <;> cases hs
      exact .checkEnds i
    · cases hs
  | batchEnds i =>
    simp only [step] at hs
    split at hs
    · rename_i sweep hi
      split at hs <;> cases hs
      rename_i hrun
      exact .batchEnds hi hrun.1 hrun.2
    · cases hs
  | sweepReturns i =>
    simp only [step] at hs
    split at hs
    · rename_i sweep hi
      split at hs <;> cases hs
      rename_i hended
      exact .sweepReturns hi hended.1
    · cases hs
  | wake =>
    simp only [step] at hs
    split at hs <;> cases hs
    · exact .same
    · rename_i hrunning
      exact .wake ((Bool.not_eq_true _).mp hrunning)
  | wakeEnds i =>
    simp only [step] at hs
    split at hs
    · split at hs <;> cases hs
      exact .wakeEnds i
    · cases hs
  | wakeReturns i =>
    simp only [step] at hs
    split at hs
    · rename_i wake hi
      split at hs <;> cases hs
      rename_i hended
      exact .wakeReturns hi hended
    · cases hs

/-! ## Invariants -/

/-- A running sweep is in `operations`; one that has ended checks nothing any more; one
    with batches left has more than eight cards, and only such a one is cancelled. -/
structure Sweep.Ok (sweep : Sweep) : Prop where
  listed : sweep.outcome = none → sweep.listed = true
  ended : sweep.outcome ≠ none → sweep.pending = 0
  many : sweep.batches ≠ [] → 8 < sweep.cards
  cut : sweep.outcome = some .cancelled → sweep.batches ≠ []

structure Inv (s : State) : Prop where
  sweeps : ∀ sweep ∈ s.sweeps, sweep.Ok
  wakes : ∀ wake ∈ s.wakes, wake.running = true → wake.listed = true
  tokens : s.stopped = s.cancelled
  monitor : ∀ (i : Nat) (sweep : Sweep), s.sweeps[i]? = some sweep → sweep.byMonitor = true → sweep.listed = true →
    s.monitor = .checking i

/-- A first batch with another one after it is of eight cards. -/
theorem chunks_many {cards n : Nat} {rest : List Nat} (h : chunks cards = n :: rest) (hrest : rest ≠ []) :
    8 < cards := by
  have hlen : (chunks cards).length = rest.length + 1 := by rw [h]; rfl
  have hpos : 0 < rest.length := List.length_pos_iff.mpr hrest
  unfold chunks at hlen
  rw [List.length_append, List.length_replicate] at hlen
  by_cases hmod : cards % 8 = 0
  · rw [if_pos hmod, List.length_nil] at hlen
    omega
  · rw [if_neg hmod, List.length_singleton] at hlen
    omega

theorem nextBatch_ok {sweep : Sweep} (h : sweep.Ok) (c : Bool) (hrunning : sweep.outcome = none)
    (hidle : sweep.pending = 0) : (nextBatch c sweep).Ok := by
  unfold nextBatch
  split
  · rename_i hb
    exact ⟨fun hn => (nomatch hn), fun _ => hidle, fun hne => absurd hb hne, fun hc => (nomatch hc)⟩
  · rename_i n rest hb
    have hmany : 8 < sweep.cards := h.many (by simp [hb])
    cases c with
    | true => exact ⟨fun hn => (nomatch hn), fun _ => hidle, fun _ => hmany, fun _ => by simp [hb]⟩
    | false =>
      exact ⟨h.listed, fun hn => absurd hrunning hn, fun _ => hmany, fun hc => by simp [hrunning] at hc⟩

/-- A sweep that begins before the token is cancelled. -/
theorem nextBatch_begun (byMonitor : Bool) (cards : Nat) :
    (nextBatch false
      { byMonitor := byMonitor, cards := cards, batches := chunks cards, pending := 0, outcome := none,
        listed := true }).Ok := by
  unfold nextBatch
  rcases hc : chunks cards with _ | ⟨n, rest⟩
  · exact ⟨fun hn => (nomatch hn), fun _ => rfl, fun hne => absurd rfl hne, fun hc => (nomatch hc)⟩
  · exact ⟨fun _ => rfl, fun hn => absurd rfl hn, fun hne => chunks_many hc hne, fun hc => (nomatch hc)⟩

theorem nextBatch_byMonitor (c : Bool) (sweep : Sweep) : (nextBatch c sweep).byMonitor = sweep.byMonitor := by
  unfold nextBatch
  split
  · rfl
  · split <;> rfl

theorem nextBatch_listed (c : Bool) (sweep : Sweep) : (nextBatch c sweep).listed = sweep.listed := by
  unfold nextBatch
  split
  · rfl
  · split <;> rfl

theorem beginSweep_sweeps {s : State} (h : Inv s) (hs : s.stopped = false) (byMonitor : Bool) :
    ∀ sweep ∈ (beginSweep s byMonitor).sweeps, sweep.Ok := by
  refine forall_snoc h.sweeps ?_
  rw [← h.tokens, hs]
  exact nextBatch_begun byMonitor s.cards

theorem monitorLoop_inv {s : State} (h : Inv s) (hm : ∀ i, s.monitor ≠ .checking i) : Inv (monitorLoop s) := by
  have hnone : ∀ (i : Nat) (sweep : Sweep), s.sweeps[i]? = some sweep → sweep.byMonitor = true → sweep.listed ≠ true :=
    fun i sweep hi hb hl => hm i (h.monitor i sweep hi hb hl)
  unfold monitorLoop
  split
  · exact ⟨h.sweeps, h.wakes, h.tokens, fun i sweep hi hb hl => absurd hl (hnone i sweep hi hb)⟩
  · split
    · exact ⟨h.sweeps, h.wakes, h.tokens, fun i sweep hi hb hl => absurd hl (hnone i sweep hi hb)⟩
    · rename_i hguard
      simp only [Bool.or_eq_true, not_or, Bool.not_eq_true] at hguard
      have hs : s.stopped = false := hguard.1
      refine ⟨beginSweep_sweeps h hs true, h.wakes, h.tokens, ?_⟩
      intro i sweep hi hb hl
      rcases getElem?_snoc_cases hi with hi | ⟨rfl, -⟩
      · exact absurd hl (hnone i sweep hi hb)
      · rfl

theorem checkNow_inv {s : State} (h : Inv s) (hs : s.stopped = false) : Inv (beginSweep s false) := by
  refine ⟨beginSweep_sweeps h hs false, h.wakes, h.tokens, ?_⟩
  intro i sweep hi hb hl
  rcases getElem?_snoc_cases hi with hi | ⟨-, rfl⟩
  · exact h.monitor i sweep hi hb hl
  · simp [nextBatch_byMonitor] at hb

/-- A change of one sweep that leaves it as it is listed. -/
theorem updateSweep_inv {s : State} (h : Inv s) {i : Nat} {f : Sweep → Sweep}
    (hok : ∀ sweep, s.sweeps[i]? = some sweep → sweep.Ok → (f sweep).Ok)
    (hsame : ∀ sweep : Sweep, (f sweep).byMonitor = sweep.byMonitor ∧ (f sweep).listed = sweep.listed) :
    Inv (updateSweep s i f) := by
  refine ⟨forall_modify h.sweeps fun sweep hmem hi => hok sweep hi (h.sweeps sweep hmem), h.wakes, h.tokens,
    ?_⟩
  intro j sweep hj hb hl
  rcases getElem?_modify_cases hj with ⟨-, hj⟩ | ⟨rfl, a, ha, rfl⟩
  · exact h.monitor j sweep hj hb hl
  · rw [(hsame a).1] at hb
    rw [(hsame a).2] at hl
    exact h.monitor i a ha hb hl

theorem sweepReturns_inv {s : State} (h : Inv s) {i : Nat} {sweep : Sweep} (hi : s.sweeps[i]? = some sweep)
    (hended : sweep.outcome ≠ none) : Inv { updateSweep s i fun sweep : Sweep => { sweep with listed := false } with
      checking := false
      monitor := if s.monitor = .checking i then .delaying else s.monitor } := by
  refine ⟨forall_modify h.sweeps ?_, h.wakes, h.tokens, ?_⟩
  · intro sweep' hmem hi'
    obtain rfl : sweep' = sweep := Option.some.inj (hi'.symm.trans hi)
    have hok := h.sweeps sweep' hmem
    exact ⟨fun hn => absurd hn hended, hok.ended, hok.many, hok.cut⟩
  · intro j sweep' hj hb hl
    rcases getElem?_modify_cases hj with ⟨hne, hj⟩ | ⟨rfl, a, -, rfl⟩
    · have hm := h.monitor j sweep' hj hb hl
      simp only [hm, Monitor.checking.injEq]
      rw [if_neg (Ne.symm hne)]
    · cases hl

theorem updateWake_inv {s : State} (h : Inv s) {i : Nat} {f : Wake → Wake}
    (hf : ∀ wake, s.wakes[i]? = some wake → (wake.running = true → wake.listed = true) →
      (f wake).running = true → (f wake).listed = true) : Inv (updateWake s i f) :=
  ⟨h.sweeps, forall_modify h.wakes fun wake hmem hi => hf wake hi (h.wakes wake hmem), h.tokens, h.monitor⟩

theorem step_inv {s s' : State} {e : Event} (h : Inv s) (hs : step s e = some s') : Inv s' := by
  cases step_change hs with
  | same => exact h
  | cards cards => exact ⟨h.sweeps, h.wakes, h.tokens, h.monitor⟩
  | monitor hm => exact monitorLoop_inv h hm
  | sweep hstopped => exact checkNow_inv h hstopped
  | checkEnds i =>
    refine updateSweep_inv h (fun sweep _ hok => ⟨hok.listed, ?_, hok.many, hok.cut⟩) fun _ => ⟨rfl, rfl⟩
    intro hn
    exact (congrArg (· - 1) (hok.ended hn)).trans (Nat.zero_sub 1)
  | @batchEnds i sweep hi hrunning hidle =>
    refine updateSweep_inv h ?_ fun _ => ⟨nextBatch_byMonitor _ _, nextBatch_listed _ _⟩
    intro sweep' hi' hok
    obtain rfl : sweep' = sweep := Option.some.inj (hi'.symm.trans hi)
    exact nextBatch_ok hok _ hrunning hidle
  | sweepReturns hi hended => exact sweepReturns_inv h hi hended
  | wake hstopped => exact ⟨h.sweeps, forall_snoc h.wakes fun _ => rfl, h.tokens, h.monitor⟩
  | wakeEnds i => exact updateWake_inv h fun _ _ _ hr => nomatch hr
  | @wakeReturns i wake hi hended =>
    refine updateWake_inv h ?_
    intro wake' hi' _ hr
    obtain rfl : wake' = wake := Option.some.inj (hi'.symm.trans hi)
    simp [hended] at hr

theorem stop_inv {s : State} (h : Inv s) : Inv (stop s) := ⟨h.sweeps, h.wakes, rfl, h.monitor⟩

/-! ## What stopping waits for -/

theorem operations_of_running {s : State} (h : Inv s) {t : Task} (ht : running s t = true) : t ∈ operations s := by
  rw [mem_operations]
  cases t with
  | sweep i =>
    obtain ⟨sweep, hi, hr⟩ := (Option.any_eq_true _ _).mp ht
    have hok := h.sweeps sweep (List.mem_of_getElem? hi)
    exact (Option.any_eq_true _ _).mpr ⟨sweep, hi, hok.listed (of_decide_eq_true hr)⟩
  | wake i =>
    obtain ⟨wake, hi, hr⟩ := (Option.any_eq_true _ _).mp ht
    exact (Option.any_eq_true _ _).mpr ⟨wake, hi, h.wakes wake (List.mem_of_getElem? hi) hr⟩

/-- Only a sweep of more than eight cards is cancelled. -/
theorem cut_off_many {s : State} (h : Inv s) {i : Nat} {sweep : Sweep} (hi : s.sweeps[i]? = some sweep)
    (hcut : sweep.outcome = some .cancelled) : 8 < sweep.cards := by
  have hok := h.sweeps sweep (List.mem_of_getElem? hi)
  exact hok.many (hok.cut hcut)

/-- The sweeps in `operations` once the monitor has ended are the user's. -/
theorem listed_isUsers {s : State} (h : Inv s) (hm : monitorRuns s = false) {i : Nat}
    (hlisted : listed s (.sweep i) = true) : isUsers s i = true := by
  obtain ⟨sweep, hi, hl⟩ := (Option.any_eq_true _ _).mp hlisted
  refine (Option.any_eq_true _ _).mpr ⟨sweep, hi, ?_⟩
  by_contra hb
  have hchecking := h.monitor i sweep hi (by simpa using hb) hl
  simp [monitorRuns, hchecking] at hm

/-! ## After the stop -/

theorem running_updateSweep {s : State} {i : Nat} {f : Sweep → Sweep}
    {t : Task} (ht : running (updateSweep s i f) t = true)
    (hf : ∀ sweep : Sweep, (f sweep).outcome = none → sweep.outcome = none) : running s t = true := by
  cases t with
  | sweep j =>
    obtain ⟨sweep, hj, hr⟩ := (Option.any_eq_true _ _).mp ht
    rcases getElem?_modify_cases hj with ⟨-, hj⟩ | ⟨rfl, a, ha, rfl⟩
    · exact (Option.any_eq_true _ _).mpr ⟨sweep, hj, hr⟩
    · exact (Option.any_eq_true _ _).mpr ⟨a, ha, decide_eq_true (hf a (of_decide_eq_true hr))⟩
  | wake j => exact ht

theorem running_updateWake {s : State} {i : Nat} {f : Wake → Wake}
    {t : Task} (ht : running (updateWake s i f) t = true)
    (hf : ∀ wake : Wake, (f wake).running = true → wake.running = true) : running s t = true := by
  cases t with
  | sweep j => exact ht
  | wake j =>
    obtain ⟨wake, hj, hr⟩ := (Option.any_eq_true _ _).mp ht
    rcases getElem?_modify_cases hj with ⟨-, hj⟩ | ⟨rfl, a, ha, rfl⟩
    · exact (Option.any_eq_true _ _).mpr ⟨wake, hj, hr⟩
    · exact (Option.any_eq_true _ _).mpr ⟨a, ha, hf a hr⟩

theorem nextBatch_outcome {c : Bool} {sweep : Sweep} (h : (nextBatch c sweep).outcome = none) :
    sweep.outcome = none := by
  unfold nextBatch at h
  split at h
  · cases h
  · split at h
    · cases h
    · exact h

theorem monitorLoop_stopped {s : State} (h : s.stopped = true) :
    (monitorLoop s).stopped = true ∧ ∀ t, running (monitorLoop s) t = true → running s t = true := by
  unfold monitorLoop
  split
  · exact ⟨h, fun t ht => by cases t <;> exact ht⟩
  · rw [if_pos (by simp [h])]
    exact ⟨h, fun t ht => by cases t <;> exact ht⟩

/-- Once stopped, no sweep and no wake starts. -/
theorem step_stopped {s s' : State} {e : Event} (h : s.stopped = true) (hs : step s e = some s') :
    s'.stopped = true ∧ ∀ t, running s' t = true → running s t = true := by
  cases step_change hs with
  | same => exact ⟨h, fun t ht => ht⟩
  | cards cards => exact ⟨h, fun t ht => by cases t <;> exact ht⟩
  | monitor hm => exact monitorLoop_stopped h
  | sweep hstopped => rw [h] at hstopped; cases hstopped
  | checkEnds i => exact ⟨h, fun t ht => running_updateSweep ht fun _ hn => hn⟩
  | batchEnds hi hrunning hidle => exact ⟨h, fun t ht => running_updateSweep ht fun _ hn => nextBatch_outcome hn⟩
  | @sweepReturns i sweep hi hended =>
    refine ⟨h, ?_⟩
    intro t ht
    have hupdated : running (updateSweep s i fun sweep => { sweep with listed := false }) t = true := by
      cases t <;> exact ht
    exact running_updateSweep hupdated fun _ hn => hn
  | wake hstopped => rw [h] at hstopped; cases hstopped
  | wakeEnds i => exact ⟨h, fun t ht => running_updateWake ht fun _ hr => (nomatch hr)⟩
  | wakeReturns hi hended => exact ⟨h, fun t ht => running_updateWake ht fun _ hr => hr⟩

theorem isUsers_updateSweep {s : State} {j : Nat} (h : isUsers s j = true) (i : Nat) {f : Sweep → Sweep}
    (hf : ∀ sweep : Sweep, (f sweep).byMonitor = sweep.byMonitor) : isUsers (updateSweep s i f) j = true := by
  obtain ⟨sweep, hj, hb⟩ := (Option.any_eq_true _ _).mp h
  unfold isUsers updateSweep
  rw [List.getElem?_modify, hj]
  by_cases hij : i = j
  · simpa [hij, hf] using hb
  · simpa [hij] using hb

theorem isUsers_beginSweep {s : State} {j : Nat} (h : isUsers s j = true) (byMonitor : Bool) :
    isUsers (beginSweep s byMonitor) j = true := by
  obtain ⟨sweep, hj, hb⟩ := (Option.any_eq_true _ _).mp h
  unfold isUsers beginSweep
  rw [List.getElem?_append_left (List.getElem?_eq_some_iff.mp hj).1, hj]
  exact hb

theorem isUsers_monitorLoop {s : State} {j : Nat} (h : isUsers s j = true) : isUsers (monitorLoop s) j = true := by
  unfold monitorLoop
  split
  · exact h
  · split
    · exact h
    · exact isUsers_beginSweep h true

/-- Who started a sweep does not change. -/
theorem step_isUsers {s s' : State} {e : Event} {j : Nat} (h : isUsers s j = true) (hs : step s e = some s') :
    isUsers s' j = true := by
  cases step_change hs with
  | same => exact h
  | cards cards => exact h
  | monitor hm => exact isUsers_monitorLoop h
  | sweep hstopped => exact isUsers_beginSweep h false
  | checkEnds i => exact isUsers_updateSweep h i fun _ => rfl
  | @batchEnds i sweep hi hrunning hidle => exact isUsers_updateSweep h i fun _ => nextBatch_byMonitor _ _
  | @sweepReturns i sweep hi hended => exact isUsers_updateSweep h i fun _ => rfl
  | wake hstopped => exact h
  | wakeEnds i => exact h
  | wakeReturns hi hended => exact h

end MythLab.App.Operations
