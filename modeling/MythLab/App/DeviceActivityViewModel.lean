/-
  MythLab.App.DeviceActivityViewModel — the cards of the devices page, and the sweeps and
  wakes that write on them.

  A card is an object: it is known by its number, and a card taken off the page stays as
  it was for whoever still holds it. Checks, sweeps and wakes are known by their numbers
  too. A step is what runs on the UI thread between two awaits; what a probe, a wake or
  the repository answers, when a progress report is delivered, and in which order all of
  this happens is left to the events. The repository reads a stored record of its own
  (`Answer.reads`), or throws.

  `Generation` is counted up when a wake starts, when a card is taken off the page and when
  it is given another target. It is an `int` that wraps: checks and wakes keep and compare
  the 32-bit number (`Card.generation`), and the card knows how often it has been counted up.
-/
import Mathlib.Data.List.Sort
import MythLab.Lib.Machine
import MythLab.Storage.Repository
import MythLab.WakeOnLan.WakeContracts

namespace MythLab.App.DeviceActivityViewModel

open Lib Dotnet Devices Storage WakeOnLan

/-! ## Cards -/

/-- `DeviceCardViewModel` -/
structure Card where
  device : Device
  state : DeviceState := .unknown
  detail : Str := str "Awaiting a live status check."
  isWaking : Bool := false
  /-- How often `Generation` has been counted up, from zero. -/
  raised : Nat := 0
  deriving DecidableEq, Repr

namespace Card

def id (c : Card) : Guid := c.device.id

def generation (c : Card) : Int32 := Int32.ofNat c.raised

/-- `Generation++` -/
def countUp (c : Card) : Card := { c with raised := c.raised + 1 }

@[simp] theorem countUp_generation (c : Card) : c.countUp.generation = c.generation + 1 := Int32.ofNat_add c.raised 1

def canWake (c : Card) : Bool := !c.isWaking && c.device.wake.capability ≠ .disabled

/-- What the page shows of a status check or a wake. -/
def look (c : Card) : DeviceState × Str × Device := (c.state, c.detail, c.device)

end Card

/-- How far a call of `CheckOneAsync` is. -/
inductive CheckPhase where
  | checking
  /-- In `ApplyAsync`. -/
  | saving (observation : StatusObservation)
  | ended
  deriving DecidableEq, Repr

/-- A call of `CheckOneAsync` past its guard. -/
structure Check where
  sweep : Nat
  card : Nat
  generation : Int32
  device : Device
  phase : CheckPhase
  deriving DecidableEq, Repr

/-- How far a call of `BeginWakeAsync` is. -/
inductive WakePhase where
  /-- In `WakeAsync` of the service. -/
  | waking
  /-- In `ApplyAsync`. -/
  | saving (outcome : WakeOutcome)
  /-- `RunWakeAsync` has ended. -/
  | ended
  | returned
  deriving DecidableEq, Repr

/-- A call of `BeginWakeAsync` past its guard, and of `RunWakeAsync` in it. -/
structure Wake where
  card : Nat
  generation : Int32
  device : Device
  test : Bool
  cancelled : Bool
  phase : WakePhase
  deriving DecidableEq, Repr

/-- A call of `CheckNowAsync` past its guard. -/
inductive Sweep where
  /-- The checks of a batch run; the batches after it have not begun. -/
  | running (batches : List (List Nat))
  /-- `CheckAllAsync` has ended. -/
  | over
  | returned
  deriving DecidableEq, Repr

structure State where
  /-- Every card there has been, by its number, and how many there have been. -/
  card : Nat → Card
  made : Nat
  /-- `Cards` -/
  page : List Nat
  /-- The dictionary `waking`: the wake registered for an id. -/
  registry : List (Guid × Nat)
  checks : List Check
  wakes : List Wake
  sweeps : List Sweep
  checking : Bool
  stopped : Bool
  /-- The lifetime token. -/
  lifetimeCancelled : Bool

/-- What a call of the repository finds. -/
inductive Answer where
  | throws (e : Exn)
  | reads (db : Database)

inductive Event where
  | synchronize (devices : List Device)
  | checkNow
  | batchEnds (sweep : Nat)
  /-- `CheckNowAsync` runs on after its sweep. -/
  | sweepReturns (sweep : Nat)
  | checkAnswers (check : Nat) (answer : Except Exn StatusObservation)
  | checkSaved (check : Nat) (answer : Answer)
  | wake (card : Nat) (test : Bool)
  /-- A progress report of the wake is delivered. -/
  | wakeReports (wake : Nat) (progress : WakeProgress)
  | wakeAnswers (wake : Nat) (answer : Except Exn WakeOutcome)
  | wakeSaved (wake : Nat) (answer : Answer)
  /-- `BeginWakeAsync` runs on after its wake. -/
  | wakeReturns (wake : Nat)
  | cancelWake (card : Nat)
  | stop

/-- The check that runs on in an event, and the wake. -/
def Event.ofCheck? : Event → Option Nat
  | .checkAnswers i _ | .checkSaved i _ => some i
  | _ => none

def Event.ofWake? : Event → Option Nat
  | .wakeReports w _ | .wakeAnswers w _ | .wakeSaved w _ | .wakeReturns w => some w
  | _ => none

/-! ## Writing on cards -/

def setCard (s : State) (card : Nat) (c : Card) : State := { s with card := Function.update s.card card c }

def setCheck (s : State) (i : Nat) (check : Check) (phase : CheckPhase) : State :=
  { s with checks := s.checks.set i { check with phase := phase } }

def setWake (s : State) (w : Nat) (wake : Wake) (phase : WakePhase) : State :=
  { s with wakes := s.wakes.set w { wake with phase := phase } }

/-- `ApplyObservationAsync` -/
def repositoryAnswer (expected : Device) (observation : StatusObservation) (verify : Bool) :
    Answer → Except Exn (Option Device)
  | .throws e => .error e
  | .reads db => (Repository.applyObservation expected observation verify db).map Prod.fst

/-- `generation != card.Generation` -/
def stale (s : State) (card : Nat) (generation : Int32) : Bool := generation ≠ (s.card card).generation

/-- `ApplyAsync` after its `await`. -/
def apply (s : State) (card : Nat) (generation : Int32) (saved : Option Device)
    (observation : StatusObservation) : State :=
  match saved with
  | none => s
  | some saved =>
    if stale s card generation ∨ card ∉ s.page then s
    else setCard s card
      { s.card card with device := saved, state := observation.state, detail := observation.detail }

/-- Write on a card whose generation is still this one. -/
def show_ (s : State) (card : Nat) (generation : Int32) (state : DeviceState) (detail : Str) : State :=
  if stale s card generation then s else setCard s card { s.card card with state := state, detail := detail }

/-- `ex.GetType().Name` -/
def typeName : Exn → String
  | .argument _ => "ArgumentException"
  | .invalidOperation _ => "InvalidOperationException"
  | .invalidData _ => "InvalidDataException"
  | .operationCanceled => "OperationCanceledException"
  | .timeout _ => "TimeoutException"
  | .sqlite _ _ => "SqliteException"
  | .io _ => "IOException"
  | .json _ => "JsonException"
  | .format _ => "FormatException"
  | .deviceValidation _ => "DeviceValidationException"
  | .duplicateDevice _ => "DuplicateDeviceException"
  | .hostIdentity _ => "HostIdentityException"
  | .credentialStore _ => "CredentialStoreException"
  | .sshAuthentication _ => "SshAuthenticationException"
  | .other _ => "Exception"

/-! ## Status checks -/

/-- `CheckOneAsync` up to its first `await`: the call, unless the guard ends it. -/
def beginCheck (s : State) (sweep card : Nat) : Option Check :=
  if (s.card card).isWaking ∨ card ∉ s.page then none
  else some ⟨sweep, card, (s.card card).generation, (s.card card).device, .checking⟩

/-- The head of the loop of `CheckAllAsync`. -/
def nextBatch (s : State) (sweep : Nat) : List (List Nat) → State
  | [] => { s with sweeps := s.sweeps.set sweep .over }
  | batch :: batches =>
    if s.lifetimeCancelled then { s with sweeps := s.sweeps.set sweep .over }
    else { s with
      sweeps := s.sweeps.set sweep (.running batches)
      checks := s.checks ++ batch.filterMap (beginCheck s sweep) }

/-- `Chunk(8)` -/
def chunk8 (cards : List Nat) : List (List Nat) :=
  (List.range ((cards.length + 7) / 8)).map fun i => (cards.drop (8 * i)).take 8

def checkNow (s : State) : State :=
  if s.stopped ∨ s.checking then s
  else nextBatch { s with checking := true, sweeps := s.sweeps ++ [.running []] } s.sweeps.length (chunk8 s.page)

/-- The `catch` clauses of `CheckOneAsync`. -/
def checkFails (s : State) (check : Check) (e : Exn) : State :=
  if e = .operationCanceled ∧ s.lifetimeCancelled then s
  else show_ s check.card check.generation .unknown
    (str ("Status check could not finish (" ++ typeName e ++ "). See Diagnostics."))

def checkAnswered (s : State) (i : Nat) (check : Check) : Except Exn StatusObservation → State
  | .error e => setCheck (checkFails s check e) i check .ended
  | .ok observation =>
    if stale s check.card check.generation ∨ check.card ∉ s.page then setCheck s i check .ended
    else setCheck s i check (.saving observation)

def checkApplied (s : State) (i : Nat) (check : Check) (observation : StatusObservation) (answer : Answer) : State :=
  match repositoryAnswer check.device observation false answer with
  | .error e => setCheck (checkFails s check e) i check .ended
  | .ok saved => setCheck (apply s check.card check.generation saved observation) i check .ended

/-! ## Wakes -/

/-- `BeginWakeAsync` and `RunWakeAsync` up to the first `await`. `waking.Add` throws where
    the id has an entry, before anything is changed. -/
def beginWake (s : State) (card : Nat) (test : Bool) : State :=
  if s.stopped ∨ (s.card card).canWake = false ∨ card ∉ s.page then s
  else if (s.registry.lookup (s.card card).id).isSome then s
  else
    let c := s.card card
    { setCard s card { c.countUp with isWaking := true } with
      registry := s.registry ++ [(c.id, s.wakes.length)]
      wakes := s.wakes ++ [⟨card, c.generation + 1, c.device, test, false, .waking⟩] }

/-- The handler of progress reports; `finished` is set from the end of `WakeAsync` on. -/
def wakeReported (s : State) (wake : Wake) (progress : WakeProgress) : State :=
  if wake.phase ≠ .waking then s
  else show_ s wake.card wake.generation progress.state
    ((if wake.test then str "Test Wake: " else []) ++ progress.detail)

/-- What the card says of a wake that failed. -/
def failureDetail : Exn → Str
  | .operationCanceled => str "Wake cancelled. Packets already sent cannot be recalled."
  | .argument message | .invalidOperation message => str message
  | e => str ("Wake could not finish (" ++ typeName e ++
      "). Check the selected network interface and Diagnostics.")

/-- The `catch` clauses of `RunWakeAsync`. -/
def wakeFails (s : State) (wake : Wake) (e : Exn) : State :=
  show_ s wake.card wake.generation .unknown (failureDetail e)

def wakeAnswered (s : State) (w : Nat) (wake : Wake) : Except Exn WakeOutcome → State
  | .error e => setWake (wakeFails s wake e) w wake .ended
  | .ok outcome =>
    if stale s wake.card wake.generation then setWake s w wake .ended else setWake s w wake (.saving outcome)

/-- `if (generation == card.Generation) card.Detail = detail;` -/
def setDetail (s : State) (card : Nat) (generation : Int32) (detail : Str) : State :=
  if stale s card generation then s else setCard s card { s.card card with detail := detail }

def wakeApplied (s : State) (w : Nat) (wake : Wake) (outcome : WakeOutcome) (answer : Answer) : State :=
  match repositoryAnswer wake.device outcome.observation outcome.verified answer with
  | .error e => setWake (wakeFails s wake e) w wake .ended
  | .ok saved =>
    let s' := apply s wake.card wake.generation saved outcome.observation
    setWake (setDetail s' wake.card wake.generation outcome.detail) w wake .ended

/-- The `finally` of `BeginWakeAsync`. -/
def wakeReturned (s : State) (w : Nat) (wake : Wake) : State :=
  setWake { setCard s wake.card { s.card wake.card with isWaking := false } with
    registry := s.registry.filter (·.1 ≠ (s.card wake.card).id) } w wake .returned

def cancelWake (s : State) (card : Nat) : State :=
  match s.registry.lookup (s.card card).id with
  | some w => { s with wakes := s.wakes.modify w fun wake => { wake with cancelled := true } }
  | none => s

/-! ## Synchronize -/

/-- `card.Generation++` -/
def bump (s : State) (card : Nat) : State :=
  setCard s card (s.card card).countUp

def removeCard (s : State) (card : Nat) : State :=
  let s := bump (cancelWake s card) card
  { s with page := s.page.erase card }

/-- No device has the card's id. -/
def gone (s : State) (devices : List Device) (card : Nat) : Bool := devices.all fun d => d.id ≠ (s.card card).id

/-- The device is another target for the card, or newly disables its wake. -/
def retargets (c : Card) (device : Device) : Bool :=
  !DeviceTargets.sameWake c.device device ||
    (c.device.wake.capability ≠ device.wake.capability && device.wake.capability = .disabled)

def retarget (s : State) (card : Nat) : State :=
  let s := bump (cancelWake s card) card
  setCard s card { s.card card with
    state := .unknown
    detail := str "Configuration changed; awaiting a live status check." }

/-- `card.Update(device)` -/
def update (s : State) (card : Nat) (device : Device) : State :=
  setCard s card { s.card card with device := device }

def placeDevice (s : State) (device : Device) : State :=
  match s.page.find? fun c => (s.card c).id = device.id with
  | none => { setCard s s.made { device := device } with made := s.made + 1, page := s.page ++ [s.made] }
  | some card => update (if retargets (s.card card) device then retarget s card else s) card device

/-- `Cards.Move(Cards.IndexOf(card), i)` -/
def move (page : List Nat) (card i : Nat) : List Nat := (page.erase card).insertIdx i card

variable (le : Str → Str → Bool)

/-- `Cards.OrderBy(c => c.DisplayName, …)`, which is stable. -/
def sorted (s : State) : List Nat :=
  s.page.insertionSort fun a b => le (s.card a).device.displayName (s.card b).device.displayName = true

def sortPage (s : State) : State :=
  { s with page := (sorted le s).zipIdx.foldl (fun page (p : Nat × Nat) => move page p.1 p.2) s.page }

def synchronize (s : State) (devices : List Device) : State :=
  sortPage le (devices.foldl placeDevice ((s.page.filter (gone s devices)).foldl removeCard s))

/-! ## Steps -/

def step (s : State) : Event → Option State
  | .synchronize devices => some (synchronize le s devices)
  | .checkNow => some (checkNow s)
  | .batchEnds i =>
    match s.sweeps[i]? with
    | some (.running batches) =>
      if ∀ check ∈ s.checks, check.sweep = i → check.phase = .ended then some (nextBatch s i batches) else none
    | _ => none
  | .sweepReturns i =>
    if s.sweeps[i]? = some .over then some { s with sweeps := s.sweeps.set i .returned, checking := false } else none
  | .checkAnswers i answer =>
    match s.checks[i]? with
    | some check => if check.phase = .checking then some (checkAnswered s i check answer) else none
    | none => none
  | .checkSaved i answer =>
    match s.checks[i]? with
    | some check =>
      match check.phase with
      | .saving observation => some (checkApplied s i check observation answer)
      | _ => none
    | none => none
  | .wake card test => some (beginWake s card test)
  | .wakeReports w progress =>
    match s.wakes[w]? with
    | some wake => some (wakeReported s wake progress)
    | none => none
  | .wakeAnswers w answer =>
    match s.wakes[w]? with
    | some wake => if wake.phase = .waking then some (wakeAnswered s w wake answer) else none
    | none => none
  | .wakeSaved w answer =>
    match s.wakes[w]? with
    | some wake =>
      match wake.phase with
      | .saving outcome => some (wakeApplied s w wake outcome answer)
      | _ => none
    | none => none
  | .wakeReturns w =>
    match s.wakes[w]? with
    | some wake => if wake.phase = .ended then some (wakeReturned s w wake) else none
    | none => none
  | .cancelWake card => some (cancelWake s card)
  | .stop => some { s with stopped := true, lifetimeCancelled := true }

/-- No card has been made: every number stands for the same blank one. -/
def start : State where
  card _ := { device := { id := Guid.empty } }
  made := 0
  page := []
  registry := []
  checks := []
  wakes := []
  sweeps := []
  checking := false
  stopped := false
  lifetimeCancelled := false

def machine : Machine State Event where
  init s := s = start
  step := step le

/-! ## What a step can do -/

inductive Change (s : State) : Event → State → Prop where
  | synchronize (devices : List Device) : Change s (.synchronize devices) (synchronize le s devices)
  | checkNow : Change s .checkNow (checkNow s)
  | batchEnds {i : Nat} {batches : List (List Nat)} : s.sweeps[i]? = some (.running batches) →
      (∀ check ∈ s.checks, check.sweep = i → check.phase = .ended) → Change s (.batchEnds i) (nextBatch s i batches)
  | sweepReturns {i : Nat} : s.sweeps[i]? = some .over →
      Change s (.sweepReturns i) { s with sweeps := s.sweeps.set i .returned, checking := false }
  | checkAnswers {i : Nat} {check : Check} (answer : Except Exn StatusObservation) : s.checks[i]? = some check →
      check.phase = .checking → Change s (.checkAnswers i answer) (checkAnswered s i check answer)
  | checkSaved {i : Nat} {check : Check} {observation : StatusObservation} (answer : Answer) :
      s.checks[i]? = some check → check.phase = .saving observation →
      Change s (.checkSaved i answer) (checkApplied s i check observation answer)
  | wake (card : Nat) (test : Bool) : Change s (.wake card test) (beginWake s card test)
  | wakeReports {w : Nat} {wake : Wake} (progress : WakeProgress) : s.wakes[w]? = some wake →
      Change s (.wakeReports w progress) (wakeReported s wake progress)
  | wakeAnswers {w : Nat} {wake : Wake} (answer : Except Exn WakeOutcome) : s.wakes[w]? = some wake →
      wake.phase = .waking → Change s (.wakeAnswers w answer) (wakeAnswered s w wake answer)
  | wakeSaved {w : Nat} {wake : Wake} {outcome : WakeOutcome} (answer : Answer) : s.wakes[w]? = some wake →
      wake.phase = .saving outcome → Change s (.wakeSaved w answer) (wakeApplied s w wake outcome answer)
  | wakeReturns {w : Nat} {wake : Wake} : s.wakes[w]? = some wake → wake.phase = .ended →
      Change s (.wakeReturns w) (wakeReturned s w wake)
  | cancelWake (card : Nat) : Change s (.cancelWake card) (cancelWake s card)
  | stop : Change s .stop { s with stopped := true, lifetimeCancelled := true }

variable {le} {s s' : State} {e : Event}

theorem step_change (h : step le s e = some s') : Change le s e s' := by
  cases e <;> simp only [step] at h
  case synchronize devices => cases h; exact .synchronize devices
  case checkNow => cases h; exact .checkNow
  case batchEnds i =>
    split at h
    · split at h
      · cases h; exact .batchEnds ‹_› ‹_›
      · cases h
    · cases h
  case sweepReturns i =>
    split at h
    · cases h; exact .sweepReturns ‹_›
    · cases h
  case checkAnswers i answer =>
    split at h
    · split at h
      · cases h; exact .checkAnswers answer ‹_› ‹_›
      · cases h
    · cases h
  case checkSaved i answer =>
    split at h
    · split at h
      · cases h; exact .checkSaved answer ‹_› ‹_›
      · cases h
    · cases h
  case wake card test => cases h; exact .wake card test
  case wakeReports w progress =>
    split at h
    · cases h; exact .wakeReports progress ‹_›
    · cases h
  case wakeAnswers w answer =>
    split at h
    · split at h
      · cases h; exact .wakeAnswers answer ‹_› ‹_›
      · cases h
    · cases h
  case wakeSaved w answer =>
    split at h
    · split at h
      · cases h; exact .wakeSaved answer ‹_› ‹_›
      · cases h
    · cases h
  case wakeReturns w =>
    split at h
    · split at h
      · cases h; exact .wakeReturns ‹_› ‹_›
      · cases h
    · cases h
  case cancelWake card => cases h; exact .cancelWake card
  case stop => cases h; exact .stop

/-! ## What an operation writes -/

theorem setCard_card (s : State) (x : Nat) (c : Card) (y : Nat) :
    (setCard s x c).card y = if y = x then c else s.card y := Function.update_apply ..

@[simp] theorem setCard_self (s : State) (x : Nat) (c : Card) : (setCard s x c).card x = c := by
  simp [setCard_card]

theorem setCard_ne (s : State) {x y : Nat} (c : Card) (h : y ≠ x) : (setCard s x c).card y = s.card y := by
  simp [setCard_card, h]

/-- At most the state, the detail and the device of the card `x` differ, its id does not,
    and nothing does if the generation is stale. -/
structure Writes (s t : State) (x : Nat) (g : Int32) : Prop where
  rest : t = { s with card := t.card }
  others : ∀ y ≠ x, t.card y = s.card y
  raised : (t.card x).raised = (s.card x).raised
  isWaking : (t.card x).isWaking = (s.card x).isWaking
  id : (t.card x).id = (s.card x).id
  fresh : stale s x g = true → t = s

namespace Writes

variable {t u : State} {x : Nat} {g : Int32}

theorem refl (s : State) (x : Nat) (g : Int32) : Writes s s x g :=
  ⟨rfl, fun _ _ => rfl, rfl, rfl, rfl, fun _ => rfl⟩

theorem trans (h : Writes s t x g) (h' : Writes t u x g) : Writes s u x g where
  rest := by
    rw [h'.rest, h.rest]
  others y hy := (h'.others y hy).trans (h.others y hy)
  raised := h'.raised.trans h.raised
  isWaking := h'.isWaking.trans h.isWaking
  id := h'.id.trans h.id
  fresh hstale := by
    have ht := h.fresh hstale
    subst ht
    exact h'.fresh hstale

/-- What is kept of the card `x` is kept of every card. -/
theorem every {α : Type} {f : Card → α} (h : Writes s t x g) (hx : f (t.card x) = f (s.card x)) (y : Nat) :
    f (t.card y) = f (s.card y) := by
  by_cases hy : y = x
  · rw [hy, hx]
  · rw [h.others y hy]

end Writes

theorem setCard_writes {x : Nat} {g : Int32} {c : Card} (hfresh : stale s x g = false)
    (hg : c.raised = (s.card x).raised) (hw : c.isWaking = (s.card x).isWaking)
    (hid : c.id = (s.card x).id) : Writes s (setCard s x c) x g where
  rest := rfl
  others y hy := setCard_ne s c hy
  raised := by rw [setCard_self, hg]
  isWaking := by rw [setCard_self, hw]
  id := by rw [setCard_self, hid]
  fresh hstale := by rw [hfresh] at hstale; cases hstale

theorem show_writes (s : State) (x : Nat) (generation : Int32) (state : DeviceState) (detail : Str) :
    Writes s (show_ s x generation state detail) x generation := by
  unfold show_
  by_cases h : stale s x generation = true
  · rw [if_pos h]
    exact .refl s x generation
  · rw [if_neg h]
    exact setCard_writes ((Bool.not_eq_true _).mp h) rfl rfl rfl

theorem setDetail_writes (s : State) (x : Nat) (generation : Int32) (detail : Str) :
    Writes s (setDetail s x generation detail) x generation := by
  unfold setDetail
  by_cases h : stale s x generation = true
  · rw [if_pos h]
    exact .refl s x generation
  · rw [if_neg h]
    exact setCard_writes ((Bool.not_eq_true _).mp h) rfl rfl rfl

/-- The repository answers with a record of the id it was asked about. -/
theorem repositoryAnswer_id {expected : Device} {observation : StatusObservation} {verify : Bool} {answer : Answer}
    {saved : Option Device} (h : repositoryAnswer expected observation verify answer = .ok saved) :
    ∀ d ∈ saved, d.id = expected.id := by
  cases answer with
  | throws e => cases h
  | reads db =>
    change (Repository.applyObservation expected observation verify db).map Prod.fst = .ok saved at h
    cases happly : Repository.applyObservation expected observation verify db with
    | error e =>
      rw [happly] at h
      cases h
    | ok result =>
      obtain ⟨found, db'⟩ := result
      rw [happly] at h
      cases h
      rcases (Repository.applyObservation_ok happly).2 with ⟨rfl, -⟩ | ⟨current, hfind, -, rfl, -⟩
      · exact fun _ hd => nomatch hd
      · rintro d ⟨⟩
        have hid := List.find?_some hfind
        exact of_decide_eq_true hid

theorem apply_writes {x : Nat} {generation : Int32} {saved : Option Device}
    (hsaved : ∀ d ∈ saved, d.id = (s.card x).id) (observation : StatusObservation) :
    Writes s (apply s x generation saved observation) x generation := by
  unfold apply
  cases saved with
  | none => exact .refl s x generation
  | some saved =>
    dsimp only
    by_cases h : stale s x generation = true ∨ x ∉ s.page
    · rw [if_pos h]
      exact .refl s x generation
    · rw [if_neg h]
      exact setCard_writes ((Bool.not_eq_true _).mp fun hs => h (Or.inl hs)) rfl rfl (hsaved saved rfl)

theorem checkFails_writes (s : State) (check : Check) (e : Exn) :
    Writes s (checkFails s check e) check.card check.generation := by
  unfold checkFails
  split
  · exact .refl ..
  · exact show_writes ..

/-- A check that gets an answer writes on its card and moves on. -/
theorem checkAnswered_writes (s : State) (i : Nat) (check : Check) (answer : Except Exn StatusObservation) :
    ∃ t phase, checkAnswered s i check answer = setCheck t i check phase ∧ Writes s t check.card check.generation := by
  unfold checkAnswered
  split
  · exact ⟨_, _, rfl, checkFails_writes ..⟩
  · split
    · exact ⟨_, _, rfl, .refl ..⟩
    · exact ⟨_, _, rfl, .refl ..⟩

theorem checkApplied_writes {check : Check} (hid : check.device.id = (s.card check.card).id) (i : Nat)
    (observation : StatusObservation) (answer : Answer) :
    ∃ t, checkApplied s i check observation answer = setCheck t i check .ended ∧
      Writes s t check.card check.generation := by
  unfold checkApplied
  split
  · exact ⟨_, rfl, checkFails_writes ..⟩
  · rename_i saved hanswer
    exact ⟨_, rfl, apply_writes (fun d hd => (repositoryAnswer_id hanswer d hd).trans hid) _⟩

theorem wakeReported_writes (s : State) (wake : Wake) (progress : WakeProgress) :
    Writes s (wakeReported s wake progress) wake.card wake.generation := by
  unfold wakeReported
  split
  · exact .refl ..
  · exact show_writes ..

theorem wakeAnswered_writes (s : State) (w : Nat) (wake : Wake) (answer : Except Exn WakeOutcome) :
    ∃ t phase, wakeAnswered s w wake answer = setWake t w wake phase ∧ Writes s t wake.card wake.generation ∧
      phase ≠ .returned := by
  unfold wakeAnswered
  split
  · exact ⟨_, _, rfl, show_writes .., nofun⟩
  · split
    · exact ⟨_, _, rfl, .refl .., nofun⟩
    · exact ⟨_, _, rfl, .refl .., nofun⟩

theorem wakeApplied_writes {wake : Wake} (hid : wake.device.id = (s.card wake.card).id) (w : Nat)
    (outcome : WakeOutcome) (answer : Answer) :
    ∃ t, wakeApplied s w wake outcome answer = setWake t w wake .ended ∧ Writes s t wake.card wake.generation := by
  unfold wakeApplied
  split
  · exact ⟨_, rfl, show_writes ..⟩
  · rename_i saved hanswer
    have happlied : Writes s _ wake.card wake.generation :=
      apply_writes (fun d hd => (repositoryAnswer_id hanswer d hd).trans hid) outcome.observation
    exact ⟨_, rfl, happlied.trans (setDetail_writes ..)⟩

end MythLab.App.DeviceActivityViewModel
