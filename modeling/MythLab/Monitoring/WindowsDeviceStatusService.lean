/-
  MythLab.Monitoring.WindowsDeviceStatusService — `CheckAsync`: resolve the host name, try
  the addresses one by one, and sum up.

  The resolver and the probes may answer anything. The caller may cancel at any time and
  the budget's token may be cancelled at any time, by its timer or because it is linked to
  the caller's; the stopwatch is read anew at every address. Every test of a token is a step
  of its own. `history` keeps the probes, and each time a token or the stopwatch ends
  something.

  `Change` says what an event can do to a check, and every invariant is read off it. `Story`
  says what the history of a check can be, phase by phase (`story_of_reach`). A check that
  found its budget spent before a probe had failed says Offline all the same, so its verdict
  is sound exactly where that does not happen (`sound_iff_wellTimed`). While the budget lasts
  the verdict is that of the answers, in any order (`state_of_answers`).
-/
import MythLab.Lib.Machine
import MythLab.Devices.Device
import MythLab.Discovery.Ipv4Subnet

namespace MythLab.Monitoring.WindowsDeviceStatusService

open Lib Dotnet Devices Discovery

inductive IPAddress where
  | v4 (address : UInt32)
  | v6 (address : BitVec 128)
  deriving DecidableEq, Repr

/-- The address, where its family is `InterNetwork`. -/
def IPAddress.interNetwork : IPAddress → Option UInt32
  | .v4 address => some address
  | .v6 _ => none

inductive IPStatus where
  | success
  | timedOut
  | other (name : Str)
  deriving DecidableEq, Repr

def IPStatus.name : IPStatus → Str
  | .success => str "Success"
  | .timedOut => str "TimedOut"
  | .other name => name

/-- What is thrown during a check. -/
inductive Thrown where
  | operationCanceled
  | socket (errorCode : Str)
  | ping
  | other (e : Exn)
  deriving DecidableEq, Repr

/-- How a probe of an address ends. -/
inductive Answer where
  /-- The TCP connection is made. -/
  | accepted
  | replied (status : IPStatus)
  | threw (e : Thrown)
  deriving DecidableEq, Repr

def Answer.succeeded : Answer → Bool
  | .accepted | .replied .success => true
  | _ => false

/-- Refused, a reply other than success, or timed out. -/
def Answer.failed : Answer → Bool
  | .replied status => status ≠ .success
  | .threw (.socket _) | .threw .operationCanceled => true
  | _ => false

/-- Where the budget is looked at. -/
inductive Point where
  | afterResolution
  | beforeProbe
  | afterProbe
  | atVerdict
  deriving DecidableEq, Repr

inductive Happening where
  | probeStarts (address : UInt32)
  | probeEnds (address : UInt32) (answer : Answer)
  /-- The caller's token is found cancelled. -/
  | callerSeen
  /-- The budget is found spent, by its token or by the stopwatch, when the caller has cancelled or not. -/
  | spent (point : Point) (byToken caller : Bool)
  deriving DecidableEq, Repr

/-- Where a call of `CheckAsync` is: before which test of a token, or before which answer. -/
inductive Phase where
  | entering
  | resolving
  | resolutionCancelled
  | resolved (addresses : List UInt32)
  | budgetAfterResolution (addresses : List UInt32)
  /-- The head of the loop. -/
  | throwIfCancelled (address : UInt32) (rest : List UInt32)
  | spending (address : UInt32) (rest : List UInt32)
  | probing (address : UInt32) (rest : List UInt32)
  /-- A probe threw `OperationCanceledException`, and the filter has not run. -/
  | interrupted (rest : List UInt32)
  | swallowed (rest : List UInt32)
  | summing
  | returned (observation : StatusObservation)
  | threw (e : Thrown)
  deriving DecidableEq, Repr

structure Flags where
  timedOut : Bool := false
  checkFailed : Bool := false
  checkError : Bool := false
  failure : Option Str := none
  deriving DecidableEq, Repr

structure State where
  phase : Phase := .entering
  /-- `cancellationToken.IsCancellationRequested` -/
  cancelled : Bool := false
  /-- `budget.IsCancellationRequested` -/
  budget : Bool := false
  flags : Flags := {}
  /-- `addresses.Length` -/
  count : Nat := 0
  history : List Happening := []
  deriving DecidableEq, Repr

inductive Event where
  /-- The caller cancels its token. -/
  | cancel
  /-- The budget's source is cancelled. -/
  | budgetFires
  | resolves (answer : Except Thrown (List IPAddress))
  | answers (answer : Answer)
  /-- The code runs on over its next test; the stopwatch shows so many ticks. -/
  | goesOn (elapsed : Int)
  deriving DecidableEq, Repr

def Phase.isOver : Phase → Bool
  | .returned _ | .threw _ => true
  | _ => false

/-- On to the next address, or out of the loop. -/
def Phase.next : List UInt32 → Phase
  | [] => .summing
  | address :: rest => .throwIfCancelled address rest

def State.note (s : State) (phase : Phase) (happened : List Happening) : State :=
  { s with phase := phase, history := s.history ++ happened }

/-- The caller's token is found cancelled. -/
def State.throwCancelled (s : State) : State := s.note (.threw .operationCanceled) [.callerSeen]

/-- The budget is found spent in the loop. -/
def State.breakOff (s : State) (point : Point) (byToken : Bool) : State :=
  { s with flags := { s.flags with timedOut := true } }.note .summing [.spent point byToken s.cancelled]

variable (device : Device) (timeoutMilliseconds : Int) (started : DateTimeOffset)

def verdict (state : DeviceState) (detail : Str) : Phase := .returned ⟨state, started, detail⟩

def slowResolution : Phase := verdict started .unknown (str "Hostname resolution timed out.")

def unresolved (errorCode : Str) : Phase :=
  verdict started .unknown (str "Hostname resolution failed (" ++ errorCode ++ str ").")

def noAddress : Phase := verdict started .unknown (str "The hostname has no IPv4 address.")

def connected (ip : Str) : Phase :=
  verdict started .online
    (str "TCP " ++ str (toString device.statusPort) ++ str " accepted a connection at " ++ ip ++ str ".")

def pinged (ip : Str) : Phase := verdict started .online (str "ICMP reply from " ++ ip ++ str ".")

def silent (count : Nat) : Phase :=
  verdict started .offline (str "The configured check timed out or did not respond across " ++ decimal count ++
    str " IPv4 address(es).")

def Flags.noReply (flags : Flags) (ip : Str) (status : IPStatus) : Flags :=
  { flags with
    timedOut := flags.timedOut || status == .timedOut
    checkFailed := true
    failure := some (str "No ICMP reply from " ++ ip ++ str " (" ++ status.name ++ str "). Ping may be blocked.") }

def Flags.refused (flags : Flags) (ip errorCode : Str) : Flags :=
  { flags with
    checkFailed := true
    failure := some (str "TCP check unavailable at " ++ ip ++ str " (" ++ errorCode ++
      str "); this does not prove power-off.") }

/-- A probe has ended. -/
def State.probed (s : State) (address : UInt32) (rest : List UInt32) (answer : Answer) : State :=
  let ip := Ipv4Subnet.format address
  let ended := [Happening.probeEnds address answer]
  match answer with
  | .accepted => s.note (connected device started ip) ended
  | .replied .success => s.note (pinged started ip) ended
  | .replied status => { s with flags := s.flags.noReply ip status }.note (.next rest) ended
  | .threw .operationCanceled => s.note (.interrupted rest) ended
  | .threw (.socket errorCode) => { s with flags := s.flags.refused ip errorCode }.note (.next rest) ended
  | .threw .ping => { s with flags := { s.flags with checkError := true } }.note (.next rest) ended
  | .threw e => s.note (.threw e) ended

/-- The return statements after the loop. -/
def State.sumUp (s : State) : State :=
  if s.flags.timedOut then { s with phase := silent started s.count }
  else if s.budget then s.note (silent started s.count) [.spent .atVerdict true s.cancelled]
  else if s.flags.checkFailed then
    { s with phase := verdict started .offline (s.flags.failure.getD (str "The configured check did not respond.")) }
  else if s.flags.checkError then
    { s with
      phase := verdict started .unknown (str "Windows could not perform the ICMP check. Try a TCP status check.") }
  else { s with phase := verdict started .unknown (str "No IPv4 address could be checked.") }

/-- A connection is made by a TCP check only, a reply comes from an ICMP check only. -/
def possible : Answer → Bool
  | .accepted => device.statusCheck = .tcp
  | .replied _ => device.statusCheck ≠ .tcp
  | .threw _ => true

def outOfRange : Exn :=
  .argument "Specified argument was out of the range of valid values. (Parameter 'timeoutMilliseconds')"

/-- The code from one test to the next. -/
def State.goOn (s : State) (elapsed : Int) : Option State :=
  match s.phase with
  | .entering =>
    if s.cancelled then some s.throwCancelled
    else if timeoutMilliseconds ≤ 0 then some { s with phase := .threw (.other outOfRange) }
    else some { s with phase := .resolving }
  | .resolutionCancelled =>
    if s.cancelled then some s.throwCancelled else some { s with phase := slowResolution started }
  | .resolved addresses =>
    if s.cancelled then some s.throwCancelled else some { s with phase := .budgetAfterResolution addresses }
  | .budgetAfterResolution addresses =>
    if s.budget then some (s.note (slowResolution started) [.spent .afterResolution true s.cancelled])
    else if addresses.length = 0 then some { s with phase := noAddress started }
    else some { s with phase := .next addresses, count := addresses.length }
  | .throwIfCancelled address rest =>
    if s.cancelled then some s.throwCancelled else some { s with phase := .spending address rest }
  | .spending address rest =>
    let remaining := timeoutMilliseconds * 10000 - elapsed
    if remaining ≤ 0 then some (s.breakOff .beforeProbe false)
    else if s.budget then some (s.breakOff .beforeProbe true)
    else some (s.note (.probing address rest) [.probeStarts address])
  | .interrupted rest =>
    if s.cancelled then some s.throwCancelled
    else some { s with phase := .swallowed rest, flags := { s.flags with timedOut := true } }
  | .swallowed rest =>
    if s.budget then some (s.breakOff .afterProbe true) else some { s with phase := .next rest }
  | .summing => some (s.sumUp started)
  | _ => none

/-- The IPv4 addresses among those, each of them once. -/
def ipv4 (addresses : List IPAddress) : List UInt32 := (addresses.filterMap IPAddress.interNetwork).eraseDups

def step (s : State) : Event → Option State
  | .cancel => if s.phase.isOver ∨ s.cancelled then none else some { s with cancelled := true }
  | .budgetFires => if s.phase.isOver ∨ s.phase = .entering ∨ s.budget then none else some { s with budget := true }
  | .resolves answer =>
    match s.phase, answer with
    | .resolving, .ok addresses => some { s with phase := .resolved (ipv4 addresses) }
    | .resolving, .error .operationCanceled => some { s with phase := .resolutionCancelled }
    | .resolving, .error (.socket errorCode) => some { s with phase := unresolved started errorCode }
    | .resolving, .error e => some { s with phase := .threw e }
    | _, _ => none
  | .answers answer =>
    match s.phase with
    | .probing address rest =>
      if possible device answer then some (s.probed device started address rest answer) else none
    | _ => none
  | .goesOn elapsed => s.goOn timeoutMilliseconds started elapsed

def machine : Machine State Event := ⟨fun s => s = {}, step device timeoutMilliseconds started⟩

/-! ## What an event can do -/

/-- Before which tests the caller's token is looked at. -/
def Phase.looks : Phase → Bool
  | .entering | .resolutionCancelled | .resolved _ | .throwIfCancelled .. | .interrupted _ => true
  | _ => false

/-- What an event does to a check, a constructor for each way through the code. -/
inductive Change (s : State) : Event → State → Prop
  | cancel : s.phase.isOver = false → s.cancelled = false → Change s .cancel { s with cancelled := true }
  | budgetFires : s.phase.isOver = false → s.phase ≠ .entering → s.budget = false →
      Change s .budgetFires { s with budget := true }
  | seen {elapsed : Int} : s.phase.looks = true → s.cancelled = true → Change s (.goesOn elapsed) s.throwCancelled
  | refuses {elapsed : Int} : s.phase = .entering → s.cancelled = false → timeoutMilliseconds ≤ 0 →
      Change s (.goesOn elapsed) { s with phase := .threw (.other outOfRange) }
  | enters {elapsed : Int} : s.phase = .entering → s.cancelled = false → 0 < timeoutMilliseconds →
      Change s (.goesOn elapsed) { s with phase := .resolving }
  | resolves (addresses : List IPAddress) : s.phase = .resolving →
      Change s (.resolves (.ok addresses)) { s with phase := .resolved (ipv4 addresses) }
  | resolutionCancelled : s.phase = .resolving →
      Change s (.resolves (.error .operationCanceled)) { s with phase := .resolutionCancelled }
  | unresolved (errorCode : Str) : s.phase = .resolving →
      Change s (.resolves (.error (.socket errorCode))) { s with phase := unresolved started errorCode }
  | resolutionThrew (e : Thrown) : s.phase = .resolving →
      Change s (.resolves (.error e)) { s with phase := .threw e }
  | slow {elapsed : Int} : s.phase = .resolutionCancelled → s.cancelled = false →
      Change s (.goesOn elapsed) { s with phase := slowResolution started }
  | resolved {elapsed : Int} (addresses : List UInt32) : s.phase = .resolved addresses → s.cancelled = false →
      Change s (.goesOn elapsed) { s with phase := .budgetAfterResolution addresses }
  | spentBefore {elapsed : Int} (addresses : List UInt32) : s.phase = .budgetAfterResolution addresses →
      s.budget = true →
      Change s (.goesOn elapsed) (s.note (slowResolution started) [.spent .afterResolution true s.cancelled])
  | noAddress {elapsed : Int} : s.phase = .budgetAfterResolution [] → s.budget = false →
      Change s (.goesOn elapsed) { s with phase := noAddress started }
  | begins {elapsed : Int} (x : UInt32) (rest : List UInt32) : s.phase = .budgetAfterResolution (x :: rest) →
      s.budget = false →
      Change s (.goesOn elapsed) { s with phase := .throwIfCancelled x rest, count := rest.length + 1 }
  | reaches {elapsed : Int} (x : UInt32) (rest : List UInt32) : s.phase = .throwIfCancelled x rest →
      s.cancelled = false →
      Change s (.goesOn elapsed) { s with phase := .spending x rest }
  | tooLate {elapsed : Int} (x : UInt32) (rest : List UInt32) : s.phase = .spending x rest →
      timeoutMilliseconds * 10000 - elapsed ≤ 0 → Change s (.goesOn elapsed) (s.breakOff .beforeProbe false)
  | spent {elapsed : Int} (x : UInt32) (rest : List UInt32) : s.phase = .spending x rest →
      0 < timeoutMilliseconds * 10000 - elapsed → s.budget = true →
      Change s (.goesOn elapsed) (s.breakOff .beforeProbe true)
  | starts {elapsed : Int} (x : UInt32) (rest : List UInt32) : s.phase = .spending x rest →
      0 < timeoutMilliseconds * 10000 - elapsed → s.budget = false →
      Change s (.goesOn elapsed) (s.note (.probing x rest) [.probeStarts x])
  | answers {a : Answer} (x : UInt32) (rest : List UInt32) : s.phase = .probing x rest → possible device a = true →
      Change s (.answers a) (s.probed device started x rest a)
  | swallows {elapsed : Int} (rest : List UInt32) : s.phase = .interrupted rest → s.cancelled = false →
      Change s (.goesOn elapsed) { s with phase := .swallowed rest, flags := { s.flags with timedOut := true } }
  | broken {elapsed : Int} (rest : List UInt32) : s.phase = .swallowed rest → s.budget = true →
      Change s (.goesOn elapsed) (s.breakOff .afterProbe true)
  | next {elapsed : Int} (rest : List UInt32) : s.phase = .swallowed rest → s.budget = false →
      Change s (.goesOn elapsed) { s with phase := .next rest }
  | sums {elapsed : Int} : s.phase = .summing → Change s (.goesOn elapsed) (s.sumUp started)

section

variable {device : Device} {timeoutMilliseconds : Int} {started : DateTimeOffset} {s s' : State} {e : Event}

theorem goOn_change {elapsed : Int} (h : s.goOn timeoutMilliseconds started elapsed = some s') :
    Change device timeoutMilliseconds started s (.goesOn elapsed) s' := by
  unfold State.goOn at h
  split at h
  all_goals rename_i hp
  · split_ifs at h with hc ht
    · cases h; exact .seen (by rw [hp]; rfl) hc
    · cases h; exact .refuses hp (Bool.eq_false_iff.mpr hc) ht
    · cases h; exact .enters hp (Bool.eq_false_iff.mpr hc) (Int.not_le.mp ht)
  · split_ifs at h with hc
    · cases h; exact .seen (by rw [hp]; rfl) hc
    · cases h; exact .slow hp (Bool.eq_false_iff.mpr hc)
  · split_ifs at h with hc
    · cases h; exact .seen (by rw [hp]; rfl) hc
    · cases h; exact .resolved _ hp (Bool.eq_false_iff.mpr hc)
  · rename_i addresses
    split_ifs at h with hb hl
    · cases h; exact .spentBefore _ hp hb
    · cases h
      rw [List.eq_nil_of_length_eq_zero hl] at hp
      exact .noAddress hp (Bool.eq_false_iff.mpr hb)
    · cases addresses with
      | nil => exact absurd rfl hl
      | cons x rest => cases h; exact .begins x rest hp (Bool.eq_false_iff.mpr hb)
  · split_ifs at h with hc
    · cases h; exact .seen (by rw [hp]; rfl) hc
    · cases h; exact .reaches _ _ hp (Bool.eq_false_iff.mpr hc)
  · simp only at h
    split_ifs at h with ht hb
    · cases h; exact .tooLate _ _ hp ht
    · cases h; exact .spent _ _ hp (Int.not_le.mp ht) hb
    · cases h; exact .starts _ _ hp (Int.not_le.mp ht) (Bool.eq_false_iff.mpr hb)
  · split_ifs at h with hc
    · cases h; exact .seen (by rw [hp]; rfl) hc
    · cases h; exact .swallows _ hp (Bool.eq_false_iff.mpr hc)
  · split_ifs at h with hb
    · cases h; exact .broken _ hp hb
    · cases h; exact .next _ hp (Bool.eq_false_iff.mpr hb)
  · cases h; exact .sums hp
  · cases h

theorem step_change (h : step device timeoutMilliseconds started s e = some s') :
    Change device timeoutMilliseconds started s e s' := by
  cases e with
  | cancel =>
    simp only [step] at h
    split_ifs at h with hc
    cases h
    rw [not_or, Bool.not_eq_true, Bool.not_eq_true] at hc
    exact .cancel hc.1 hc.2
  | budgetFires =>
    simp only [step] at h
    split_ifs at h with hb
    cases h
    rw [not_or, not_or, Bool.not_eq_true, Bool.not_eq_true] at hb
    exact .budgetFires hb.1 hb.2.1 hb.2.2
  | resolves answer =>
    simp only [step] at h
    split at h
    · rename_i hp; cases h; exact .resolves _ hp
    · rename_i hp; cases h; exact .resolutionCancelled hp
    · rename_i hp; cases h; exact .unresolved _ hp
    · rename_i hp; cases h; exact .resolutionThrew _ hp
    · cases h
  | answers answer =>
    simp only [step] at h
    split at h
    · rename_i hp
      split_ifs at h with ha
      cases h
      exact .answers _ _ hp ha
    · cases h
  | goesOn elapsed => exact goOn_change h

end

/-! ## What a check can have seen -/

/-- Some probe was refused, got a reply other than success, or timed out. -/
def Failed (h : List Happening) : Prop := ∃ x a, .probeEnds x a ∈ h ∧ a.failed = true

def Succeeded (h : List Happening) : Prop := ∃ x a, .probeEnds x a ∈ h ∧ a.succeeded = true

/-- Probes that ended without a verdict. -/
inductive Probed : List Happening → Prop
  | none : Probed []
  | snoc {h : List Happening} (x : UInt32) {a : Answer} : Probed h → a.failed = true ∨ a = .threw .ping →
      Probed (h ++ [.probeStarts x, .probeEnds x a])

def Flags.failed (f : Flags) : Bool := f.timedOut || f.checkFailed

/-- The flags tell whether a probe has failed. -/
def Tally (f : Flags) (h : List Happening) : Prop := f.failed = true ↔ Failed h

def Phase.isEarly : Phase → Bool
  | .entering | .resolving | .resolutionCancelled | .resolved _ | .budgetAfterResolution _ => true
  | _ => false

def Phase.inLoop : Phase → Bool
  | .throwIfCancelled .. | .spending .. | .swallowed _ | .summing => true
  | _ => false

/-- What a check has seen, and its flags, where it is in a phase. -/
inductive Story : Phase → Flags → List Happening → Prop
  | early {p : Phase} : p.isEarly = true → Story p {} []
  | slow {o : StatusObservation} {f : Flags} (c : Bool) : o.state = .unknown →
      Story (.returned o) f [.spent .afterResolution true c]
  | threw (e : Thrown) (f : Flags) : Story (.threw e) f []
  | seen {f : Flags} {h : List Happening} : Probed h → Story (.threw .operationCanceled) f (h ++ [.callerSeen])
  | loop {p : Phase} {f : Flags} {h : List Happening} : p.inLoop = true → Probed h → Tally f h → Story p f h
  | probing {x : UInt32} {rest : List UInt32} {f : Flags} {h : List Happening} : Probed h → Tally f h →
      Story (.probing x rest) f (h ++ [.probeStarts x])
  | interrupted {rest : List UInt32} {f : Flags} {h : List Happening} : Probed h → Failed h →
      Story (.interrupted rest) f h
  | broken {f : Flags} {h : List Happening} {p : Point} (t c : Bool) : Probed h → p ≠ .afterResolution →
      f.timedOut = true → Story .summing f (h ++ [.spent p t c])
  | online {f : Flags} {h : List Happening} {o : StatusObservation} (x : UInt32) {a : Answer} : Probed h →
      a.succeeded = true → o.state = .online → Story (.returned o) f (h ++ [.probeStarts x, .probeEnds x a])
  | probeThrew {f : Flags} {h : List Happening} (x : UInt32) (e : Exn) : Probed h →
      Story (.threw (.other e)) f (h ++ [.probeStarts x, .probeEnds x (.threw (.other e))])
  | offline {f : Flags} {h : List Happening} {o : StatusObservation} : Probed h → Failed h → o.state = .offline →
      Story (.returned o) f h
  | spentOffline {f : Flags} {h : List Happening} {p : Point} {o : StatusObservation} (t c : Bool) : Probed h →
      p ≠ .afterResolution → o.state = .offline → Story (.returned o) f (h ++ [.spent p t c])
  | unknown {f : Flags} {h : List Happening} {o : StatusObservation} : Probed h → ¬ Failed h → o.state = .unknown →
      Story (.returned o) f h

section

variable {p : Phase} {f : Flags} {h : List Happening} {x : UInt32} {a : Answer} {rest : List UInt32}

@[simp] theorem not_failed_nil : ¬ Failed [] := by simp [Failed]

theorem ends_probe (P : Answer → Prop) :
    (∃ y b, .probeEnds y b ∈ h ++ [.probeStarts x, .probeEnds x a] ∧ P b) ↔
      (∃ y b, .probeEnds y b ∈ h ∧ P b) ∨ P a := by
  constructor
  · intro hs
    obtain ⟨y, b, hb, hP⟩ := hs
    rcases List.mem_append.mp hb with hb | hb
    · exact Or.inl ⟨y, b, hb, hP⟩
    · simp only [List.mem_cons, reduceCtorEq, Happening.probeEnds.injEq, List.not_mem_nil, or_false, false_or] at hb
      exact Or.inr (hb.2 ▸ hP)
  · intro hs
    rcases hs with ⟨y, b, hb, hP⟩ | hP
    · exact ⟨y, b, List.mem_append_left _ hb, hP⟩
    · exact ⟨x, a, by simp, hP⟩

theorem failed_probe : Failed (h ++ [.probeStarts x, .probeEnds x a]) ↔ Failed h ∨ a.failed = true := ends_probe _

theorem succeeded_probe : Succeeded (h ++ [.probeStarts x, .probeEnds x a]) ↔ Succeeded h ∨ a.succeeded = true :=
  ends_probe _

theorem Phase.not_over (hp : p.isEarly = true ∨ p.inLoop = true) : p.isOver = false := by
  cases p <;> simp [isEarly, inLoop, isOver] at hp ⊢

theorem Phase.not_early (hp : p.inLoop = true) : p.isEarly = false := by
  cases p <;> first | rfl | cases hp

theorem Story.of_early (hs : Story p f h) (hp : p.isEarly = true) : f = {} ∧ h = [] := by
  cases hs with
  | early => exact ⟨rfl, rfl⟩
  | loop hl =>
    rw [Phase.not_early hl] at hp
    cases hp
  | _ => cases hp

theorem Story.of_head {x : UInt32} (hs : Story (.throwIfCancelled x rest) f h) : Probed h ∧ Tally f h := by
  cases hs with
  | early hp => cases hp
  | loop _ hp ht => exact ⟨hp, ht⟩

theorem Story.of_spending (hs : Story (.spending x rest) f h) : Probed h ∧ Tally f h := by
  cases hs with
  | early hp => cases hp
  | loop _ hp ht => exact ⟨hp, ht⟩

theorem Story.of_swallowed (hs : Story (.swallowed rest) f h) : Probed h ∧ Tally f h := by
  cases hs with
  | early hp => cases hp
  | loop _ hp ht => exact ⟨hp, ht⟩

theorem Story.of_interrupted (hs : Story (.interrupted rest) f h) : Probed h ∧ Failed h := by
  cases hs with
  | early hp | loop hp => cases hp
  | interrupted hp hf => exact ⟨hp, hf⟩

theorem Story.of_probing (hs : Story (.probing x rest) f h) :
    ∃ h', h = h' ++ [.probeStarts x] ∧ Probed h' ∧ Tally f h' := by
  cases hs with
  | early hp | loop hp => cases hp
  | probing hp ht => exact ⟨_, rfl, hp, ht⟩

theorem Story.next (hp : Probed h) (ht : Tally f h) : Story (.next rest) f h := by
  cases rest with
  | nil => exact .loop rfl hp ht
  | cons => exact .loop rfl hp ht

end

variable {device : Device} {timeoutMilliseconds : Int} {started : DateTimeOffset} {s s' : State} {e : Event}

theorem noReply_failed (f : Flags) (ip : Str) (status : IPStatus) : (f.noReply ip status).failed = true :=
  Bool.or_true _

theorem refused_failed (f : Flags) (ip errorCode : Str) : (f.refused ip errorCode).failed = true := Bool.or_true _

theorem probed_story {x : UInt32} {rest : List UInt32} {a : Answer} {h : List Happening}
    (hh : s.history = h ++ [.probeStarts x]) (hp : Probed h) (ht : Tally s.flags h) :
    Story (s.probed device started x rest a).phase (s.probed device started x rest a).flags
      (s.probed device started x rest a).history := by
  have hsnoc (a : Answer) : s.history ++ [.probeEnds x a] = h ++ [.probeStarts x, .probeEnds x a] := by simp [hh]
  -- A probe that failed or could not be made, with the flags as they are then.
  have hgoes (a : Answer) (f : Flags) (ha : a.failed = true ∨ a = .threw .ping)
      (hf : f.failed = true ↔ s.flags.failed = true ∨ a.failed = true) :
      Story (.next rest) f (s.history ++ [.probeEnds x a]) := by
    rw [hsnoc]
    refine .next (hp.snoc x ha) ?_
    rw [Tally, failed_probe, hf]
    exact or_congr_left ht
  cases a with
  | accepted =>
    simp only [State.probed, State.note, hsnoc]
    exact .online x hp rfl rfl
  | replied status =>
    cases status with
    | success =>
      simp only [State.probed, State.note, hsnoc]
      exact .online x hp rfl rfl
    | timedOut => exact hgoes _ (s.flags.noReply _ .timedOut) (Or.inl rfl) (by simp [noReply_failed, Answer.failed])
    | other name =>
      exact hgoes _ (s.flags.noReply _ (.other name)) (Or.inl rfl) (by simp [noReply_failed, Answer.failed])
  | threw e =>
    cases e with
    | operationCanceled =>
      simp only [State.probed, State.note, hsnoc]
      exact .interrupted (hp.snoc x (Or.inl rfl)) (failed_probe.mpr (Or.inr rfl))
    | socket code => exact hgoes _ (s.flags.refused _ code) (Or.inl rfl) (by simp [refused_failed, Answer.failed])
    | ping => exact hgoes _ { s.flags with checkError := true } (Or.inr rfl) (by simp [Flags.failed, Answer.failed])
    | other e =>
      simp only [State.probed, State.note, hsnoc]
      exact .probeThrew x e hp

theorem sumUp_story (hs : Story .summing s.flags s.history) :
    Story (s.sumUp started).phase (s.sumUp started).flags (s.sumUp started).history := by
  unfold State.sumUp
  generalize hf : s.flags = f, hh : s.history = h at hs
  cases hs with
  | early hp => cases hp
  | broken t c hp hpoint hflag =>
    rw [if_pos hflag]
    exact .spentOffline t c hp hpoint rfl
  | loop _ hp ht =>
    by_cases htime : f.timedOut = true
    · rw [if_pos htime]
      exact .offline hp (ht.mp (by simp [Flags.failed, htime])) rfl
    · rw [if_neg htime]
      by_cases hbudget : s.budget = true
      · rw [if_pos hbudget]
        simp only [State.note, hh]
        exact .spentOffline true s.cancelled hp nofun rfl
      · rw [if_neg hbudget]
        by_cases hfail : f.checkFailed = true
        · rw [if_pos hfail]
          exact .offline hp (ht.mp (by simp [Flags.failed, hfail])) rfl
        · have hno : ¬ Failed h := by
            intro hf
            have hflag := ht.mpr hf
            simp [Flags.failed, htime, hfail] at hflag
          rw [if_neg hfail]
          split
          · exact .unknown hp hno rfl
          · exact .unknown hp hno rfl

/-- The loop is left for good. -/
theorem breakOff_story {point : Point} {byToken : Bool} (hp : Probed s.history) (hpoint : point ≠ .afterResolution) :
    Story (s.breakOff point byToken).phase (s.breakOff point byToken).flags (s.breakOff point byToken).history :=
  .broken byToken s.cancelled hp hpoint rfl

/-- Where the caller's token is looked at, nothing but probes has been seen. -/
theorem Story.of_looks (hs : Story s.phase s.flags s.history) (hp : s.phase.looks = true) : Probed s.history := by
  cases hphase : s.phase with
  | entering | resolutionCancelled | resolved => exact (hs.of_early (by rw [hphase]; rfl)).2 ▸ .none
  | throwIfCancelled => exact (hphase ▸ hs).of_head.1
  | interrupted => exact (hphase ▸ hs).of_interrupted.1
  | _ =>
    rw [hphase] at hp
    cases hp

theorem step_story (hs : Story s.phase s.flags s.history)
    (he : step device timeoutMilliseconds started s e = some s') : Story s'.phase s'.flags s'.history := by
  have hearly (hp : s.phase.isEarly = true) {p : Phase} (hnew : Story p {} []) : Story p s.flags s.history := by
    obtain ⟨hf, hh⟩ := hs.of_early hp
    rw [hf, hh]
    exact hnew
  cases step_change he with
  | cancel | budgetFires => exact hs
  | seen hp => exact .seen (hs.of_looks hp)
  | refuses hp => exact hearly (by rw [hp]; rfl) (.threw _ _)
  | enters hp => exact hearly (by rw [hp]; rfl) (.early rfl)
  | resolves _ hp => exact hearly (by rw [hp]; rfl) (.early rfl)
  | resolutionCancelled hp => exact hearly (by rw [hp]; rfl) (.early rfl)
  | unresolved _ hp => exact hearly (by rw [hp]; rfl) (.unknown .none not_failed_nil rfl)
  | resolutionThrew _ hp => exact hearly (by rw [hp]; rfl) (.threw _ _)
  | slow hp => exact hearly (by rw [hp]; rfl) (.unknown .none not_failed_nil rfl)
  | resolved _ hp => exact hearly (by rw [hp]; rfl) (.early rfl)
  | spentBefore _ hp =>
    simp only [State.note, (hs.of_early (by rw [hp]; rfl)).2]
    exact .slow s.cancelled rfl
  | noAddress hp => exact hearly (by rw [hp]; rfl) (.unknown .none not_failed_nil rfl)
  | begins x rest hp => exact hearly (by rw [hp]; rfl) (.loop rfl .none (by simp [Tally, Flags.failed]))
  | reaches x rest hp =>
    obtain ⟨hprobed, ht⟩ := (hp ▸ hs).of_head
    exact .loop rfl hprobed ht
  | tooLate x rest hp | spent x rest hp => exact breakOff_story (hp ▸ hs).of_spending.1 nofun
  | starts x rest hp =>
    obtain ⟨hprobed, ht⟩ := (hp ▸ hs).of_spending
    exact .probing hprobed ht
  | answers x rest hp =>
    obtain ⟨h, hh, hprobed, ht⟩ := (hp ▸ hs).of_probing
    exact probed_story hh hprobed ht
  | swallows rest hp =>
    obtain ⟨hprobed, hf⟩ := (hp ▸ hs).of_interrupted
    exact .loop rfl hprobed ⟨fun _ => hf, fun _ => rfl⟩
  | broken rest hp => exact breakOff_story (hp ▸ hs).of_swallowed.1 nofun
  | next rest hp =>
    obtain ⟨hprobed, ht⟩ := (hp ▸ hs).of_swallowed
    exact .next hprobed ht
  | sums hp => exact sumUp_story (hp ▸ hs)

theorem story_of_reach (h : (machine device timeoutMilliseconds started).Reach s) :
    Story s.phase s.flags s.history := by
  refine h.inv ?_ fun _ _ _ => step_story
  intro s hs
  subst hs
  exact .early rfl

/-! ## The verdict -/

/-- The caller's cancellation is found, at its own token or at the budget's. -/
def CancellationSeen (h : List Happening) : Prop := .callerSeen ∈ h ∨ ∃ p, .spent p true true ∈ h

/-- Every probe that was started ended in a ping error. -/
def OnlyErrors (h : List Happening) : Prop :=
  ∀ x, .probeStarts x ∈ h → ∀ a, .probeEnds x a ∈ h → a = .threw .ping

/-- What the status of a device should be, and when a check should not give one. -/
structure Sound (s : State) : Prop where
  online : (∃ o, s.phase = .returned o ∧ o.state = .online) ↔ Succeeded s.history
  offline : ∀ o, s.phase = .returned o → o.state = .offline →
    (∃ x, .probeStarts x ∈ s.history) ∧ Failed s.history
  unknown : ∀ o, s.phase = .returned o → OnlyErrors s.history → o.state = .unknown
  cancelled : CancellationSeen s.history → s.phase = .threw .operationCanceled

/-- The budget is not found spent before a probe has failed, except right after the resolution,
    and not because the caller has cancelled. -/
structure WellTimed (h : List Happening) : Prop where
  late : ∀ before p t c, before ++ [.spent p t c] <+: h → p ≠ .afterResolution → Failed before
  notCancelled : ∀ p, .spent p true true ∉ h

section

variable {p : Phase} {f : Flags} {h : List Happening} {x : UInt32} {a : Answer} {point : Point} {t c : Bool}

theorem Answer.not_succeeded (ha : a.failed = true ∨ a = .threw .ping) : a.succeeded = false := by
  rcases ha with ha | rfl
  · cases a with
    | accepted => cases ha
    | replied status => cases status <;> first | rfl | cases ha
    | threw => rfl
  · rfl

theorem Probed.not_succeeded (hp : Probed h) : ¬ Succeeded h := by
  induction hp with
  | none => simp [Succeeded]
  | snoc x _ ha ih =>
    rw [succeeded_probe, Answer.not_succeeded ha]
    simpa using ih

theorem Probed.unspent (hp : Probed h) : .callerSeen ∉ h ∧ ∀ p t c, .spent p t c ∉ h := by
  induction hp with
  | none => simp
  | snoc _ _ _ ih => simpa using ih

theorem Probed.starts (hp : Probed h) (hx : .probeEnds x a ∈ h) : .probeStarts x ∈ h := by
  induction hp with
  | none => cases hx
  | snoc y _ _ ih =>
    rcases List.mem_append.mp hx with hx | hx
    · exact List.mem_append_left _ (ih hx)
    · simp only [List.mem_cons, reduceCtorEq, Happening.probeEnds.injEq, List.not_mem_nil, or_false, false_or] at hx
      simp [hx.1]

theorem Probed.failed_starts (hp : Probed h) (hf : Failed h) : ∃ x, .probeStarts x ∈ h := by
  obtain ⟨x, a, hx, -⟩ := hf
  exact ⟨x, hp.starts hx⟩

theorem Probed.not_only (hp : Probed h) (hf : Failed h) : ¬ OnlyErrors h := by
  obtain ⟨x, a, hx, ha⟩ := hf
  intro honly
  rw [honly x (hp.starts hx) a hx] at ha
  cases ha

theorem wellTimed_of_unspent (hno : ∀ p t c, .spent p t c ∉ h) : WellTimed h where
  late before p t c hpre := absurd (hpre.subset (by simp)) (hno p t c)
  notCancelled p := hno p true true

theorem not_seen (hc : .callerSeen ∉ h) (hno : ∀ p t c, .spent p t c ∉ h) : ¬ CancellationSeen h := by
  intro hs
  rcases hs with hs | ⟨p, hs⟩
  · exact hc hs
  · exact hno p true true hs

theorem wellTimed_spent (hno : ∀ p t c, .spent p t c ∉ h) (hp : point ≠ .afterResolution) :
    WellTimed (h ++ [.spent point t c]) ↔ Failed h ∧ ¬ (t = true ∧ c = true) := by
  constructor
  · intro hw
    refine ⟨hw.late h point t c (List.prefix_refl _) hp, ?_⟩
    intro htc
    obtain ⟨rfl, rfl⟩ := htc
    exact hw.notCancelled point (by simp)
  · intro hw
    refine ⟨?_, ?_⟩
    · intro before p' t' c' hpre _
      rcases List.prefix_concat_iff.mp hpre with heq | hpre
      · rw [(List.append_inj' heq rfl).1]
        exact hw.1
      · exact absurd (hpre.subset (by simp)) (hno p' t' c')
    · intro p' hmem
      rcases List.mem_append.mp hmem with hmem | hmem
      · exact hno p' true true hmem
      · simp only [List.mem_singleton, Happening.spent.injEq] at hmem
        exact hw.2 ⟨hmem.2.1.symm, hmem.2.2.symm⟩

end

theorem sound_of_threw {t : Thrown} (hs : ¬ Succeeded s.history) (hp : s.phase = .threw t)
    (hc : CancellationSeen s.history → t = .operationCanceled) : Sound s where
  online := by simp [hp, hs]
  offline o ho := by cases hp.symm.trans ho
  unknown o ho := by cases hp.symm.trans ho
  cancelled h := by rw [hp, hc h]

/-- A verdict other than Online. -/
theorem sound_iff {o : StatusObservation} (hs : ¬ Succeeded s.history) (hp : s.phase = .returned o)
    (ho : o.state ≠ .online) : Sound s ↔
      (o.state = .offline → (∃ x, .probeStarts x ∈ s.history) ∧ Failed s.history) ∧
      (OnlyErrors s.history → o.state = .unknown) ∧ ¬ CancellationSeen s.history := by
  constructor
  · intro hsound
    exact ⟨hsound.offline o hp, hsound.unknown o hp, fun hc => (nomatch hp.symm.trans (hsound.cancelled hc))⟩
  · intro h
    obtain ⟨hoff, hun, hc⟩ := h
    refine ⟨iff_of_false ?_ hs, ?_, ?_, fun h => absurd h hc⟩
    · intro hon
      obtain ⟨o', ho', hon⟩ := hon
      cases hp.symm.trans ho'
      exact ho hon
    · intro o' ho'
      cases hp.symm.trans ho'
      exact hoff
    · intro o' ho'
      cases hp.symm.trans ho'
      exact hun

section

variable {h : List Happening} {x : UInt32} {a : Answer} {point : Point} {t c : Bool} {o : StatusObservation}

theorem sound_slow (hh : s.history = [.spent .afterResolution true c]) (hp : s.phase = .returned o)
    (ho : o.state = .unknown) : Sound s ↔ WellTimed s.history := by
  have hseen : CancellationSeen s.history ↔ c = true := by simp [hh, CancellationSeen, eq_comm]
  rw [sound_iff (by simp [hh, Succeeded]) hp (by rw [ho]; nofun)]
  constructor
  · intro hs
    obtain ⟨-, -, hc⟩ := hs
    refine ⟨?_, fun p hmem => hc (Or.inr ⟨p, hmem⟩)⟩
    intro before p t c' hpre hpoint
    have hmem := hpre.subset (List.mem_append_right before (List.mem_singleton.mpr rfl))
    simp only [hh, List.mem_singleton, Happening.spent.injEq] at hmem
    exact absurd hmem.1 hpoint
  · intro hw
    refine ⟨fun hoff => (nomatch ho.symm.trans hoff), fun _ => ho, ?_⟩
    intro hs
    exact hw.notCancelled .afterResolution (by simp [hh, hseen.mp hs])

theorem sound_success (hh : s.history = h ++ [.probeStarts x, .probeEnds x a]) (ha : a.succeeded = true)
    (hp : s.phase = .returned o) (ho : o.state = .online) (hc : ¬ CancellationSeen s.history) : Sound s := by
  refine ⟨iff_of_true ⟨o, hp, ho⟩ ⟨x, a, by simp [hh], ha⟩, ?_, ?_, fun h => absurd h hc⟩
  · intro o' ho' hoff
    cases hp.symm.trans ho'
    cases ho.symm.trans hoff
  · intro o' _ honly
    rw [honly x (by simp [hh]) a (by simp [hh])] at ha
    cases ha

theorem sound_spent (hh : s.history = h ++ [.spent point t c]) (hprobed : Probed h) (hpoint : point ≠ .afterResolution)
    (hp : s.phase = .returned o) (ho : o.state = .offline) : Sound s ↔ WellTimed s.history := by
  have hfailed : Failed s.history ↔ Failed h := by simp [hh, Failed]
  have hseen : CancellationSeen s.history ↔ t = true ∧ c = true := by
    have hno := not_seen hprobed.unspent.1 hprobed.unspent.2
    simp only [CancellationSeen, not_or, not_exists] at hno
    simp [hh, CancellationSeen, hno.1, hno.2, eq_comm]
  rw [sound_iff (by simpa [hh, Succeeded] using hprobed.not_succeeded) hp (by rw [ho]; nofun), hh,
    wellTimed_spent hprobed.unspent.2 hpoint, ← hh, hseen, hfailed]
  constructor
  · intro hs
    exact ⟨(hs.1 ho).2, hs.2.2⟩
  · intro hs
    refine ⟨fun _ => ⟨?_, hs.1⟩, ?_, hs.2⟩
    · obtain ⟨x, hx⟩ := hprobed.failed_starts hs.1
      exact ⟨x, by simp [hh, hx]⟩
    · intro honly
      refine absurd ?_ (hprobed.not_only hs.1)
      simpa [hh, OnlyErrors] using honly

end

/-- The verdict of a finished check is sound exactly where the budget was not found spent too early. -/
theorem sound_iff_wellTimed (hr : (machine device timeoutMilliseconds started).Reach s) (ho : s.phase.isOver = true) :
    Sound s ↔ WellTimed s.history := by
  have hs := story_of_reach hr
  generalize hp : s.phase = p, hf : s.flags = f, hh : s.history = h at hs ho
  cases hs with
  | early he => cases (Phase.not_over (Or.inl he)).symm.trans ho
  | loop he => cases (Phase.not_over (Or.inr he)).symm.trans ho
  | probing | interrupted | broken => cases ho
  | threw e =>
    refine iff_of_true (sound_of_threw (by simp [hh, Succeeded]) hp ?_) (wellTimed_of_unspent (by simp))
    simp [hh, CancellationSeen]
  | slow c hstate => exact hh ▸ sound_slow hh hp hstate
  | seen hprobed =>
    refine iff_of_true (sound_of_threw ?_ hp fun _ => rfl) (wellTimed_of_unspent (by simpa using hprobed.unspent.2))
    simpa [hh, Succeeded] using hprobed.not_succeeded
  | online x hprobed hok hstate =>
    have hunspent := hprobed.unspent
    refine iff_of_true (sound_success hh hok hp hstate ?_) (wellTimed_of_unspent (by simpa using hunspent.2))
    exact hh ▸ not_seen (by simpa using hunspent.1) (by simpa using hunspent.2)
  | probeThrew x e hprobed =>
    have hunspent := hprobed.unspent
    refine iff_of_true (sound_of_threw ?_ hp ?_) (wellTimed_of_unspent (by simpa using hunspent.2))
    · rw [hh, succeeded_probe]
      simpa [Answer.succeeded] using hprobed.not_succeeded
    · exact fun hc => absurd hc (hh ▸ not_seen (by simpa using hunspent.1) (by simpa using hunspent.2))
  | offline hprobed hfail hstate =>
    refine iff_of_true ((sound_iff (hh ▸ hprobed.not_succeeded) hp (by rw [hstate]; nofun)).mpr ?_)
      (wellTimed_of_unspent hprobed.unspent.2)
    rw [hh]
    exact ⟨fun _ => ⟨hprobed.failed_starts hfail, hfail⟩, fun honly => absurd honly (hprobed.not_only hfail),
      not_seen hprobed.unspent.1 hprobed.unspent.2⟩
  | spentOffline t c hprobed hpoint hstate => exact hh ▸ sound_spent hh hprobed hpoint hp hstate
  | unknown hprobed hno hstate =>
    refine iff_of_true ((sound_iff (hh ▸ hprobed.not_succeeded) hp (by rw [hstate]; nofun)).mpr ?_)
      (wellTimed_of_unspent hprobed.unspent.2)
    rw [hh]
    exact ⟨fun hoff => (nomatch hstate.symm.trans hoff), fun _ => hstate, not_seen hprobed.unspent.1 hprobed.unspent.2⟩

/-! ## While the budget lasts -/

/-- What the answers of the addresses come to, in whatever order. -/
def judged (answers : List Answer) : DeviceState :=
  if answers.any Answer.succeeded then .online else if answers.any Answer.failed then .offline else .unknown

/-- The resolver gives these addresses, every address has its own answer, and the budget lasts. -/
def Unhurried (timeoutMilliseconds : Int) (out : UInt32 → Answer) (addresses : List IPAddress) (s : State) :
    Event → Prop
  | .cancel => True
  | .budgetFires => False
  | .resolves answer => answer = .ok addresses
  | .answers answer => ∀ x rest, s.phase = .probing x rest → answer = out x
  | .goesOn elapsed => elapsed < timeoutMilliseconds * 10000

section

variable {out : UInt32 → Answer} {addresses addresses' : List IPAddress} {xs rest : List UInt32} {x : UInt32}
  {f g : Flags}

/-- The addresses before `rest` have been tried, none with success, and the flags tell whether one failed. -/
def Tried (out : UInt32 → Answer) (xs rest : List UInt32) (f : Flags) : Prop :=
  ∃ tried, xs = tried ++ rest ∧ (∀ y ∈ tried, (out y).succeeded = false) ∧
    (f.failed = true ↔ ∃ y ∈ tried, (out y).failed = true)

theorem tried_none : Tried out xs xs {} := ⟨[], rfl, by simp, by simp [Flags.failed]⟩

theorem Tried.snoc (ht : Tried out xs (x :: rest) f) (hx : (out x).succeeded = false)
    (hf : g.failed = true ↔ f.failed = true ∨ (out x).failed = true) : Tried out xs rest g := by
  obtain ⟨tried, hxs, hno, hfail⟩ := ht
  refine ⟨tried ++ [x], by simp [hxs], ?_, ?_⟩
  · intro y hy
    rcases List.mem_append.mp hy with hy | hy
    · exact hno y hy
    · rw [List.mem_singleton.mp hy]
      exact hx
  · rw [hf, hfail]
    simp [or_and_right, exists_or]

theorem Tried.success (ht : Tried out xs (x :: rest) f) (hx : (out x).succeeded = true) :
    judged (xs.map out) = .online := by
  obtain ⟨tried, hxs, -, -⟩ := ht
  simp [judged, hxs, hx]

theorem Tried.judged_eq (ht : Tried out xs [] f) : judged (xs.map out) = if f.failed then .offline else .unknown := by
  obtain ⟨tried, hxs, hno, hfail⟩ := ht
  have hnone : (xs.map out).any Answer.succeeded = false := by simpa [hxs] using hno
  have hany : (xs.map out).any Answer.failed = f.failed := by
    rw [Bool.eq_iff_iff, hfail]
    simp [hxs]
  unfold judged
  rw [hnone, hany]
  rfl

/-- Where a check is that has had time for every address so far. -/
def InTime (out : UInt32 → Answer) (xs : List UInt32) (s : State) : Prop :=
  s.budget = false ∧ match s.phase with
  | .entering | .resolving => s.flags = {}
  | .resolutionCancelled => False
  | .resolved ys | .budgetAfterResolution ys => ys = xs ∧ s.flags = {}
  | .throwIfCancelled x rest | .spending x rest | .probing x rest => Tried out xs (x :: rest) s.flags
  | .interrupted rest => Tried out xs rest { s.flags with timedOut := true }
  | .swallowed rest => Tried out xs rest s.flags
  | .summing => Tried out xs [] s.flags
  | .returned o => o.state = judged (xs.map out)
  | .threw _ => True

theorem inTime_next (hb : s.budget = false) (hp : s.phase = .next rest) (ht : Tried out xs rest s.flags) :
    InTime out xs s := by
  refine ⟨hb, ?_⟩
  cases rest with
  | nil => simpa only [hp, Phase.next] using ht
  | cons => simpa only [hp, Phase.next] using ht

theorem probed_inTime (hb : s.budget = false) (ht : Tried out xs (x :: rest) s.flags) :
    InTime out xs (s.probed device started x rest (out x)) := by
  generalize ha : out x = a
  -- On to the next address, with the flags as they are then.
  have hgoes (f : Flags) (hno : a.succeeded = false) (hf : f.failed = true ↔ s.flags.failed = true ∨ a.failed = true) :
      InTime out xs ({ s with flags := f }.note (.next rest) [.probeEnds x a]) :=
    inTime_next hb rfl (ht.snoc (ha ▸ hno) (ha ▸ hf))
  cases a with
  | accepted => exact ⟨hb, (ht.success (by rw [ha]; rfl)).symm⟩
  | replied status =>
    cases status with
    | success => exact ⟨hb, (ht.success (by rw [ha]; rfl)).symm⟩
    | timedOut => exact hgoes (s.flags.noReply _ .timedOut) rfl (by simp [noReply_failed, Answer.failed])
    | other name => exact hgoes (s.flags.noReply _ (.other name)) rfl (by simp [noReply_failed, Answer.failed])
  | threw e =>
    cases e with
    | operationCanceled => exact ⟨hb, ht.snoc (by rw [ha]; rfl) (by simp [ha, Flags.failed, Answer.failed])⟩
    | socket code => exact hgoes (s.flags.refused _ code) rfl (by simp [refused_failed, Answer.failed])
    | ping => exact hgoes { s.flags with checkError := true } rfl (by simp [Flags.failed, Answer.failed])
    | other e => exact ⟨hb, trivial⟩

theorem sumUp_inTime (hb : s.budget = false) (ht : Tried out xs [] s.flags) : InTime out xs (s.sumUp started) := by
  have hj := ht.judged_eq
  unfold State.sumUp
  by_cases htime : s.flags.timedOut = true
  · rw [if_pos htime]
    exact ⟨hb, by simp [hj, verdict, silent, Flags.failed, htime]⟩
  · rw [if_neg htime, if_neg (by simp [hb])]
    by_cases hfail : s.flags.checkFailed = true
    · rw [if_pos hfail]
      exact ⟨hb, by simp [hj, verdict, Flags.failed, hfail]⟩
    · rw [if_neg hfail]
      split
      · exact ⟨hb, by simp [hj, verdict, Flags.failed, htime, hfail]⟩
      · exact ⟨hb, by simp [hj, verdict, Flags.failed, htime, hfail]⟩

theorem step_inTime (hs : InTime out (ipv4 addresses) s) (hc : Unhurried timeoutMilliseconds out addresses s e)
    (he : step device timeoutMilliseconds started s e = some s') : InTime out (ipv4 addresses) s' := by
  obtain ⟨hb, hp⟩ := hs
  -- The budget's token is not cancelled, and the stopwatch has not passed the budget.
  have hunspent (h : s.budget = true) : False := by
    rw [hb] at h
    cases h
  cases step_change he with
  | cancel => exact ⟨hb, hp⟩
  | budgetFires => cases hc
  | seen | refuses => exact ⟨hb, trivial⟩
  | enters hphase =>
    simp only [hphase] at hp
    exact ⟨hb, hp⟩
  | resolves _ hphase =>
    cases hc
    simp only [hphase] at hp
    exact ⟨hb, rfl, hp⟩
  | resolutionCancelled | unresolved | resolutionThrew => cases hc
  | slow hphase =>
    simp only [hphase] at hp
  | resolved _ hphase =>
    simp only [hphase] at hp
    exact ⟨hb, hp⟩
  | spentBefore _ _ hspent => cases hunspent hspent
  | noAddress hphase =>
    simp only [hphase] at hp
    exact ⟨hb, by simp [← hp.1, judged, verdict, noAddress]⟩
  | begins x rest hphase =>
    simp only [hphase] at hp
    obtain ⟨hxs, hflags⟩ := hp
    refine ⟨hb, ?_⟩
    show Tried out (ipv4 addresses) (x :: rest) s.flags
    rw [hflags, ← hxs]
    exact tried_none
  | reaches x rest hphase =>
    simp only [hphase] at hp
    exact ⟨hb, hp⟩
  | tooLate x rest _ hlate =>
    have hlt : _ < timeoutMilliseconds * 10000 := hc
    omega
  | spent x rest _ _ hspent => cases hunspent hspent
  | starts x rest hphase =>
    simp only [hphase] at hp
    exact ⟨hb, hp⟩
  | answers x rest hphase =>
    simp only [hphase] at hp
    obtain rfl := hc x rest hphase
    exact probed_inTime hb hp
  | swallows rest hphase =>
    simp only [hphase] at hp
    exact ⟨hb, hp⟩
  | broken rest _ hspent => cases hunspent hspent
  | next rest hphase =>
    simp only [hphase] at hp
    exact inTime_next hb rfl hp
  | sums hphase =>
    simp only [hphase] at hp
    exact sumUp_inTime hb hp

/-- While the budget lasts the verdict is what the answers of the addresses come to. -/
theorem state_of_answers {log : List (State × Event)} {o : StatusObservation}
    (hr : (machine device timeoutMilliseconds started).Runs log s)
    (hc : Machine.Throughout (Unhurried timeoutMilliseconds out addresses) log) (ho : s.phase = .returned o) :
    o.state = judged ((ipv4 addresses).map out) := by
  have hs : InTime out (ipv4 addresses) s := by
    refine hr.inv ?_ (fun _ _ _ => step_inTime) hc
    intro s hs
    subst hs
    exact ⟨rfl, rfl⟩
  have hverdict := hs.2
  rwa [ho] at hverdict

theorem mem_ipv4 : x ∈ ipv4 addresses ↔ .v4 x ∈ addresses := by
  unfold ipv4
  rw [List.mem_eraseDups, List.mem_filterMap]
  constructor
  · intro hx
    obtain ⟨address, hmem, hv4⟩ := hx
    cases address with
    | v4 => cases hv4; exact hmem
    | v6 => cases hv4
  · intro hx
    exact ⟨.v4 x, hx, rfl⟩

theorem judged_perm (h : addresses.Perm addresses') :
    judged ((ipv4 addresses).map out) = judged ((ipv4 addresses').map out) := by
  have hany (P : Answer → Bool) : ((ipv4 addresses).map out).any P = ((ipv4 addresses').map out).any P := by
    rw [Bool.eq_iff_iff]
    simp only [List.any_map, List.any_eq_true, mem_ipv4, h.mem_iff]
  unfold judged
  rw [hany, hany]

end

/-- A check of these addresses returns, and its budget has lasted. -/
def Returns (device : Device) (timeoutMilliseconds : Int) (started : DateTimeOffset) (out : UInt32 → Answer)
    (addresses : List IPAddress) (o : StatusObservation) : Prop :=
  ∃ log s, (machine device timeoutMilliseconds started).Runs log s ∧
    Machine.Throughout (Unhurried timeoutMilliseconds out addresses) log ∧ s.phase = .returned o

/-- The verdict of a finished check is sound exactly where the budget was not found spent too early; while the
    budget lasts it does not depend on the order of the addresses. -/
theorem check_sound_iff (hr : (machine device timeoutMilliseconds started).Reach s) (ho : s.phase.isOver = true) :
    (Sound s ↔ WellTimed s.history) ∧
    ∀ out addresses addresses' o o', addresses.Perm addresses' →
      Returns device timeoutMilliseconds started out addresses o →
      Returns device timeoutMilliseconds started out addresses' o' → o.state = o'.state := by
  refine ⟨sound_iff_wellTimed hr ho, ?_⟩
  intro out addresses addresses' o o' hperm hfirst hsecond
  obtain ⟨log, t, hrun, hc, ht⟩ := hfirst
  obtain ⟨log', t', hrun', hc', ht'⟩ := hsecond
  rw [state_of_answers hrun hc ht, state_of_answers hrun' hc' ht']
  exact judged_perm hperm

def nas : Device := { id := 1, hostname := str "nas", statusCheck := .tcp }

def addressOfNas : Event := .resolves (.ok [.v4 0x0A020005])

/-- A refused connection. -/
def nasRefuses : List Event :=
  [.goesOn 0, addressOfNas, .goesOn 0, .goesOn 0, .goesOn 0, .goesOn 0,
    .answers (.threw (.socket (str "ConnectionRefused"))), .goesOn 0]

theorem nas_offline : ∃ s, (machine nas 100 ⟨0, 0⟩).Reach s ∧ s.phase = verdict ⟨0, 0⟩ .offline
    (str "TCP check unavailable at 10.2.0.5 (ConnectionRefused); this does not prove power-off.") ∧ Sound s := by
  obtain ⟨log, s, hr, -, hs⟩ := Machine.exists_run (machine nas 100 ⟨0, 0⟩) (fun _ _ => True)
    (fun s => s.phase = verdict ⟨0, 0⟩ .offline
        (str "TCP check unavailable at 10.2.0.5 (ConnectionRefused); this does not prove power-off.") &&
      s.history = [.probeStarts 0x0A020005, .probeEnds 0x0A020005 (.threw (.socket (str "ConnectionRefused")))])
    nasRefuses rfl (by decide +kernel)
  obtain ⟨hphase, hh⟩ := Bool.and_eq_true_iff.mp hs
  have hphase := of_decide_eq_true hphase
  refine ⟨s, ⟨log, hr⟩, hphase, (check_sound_iff ⟨log, hr⟩ (by rw [hphase]; rfl)).1.mpr ?_⟩
  exact wellTimed_of_unspent (by simp [of_decide_eq_true hh])

/-- The stopwatch has passed the budget before the timer fires: Offline, and nothing has been tried. -/
def nasTooLate : List Event :=
  [.goesOn 0, addressOfNas, .goesOn 0, .goesOn 0, .goesOn 0, .goesOn 1500000, .goesOn 0]

theorem untried_is_offline : ¬ ∀ s, (machine nas 100 ⟨0, 0⟩).Reach s → s.phase.isOver = true → Sound s := by
  intro hall
  obtain ⟨log, s, hr, -, hs⟩ := Machine.exists_run (machine nas 100 ⟨0, 0⟩) (fun _ _ => True)
    (fun s => s.phase = silent ⟨0, 0⟩ 1 && s.history = [.spent .beforeProbe false false]) nasTooLate rfl
    (by decide +kernel)
  obtain ⟨hphase, hh⟩ := Bool.and_eq_true_iff.mp hs
  have hphase := of_decide_eq_true hphase
  have hsound := hall s ⟨log, hr⟩ (by rw [hphase]; rfl)
  obtain ⟨x, hx⟩ := (hsound.offline _ hphase rfl).1
  simp [of_decide_eq_true hh] at hx

end MythLab.Monitoring.WindowsDeviceStatusService
