/-
  MythLab.WakeOnLan.WakeOnLanService — `SendAsync`: what is checked and looked up, and the
  packets that are sent.

  The probe, the resolver and the transport may answer anything, exceptions included, and
  the token may be cancelled between any two steps. `history` keeps the delays, the reports
  and the packets of a call.

  The loop of the code is flat: `PacketCount * (RetryCount + 1)` packets, and before each
  but the first a delay chosen by the remainder of its number. `rounds` is what it is for:
  `RetryCount + 1` rounds of `PacketCount` packets, `DelayMilliseconds` apart in a round
  and `RetryDelayMilliseconds` between two rounds.

  Proved of every run:
  - `packets_go_in_rounds`: what was called is a beginning of the rounds of one plan: the
    same packet each time, the device's own, to the destination that the routing chose of
    the interfaces that were listed; a call that returns has sent all of them, which are
    between one and sixty.
  - `cancelled_send_stops`: after the token is cancelled, at most one packet more is
    started.
-/
import MythLab.Lib.Machine
import MythLab.Dotnet.Numbers
import MythLab.Discovery.WindowsLanProbe
import MythLab.WakeOnLan.MagicPacket
import MythLab.WakeOnLan.WakeContracts
import MythLab.WakeOnLan.WakeRouting

namespace MythLab.WakeOnLan

open Lib Dotnet Devices Discovery

/-- `UdpWakePacketTransport.SendAsync`, of the number of bytes the socket took. -/
def UdpWakePacketTransport.sendAsync (packet : List UInt8) (sent : Except Exn Nat) : Except Exn Unit := do
  let sent ← sent
  throwIf (sent ≠ packet.length) (.io "The complete wake packet could not be sent.")

namespace WakeOnLanService

/-- A device with wake enabled, in normal form, and its packet. -/
structure Prepared where
  device : Device
  packet : List UInt8
  deriving DecidableEq, Repr

/-- What is known before the first packet. -/
structure Plan extends Prepared where
  interfaces : List NamedInterface
  resolved : Option Str
  destination : WakeDestination
  deriving DecidableEq, Repr

inductive Happening where
  /-- `Task.Delay` is called. -/
  | delays (milliseconds : Int)
  | reports (progress : WakeProgress)
  | sends (destination : WakeDestination) (packet : List UInt8)
  /-- The transport has sent the packet. -/
  | sent
  deriving DecidableEq, Repr

/-- How the resolver answers: with addresses, a `SocketException`, or another one. -/
inductive Resolution where
  | addresses (texts : List Str)
  | socketError
  | throws (e : Exn)
  deriving DecidableEq, Repr

/-- Where a call is. `i` is the number of the next packet, or of the one that is being sent. -/
inductive Phase where
  /-- In `GetInterfacesAsync`. -/
  | listing (prepared : Prepared)
  /-- In `Dns.GetHostAddressesAsync`. -/
  | resolving (prepared : Prepared) (interfaces : List NamedInterface)
  /-- The resolver threw `OperationCanceledException`, and the filter has not run. -/
  | caught (prepared : Prepared) (interfaces : List NamedInterface)
  /-- At the head of the loop. -/
  | looping (plan : Plan) (i : Nat)
  | delaying (plan : Plan) (i : Nat)
  | sending (plan : Plan) (i : Nat)
  | returned (destination : WakeDestination) (packets : Int)
  | threw (e : Exn)
  deriving DecidableEq, Repr

structure State where
  phase : Phase
  cancelled : Bool := false
  history : List Happening := []
  deriving DecidableEq, Repr

inductive Event where
  | cancel
  | lists (answer : Except Exn (List NamedInterface))
  | resolves (answer : Resolution)
  | filtered
  /-- The head of the loop, up to the next await. -/
  | passes
  | delayEnds (completed : Bool)
  /-- The socket has taken so many bytes. -/
  | transports (sent : Except Exn Nat)
  deriving DecidableEq, Repr

def Phase.isOver : Phase → Bool
  | .returned .. | .threw _ => true
  | _ => false

def State.note (s : State) (phase : Phase) (happened : List Happening) : State :=
  { s with phase := phase, history := s.history ++ happened }

@[simp] theorem note_phase (s : State) (p : Phase) (h : List Happening) : (s.note p h).phase = p := rfl
@[simp] theorem note_cancelled (s : State) (p : Phase) (h : List Happening) : (s.note p h).cancelled = s.cancelled := rfl
@[simp] theorem note_history (s : State) (p : Phase) (h : List Happening) :
    (s.note p h).history = s.history ++ h := rfl

/-! ## The plan -/

def Plan.count (plan : Plan) : Int := plan.device.wake.packetCount * (plan.device.wake.retryCount + 1)

/-- The delay before the `i`-th packet. -/
def Plan.delay (plan : Plan) (i : Nat) : Int :=
  if (i : Int).tmod plan.device.wake.packetCount = 0 then plan.device.wake.retryDelayMilliseconds
  else plan.device.wake.delayMilliseconds

/-- The name of the interface that was chosen. -/
def Plan.interfaceName (plan : Plan) : Str :=
  ((plan.interfaces.find? fun n => n.toLocalNetworkInterface = plan.destination.interface).map (·.name)).getD []

def Plan.progress (plan : Plan) (i : Nat) : WakeProgress where
  state := .waking
  detail := str "Sending wake packet " ++ intText (i + 1) ++ str "/" ++ intText plan.count ++ str " to " ++
    plan.destination.broadcastAddress ++ str ":" ++ intText plan.destination.port ++ str " via " ++ plan.interfaceName ++
    str "."

/-- `WakeRouting.Select` and what follows it up to the loop. -/
def route (prepared : Prepared) (interfaces : List NamedInterface) (resolved : Option Str) : Phase :=
  match WakeRouting.select prepared.device (interfaces.map (·.toLocalNetworkInterface)) resolved with
  | .ok destination => .looping ⟨prepared, interfaces, resolved, destination⟩ 0
  | .error e => .threw e

/-- Whether the host name is resolved. -/
def resolves (device : Device) (interfaces : List NamedInterface) : Bool :=
  device.ipv4Address.length = 0 && device.hostname.length > 0 && interfaces.length > 1

/-! ## The machine -/

/-- What is checked before the first await. -/
def prepare (fw : Framework) (device : Device) : Except Exn Prepared := do
  let device ← DeviceRules.normalizeAndValidate fw device
  throwIf (device.wake.capability = .disabled) (.argument "Wake-on-LAN is disabled for this device.")
  let packet ← MagicPacket.create device.macAddress
  pure ⟨device, packet⟩

/-- `SendAsync` up to its first await. -/
def start (fw : Framework) (device : Device) : State :=
  match prepare fw device with
  | .ok prepared => { phase := .listing prepared }
  | .error e => { phase := .threw e }

def step (s : State) : Event → Option State
  | .cancel => if s.phase.isOver ∨ s.cancelled then none else some { s with cancelled := true }
  | .lists answer =>
    match s.phase, answer with
    | .listing prepared, .ok interfaces =>
      if resolves prepared.device interfaces then some { s with phase := .resolving prepared interfaces }
      else some { s with phase := route prepared interfaces none }
    | .listing _, .error e => some { s with phase := .threw e }
    | _, _ => none
  | .resolves answer =>
    match s.phase, answer with
    | .resolving prepared interfaces, .addresses texts => some { s with phase := route prepared interfaces texts.head? }
    | .resolving prepared interfaces, .socketError => some { s with phase := route prepared interfaces none }
    | .resolving prepared interfaces, .throws e =>
      if e = .operationCanceled then some { s with phase := .caught prepared interfaces }
      else some { s with phase := .threw e }
    | _, _ => none
  | .filtered =>
    match s.phase with
    | .caught prepared interfaces =>
      -- the lookup has a timeout of its own
      if s.cancelled then some { s with phase := .threw .operationCanceled }
      else some { s with phase := route prepared interfaces none }
    | _ => none
  | .passes =>
    match s.phase with
    | .looping plan i =>
      if (i : Int) < plan.count then
        if s.cancelled then some { s with phase := .threw .operationCanceled }
        else if i > 0 then some (s.note (.delaying plan i) [.delays (plan.delay i)])
        else some (s.note (.sending plan i) [.reports (plan.progress i), .sends plan.destination plan.packet])
      else some { s with phase := .returned plan.destination plan.count }
    | _ => none
  | .delayEnds completed =>
    match s.phase with
    | .delaying plan i =>
      if completed then
        some (s.note (.sending plan i) [.reports (plan.progress i), .sends plan.destination plan.packet])
      else if s.cancelled then some { s with phase := .threw .operationCanceled }
      else none
    | _ => none
  | .transports sent =>
    match s.phase with
    | .sending plan i =>
      match UdpWakePacketTransport.sendAsync plan.packet sent with
      | .ok () => some (s.note (.looping plan (i + 1)) [.sent])
      | .error e => some { s with phase := .threw e }
    | _ => none

def machine (fw : Framework) (device : Device) : Machine State Event := ⟨(· = start fw device), step⟩

/-! ## Rounds -/

/-- What is called for the `i`-th packet, after its delay. -/
def Plan.packetAt (plan : Plan) (i : Nat) : List Happening :=
  [.reports (plan.progress i), .sends plan.destination plan.packet, .sent]

/-- `n` packets from the `first` on, `DelayMilliseconds` apart. -/
def Plan.burst (plan : Plan) (first : Nat) : Nat → List Happening
  | 0 => []
  | 1 => plan.packetAt first
  | n + 2 => plan.burst first (n + 1) ++ .delays plan.device.wake.delayMilliseconds :: plan.packetAt (first + (n + 1))

/-- A first round of `size` packets and `n` more, `RetryDelayMilliseconds` apart. -/
def Plan.roundsOf (plan : Plan) (size : Nat) : Nat → List Happening
  | 0 => plan.burst 0 size
  | n + 1 => plan.roundsOf size n ++ .delays plan.device.wake.retryDelayMilliseconds :: plan.burst ((n + 1) * size) size

def Plan.rounds (plan : Plan) : List Happening :=
  plan.roundsOf plan.device.wake.packetCount.toNat plan.device.wake.retryCount.toNat

/-- The delay before the `i`-th packet, if it has one. -/
def Plan.gap (plan : Plan) (i : Nat) : List Happening := if i > 0 then [.delays (plan.delay i)] else []

/-- What the flat loop calls for its first `n` packets. -/
def Plan.schedule (plan : Plan) (n : Nat) : List Happening :=
  (List.range n).flatMap fun i => plan.gap i ++ plan.packetAt i

variable {plan : Plan} {n i : Nat}

theorem schedule_succ (plan : Plan) (n : Nat) :
    plan.schedule (n + 1) = plan.schedule n ++ (plan.gap n ++ plan.packetAt n) := by
  rw [Plan.schedule, List.range_succ, List.flatMap_append, List.flatMap_singleton]
  rfl

theorem schedule_starts {m : Nat} (h : n ≤ m) : plan.schedule n <+: plan.schedule m := by
  induction h with
  | refl => exact List.prefix_refl _
  | step _ ih =>
    rw [schedule_succ]
    exact ih.trans (List.prefix_append _ _)

/-- The remainder of a packet's number tells whether it opens a round. -/
theorem delay_eq {size : Nat} (hsize : plan.device.wake.packetCount = size) (i : Nat) :
    plan.delay i = if i % size = 0 then plan.device.wake.retryDelayMilliseconds else plan.device.wake.delayMilliseconds := by
  have hrem : (i : Int).tmod size = ((i % size : Nat) : Int) := by
    rw [Int.tmod_eq_emod_of_nonneg (Int.natCast_nonneg i), Int.natCast_emod]
  unfold Plan.delay
  rw [hsize, hrem]
  by_cases h : i % size = 0
  · rw [if_pos h, if_pos (by rw [h]; rfl)]
  · rw [if_neg h, if_neg (by omega)]

/-- From the start of a round on, the loop calls a burst. -/
theorem schedule_burst {size first m : Nat} (hsize : plan.device.wake.packetCount = size) (hfirst : size ∣ first)
    (hm : m + 1 ≤ size) :
    plan.schedule (first + (m + 1)) = plan.schedule first ++ (plan.gap first ++ plan.burst first (m + 1)) := by
  induction m with
  | zero => exact schedule_succ plan first
  | succ m ih =>
    have hrem : (first + (m + 1)) % size = m + 1 := by
      obtain ⟨k, rfl⟩ := hfirst
      rw [Nat.mul_add_mod_self_left, Nat.mod_eq_of_lt (by omega)]
    have hgap : plan.gap (first + (m + 1)) = [.delays plan.device.wake.delayMilliseconds] := by
      rw [Plan.gap, if_pos (by omega), delay_eq hsize, hrem, if_neg (by omega)]
    rw [← Nat.add_assoc first, schedule_succ, ih (by omega), hgap, Plan.burst]
    simp only [List.append_assoc, List.singleton_append]

/-- The flat loop calls the rounds. -/
theorem schedule_roundsOf {size : Nat} (hsize : plan.device.wake.packetCount = size) (hpos : 0 < size) (n : Nat) :
    plan.schedule ((n + 1) * size) = plan.roundsOf size n := by
  obtain ⟨m, rfl⟩ : ∃ m, size = m + 1 := ⟨size - 1, by omega⟩
  induction n with
  | zero =>
    have h := schedule_burst hsize (Nat.dvd_zero _) (Nat.le_refl (m + 1))
    rw [Nat.zero_add] at h
    rw [Nat.zero_add, Nat.one_mul, h]
    rfl
  | succ n ih =>
    have hgap : plan.gap ((n + 1) * (m + 1)) = [.delays plan.device.wake.retryDelayMilliseconds] := by
      rw [Plan.gap, if_pos (Nat.mul_pos (Nat.succ_pos n) (Nat.succ_pos m)), delay_eq hsize, Nat.mul_mod_left, if_pos rfl]
    rw [Nat.succ_mul, schedule_burst hsize (Nat.dvd_mul_left _ _) (Nat.le_refl (m + 1)), ih, hgap, Plan.roundsOf]
    rfl

/-! ## What a step does -/

/-- The lookup is over, or was not needed, and gave this address. -/
inductive Looked (s : State) : Event → Prepared → List NamedInterface → Option Str → Prop
  | notNeeded {prepared : Prepared} {interfaces : List NamedInterface} : s.phase = .listing prepared →
      resolves prepared.device interfaces = false → Looked s (.lists (.ok interfaces)) prepared interfaces none
  | answered {prepared : Prepared} {interfaces : List NamedInterface} (texts : List Str) :
      s.phase = .resolving prepared interfaces → Looked s (.resolves (.addresses texts)) prepared interfaces texts.head?
  | failed {prepared : Prepared} {interfaces : List NamedInterface} : s.phase = .resolving prepared interfaces →
      Looked s (.resolves .socketError) prepared interfaces none
  | timedOut {prepared : Prepared} {interfaces : List NamedInterface} : s.phase = .caught prepared interfaces →
      s.cancelled = false → Looked s .filtered prepared interfaces none

inductive Change (s : State) : Event → State → Prop
  | cancels : s.cancelled = false → Change s .cancel { s with cancelled := true }
  | lists {prepared : Prepared} {interfaces : List NamedInterface} : s.phase = .listing prepared →
      resolves prepared.device interfaces = true →
      Change s (.lists (.ok interfaces)) { s with phase := .resolving prepared interfaces }
  | catches {e : Event} {prepared : Prepared} {interfaces : List NamedInterface} :
      s.phase = .resolving prepared interfaces → Change s e { s with phase := .caught prepared interfaces }
  | routes {e : Event} {prepared : Prepared} {interfaces : List NamedInterface} {resolved : Option Str} :
      Looked s e prepared interfaces resolved → Change s e { s with phase := route prepared interfaces resolved }
  /-- Something threw, and nothing was called. -/
  | throws {e : Event} (ex : Exn) : Change s e { s with phase := .threw ex }
  | delays {plan : Plan} {i : Nat} : s.phase = .looping plan i → (i : Int) < plan.count → i > 0 → s.cancelled = false →
      Change s .passes (s.note (.delaying plan i) [.delays (plan.delay i)])
  | sendsFirst {plan : Plan} : s.phase = .looping plan 0 → 0 < plan.count → s.cancelled = false →
      Change s .passes (s.note (.sending plan 0) [.reports (plan.progress 0), .sends plan.destination plan.packet])
  | sendsNext {plan : Plan} {i : Nat} : s.phase = .delaying plan i → Change s (.delayEnds true)
      (s.note (.sending plan i) [.reports (plan.progress i), .sends plan.destination plan.packet])
  | sent {e : Event} {plan : Plan} {i : Nat} : s.phase = .sending plan i →
      Change s e (s.note (.looping plan (i + 1)) [.sent])
  | returns {plan : Plan} {i : Nat} : s.phase = .looping plan i → ¬ (i : Int) < plan.count →
      Change s .passes { s with phase := .returned plan.destination plan.count }

variable {s s' : State} {e : Event}

theorem step_change (he : step s e = some s') : Change s e s' := by
  cases e with
  | cancel =>
    simp only [step] at he
    split at he <;> cases he
    rename_i hno
    exact .cancels ((Bool.not_eq_true _).mp (not_or.mp hno).2)
  | lists answer =>
    simp only [step] at he
    split at he
    · split at he <;> cases he
      · exact .lists ‹_› ‹_›
      · rename_i hneeded
        exact .routes (.notNeeded ‹_› ((Bool.not_eq_true _).mp hneeded))
    · cases he
      exact .throws _
    · cases he
  | resolves answer =>
    simp only [step] at he
    split at he
    · cases he
      exact .routes (.answered _ ‹_›)
    · cases he
      exact .routes (.failed ‹_›)
    · split at he <;> cases he
      · exact .catches ‹_›
      · exact .throws _
    · cases he
  | filtered =>
    simp only [step] at he
    split at he
    · split at he <;> cases he
      · exact .throws _
      · rename_i hc
        exact .routes (.timedOut ‹_› ((Bool.not_eq_true _).mp hc))
    · cases he
  | passes =>
    simp only [step] at he
    split at he
    · rename_i plan i hp
      split at he
      · rename_i hlt
        split at he
        · cases he
          exact .throws _
        · rename_i hc
          split at he <;> cases he
          · exact .delays hp hlt ‹_› ((Bool.not_eq_true _).mp hc)
          · rename_i hzero
            obtain rfl : i = 0 := by omega
            exact .sendsFirst hp hlt ((Bool.not_eq_true _).mp hc)
      · cases he
        exact .returns hp ‹_›
    · cases he
  | delayEnds completed =>
    simp only [step] at he
    split at he
    · cases completed with
      | true =>
        cases he
        exact .sendsNext ‹_›
      | false =>
        rw [if_neg Bool.false_ne_true] at he
        split at he <;> cases he
        exact .throws _
    · cases he
  | transports sent =>
    simp only [step] at he
    split at he
    · split at he <;> cases he
      · exact .sent ‹_›
      · exact .throws _
    · cases he

/-! ## What a call can have done -/

abbrev Log := List (State × Event)

variable {fw : Framework} {device : Device} {log log' : Log}

/-- The probe listed these interfaces. -/
def WereListed (log : Log) (interfaces : List NamedInterface) : Prop := ∃ s, (s, Event.lists (.ok interfaces)) ∈ log

/-- The address that the routing is given: the first one of the answer; none where the name need not be
    resolved, the resolver failed, or its own timeout ended it. -/
inductive Resolved (log : Log) (device : Device) (interfaces : List NamedInterface) : Option Str → Prop
  | notNeeded : resolves device interfaces = false → Resolved log device interfaces none
  | answered {s : State} {texts : List Str} : resolves device interfaces = true →
      (s, .resolves (.addresses texts)) ∈ log → Resolved log device interfaces texts.head?
  | failed {s : State} : resolves device interfaces = true → (s, .resolves .socketError) ∈ log →
      Resolved log device interfaces none
  | timedOut {s : State} : resolves device interfaces = true → (s, .filtered) ∈ log → s.cancelled = false →
      Resolved log device interfaces none

theorem Resolved.mono {interfaces : List NamedInterface} {resolved : Option Str}
    (h : Resolved log device interfaces resolved) (hlog : ∀ p ∈ log, p ∈ log') :
    Resolved log' device interfaces resolved := by
  cases h with
  | notNeeded hneeded => exact .notNeeded hneeded
  | answered hneeded hs => exact .answered hneeded (hlog _ hs)
  | failed hneeded hs => exact .failed hneeded (hlog _ hs)
  | timedOut hneeded hs hc => exact .timedOut hneeded (hlog _ hs) hc

/-- The plan was made of the device and of what was answered. -/
structure Planned (fw : Framework) (device : Device) (log : Log) (plan : Plan) : Prop where
  prepared : prepare fw device = .ok plan.toPrepared
  listed : WereListed log plan.interfaces
  resolved : Resolved log plan.device plan.interfaces plan.resolved
  routed : WakeRouting.select plan.device (plan.interfaces.map (·.toLocalNetworkInterface)) plan.resolved =
    .ok plan.destination

theorem Planned.mono (h : Planned fw device log plan) (hlog : ∀ p ∈ log, p ∈ log') : Planned fw device log' plan := by
  obtain ⟨s, hs⟩ := h.listed
  exact ⟨h.prepared, ⟨s, hlog _ hs⟩, h.resolved.mono hlog, h.routed⟩

/-- What a call has called, where it is in a phase. -/
inductive Story (fw : Framework) (device : Device) (log : Log) : Phase → List Happening → Prop
  | early (e : Exn) : Story fw device log (.threw e) []
  | listing {prepared : Prepared} : prepare fw device = .ok prepared → Story fw device log (.listing prepared) []
  | resolving {prepared : Prepared} {interfaces : List NamedInterface} : prepare fw device = .ok prepared →
      WereListed log interfaces → resolves prepared.device interfaces = true →
      Story fw device log (.resolving prepared interfaces) []
  | caught {prepared : Prepared} {interfaces : List NamedInterface} : prepare fw device = .ok prepared →
      WereListed log interfaces → resolves prepared.device interfaces = true →
      Story fw device log (.caught prepared interfaces) []
  | looping {plan : Plan} {i : Nat} : Planned fw device log plan → (i : Int) ≤ plan.count →
      Story fw device log (.looping plan i) (plan.schedule i)
  | delaying {plan : Plan} {i : Nat} : Planned fw device log plan → (i : Int) < plan.count → i > 0 →
      Story fw device log (.delaying plan i) (plan.schedule i ++ [.delays (plan.delay i)])
  | sending {plan : Plan} {i : Nat} : Planned fw device log plan → (i : Int) < plan.count →
      Story fw device log (.sending plan i)
        (plan.schedule i ++ (plan.gap i ++ [.reports (plan.progress i), .sends plan.destination plan.packet]))
  | returned {plan : Plan} : Planned fw device log plan →
      Story fw device log (.returned plan.destination plan.count) (plan.schedule plan.count.toNat)
  | threw {plan : Plan} {h : List Happening} (e : Exn) : Planned fw device log plan →
      h <+: plan.schedule plan.count.toNat → Story fw device log (.threw e) h

variable {p : Phase} {h : List Happening}

theorem Story.mono (hs : Story fw device log p h) (hlog : ∀ q ∈ log, q ∈ log') : Story fw device log' p h := by
  have hlisted {interfaces : List NamedInterface} : WereListed log interfaces → WereListed log' interfaces :=
    fun ⟨s, hs⟩ => ⟨s, hlog _ hs⟩
  cases hs with
  | early e => exact .early e
  | listing hp => exact .listing hp
  | resolving hp hl hr => exact .resolving hp (hlisted hl) hr
  | caught hp hl hr => exact .caught hp (hlisted hl) hr
  | looping hp hi => exact .looping (hp.mono hlog) hi
  | delaying hp hi hpos => exact .delaying (hp.mono hlog) hi hpos
  | sending hp hi => exact .sending (hp.mono hlog) hi
  | returned hp => exact .returned (hp.mono hlog)
  | threw e hp hprefix => exact .threw e (hp.mono hlog) hprefix

/-- What is called for a packet is a part of the schedule. -/
theorem packet_prefix {part : List Happening} (hi : (i : Int) < plan.count)
    (hpart : part <+: plan.gap i ++ plan.packetAt i) : plan.schedule i ++ part <+: plan.schedule plan.count.toNat := by
  have hnext := @schedule_starts plan (i + 1) plan.count.toNat (by omega)
  rw [schedule_succ] at hnext
  exact ((List.prefix_append_right_inj _).mpr hpart).trans hnext

/-- Nothing has been called yet, or a beginning of the schedule of a plan. -/
theorem Story.begins (hs : Story fw device log p h) :
    h = [] ∨ ∃ plan, Planned fw device log plan ∧ h <+: plan.schedule plan.count.toNat := by
  cases hs with
  | early | listing | resolving | caught => exact Or.inl rfl
  | looping hp hi => exact Or.inr ⟨_, hp, schedule_starts (by omega)⟩
  | @delaying plan i hp hi hpos =>
    refine Or.inr ⟨plan, hp, packet_prefix hi ?_⟩
    rw [Plan.gap, if_pos hpos]
    exact List.prefix_append _ _
  | @sending plan i hp hi =>
    refine Or.inr ⟨plan, hp, packet_prefix hi ((List.prefix_append_right_inj _).mpr ?_)⟩
    exact ⟨[.sent], rfl⟩
  | returned hp => exact Or.inr ⟨_, hp, List.prefix_refl _⟩
  | threw e hp hprefix => exact Or.inr ⟨_, hp, hprefix⟩

theorem Story.throws (hs : Story fw device log p h) (e : Exn) : Story fw device log (.threw e) h := by
  rcases hs.begins with rfl | ⟨plan, hp, hprefix⟩
  · exact .early e
  · exact .threw e hp hprefix

theorem Story.of_listing {prepared : Prepared} (hs : Story fw device log (.listing prepared) h) :
    h = [] ∧ prepare fw device = .ok prepared := by
  cases hs with
  | listing hp => exact ⟨rfl, hp⟩

theorem Story.of_resolving {prepared : Prepared} {interfaces : List NamedInterface}
    (hs : Story fw device log (.resolving prepared interfaces) h) : h = [] ∧ prepare fw device = .ok prepared ∧
      WereListed log interfaces ∧ resolves prepared.device interfaces = true := by
  cases hs with
  | resolving hp hl hr => exact ⟨rfl, hp, hl, hr⟩

theorem Story.of_caught {prepared : Prepared} {interfaces : List NamedInterface}
    (hs : Story fw device log (.caught prepared interfaces) h) : h = [] ∧ prepare fw device = .ok prepared ∧
      WereListed log interfaces ∧ resolves prepared.device interfaces = true := by
  cases hs with
  | caught hp hl hr => exact ⟨rfl, hp, hl, hr⟩

theorem Story.of_looping (hs : Story fw device log (.looping plan i) h) : h = plan.schedule i ∧
    Planned fw device log plan ∧ (i : Int) ≤ plan.count := by
  cases hs with
  | looping hp hi => exact ⟨rfl, hp, hi⟩

theorem Story.of_delaying (hs : Story fw device log (.delaying plan i) h) :
    h = plan.schedule i ++ [.delays (plan.delay i)] ∧ Planned fw device log plan ∧ (i : Int) < plan.count ∧ i > 0 := by
  cases hs with
  | delaying hp hi hpos => exact ⟨rfl, hp, hi, hpos⟩

theorem Story.of_sending (hs : Story fw device log (.sending plan i) h) :
    h = plan.schedule i ++ (plan.gap i ++ [.reports (plan.progress i), .sends plan.destination plan.packet]) ∧
      Planned fw device log plan ∧ (i : Int) < plan.count := by
  cases hs with
  | sending hp hi => exact ⟨rfl, hp, hi⟩

theorem prepare_ok {prepared : Prepared} (hp : prepare fw device = .ok prepared) :
    DeviceRules.normalizeAndValidate fw device = .ok prepared.device ∧ prepared.device.wake.capability ≠ .disabled ∧
      MagicPacket.create prepared.device.macAddress = .ok prepared.packet := by
  obtain ⟨normal, hnormal, hp⟩ := bind_ok_iff.mp hp
  obtain ⟨henabled, hp⟩ := throwIf_bind_ok_iff.mp hp
  obtain ⟨packet, hpacket, hp⟩ := bind_ok_iff.mp hp
  cases hp
  exact ⟨hnormal, henabled, hpacket⟩

/-- A plan has between one and sixty packets, in rounds that have one at least. -/
theorem Planned.sizes (hp : Planned fw device log plan) : 1 ≤ plan.device.wake.packetCount ∧
    0 ≤ plan.device.wake.retryCount ∧ 1 ≤ plan.count ∧ plan.count ≤ 60 := by
  obtain ⟨ip, mac, broadcast, haccepted, heq⟩ :=
    DeviceRules.normalizeAndValidate_ok_iff.mp (prepare_ok hp.prepared).1
  obtain ⟨⟨hpackets, hpackets'⟩, ⟨hretries, hretries'⟩, -⟩ := haccepted.packets
  have hcount : plan.count = device.wake.packetCount * (device.wake.retryCount + 1) := by
    unfold Plan.count
    rw [heq]
    rfl
  have hlow : 1 * 1 ≤ device.wake.packetCount * (device.wake.retryCount + 1) :=
    Int.mul_le_mul hpackets (by omega) (by omega) (by omega)
  have hhigh : device.wake.packetCount * (device.wake.retryCount + 1) ≤ 10 * 6 :=
    Int.mul_le_mul hpackets' (by omega) (by omega) (by omega)
  rw [hcount, heq]
  exact ⟨hpackets, hretries, by omega, by omega⟩

/-- The whole schedule is the rounds. -/
theorem Planned.rounds (hp : Planned fw device log plan) : plan.schedule plan.count.toNat = plan.rounds := by
  obtain ⟨hpackets, hretries, -, -⟩ := hp.sizes
  have hsize : plan.device.wake.packetCount = (plan.device.wake.packetCount.toNat : Int) := by omega
  have hcount : plan.count.toNat = (plan.device.wake.retryCount.toNat + 1) * plan.device.wake.packetCount.toNat := by
    rw [Plan.count, Int.mul_comm, Int.toNat_mul (by omega) (by omega)]
    congr 1
    omega
  rw [hcount]
  exact schedule_roundsOf hsize (by omega) _

theorem start_story : Story fw device log (start fw device).phase (start fw device).history := by
  unfold start
  split
  · exact .listing ‹_›
  · exact .early _

theorem looked_story {prepared : Prepared} {interfaces : List NamedInterface} {resolved : Option Str}
    (hlooked : Looked s e prepared interfaces resolved) (hs : Story fw device log s.phase s.history) :
    Story fw device (log ++ [(s, e)]) (route prepared interfaces resolved) s.history := by
  have hlast : (s, e) ∈ log ++ [(s, e)] := List.mem_append_right _ (List.mem_singleton_self _)
  have hroute (hh : s.history = []) (hp : prepare fw device = .ok prepared) (hl : WereListed (log ++ [(s, e)]) interfaces)
      (hr : Resolved (log ++ [(s, e)]) prepared.device interfaces resolved) :
      Story fw device (log ++ [(s, e)]) (route prepared interfaces resolved) s.history := by
    unfold route
    rw [hh]
    split
    · rename_i destination hselect
      have hplan : Planned fw device (log ++ [(s, e)]) ⟨prepared, interfaces, resolved, destination⟩ :=
        ⟨hp, hl, hr, hselect⟩
      exact .looping hplan (by have := hplan.sizes; omega)
    · exact .early _
  cases hlooked with
  | notNeeded hphase hneeded =>
    obtain ⟨hh, hp⟩ := (hphase ▸ hs).of_listing
    exact hroute hh hp ⟨s, hlast⟩ (.notNeeded hneeded)
  | answered texts hphase =>
    obtain ⟨hh, hp, ⟨t, ht⟩, hr⟩ := (hphase ▸ hs).of_resolving
    exact hroute hh hp ⟨t, List.mem_append_left _ ht⟩ (.answered hr hlast)
  | failed hphase =>
    obtain ⟨hh, hp, ⟨t, ht⟩, hr⟩ := (hphase ▸ hs).of_resolving
    exact hroute hh hp ⟨t, List.mem_append_left _ ht⟩ (.failed hr hlast)
  | timedOut hphase hc =>
    obtain ⟨hh, hp, ⟨t, ht⟩, hr⟩ := (hphase ▸ hs).of_caught
    exact hroute hh hp ⟨t, List.mem_append_left _ ht⟩ (.timedOut hr hlast hc)

theorem step_story (hs : Story fw device log s.phase s.history) (he : step s e = some s') :
    Story fw device (log ++ [(s, e)]) s'.phase s'.history := by
  have hmono {p : Phase} {h : List Happening} (hs : Story fw device log p h) : Story fw device (log ++ [(s, e)]) p h :=
    hs.mono fun _ hq => List.mem_append_left _ hq
  cases step_change he with
  | cancels => exact hmono hs
  | lists hphase hneeded =>
    obtain ⟨hh, hp⟩ := (hphase ▸ hs).of_listing
    rw [hh]
    exact .resolving hp ⟨s, List.mem_append_right _ (List.mem_singleton_self _)⟩ hneeded
  | catches hphase =>
    obtain ⟨hh, hp, ⟨t, ht⟩, hr⟩ := (hphase ▸ hs).of_resolving
    rw [hh]
    exact .caught hp ⟨t, List.mem_append_left _ ht⟩ hr
  | routes hlooked => exact looked_story hlooked hs
  | throws ex => exact hmono (hs.throws ex)
  | delays hphase hlt hpos hc =>
    obtain ⟨hh, hp, -⟩ := (hphase ▸ hs).of_looping
    rw [note_history, hh]
    exact hmono (.delaying hp hlt hpos)
  | sendsFirst hphase hlt hc =>
    obtain ⟨hh, hp, -⟩ := (hphase ▸ hs).of_looping
    rw [note_history, hh]
    exact hmono (.sending hp hlt)
  | @sendsNext plan i hphase =>
    obtain ⟨hh, hp, hlt, hpos⟩ := (hphase ▸ hs).of_delaying
    have hgap : plan.gap i = [.delays (plan.delay i)] := if_pos hpos
    rw [note_history, hh, List.append_assoc, ← hgap]
    exact hmono (.sending hp hlt)
  | @sent e plan i hphase =>
    obtain ⟨hh, hp, hlt⟩ := (hphase ▸ hs).of_sending
    have hnext : s.history ++ [.sent] = plan.schedule (i + 1) := by
      rw [hh, schedule_succ, List.append_assoc, List.append_assoc]
      rfl
    rw [note_history, hnext]
    exact hmono (.looping hp (by omega))
  | @returns plan i hphase hge =>
    obtain ⟨hh, hp, hle⟩ := (hphase ▸ hs).of_looping
    have hi : i = plan.count.toNat := by omega
    rw [hh, hi]
    exact hmono (.returned hp)

theorem runs_story (hr : (machine fw device).Runs log s) : Story fw device log s.phase s.history := by
  refine hr.log_inv (I := fun log s => Story fw device log s.phase s.history) ?_ fun _ _ _ _ _ hs he => step_story hs he
  intro s hs
  cases hs
  exact start_story

/-! ## Packets -/

def Happening.isPacket : Happening → Bool
  | .sends _ _ => true
  | _ => false

/-- How many packets were started. -/
def packets (h : List Happening) : Nat := h.countP Happening.isPacket

theorem packets_append (h k : List Happening) : packets (h ++ k) = packets h + packets k := List.countP_append

theorem packets_schedule (plan : Plan) (n : Nat) : packets (plan.schedule n) = n := by
  induction n with
  | zero => rfl
  | succ n ih =>
    have hgap : packets (plan.gap n) = 0 := by
      unfold Plan.gap
      split
      · rfl
      · rfl
    rw [schedule_succ, packets_append, packets_append, ih, hgap]
    rfl

/-- A call that returned has sent the packets of a plan, all of them. -/
theorem Story.of_returned {destination : WakeDestination} {count : Int}
    (hs : Story fw device log (.returned destination count) h) : ∃ plan, Planned fw device log plan ∧ h = plan.rounds ∧
      destination = plan.destination ∧ count = plan.count ∧ count = packets h := by
  cases hs with
  | @returned plan hp =>
    have hsizes := hp.sizes
    exact ⟨plan, hp, hp.rounds, rfl, rfl, by rw [packets_schedule]; omega⟩

/-- In every run: what was called is a beginning of the rounds of a plan, and at most sixty packets; a
    call that returns has sent the whole of it. -/
theorem packets_go_in_rounds (hr : (machine fw device).Runs log s) :
    (s.history = [] ∨ ∃ plan, Planned fw device log plan ∧ s.history <+: plan.rounds) ∧ packets s.history ≤ 60 ∧
      ∀ destination count, s.phase = .returned destination count → ∃ plan, Planned fw device log plan ∧
        s.history = plan.rounds ∧ destination = plan.destination ∧ count = plan.count ∧ count = packets s.history := by
  have hs := runs_story hr
  refine ⟨?_, ?_, ?_⟩
  · rcases hs.begins with h | ⟨plan, hp, hprefix⟩
    · exact Or.inl h
    · exact Or.inr ⟨plan, hp, hp.rounds ▸ hprefix⟩
  · rcases hs.begins with h | ⟨plan, hp, hprefix⟩
    · rw [h]
      exact Nat.zero_le _
    · have hle : packets s.history ≤ packets (plan.schedule plan.count.toNat) := hprefix.sublist.countP_le
      have hsizes := hp.sizes
      rw [packets_schedule] at hle
      omega
  · intro destination count hphase
    exact (hphase ▸ hs).of_returned

/-- A packet that a delay still holds back. -/
def Phase.held : Phase → Nat
  | .delaying _ _ => 1
  | _ => 0

theorem route_held (prepared : Prepared) (interfaces : List NamedInterface) (resolved : Option Str) :
    (route prepared interfaces resolved).held = 0 := by
  unfold route
  split
  · rfl
  · rfl

/-- Once the token is cancelled no step adds to the packets that were started or are held back. -/
theorem step_after_cancel (hc : s.cancelled = true) (he : step s e = some s') : s'.cancelled = true ∧
    packets s'.history + s'.phase.held ≤ packets s.history + s.phase.held := by
  cases step_change he with
  | cancels hno => exact absurd hc (by simp [hno])
  | lists hphase | catches hphase => exact ⟨hc, Nat.add_le_add_left (Nat.zero_le _) _⟩
  | routes =>
    refine ⟨hc, ?_⟩
    rw [route_held]
    exact Nat.add_le_add_left (Nat.zero_le _) _
  | throws ex => exact ⟨hc, Nat.add_le_add_left (Nat.zero_le _) _⟩
  | delays _ _ _ hno => exact absurd hc (by simp [hno])
  | sendsFirst _ _ hno => exact absurd hc (by simp [hno])
  | sendsNext hphase =>
    refine ⟨hc, ?_⟩
    rw [note_history, packets_append, hphase]
    exact Nat.le_refl _
  | sent hphase =>
    refine ⟨hc, ?_⟩
    rw [note_history, packets_append]
    exact Nat.add_le_add_left (Nat.zero_le _) _
  | returns => exact ⟨hc, Nat.add_le_add_left (Nat.zero_le _) _⟩

/-- After the token is cancelled, at most one packet more is started. -/
theorem cancelled_send_stops (hr : (machine fw device).Runs log s) {t : State} (ht : (t, e) ∈ log)
    (hc : t.cancelled = true) : s.cancelled = true ∧ packets s.history ≤ packets t.history + 1 := by
  have hbound : s.cancelled = true ∧ packets s.history + s.phase.held ≤ packets t.history + t.phase.held := by
    induction hr with
    | init => cases ht
    | step e' _ hs' ih =>
      rcases List.mem_append.mp ht with ht | ht
      · obtain ⟨hcancelled, hle⟩ := ih ht
        obtain ⟨hcancelled', hle'⟩ := step_after_cancel hcancelled hs'
        exact ⟨hcancelled', Nat.le_trans hle' hle⟩
      · obtain ⟨rfl, -⟩ := Prod.mk.inj (List.mem_singleton.mp ht)
        exact step_after_cancel hc hs'
  have hheld : t.phase.held ≤ 1 := by
    cases t.phase with
    | delaying => exact Nat.le_refl 1
    | _ => exact Nat.zero_le 1
  exact ⟨hbound.1, by omega⟩

/-! ## A call -/

def pc : Device := MagicPacket.desktop (str "02:11:22:33:44:5F")

def twoInterfaces : List NamedInterface :=
  [{ id := str "a", index := 2, address := str "10.0.0.9", mask := str "255.255.255.0", macAddress := [], name := str "Ethernet" },
   { id := str "b", index := 7, address := str "192.168.1.5", mask := str "255.255.255.0", macAddress := [], name := str "Wi-Fi" }]

/-- The host name is resolved, and two rounds of three packets are sent. -/
def sixPackets : List Event :=
  [.lists (.ok twoInterfaces), .resolves (.addresses [str "192.168.1.20"]), .passes, .transports (.ok 102)] ++
    (List.replicate 5 [Event.passes, .delayEnds true, .transports (.ok 102)]).flatten ++ [.passes]

theorem six_packets_sent : ∃ log s destination, (machine Framework.ascii pc).Runs log s ∧ s.phase = .returned destination 6 ∧
    (s.history = [] ∨ ∃ plan, Planned Framework.ascii pc log plan ∧ s.history <+: plan.rounds) ∧ packets s.history ≤ 60 ∧
      ∀ destination count, s.phase = .returned destination count → ∃ plan, Planned Framework.ascii pc log plan ∧
        s.history = plan.rounds ∧ destination = plan.destination ∧ count = plan.count ∧ count = packets s.history := by
  obtain ⟨log, s, hruns, -, hp⟩ := (machine Framework.ascii pc).exists_run_by
    (fun _ s => s.phase == .returned ⟨⟨str "b", 7, str "192.168.1.5", str "255.255.255.0", []⟩, str "192.168.1.255", 9⟩ 6)
    sixPackets rfl (by decide +kernel)
  exact ⟨log, s, _, hruns, eq_of_beq hp, packets_go_in_rounds hruns⟩

/-- The token is cancelled during a delay, and the delay had just run out. -/
def lateCancel : List Event :=
  [.lists (.ok twoInterfaces), .resolves (.addresses [str "192.168.1.20"]), .passes, .transports (.ok 102), .passes,
    .cancel, .delayEnds true, .transports (.ok 102), .passes]

theorem late_cancel_stops : ∃ log s t e, (machine Framework.ascii pc).Runs log s ∧ (t, e) ∈ log ∧
    packets t.history = 1 ∧ packets s.history = 2 ∧ s.cancelled = true ∧ packets s.history ≤ packets t.history + 1 := by
  obtain ⟨log, s, hruns, -, hp⟩ := (machine Framework.ascii pc).exists_run_by
    (fun log s => log.any (fun q => q.1.cancelled && packets q.1.history == 1) && packets s.history == 2) lateCancel rfl
    (by decide +kernel)
  obtain ⟨hlog, hs⟩ := Bool.and_eq_true_iff.mp hp
  obtain ⟨⟨t, e⟩, ht, hq⟩ := List.any_eq_true.mp hlog
  obtain ⟨hc, hone⟩ := Bool.and_eq_true_iff.mp hq
  exact ⟨log, s, t, e, hruns, ht, eq_of_beq hone, eq_of_beq hs, cancelled_send_stops hruns ht hc⟩

end WakeOnLanService

end MythLab.WakeOnLan
