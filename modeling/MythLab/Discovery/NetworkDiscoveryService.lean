/-
  MythLab.Discovery.NetworkDiscoveryService — `ScanAsync`: a read of the neighbour cache,
  one worker for each address of the range, and a second read of the cache.

  The workers take the addresses in order, at most `concurrency` at a time, and share the
  results. A step is what one of them does between two awaits or two operations on the
  results (`go`, with what it did); the token may be cancelled and a probe may throw at
  any await. `beginScan` is the scan up to its first report.
-/
import MythLab.Lib.Machine
import MythLab.Lib.Table
import MythLab.Lib.Indexed
import MythLab.Discovery.DiscoveryModels

namespace MythLab.Discovery.NetworkDiscoveryService

open Lib Dotnet Devices

/-! ## The scan -/

/-- What a scan goes by. -/
structure Scan where
  interface : LocalNetworkInterface
  range : AddressRange
  concurrency : Nat
  /-- `IMacVendorLookup`, if there is one. -/
  vendorLookup : Option (Str → Option Str)

def beginScan (vendorLookup : Option (Str → Option Str)) (request : DiscoveryRequest)
    (current : List LocalNetworkInterface) : Except Exn Scan := do
  let range ← request.validate
  throwIf (¬ current.any fun i => i.id = request.interface.id ∧ i.index = request.interface.index ∧
      i.address = request.interface.address ∧ i.mask = request.interface.mask)
    (.invalidOperation "The selected network changed. Refresh interfaces and select it again.")
  pure ⟨request.interface, range, request.concurrency.toNat, vendorLookup⟩

/-- `vendorLookup?.FindVendor(mac) ?? ""` -/
def Scan.vendor (scan : Scan) (mac : Str) : Str := (scan.vendorLookup.bind (· mac)).getD []

/-- The address at an offset of the range. -/
def Scan.address (scan : Scan) (offset : Nat) : Str := Ipv4Subnet.format (scan.range.first + UInt32.ofNat offset)

def isUsableMac (value : Str) : Bool :=
  if isNullOrWhiteSpace value then false
  else
    match MacAddress.normalize value with
    | .ok mac =>
      let bytes := fromHexString (mac.filter (· != chr ':'))
      bytes.headD 0 &&& 1 = 0 ∧ bytes.any (· ≠ 0)
    | .error _ => false

/-- What a neighbour entry comes to. -/
inductive Neighbor where
  | skipped
  /-- Its address does not parse. -/
  | malformed
  | usable (device : DiscoveredDevice)
  deriving DecidableEq, Repr

def Scan.neighbor (scan : Scan) (entry : NeighborEntry) : Neighbor :=
  if entry.interfaceIndex ≠ scan.interface.index ∨ isUsableMac entry.macAddress = false then .skipped
  else
    match Ipv4Subnet.parse entry.address with
    | .error _ => .malformed
    | .ok ip =>
      if ip < scan.range.first ∨ ip > scan.range.last then .skipped
      else .usable
        { address := entry.address
          macAddress := entry.macAddress
          evidence := { neighborCache := true }
          vendor := scan.vendor entry.macAddress }

/-- `ConcurrentDictionary<string, DiscoveredDevice>` -/
abbrev Results := Table DiscoveredDevice.address

/-- The record that publishing `device` stores. -/
def published (results : Results) (device : DiscoveredDevice) : DiscoveredDevice :=
  match results.find device.address with
  | some old => DiscoveredDevice.merge device old
  | none => device

/-- `results.AddOrUpdate` -/
def addOrUpdate (results : Results) (device : DiscoveredDevice) : Results := results.upsert (published results device)

/-! ## The worker of an address -/

/-- A worker between two awaits or operations on the results. -/
inductive Worker where
  | pinging
  /-- Before `results.TryGetValue(address, out var cachedMac)`. -/
  | lookingUp (evidence : Evidence) (live : Option DateTimeOffset)
  | resolving (evidence : Evidence) (live : Option DateTimeOffset)
  /-- Before `results.TryGetValue(address, out var cached)`. -/
  | gathering (evidence : Evidence) (mac : Option Str) (live : Option DateTimeOffset)
  /-- At `Publish`; `named` at the second one. -/
  | publishing (named : Bool) (device : DiscoveredDevice)
  /-- In `Publish`, past the check of the token. -/
  | storing (named : Bool) (device : DiscoveredDevice)
  | naming (device : DiscoveredDevice)
  | reporting
  | ended
  | threw
  deriving DecidableEq, Repr

def Worker.isActive : Worker → Bool
  | .ended | .threw => false
  | _ => true

/-- The worker of an address up to its first await. -/
def Scan.start (scan : Scan) (address : Str) (now : DateTimeOffset) : Worker :=
  if address = scan.interface.address then
    .gathering { localInterface := true } (some scan.interface.macAddress) (some now)
  else .pinging

def afterPing (reply : Bool) (now : DateTimeOffset) : Worker :=
  if reply then .lookingUp { pingReply := true } (some now) else .lookingUp .none none

/-- `cached` is what `TryGetValue` found. -/
def lookUp (evidence : Evidence) (live : Option DateTimeOffset) (cached : Option DiscoveredDevice) : Worker :=
  match cached with
  | some cached =>
    if isUsableMac cached.macAddress then .gathering evidence (some cached.macAddress) live
    else .resolving evidence live
  | none => .resolving evidence live

/-- `!string.IsNullOrEmpty(mac)` -/
def isAnswer (mac : Option Str) : Bool := (mac.getD []).length > 0

def afterResolve (evidence : Evidence) (live : Option DateTimeOffset) (mac : Option Str) : Worker :=
  .gathering (if isAnswer mac then evidence.union { arpResolution := true } else evidence) mac live

/-- `evidence |= cached.Evidence` -/
def gathered (evidence : Evidence) (cached : Option DiscoveredDevice) : Evidence :=
  match cached with
  | some cached => evidence.union cached.evidence
  | none => evidence

/-- The record of what a worker found. -/
def Scan.device (scan : Scan) (address : Str) (evidence : Evidence) (mac : Option Str) (live : Option DateTimeOffset) :
    DiscoveredDevice where
  address := address
  macAddress := mac.getD []
  evidence := evidence
  lastLiveObservationAt := live
  vendor := (mac.map scan.vendor).getD []

def Scan.gather (scan : Scan) (address : Str) (evidence : Evidence) (mac : Option Str) (live : Option DateTimeOffset)
    (cached : Option DiscoveredDevice) : Worker :=
  if gathered evidence cached ≠ .none then
    .publishing false (scan.device address (gathered evidence cached) (mac.or (cached.map (·.macAddress))) live)
  else .reporting

/-- Where a worker goes on after `Publish`. -/
def afterPublish (named : Bool) (device : DiscoveredDevice) : Worker := if named then .reporting else .naming device

def afterName (device : DiscoveredDevice) (name : Option Str) : Worker :=
  if isNullOrWhiteSpace (name.getD []) then .reporting
  else .publishing true { device with hostname := name.getD [] }

/-! ## The machine -/

inductive Phase where
  /-- `ReadNeighborsAsync` runs; `final` the second time. -/
  | reading (final : Bool)
  | merging (final : Bool) (entries : List NeighborEntry)
  /-- In `Publish` of a neighbour, past the check of the token. -/
  | storing (final : Bool) (entry : NeighborEntry) (device : DiscoveredDevice) (entries : List NeighborEntry)
  /-- `Parallel.ForEachAsync` runs. -/
  | working
  | returned (scanned found : Nat)
  | threw
  deriving DecidableEq, Repr

structure State where
  phase : Phase
  results : Results
  /-- The workers of the addresses taken so far, in order. -/
  workers : List Worker
  completed : Nat
  cancelled : Bool

inductive Event where
  | cancel
  | neighborsReturn (entries : List NeighborEntry)
  | neighborsThrow (isCancellation : Bool)
  /-- The next neighbour entry. -/
  | merge
  /-- The neighbour past the check is stored. -/
  | storeNeighbor
  /-- The next address is taken. -/
  | take (now : DateTimeOffset)
  | pingReturns (offset : Nat) (reply : Bool) (now : DateTimeOffset)
  | lookUp (offset : Nat)
  | resolveReturns (offset : Nat) (mac : Option Str)
  | gather (offset : Nat)
  | check (offset : Nat)
  | store (offset : Nat)
  | nameReturns (offset : Nat) (name : Option Str)
  | report (offset : Nat)
  | throws (offset : Nat)
  /-- `Parallel.ForEachAsync` completes. -/
  | join
  deriving DecidableEq, Repr

/-- What a step did. -/
inductive Action where
  /-- `Publish` reported this record, on account of this neighbour entry if of one. -/
  | published (entry : Option NeighborEntry) (device : DiscoveredDevice)
  /-- The ping of this address returned. -/
  | pinged (address : Str) (reply : Bool)
  /-- ARP was asked for this address. -/
  | resolving (address : Str)
  deriving DecidableEq, Repr

/-- After `MergeNeighbors`. -/
def State.merged (s : State) (final : Bool) : State :=
  { s with phase := if final then .returned s.completed s.results.rows.length else .working }

def State.setWorker (s : State) (offset : Nat) (w : Worker) : State :=
  { s with workers := s.workers.set offset w }

/-- `MergeNeighbors` between its awaits and its operations. -/
def goMerge (scan : Scan) (s : State) : Event → Option (List Action × State)
  | .neighborsReturn entries =>
    match s.phase with
    | .reading final => some ([], { s with phase := .merging final entries })
    | _ => none
  | .neighborsThrow isCancellation =>
    match s.phase with
    | .reading final =>
      some ([], if isCancellation ∧ s.cancelled then { s with phase := .threw } else s.merged final)
    | _ => none
  | .merge =>
    match s.phase with
    | .merging final [] => some ([], s.merged final)
    | .merging final (entry :: entries) =>
      match scan.neighbor entry with
      | .skipped => some ([], { s with phase := .merging final entries })
      | .malformed => some ([], s.merged final)
      | .usable device =>
        if s.cancelled then some ([], { s with phase := .merging final entries })
        else some ([], { s with phase := .storing final entry device entries })
    | _ => none
  | .storeNeighbor =>
    match s.phase with
    | .storing final entry device entries =>
      some ([.published (some entry) (published s.results device)],
        { s with phase := .merging final entries, results := addOrUpdate s.results device })
    | _ => none
  | _ => none

/-- The worker of an offset, between its awaits and its operations. -/
def goWorker (scan : Scan) (s : State) (offset : Nat) (w : Worker) : Event → Option (List Action × State)
  | .pingReturns _ reply now =>
    match w with
    | .pinging => some ([.pinged (scan.address offset) reply], s.setWorker offset (afterPing reply now))
    | _ => none
  | .lookUp _ =>
    match w with
    | .lookingUp evidence live =>
      let next := lookUp evidence live (s.results.find (scan.address offset))
      some (if next = .resolving evidence live then [.resolving (scan.address offset)] else [], s.setWorker offset next)
    | _ => none
  | .resolveReturns _ mac =>
    match w with
    | .resolving evidence live => some ([], s.setWorker offset (afterResolve evidence live mac))
    | _ => none
  | .gather _ =>
    match w with
    | .gathering evidence mac live =>
      some ([], s.setWorker offset
        (scan.gather (scan.address offset) evidence mac live (s.results.find (scan.address offset))))
    | _ => none
  | .check _ =>
    match w with
    | .publishing named device =>
      some ([], s.setWorker offset (if s.cancelled then afterPublish named device else .storing named device))
    | _ => none
  | .store _ =>
    match w with
    | .storing named device =>
      some ([.published none (published s.results device)],
        { s.setWorker offset (afterPublish named device) with results := addOrUpdate s.results device })
    | _ => none
  | .nameReturns _ name =>
    match w with
    | .naming device => some ([], s.setWorker offset (afterName device name))
    | _ => none
  | .report _ =>
    match w with
    | .reporting => some ([], { s.setWorker offset .ended with completed := s.completed + 1 })
    | _ => none
  | .throws _ =>
    match w with
    | .pinging | .resolving _ _ | .naming _ => some ([], s.setWorker offset .threw)
    | _ => none
  | _ => none

/-- The offset that an event is about. -/
def Event.offset : Event → Option Nat
  | .pingReturns i _ _ | .lookUp i | .resolveReturns i _ | .gather i | .check i | .store i | .nameReturns i _
  | .report i | .throws i => some i
  | _ => none

def go (scan : Scan) (s : State) (e : Event) : Option (List Action × State) :=
  match e with
  | .cancel => some ([], { s with cancelled := true })
  | .take now =>
    if s.phase = .working ∧ s.workers.length < scan.range.count ∧
        (s.workers.filter Worker.isActive).length < scan.concurrency then
      some ([], { s with workers := s.workers ++ [scan.start (scan.address s.workers.length) now] })
    else none
  | .join =>
    if s.phase = .working ∧ ¬ s.workers.any Worker.isActive ∧
        (s.cancelled ∨ s.workers.any (· = .threw) ∨ s.workers.length = scan.range.count) then
      some ([], { s with phase := if s.cancelled ∨ s.workers.any (· = .threw) then .threw else .reading true })
    else none
  | _ =>
    match e.offset with
    | some offset => if s.phase = .working then s.workers[offset]?.bind fun w => goWorker scan s offset w e else none
    | none => goMerge scan s e

/-- A scan that has begun. -/
def scanning (scan : Scan) : Machine State Event where
  init s := s = ⟨.reading false, .empty, [], 0, false⟩
  step s e := (go scan s e).map Prod.snd

/-- What the steps of a run did, in order. -/
def actions (scan : Scan) (log : List (State × Event)) : List Action :=
  log.flatMap fun p => ((go scan p.1 p.2).map Prod.fst).getD []

theorem actions_snoc (scan : Scan) (log : List (State × Event)) {s s' : State} {e : Event} {as : List Action}
    (h : go scan s e = some (as, s')) : actions scan (log ++ [(s, e)]) = actions scan log ++ as := by
  simp [actions, h]

/-! ## What a step can do -/

/-- A step of a worker that leaves the results alone. -/
inductive Moves (scan : Scan) (s : State) (i : Nat) : Worker → Event → List Action → Worker → Prop
  | ping (reply : Bool) (now : DateTimeOffset) :
      Moves scan s i .pinging (.pingReturns i reply now) [.pinged (scan.address i) reply] (afterPing reply now)
  | lookUp (evidence : Evidence) (live : Option DateTimeOffset) :
      Moves scan s i (.lookingUp evidence live) (.lookUp i)
        (if lookUp evidence live (s.results.find (scan.address i)) = .resolving evidence live
          then [.resolving (scan.address i)] else [])
        (lookUp evidence live (s.results.find (scan.address i)))
  | resolve (evidence : Evidence) (live : Option DateTimeOffset) (mac : Option Str) :
      Moves scan s i (.resolving evidence live) (.resolveReturns i mac) [] (afterResolve evidence live mac)
  | gather (evidence : Evidence) (mac : Option Str) (live : Option DateTimeOffset) :
      Moves scan s i (.gathering evidence mac live) (.gather i) []
        (scan.gather (scan.address i) evidence mac live (s.results.find (scan.address i)))
  | check (named : Bool) (device : DiscoveredDevice) :
      Moves scan s i (.publishing named device) (.check i) []
        (if s.cancelled then afterPublish named device else .storing named device)
  | name (device : DiscoveredDevice) (name : Option Str) :
      Moves scan s i (.naming device) (.nameReturns i name) [] (afterName device name)
  | throws (w : Worker) : Moves scan s i w (.throws i) [] .threw

inductive Change (scan : Scan) (s : State) : Event → List Action → State → Prop
  | cancel : Change scan s .cancel [] { s with cancelled := true }
  | neighborsReturn (final : Bool) (entries : List NeighborEntry) : s.phase = .reading final →
      Change scan s (.neighborsReturn entries) [] { s with phase := .merging final entries }
  | neighborsFail (final isCancellation : Bool) : s.phase = .reading final →
      Change scan s (.neighborsThrow isCancellation) [] (s.merged final)
  | neighborsCancelled (final isCancellation : Bool) : s.phase = .reading final → s.cancelled = true →
      Change scan s (.neighborsThrow isCancellation) [] { s with phase := .threw }
  | merged (final : Bool) : s.phase = .merging final [] → Change scan s .merge [] (s.merged final)
  | malformed (final : Bool) (entry : NeighborEntry) (entries : List NeighborEntry) :
      s.phase = .merging final (entry :: entries) → scan.neighbor entry = .malformed →
      Change scan s .merge [] (s.merged final)
  | skip (final : Bool) (entry : NeighborEntry) (entries : List NeighborEntry) :
      s.phase = .merging final (entry :: entries) → scan.neighbor entry = .skipped ∨ s.cancelled = true →
      Change scan s .merge [] { s with phase := .merging final entries }
  | pick (final : Bool) (entry : NeighborEntry) (entries : List NeighborEntry) (device : DiscoveredDevice) :
      s.phase = .merging final (entry :: entries) → scan.neighbor entry = .usable device →
      Change scan s .merge [] { s with phase := .storing final entry device entries }
  | storeNeighbor (final : Bool) (entry : NeighborEntry) (device : DiscoveredDevice) (entries : List NeighborEntry) :
      s.phase = .storing final entry device entries →
      Change scan s .storeNeighbor [.published (some entry) (published s.results device)]
        { s with phase := .merging final entries, results := addOrUpdate s.results device }
  | take (now : DateTimeOffset) : s.phase = .working → s.workers.length < scan.range.count →
      Change scan s (.take now) []
        { s with workers := s.workers ++ [scan.start (scan.address s.workers.length) now] }
  | move (i : Nat) (w w' : Worker) (e : Event) (as : List Action) : s.phase = .working → s.workers[i]? = some w →
      Moves scan s i w e as w' → Change scan s e as (s.setWorker i w')
  | store (i : Nat) (named : Bool) (device : DiscoveredDevice) : s.phase = .working →
      s.workers[i]? = some (.storing named device) →
      Change scan s (.store i) [.published none (published s.results device)]
        { s.setWorker i (afterPublish named device) with results := addOrUpdate s.results device }
  | report (i : Nat) : s.phase = .working → s.workers[i]? = some .reporting →
      Change scan s (.report i) [] { s.setWorker i .ended with completed := s.completed + 1 }
  | fail : s.phase = .working → s.cancelled = true ∨ s.workers.any (· = .threw) = true →
      Change scan s .join [] { s with phase := .threw }
  | join : s.phase = .working → s.workers.any Worker.isActive = false → s.workers.any (· = .threw) = false →
      s.workers.length = scan.range.count → Change scan s .join [] { s with phase := .reading true }

theorem goMerge_change {scan : Scan} {s s' : State} {e : Event} {as : List Action}
    (h : goMerge scan s e = some (as, s')) : Change scan s e as s' := by
  cases e with
  | neighborsReturn entries =>
    simp only [goMerge] at h
    split at h <;> cases h
    exact .neighborsReturn _ entries ‹_›
  | neighborsThrow isCancellation =>
    simp only [goMerge] at h
    split at h
    · rename_i hphase
      cases h
      split
      · rename_i hc
        exact .neighborsCancelled _ _ hphase hc.2
      · exact .neighborsFail _ _ hphase
    · cases h
  | merge =>
    simp only [goMerge] at h
    split at h
    · rename_i final hphase
      cases h
      exact .merged final hphase
    · rename_i final entry entries hphase
      split at h
      · rename_i hskip
        cases h
        exact .skip final entry entries hphase (Or.inl hskip)
      · rename_i hbad
        cases h
        exact .malformed final entry entries hphase hbad
      · rename_i device husable
        split at h <;> cases h
        · exact .skip final entry entries hphase (Or.inr ‹_›)
        · exact .pick final entry entries device hphase husable
    · cases h
  | storeNeighbor =>
    simp only [goMerge] at h
    split at h <;> cases h
    exact .storeNeighbor _ _ _ _ ‹_›
  | _ => cases h

theorem goWorker_change {scan : Scan} {s s' : State} {i : Nat} {w : Worker} {e : Event} {as : List Action}
    (hphase : s.phase = .working) (hw : s.workers[i]? = some w) (he : e.offset = some i)
    (h : goWorker scan s i w e = some (as, s')) : Change scan s e as s' := by
  cases e with
  | pingReturns _ reply now =>
    cases he
    simp only [goWorker] at h
    split at h <;> cases h
    exact .move i _ _ _ _ hphase hw (.ping reply now)
  | lookUp _ =>
    cases he
    simp only [goWorker] at h
    split at h <;> cases h
    exact .move i _ _ _ _ hphase hw (.lookUp _ _)
  | resolveReturns _ mac =>
    cases he
    simp only [goWorker] at h
    split at h <;> cases h
    exact .move i _ _ _ _ hphase hw (.resolve _ _ mac)
  | gather _ =>
    cases he
    simp only [goWorker] at h
    split at h <;> cases h
    exact .move i _ _ _ _ hphase hw (.gather _ _ _)
  | check _ =>
    cases he
    simp only [goWorker] at h
    split at h <;> cases h
    exact .move i _ _ _ _ hphase hw (.check _ _)
  | store _ =>
    cases he
    simp only [goWorker] at h
    split at h <;> cases h
    exact .store i _ _ hphase hw
  | nameReturns _ name =>
    cases he
    simp only [goWorker] at h
    split at h <;> cases h
    exact .move i _ _ _ _ hphase hw (.name _ name)
  | report _ =>
    cases he
    simp only [goWorker] at h
    split at h <;> cases h
    exact .report i hphase hw
  | throws _ =>
    cases he
    simp only [goWorker] at h
    split at h <;> cases h <;> exact .move i _ _ _ _ hphase hw (.throws _)
  | _ => cases he

theorem go_change {scan : Scan} {s s' : State} {e : Event} {as : List Action} (h : go scan s e = some (as, s')) :
    Change scan s e as s' := by
  rcases he : e.offset with _ | i
  · cases e with
    | cancel => cases h; exact .cancel
    | take now =>
      simp only [go] at h
      split at h <;> cases h
      rename_i hguard
      exact .take now hguard.1 hguard.2.1
    | join =>
      simp only [go] at h
      split at h
      · rename_i hguard
        obtain ⟨hphase, hactive, hend⟩ := hguard
        cases h
        split
        · exact .fail hphase ‹_›
        · rename_i hgood
          simp only [not_or, Bool.not_eq_true] at hgood
          refine .join hphase (by simpa using hactive) hgood.2 ?_
          rcases hend with hc | ht | hcount
          · exact absurd hc (by simp [hgood.1])
          · exact absurd ht (by simp [hgood.2])
          · exact hcount
      · cases h
    | neighborsReturn _ | neighborsThrow _ | merge | storeNeighbor =>
      simp only [go, Event.offset] at h
      exact goMerge_change h
    | _ => cases he
  · have hgo : (if s.phase = .working then s.workers[i]?.bind fun w => goWorker scan s i w e else none) = some (as, s') := by
      cases e <;> first | (cases he; exact h) | cases he
    split at hgo
    · rename_i hphase
      obtain ⟨w, hw, hgo⟩ := Option.bind_eq_some_iff.mp hgo
      exact goWorker_change hphase hw he hgo
    · cases hgo

/-! ## Records on their way -/

section Carries

variable {P : DiscoveredDevice → Prop} {scan : Scan} {s s' : State} {e : Event} {as : List Action} {i : Nat} {w w' : Worker}

/-- `P` holds of the record that the worker has, if it has one. -/
def Worker.Carries (P : DiscoveredDevice → Prop) : Worker → Prop
  | .publishing _ device | .storing _ device | .naming device => P device
  | _ => True

def Phase.Carries (P : DiscoveredDevice → Prop) : Phase → Prop
  | .storing _ _ device _ => P device
  | _ => True

/-- `P` holds of every record that has still to be published. -/
structure State.Carries (P : DiscoveredDevice → Prop) (s : State) : Prop where
  workers : ∀ w ∈ s.workers, w.Carries P
  phase : s.phase.Carries P

/-- The records that a scan makes, by a worker or of a neighbour, have `P`, and a name changes nothing of it. -/
structure Makes (scan : Scan) (s : State) (P : DiscoveredDevice → Prop) : Prop where
  device : ∀ i evidence mac live, P (scan.device (scan.address i) evidence mac live)
  named : ∀ device name, P device → P { device with hostname := name }
  neighbor : ∀ final entry entries device, s.phase = .merging final (entry :: entries) →
    scan.neighbor entry = .usable device → P device

theorem afterPublish_carries (named : Bool) {device : DiscoveredDevice} (h : P device) :
    (afterPublish named device).Carries P := by
  cases named with
  | true => trivial
  | false => exact h

theorem moves_carries (hmakes : Makes scan s P) (h : Moves scan s i w e as w') (hw : w.Carries P) : w'.Carries P := by
  cases h with
  | ping reply now => cases reply <;> trivial
  | lookUp evidence live =>
    unfold lookUp
    split
    · split
      · trivial
      · trivial
    · trivial
  | resolve evidence live mac => trivial
  | gather evidence mac live =>
    unfold Scan.gather
    split
    · exact hmakes.device i _ _ _
    · trivial
  | check named device =>
    split
    · exact afterPublish_carries named hw
    · exact hw
  | name device name =>
    unfold afterName
    split
    · trivial
    · exact hmakes.named device _ hw
  | throws w => trivial

theorem State.Carries.setWorker (h : s.Carries P) (i : Nat) (hw : w.Carries P) : (s.setWorker i w).Carries P := by
  refine ⟨?_, h.phase⟩
  intro v hv
  rcases List.mem_or_eq_of_mem_set hv with hv | rfl
  · exact h.workers v hv
  · exact hw

/-- What holds of every record made holds of every record on its way. -/
theorem change_carries (hmakes : Makes scan s P) (h : Change scan s e as s') (hs : s.Carries P) : s'.Carries P := by
  have hmerged (final : Bool) : (s.merged final).Carries P := by
    refine ⟨hs.workers, ?_⟩
    cases final with
    | true => trivial
    | false => trivial
  cases h with
  | cancel => exact ⟨hs.workers, hs.phase⟩
  | neighborsFail final _ _ => exact hmerged final
  | merged final _ => exact hmerged final
  | malformed final _ _ _ _ => exact hmerged final
  | pick final entry entries device hp husable => exact ⟨hs.workers, hmakes.neighbor final entry entries device hp husable⟩
  | take now _ _ =>
    refine ⟨?_, hs.phase⟩
    intro w hw
    rcases List.mem_append.mp hw with hw | hw
    · exact hs.workers w hw
    · rw [List.mem_singleton.mp hw]
      unfold Scan.start
      split
      · trivial
      · trivial
  | move i w w' e as _ hw hmoves =>
    exact hs.setWorker i (moves_carries hmakes hmoves (hs.workers w (List.mem_of_getElem? hw)))
  | store i named device _ hw =>
    have hdevice : P device := hs.workers _ (List.mem_of_getElem? hw)
    have hset := hs.setWorker i (afterPublish_carries named hdevice)
    exact ⟨hset.workers, hset.phase⟩
  | report i _ _ =>
    have hset : (s.setWorker i .ended).Carries P := hs.setWorker i trivial
    exact ⟨hset.workers, hset.phase⟩
  | neighborsReturn | neighborsCancelled | skip | storeNeighbor | fail | join => exact ⟨hs.workers, trivial⟩

end Carries

end MythLab.Discovery.NetworkDiscoveryService
