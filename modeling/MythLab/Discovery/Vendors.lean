/-
  MythLab.Discovery.Vendors — the vendor of a published record.

  A record comes to `Publish` with the vendor of its MAC address (`Looked`), and the stored
  one had the vendor of its own; but the two fields of the record that is published are
  chosen one by one. Proved (`vendors_belong_iff`), of every run: every published record
  has the vendor of its MAC address exactly when at every publication the two choices fall
  on one record, or on two with the same vendor (`Pairs`). `changed_mac_keeps_vendor` is a run
  where they do not: between the two reads of the cache an address changes to a MAC
  address that the lookup does not know.
-/
import MythLab.Discovery.PublishedRecords

namespace MythLab.Discovery.NetworkDiscoveryService

open Lib Dotnet Devices

variable {scan : Scan} {device : DiscoveredDevice} {results : Results}

/-- The vendor of a MAC address, empty for the empty one. -/
def Scan.vendorOf (scan : Scan) (mac : Str) : Str := if mac = [] then [] else scan.vendor mac

def VendorOfMac (scan : Scan) (d : DiscoveredDevice) : Prop := d.vendor = scan.vendorOf d.macAddress

/-- The MAC address stored for an address, empty if none is. -/
def storedMac (results : Results) (address : Str) : Str := ((results.find address).map (·.macAddress)).getD []

/-- The record goes with the one stored: if it has a MAC address, the lookup knows that one or does not
    know the one stored; if it has none, it has no vendor, or that of the MAC address stored. -/
def Pairs (scan : Scan) (results : Results) (device : DiscoveredDevice) : Prop :=
  if device.macAddress ≠ [] then
    scan.vendor device.macAddress ≠ [] ∨ scan.vendorOf (storedMac results device.address) = []
  else
    device.vendor = [] ∨
      storedMac results device.address ≠ [] ∧ scan.vendor (storedMac results device.address) = device.vendor

/-- The record that a step publishes, before it is merged. -/
def publishes (s : State) : Event → Option DiscoveredDevice
  | .storeNeighbor =>
    match s.phase with
    | .storing _ _ device _ => some device
    | _ => none
  | .store i =>
    match s.workers[i]? with
    | some (.storing _ device) => some device
    | _ => none
  | _ => none

/-- What the step publishes goes with what is stored. -/
def Pairing (scan : Scan) (s : State) (e : Event) : Prop := ∀ device, publishes s e = some device → Pairs scan s.results device

instance (scan : Scan) (results : Results) (device : DiscoveredDevice) : Decidable (Pairs scan results device) := by
  unfold Pairs
  infer_instance

instance (scan : Scan) (s : State) (e : Event) : Decidable (Pairing scan s e) :=
  inferInstanceAs (Decidable (∀ device ∈ publishes s e, Pairs scan s.results device))

/-! ## Records on their way -/

/-- The vendor was looked up for the MAC address, unless there is none. -/
def Looked (scan : Scan) (d : DiscoveredDevice) : Prop :=
  d.vendor = scan.vendor d.macAddress ∨ d.macAddress = [] ∧ d.vendor = []

theorem orElse_nil (b : Str) : DiscoveredDevice.orElse [] b = b := rfl

theorem orElse_of_ne_nil {a : Str} (h : a ≠ []) (b : Str) : DiscoveredDevice.orElse a b = a :=
  if_pos (List.length_pos_of_ne_nil h)

/-- The merged record has the vendor of its MAC address exactly when the new one goes with the old. -/
theorem vendorOfMac_published (hlooked : Looked scan device)
    (hold : ∀ old, results.find device.address = some old → VendorOfMac scan old) :
    VendorOfMac scan (published results device) ↔ Pairs scan results device := by
  unfold published Pairs storedMac
  rcases hfind : results.find device.address with _ | old
  · -- the first record of the address
    show device.vendor = scan.vendorOf device.macAddress ↔ _
    by_cases hmac : device.macAddress = []
    · simp [hmac, Scan.vendorOf]
    · have hvendor : device.vendor = scan.vendor device.macAddress := hlooked.resolve_right fun h => hmac h.1
      simp [hmac, Scan.vendorOf, hvendor]
  · have hold : old.vendor = scan.vendorOf old.macAddress := hold old hfind
    show DiscoveredDevice.orElse device.vendor old.vendor =
      scan.vendorOf (DiscoveredDevice.orElse device.macAddress old.macAddress) ↔ _
    by_cases hmac : device.macAddress = []
    · -- the MAC address stays
      rw [hmac, orElse_nil, if_neg (not_not.mpr rfl)]
      by_cases hvendor : device.vendor = []
      · simp [hvendor, orElse_nil, hold]
      · rw [orElse_of_ne_nil hvendor]
        simp only [hvendor, false_or, Option.map_some, Option.getD_some]
        unfold Scan.vendorOf
        split
        · rename_i hnone
          simp [hnone, hvendor]
        · rename_i hsome
          simp [hsome, eq_comm]
    · have hvendor : device.vendor = scan.vendor device.macAddress := hlooked.resolve_right fun h => hmac h.1
      rw [orElse_of_ne_nil hmac, if_pos hmac, hvendor, hold]
      simp only [Option.map_some, Option.getD_some]
      have hself : scan.vendorOf device.macAddress = scan.vendor device.macAddress := if_neg hmac
      rw [hself]
      by_cases hknown : scan.vendor device.macAddress = []
      · simp [hknown, orElse_nil]
      · simp [orElse_of_ne_nil hknown, hknown]

theorem looked_device (scan : Scan) (address : Str) (evidence : Evidence) (mac : Option Str) (live : Option DateTimeOffset) :
    Looked scan (scan.device address evidence mac live) := by
  cases mac with
  | none => exact Or.inr ⟨rfl, rfl⟩
  | some mac => exact Or.inl rfl

theorem looked_neighbor {entry : NeighborEntry} (h : scan.neighbor entry = .usable device) : Looked scan device := by
  unfold Scan.neighbor at h
  split at h
  · cases h
  · split at h
    · cases h
    · split at h
      · cases h
      · cases h
        exact Or.inl rfl

def WorkerLooked (scan : Scan) : Worker → Prop
  | .publishing _ device | .storing _ device | .naming device => Looked scan device
  | _ => True

def PhaseLooked (scan : Scan) : Phase → Prop
  | .storing _ _ device _ => Looked scan device
  | _ => True

/-- Every record that has still to be published was looked up. -/
structure AllLooked (scan : Scan) (s : State) : Prop where
  workers : ∀ w ∈ s.workers, WorkerLooked scan w
  phase : PhaseLooked scan s.phase

theorem allLooked_iff {s : State} : AllLooked scan s ↔ s.Carries (Looked scan) :=
  ⟨fun h => ⟨h.workers, h.phase⟩, fun h => ⟨h.workers, h.phase⟩⟩

theorem makes_looked (scan : Scan) (s : State) : Makes scan s (Looked scan) where
  device _ _ _ _ := looked_device scan _ _ _ _
  named _ _ h := h
  neighbor _ _ _ _ _ h := looked_neighbor h

/-! ## Steps -/

/-- What a step does to the results: nothing, or it publishes the record it had. -/
inductive Publication (scan : Scan) (s s' : State) (e : Event) : List Action → Prop
  | nothing (as : List Action) : publishes s e = none → as.filterMap Action.record = [] → s'.results = s.results →
      Publication scan s s' e as
  | record (entry : Option NeighborEntry) (device : DiscoveredDevice) : publishes s e = some device →
      s'.results = addOrUpdate s.results device →
      Publication scan s s' e [.published entry (published s.results device)]

theorem moves_publishes {s : State} {i : Nat} {w w' : Worker} {e : Event} {as : List Action}
    (h : Moves scan s i w e as w') : publishes s e = none := by
  cases h with
  | ping | lookUp | resolve | gather | check | name | throws => rfl

theorem change_publication {s s' : State} {e : Event} {as : List Action} (h : Change scan s e as s') :
    Publication scan s s' e as := by
  cases h with
  | storeNeighbor final entry device entries hp =>
    refine .record _ device ?_ rfl
    show (match s.phase with | .storing _ _ device _ => some device | _ => none) = some device
    rw [hp]
  | store i named device hp hw =>
    refine .record _ device ?_ rfl
    show (match s.workers[i]? with | some (.storing _ device) => some device | _ => none) = some device
    rw [hw]
  | move i w w' e as hp hw hmoves => exact .nothing as (moves_publishes hmoves) (records_none (moves_record hmoves)) rfl
  | _ => exact .nothing [] rfl rfl rfl

/-- What a step publishes was on its way. -/
theorem publishes_carried {P : DiscoveredDevice → Prop} {s : State} {e : Event} (hs : s.Carries P)
    (h : publishes s e = some device) : P device := by
  unfold publishes at h
  split at h
  · split at h
    · rename_i hphase
      cases h
      have hcarried := hs.phase
      rw [hphase] at hcarried
      exact hcarried
    · cases h
  · split at h
    · rename_i hw
      cases h
      exact hs.workers _ (List.mem_of_getElem? hw)
    · cases h
  · cases h

/-! ## Runs -/

/-- Where a run stands: what is stored was published, and the records published have the vendors of
    their MAC addresses exactly when the publications so far went with what was stored. -/
structure VendorInv (scan : Scan) (log : Log) (s : State) : Prop where
  looked : AllLooked scan s
  stored : ∀ r ∈ s.results.rows, r ∈ records scan log
  belong : (∀ d ∈ records scan log, VendorOfMac scan d) ↔ Machine.Throughout (Pairing scan) log

theorem VendorInv.step {log : Log} {s s' : State} {e : Event} {as : List Action} (h : VendorInv scan log s)
    (hgo : go scan s e = some (as, s')) : VendorInv scan (log ++ [(s, e)]) s' := by
  have hrecords := records_snoc log hgo
  have hlooked := allLooked_iff.mpr (change_carries (makes_looked scan s) (go_change hgo) (allLooked_iff.mp h.looked))
  cases change_publication (go_change hgo) with
  | nothing as hnone has hresults =>
    rw [has, List.append_nil] at hrecords
    refine ⟨hlooked, ?_, ?_⟩
    · rw [hrecords, hresults]
      exact h.stored
    · have hpairing : Pairing scan s e := by
        intro device hdevice
        rw [hnone] at hdevice
        cases hdevice
      rw [hrecords, Machine.throughout_snoc, h.belong]
      exact ⟨fun hlog => ⟨hlog, hpairing⟩, fun hlog => hlog.1⟩
  | record entry device hdevice hresults =>
    have hrecords : records scan (log ++ [(s, e)]) = records scan log ++ [published s.results device] := hrecords
    refine ⟨hlooked, ?_, ?_⟩
    · intro r hr
      rw [hresults, mem_addOrUpdate] at hr
      rw [hrecords, List.mem_append, List.mem_singleton]
      exact hr.elim Or.inr fun hr => Or.inl (h.stored r hr.1)
    · have hpairing : Pairing scan s e ↔ Pairs scan s.results device :=
        ⟨fun hall => hall device hdevice, fun hp d hd => by
          rw [hdevice] at hd
          obtain rfl := Option.some.inj hd
          exact hp⟩
      have hpublished (hall : ∀ d ∈ records scan log, VendorOfMac scan d) :
          VendorOfMac scan (published s.results device) ↔ Pairs scan s.results device :=
        vendorOfMac_published (publishes_carried (allLooked_iff.mp h.looked) hdevice)
          fun old hold => hall old (h.stored old (Table.find_mem hold))
      rw [hrecords, Machine.throughout_snoc, hpairing, ← h.belong, List.forall_mem_append, List.forall_mem_singleton]
      exact ⟨fun hall => ⟨hall.1, (hpublished hall.1).mp hall.2⟩, fun hall => ⟨hall.1, (hpublished hall.1).mpr hall.2⟩⟩

theorem runs_vendors {log : Log} {s : State} (h : (scanning scan).Runs log s) : VendorInv scan log s := by
  refine h.log_inv ?_ ?_
  · intro s hs
    cases hs
    refine ⟨⟨fun w hw => (by cases hw), trivial⟩, fun r hr => (by cases hr), ?_⟩
    exact ⟨fun _ p hp => (by cases hp), fun _ d hd => (by cases hd)⟩
  · intro log s e s' _ ih hs
    obtain ⟨⟨as, _⟩, hgo, rfl⟩ := Option.map_eq_some_iff.mp hs
    exact ih.step hgo

/-- In every run of a scan, with every lookup, whatever the probes answer: every record published has the
    vendor of its MAC address exactly when every record, at its publication, goes with the one stored. -/
theorem vendors_belong_iff (scan : Scan) (log : Log) (s : State) (h : (scanning scan).Runs log s) :
    (∀ d ∈ records scan log, d.vendor = if d.macAddress = [] then [] else scan.vendor d.macAddress) ↔
      Machine.Throughout (Pairing scan) log := (runs_vendors h).belong

/-- A lookup that knows one MAC address. -/
def oneVendor : Option (Str → Option Str) :=
  some fun mac => if mac = str "00:11:22:33:44:02" then some (str "Acme") else none

def vendorScan : Scan := ⟨ethernet, ⟨0x0A000002, 0x0A000002, 1⟩, 1, oneVendor⟩

/-- The cache has an address; its host answers a ping and has no name. -/
def oneNeighbor : List Event :=
  [.neighborsReturn [⟨7, str "10.0.0.2", str "00:11:22:33:44:02"⟩], .merge, .storeNeighbor, .merge, .take ⟨1, 0⟩,
    .pingReturns 0 true ⟨2, 0⟩, .lookUp 0, .gather 0, .check 0, .store 0, .nameReturns 0 none, .report 0, .join]

theorem known_neighbor_belongs : ∃ log s, (scanning vendorScan).Runs log s ∧
    (s.results.rows.any fun d => d.vendor = str "Acme") = true ∧
    ∀ d ∈ records vendorScan log, d.vendor = if d.macAddress = [] then [] else vendorScan.vendor d.macAddress := by
  obtain ⟨log, s, hruns, hpairs, hstored⟩ := Machine.exists_run (scanning vendorScan) (Pairing vendorScan)
    (fun s => s.results.rows.any fun d => d.vendor = str "Acme") oneNeighbor rfl (by decide +kernel)
  exact ⟨log, s, hruns, hstored, (vendors_belong_iff vendorScan log s hruns).mpr hpairs⟩

/-- At the second read the address has a MAC address that the lookup does not know. -/
def changedNeighbor : List Event :=
  oneNeighbor ++ [.neighborsReturn [⟨7, str "10.0.0.2", str "00:11:22:33:44:03"⟩], .merge, .storeNeighbor]

/-- The record published last has the new MAC address and the vendor of the old one. -/
theorem changed_mac_keeps_vendor : ∃ (request : DiscoveryRequest) (current : List LocalNetworkInterface) (scan : Scan) (log : Log)
    (s : State), beginScan oneVendor request current = .ok scan ∧ (scanning scan).Runs log s ∧
      ¬ ∀ d ∈ records scan log, d.vendor = if d.macAddress = [] then [] else scan.vendor d.macAddress := by
  have h : (scanning vendorScan).Runs _ _ :=
    Machine.runs_of_exec rfl (show (scanning vendorScan).exec _ changedNeighbor = _ from rfl)
  refine ⟨{ twoAddresses with startAddress := str "10.0.0.2", concurrency := 1 }, [ethernet], vendorScan, _, _, rfl, h, ?_⟩
  intro hall
  have hlast := List.all_eq_true.mpr fun d hd => decide_eq_true (hall d hd)
  revert hlast
  decide +kernel

end MythLab.Discovery.NetworkDiscoveryService
