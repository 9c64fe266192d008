/-
  MythLab.Discovery.PublishedRecords — the records that a scan publishes for one address.

  A record is built from what was found when its worker looked, and merged with what is
  stored by then. `Grounded` says what in it must be earned: Online by a ping that
  answered or by the interface's own address, an address of the range, cache evidence by
  an entry of the interface with a usable MAC. A record about to be published (`Offered`)
  may carry cache evidence read earlier, but no liveness without its time, unless the
  stored record has it. So what is stored is `Sound` and only grows.

  Proved for every run, whatever the probes do: `published_records_grow`.
-/
import MythLab.Discovery.NetworkDiscoveryService

namespace MythLab.Discovery.NetworkDiscoveryService

open Lib Dotnet Devices

/-! ## What a record may claim -/

abbrev Log := List (State × Event)

/-- A ping of the address answered. -/
def Answered (scan : Scan) (log : Log) (address : Str) : Prop := .pinged address true ∈ actions scan log

/-- An entry of a read of the neighbour cache. -/
def WasRead (log : Log) (entry : NeighborEntry) : Prop :=
  ∃ s entries, (s, .neighborsReturn entries) ∈ log ∧ entry ∈ entries

/-- The cache has the address on the scanned interface, with a usable MAC. -/
def Cached (scan : Scan) (log : Log) (address : Str) : Prop :=
  ∃ entry, WasRead log entry ∧ entry.address = address ∧ entry.interfaceIndex = scan.interface.index ∧
    isUsableMac entry.macAddress = true

def InRange (scan : Scan) (address : Str) : Prop :=
  ∃ ip, Ipv4Subnet.parse address = .ok ip ∧ scan.range.first ≤ ip ∧ ip ≤ scan.range.last

structure Grounded (scan : Scan) (log : Log) (d : DiscoveredDevice) : Prop where
  online : d.isOnline = true → Answered scan log d.address ∨ d.address = scan.interface.address
  inRange : InRange scan d.address
  cached : d.evidence.neighborCache = true → Cached scan log d.address

structure Sound (scan : Scan) (log : Log) (d : DiscoveredDevice) : Prop where
  grounded : Grounded scan log d
  live : d.isOnline = true ↔ d.lastLiveObservationAt ≠ none

/-- What may be published over the results. -/
structure Offered (scan : Scan) (log : Log) (results : Results) (d : DiscoveredDevice) : Prop where
  grounded : Grounded scan log d
  online : d.lastLiveObservationAt ≠ none → d.isOnline = true
  live : d.isOnline = true → d.lastLiveObservationAt ≠ none ∨
    ∃ old ∈ results.rows, old.address = d.address ∧ old.isOnline = true

/-- Every record is still there, and has only grown. -/
def Extends (results results' : Results) : Prop :=
  ∀ r ∈ results.rows, ∃ r' ∈ results'.rows, r'.address = r.address ∧ DiscoveredDevice.Grows r r'

section Log

variable {scan : Scan} {log : Log} {d : DiscoveredDevice} {results results' : Results}

theorem Answered.snoc {address : Str} (h : Answered scan log address) (p : State × Event) :
    Answered scan (log ++ [p]) address := by
  unfold Answered actions at *
  rw [List.flatMap_append]
  exact List.mem_append_left _ h

theorem Cached.snoc {address : Str} (h : Cached scan log address) (p : State × Event) :
    Cached scan (log ++ [p]) address := by
  obtain ⟨entry, ⟨s, entries, hlog, hm⟩, hrest⟩ := h
  exact ⟨entry, ⟨s, entries, List.mem_append_left _ hlog, hm⟩, hrest⟩

theorem Grounded.snoc (h : Grounded scan log d) (p : State × Event) : Grounded scan (log ++ [p]) d :=
  ⟨fun ho => (h.online ho).imp_left fun ha => ha.snoc p, h.inRange, fun hc => (h.cached hc).snoc p⟩

theorem Sound.snoc (h : Sound scan log d) (p : State × Event) : Sound scan (log ++ [p]) d :=
  ⟨h.grounded.snoc p, h.live⟩

/-- What may be published may be published later. -/
theorem Offered.later (h : Offered scan log results d) (p : State × Event) (hext : Extends results results') :
    Offered scan (log ++ [p]) results' d := by
  refine ⟨h.grounded.snoc p, h.online, ?_⟩
  intro ho
  refine (h.live ho).imp_right ?_
  rintro ⟨old, hold, haddress, hon⟩
  obtain ⟨r, hr, hra, hgrows⟩ := hext old hold
  exact ⟨r, hr, hra.trans haddress, hgrows.online hon⟩

/-- Of a record only its address, its liveness and its cache evidence matter. -/
theorem Offered.congr {d' : DiscoveredDevice} (h : Offered scan log results d) (haddress : d'.address = d.address)
    (honline : d'.isOnline = d.isOnline) (hcache : d'.evidence.neighborCache = d.evidence.neighborCache)
    (hlive : d'.lastLiveObservationAt = d.lastLiveObservationAt) : Offered scan log results d' := by
  obtain ⟨⟨h1, h2, h3⟩, h4, h5⟩ := h
  exact ⟨⟨by rw [honline, haddress]; exact h1, by rw [haddress]; exact h2, by rw [hcache, haddress]; exact h3⟩,
    by rw [hlive, honline]; exact h4, by rw [hlive, honline, haddress]; exact h5⟩

end Log

/-! ## Publishing -/

theorem published_address (results : Results) (d : DiscoveredDevice) : (published results d).address = d.address := by
  unfold published
  split <;> rfl

theorem published_cases (results : Results) (d : DiscoveredDevice) :
    (published results d = d ∧ ∀ r ∈ results.rows, r.address ≠ d.address) ∨
      ∃ old ∈ results.rows, old.address = d.address ∧ published results d = d.merge old := by
  unfold published
  split
  · rename_i old hold
    exact Or.inr ⟨old, Table.find_mem hold, Table.find_key hold, rfl⟩
  · rename_i hnone
    exact Or.inl ⟨rfl, (Table.find_none_iff _ _).mp hnone⟩

theorem mem_addOrUpdate {results : Results} {d r : DiscoveredDevice} :
    r ∈ (addOrUpdate results d).rows ↔ r = published results d ∨ (r ∈ results.rows ∧ r.address ≠ d.address) := by
  unfold addOrUpdate
  rw [Table.mem_upsert, published_address]

theorem extends_refl (results : Results) : Extends results results := fun r hr => ⟨r, hr, rfl, .refl r⟩

theorem extends_addOrUpdate (results : Results) (d : DiscoveredDevice) : Extends results (addOrUpdate results d) := by
  intro r hr
  by_cases he : r.address = d.address
  · refine ⟨published results d, mem_addOrUpdate.mpr (Or.inl rfl), (published_address _ _).trans he.symm, ?_⟩
    rcases published_cases results d with ⟨-, hnone⟩ | ⟨old, hold, hkey, heq⟩
    · exact absurd he (hnone r hr)
    · rw [heq, Table.key_inj hr hold (he.trans hkey.symm)]
      exact DiscoveredDevice.grows_merge d old
  · exact ⟨r, mem_addOrUpdate.mpr (Or.inr ⟨hr, he⟩), rfl, .refl r⟩

section Publish

variable {scan : Scan} {log : Log} {d old : DiscoveredDevice} {results : Results}

theorem isOnline_merge (d old : DiscoveredDevice) : (d.merge old).isOnline = (old.isOnline || d.isOnline) := by
  simp only [DiscoveredDevice.isOnline, DiscoveredDevice.merge, Evidence.union]
  cases old.evidence.pingReply <;> cases old.evidence.localInterface <;> simp

theorem Grounded.merge (hd : Grounded scan log d) (hold : Grounded scan log old) (he : old.address = d.address) :
    Grounded scan log (d.merge old) := by
  refine ⟨?_, hd.inRange, ?_⟩
  · intro ho
    rw [isOnline_merge, Bool.or_eq_true] at ho
    rcases ho with ho | ho
    · show Answered scan log d.address ∨ d.address = _
      rw [← he]
      exact hold.online ho
    · exact hd.online ho
  · intro hc
    have hc : (old.evidence.neighborCache || d.evidence.neighborCache) = true := hc
    rw [Bool.or_eq_true] at hc
    rcases hc with hc | hc
    · show Cached scan log d.address
      rw [← he]
      exact hold.cached hc
    · exact hd.cached hc

/-- What is published over sound results is sound. -/
theorem sound_published (hd : Offered scan log results d) (hresults : ∀ r ∈ results.rows, Sound scan log r) :
    Sound scan log (published results d) := by
  rcases published_cases results d with ⟨heq, hnone⟩ | ⟨old, hold, hkey, heq⟩
  · rw [heq]
    refine ⟨hd.grounded, ?_, hd.online⟩
    intro ho
    rcases hd.live ho with hlive | ⟨old, hold, hkey, -⟩
    · exact hlive
    · exact absurd hkey (hnone old hold)
  · have hsound := hresults old hold
    rw [heq]
    refine ⟨hd.grounded.merge hsound.grounded hkey, ?_⟩
    rw [isOnline_merge, Bool.or_eq_true]
    show _ ↔ d.lastLiveObservationAt.or old.lastLiveObservationAt ≠ none
    rw [ne_eq, Option.or_eq_none_iff, not_and_or]
    constructor
    · rintro (ho | ho)
      · exact Or.inr (hsound.live.mp ho)
      · rcases hd.live ho with hlive | ⟨r, hr, hra, hron⟩
        · exact Or.inl hlive
        · rw [Table.key_inj hr hold (hra.trans hkey.symm)] at hron
          exact Or.inr (hsound.live.mp hron)
    · rintro (hlive | hlive)
      · exact Or.inr (hd.online hlive)
      · exact Or.inl (hsound.live.mpr hlive)

end Publish

/-! ## What a worker holds -/

/-- The record that evidence and a time make at an address. -/
def evidenceOf (address : Str) (evidence : Evidence) (live : Option DateTimeOffset) : DiscoveredDevice :=
  { address := address, evidence := evidence, lastLiveObservationAt := live }

/-- What a worker holds may be published. -/
def WorkerSound (scan : Scan) (log : Log) (results : Results) (address : Str) : Worker → Prop
  | .lookingUp evidence live | .resolving evidence live | .gathering evidence _ live =>
    Offered scan log results (evidenceOf address evidence live)
  | .publishing _ device | .storing _ device | .naming device => Offered scan log results device
  | _ => True

section Worker

variable {scan : Scan} {log : Log} {results results' : Results} {address : Str}

theorem WorkerSound.later {w : Worker} (h : WorkerSound scan log results address w) (p : State × Event)
    (hext : Extends results results') : WorkerSound scan (log ++ [p]) results' address w := by
  cases w with
  | lookingUp _ _ | resolving _ _ | gathering _ _ _ => exact Offered.later h p hext
  | publishing _ _ | storing _ _ | naming _ => exact Offered.later h p hext
  | _ => trivial

theorem start_sound (hrange : InRange scan address) (now : DateTimeOffset) :
    WorkerSound scan log results address (scan.start address now) := by
  unfold Scan.start
  split
  · rename_i hlocal
    exact ⟨⟨fun _ => Or.inr hlocal, hrange, nofun⟩, fun _ => rfl, fun _ => Or.inl nofun⟩
  · trivial

theorem afterPing_sound {reply : Bool} (hrange : InRange scan address) (hreply : reply = true → Answered scan log address)
    (now : DateTimeOffset) : WorkerSound scan log results address (afterPing reply now) := by
  cases reply with
  | true => exact ⟨⟨fun _ => Or.inl (hreply rfl), hrange, nofun⟩, fun _ => rfl, fun _ => Or.inl nofun⟩
  | false => exact ⟨⟨nofun, hrange, nofun⟩, fun hl => absurd rfl hl, nofun⟩

theorem lookUp_sound {evidence : Evidence} {live : Option DateTimeOffset}
    (h : Offered scan log results (evidenceOf address evidence live)) (cached : Option DiscoveredDevice) :
    WorkerSound scan log results address (lookUp evidence live cached) := by
  unfold lookUp
  split
  · split <;> exact h
  · exact h

theorem afterResolve_sound {evidence : Evidence} {live : Option DateTimeOffset}
    (h : Offered scan log results (evidenceOf address evidence live)) (mac : Option Str) :
    WorkerSound scan log results address (afterResolve evidence live mac) := by
  unfold afterResolve
  split
  · -- ARP says nothing of liveness or of the cache
    refine Offered.congr h rfl ?_ ?_ rfl
    · simp [DiscoveredDevice.isOnline, evidenceOf, Evidence.union]
    · simp [evidenceOf, Evidence.union]
  · exact h

/-- Cache evidence joins what the worker found; what is Online in it is stored as Online. -/
theorem gather_sound {evidence : Evidence} {live : Option DateTimeOffset} {cached : Option DiscoveredDevice}
    (h : Offered scan log results (evidenceOf address evidence live))
    (hresults : ∀ r ∈ results.rows, Sound scan log r) (hcached : ∀ r ∈ cached, r ∈ results.rows ∧ r.address = address)
    (mac : Option Str) : WorkerSound scan log results address (scan.gather address evidence mac live cached) := by
  have hoffered : Offered scan log results (evidenceOf address (gathered evidence cached) live) := by
    cases cached with
    | none => exact h
    | some old =>
      obtain ⟨hold, rfl⟩ := hcached old rfl
      obtain ⟨hgrounded, -⟩ := hresults old hold
      have honline : (evidenceOf old.address (evidence.union old.evidence) live).isOnline = true ↔
          (evidenceOf old.address evidence live).isOnline = true ∨ old.isOnline = true := by
        simp only [DiscoveredDevice.isOnline, evidenceOf, Evidence.union, Bool.or_eq_true]
        tauto
      have hcache : (evidence.union old.evidence).neighborCache = true ↔
          evidence.neighborCache = true ∨ old.evidence.neighborCache = true := by
        simp [Evidence.union]
      refine ⟨⟨?_, h.grounded.inRange, ?_⟩, ?_, ?_⟩
      · intro ho
        rcases honline.mp ho with ho | ho
        · exact h.grounded.online ho
        · exact hgrounded.online ho
      · intro hc
        rcases hcache.mp hc with hc | hc
        · exact h.grounded.cached hc
        · exact hgrounded.cached hc
      · intro hl
        exact honline.mpr (Or.inl (h.online hl))
      · intro ho
        rcases honline.mp ho with ho | ho
        · exact h.live ho
        · exact Or.inr ⟨old, hold, rfl, ho⟩
  unfold Scan.gather
  split
  · exact hoffered.congr rfl rfl rfl rfl
  · trivial

theorem afterPublish_sound {device : DiscoveredDevice} (h : Offered scan log results device) (named : Bool) :
    WorkerSound scan log results address (afterPublish named device) := by
  unfold afterPublish
  split
  · trivial
  · exact h

theorem afterName_sound {device : DiscoveredDevice} (h : Offered scan log results device) (name : Option Str) :
    WorkerSound scan log results address (afterName device name) := by
  unfold afterName
  split
  · trivial
  · exact h.congr rfl rfl rfl rfl

end Worker

/-! ## Runs -/

def Action.record : Action → Option DiscoveredDevice
  | .published _ device => some device
  | _ => none

/-- The records published in a run, in order. -/
def records (scan : Scan) (log : Log) : List DiscoveredDevice := (actions scan log).filterMap Action.record

/-- Published records of one address, in this order. -/
def Follows (a b : DiscoveredDevice) : Prop := a.address = b.address → DiscoveredDevice.Grows a b

/-- The entries left to merge were read. -/
def PhaseSound (scan : Scan) (log : Log) : Phase → Prop
  | .merging _ entries => ∀ entry ∈ entries, WasRead log entry
  | .storing _ entry device entries => scan.neighbor entry = .usable device ∧ ∀ e ∈ entry :: entries, WasRead log e
  | _ => True

structure StreamInv (scan : Scan) (log : Log) (s : State) : Prop where
  stored : ∀ r ∈ s.results.rows, Sound scan log r
  taken : s.workers.length ≤ scan.range.count
  workers : ∀ i w, s.workers[i]? = some w → WorkerSound scan log s.results (scan.address i) w
  phase : PhaseSound scan log s.phase
  streamed : ∀ x ∈ records scan log, Sound scan log x ∧
    ∃ r ∈ s.results.rows, r.address = x.address ∧ DiscoveredDevice.Grows x r
  ordered : (records scan log).Pairwise Follows
  merged : ∀ entry x, .published (some entry) x ∈ actions scan log →
    ∃ device, scan.neighbor entry = .usable device ∧ x.address = device.address

theorem WasRead.snoc {log : Log} {entry : NeighborEntry} (h : WasRead log entry) (p : State × Event) :
    WasRead (log ++ [p]) entry := by
  obtain ⟨s, entries, hlog, hm⟩ := h
  exact ⟨s, entries, List.mem_append_left _ hlog, hm⟩

theorem PhaseSound.snoc {scan : Scan} {log : Log} {phase : Phase} (h : PhaseSound scan log phase) (p : State × Event) :
    PhaseSound scan (log ++ [p]) phase := by
  cases phase with
  | merging _ entries => exact fun entry hm => (h entry hm).snoc p
  | storing _ entry device entries => exact ⟨h.1, fun e hm => (h.2 e hm).snoc p⟩
  | _ => trivial

theorem merged_phase (scan : Scan) (log : Log) (s : State) (final : Bool) : PhaseSound scan log (s.merged final).phase := by
  cases final <;> trivial

theorem records_snoc {scan : Scan} (log : Log) {s s' : State} {e : Event} {as : List Action}
    (h : go scan s e = some (as, s')) :
    records scan (log ++ [(s, e)]) = records scan log ++ as.filterMap Action.record := by
  rw [records, actions_snoc scan log h, List.filterMap_append]
  rfl

/-- An address of the range. -/
theorem address_inRange {scan : Scan} {i : Nat} (hcount : scan.range.count = scan.range.last.toNat - scan.range.first.toNat + 1)
    (hle : scan.range.first ≤ scan.range.last) (hi : i < scan.range.count) : InRange scan (scan.address i) := by
  have hlast := scan.range.last.toNat_lt
  have hsize : UInt32.size = 4294967296 := rfl
  rw [UInt32.le_iff_toNat_le] at hle
  have hvalue : (scan.range.first + UInt32.ofNat i).toNat = scan.range.first.toNat + i := by
    rw [UInt32.toNat_add, UInt32.toNat_ofNat_of_lt' (by omega)]
    omega
  refine ⟨_, Ipv4Subnet.parse_format _, ?_, ?_⟩
  · rw [UInt32.le_iff_toNat_le, hvalue]; omega
  · rw [UInt32.le_iff_toNat_le, hvalue]; omega

theorem neighbor_usable {scan : Scan} {entry : NeighborEntry} {device : DiscoveredDevice}
    (h : scan.neighbor entry = .usable device) :
    device.address = entry.address ∧ entry.interfaceIndex = scan.interface.index ∧ isUsableMac entry.macAddress = true := by
  unfold Scan.neighbor at h
  split at h
  · cases h
  · rename_i huse
    simp only [not_or, ne_eq, not_not, Bool.not_eq_false] at huse
    split at h
    · cases h
    · split at h <;> cases h
      exact ⟨rfl, huse⟩

/-- A neighbour that may be published. -/
theorem neighbor_offered {scan : Scan} {log : Log} (results : Results) {entry : NeighborEntry} {device : DiscoveredDevice}
    (h : scan.neighbor entry = .usable device) (hread : WasRead log entry) : Offered scan log results device := by
  obtain ⟨haddress, huse⟩ := neighbor_usable h
  unfold Scan.neighbor at h
  split at h
  · cases h
  · split at h
    · cases h
    · rename_i ip hip
      split at h
      · cases h
      · rename_i hrange
        cases h
        simp only [not_or, UInt32.not_lt, gt_iff_lt] at hrange
        exact ⟨⟨nofun, ⟨ip, hip, hrange⟩, fun _ => ⟨entry, hread, haddress, huse⟩⟩, fun hl => absurd rfl hl, nofun⟩

/-- What a step does to the results: nothing, or it publishes one record. -/
inductive Stores (scan : Scan) (log : Log) (s s' : State) : List Action → Prop
  | nothing (as : List Action) : (∀ entry x, .published entry x ∉ as) → s'.results = s.results → Stores scan log s s' as
  | record (entry : Option NeighborEntry) (device : DiscoveredDevice) : Offered scan log s.results device →
      (∀ e ∈ entry, scan.neighbor e = .usable device) → s'.results = addOrUpdate s.results device →
      Stores scan log s s' [.published entry (published s.results device)]

theorem Stores.extends {scan : Scan} {log : Log} {s s' : State} {as : List Action} (h : Stores scan log s s' as) :
    Extends s.results s'.results := by
  cases h with
  | nothing as _ hresults => rw [hresults]; exact extends_refl _
  | record entry device _ _ hresults => rw [hresults]; exact extends_addOrUpdate _ _

theorem records_none {as : List Action} (h : ∀ entry x, .published entry x ∉ as) : as.filterMap Action.record = [] := by
  refine List.filterMap_eq_nil_iff.mpr ?_
  intro a ha
  cases a with
  | published entry x => exact absurd ha (h entry x)
  | _ => rfl

theorem StreamInv.step {scan : Scan} {log : Log} {s s' : State} {e : Event} {as : List Action} (hs : StreamInv scan log s)
    (h : go scan s e = some (as, s')) (hstores : Stores scan log s s' as) (htaken : s'.workers.length ≤ scan.range.count)
    (hworkers : ∀ i w, s'.workers[i]? = some w → WorkerSound scan (log ++ [(s, e)]) s'.results (scan.address i) w)
    (hphase : PhaseSound scan (log ++ [(s, e)]) s'.phase) : StreamInv scan (log ++ [(s, e)]) s' := by
  have hext := hstores.extends
  have hrecords := records_snoc log h
  have hactions := actions_snoc scan log h
  -- what was published before is still there, grown
  have hbefore : ∀ x ∈ records scan log, Sound scan (log ++ [(s, e)]) x ∧
      ∃ r ∈ s'.results.rows, r.address = x.address ∧ DiscoveredDevice.Grows x r := by
    intro x hx
    obtain ⟨hsound, r, hr, hra, hgrows⟩ := hs.streamed x hx
    obtain ⟨r', hr', hra', hgrows'⟩ := hext r hr
    exact ⟨hsound.snoc _, r', hr', hra'.trans hra, hgrows.trans hgrows'⟩
  cases hstores with
  | nothing as has hresults =>
    rw [records_none has, List.append_nil] at hrecords
    refine ⟨?_, htaken, hworkers, hphase, ?_, ?_, ?_⟩
    · rw [hresults]
      exact fun r hr => (hs.stored r hr).snoc _
    · rw [hrecords]; exact hbefore
    · rw [hrecords]; exact hs.ordered
    · intro entry x hx
      rw [hactions] at hx
      exact (List.mem_append.mp hx).elim (hs.merged entry x) fun hx => absurd hx (has _ x)
  | record entry device hoffered hentry hresults =>
    change _ = _ ++ [published s.results device] at hrecords
    have hnew := (sound_published hoffered hs.stored).snoc (s, e)
    have hmem : published s.results device ∈ s'.results.rows := by
      rw [hresults]; exact mem_addOrUpdate.mpr (Or.inl rfl)
    refine ⟨?_, htaken, hworkers, hphase, ?_, ?_, ?_⟩
    · intro r hr
      rw [hresults] at hr
      rcases mem_addOrUpdate.mp hr with rfl | ⟨hr, -⟩
      · exact hnew
      · exact (hs.stored r hr).snoc _
    · rw [hrecords]
      exact forall_snoc hbefore ⟨hnew, _, hmem, rfl, .refl _⟩
    · rw [hrecords]
      refine List.pairwise_append.mpr ⟨hs.ordered, List.pairwise_singleton _ _, ?_⟩
      intro x hx y hy haddress
      rw [List.mem_singleton] at hy
      rw [hy] at haddress ⊢
      -- the new record is what is stored, and the earlier one has grown to it
      obtain ⟨-, r, hr, hra, hgrows⟩ := hbefore x hx
      rw [Table.key_inj hr hmem (hra.trans haddress)] at hgrows
      exact hgrows
    · intro n x hx
      rw [hactions] at hx
      rcases List.mem_append.mp hx with hx | hx
      · exact hs.merged n x hx
      · cases List.mem_singleton.mp hx
        exact ⟨device, hentry n rfl, published_address _ _⟩

/-- The range of a request that was accepted. -/
def Scan.Valid (scan : Scan) : Prop :=
  scan.range.first ≤ scan.range.last ∧ scan.range.count = scan.range.last.toNat - scan.range.first.toNat + 1

theorem beginScan_valid {vendorLookup : Option (Str → Option Str)} {request : DiscoveryRequest}
    {current : List LocalNetworkInterface} {scan : Scan} (h : beginScan vendorLookup request current = .ok scan) :
    scan.Valid := by
  obtain ⟨range, hrange, h⟩ := bind_ok_iff.mp h
  obtain ⟨-, h⟩ := throwIf_bind_ok_iff.mp h
  cases h
  obtain ⟨-, hle, hcount, -⟩ := DiscoveryRequest.validate_ok hrange
  exact ⟨hle, hcount⟩

/-- What a worker's step leaves it with. -/
theorem moves_sound {scan : Scan} {log : Log} {s s' : State} {i : Nat} {w w' : Worker} {e : Event} {as : List Action}
    (hs : StreamInv scan log s) (hrange : InRange scan (scan.address i)) (hw : s.workers[i]? = some w)
    (h : Moves scan s i w e as w') (hgo : go scan s e = some (as, s')) :
    WorkerSound scan (log ++ [(s, e)]) s.results (scan.address i) w' := by
  have hbefore := hs.workers i w hw
  cases h with
  | ping reply now =>
    refine afterPing_sound hrange ?_ now
    intro hreply
    unfold Answered
    rw [actions_snoc scan log hgo, hreply]
    simp
  | lookUp evidence live => exact (lookUp_sound hbefore _).later _ (extends_refl _)
  | resolve evidence live mac => exact (afterResolve_sound hbefore mac).later _ (extends_refl _)
  | gather evidence mac live =>
    refine (gather_sound hbefore hs.stored ?_ mac).later _ (extends_refl _)
    intro r hr
    exact ⟨Table.find_mem hr, Table.find_key hr⟩
  | check named device =>
    split
    · exact (afterPublish_sound hbefore named).later _ (extends_refl _)
    · exact Offered.later hbefore _ (extends_refl _)
  | name device name => exact (afterName_sound hbefore name).later _ (extends_refl _)
  | throws => trivial

theorem moves_record {scan : Scan} {s : State} {i : Nat} {w w' : Worker} {e : Event} {as : List Action}
    (h : Moves scan s i w e as w') : ∀ entry x, .published entry x ∉ as := by
  intro entry x hx
  cases h with
  | lookUp evidence live =>
    split at hx
    · cases List.mem_singleton.mp hx
    · cases hx
  | ping reply now => cases List.mem_singleton.mp hx
  | _ => cases hx

theorem step_stream {scan : Scan} {log : Log} {s s' : State} {e : Event} {as : List Action} (hvalid : scan.Valid)
    (hs : StreamInv scan log s) (h : go scan s e = some (as, s')) : StreamInv scan (log ++ [(s, e)]) s' := by
  obtain ⟨hle, hcount⟩ := hvalid
  have hnothing {t : State} (ht : t.results = s.results) : Stores scan log s t [] := .nothing [] (fun _ _ => nofun) ht
  have hworkers : ∀ i w, s.workers[i]? = some w → WorkerSound scan (log ++ [(s, e)]) s.results (scan.address i) w :=
    fun i w hw => (hs.workers i w hw).later _ (extends_refl _)
  have hset {i : Nat} {w : Worker} : (s.setWorker i w).workers.length ≤ scan.range.count := by
    rw [State.setWorker, List.length_set]
    exact hs.taken
  have hphase := hs.phase.snoc (s, e)
  cases go_change h with
  | cancel => exact hs.step h (hnothing rfl) hs.taken hworkers hphase
  | neighborsReturn final entries _ =>
    refine hs.step h (hnothing rfl) hs.taken hworkers ?_
    intro entry hentry
    exact ⟨s, entries, by simp, hentry⟩
  | neighborsFail final _ _ => exact hs.step h (hnothing rfl) hs.taken hworkers (merged_phase _ _ s final)
  | neighborsCancelled _ _ _ _ => exact hs.step h (hnothing rfl) hs.taken hworkers trivial
  | merged final _ => exact hs.step h (hnothing rfl) hs.taken hworkers (merged_phase _ _ s final)
  | malformed final _ _ _ _ => exact hs.step h (hnothing rfl) hs.taken hworkers (merged_phase _ _ s final)
  | skip final entry entries hp _ =>
    rw [hp] at hphase
    exact hs.step h (hnothing rfl) hs.taken hworkers fun x hx => hphase x (List.mem_cons_of_mem _ hx)
  | pick final entry entries device hp husable =>
    rw [hp] at hphase
    exact hs.step h (hnothing rfl) hs.taken hworkers ⟨husable, hphase⟩
  | storeNeighbor final entry device entries hp =>
    have hbefore := hs.phase
    rw [hp] at hphase hbefore
    obtain ⟨husable, hread⟩ := hbefore
    have hoffered := neighbor_offered s.results husable (hread entry List.mem_cons_self)
    refine hs.step h (.record (some entry) device hoffered ?_ rfl) hs.taken ?_
      fun x hx => hphase.2 x (List.mem_cons_of_mem _ hx)
    · intro n hn
      cases hn; exact husable
    · intro i w hw
      exact (hs.workers i w hw).later _ (extends_addOrUpdate _ _)
  | take now hp hlt =>
    refine hs.step h (hnothing rfl) ?_ ?_ hphase
    · simp only [List.length_append, List.length_singleton]; omega
    · intro i w hw
      rcases getElem?_snoc_cases hw with hw | ⟨rfl, rfl⟩
      · exact hworkers i w hw
      · exact start_sound (address_inRange hcount hle hlt) now
  | move i w w' e as hp hw hmoves =>
    have hi : i < s.workers.length := (List.getElem?_eq_some_iff.mp hw).1
    have hrange : InRange scan (scan.address i) := address_inRange hcount hle (Nat.lt_of_lt_of_le hi hs.taken)
    refine hs.step h (.nothing as (moves_record hmoves) rfl) hset ?_ hphase
    intro j v hv
    rcases getElem?_set_cases hv with ⟨-, hv⟩ | ⟨rfl, rfl⟩
    · exact hworkers j v hv
    · exact moves_sound hs hrange hw hmoves h
  | store i named device hp hw =>
    have hoffered : Offered scan log s.results device := hs.workers i _ hw
    refine hs.step h (.record none device hoffered (fun _ hn => nomatch hn) rfl) hset ?_ hphase
    intro j v hv
    rcases getElem?_set_cases hv with ⟨-, hv⟩ | ⟨rfl, rfl⟩
    · exact (hs.workers j v hv).later _ (extends_addOrUpdate _ _)
    · exact (afterPublish_sound hoffered named).later _ (extends_addOrUpdate _ _)
  | report i hp hw =>
    refine hs.step h (hnothing rfl) hset ?_ hphase
    intro j v hv
    rcases getElem?_set_cases hv with ⟨-, hv⟩ | ⟨rfl, rfl⟩
    · exact hworkers j v hv
    · trivial
  | fail hp _ => exact hs.step h (hnothing rfl) hs.taken hworkers trivial
  | join hp _ _ _ => exact hs.step h (hnothing rfl) hs.taken hworkers trivial

theorem runs_stream {scan : Scan} {log : Log} {s : State} (hvalid : scan.Valid) (h : (scanning scan).Runs log s) :
    StreamInv scan log s := by
  refine h.log_inv ?_ ?_
  · intro s hs
    cases hs
    refine ⟨nofun, Nat.zero_le _, ?_, trivial, nofun, List.Pairwise.nil, nofun⟩
    intro i w hw
    simp at hw
  · intro log s e s' _ ih hs
    obtain ⟨⟨as, _⟩, hgo, rfl⟩ := Option.map_eq_some_iff.mp hs
    exact step_stream hvalid ih hgo

/-- In every run of a scan, whatever the probes answer and whenever it is cancelled: of
    two records published for one address the later knows all that the earlier did; a
    record is Online when and only when it has a time, and only by a ping of its address
    that answered or by the interface's own address; every record is of an address in the
    range, and one published on account of a neighbour entry is of an entry of the
    interface with a usable MAC, as is cache evidence. -/
theorem published_records_grow (vendorLookup : Option (Str → Option Str)) (request : DiscoveryRequest)
    (current : List LocalNetworkInterface) (scan : Scan) (hbegin : beginScan vendorLookup request current = .ok scan)
    (log : Log) (s : State) (h : (scanning scan).Runs log s) :
    (records scan log).Pairwise (fun a b => a.address = b.address → DiscoveredDevice.Grows a b) ∧
    (∀ x ∈ records scan log, (x.isOnline = true ↔ x.lastLiveObservationAt ≠ none) ∧
      (x.isOnline = true → .pinged x.address true ∈ actions scan log ∨ x.address = request.interface.address) ∧
      InRange scan x.address ∧ (x.evidence.neighborCache = true → Cached scan log x.address)) ∧
    ∀ entry x, .published (some entry) x ∈ actions scan log →
      x.address = entry.address ∧ entry.interfaceIndex = request.interface.index ∧
        isUsableMac entry.macAddress = true := by
  have hs := runs_stream (beginScan_valid hbegin) h
  have hinterface : scan.interface = request.interface := by
    obtain ⟨range, -, hb⟩ := bind_ok_iff.mp hbegin
    obtain ⟨-, hb⟩ := throwIf_bind_ok_iff.mp hb
    cases hb
    rfl
  rw [← hinterface]
  refine ⟨hs.ordered, ?_, ?_⟩
  · intro x hx
    obtain ⟨⟨⟨honline, hrange, hcached⟩, hlive⟩, -⟩ := hs.streamed x hx
    exact ⟨hlive, honline, hrange, hcached⟩
  · intro entry x hx
    obtain ⟨device, husable, haddress⟩ := hs.merged entry x hx
    obtain ⟨hfrom, hindex, hmac⟩ := neighbor_usable husable
    exact ⟨haddress.trans hfrom, hindex, hmac⟩

def ethernet : LocalNetworkInterface :=
  { id := str "test", index := 7, address := str "10.0.0.1", mask := str "255.255.255.0",
    macAddress := str "00:11:22:33:44:01" }

/-- The interface's own address and the one after it. -/
def twoAddresses : DiscoveryRequest :=
  { interface := ethernet, startAddress := str "10.0.0.1", endAddress := str "10.0.0.2", concurrency := 2 }

def smallScan : Scan := ⟨ethernet, ⟨0x0A000001, 0x0A000002, 2⟩, 2, none⟩

theorem smallScan_begins : beginScan none twoAddresses [ethernet] = .ok smallScan := rfl

/-- The cache has the second address; it answers a ping and has a name. -/
def smallScanEvents : List Event :=
  [.neighborsReturn [⟨7, str "10.0.0.2", str "00:11:22:33:44:02"⟩], .merge, .storeNeighbor, .merge, .take ⟨1, 0⟩,
    .take ⟨1, 0⟩, .pingReturns 1 true ⟨2, 0⟩, .gather 0, .lookUp 1, .check 0, .gather 1, .store 0, .check 1, .store 1,
    .nameReturns 1 (some (str "nas")), .nameReturns 0 none, .check 1, .report 0, .store 1, .report 1, .join,
    .neighborsThrow false]

theorem small_scan_grows : ∃ log s, (scanning smallScan).Runs log s ∧ s.phase = .returned 2 2 ∧
    (records smallScan log).length = 4 ∧
    ((records smallScan log).Pairwise (fun a b => a.address = b.address → DiscoveredDevice.Grows a b) ∧
    (∀ x ∈ records smallScan log, (x.isOnline = true ↔ x.lastLiveObservationAt ≠ none) ∧
      (x.isOnline = true → .pinged x.address true ∈ actions smallScan log ∨ x.address = twoAddresses.interface.address) ∧
      InRange smallScan x.address ∧ (x.evidence.neighborCache = true → Cached smallScan log x.address)) ∧
    ∀ entry x, .published (some entry) x ∈ actions smallScan log →
      x.address = entry.address ∧ entry.interfaceIndex = twoAddresses.interface.index ∧
        isUsableMac entry.macAddress = true) := by
  have h : (scanning smallScan).Runs _ _ :=
    Machine.runs_of_exec rfl (show (scanning smallScan).exec _ smallScanEvents = _ from rfl)
  exact ⟨_, _, h, rfl, rfl, published_records_grow none twoAddresses [ethernet] smallScan smallScan_begins _ _ h⟩

end MythLab.Discovery.NetworkDiscoveryService
