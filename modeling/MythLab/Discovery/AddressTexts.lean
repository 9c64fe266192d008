/-
  MythLab.Discovery.AddressTexts — one text for each IPv4 address.

  Three functions read dotted addresses: `Ipv4Subnet.parse` for scans and subnets,
  `normalizeIPv4` for what is stored, `networkIdentity` for what is launched. The first
  takes blanks and leading zeros, the others do not. What `normalizeIPv4` takes is the text
  that `format` gives of an address, and nothing else (`normalizeIPv4_eq_format`); all three
  agree on these texts, so wherever the code compares two of them it compares the
  addresses: of stored devices (`Stored.eq_iff`), broadcast addresses (`broadcastsTo_iff`),
  the keys of a scan's results in every run (`find_iff`). Together: `ipv4_readers_agree`.
-/
import MythLab.Devices.NormalDevices
import MythLab.Connections.SavedIdentities
import MythLab.Discovery.ScanFindings
import MythLab.Discovery.Vendors
import MythLab.WakeOnLan.WakeRouting

namespace MythLab.Discovery.Ipv4Subnet

open Lib Dotnet Devices DeviceRules
open Connections.ExternalConnections (networkIdentity networkIdentity_dotted)
open WakeOnLan.WakeRouting (broadcastsTo limitedBroadcast)

/-! ## The texts of addresses -/

theorem exists_octets {a b c d : Nat} (ha : a < 256) (hb : b < 256) (hc : c < 256) (hd : d < 256) :
    ∃ address, octets address = [a, b, c, d] := by
  refine ⟨UInt32.ofNat (((a * 256 + b) * 256 + c) * 256 + d), ?_⟩
  have hvalue : (UInt32.ofNat (((a * 256 + b) * 256 + c) * 256 + d)).toNat = ((a * 256 + b) * 256 + c) * 256 + d :=
    UInt32.toNat_ofNat_of_lt' (by unfold UInt32.size; omega)
  simp only [octets, hvalue, List.cons.injEq, and_true]
  refine ⟨?_, ?_, ?_, ?_⟩
  · omega
  · omega
  · omega
  · omega

/-- A dotted address is the text of an address. -/
theorem isDotted_iff {s : Str} : isDotted s = true ↔ ∃ address, s = format address := by
  constructor
  · intro h
    obtain ⟨hlength, hparts⟩ := of_decide_eq_true h
    have hs := (normalizeIPv4_ok_iff.mp (normalizeIPv4_eq_ok.mpr ⟨h, rfl⟩)).2
    have hbyte : ∀ part ∈ split (chr '.') s, parseDecimal part < 256 := fun part hpart =>
      parseDecimal_lt ((Bool.not_eq_true _).mp fun hbad => hparts (List.any_eq_true.mpr ⟨part, hpart, hbad⟩))
    match hsplit : split (chr '.') s, hlength with
    | [a, b, c, d], _ =>
      rw [hsplit] at hs hbyte
      simp only [List.forall_mem_cons] at hbyte
      obtain ⟨ha, hb, hc, hd, -⟩ := hbyte
      obtain ⟨address, hoctets⟩ := exists_octets ha hb hc hd
      refine ⟨address, ?_⟩
      unfold format
      rw [hoctets, hs]
      rfl
  · intro h
    obtain ⟨address, rfl⟩ := h
    exact (normalizeIPv4_eq_ok.mp (normalizeIPv4_format address)).1

theorem normalizeIPv4_eq_format {s t : Str} :
    normalizeIPv4 s = .ok t ↔ ∃ address, s = format address ∧ t = format address := by
  rw [normalizeIPv4_eq_ok, isDotted_iff]
  constructor
  · intro h
    obtain ⟨⟨address, hs⟩, rfl⟩ := h
    exact ⟨address, hs, hs⟩
  · intro h
    obtain ⟨address, rfl, rfl⟩ := h
    exact ⟨⟨address, rfl⟩, rfl⟩

theorem networkIdentity_format (address : UInt32) (ipOnly : Bool) :
    networkIdentity (format address) ipOnly = .ok (format address) :=
  networkIdentity_dotted (isDotted_iff.mpr ⟨address, rfl⟩) ipOnly

/-! ## Stored texts -/

/-- A stored address: the text of an address, or none. -/
def Stored (s : Str) : Prop := s = [] ∨ ∃ address, s = format address

theorem stored_of_normalizeIPv4IfAny {value ip : Str} (h : normalizeIPv4IfAny value = .ok ip) : Stored ip := by
  unfold normalizeIPv4IfAny at h
  split at h
  · obtain ⟨address, -, hip⟩ := normalizeIPv4_eq_format.mp h
    exact Or.inr ⟨address, hip⟩
  · rename_i hpos
    obtain rfl := Except.ok.inj h
    exact Or.inl (List.eq_nil_of_length_eq_zero (Nat.eq_zero_of_not_pos hpos))

theorem parse_nil (address : UInt32) : parse [] ≠ .ok address := fun h => (by cases h)

theorem format_ne_nil (address : UInt32) : format address ≠ [] := by
  intro h
  have hparse := parse_format address
  rw [h] at hparse
  exact parse_nil address hparse

/-- A stored text is compared with the text of an address as a number. -/
theorem Stored.parse_iff {s : Str} (h : Stored s) {address : UInt32} : parse s = .ok address ↔ s = format address := by
  rcases h with rfl | ⟨other, rfl⟩
  · exact iff_of_false (parse_nil address) (format_ne_nil address).symm
  · rw [parse_format, Except.ok.injEq]
    exact ⟨congrArg format, format_inj⟩

theorem Stored.eq_iff {s t : Str} (hs : Stored s) (ht : Stored t) : s = t ↔ parse s = parse t := by
  refine ⟨congrArg parse, ?_⟩
  intro h
  rcases ht with rfl | ⟨address, rfl⟩
  · rcases hs with rfl | ⟨other, rfl⟩
    · rfl
    · exact absurd (h.symm.trans (parse_format other)) (parse_nil other)
  · exact hs.parse_iff.mp (h.trans (parse_format address))

/-! ## Duplicates and routing -/

section Compared

variable {fw : Framework} {d n m : Device}

theorem stored_addresses (h : normalizeAndValidate fw d = .ok n) :
    Stored n.ipv4Address ∧ Stored n.wake.broadcastAddress := by
  obtain ⟨ip, mac, broadcast, haccepted, rfl⟩ := normalizeAndValidate_ok_iff.mp h
  exact ⟨stored_of_normalizeIPv4IfAny haccepted.ipv4Address, stored_of_normalizeIPv4IfAny haccepted.broadcastAddress⟩

/-- Both texts are of one address. -/
def SameAddress (s t : Str) : Prop := ∃ address, parse s = .ok address ∧ parse t = .ok address

theorem Stored.same_iff {s t : Str} (hs : Stored s) (ht : Stored t) : SameAddress s t ↔ s ≠ [] ∧ s = t := by
  constructor
  · intro h
    obtain ⟨address, hparse, hparse'⟩ := h
    obtain rfl := hs.parse_iff.mp hparse
    exact ⟨format_ne_nil address, (ht.parse_iff.mp hparse').symm⟩
  · intro h
    obtain ⟨hne, rfl⟩ := h
    obtain ⟨address, rfl⟩ := hs.resolve_left hne
    exact ⟨address, parse_format address, parse_format address⟩

/-- The reason of two records with normal identities. -/
theorem matchReason_normal (hn : NormalIdentity n) (hm : NormalIdentity m) : matchReason fw n m =
    .ok (if n.id = m.id then none
      else if n.macAddress ≠ [] ∧ n.macAddress = m.macAddress then some "MAC address"
      else if n.hostname ≠ [] ∧ fw.equalsIgnoreCase n.hostname m.hostname = true then some "hostname"
      else if n.ipv4Address ≠ [] ∧ n.ipv4Address = m.ipv4Address then some "IPv4 address" else none) := by
  unfold matchReason
  split
  · rfl
  · rw [sameMac_normal hn hm, ok_bind, hn.hostname, hm.hostname, pure_eq_ok]
    simp only [decide_eq_true_eq, List.length_pos_iff, gt_iff_lt]

theorem matchReason_address_iff (hn : NormalIdentity n) (hm : NormalIdentity m) (hstored : Stored n.ipv4Address)
    (hstored' : Stored m.ipv4Address) : matchReason fw n m = .ok (some "IPv4 address") ↔
      n.id ≠ m.id ∧ ¬ (n.macAddress ≠ [] ∧ n.macAddress = m.macAddress) ∧
        ¬ (n.hostname ≠ [] ∧ fw.equalsIgnoreCase n.hostname m.hostname = true) ∧
          SameAddress n.ipv4Address m.ipv4Address := by
  rw [matchReason_normal hn hm, Except.ok.injEq, hstored.same_iff hstored']
  by_cases hid : n.id = m.id
  · simp [hid]
  rw [if_neg hid]
  by_cases hmac : n.macAddress ≠ [] ∧ n.macAddress = m.macAddress
  · rw [if_pos hmac]
    exact iff_of_false (by decide) fun h => h.2.1 hmac
  rw [if_neg hmac]
  by_cases hhost : n.hostname ≠ [] ∧ fw.equalsIgnoreCase n.hostname m.hostname = true
  · rw [if_pos hhost]
    exact iff_of_false (by decide) fun h => h.2.2.1 hhost
  rw [if_neg hhost]
  by_cases hip : n.ipv4Address ≠ [] ∧ n.ipv4Address = m.ipv4Address
  · rw [if_pos hip]
    exact iff_of_true rfl ⟨hid, hmac, hhost, hip⟩
  · rw [if_neg hip]
    exact iff_of_false (fun h => (by cases h)) fun h => hip h.2.2.2

/-- A stored broadcast is that of an interface where it is its number. -/
theorem broadcastsTo_iff {broadcast : Str} (h : Stored broadcast) (i : LocalNetworkInterface) :
    held (broadcastsTo broadcast i) = true ↔
      ∃ subnet, i.subnet = .ok subnet ∧ parse broadcast = .ok subnet.broadcast := by
  unfold broadcastsTo
  rw [held_bind]
  refine exists_congr fun subnet => and_congr_right fun _ => ?_
  rw [h.parse_iff]
  show decide (format subnet.broadcast = broadcast) = true ↔ _
  rw [decide_eq_true_iff, eq_comm]

theorem limitedBroadcast_iff {broadcast : Str} (h : Stored broadcast) :
    broadcast = limitedBroadcast ↔ parse broadcast = .ok 0xFFFFFFFF := by
  have hlimited : limitedBroadcast = format 0xFFFFFFFF := by decide +kernel
  rw [h.parse_iff, hlimited]

end Compared

/-! ## The keys of a scan's results -/

section Keys

open NetworkDiscoveryService

variable {scan : Scan} {s s' : State} {e : Event}

/-- The cache gives the texts of addresses. -/
def CanonicalReads (_ : State) : Event → Prop
  | .neighborsReturn entries => Canonical entries
  | _ => True

instance (entries : List NeighborEntry) : Decidable (Canonical entries) :=
  decidable_of_iff (∀ entry ∈ entries, isDotted entry.address = true) (forall₂_congr fun _ _ => isDotted_iff)

instance (s : State) : (e : Event) → Decidable (CanonicalReads s e)
  | .neighborsReturn entries => inferInstanceAs (Decidable (Canonical entries))
  | .cancel | .neighborsThrow _ | .merge | .storeNeighbor | .take _ | .pingReturns _ _ _ | .lookUp _ | .resolveReturns _ _
  | .gather _ | .check _ | .store _ | .nameReturns _ _ | .report _ | .throws _ | .join => .isTrue trivial

/-- The entries that have still to be merged. -/
def entriesLeft : Phase → List NeighborEntry
  | .merging _ entries | .storing _ _ _ entries => entries
  | _ => []

/-- Every record, stored or on its way, has the text of an address. -/
structure TextKeys (s : State) : Prop where
  stored : ∀ r ∈ s.results.rows, ∃ address, r.address = format address
  carried : s.Carries fun d => ∃ address, d.address = format address
  left : Canonical (entriesLeft s.phase)

theorem makes_texts (scan : Scan) (h : TextKeys s) : Makes scan s fun d => ∃ address, d.address = format address where
  device _ _ _ _ := ⟨_, rfl⟩
  named _ _ hd := hd
  neighbor final entry entries device hphase husable := by
    have hleft := h.left
    rw [hphase] at hleft
    obtain ⟨address, haddress⟩ := hleft entry List.mem_cons_self
    exact ⟨address, (neighbor_usable husable).1.trans haddress⟩

theorem canonical_left {as : List Action} (h : Change scan s e as s') (hs : Canonical (entriesLeft s.phase))
    (hread : CanonicalReads s e) : Canonical (entriesLeft s'.phase) := by
  have hnone : Canonical [] := fun _ hentry => (by cases hentry)
  have hmerged (final : Bool) : Canonical (entriesLeft (s.merged final).phase) := by
    cases final with
    | true => exact hnone
    | false => exact hnone
  cases h with
  | neighborsReturn final entries _ => exact hread
  | neighborsFail final _ _ => exact hmerged final
  | merged final _ => exact hmerged final
  | malformed final _ _ _ _ => exact hmerged final
  | skip final entry entries hp _ =>
    rw [hp] at hs
    exact fun other hother => hs other (List.mem_cons_of_mem _ hother)
  | pick final entry entries device hp _ =>
    rw [hp] at hs
    exact fun other hother => hs other (List.mem_cons_of_mem _ hother)
  | storeNeighbor final entry device entries hp =>
    rw [hp] at hs
    exact hs
  | neighborsCancelled | fail | join => exact hnone
  | cancel | take | move | store | report => exact hs

theorem TextKeys.step {as : List Action} (h : TextKeys s) (hread : CanonicalReads s e)
    (hs : go scan s e = some (as, s')) : TextKeys s' := by
  have hchange := go_change hs
  refine ⟨?_, change_carries (makes_texts scan h) hchange h.carried, canonical_left hchange h.left hread⟩
  cases change_publication hchange with
  | nothing _ _ _ hresults =>
    rw [hresults]
    exact h.stored
  | record entry device hdevice hresults =>
    rw [hresults]
    intro r hr
    rcases mem_addOrUpdate.mp hr with rfl | ⟨hr, -⟩
    · rw [published_address]
      exact publishes_carried h.carried hdevice
    · exact h.stored r hr

/-- In every run over a cache that gives the texts of addresses, the results are found by number. -/
theorem find_iff {log : Log} (h : (scanning scan).Runs log s)
    (hreads : Machine.Throughout CanonicalReads log) (address : UInt32) (d : DiscoveredDevice) :
    s.results.find (format address) = some d ↔ d ∈ s.results.rows ∧ parse d.address = .ok address := by
  have hkeys : TextKeys s := by
    refine h.inv ?_ ?_ hreads
    · intro s hs
      cases hs
      exact ⟨fun _ hr => (by cases hr), ⟨fun _ hw => (by cases hw), trivial⟩, fun _ hentry => (by cases hentry)⟩
    · intro s e s' hs hread hstep
      obtain ⟨⟨as, _⟩, hgo, rfl⟩ := Option.map_eq_some_iff.mp hstep
      exact hs.step hread hgo
  rw [Table.find_some_iff]
  refine and_congr_right ?_
  intro hd
  exact (Stored.parse_iff (Or.inr (hkeys.stored d hd))).symm

end Keys

/-! ## Together -/

/-- What the code compares of two stored records, and how they are routed, by number. -/
structure ComparesNumbers (fw : Framework) (n m : Device) : Prop where
  addresses : n.ipv4Address = m.ipv4Address ↔ parse n.ipv4Address = parse m.ipv4Address
  broadcasts : n.wake.broadcastAddress = m.wake.broadcastAddress ↔
    parse n.wake.broadcastAddress = parse m.wake.broadcastAddress
  duplicate : matchReason fw n m = .ok (some "IPv4 address") ↔
    n.id ≠ m.id ∧ ¬ (n.macAddress ≠ [] ∧ n.macAddress = m.macAddress) ∧
      ¬ (n.hostname ≠ [] ∧ fw.equalsIgnoreCase n.hostname m.hostname = true) ∧ SameAddress n.ipv4Address m.ipv4Address
  directed : ∀ i, held (broadcastsTo n.wake.broadcastAddress i) = true ↔
    ∃ subnet, i.subnet = .ok subnet ∧ parse n.wake.broadcastAddress = .ok subnet.broadcast
  limited : n.wake.broadcastAddress = limitedBroadcast ↔ parse n.wake.broadcastAddress = .ok 0xFFFFFFFF

/-- `parse` reads the text of every address back, and the other two readers take it as it is. What
    `normalizeIPv4` returns is such a text, the only one that it takes for that address, and
    `networkIdentity` takes it. So stored records and the results of a scan compare addresses by number
    where they compare texts. -/
theorem ipv4_readers_agree (fw : Framework) :
    (∀ address, parse (format address) = .ok address ∧ normalizeIPv4 (format address) = .ok (format address) ∧
      ∀ ipOnly, networkIdentity (format address) ipOnly = .ok (format address)) ∧
    (∀ s t, normalizeIPv4 s = .ok t → ∃ address, parse t = .ok address ∧ t = format address ∧
      networkIdentity t true = .ok t ∧
        ∀ s' t', normalizeIPv4 s' = .ok t' → t' = t ∨ parse s' = .ok address → s' = t) ∧
    (∀ d e n m, normalizeAndValidate fw d = .ok n → normalizeAndValidate fw e = .ok m → ComparesNumbers fw n m) ∧
    ∀ scan log s, (NetworkDiscoveryService.scanning scan).Runs log s → Machine.Throughout CanonicalReads log →
      ∀ address d, s.results.find (format address) = some d ↔ d ∈ s.results.rows ∧ parse d.address = .ok address := by
  refine ⟨?_, ?_, ?_, fun scan log s h hreads => find_iff h hreads⟩
  · exact fun address => ⟨parse_format address, normalizeIPv4_format address, networkIdentity_format address⟩
  · intro s t h
    obtain ⟨address, -, rfl⟩ := normalizeIPv4_eq_format.mp h
    refine ⟨address, parse_format address, rfl, networkIdentity_format address true, ?_⟩
    intro s' t' h' hsame
    obtain ⟨other, rfl, rfl⟩ := normalizeIPv4_eq_format.mp h'
    rcases hsame with hsame | hsame
    · exact hsame
    · rw [Except.ok.inj ((parse_format other).symm.trans hsame)]
  · intro d e n m hn hm
    obtain ⟨hip, hbroadcast⟩ := stored_addresses hn
    obtain ⟨hip', hbroadcast'⟩ := stored_addresses hm
    exact
      { addresses := hip.eq_iff hip'
        broadcasts := hbroadcast.eq_iff hbroadcast'
        duplicate :=
          matchReason_address_iff (normalizeAndValidate_identity hn) (normalizeAndValidate_identity hm) hip hip'
        directed := broadcastsTo_iff hbroadcast
        limited := limitedBroadcast_iff hbroadcast }

/-- A stored record with an address, and one with the same address. -/
def router : Device := { id := 1, displayName := str "Router", ipv4Address := str "10.0.0.2" }

def gateway : Device := { id := 2, displayName := str "Gateway", ipv4Address := str "10.0.0.2" }

/-- The cache of a scan gives the same address; its record is found by number. -/
theorem cached_router_found :
    (∃ address, parse (str "10.0.0.2") = .ok address ∧ str "10.0.0.2" = format address) ∧
      ComparesNumbers .ascii router gateway ∧
        ∃ log s, (NetworkDiscoveryService.scanning NetworkDiscoveryService.vendorScan).Runs log s ∧
          (s.results.find (format 0x0A000002)).isSome = true ∧
          ∀ address d, s.results.find (format address) = some d ↔ d ∈ s.results.rows ∧ parse d.address = .ok address := by
  obtain ⟨-, hread, hcompare, hfind⟩ := ipv4_readers_agree .ascii
  obtain ⟨address, hparse, hformat, -⟩ := hread (str "10.0.0.2") (str "10.0.0.2") (by decide)
  obtain ⟨log, s, hruns, hreads, hfound⟩ :=
    Machine.exists_run (NetworkDiscoveryService.scanning NetworkDiscoveryService.vendorScan) CanonicalReads
      (fun s => (s.results.find (format 0x0A000002)).isSome) NetworkDiscoveryService.oneNeighbor rfl (by decide +kernel)
  exact ⟨⟨address, hparse, hformat⟩, hcompare router gateway _ _ (by decide) (by decide),
    log, s, hruns, hfound, hfind _ log s hruns hreads⟩

end MythLab.Discovery.Ipv4Subnet
