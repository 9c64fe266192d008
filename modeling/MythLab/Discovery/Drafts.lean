/-
  MythLab.Discovery.Drafts — the device a discovered address is added as.

  The draft has the host name for its name, and a stored device has a name of at most 120
  characters while a host name may have 253. Proved (`draft_added_iff`): of what the
  Windows probe finds, the draft is accepted as it is exactly when the host name has at
  most 120 characters (`long_name_is_refused`).
-/
import MythLab.Discovery.DiscoveryModels
import MythLab.Devices.NormalDevices

namespace MythLab.Discovery

open Lib Dotnet Devices DeviceRules

/-- `id` is the new id. -/
def DiscoveredDevice.toDevice (id : Guid) (d : DiscoveredDevice) : Device where
  id := id
  displayName := if d.hostname.length = 0 then d.address else d.hostname
  hostname := d.hostname
  ipv4Address := d.address
  macAddress := d.macAddress
  lastKnownState := if d.isOnline then .online else .unknown
  lastSeen := if d.isOnline then d.lastLiveObservationAt else none

/-- `ReverseDnsAsync`, of the name the resolver answers. -/
def reverseDnsName (fw : Framework) (hostName : Str) : Option Str :=
  let name := trimEnd (chr '.') hostName
  if name.length > 253 ∨ ¬ fw.isDnsName name then none else some name

/-- A host name the Windows probe lets through. -/
def ProbedName (fw : Framework) (name : Str) : Prop :=
  name.getLast? ≠ some (chr '.') ∧ name.length ≤ 253 ∧ fw.isDnsName name = true

/-- A record of what the Windows probe finds. -/
structure Probed (fw : Framework) (d : DiscoveredDevice) : Prop where
  address : ∃ address, d.address = Ipv4Subnet.format address
  hostname : d.hostname = [] ∨ ProbedName fw d.hostname
  macAddress : d.macAddress = [] ∨ MacAddress.normalize d.macAddress = .ok d.macAddress

/-- The draft is accepted, with everything it was filled with. -/
def Added (fw : Framework) (draft : Device) : Prop :=
  ∃ n, normalizeAndValidate fw draft = .ok n ∧ n.displayName = draft.displayName ∧ n.hostname = draft.hostname ∧
    n.ipv4Address = draft.ipv4Address ∧ n.macAddress = draft.macAddress ∧ n.lastKnownState = draft.lastKnownState ∧
      n.lastSeen = draft.lastSeen ∧ n.wake.capability = .disabled

variable {fw : Framework}

theorem trimEnd_of_last {c : Char16} {s : Str} (h : s.getLast? ≠ some c) : trimEnd c s = s := by
  unfold trimEnd
  rw [List.rdropWhile_eq_self_iff]
  intro hne hlast
  rw [List.getLast?_eq_some_getLast hne] at h
  exact h (congrArg some (eq_of_beq hlast))

theorem reverseDnsName_probed {hostName name : Str} (h : reverseDnsName fw hostName = some name) : ProbedName fw name := by
  unfold reverseDnsName at h
  dsimp only at h
  split at h
  · cases h
  · rename_i hform
    cases h
    rw [not_or, not_not, Nat.not_lt] at hform
    refine ⟨?_, hform⟩
    intro hlast
    by_cases hne : trimEnd (chr '.') hostName = []
    · rw [hne] at hlast
      cases hlast
    · rw [List.getLast?_eq_some_getLast hne, Option.some.injEq] at hlast
      have hnot := List.rdropWhile_last_not (· == chr '.') hostName hne
      exact hnot (beq_iff_eq.mpr hlast)

theorem format_length (address : UInt32) : 1 ≤ (Ipv4Subnet.format address).length ∧ (Ipv4Subnet.format address).length ≤ 15 := by
  have hdecimal : ∀ n < 256, (decimal n).length ≤ 3 := by decide +kernel
  have hle (n : Nat) (hn : n ∈ Ipv4Subnet.octets address) : (decimal n).length ≤ 3 := hdecimal n (Ipv4Subnet.octets_lt hn)
  simp only [Ipv4Subnet.octets, List.forall_mem_cons] at hle
  obtain ⟨h1, h2, h3, h4, -⟩ := hle
  simp only [Ipv4Subnet.format, Ipv4Subnet.octets, List.map_cons, List.map_nil, Ipv4Subnet.join_four, List.length_append,
    List.length_cons]
  omega

theorem storedMac_of_normal {d : Device} (h : d.macAddress = [] ∨ MacAddress.normalize d.macAddress = .ok d.macAddress) :
    storedMac d = .ok d.macAddress := by
  unfold storedMac
  rcases h with h | h
  · rw [h]
    rfl
  · rw [if_neg, h]
    intro hblank
    have hdigits := (MacAddress.normalize_denoted h).1
    have hnone : d.macAddress.filter isHexDigit = [] := by
      rw [List.filter_eq_nil_iff]
      intro c hc
      simp [MacAddress.isHexDigit_of_isWhiteSpace (List.all_eq_true.mp hblank c hc)]
    rw [hnone] at hdigits
    cases hdigits

variable {d : DiscoveredDevice} {id : Guid}

/-- The name and the host name of the draft have no white space around them and no dot after them. -/
theorem draft_names (hnames : SpacelessNames fw) (hd : Probed fw d) :
    trim (d.toDevice id).displayName = (d.toDevice id).displayName ∧ storedHost (d.toDevice id) = d.hostname := by
  obtain ⟨address, haddress⟩ := hd.address
  rcases hd.hostname with hnil | ⟨hdot, -, hdns⟩
  · refine ⟨?_, ?_⟩
    · simp [DiscoveredDevice.toDevice, hnil, haddress, Ipv4Subnet.trim_format]
    · simp [DiscoveredDevice.toDevice, storedHost, hnil, trim, trimEnd]
  · have htrim : trim d.hostname = d.hostname := trim_of_spaceless (hnames _ hdns)
    refine ⟨?_, ?_⟩
    · unfold DiscoveredDevice.toDevice
      dsimp only
      split
      · rw [haddress, Ipv4Subnet.trim_format]
      · exact htrim
    · show trimEnd (chr '.') (trim d.hostname) = d.hostname
      rw [htrim, trimEnd_of_last hdot]

/-- A draft whose name is not too long is accepted, and is what is stored. -/
theorem draft_accepted (hnames : SpacelessNames fw) (hd : Probed fw d) (hid : id ≠ Guid.empty)
    (hlength : d.hostname.length ≤ 120) :
    normalizeAndValidate fw (d.toDevice id) = .ok (d.toDevice id) := by
  obtain ⟨hname, hhost⟩ := @draft_names fw d id hnames hd
  obtain ⟨address, haddress⟩ := hd.address
  have hformat := format_length address
  have hip : trim d.address = d.address := by rw [haddress, Ipv4Subnet.trim_format]
  have hdisplay : 1 ≤ (d.toDevice id).displayName.length ∧ (d.toDevice id).displayName.length ≤ 120 := by
    unfold DiscoveredDevice.toDevice
    dsimp only
    split
    · rw [haddress]
      omega
    · omega
  refine normalizeAndValidate_ok_iff.mpr ⟨d.address, d.macAddress, [], ?_, ?_⟩
  · exact
      { id := hid
        name := by rwa [hname]
        reachable := Or.inr (by
          show trim d.address ≠ []
          rw [hip, haddress]
          exact List.ne_nil_of_length_pos hformat.1)
        host := by
          rw [hhost]
          refine ⟨by omega, fun hne => ?_⟩
          rcases hd.hostname with hnil | hprobed
          · exact absurd hnil hne
          · exact hprobed.2.2
        ipv4Address := by
          show normalizeIPv4IfAny (trim d.address) = _
          rw [hip, haddress, normalizeIPv4IfAny, if_pos (by omega), normalizeIPv4_format]
        macAddress := storedMac_of_normal hd.macAddress
        defined := by
          unfold DiscoveredDevice.toDevice
          cases d.isOnline <;> exact ⟨rfl, rfl, rfl, rfl⟩
        wakeMac := fun hw => absurd rfl hw
        unicast := fun hw => absurd rfl hw
        broadcastAddress := rfl
        ports := by simp [DiscoveredDevice.toDevice]
        packets := by simp [DiscoveredDevice.toDevice]
        notes := by simp [DiscoveredDevice.toDevice]
        tags := by simp [DiscoveredDevice.toDevice, normalizeTags] }
  · unfold stored
    rw [hname, hhost]
    rfl

/-- What a scan finds can be added as it was found exactly when its host name has at most 120
    characters. -/
theorem draft_added_iff (hnames : SpacelessNames fw) (hd : Probed fw d) (hid : id ≠ Guid.empty) :
    Added fw (d.toDevice id) ↔ d.hostname.length ≤ 120 := by
  refine ⟨?_, ?_⟩
  · intro ⟨n, hn, _⟩
    obtain ⟨ip, mac, broadcast, haccepted, -⟩ := normalizeAndValidate_ok_iff.mp hn
    have hlength := haccepted.name.2
    rw [(@draft_names fw d id hnames hd).1] at hlength
    unfold DiscoveredDevice.toDevice at hlength
    dsimp only at hlength
    split at hlength
    · omega
    · exact hlength
  · intro hlength
    exact ⟨_, draft_accepted hnames hd hid hlength, rfl, rfl, rfl, rfl, rfl, rfl, rfl⟩

/-! ## A long name -/

def found (hostname : Str) : DiscoveredDevice where
  address := str "192.168.1.20"
  macAddress := str "02:11:22:33:44:5F"
  hostname := hostname
  evidence := { pingReply := true }
  lastLiveObservationAt := some ⟨7, 0⟩

theorem found_probed {hostname : Str} (h : hostname = [] ∨ ProbedName Framework.ascii hostname) :
    Probed Framework.ascii (found hostname) := by
  refine ⟨⟨3232235796, ?_⟩, h, Or.inr ?_⟩
  · show str "192.168.1.20" = _
    decide +kernel
  · show MacAddress.normalize (str "02:11:22:33:44:5F") = .ok (str "02:11:22:33:44:5F")
    decide +kernel

theorem found_added : Added Framework.ascii ((found (str "nas.local")).toDevice 1) :=
  (draft_added_iff spacelessNames_ascii (found_probed (Or.inr ⟨by decide, by decide, by decide⟩)) (by decide)).mpr
    (by decide)

/-- Two labels of sixty characters. -/
def longName : Str := List.replicate 60 (chr 'a') ++ chr '.' :: List.replicate 60 (chr 'b')

/-- The host name fits the stored host name, and not the name it is prefilled as. -/
theorem long_name_is_refused : ¬ ∀ (fw : Framework) (d : DiscoveredDevice) (id : Guid),
    SpacelessNames fw → Probed fw d → id ≠ Guid.empty → Added fw (d.toDevice id) := by
  intro hclaim
  have hprobed := @found_probed longName (Or.inr ⟨by decide +kernel, by decide +kernel, by decide +kernel⟩)
  obtain ⟨n, hn, -⟩ := hclaim Framework.ascii (found longName) 1 spacelessNames_ascii hprobed (by decide)
  have hthrows : normalizeAndValidate Framework.ascii ((found longName).toDevice 1) =
      .error (.deviceValidation "Friendly name must contain 1–120 characters.") := by decide +kernel
  cases hthrows.symm.trans hn

end MythLab.Discovery
