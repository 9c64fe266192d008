/-
  MythLab.Devices.DeviceRules — what a device must be to be stored, the form it is
  stored in, and when two devices are taken to be one.

  Proved: `normalizeAndValidate` changes only the fields it normalizes
  (`normalizeAndValidate_fields`) and leaves a normal identity
  (`normalizeAndValidate_identity`); on normal identities `matchReason` never throws and
  is `SameIdentity` (`matchReason_none_iff`), which is symmetric (`SameIdentity.symm`).
-/
import MythLab.Devices.MacAddress

namespace MythLab.Devices.DeviceRules

open Lib Dotnet

/-! ## IPv4 addresses -/

/-- An octet of a dotted address that is not accepted. -/
def badOctet (p : Str) : Bool :=
  p.length < 1 || p.length > 3 || (p.length > 1 && p[0]? == some (chr '0')) || !p.all isAsciiDigit || !isByte p

def normalizeIPv4 (value : Str) : Except Exn Str := do
  let parts := split (chr '.') value
  throwIf (parts.length ≠ 4 ∨ parts.any badOctet)
    (.deviceValidation "Enter a valid dotted IPv4 address without leading zeros in multi-digit octets.")
  pure (join [chr '.'] (parts.map fun p => decimal (parseDecimal p)))

/-- `if (value.Length > 0) value = NormalizeIPv4(value);` -/
def normalizeIPv4IfAny (value : Str) : Except Exn Str := if value.length > 0 then normalizeIPv4 value else pure value

/-! ## Normalization -/

/-- `catch (ArgumentException ex) { throw new DeviceValidationException(ex.Message); }` -/
def asDeviceValidation {α : Type} : Except Exn α → Except Exn α
  | .error (.argument message) => .error (.deviceValidation message)
  | r => r

/-- The first byte of a normalized MAC address. -/
def firstByte (mac : Str) : UInt8 := (fromHexString (mac.filter (· != chr ':'))).headD 0

def normalizeTags (fw : Framework) (tags : List Str) : List Str :=
  ((tags.map trim).filter fun t => t.length > 0).eraseDupsBy fw.equalsIgnoreCase

def normalizeAndValidate (fw : Framework) (device : Device) : Except Exn Device := do
  throwIf (device.id = Guid.empty) (.deviceValidation "Device ID cannot be empty.")
  let name := trim device.displayName
  let host := trimEnd (chr '.') (trim device.hostname)
  let address := trim device.ipv4Address
  throwIf (name.length < 1 ∨ name.length > 120) (.deviceValidation "Friendly name must contain 1–120 characters.")
  throwIf (host.length = 0 ∧ address.length = 0) (.deviceValidation "Enter a hostname or IPv4 address.")
  throwIf (host.length > 253 ∨ (host.length > 0 ∧ ¬ fw.isDnsName host))
    (.deviceValidation "Enter a valid hostname without a scheme, port or path.")
  let ip ← normalizeIPv4IfAny address
  let mac ← asDeviceValidation
    (if isNullOrWhiteSpace device.macAddress then pure [] else MacAddress.normalize device.macAddress)
  throwIf (¬ device.type.isDefined ∨ ¬ device.lastKnownState.isDefined ∨ ¬ device.statusCheck.isDefined ∨
      ¬ device.wake.capability.isDefined)
    (.deviceValidation "Select a valid device, status and wake type.")
  throwIf (device.wake.capability ≠ .disabled ∧ mac.length = 0)
    (.deviceValidation "Wake-on-LAN requires a MAC address; support remains unverified.")
  throwIf (device.wake.capability ≠ .disabled ∧ firstByte mac &&& 1 ≠ 0)
    (.deviceValidation "Wake-on-LAN requires a unicast MAC address.")
  let broadcast ← normalizeIPv4IfAny (trim device.wake.broadcastAddress)
  throwIf (device.wake.port < 1 ∨ device.wake.port > 65535 ∨ device.statusPort < 1 ∨ device.statusPort > 65535)
    (.deviceValidation "Ports must be between 1 and 65535.")
  throwIf (device.wake.packetCount < 1 ∨ device.wake.packetCount > 10 ∨ device.wake.retryCount < 0 ∨
      device.wake.retryCount > 5 ∨ device.wake.delayMilliseconds < 50 ∨ device.wake.delayMilliseconds > 10000 ∨
      device.wake.retryDelayMilliseconds < 50 ∨ device.wake.retryDelayMilliseconds > 30000)
    (.deviceValidation "Wake: 1–10 packets, 0–5 retries, 50–10000 ms packet delay, and 50–30000 ms retry delay.")
  throwIf (device.notes.length > 10000 ∨ device.group.length > 100)
    (.deviceValidation "Notes may contain 10000 characters; group may contain 100.")
  let tags := normalizeTags fw device.tags
  throwIf (tags.length > 30 ∨ tags.any fun t => t.length > 60)
    (.deviceValidation "Use up to 30 tags, each up to 60 characters.")
  pure { device with
    displayName := name
    hostname := host
    ipv4Address := ip
    macAddress := mac
    group := trim device.group
    tags := tags
    wake := { device.wake with broadcastAddress := broadcast } }

/-- The identity of a stored device: no dot ends the hostname, and the MAC address is
    absent or in normal form. -/
structure NormalIdentity (d : Device) : Prop where
  hostname : trimEnd (chr '.') d.hostname = d.hostname
  mac : d.macAddress = [] ∨ MacAddress.normalize d.macAddress = .ok d.macAddress

theorem NormalIdentity.congr {a b : Device} (h : NormalIdentity a) (hhost : b.hostname = a.hostname)
    (hmac : b.macAddress = a.macAddress) : NormalIdentity b :=
  ⟨by rw [hhost]; exact h.hostname, by rw [hmac]; exact h.mac⟩

theorem asDeviceValidation_ok_iff {α : Type} {r : Except Exn α} {a : α} : asDeviceValidation r = .ok a ↔ r = .ok a := by
  unfold asDeviceValidation
  split
  · exact ⟨fun h => (by cases h), fun h => (by cases h)⟩
  · exact Iff.rfl

/-- The hostname as it is stored. -/
def storedHost (d : Device) : Str := trimEnd (chr '.') (trim d.hostname)

/-- The MAC address as it is stored. -/
def storedMac (d : Device) : Except Exn Str :=
  if isNullOrWhiteSpace d.macAddress then pure [] else MacAddress.normalize d.macAddress

/-- The record that is stored. -/
def stored (fw : Framework) (d : Device) (ip mac broadcast : Str) : Device :=
  { d with
    displayName := trim d.displayName
    hostname := storedHost d
    ipv4Address := ip
    macAddress := mac
    group := trim d.group
    tags := normalizeTags fw d.tags
    wake := { d.wake with broadcastAddress := broadcast } }

/-- A device that passes every check, and its addresses in normal form. -/
structure Accepted (fw : Framework) (d : Device) (ip mac broadcast : Str) : Prop where
  id : d.id ≠ Guid.empty
  name : 1 ≤ (trim d.displayName).length ∧ (trim d.displayName).length ≤ 120
  reachable : storedHost d ≠ [] ∨ trim d.ipv4Address ≠ []
  host : (storedHost d).length ≤ 253 ∧ (storedHost d ≠ [] → fw.isDnsName (storedHost d) = true)
  ipv4Address : normalizeIPv4IfAny (trim d.ipv4Address) = .ok ip
  macAddress : storedMac d = .ok mac
  defined : d.type.isDefined = true ∧ d.lastKnownState.isDefined = true ∧ d.statusCheck.isDefined = true ∧
    d.wake.capability.isDefined = true
  wakeMac : d.wake.capability ≠ .disabled → mac ≠ []
  unicast : d.wake.capability ≠ .disabled → firstByte mac &&& 1 = 0
  broadcastAddress : normalizeIPv4IfAny (trim d.wake.broadcastAddress) = .ok broadcast
  ports : (1 ≤ d.wake.port ∧ d.wake.port ≤ 65535) ∧ 1 ≤ d.statusPort ∧ d.statusPort ≤ 65535
  packets : (1 ≤ d.wake.packetCount ∧ d.wake.packetCount ≤ 10) ∧ (0 ≤ d.wake.retryCount ∧ d.wake.retryCount ≤ 5) ∧
    (50 ≤ d.wake.delayMilliseconds ∧ d.wake.delayMilliseconds ≤ 10000) ∧
    50 ≤ d.wake.retryDelayMilliseconds ∧ d.wake.retryDelayMilliseconds ≤ 30000
  notes : d.notes.length ≤ 10000 ∧ d.group.length ≤ 100
  tags : (normalizeTags fw d.tags).length ≤ 30 ∧ ∀ t ∈ normalizeTags fw d.tags, t.length ≤ 60

/-- A device is accepted exactly when it passes every check. -/
theorem normalizeAndValidate_ok_iff {fw : Framework} {d n : Device} : normalizeAndValidate fw d = .ok n ↔
    ∃ ip mac broadcast, Accepted fw d ip mac broadcast ∧ n = stored fw d ip mac broadcast := by
  unfold normalizeAndValidate
  simp only [throwIf_bind_ok_iff]
  refine ⟨?_, ?_⟩
  · intro h
    obtain ⟨hid, hname, hreachable, hhost, h⟩ := h
    obtain ⟨ip, hip, h⟩ := bind_ok_iff.mp h
    obtain ⟨mac, hmac, h⟩ := bind_ok_iff.mp h
    simp only [throwIf_bind_ok_iff] at h
    obtain ⟨hdefined, hwakeMac, hunicast, h⟩ := h
    obtain ⟨broadcast, hbroadcast, h⟩ := bind_ok_iff.mp h
    simp only [throwIf_bind_ok_iff] at h
    obtain ⟨hports, hpackets, hnotes, htags, h⟩ := h
    refine ⟨ip, mac, broadcast, ?_, (Except.ok.inj h).symm⟩
    exact
      { id := hid
        name := by omega
        reachable := by simpa only [storedHost, ne_eq, ← List.length_eq_zero_iff] using not_and_or.mp hreachable
        host := by
          simp only [not_or, not_and, not_not, Nat.not_lt] at hhost
          exact ⟨hhost.1, fun hne => hhost.2 (List.length_pos_of_ne_nil hne)⟩
        ipv4Address := hip
        macAddress := asDeviceValidation_ok_iff.mp hmac
        defined := by simpa [not_or] using hdefined
        wakeMac := fun hc hnil => hwakeMac ⟨hc, by rw [hnil]; rfl⟩
        unicast := fun hc => by_contra fun hne => hunicast ⟨hc, hne⟩
        broadcastAddress := hbroadcast
        ports := by omega
        packets := by omega
        notes := by omega
        tags := by simpa [not_or, Nat.not_lt] using htags }
  · intro ⟨ip, mac, broadcast, h, hn⟩
    have hname := h.name
    have hports := h.ports
    have hpackets := h.packets
    have hnotes := h.notes
    refine ⟨h.id, by omega, ?_, ?_, bind_ok_iff.mpr ⟨ip, h.ipv4Address, bind_ok_iff.mpr ⟨mac, asDeviceValidation_ok_iff.mpr h.macAddress, ?_⟩⟩⟩
    · exact not_and_or.mpr (by simpa only [storedHost, ne_eq, ← List.length_eq_zero_iff] using h.reachable)
    · simp only [not_or, not_and, not_not, Nat.not_lt]
      exact ⟨h.host.1, fun hpos => h.host.2 (List.ne_nil_of_length_pos hpos)⟩
    simp only [throwIf_bind_ok_iff]
    refine ⟨?_, ?_, ?_, bind_ok_iff.mpr ⟨broadcast, h.broadcastAddress, ?_⟩⟩
    · simpa [not_or] using h.defined
    · exact fun hw => h.wakeMac hw.1 (List.eq_nil_of_length_eq_zero hw.2)
    · exact fun hw => hw.2 (h.unicast hw.1)
    simp only [throwIf_bind_ok_iff]
    refine ⟨by omega, by omega, by omega, ?_, ?_⟩
    · simpa [not_or, Nat.not_lt] using h.tags
    · rw [hn]
      rfl

theorem normalizeAndValidate_identity {fw : Framework} {d n : Device} (h : normalizeAndValidate fw d = .ok n) :
    NormalIdentity n := by
  obtain ⟨ip, mac, broadcast, haccepted, rfl⟩ := normalizeAndValidate_ok_iff.mp h
  refine ⟨trimEnd_trimEnd _ _, ?_⟩
  have hmac := haccepted.macAddress
  unfold storedMac at hmac
  split at hmac
  · exact Or.inl (Except.ok.inj hmac).symm
  · exact Or.inr (MacAddress.normalize_normalize hmac)

/-- The fields normalization leaves alone. -/
theorem normalizeAndValidate_fields {fw : Framework} {d n : Device} (h : normalizeAndValidate fw d = .ok n) :
    n.id = d.id ∧ n.wake.capability = d.wake.capability ∧ n.lastKnownState = d.lastKnownState ∧
      n.lastChecked = d.lastChecked ∧ n.lastSeen = d.lastSeen ∧ n.statusCheck = d.statusCheck ∧
      n.statusPort = d.statusPort := by
  obtain ⟨ip, mac, broadcast, -, rfl⟩ := normalizeAndValidate_ok_iff.mp h
  exact ⟨rfl, rfl, rfl, rfl, rfl, rfl, rfl⟩

/-! ## Duplicates -/

/-- Whether both devices have a MAC address and it is one address. -/
def sameMac (candidate existing : Device) : Except Exn Bool :=
  if candidate.macAddress.length > 0 ∧ existing.macAddress.length > 0 then do
    let a ← MacAddress.normalize candidate.macAddress
    let b ← MacAddress.normalize existing.macAddress
    pure (a == b)
  else pure false

def matchReason (fw : Framework) (candidate existing : Device) : Except Exn (Option String) :=
  if candidate.id = existing.id then pure none
  else do
    let mac ← sameMac candidate existing
    pure (
      if mac then some "MAC address"
      else if candidate.hostname.length > 0 ∧
          fw.equalsIgnoreCase (trimEnd (chr '.') candidate.hostname) (trimEnd (chr '.') existing.hostname) then
        some "hostname"
      else if candidate.ipv4Address.length > 0 ∧ candidate.ipv4Address = existing.ipv4Address then some "IPv4 address"
      else none)

/-- `matchReason` reads the id and the identity only. -/
theorem matchReason_congr (fw : Framework) {a a' b b' : Device} (ha : a.id = a'.id) (ha1 : a.hostname = a'.hostname)
    (ha2 : a.ipv4Address = a'.ipv4Address) (ha3 : a.macAddress = a'.macAddress) (hb : b.id = b'.id)
    (hb1 : b.hostname = b'.hostname) (hb2 : b.ipv4Address = b'.ipv4Address) (hb3 : b.macAddress = b'.macAddress) :
    matchReason fw a b = matchReason fw a' b' := by
  unfold matchReason sameMac
  rw [ha, ha1, ha2, ha3, hb, hb1, hb2, hb3]

/-- Two normal identities with a MAC address, a hostname or an IPv4 address in common. -/
def SameIdentity (fw : Framework) (a b : Device) : Prop :=
  (a.macAddress ≠ [] ∧ a.macAddress = b.macAddress) ∨
    (a.hostname ≠ [] ∧ fw.equalsIgnoreCase a.hostname b.hostname = true) ∨
    (a.ipv4Address ≠ [] ∧ a.ipv4Address = b.ipv4Address)

theorem SameIdentity.symm {fw : Framework} {a b : Device} (h : SameIdentity fw a b) : SameIdentity fw b a := by
  rcases h with ⟨hne, h⟩ | ⟨hne, h⟩ | ⟨hne, h⟩
  · exact Or.inl ⟨h ▸ hne, h.symm⟩
  · refine Or.inr (Or.inl ⟨?_, fw.equalsIgnoreCase_comm b.hostname a.hostname ▸ h⟩)
    have hlen := fw.equalsIgnoreCase_length h
    intro hb
    rw [hb, List.length_nil] at hlen
    exact hne (List.eq_nil_of_length_eq_zero hlen)
  · exact Or.inr (Or.inr ⟨h ▸ hne, h.symm⟩)

theorem sameMac_normal {a b : Device} (ha : NormalIdentity a) (hb : NormalIdentity b) :
    sameMac a b = .ok (decide (a.macAddress ≠ [] ∧ a.macAddress = b.macAddress)) := by
  unfold sameMac
  rcases ha.mac with ha | ha
  · simp [ha]
  rcases hb.mac with hb | hb
  · by_cases hne : a.macAddress = [] <;> simp [hb, hne]
  · have hane := MacAddress.normalize_ne_nil ha
    have hbne := MacAddress.normalize_ne_nil hb
    rw [if_pos ⟨List.length_pos_of_ne_nil hane, List.length_pos_of_ne_nil hbne⟩, ha, hb]
    simp [hane, Bool.beq_eq_decide_eq]

/-- On normal identities `matchReason` returns, and finds a reason exactly for another
    device of the same identity. -/
theorem matchReason_none_iff {fw : Framework} {a b : Device} (ha : NormalIdentity a) (hb : NormalIdentity b) :
    matchReason fw a b = .ok none ↔ a.id = b.id ∨ ¬ SameIdentity fw a b := by
  unfold matchReason
  split
  · simp_all
  · rename_i hid
    rw [sameMac_normal ha hb, ok_bind, ha.hostname, hb.hostname, pure_eq_ok, Except.ok.injEq]
    simp only [hid, false_or, SameIdentity, not_or, List.length_pos_iff, decide_eq_true_eq]
    constructor
    · intro h
      split at h
      · cases h
      · split at h
        · cases h
        · split at h
          · cases h
          · exact ⟨‹_›, ‹_›, ‹_›⟩
    · rintro ⟨hmac, hhost, hip⟩
      rw [if_neg hmac, if_neg hhost, if_neg hip]

end MythLab.Devices.DeviceRules
