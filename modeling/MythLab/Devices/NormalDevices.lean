/-
  MythLab.Devices.NormalDevices — normalization is a fixed point.

  A record that was normalized is accepted again and is left as it is
  (`Normal.of_normalized`); `Normal` is kept by the changes that a save or an observation
  makes to a stored record (`Normal.rewritten`). The normalized tags are the first
  spellings of the tags (`mem_normalizeTags`), a normalized MAC address is six pairs
  (`normalize_pairs`). Together, of every accepted device: `normalized_device_is_fixed`.
-/
import MythLab.Lib.Distinct
import MythLab.Devices.NetworkNames

namespace MythLab.Devices

open Lib Dotnet

/-! ## MAC addresses -/

namespace MacAddress

def isUpperHexDigit (c : Char16) : Bool := isAsciiDigit c || (65 ≤ c.toNat && c.toNat ≤ 70)

/-- Two upper-case hexadecimal digits. -/
def isPair (s : Str) : Bool := s.length = 2 && s.all isUpperHexDigit

theorem isUpperHexDigit_hexDigit : ∀ n < 16, isUpperHexDigit (hexDigit n) = true := by decide

theorem isPair_formatX2 (b : UInt8) : isPair (formatX2 b) = true := by
  have hb := b.toNat_lt
  simp [isPair, formatX2, isUpperHexDigit_hexDigit _ (show b.toNat / 16 < 16 by omega),
    isUpperHexDigit_hexDigit _ (Nat.mod_lt b.toNat (by decide : 16 > 0))]

/-- A normalized MAC address is six pairs separated by colons. -/
theorem normalize_pairs {v m : Str} (h : normalize v = .ok m) :
    (split (chr ':') m).length = 6 ∧ ∀ pair ∈ split (chr ':') m, isPair pair = true := by
  obtain ⟨bytes, hlength, rfl⟩ := normalize_bytes h
  have hne : bytes.map formatX2 ≠ [] := by
    intro hnil
    rw [List.map_eq_nil_iff.mp hnil] at hlength
    cases hlength
  have hsplit : split (chr ':') (format bytes) = bytes.map formatX2 := by
    refine List.splitOn_intercalate _ ?_ hne
    intro pair hpair hcolon
    obtain ⟨b, -, rfl⟩ := List.mem_map.mp hpair
    exact (formatX2_spec b _ hcolon).2.2 rfl
  rw [hsplit]
  refine ⟨(List.length_map _).trans hlength, ?_⟩
  intro pair hpair
  obtain ⟨b, -, rfl⟩ := List.mem_map.mp hpair
  exact isPair_formatX2 b

end MacAddress

namespace DeviceRules

/-! ## Addresses -/

/-- The digit of a number below ten. -/
def digit (k : Nat) : Char16 := UInt16.ofNat (48 + k)

theorem decimal_digits : (∀ a < 10, decimal (parseDecimal [digit a]) = [digit a]) ∧
    (∀ a < 10, ∀ b < 10, a ≠ 0 → decimal (parseDecimal [digit a, digit b]) = [digit a, digit b]) ∧
    ∀ a < 10, ∀ b < 10, ∀ c < 10, a ≠ 0 →
      decimal (parseDecimal [digit a, digit b, digit c]) = [digit a, digit b, digit c] := by
  decide +kernel

theorem exists_digit {c : Char16} (h : isAsciiDigit c = true) : ∃ k < 10, c = digit k := by
  rw [isAsciiDigit_iff] at h
  refine ⟨c.toNat - 48, by omega, ?_⟩
  rw [digit, show 48 + (c.toNat - 48) = c.toNat by omega, UInt16.ofNat_toNat]

/-- An octet is written as its number is. -/
theorem decimal_parseDecimal {part : Str} (h : badOctet part = false) : decimal (parseDecimal part) = part := by
  simp only [badOctet, Bool.or_eq_false_iff, Bool.not_eq_false', decide_eq_false_iff_not, List.all_eq_true] at h
  obtain ⟨⟨⟨⟨hpos, hlen⟩, hzero⟩, hdigits⟩, -⟩ := h
  obtain ⟨hone, htwo, hthree⟩ := decimal_digits
  have hne {k : Nat} {rest : Str} (hrest : rest ≠ []) (hpart : part = digit k :: rest) : k ≠ 0 := by
    rintro rfl
    subst hpart
    cases rest with
    | nil => exact hrest rfl
    | cons c rest => exact absurd hzero (by simp [digit, chr])
  rcases part with _ | ⟨x, _ | ⟨y, _ | ⟨z, _ | ⟨_, rest⟩⟩⟩⟩
  · exact absurd hpos (by simp)
  · obtain ⟨a, ha, rfl⟩ := exists_digit (hdigits x (by simp))
    exact hone a ha
  · obtain ⟨a, ha, rfl⟩ := exists_digit (hdigits x (by simp))
    obtain ⟨b, hb, rfl⟩ := exists_digit (hdigits y (by simp))
    exact htwo a ha b hb (hne (by simp) rfl)
  · obtain ⟨a, ha, rfl⟩ := exists_digit (hdigits x (by simp))
    obtain ⟨b, hb, rfl⟩ := exists_digit (hdigits y (by simp))
    obtain ⟨c, hc, rfl⟩ := exists_digit (hdigits z (by simp))
    exact hthree a ha b hb c hc (hne (by simp) rfl)
  · simp only [List.length_cons] at hlen
    omega

/-- The accepted addresses are the dotted ones, and they are left as they are. -/
theorem normalizeIPv4_eq_ok {value ip : Str} : normalizeIPv4 value = .ok ip ↔ isDotted value = true ∧ ip = value := by
  rw [normalizeIPv4_ok_iff]
  refine and_congr_right ?_
  intro h
  obtain ⟨-, hparts⟩ := of_decide_eq_true h
  have hmap : (split (chr '.') value).map (fun part => decimal (parseDecimal part)) = split (chr '.') value := by
    refine (List.map_congr_left ?_).trans (List.map_id _)
    intro part hpart
    refine decimal_parseDecimal ((Bool.not_eq_true _).mp ?_)
    exact fun hbad => hparts (List.any_eq_true.mpr ⟨part, hpart, hbad⟩)
  rw [hmap, show join [chr '.'] (split (chr '.') value) = value from List.intercalate_splitOn _]

/-- An address is stored as it was entered, but for the blanks around it. -/
theorem normalizeIPv4IfAny_ok {value ip : Str} (h : normalizeIPv4IfAny value = .ok ip) : ip = value := by
  unfold normalizeIPv4IfAny at h
  split at h
  · exact (normalizeIPv4_eq_ok.mp h).2
  · exact (Except.ok.inj h).symm

theorem normalizeIPv4IfAny_again {value ip : Str} (h : normalizeIPv4IfAny (trim value) = .ok ip) :
    normalizeIPv4IfAny (trim ip) = .ok ip := by
  obtain rfl := normalizeIPv4IfAny_ok h
  rwa [trim_trim]

theorem trim_of_spaceless {s : Str} (h : ∀ c ∈ s, isWhiteSpace c = false) : trim s = s :=
  trim_of_ends (fun c hc => h c (List.mem_of_mem_head? hc)) fun c hc => h c (List.mem_of_mem_getLast? hc)

/-- `Uri.CheckHostName` answers Dns for no string with white space in it. -/
def SpacelessNames (fw : Framework) : Prop := ∀ s, fw.isDnsName s = true → ∀ c ∈ s, isWhiteSpace c = false

theorem spacelessNames_ascii : SpacelessNames Framework.ascii := by
  intro s hs c hc
  have hplain := List.all_eq_true.mp hs c hc
  refine (visible ?_).1
  rw [Bool.or_eq_true, Bool.or_eq_true, isAsciiLetterOrDigit_iff] at hplain
  rcases hplain with (hplain | hplain) | hplain
  · omega
  · obtain rfl := eq_of_beq hplain
    decide
  · obtain rfl := eq_of_beq hplain
    decide

/-! ## Tags -/

section Tags

variable {fw : Framework} {tags : List Str}

theorem equalsIgnoreCase_trans {a b c : Str} (hab : fw.equalsIgnoreCase a b = true) (hbc : fw.equalsIgnoreCase b c = true) :
    fw.equalsIgnoreCase a c = true := by
  unfold Framework.equalsIgnoreCase at *
  rw [eq_of_beq hab, hbc]

/-- The tags before the repetitions go. -/
def trimmedTags (tags : List Str) : List Str := (tags.map trim).filter fun t => t.length > 0

theorem normalizeTags_sublist : (normalizeTags fw tags).Sublist (trimmedTags tags) := eraseDupsBy_sublist _

theorem pairwise_normalizeTags : (normalizeTags fw tags).Pairwise fun a b => fw.equalsIgnoreCase a b = false :=
  (pairwise_eraseDupsBy _).imp fun h => by rwa [fw.equalsIgnoreCase_comm]

theorem normalizeTags_trimmed : ∀ t ∈ normalizeTags fw tags, trim t = t ∧ t ≠ [] := by
  intro t ht
  obtain ⟨hmap, hpos⟩ := List.mem_filter.mp (normalizeTags_sublist.subset ht)
  obtain ⟨tag, -, rfl⟩ := List.mem_map.mp hmap
  exact ⟨trim_trim tag, List.ne_nil_of_length_pos (of_decide_eq_true hpos)⟩

/-- The normalized tags are the first spellings. -/
theorem mem_normalizeTags {t : Str} : t ∈ normalizeTags fw tags ↔ IsFirst fw.equalsIgnoreCase (trimmedTags tags) t := by
  refine mem_eraseDupsBy_iff ?_ _
  exact fun a b c hab hbc => equalsIgnoreCase_trans hab hbc

theorem normalizeTags_eq_self (htrim : ∀ t ∈ tags, trim t = t ∧ t ≠ [])
    (hpairwise : tags.Pairwise fun a b => fw.equalsIgnoreCase a b = false) : normalizeTags fw tags = tags := by
  have hmap : tags.map trim = tags := (List.map_congr_left fun t ht => (htrim t ht).1).trans (List.map_id _)
  have hfilter : trimmedTags tags = tags := by
    unfold trimmedTags
    rw [hmap, List.filter_eq_self]
    exact fun t ht => decide_eq_true (List.length_pos_of_ne_nil (htrim t ht).2)
  show (trimmedTags tags).eraseDupsBy _ = tags
  rw [hfilter]
  exact eraseDupsBy_eq_self (hpairwise.imp fun h => by rwa [fw.equalsIgnoreCase_comm])

end Tags

/-! ## Normal devices -/

/-- Normalization accepts the device and leaves it as it is. -/
def Normal (fw : Framework) (d : Device) : Prop := normalizeAndValidate fw d = .ok d

section Normal

variable {fw : Framework} {d n : Device} {ip mac broadcast : Str}

theorem trim_of_blank {s : Str} (h : isNullOrWhiteSpace s = true) : trim s = [] := by
  have hdrop : s.dropWhile isWhiteSpace = [] := List.dropWhile_eq_nil_iff.mpr (List.all_eq_true.mp h)
  unfold trim
  rw [hdrop]
  rfl

theorem storedHost_again (hnames : SpacelessNames fw) (h : Accepted fw d ip mac broadcast) :
    trimEnd (chr '.') (trim (storedHost d)) = storedHost d := by
  have htrim : trim (storedHost d) = storedHost d := by
    by_cases hne : storedHost d = []
    · rw [hne]
      rfl
    · exact trim_of_spaceless (hnames _ (h.host.2 hne))
  rw [htrim]
  exact trimEnd_trimEnd _ _

/-- A MAC address in normal form, or none, is stored as it is. -/
theorem storedMac_again (h : storedMac d = .ok mac) : storedMac { d with macAddress := mac } = .ok mac := by
  unfold storedMac at h ⊢
  split at h
  · cases h
    rfl
  · have hagain := MacAddress.normalize_normalize h
    show (if isNullOrWhiteSpace mac = true then pure [] else MacAddress.normalize mac) = .ok mac
    rw [if_neg, hagain]
    intro hblank
    unfold MacAddress.normalize at hagain
    rw [trim_of_blank hblank] at hagain
    cases hagain

/-- What normalization returns is normal. -/
theorem Normal.of_normalized (hnames : SpacelessNames fw) (h : normalizeAndValidate fw d = .ok n) : Normal fw n := by
  obtain ⟨ip, mac, broadcast, ha, rfl⟩ := normalizeAndValidate_ok_iff.mp h
  have hhost : storedHost (stored fw d ip mac broadcast) = storedHost d := storedHost_again hnames ha
  have hname : trim (stored fw d ip mac broadcast).displayName = trim d.displayName := trim_trim _
  have htags : normalizeTags fw (stored fw d ip mac broadcast).tags = normalizeTags fw d.tags :=
    normalizeTags_eq_self normalizeTags_trimmed pairwise_normalizeTags
  refine normalizeAndValidate_ok_iff.mpr ⟨ip, mac, broadcast, ?_, ?_⟩
  · exact
      { id := ha.id
        name := by
          rw [hname]
          exact ha.name
        reachable := by
          rw [hhost]
          show storedHost d ≠ [] ∨ trim ip ≠ []
          rw [normalizeIPv4IfAny_ok ha.ipv4Address, trim_trim]
          exact ha.reachable
        host := by
          rw [hhost]
          exact ha.host
        ipv4Address := normalizeIPv4IfAny_again ha.ipv4Address
        macAddress := storedMac_again ha.macAddress
        defined := ha.defined
        wakeMac := ha.wakeMac
        unicast := ha.unicast
        broadcastAddress := normalizeIPv4IfAny_again ha.broadcastAddress
        ports := ha.ports
        packets := ha.packets
        notes := ⟨ha.notes.1, (trim_length_le d.group).trans ha.notes.2⟩
        tags := by
          rw [htags]
          exact ha.tags }
  · refine Device.ext rfl hname.symm hhost.symm rfl rfl rfl ?_ rfl htags.symm rfl rfl rfl rfl rfl rfl
    exact (trim_trim _).symm

/-- A normal record stays normal under another observation, and with any other capability unless that
    enables a disabled wake. -/
theorem Normal.rewritten (h : Normal fw d) {state : DeviceState} {capability : WakeCapability}
    (checked seen : Option DateTimeOffset) (hstate : state.isDefined = true) (hcapability : capability.isDefined = true)
    (hwake : capability ≠ .disabled → d.wake.capability ≠ .disabled) :
    Normal fw { d with
      lastKnownState := state
      lastChecked := checked
      lastSeen := seen
      wake := { d.wake with capability := capability } } := by
  obtain ⟨ip, mac, broadcast, ha, heq⟩ := normalizeAndValidate_ok_iff.mp h
  refine normalizeAndValidate_ok_iff.mpr ⟨ip, mac, broadcast, ?_, ?_⟩
  · exact { ha with
      defined := ⟨ha.defined.1, hstate, ha.defined.2.2.1, hcapability⟩
      wakeMac := fun hc => ha.wakeMac (hwake hc)
      unicast := fun hc => ha.unicast (hwake hc) }
  · obtain ⟨-, hname, hhost, hip, hmac, -, hgroup, -, htags, hbroadcast, -⟩ := Device.ext_iff.mp heq
    have hbroadcast : d.wake.broadcastAddress = broadcast := congrArg WakeConfiguration.broadcastAddress hbroadcast
    refine Device.ext rfl hname hhost hip hmac rfl hgroup rfl htags ?_ rfl rfl rfl rfl rfl
    exact WakeConfiguration.ext rfl hbroadcast rfl rfl rfl rfl rfl rfl

end Normal

/-- For every device that is accepted: normalizing the result gives the result again. It differs from
    the device in the names, the addresses, the group and the tags only. The tags are, in their order,
    the first spellings of the trimmed tags that are not empty, no two equal ignoring case; the MAC
    address is empty or six pairs of upper-case hexadecimal digits separated by colons. -/
theorem normalized_device_is_fixed (fw : Framework) (hnames : SpacelessNames fw) (d n : Device)
    (h : normalizeAndValidate fw d = .ok n) :
    normalizeAndValidate fw n = .ok n ∧
    n = { d with
      displayName := n.displayName
      hostname := n.hostname
      ipv4Address := n.ipv4Address
      macAddress := n.macAddress
      group := n.group
      tags := n.tags
      wake := { d.wake with broadcastAddress := n.wake.broadcastAddress } } ∧
    (n.tags.Pairwise fun a b => fw.equalsIgnoreCase a b = false) ∧ (∀ t ∈ n.tags, trim t = t ∧ t ≠ []) ∧
    n.tags.Sublist (trimmedTags d.tags) ∧ (∀ t, t ∈ n.tags ↔ IsFirst fw.equalsIgnoreCase (trimmedTags d.tags) t) ∧
    (n.macAddress = [] ∨
      (split (chr ':') n.macAddress).length = 6 ∧
        ∀ pair ∈ split (chr ':') n.macAddress, MacAddress.isPair pair = true) := by
  have hnormal := Normal.of_normalized hnames h
  obtain ⟨ip, mac, broadcast, ha, rfl⟩ := normalizeAndValidate_ok_iff.mp h
  refine ⟨hnormal, rfl, pairwise_normalizeTags, normalizeTags_trimmed, normalizeTags_sublist,
    fun t => mem_normalizeTags, ?_⟩
  have hmac := ha.macAddress
  unfold storedMac at hmac
  split at hmac
  · exact Or.inl (Except.ok.inj hmac).symm
  · exact Or.inr (MacAddress.normalize_pairs hmac)

/-- A device as it may be entered. -/
def enteredNas : Device where
  id := 1
  displayName := str " NAS "
  hostname := str "nas.local."
  macAddress := str "001122aabbcc"
  tags := [str " Lab ", str "lab", [], str "Storage"]

def normalNas : Device :=
  { enteredNas with
    displayName := str "NAS"
    hostname := str "nas.local"
    macAddress := str "00:11:22:AA:BB:CC"
    tags := [str "Lab", str "Storage"] }

theorem entered_nas_is_fixed : normalizeAndValidate .ascii normalNas = .ok normalNas ∧
    normalNas.tags.Sublist (trimmedTags enteredNas.tags) := by
  have h : normalizeAndValidate .ascii enteredNas = .ok normalNas := by decide +kernel
  obtain ⟨hagain, -, -, -, htags, -⟩ := normalized_device_is_fixed .ascii spacelessNames_ascii enteredNas normalNas h
  exact ⟨hagain, htags⟩

end DeviceRules

end MythLab.Devices
