/-
  MythLab.Devices.NetworkNames — the addresses and names by which a stored device is
  reached: dotted IPv4 addresses, and what `Uri.CheckHostName` takes for a DNS name.

  Proved: what `normalizeIPv4` returns is a dotted address (`normalizeIPv4_dotted`), and it
  leaves the text of a 32-bit address as it is (`normalizeIPv4_format`).
-/
import MythLab.Devices.DeviceRules
import MythLab.Discovery.Ipv4Subnet

namespace MythLab.Devices

open Lib Dotnet DeviceRules

/-! ## Characters -/

/-- A visible ASCII character is no white space and no control character. -/
theorem visible {c : Char16} (h : 33 ≤ c.toNat ∧ c.toNat ≤ 126) : isWhiteSpace c = false ∧ isControl c = false := by
  refine ⟨?_, ?_⟩
  · simp only [isWhiteSpace, Bool.or_eq_false_iff, Bool.and_eq_false_iff, decide_eq_false_iff_not, beq_eq_false_iff_ne]
    omega
  · simp only [isControl, Bool.or_eq_false_iff, Bool.and_eq_false_iff, decide_eq_false_iff_not]
    omega

theorem isAsciiDigit_iff {c : Char16} : isAsciiDigit c = true ↔ 48 ≤ c.toNat ∧ c.toNat ≤ 57 := by
  simp [isAsciiDigit]

theorem isAsciiLetterOrDigit_iff {c : Char16} : isAsciiLetterOrDigit c = true ↔
    (65 ≤ c.toNat ∧ c.toNat ≤ 90) ∨ (97 ≤ c.toNat ∧ c.toNat ≤ 122) ∨ 48 ≤ c.toNat ∧ c.toNat ≤ 57 := by
  simp [isAsciiLetterOrDigit, isAsciiLetter, isAsciiDigit, or_assoc]

/-! ## Dotted addresses -/

/-- Four numbers below 256, without leading zeros. -/
def isDotted (s : Str) : Bool := (split (chr '.') s).length = 4 ∧ ¬ (split (chr '.') s).any badOctet

theorem decimal_octet : ∀ n < 256, badOctet (decimal n) = false ∧ parseDecimal (decimal n) = n := by
  decide +kernel

theorem decimal_no_dot {n : Nat} (hn : n < 256) : chr '.' ∉ decimal n :=
  fun h => ((Discovery.Ipv4Subnet.decimal_spec n hn).2.2 _ h).1 rfl

theorem split_decimals {ns : List Nat} (hlt : ∀ n ∈ ns, n < 256) (hne : ns ≠ []) :
    split (chr '.') (join [chr '.'] (ns.map decimal)) = ns.map decimal := by
  refine List.splitOn_intercalate _ ?_ (by simpa using hne)
  intro part hpart hdot
  obtain ⟨n, hn, rfl⟩ := List.mem_map.mp hpart
  exact decimal_no_dot (hlt n hn) hdot

theorem isDotted_decimals {ns : List Nat} (hlength : ns.length = 4) (hlt : ∀ n ∈ ns, n < 256) :
    isDotted (join [chr '.'] (ns.map decimal)) = true := by
  have hne : ns ≠ [] := by
    rintro rfl
    cases hlength
  unfold isDotted
  rw [split_decimals hlt hne, List.length_map, hlength, decide_eq_true_iff]
  refine ⟨rfl, ?_⟩
  intro hbad
  obtain ⟨part, hpart, hbad⟩ := List.any_eq_true.mp hbad
  obtain ⟨n, hn, rfl⟩ := List.mem_map.mp hpart
  rw [(decimal_octet n (hlt n hn)).1] at hbad
  cases hbad

theorem parseDecimal_lt {part : Str} (h : badOctet part = false) : parseDecimal part < 256 := by
  simp only [badOctet, isByte, Bool.or_eq_false_iff, Bool.not_eq_false', decide_eq_true_eq] at h
  have hbyte := h.2
  omega

theorem normalizeIPv4_ok_iff {value ip : Str} : normalizeIPv4 value = .ok ip ↔ isDotted value = true ∧
    ip = join [chr '.'] ((split (chr '.') value).map fun part => decimal (parseDecimal part)) := by
  unfold normalizeIPv4 isDotted
  rw [throwIf_bind_ok_iff, not_or, not_not, decide_eq_true_iff, and_congr_right_iff]
  intro _
  exact ⟨fun h => (Except.ok.inj h).symm, fun h => by rw [h]; rfl⟩

theorem normalizeIPv4_dotted {value ip : Str} (h : normalizeIPv4 value = .ok ip) : isDotted ip = true := by
  obtain ⟨hvalue, rfl⟩ := normalizeIPv4_ok_iff.mp h
  obtain ⟨hlength, hparts⟩ := of_decide_eq_true hvalue
  have hlt : ∀ n ∈ (split (chr '.') value).map parseDecimal, n < 256 := by
    intro n hn
    obtain ⟨part, hpart, rfl⟩ := List.mem_map.mp hn
    refine parseDecimal_lt ((Bool.not_eq_true _).mp ?_)
    exact fun hbad => hparts (List.any_eq_true.mpr ⟨part, hpart, hbad⟩)
  have hdotted := isDotted_decimals (by rw [List.length_map, hlength]) hlt
  rwa [List.map_map] at hdotted

/-- The text of an address is its own normal form. -/
theorem normalizeIPv4_format (address : UInt32) :
    normalizeIPv4 (Discovery.Ipv4Subnet.format address) = .ok (Discovery.Ipv4Subnet.format address) := by
  have hlt : ∀ n ∈ Discovery.Ipv4Subnet.octets address, n < 256 := fun n => Discovery.Ipv4Subnet.octets_lt
  refine normalizeIPv4_ok_iff.mpr ⟨isDotted_decimals rfl hlt, ?_⟩
  rw [Discovery.Ipv4Subnet.split_format, List.map_map]
  refine congrArg (join _) (List.map_congr_left ?_)
  intro n hn
  exact congrArg decimal (decimal_octet n (hlt n hn)).2.symm

/-- Every character of a dotted address is a digit or a dot. -/
theorem isDotted_chars {s : Str} (h : isDotted s = true) : ∀ c ∈ s, (isAsciiDigit c || c == chr '.') = true := by
  obtain ⟨-, hparts⟩ := of_decide_eq_true h
  intro c hc
  rcases @mem_split (chr '.') _ _ hc with rfl | ⟨part, hpart, hc⟩
  · simp
  · have hgood : badOctet part = false :=
      (Bool.not_eq_true _).mp fun hbad => hparts (List.any_eq_true.mpr ⟨part, hpart, hbad⟩)
    simp only [badOctet, Bool.or_eq_false_iff, Bool.not_eq_false', List.all_eq_true] at hgood
    rw [hgood.1.2 c hc, Bool.true_or]

theorem isDotted_ne_nil {s : Str} (h : isDotted s = true) : s ≠ [] := by
  rintro rfl
  revert h
  decide

/-! ## DNS names -/

def isHyphenOrUnderscore (c : Char16) : Bool := c == chr '-' || c == chr '_'

/-- A label of a DNS name: up to 63 letters, digits, hyphens and underscores, and first a letter
    or a digit. -/
def isDnsLabel (label : Str) : Bool :=
  label.head?.any isAsciiLetterOrDigit && label.length ≤ 63 &&
    label.all fun c => isAsciiLetterOrDigit c || isHyphenOrUnderscore c

/-- `Uri.CheckHostName` answers Dns for labels separated by dots that do not form an IPv4
    address; which names form one is left open, but for dotted addresses. -/
structure ChecksHostNames (fw : Framework) (formsIPv4 : Str → Bool) : Prop where
  dns : ∀ s, fw.isDnsName s = ((split (chr '.') s).all isDnsLabel && !formsIPv4 s)
  dotted : ∀ s, isDotted s = true → formsIPv4 s = true

/-- A character of a DNS name. -/
theorem isDnsLabel_visible {label : Str} (h : isDnsLabel label = true) : ∀ c ∈ label, 33 ≤ c.toNat ∧ c.toNat ≤ 126 := by
  intro c hc
  simp only [isDnsLabel, Bool.and_eq_true, List.all_eq_true] at h
  have hc := h.2 c hc
  rw [Bool.or_eq_true, isAsciiLetterOrDigit_iff] at hc
  rcases hc with hc | hc
  · omega
  · simp only [isHyphenOrUnderscore, Bool.or_eq_true, beq_iff_eq] at hc
    rcases hc with rfl | rfl <;> decide

theorem isDnsLabel_ne_nil {label : Str} (h : isDnsLabel label = true) : label ≠ [] := by
  rintro rfl
  cases h

end MythLab.Devices
