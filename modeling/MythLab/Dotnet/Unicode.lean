/-
  MythLab.Dotnet.Unicode — `Encoding.Unicode`, and the text of a `Guid`.

  `Encoding.Unicode.GetBytes` writes two bytes for each code unit, with U+FFFD in place of a
  surrogate that has no partner (`replaceLone`); reading the bytes back as code units gives
  the string with the replacements (`ofUnicodeBytes_unicodeBytes`). So a string survives
  exactly when it is well-formed UTF-16 (`replaceLone_eq_self_iff`), and bytes are the form
  of the string they read as exactly when there is an even number of them and that string
  is well-formed (`unicodeBytes_ofUnicodeBytes_iff`).
-/
import MythLab.Dotnet.Framework
import MythLab.Lib.LittleEndian

namespace MythLab.Dotnet

open Lib

/-! ## Surrogates -/

/-- `char.IsHighSurrogate`. -/
def isHighSurrogate (c : Char16) : Bool := 0xD800 ≤ c.toNat && c.toNat ≤ 0xDBFF

/-- `char.IsLowSurrogate`. -/
def isLowSurrogate (c : Char16) : Bool := 0xDC00 ≤ c.toNat && c.toNat ≤ 0xDFFF

/-- `char.IsSurrogate`. -/
def isSurrogate (c : Char16) : Bool := 0xD800 ≤ c.toNat && c.toNat ≤ 0xDFFF

/-- Code units in which every surrogate has its partner. -/
inductive WellFormed : Str → Prop
  | nil : WellFormed []
  | unit {c : Char16} {s : Str} : isSurrogate c = false → WellFormed s → WellFormed (c :: s)
  | pair {a b : Char16} {s : Str} : isHighSurrogate a = true → isLowSurrogate b = true → WellFormed s →
      WellFormed (a :: b :: s)

/-- The replacement character in place of a surrogate. -/
def replaceUnit (c : Char16) : Char16 := if isSurrogate c then 0xFFFD else c

/-- The string with every lone surrogate replaced. -/
def replaceLone : Str → Str
  | a :: b :: s => if isHighSurrogate a && isLowSurrogate b then a :: b :: replaceLone s else replaceUnit a :: replaceLone (b :: s)
  | [a] => [replaceUnit a]
  | [] => []

theorem isSurrogate_of_high {c : Char16} (h : isHighSurrogate c = true) : isSurrogate c = true := by
  simp only [isHighSurrogate, isSurrogate, Bool.and_eq_true, decide_eq_true_eq] at *
  omega

theorem isSurrogate_replaceUnit (c : Char16) : isSurrogate (replaceUnit c) = false := by
  unfold replaceUnit
  split
  · decide
  · exact (Bool.not_eq_true _).mp ‹_›

theorem replaceUnit_eq_self_iff {c : Char16} : replaceUnit c = c ↔ isSurrogate c = false := by
  constructor
  · intro h
    rw [← h]
    exact isSurrogate_replaceUnit c
  · intro h
    rw [replaceUnit, h]
    rfl

@[simp] theorem length_replaceLone (s : Str) : (replaceLone s).length = s.length := by
  fun_induction replaceLone s with
  | case1 a b s _ ih => simp [ih]
  | case2 a b s _ ih => simpa using ih
  | case3 a => rfl
  | case4 => rfl

theorem wellFormed_replaceLone (s : Str) : WellFormed (replaceLone s) := by
  fun_induction replaceLone s with
  | case1 a b s h ih =>
    rw [Bool.and_eq_true] at h
    exact .pair h.1 h.2 ih
  | case2 a b s _ ih => exact .unit (isSurrogate_replaceUnit a) ih
  | case3 a => exact .unit (isSurrogate_replaceUnit a) .nil
  | case4 => exact .nil

theorem replaceLone_cons {c : Char16} (h : isHighSurrogate c = false) (s : Str) :
    replaceLone (c :: s) = replaceUnit c :: replaceLone s := by
  cases s with
  | nil => rfl
  | cons b s => rw [replaceLone, h]; rfl

theorem WellFormed.replaceLone_eq {s : Str} (h : WellFormed s) : replaceLone s = s := by
  induction h with
  | nil => rfl
  | @unit c s hc _ ih =>
    have hhigh : isHighSurrogate c = false := by
      rw [← Bool.not_eq_true]
      intro h
      rw [isSurrogate_of_high h] at hc
      cases hc
    rw [replaceLone_cons hhigh, ih, replaceUnit_eq_self_iff.mpr hc]
  | pair ha hb _ ih => rw [replaceLone, ha, hb, Bool.and_self, if_pos rfl, ih]

theorem replaceLone_eq_self_iff {s : Str} : replaceLone s = s ↔ WellFormed s :=
  ⟨fun h => h ▸ wellFormed_replaceLone s, WellFormed.replaceLone_eq⟩

theorem replaceLone_replaceLone (s : Str) : replaceLone (replaceLone s) = replaceLone s := (wellFormed_replaceLone s).replaceLone_eq

/-! ## Bytes -/

/-- `Encoding.Unicode.GetBytes`. -/
def unicodeBytes (s : Str) : List UInt8 := (replaceLone s).flatMap fun c => littleEndian 2 c.toNat

/-- `Marshal.PtrToStringUni`, of as many code units as the bytes hold. -/
def ofUnicodeBytes : List UInt8 → Str
  | a :: b :: bs => UInt16.ofNat (ofLittleEndian [a, b]) :: ofUnicodeBytes bs
  | _ => []

theorem ofUnicodeBytes_units (s : Str) : ofUnicodeBytes (s.flatMap fun c => littleEndian 2 c.toNat) = s := by
  induction s with
  | nil => rfl
  | cons c s ih =>
    have hc : ofLittleEndian (littleEndian 2 c.toNat) = c.toNat := ofLittleEndian_littleEndian c.toNat_lt
    rw [List.flatMap_cons]
    show UInt16.ofNat (ofLittleEndian (littleEndian 2 c.toNat)) :: ofUnicodeBytes (s.flatMap _) = _
    rw [hc, ih, UInt16.ofNat_toNat]

theorem ofUnicodeBytes_unicodeBytes (s : Str) : ofUnicodeBytes (unicodeBytes s) = replaceLone s := ofUnicodeBytes_units _

@[simp] theorem length_unicodeBytes (s : Str) : (unicodeBytes s).length = 2 * s.length := by
  unfold unicodeBytes
  rw [List.length_flatMap]
  simp [Nat.mul_comm]

theorem units_ofUnicodeBytes {bs : List UInt8} (h : bs.length % 2 = 0) :
    (ofUnicodeBytes bs).flatMap (fun c => littleEndian 2 c.toNat) = bs := by
  fun_induction ofUnicodeBytes bs with
  | case1 a b bs ih =>
    have hlt : ofLittleEndian [a, b] < 256 ^ 2 := ofLittleEndian_lt [a, b]
    have hunit : (UInt16.ofNat (ofLittleEndian [a, b])).toNat = ofLittleEndian [a, b] := by
      rw [UInt16.toNat_ofNat']
      exact Nat.mod_eq_of_lt hlt
    have hpair : littleEndian 2 (ofLittleEndian [a, b]) = [a, b] := littleEndian_ofLittleEndian [a, b]
    have hrest := ih (by simp only [List.length_cons] at h; omega)
    rw [List.flatMap_cons, hunit, hpair, hrest]
    rfl
  | case2 bs hbs =>
    rcases bs with _ | ⟨a, _ | ⟨b, bs⟩⟩
    · rfl
    · cases h
    · exact absurd rfl (hbs a b bs)

theorem unicodeBytes_ofUnicodeBytes_iff {bs : List UInt8} :
    unicodeBytes (ofUnicodeBytes bs) = bs ↔ bs.length % 2 = 0 ∧ WellFormed (ofUnicodeBytes bs) := by
  constructor
  · intro h
    refine ⟨?_, ?_⟩
    · rw [← h, length_unicodeBytes]
      omega
    · rw [← replaceLone_eq_self_iff, ← ofUnicodeBytes_unicodeBytes, h]
  · intro ⟨heven, hformed⟩
    rw [unicodeBytes, hformed.replaceLone_eq, units_ofUnicodeBytes heven]

/-! ## Identifiers -/

/-- The lowest `k` hexadecimal digits of a number, the highest first. -/
def hexDigits : Nat → Nat → Str
  | 0, _ => []
  | k + 1, n => hexDigits k (n / 16) ++ [asciiLower (hexDigit (n % 16))]

/-- `id.ToString("D")`. -/
def Guid.format (id : Guid) : Str :=
  let digits := hexDigits 32 id.toNat
  join [chr '-'] [digits.take 8, (digits.drop 8).take 4, (digits.drop 12).take 4, (digits.drop 16).take 4, digits.drop 20]

theorem lower_hexDigit_spec : ∀ n < 16, hexValue (asciiLower (hexDigit n)) = n ∧ asciiLower (hexDigit n) ≠ chr '-' := by
  decide

theorem hexDigits_injective {k m n : Nat} (hm : m < 16 ^ k) (hn : n < 16 ^ k) (h : hexDigits k m = hexDigits k n) : m = n := by
  induction k generalizing m n with
  | zero =>
    rw [Nat.pow_zero] at hm hn
    omega
  | succ k ih =>
    obtain ⟨hhigh, hlow⟩ := List.append_inj' h rfl
    have hdiv := ih (by rw [Nat.pow_succ] at hm; omega) (by rw [Nat.pow_succ] at hn; omega) hhigh
    have hmod := congrArg (fun c => hexValue c) (List.cons.inj hlow).1
    simp only [(lower_hexDigit_spec (m % 16) (by omega)).1, (lower_hexDigit_spec (n % 16) (by omega)).1] at hmod
    omega

theorem dash_not_mem_hexDigits (k n : Nat) : chr '-' ∉ hexDigits k n := by
  induction k generalizing n with
  | zero => exact List.not_mem_nil
  | succ k ih =>
    rw [hexDigits, List.mem_append, List.mem_singleton, not_or]
    exact ⟨ih (n / 16), fun h => (lower_hexDigit_spec (n % 16) (by omega)).2 h.symm⟩

/-- The digits are the text without its dashes. -/
theorem Guid.digits_format (id : Guid) : id.format.filter (· != chr '-') = hexDigits 32 id.toNat := by
  have hkeep (part : Str) (h : ∀ c ∈ part, c ∈ hexDigits 32 id.toNat) : part.filter (· != chr '-') = part := by
    rw [List.filter_eq_self]
    intro c hc
    exact bne_iff_ne.mpr fun hdash => dash_not_mem_hexDigits 32 id.toNat (hdash ▸ h c hc)
  have hdrop (n : Nat) : ∀ c ∈ (hexDigits 32 id.toNat).drop n, c ∈ hexDigits 32 id.toNat := fun c hc => List.mem_of_mem_drop hc
  have htake (n k : Nat) : ∀ c ∈ ((hexDigits 32 id.toNat).drop n).take k, c ∈ hexDigits 32 id.toNat :=
    fun c hc => hdrop n c (List.mem_of_mem_take hc)
  have hdash : [chr '-'].filter (· != chr '-') = [] := by decide
  have hsplit (n k : Nat) (s : Str) : (s.drop n).take k ++ s.drop (n + k) = s.drop n := by
    rw [← List.drop_drop, List.take_append_drop]
  unfold Guid.format join
  simp only [List.intercalate_cons_cons, List.intercalate_singleton, List.filter_append, hdash, List.append_nil]
  rw [hkeep _ fun c hc => List.mem_of_mem_take hc, hkeep _ (htake 8 4), hkeep _ (htake 12 4), hkeep _ (htake 16 4),
    hkeep _ (hdrop 20), hsplit 16 4, hsplit 12 4, hsplit 8 4]
  exact List.take_append_drop 8 _

theorem Guid.format_injective {a b : Guid} (h : a.format = b.format) : a = b := by
  have hdigits := congrArg (fun s => s.filter (· != chr '-')) h
  simp only [Guid.digits_format] at hdigits
  exact BitVec.eq_of_toNat_eq (hexDigits_injective (k := 32) (by exact a.isLt) (by exact b.isLt) hdigits)

example : Guid.format 0x0f8fad5bd9cb469fa16570867728950e = str "0f8fad5b-d9cb-469f-a165-70867728950e" := by decide +kernel

end MythLab.Dotnet
