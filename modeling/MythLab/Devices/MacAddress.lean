/-
  MythLab.Devices.MacAddress — the normal form of a MAC address.

  Proved: what `normalize` returns is a normal form (`normalize_normalize`), the
  upper-case text of six bytes (`normalize_bytes`), which are the bytes the digits of the
  text denote (`normalize_denoted`).
-/
import MythLab.Lib.Effect
import MythLab.Devices.Device

namespace MythLab.Devices.MacAddress

open Lib Dotnet

/-- Six bytes, each as two upper-case digits, separated by colons. -/
def format (bytes : List UInt8) : Str := join [chr ':'] (bytes.map formatX2)

/-- The twelve digits of a text that has them together or in pairs. -/
def compact (text : Str) : Except Exn Str :=
  if text.length = 12 then pure text
  else if text.length = 17 ∧ (text[2]? = some (chr ':') ∨ text[2]? = some (chr '-')) then
    let separator := text[2]?
    if [2, 5, 8, 11, 14].any fun i => text[i]? != separator then
      throw (.argument "Use six hexadecimal pairs separated by colons or hyphens.")
    else pure (text.filter fun c => some c != separator)
  else throw (.argument "Enter a 12-digit MAC address, optionally separated by colons or hyphens.")

def normalize (value : Str) : Except Exn Str := do
  let digits ← compact (trim value)
  throwIf (digits.length ≠ 12 ∨ ¬ digits.all isHexDigit)
    (.argument "MAC addresses must contain exactly six hexadecimal bytes.")
  pure (format (fromHexString digits))

/-! ## Normal forms -/

theorem format_six (a b c d e f : UInt8) : format [a, b, c, d, e, f] =
    formatX2 a ++ chr ':' :: (formatX2 b ++ chr ':' :: (formatX2 c ++ chr ':' :: (formatX2 d ++ chr ':' ::
      (formatX2 e ++ chr ':' :: formatX2 f)))) := rfl

theorem formatX2_spec (b : UInt8) : ∀ c ∈ formatX2 b, isHexDigit c = true ∧ isWhiteSpace c = false ∧ c ≠ chr ':' := by
  have hb := b.toNat_lt
  intro c hc
  simp only [formatX2, List.mem_cons, List.not_mem_nil, or_false] at hc
  rcases hc with rfl | rfl
  · exact (hexDigit_spec _ (by omega)).2
  · exact (hexDigit_spec _ (by omega)).2

theorem formatX2_filter (b : UInt8) : (formatX2 b).filter (fun c => some c != some (chr ':')) = formatX2 b :=
  List.filter_eq_self.mpr fun c hc => by simpa using (formatX2_spec b c hc).2.2

theorem fromHexString_length : ∀ (s : Str) (n : Nat), s.length = 2 * n → (fromHexString s).length = n
  | [], 0, _ => rfl
  | [_], n, h => by simp at h; omega
  | _ :: _ :: s, n + 1, h => by
    simp only [fromHexString, List.length_cons] at h ⊢
    rw [fromHexString_length s n (by omega)]
  | _ :: _ :: _, 0, h => by simp at h

/-- What `normalize` returns is the text of six bytes. -/
theorem normalize_bytes {v m : Str} (h : normalize v = .ok m) : ∃ bytes, bytes.length = 6 ∧ m = format bytes := by
  obtain ⟨digits, -, h⟩ := bind_ok_iff.mp h
  obtain ⟨hdigits, h⟩ := throwIf_bind_ok_iff.mp h
  cases h
  exact ⟨_, fromHexString_length digits 6 (by omega), rfl⟩

/-- The text of six bytes is its own normal form. -/
theorem normalize_format {bytes : List UInt8} (h : bytes.length = 6) :
    normalize (format bytes) = .ok (format bytes) := by
  match bytes, h with
  | [a, b, c, d, e, f], _ =>
    have htrim : trim (format [a, b, c, d, e, f]) = format [a, b, c, d, e, f] := by
      refine trim_of_ends ?_ ?_
      · intro x hx
        refine (formatX2_spec a x ?_).2.1
        simp only [format_six, formatX2, List.cons_append, List.head?_cons, Option.mem_some_iff] at hx
        simp [formatX2, hx]
      · intro x hx
        refine (formatX2_spec f x ?_).2.1
        simp only [format_six, formatX2, List.cons_append, List.nil_append, List.getLast?_cons_cons,
          List.getLast?_singleton, Option.mem_some_iff] at hx
        simp [formatX2, hx]
    have hcompact : compact (format [a, b, c, d, e, f]) = .ok ([a, b, c, d, e, f].flatMap formatX2) := by
      have hlen : (format [a, b, c, d, e, f]).length = 17 := rfl
      have hat : ∀ i ∈ [2, 5, 8, 11, 14], (format [a, b, c, d, e, f])[i]? = some (chr ':') := by
        intro i hi
        simp only [List.mem_cons, List.not_mem_nil, or_false] at hi
        rcases hi with rfl | rfl | rfl | rfl | rfl <;> rfl
      have hsep := hat 2 (by simp)
      unfold compact
      rw [if_neg (by rw [hlen]; decide), if_pos ⟨hlen, Or.inl hsep⟩, hsep]
      rw [if_neg (by rw [List.any_eq_true]; rintro ⟨i, hi, hne⟩; simp [hat i hi] at hne)]
      simp only [format_six, List.filter_append, List.filter_cons, formatX2_filter]
      simp [List.flatMap_cons]
    have hdigits : ¬ (([a, b, c, d, e, f].flatMap formatX2).length ≠ 12 ∨
        ¬ ([a, b, c, d, e, f].flatMap formatX2).all isHexDigit = true) := by
      rintro (hlen | hhex)
      · exact hlen rfl
      · refine hhex (List.all_eq_true.mpr ?_)
        intro x hx
        obtain ⟨y, _, hy⟩ := List.mem_flatMap.mp hx
        exact (formatX2_spec y x hy).1
    refine bind_ok_iff.mpr ⟨_, by rw [htrim]; exact hcompact, throwIf_bind_ok_iff.mpr ⟨hdigits, ?_⟩⟩
    rw [fromHexString_formatX2]; rfl

theorem normalize_normalize {v m : Str} (h : normalize v = .ok m) : normalize m = .ok m := by
  obtain ⟨bytes, hlen, rfl⟩ := normalize_bytes h
  exact normalize_format hlen

theorem normalize_ne_nil {v m : Str} (h : normalize v = .ok m) : m ≠ [] := by
  obtain ⟨bytes, hlen, rfl⟩ := normalize_bytes h
  match bytes, hlen with
  | [a, b, c, d, e, f], _ => simp [format_six, formatX2]

/-! ## The bytes of a text -/

/-- The bytes a MAC address denotes: its hexadecimal digits in pairs, however they are separated. -/
def denoted (text : Str) : List UInt8 := fromHexString (text.filter isHexDigit)

/-- The bytes of a text in normal form. -/
def bytesOf (mac : Str) : List UInt8 := fromHexString (mac.filter (· != chr ':'))

theorem isHexDigit_iff {c : Char16} : isHexDigit c = true ↔ (48 ≤ c.toNat ∧ c.toNat ≤ 57) ∨
    (65 ≤ c.toNat ∧ c.toNat ≤ 70) ∨ 97 ≤ c.toNat ∧ c.toNat ≤ 102 := by
  simp [isHexDigit, isAsciiDigit, or_assoc]

theorem isHexDigit_of_isWhiteSpace {c : Char16} (h : isWhiteSpace c = true) : isHexDigit c = false := by
  refine (Bool.not_eq_true _).mp ?_
  rw [isHexDigit_iff]
  simp only [isWhiteSpace, Bool.or_eq_true, Bool.and_eq_true, decide_eq_true_eq, beq_iff_eq] at h
  omega

theorem filter_dropWhile {p q : Char16 → Bool} (h : ∀ c, q c = true → p c = false) (s : Str) :
    (s.dropWhile q).filter p = s.filter p := by
  induction s with
  | nil => rfl
  | cons c s ih =>
    rw [List.dropWhile_cons]
    by_cases hc : q c = true
    · rw [if_pos hc, ih, List.filter_cons_of_neg (by simp [h c hc])]
    · rw [if_neg hc]

theorem filter_trim (s : Str) : (trim s).filter isHexDigit = s.filter isHexDigit := by
  unfold trim List.rdropWhile
  rw [List.filter_reverse, filter_dropWhile fun _ => isHexDigit_of_isWhiteSpace, ← List.filter_reverse,
    List.reverse_reverse, filter_dropWhile fun _ => isHexDigit_of_isWhiteSpace]

/-- The digits of a text are what is left of it without its separators. -/
theorem compact_digits {text digits : Str} (h : compact text = .ok digits) (hhex : digits.all isHexDigit = true) :
    digits = text.filter isHexDigit := by
  rw [List.all_eq_true] at hhex
  unfold compact at h
  split at h
  · cases h
    exact (List.filter_eq_self.mpr hhex).symm
  · split at h
    · rename_i hform
      dsimp only at h
      split at h
      · cases h
      · cases h
        refine List.filter_congr ?_
        intro c hc
        rw [Bool.eq_iff_iff, bne_iff_ne]
        refine ⟨?_, ?_⟩
        · exact fun hne => hhex c (List.mem_filter.mpr ⟨hc, by simpa using hne⟩)
        · intro hdigit hsep
          rcases hform.2 with h2 | h2
          all_goals
            rw [h2] at hsep
            cases hsep
            revert hdigit
            decide
    · cases h

/-- A text with a normal form has twelve digits, and its normal form is the text of the bytes they
    denote. -/
theorem normalize_denoted {v m : Str} (h : normalize v = .ok m) :
    (v.filter isHexDigit).length = 2 * 6 ∧ m = format (denoted v) := by
  obtain ⟨digits, hcompact, h⟩ := bind_ok_iff.mp h
  obtain ⟨hdigits, h⟩ := throwIf_bind_ok_iff.mp h
  rw [not_or, not_not, not_not] at hdigits
  cases h
  unfold denoted
  rw [← filter_trim, ← compact_digits hcompact hdigits.2]
  exact ⟨hdigits.1, rfl⟩

theorem denoted_length {v m : Str} (h : normalize v = .ok m) : (denoted v).length = 6 :=
  fromHexString_length _ 6 (normalize_denoted h).1

theorem bytesOf_format {bytes : List UInt8} (h : bytes.length = 6) : bytesOf (format bytes) = bytes := by
  have hfilter (b : UInt8) : (formatX2 b).filter (· != chr ':') = formatX2 b :=
    List.filter_eq_self.mpr fun c hc => bne_iff_ne.mpr (formatX2_spec b c hc).2.2
  match bytes, h with
  | [a, b, c, d, e, f], _ =>
    have hflat : (format [a, b, c, d, e, f]).filter (· != chr ':') = [a, b, c, d, e, f].flatMap formatX2 := by
      simp [format_six, hfilter, List.flatMap_cons]
    rw [bytesOf, hflat, fromHexString_formatX2]

theorem hexValue_eq_zero_iff {c : Char16} (h : isHexDigit c = true) : hexValue c = 0 ↔ c = chr '0' := by
  rw [isHexDigit_iff] at h
  have hzero : (chr '0').toNat = 48 := rfl
  rw [← UInt16.toNat_inj, hzero]
  simp only [hexValue, isAsciiDigit, Bool.and_eq_true, decide_eq_true_eq]
  split
  · omega
  · split
    · omega
    · omega

/-- Digits denote zero bytes only where they are all zeros. -/
theorem fromHexString_zero_iff : ∀ (s : Str) (n : Nat), s.length = 2 * n → (∀ c ∈ s, isHexDigit c = true) →
    ((∀ b ∈ fromHexString s, b = 0) ↔ ∀ c ∈ s, c = chr '0')
  | [], _, _, _ => by simp [fromHexString]
  | [_], n, h, _ => by simp at h; omega
  | _ :: _ :: _, 0, h, _ => by simp at h
  | a :: b :: s, n + 1, h, hhex => by
    simp only [List.forall_mem_cons] at hhex
    obtain ⟨ha, hb, hs⟩ := hhex
    have ih := fromHexString_zero_iff s n (by simp at h; omega) hs
    have hpair : UInt8.ofNat (16 * hexValue a + hexValue b) = 0 ↔ a = chr '0' ∧ b = chr '0' := by
      rw [← hexValue_eq_zero_iff ha, ← hexValue_eq_zero_iff hb, ← UInt8.toNat_inj, UInt8.toNat_ofNat']
      have hlt (c : Char16) (hc : isHexDigit c = true) : hexValue c < 16 := by
        rw [isHexDigit_iff] at hc
        simp only [hexValue, isAsciiDigit, Bool.and_eq_true, decide_eq_true_eq]
        split
        · omega
        · split <;> omega
      have ha' := hlt a ha
      have hb' := hlt b hb
      have h0 : (0 : UInt8).toNat = 0 := rfl
      omega
    simp only [fromHexString, List.forall_mem_cons, hpair, ih, and_assoc]

end MythLab.Devices.MacAddress
