/-
  MythLab.Dotnet.Numbers — integers as text: `int.ToString` and `int.TryParse`, in a
  culture whose signs are `-` and `+`.

  `tryParseInt_text`: a number that is not negative is read back from its text.
-/
import MythLab.Dotnet.Text

namespace MythLab.Dotnet

/-- `n.ToString()` -/
def intText (n : Int) : Str := str (toString n)

/-- White space around a number. -/
def isNumberSpace (c : Char16) : Bool := (9 ≤ c.toNat && c.toNat ≤ 13) || c.toNat == 32

/-- Whether a number starts with a minus sign, and what follows its sign. -/
def readSign : Str → Bool × Str
  | [] => (false, [])
  | c :: s => if c == chr '-' then (true, s) else if c == chr '+' then (false, s) else (false, c :: s)

/-- `int.TryParse(s, out var n)`; null characters may follow the number. -/
def tryParseInt (s : Str) : Option Int :=
  let (negative, s) := readSign (s.dropWhile isNumberSpace)
  let digits := s.takeWhile isAsciiDigit
  let rest := (s.dropWhile isAsciiDigit).dropWhile isNumberSpace
  let n : Int := if negative then -parseDecimal digits else parseDecimal digits
  if digits = [] ∨ rest.any (· ≠ 0) ∨ n < -2147483648 ∨ 2147483647 < n then none else some n

/-! ## Reading a number back -/

theorem chr_toNat_of_isDigit {c : Char} (h : c.isDigit = true) : (chr c).toNat = c.toNat := by
  simp only [Char.isDigit, Bool.and_eq_true, decide_eq_true_eq, ge_iff_le, UInt32.le_iff_toNat_le] at h
  have hnine : '9'.val.toNat = 57 := rfl
  unfold chr
  rw [UInt32.toNat_toUInt16]
  exact Nat.mod_eq_of_lt (by omega)

theorem parseDecimal_decimal (n : Nat) : parseDecimal (decimal n) = n := by
  have hchars : ∀ (digits : List Char) (k : Nat), (∀ c ∈ digits, c.isDigit = true) →
      (digits.map chr).foldl (fun n c => 10 * n + (c.toNat - 48)) k = Nat.ofDigitChars 10 digits k := by
    intro digits
    induction digits with
    | nil => exact fun _ _ => rfl
    | cons c digits ih =>
      intro k h
      rw [List.forall_mem_cons] at h
      rw [List.map_cons, List.foldl_cons, chr_toNat_of_isDigit h.1, ih _ h.2, Nat.ofDigitChars_cons]
      rfl
  have hdigits : ∀ c ∈ Nat.toDigits 10 n, c.isDigit = true := fun c hc =>
    Nat.isDigit_of_mem_toDigits (by decide) (by decide) hc
  unfold parseDecimal decimal
  rw [hchars _ 0 hdigits, Nat.ofDigitChars_ten_toDigits]

theorem intText_ofNat (n : Nat) : intText n = decimal n := by
  unfold intText str decimal
  exact congrArg (List.map chr) Nat.toList_repr

theorem decimal_isAsciiDigit (n : Nat) : ∀ c ∈ decimal n, isAsciiDigit c = true := by
  intro c hc
  obtain ⟨d, hd, rfl⟩ := List.mem_map.mp hc
  exact isAsciiDigit_chr (Nat.isDigit_of_mem_toDigits (by decide) (by decide) hd)

theorem decimal_ne_nil (n : Nat) : decimal n ≠ [] := fun h => Nat.toDigits_ne_nil (List.map_eq_nil_iff.mp h)

/-- A text of digits starts with no space and no sign. -/
theorem readSign_digits {s : Str} (h : ∀ c ∈ s, isAsciiDigit c = true) :
    readSign (s.dropWhile isNumberSpace) = (false, s) := by
  cases s with
  | nil => rfl
  | cons c s =>
    have hc := h c List.mem_cons_self
    simp only [isAsciiDigit, Bool.and_eq_true, decide_eq_true_eq] at hc
    have hspace : ¬ isNumberSpace c = true := by
      simp only [isNumberSpace, Bool.or_eq_true, Bool.and_eq_true, decide_eq_true_eq, beq_iff_eq]
      omega
    have hminus : ¬ (c == chr '-') = true := by
      intro he
      rw [eq_of_beq he] at hc
      exact absurd hc (by decide)
    have hplus : ¬ (c == chr '+') = true := by
      intro he
      rw [eq_of_beq he] at hc
      exact absurd hc (by decide)
    rw [List.dropWhile_cons, if_neg hspace, readSign, if_neg hminus, if_neg hplus]

theorem tryParseInt_text {n : Int} (hn : 0 ≤ n) (hmax : n ≤ 2147483647) : tryParseInt (intText n) = some n := by
  obtain ⟨k, rfl⟩ := Int.eq_ofNat_of_zero_le hn
  have hdigits := decimal_isAsciiDigit k
  have htake : (decimal k).takeWhile isAsciiDigit = decimal k := List.takeWhile_eq_self_iff.mpr hdigits
  have hdrop : (decimal k).dropWhile isAsciiDigit = [] := List.dropWhile_eq_nil_iff.mpr hdigits
  show tryParseInt (intText (k : Nat)) = _
  unfold tryParseInt
  rw [intText_ofNat, readSign_digits hdigits]
  dsimp only
  rw [htake, hdrop, parseDecimal_decimal, if_neg]
  · rfl
  · rintro (hnil | hrest | hlow | hhigh)
    · exact decimal_ne_nil k hnil
    · cases hrest
    · rw [if_neg Bool.false_ne_true] at hlow
      omega
    · rw [if_neg Bool.false_ne_true] at hhigh
      omega

end MythLab.Dotnet
