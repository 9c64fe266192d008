/-
  MythLab.Dotnet.Text — .NET strings as the code uses them.

  A string is its UTF-16 code units, so `length` and indexing are .NET's. Character
  classes follow `System.Char`; `trim`, `trimEnd`, `split` and `join` follow `String`.
  `trim_trim` and `trimEnd_trimEnd`: trimming twice is trimming once.
-/
import Mathlib.Data.List.DropRight

namespace MythLab.Dotnet

/-- A `char`: one UTF-16 code unit. -/
abbrev Char16 := UInt16

/-- A `string`: its UTF-16 code units. -/
abbrev Str := List Char16

/-- The code unit of a character of the basic plane. -/
def chr (c : Char) : Char16 := c.val.toUInt16

/-- A literal whose characters are all in the basic plane. -/
def str (s : String) : Str := s.toList.map chr

/-- The text of a string whose characters are all in the basic plane. -/
def text (s : Str) : String := String.ofList (s.map fun c => Char.ofNat c.toNat)

/-! ## Character classes -/

/-- `char.IsWhiteSpace`. -/
def isWhiteSpace (c : Char16) : Bool :=
  let n := c.toNat
  (9 ≤ n && n ≤ 13) || n == 0x20 || n == 0x85 || n == 0xA0 || n == 0x1680 || (0x2000 ≤ n && n ≤ 0x200A) ||
    n == 0x2028 || n == 0x2029 || n == 0x202F || n == 0x205F || n == 0x3000

/-- `char.IsControl`. -/
def isControl (c : Char16) : Bool := c.toNat ≤ 0x1F || (0x7F ≤ c.toNat && c.toNat ≤ 0x9F)

/-- `char.IsAsciiDigit`. -/
def isAsciiDigit (c : Char16) : Bool := 48 ≤ c.toNat && c.toNat ≤ 57

/-- `char.IsAsciiLetter`. -/
def isAsciiLetter (c : Char16) : Bool := (65 ≤ c.toNat && c.toNat ≤ 90) || (97 ≤ c.toNat && c.toNat ≤ 122)

def isAsciiLetterOrDigit (c : Char16) : Bool := isAsciiLetter c || isAsciiDigit c

/-- The ASCII letters in lower case; every other character as it is. -/
def asciiLower (c : Char16) : Char16 := if 65 ≤ c.toNat && c.toNat ≤ 90 then c + 32 else c

/-! ## Searching -/

/-- `s.StartsWith(word, StringComparison.Ordinal)`. -/
def startsWith (s word : Str) : Bool := word.isPrefixOf s

/-- `s.Contains(word, StringComparison.Ordinal)`. -/
def containsText (s word : Str) : Bool := s.tails.any fun t => startsWith t word

/-! ## Trimming -/

/-- `string.IsNullOrWhiteSpace`, of a string that is not null. -/
def isNullOrWhiteSpace (s : Str) : Bool := s.all isWhiteSpace

def trim (s : Str) : Str := (s.dropWhile isWhiteSpace).rdropWhile isWhiteSpace

def trimEnd (c : Char16) (s : Str) : Str := s.rdropWhile (· == c)

/-- A string with no white space at either end is its own trim. -/
theorem trim_of_ends {s : Str} (hfirst : ∀ c ∈ s.head?, isWhiteSpace c = false)
    (hlast : ∀ c ∈ s.getLast?, isWhiteSpace c = false) : trim s = s := by
  have hd : s.dropWhile isWhiteSpace = s := by
    cases s with
    | nil => rfl
    | cons c s => rw [List.dropWhile_cons, if_neg (by simpa using hfirst c rfl)]
  unfold trim
  rw [hd, List.rdropWhile_eq_self_iff]
  intro hne
  simpa using hlast _ (List.getLast?_eq_some_getLast hne)

theorem trim_first (s : Str) : ∀ c ∈ (trim s).head?, isWhiteSpace c = false := by
  intro c hc
  have hp : trim s <+: s.dropWhile isWhiteSpace := List.rdropWhile_prefix _ _
  obtain ⟨t, ht⟩ := hp
  have hd : (s.dropWhile isWhiteSpace).head? = some c := by
    rw [← ht, List.head?_append, Option.mem_def.mp hc]; rfl
  have hne : s.dropWhile isWhiteSpace ≠ [] := by
    intro e; rw [e] at hd; cases hd
  have := List.head_dropWhile_not isWhiteSpace hne
  rw [List.head?_eq_some_head hne, Option.some.injEq] at hd
  rwa [hd] at this

theorem trim_last (s : Str) : ∀ c ∈ (trim s).getLast?, isWhiteSpace c = false := by
  intro c hc
  have hne : trim s ≠ [] := by intro e; rw [e] at hc; cases hc
  have hlast : isWhiteSpace ((trim s).getLast hne) = false :=
    (Bool.not_eq_true _).mp (List.rdropWhile_last_not isWhiteSpace (s.dropWhile isWhiteSpace) hne)
  rw [Option.mem_def, List.getLast?_eq_some_getLast hne, Option.some.injEq] at hc
  rwa [hc] at hlast

theorem trim_trim (s : Str) : trim (trim s) = trim s := trim_of_ends (trim_first s) (trim_last s)

/-- Whether a string is its own trim depends on which of its characters are white space. -/
theorem trim_of_map {s t : Str} (hmap : t.map isWhiteSpace = s.map isWhiteSpace) (hs : trim s = s) : trim t = t := by
  have hfirst := trim_first s
  have hlast := trim_last s
  rw [hs] at hfirst hlast
  have hends (f : Option Char16) (g : Option Char16) (hfg : g.map isWhiteSpace = f.map isWhiteSpace)
      (hf : ∀ c ∈ f, isWhiteSpace c = false) : ∀ c ∈ g, isWhiteSpace c = false := by
    rintro c rfl
    cases f with
    | none => cases hfg
    | some d => exact (Option.some.inj hfg).trans (hf d rfl)
  refine trim_of_ends (hends s.head? _ ?_ hfirst) (hends s.getLast? _ ?_ hlast)
  · rw [← List.head?_map, hmap, List.head?_map]
  · rw [← List.getLast?_map, hmap, List.getLast?_map]

theorem trim_length_le (s : Str) : (trim s).length ≤ s.length :=
  Nat.le_trans (List.rdropWhile_prefix _ _).length_le (List.dropWhile_suffix _).length_le

/-- A trim that is blank comes from a blank string. -/
theorem isNullOrWhiteSpace_trim (s : Str) : isNullOrWhiteSpace (trim s) = isNullOrWhiteSpace s := by
  rw [Bool.eq_iff_iff]
  unfold isNullOrWhiteSpace
  rw [List.all_eq_true, List.all_eq_true]
  refine ⟨?_, ?_⟩
  · intro h
    have hnil : trim s = [] := by
      by_contra hne
      exact List.rdropWhile_last_not isWhiteSpace _ hne (h _ (List.getLast_mem hne))
    have hdrop : s.dropWhile isWhiteSpace = [] := by
      by_contra hne
      have hall := List.rdropWhile_eq_nil_iff.mp hnil
      have hhead := hall _ (List.head_mem hne)
      simp [List.head_dropWhile_not isWhiteSpace hne] at hhead
    exact List.dropWhile_eq_nil_iff.mp hdrop
  · intro h
    have hdrop : s.dropWhile isWhiteSpace = [] := List.dropWhile_eq_nil_iff.mpr h
    intro c hc
    unfold trim at hc
    simp [hdrop] at hc

theorem trimEnd_trimEnd (c : Char16) (s : Str) : trimEnd c (trimEnd c s) = trimEnd c s :=
  List.rdropWhile_idempotent _ _

theorem trimEnd_of_map {c : Char16} {s t : Str} (hmap : t.map (· == c) = s.map (· == c)) (hs : trimEnd c s = s) :
    trimEnd c t = t := by
  unfold trimEnd at *
  rw [List.rdropWhile_eq_self_iff] at hs ⊢
  intro hne
  have hs_ne : s ≠ [] := by
    rintro rfl
    exact hne (List.map_eq_nil_iff.mp hmap)
  have hlast := congrArg List.getLast? hmap
  rw [List.getLast?_map, List.getLast?_map, List.getLast?_eq_some_getLast hne,
    List.getLast?_eq_some_getLast hs_ne] at hlast
  have hsame : (t.getLast hne == c) = (s.getLast hs_ne == c) := Option.some.inj hlast
  rw [hsame]
  exact hs hs_ne

/-! ## Splitting, joining, numbers -/

def split (c : Char16) (s : Str) : List Str := s.splitOn c

/-- `string.Join`. -/
def join (separator : Str) (parts : List Str) : Str := separator.intercalate parts

theorem mem_join {separator : Str} {c : Char16} {parts : List Str} (h : c ∈ join separator parts) :
    c ∈ separator ∨ ∃ part ∈ parts, c ∈ part := by
  induction parts with
  | nil => cases h
  | cons part parts ih =>
    cases parts with
    | nil => exact Or.inr ⟨part, List.mem_cons_self, by simpa [join] using h⟩
    | cons next parts =>
      unfold join at h
      rw [List.intercalate_cons_cons, List.append_assoc] at h
      rcases List.mem_append.mp h with h | h
      · exact Or.inr ⟨part, List.mem_cons_self, h⟩
      rcases List.mem_append.mp h with h | h
      · exact Or.inl h
      rcases ih h with h | ⟨other, hm, h⟩
      · exact Or.inl h
      · exact Or.inr ⟨other, List.mem_cons_of_mem _ hm, h⟩

/-- Every character of a string is the separator or in a part. -/
theorem mem_split {separator c : Char16} {s : Str} (h : c ∈ s) :
    c = separator ∨ ∃ part ∈ split separator s, c ∈ part := by
  have hs : join [separator] (split separator s) = s := List.intercalate_splitOn separator
  rw [← hs] at h
  exact (mem_join h).imp_left List.mem_singleton.mp

theorem mem_join_of_mem {separator part : Str} {c : Char16} {parts : List Str} (hp : part ∈ parts) (hc : c ∈ part) :
    c ∈ join separator parts := by
  induction parts with
  | nil => cases hp
  | cons first parts ih =>
    unfold join at *
    cases parts with
    | nil => simpa [List.mem_singleton.mp hp] using hc
    | cons next parts =>
      rw [List.intercalate_cons_cons]
      rcases List.mem_cons.mp hp with rfl | hp
      · simp [hc]
      · simp [ih hp]

theorem mem_of_mem_split {separator c : Char16} {s part : Str} (hp : part ∈ split separator s) (hc : c ∈ part) : c ∈ s := by
  have hs : join [separator] (split separator s) = s := List.intercalate_splitOn separator
  rw [← hs]
  exact mem_join_of_mem hp hc

/-- The value of a string of decimal digits. -/
def parseDecimal (s : Str) : Nat := s.foldl (fun n c => 10 * n + (c.toNat - 48)) 0

/-- `ToString(CultureInfo.InvariantCulture)` of a number that is not negative. -/
def decimal (n : Nat) : Str := (Nat.toDigits 10 n).map chr

theorem isAsciiDigit_chr {c : Char} (h : c.isDigit = true) : isAsciiDigit (chr c) = true := by
  simp only [Char.isDigit, Bool.and_eq_true, decide_eq_true_eq, ge_iff_le, UInt32.le_iff_toNat_le] at h
  have hzero : '0'.val.toNat = 48 := rfl
  have hnine : '9'.val.toNat = 57 := rfl
  have hc : (chr c).toNat = c.val.toNat % 65536 := by
    unfold chr
    rw [UInt32.toNat_toUInt16]
  simp only [isAsciiDigit, Bool.and_eq_true, decide_eq_true_eq]
  omega

/-- A number that is not negative is written in digits. -/
theorem isAsciiDigit_of_mem_toString {n : Int} (hn : 0 ≤ n) : ∀ c ∈ str (toString n), isAsciiDigit c = true := by
  intro c hc
  obtain ⟨d, hd, rfl⟩ := List.mem_map.mp hc
  obtain ⟨k, rfl⟩ := Int.eq_ofNat_of_zero_le hn
  refine isAsciiDigit_chr (Nat.isDigit_of_mem_toDigits (b := 10) (n := k) (by decide) (by decide) ?_)
  exact (String.toList_ofList (l := Nat.toDigits 10 k)) ▸ hd

/-- `byte.TryParse` of a string of decimal digits. -/
def isByte (s : Str) : Bool := parseDecimal s ≤ 255

/-! ## Hexadecimal -/

/-- `Uri.IsHexDigit`. -/
def isHexDigit (c : Char16) : Bool :=
  isAsciiDigit c || (65 ≤ c.toNat && c.toNat ≤ 70) || (97 ≤ c.toNat && c.toNat ≤ 102)

def hexValue (c : Char16) : Nat :=
  if isAsciiDigit c then c.toNat - 48 else if c.toNat ≤ 70 then c.toNat - 55 else c.toNat - 87

/-- The upper-case digit of a value below sixteen. -/
def hexDigit (n : Nat) : Char16 := if n < 10 then UInt16.ofNat (48 + n) else UInt16.ofNat (55 + n)

/-- `b.ToString("X2")`. -/
def formatX2 (b : UInt8) : Str := [hexDigit (b.toNat / 16), hexDigit (b.toNat % 16)]

/-- `Convert.FromHexString`, of an even number of hexadecimal digits. -/
def fromHexString : Str → List UInt8
  | a :: b :: s => UInt8.ofNat (16 * hexValue a + hexValue b) :: fromHexString s
  | _ => []

theorem hexDigit_spec : ∀ n < 16, hexValue (hexDigit n) = n ∧ isHexDigit (hexDigit n) = true ∧
    isWhiteSpace (hexDigit n) = false ∧ hexDigit n ≠ 58 := by
  decide

theorem fromHexString_formatX2 (bs : List UInt8) : fromHexString (bs.flatMap formatX2) = bs := by
  induction bs with
  | nil => rfl
  | cons b bs ih =>
    have hb := b.toNat_lt
    have h1 := (hexDigit_spec (b.toNat / 16) (by omega)).1
    have h2 := (hexDigit_spec (b.toNat % 16) (by omega)).1
    simp only [List.flatMap_cons, formatX2, List.cons_append, List.nil_append, fromHexString, h1, h2, ih]
    rw [show 16 * (b.toNat / 16) + b.toNat % 16 = b.toNat by omega, UInt8.ofNat_toNat]

/-! ## Order -/

/-- The Unicode code points of a string; a lone surrogate counts as U+FFFD. -/
def codePoints : Str → List Nat
  | a :: b :: s =>
    if 0xD800 ≤ a.toNat && a.toNat ≤ 0xDBFF && 0xDC00 ≤ b.toNat && b.toNat ≤ 0xDFFF then
      (0x10000 + (a.toNat - 0xD800) * 0x400 + (b.toNat - 0xDC00)) :: codePoints s
    else (if 0xD800 ≤ a.toNat && a.toNat ≤ 0xDFFF then 0xFFFD else a.toNat) :: codePoints (b :: s)
  | [a] => [if 0xD800 ≤ a.toNat && a.toNat ≤ 0xDFFF then 0xFFFD else a.toNat]
  | [] => []

/-- The order of two strings' UTF-8 bytes: that of their code points. -/
def binaryLe (a b : Str) : Bool := !decide (codePoints b < codePoints a)

/-- The UTF-8 form of a code point. -/
def utf8Bytes (n : Nat) : List UInt8 :=
  (if n < 0x80 then [n]
  else if n < 0x800 then [0xC0 + n / 64, 0x80 + n % 64]
  else if n < 0x10000 then [0xE0 + n / 4096, 0x80 + n / 64 % 64, 0x80 + n % 64]
  else [0xF0 + n / 262144, 0x80 + n / 4096 % 64, 0x80 + n / 64 % 64, 0x80 + n % 64]).map UInt8.ofNat

/-- `Encoding.UTF8.GetBytes` -/
def utf8 (s : Str) : List UInt8 := (codePoints s).flatMap utf8Bytes

end MythLab.Dotnet
