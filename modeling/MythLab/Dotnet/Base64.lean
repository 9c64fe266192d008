/-
  MythLab.Dotnet.Base64 — `Convert.ToBase64String` and `Convert.FromBase64String`.

  Decoding skips spaces, tabs and line ends, wants whole groups of four characters with
  the padding in the last one, and ignores the bits the padding leaves over.
  `fromBase64String_toBase64String`: what was encoded decodes to itself.
-/
import MythLab.Dotnet.Text

namespace MythLab.Dotnet

def base64Alphabet : Str := str "ABCDEFGHIJKLMNOPQRSTUVWXYZabcdefghijklmnopqrstuvwxyz0123456789+/"

/-- The character of a number below 64. -/
def base64Char (n : Nat) : Char16 := base64Alphabet.getD n (chr '=')

def base64Value (c : Char16) : Option Nat :=
  if base64Alphabet.contains c then some (base64Alphabet.idxOf c) else none

def toBase64String : List UInt8 → Str
  | [] => []
  | [a] => [base64Char (a.toNat / 4), base64Char (a.toNat % 4 * 16), chr '=', chr '=']
  | [a, b] =>
    [base64Char (a.toNat / 4), base64Char (a.toNat % 4 * 16 + b.toNat / 16), base64Char (b.toNat % 16 * 4), chr '=']
  | a :: b :: c :: rest =>
    [base64Char (a.toNat / 4), base64Char (a.toNat % 4 * 16 + b.toNat / 16),
      base64Char (b.toNat % 16 * 4 + c.toNat / 64), base64Char (c.toNat % 64)] ++ toBase64String rest

/-- The bytes of the groups of four, the padding only in the last. -/
def fromBase64Groups : Str → Option (List UInt8)
  | [] => some []
  | w :: x :: y :: z :: rest => do
    let a ← base64Value w
    let b ← base64Value x
    let first := UInt8.ofNat (a * 4 + b / 16)
    if y = chr '=' then
      if z = chr '=' ∧ rest = [] then some [first] else none
    else do
      let c ← base64Value y
      let second := UInt8.ofNat (b % 16 * 16 + c / 4)
      if z = chr '=' then
        if rest = [] then some [first, second] else none
      else do
        let d ← base64Value z
        let bytes ← fromBase64Groups rest
        some (first :: second :: UInt8.ofNat (c % 4 * 64 + d) :: bytes)
  | _ => none

/-- `Convert.FromBase64String`; `none` where it throws a `FormatException`. -/
def fromBase64String (s : Str) : Option (List UInt8) :=
  fromBase64Groups (s.filter fun c => !(c == chr ' ' || c == chr '\t' || c == chr '\n' || c == chr '\r'))

/-! ## The round trip -/

/-- A character that decoding skips. -/
def isSkipped (c : Char16) : Bool := c == chr ' ' || c == chr '\t' || c == chr '\n' || c == chr '\r'

theorem base64Char_spec : ∀ n < 64, base64Value (base64Char n) = some n ∧ base64Char n ≠ chr '=' ∧
    isSkipped (base64Char n) = false ∧ isWhiteSpace (base64Char n) = false := by
  decide +kernel

theorem toBase64String_plain (bytes : List UInt8) : ∀ c ∈ toBase64String bytes, isSkipped c = false := by
  have hchar (n : Nat) (hn : n < 64) : isSkipped (base64Char n) = false := (base64Char_spec n hn).2.2.1
  have hpad : isSkipped (chr '=') = false := by decide
  have hbyte (b : UInt8) : b.toNat < 256 := b.toNat_lt
  fun_induction toBase64String bytes with
  | case1 => exact nofun
  | case2 a =>
    have ha := hbyte a
    simp only [List.mem_cons, List.not_mem_nil, or_false, forall_eq_or_imp, forall_eq]
    exact ⟨hchar _ (by omega), hchar _ (by omega), hpad, hpad⟩
  | case3 a b =>
    have ha := hbyte a
    have hb := hbyte b
    simp only [List.mem_cons, List.not_mem_nil, or_false, forall_eq_or_imp, forall_eq]
    exact ⟨hchar _ (by omega), hchar _ (by omega), hchar _ (by omega), hpad⟩
  | case4 a b c rest ih =>
    have ha := hbyte a
    have hb := hbyte b
    have hc := hbyte c
    simp only [List.cons_append, List.nil_append, List.mem_cons, forall_eq_or_imp]
    exact ⟨hchar _ (by omega), hchar _ (by omega), hchar _ (by omega), hchar _ (by omega), ih⟩

theorem fromBase64Groups_toBase64String (bytes : List UInt8) : fromBase64Groups (toBase64String bytes) = some bytes := by
  have hvalue (n : Nat) (hn : n < 64) : base64Value (base64Char n) = some n := (base64Char_spec n hn).1
  have hnotpad (n : Nat) (hn : n < 64) : base64Char n ≠ chr '=' := (base64Char_spec n hn).2.1
  have hbyte (b : UInt8) : b.toNat < 256 := b.toNat_lt
  have hofNat (b : UInt8) (n : Nat) (hn : n = b.toNat) : UInt8.ofNat n = b := by rw [hn, UInt8.ofNat_toNat]
  fun_induction toBase64String bytes with
  | case1 => rfl
  | case2 a =>
    have ha := hbyte a
    simp only [fromBase64Groups, hvalue _ (show a.toNat / 4 < 64 by omega),
      hvalue _ (show a.toNat % 4 * 16 < 64 by omega), Option.bind_eq_bind, Option.bind_some, if_true, and_self]
    rw [hofNat a _ (by omega)]
  | case3 a b =>
    have ha := hbyte a
    have hb := hbyte b
    simp only [fromBase64Groups, hvalue _ (show a.toNat / 4 < 64 by omega),
      hvalue _ (show a.toNat % 4 * 16 + b.toNat / 16 < 64 by omega),
      hvalue _ (show b.toNat % 16 * 4 < 64 by omega), hnotpad _ (show b.toNat % 16 * 4 < 64 by omega),
      Option.bind_eq_bind, Option.bind_some, if_true, if_false]
    rw [hofNat a _ (by omega), hofNat b _ (by omega)]
  | case4 a b c rest ih =>
    have ha := hbyte a
    have hb := hbyte b
    have hc := hbyte c
    simp only [List.cons_append, List.nil_append, fromBase64Groups, hvalue _ (show a.toNat / 4 < 64 by omega),
      hvalue _ (show a.toNat % 4 * 16 + b.toNat / 16 < 64 by omega),
      hvalue _ (show b.toNat % 16 * 4 + c.toNat / 64 < 64 by omega),
      hvalue _ (show c.toNat % 64 < 64 by omega),
      hnotpad _ (show b.toNat % 16 * 4 + c.toNat / 64 < 64 by omega),
      hnotpad _ (show c.toNat % 64 < 64 by omega), ih, Option.bind_eq_bind, Option.bind_some, if_false]
    rw [hofNat a _ (by omega), hofNat b _ (by omega), hofNat c _ (by omega)]

theorem fromBase64String_toBase64String (bytes : List UInt8) : fromBase64String (toBase64String bytes) = some bytes := by
  have hfilter : (toBase64String bytes).filter (fun c => !isSkipped c) = toBase64String bytes := by
    refine List.filter_eq_self.mpr ?_
    intro c hc
    rw [toBase64String_plain bytes c hc]
    rfl
  show fromBase64Groups ((toBase64String bytes).filter fun c => !isSkipped c) = some bytes
  rw [hfilter]
  exact fromBase64Groups_toBase64String bytes

example : fromBase64String (toBase64String [77, 121, 116, 104]) = some [77, 121, 116, 104] := by decide

theorem toBase64String_not_blank {bytes : List UInt8} (h : bytes ≠ []) :
    isNullOrWhiteSpace (toBase64String bytes) = false := by
  have hfirst (a : UInt8) (rest : Str) : isNullOrWhiteSpace (base64Char (a.toNat / 4) :: rest) = false := by
    have ha : a.toNat / 4 < 64 := by have := a.toNat_lt; omega
    simp [isNullOrWhiteSpace, (base64Char_spec _ ha).2.2.2]
  match bytes, h with
  | [a], _ => exact hfirst a _
  | [a, b], _ => exact hfirst a _
  | a :: b :: c :: rest, _ => exact hfirst a _

end MythLab.Dotnet
