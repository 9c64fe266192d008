/-
  MythLab.Devices.HardwareAddresses — the spellings of a MAC address and the six bytes they
  denote.

  `Spells` is the grammar: twelve hexadecimal digits together, or six pairs of them
  separated throughout by a colon or throughout by a hyphen. `normalize` takes exactly the
  texts of the grammar and returns the text of their bytes (`normalize_ok_iff`), so two
  spellings have one normal form where they denote one address, and the comparison by MAC
  in `matchReason` is that of the hardware addresses (`mac_decides_identity`).
-/
import MythLab.Devices.DeviceRules

namespace MythLab.Devices.MacAddress

open Lib Dotnet DeviceRules

/-! ## The grammar -/

/-- Two hexadecimal digits. -/
def IsHexPair (pair : Str) : Prop := pair.length = 2 ∧ ∀ c ∈ pair, isHexDigit c = true

def IsSeparator (c : Char16) : Prop := c = chr ':' ∨ c = chr '-'

/-- The texts of a MAC address, each with the bytes it denotes. -/
inductive Spells : Str → List UInt8 → Prop
  | together {digits : Str} : digits.length = 12 → (∀ c ∈ digits, isHexDigit c = true) →
      Spells digits (fromHexString digits)
  | separated {separator : Char16} {pairs : List Str} : IsSeparator separator → pairs.length = 6 →
      (∀ pair ∈ pairs, IsHexPair pair) → Spells (join [separator] pairs) (pairs.flatMap fromHexString)

theorem not_isHexDigit_of_isSeparator {c : Char16} (h : IsSeparator c) : isHexDigit c = false := by
  rcases h with rfl | rfl
  · decide
  · decide

theorem join_cons_cons (c : Char16) (pair next : Str) (pairs : List Str) :
    join [c] (pair :: next :: pairs) = pair ++ c :: join [c] (next :: pairs) := by
  simp [join]

/-- Without its separators a text of pairs is the pairs. -/
theorem filter_join (separator : Char16) (pairs : List Str) :
    (join [separator] pairs).filter (· != separator) = pairs.flatten.filter (· != separator) := by
  induction pairs with
  | nil => rfl
  | cons pair pairs ih =>
    cases pairs with
    | nil => simp [join]
    | cons next pairs =>
      rw [join_cons_cons, List.flatten_cons, List.filter_append, List.filter_append,
        List.filter_cons_of_neg (by simp), ih]

/-- Pairs of hexadecimal digits have no separator in them. -/
theorem filter_pairs {separator : Char16} {pairs : List Str} (hsep : IsSeparator separator)
    (hpairs : ∀ pair ∈ pairs, IsHexPair pair) : pairs.flatten.filter (· != separator) = pairs.flatten := by
  refine List.filter_eq_self.mpr ?_
  intro c hc
  obtain ⟨pair, hpair, hc⟩ := List.mem_flatten.mp hc
  have hdigit := (hpairs pair hpair).2 c hc
  refine bne_iff_ne.mpr ?_
  intro he
  subst he
  rw [not_isHexDigit_of_isSeparator hsep] at hdigit
  cases hdigit

theorem length_flatten {pairs : List Str} (hpairs : ∀ pair ∈ pairs, pair.length = 2) :
    pairs.flatten.length = 2 * pairs.length := by
  induction pairs with
  | nil => rfl
  | cons pair pairs ih =>
    rw [List.forall_mem_cons] at hpairs
    rw [List.flatten_cons, List.length_append, ih hpairs.2, hpairs.1, List.length_cons]
    omega

theorem fromHexString_flatten {pairs : List Str} (hpairs : ∀ pair ∈ pairs, pair.length = 2) :
    fromHexString pairs.flatten = pairs.flatMap fromHexString := by
  induction pairs with
  | nil => rfl
  | cons pair pairs ih =>
    rw [List.forall_mem_cons] at hpairs
    obtain ⟨a, b, rfl⟩ := List.length_eq_two.mp hpairs.1
    rw [List.flatMap_cons, ← ih hpairs.2]
    rfl

theorem length_join (c : Char16) {pairs : List Str} (hne : pairs ≠ []) (hpairs : ∀ pair ∈ pairs, pair.length = 2) :
    (join [c] pairs).length + 1 = 3 * pairs.length := by
  induction pairs with
  | nil => exact absurd rfl hne
  | cons pair pairs ih =>
    rw [List.forall_mem_cons] at hpairs
    have hpair := hpairs.1
    cases pairs with
    | nil =>
      show (join [c] [pair]).length + 1 = 3
      simp [join, hpair]
    | cons next pairs =>
      have htail := ih (List.cons_ne_nil _ _) hpairs.2
      rw [join_cons_cons, List.length_append, hpair, List.length_cons, List.length_cons]
      omega

/-- After each pair but the last there is a separator. -/
theorem getElem?_join (c : Char16) {pairs : List Str} (hpairs : ∀ pair ∈ pairs, pair.length = 2) {i : Nat}
    (hi : i + 1 < pairs.length) : (join [c] pairs)[3 * i + 2]? = some c := by
  induction pairs generalizing i with
  | nil => exact absurd hi (Nat.not_lt_zero _)
  | cons pair pairs ih =>
    rw [List.forall_mem_cons] at hpairs
    obtain ⟨a, b, rfl⟩ := List.length_eq_two.mp hpairs.1
    cases pairs with
    | nil => exact absurd hi (by simp)
    | cons next pairs =>
      rw [join_cons_cons]
      cases i with
      | zero => rfl
      | succ i => exact ih hpairs.2 (Nat.lt_of_succ_lt_succ hi)

/-- A text with a separator at each third place is one of pairs. -/
theorem exists_pairs (c : Char16) {n : Nat} {text : Str} (hlength : text.length = 3 * n + 2)
    (hat : ∀ i < n, text[3 * i + 2]? = some c) :
    ∃ pairs : List Str, pairs.length = n + 1 ∧ (∀ pair ∈ pairs, pair.length = 2) ∧ text = join [c] pairs := by
  induction n generalizing text with
  | zero => exact ⟨[text], rfl, by simpa using hlength, by simp [join]⟩
  | succ n ih =>
    rcases text with _ | ⟨a, _ | ⟨b, _ | ⟨x, rest⟩⟩⟩
    all_goals simp only [List.length_nil, List.length_cons] at hlength
    · omega
    · omega
    · omega
    · obtain rfl : x = c := Option.some.inj (hat 0 (Nat.succ_pos n))
      obtain ⟨pairs, hpairs, htwo, rfl⟩ := @ih rest (by omega) fun i hi => hat (i + 1) (Nat.succ_lt_succ hi)
      cases pairs with
      | nil => cases hpairs
      | cons next pairs =>
        refine ⟨[a, b] :: next :: pairs, congrArg (· + 1) hpairs, List.forall_mem_cons.mpr ⟨rfl, htwo⟩, ?_⟩
        rw [join_cons_cons]
        rfl

/-! ## What is accepted -/

theorem compact_together {digits : Str} (h : digits.length = 12) : compact digits = .ok digits := if_pos h

theorem compact_separated {separator : Char16} {pairs : List Str} (hsep : IsSeparator separator)
    (hlength : pairs.length = 6) (hpairs : ∀ pair ∈ pairs, IsHexPair pair) : compact (join [separator] pairs) = .ok pairs.flatten := by
  have hfilter := (filter_join separator pairs).trans (filter_pairs hsep hpairs)
  have hpairs : ∀ pair ∈ pairs, pair.length = 2 := fun pair hpair => (hpairs pair hpair).1
  have hlen := length_join separator (List.ne_nil_of_length_eq_add_one hlength) hpairs
  have hat : ∀ i ∈ [2, 5, 8, 11, 14], (join [separator] pairs)[i]? = some separator := by
    intro i hi
    have hpair {n : Nat} (hn : n < 5) : (join [separator] pairs)[3 * n + 2]? = some separator :=
      getElem?_join separator hpairs (by omega)
    simp only [List.mem_cons, List.not_mem_nil, or_false] at hi
    rcases hi with rfl | rfl | rfl | rfl | rfl
    · exact hpair (n := 0) (by decide)
    · exact hpair (n := 1) (by decide)
    · exact hpair (n := 2) (by decide)
    · exact hpair (n := 3) (by decide)
    · exact hpair (n := 4) (by decide)
  rw [← hfilter]
  generalize join [separator] pairs = text at hlen hat
  have htwo : text[2]? = some separator := hat 2 List.mem_cons_self
  have hnone : ¬ ([2, 5, 8, 11, 14].any fun i => text[i]? != some separator) = true := by
    rw [List.any_eq_true]
    intro h
    obtain ⟨i, hi, hne⟩ := h
    rw [hat i hi] at hne
    exact bne_iff_ne.mp hne rfl
  unfold compact
  rw [if_neg (by omega), htwo, if_pos ⟨by omega, hsep.imp (congrArg some) (congrArg some)⟩]
  dsimp only
  rw [if_neg hnone, pure_eq_ok]
  refine congrArg Except.ok (List.filter_congr ?_)
  intro c _
  simp [bne]

/-- What the checks of `compact` and of its result leave is a text of the grammar. -/
theorem spells_of_compact {text digits : Str} (h : compact text = .ok digits) (hlength : digits.length = 12)
    (hhex : ∀ c ∈ digits, isHexDigit c = true) : Spells text (fromHexString digits) := by
  unfold compact at h
  split at h
  · obtain rfl := Except.ok.inj h
    exact .together hlength hhex
  · split at h
    · rename_i hform
      obtain ⟨separator, hsep, htwo⟩ : ∃ separator, IsSeparator separator ∧ text[2]? = some separator :=
        hform.2.elim (fun h => ⟨_, Or.inl rfl, h⟩) fun h => ⟨_, Or.inr rfl, h⟩
      rw [htwo] at h
      dsimp only at h
      split at h
      · cases h
      · rename_i hnone
        obtain rfl := Except.ok.inj h
        have hat : ∀ i < 5, text[3 * i + 2]? = some separator := by
          have hall : ∀ i ∈ [2, 5, 8, 11, 14], text[i]? = some separator := fun i hi =>
            by_contra fun hne => hnone (List.any_eq_true.mpr ⟨i, hi, bne_iff_ne.mpr hne⟩)
          intro i hi
          refine hall _ ?_
          rcases i with _ | _ | _ | _ | _ | i
          · decide
          · decide
          · decide
          · decide
          · decide
          · omega
        obtain ⟨pairs, hpairs, hlengths, rfl⟩ := exists_pairs separator hform.1 hat
        have hfilter : (join [separator] pairs).filter (fun c => some c != some separator) =
            pairs.flatten.filter (· != separator) := filter_join separator pairs
        rw [hfilter] at hlength hhex ⊢
        -- the twelve digits are all that there is beside the separators
        have hflat : pairs.flatten.filter (· != separator) = pairs.flatten := by
          refine List.filter_eq_self.mpr (List.length_filter_eq_length_iff.mp ?_)
          rw [hlength, length_flatten hlengths, hpairs]
        rw [hflat] at hhex ⊢
        have hhex : ∀ pair ∈ pairs, IsHexPair pair := fun pair hpair =>
          ⟨hlengths pair hpair, fun c hc => hhex c (List.mem_flatten.mpr ⟨pair, hpair, hc⟩)⟩
        rw [fromHexString_flatten hlengths]
        exact .separated hsep hpairs hhex
    · cases h

/-- The spec of `normalize`: it takes the texts of the grammar and returns their bytes in normal form. -/
theorem normalize_ok_iff {v m : Str} : normalize v = .ok m ↔ ∃ bytes, Spells (trim v) bytes ∧ m = format bytes := by
  constructor
  · intro h
    obtain ⟨digits, hcompact, h⟩ := bind_ok_iff.mp h
    obtain ⟨hdigits, h⟩ := throwIf_bind_ok_iff.mp h
    rw [not_or, not_not, not_not, List.all_eq_true] at hdigits
    exact ⟨_, spells_of_compact hcompact hdigits.1 hdigits.2, (Except.ok.inj h).symm⟩
  · intro h
    obtain ⟨bytes, hspells, rfl⟩ := h
    have haccepted {digits : Str} (hcompact : compact (trim v) = .ok digits) (hlength : digits.length = 12)
        (hhex : ∀ c ∈ digits, isHexDigit c = true) : normalize v = .ok (format (fromHexString digits)) := by
      refine bind_ok_iff.mpr ⟨digits, hcompact, throwIf_bind_ok_iff.mpr ⟨?_, rfl⟩⟩
      rw [not_or, not_not, not_not, List.all_eq_true]
      exact ⟨hlength, hhex⟩
    generalize trim v = text at hspells haccepted
    cases hspells with
    | together hlength hhex => exact haccepted (compact_together hlength) hlength hhex
    | @separated separator pairs hsep hlength hpairs =>
      have hlengths : ∀ pair ∈ pairs, pair.length = 2 := fun pair hpair => (hpairs pair hpair).1
      rw [← fromHexString_flatten hlengths]
      refine haccepted (compact_separated hsep hlength hpairs) ((length_flatten hlengths).trans (by rw [hlength])) ?_
      intro c hc
      obtain ⟨pair, hpair, hc⟩ := List.mem_flatten.mp hc
      exact (hpairs pair hpair).2 c hc

/-- Separators that do not agree are refused. -/
example : normalize (str "00:11-22:33:44:55") =
    .error (.argument "Use six hexadecimal pairs separated by colons or hyphens.") := by decide +kernel

/-! ## Identity -/

section Identity

variable {text : Str} {bytes other : List UInt8}

theorem Spells.length (h : Spells text bytes) : bytes.length = 6 := by
  cases h with
  | together hlength _ => exact fromHexString_length _ 6 hlength
  | @separated _ pairs _ hlength hpairs =>
    have hlengths : ∀ pair ∈ pairs, pair.length = 2 := fun pair hpair => (hpairs pair hpair).1
    rw [← fromHexString_flatten hlengths]
    exact fromHexString_length _ 6 ((length_flatten hlengths).trans (by rw [hlength]))

theorem format_inj (h : bytes.length = 6) (h' : other.length = 6) : format bytes = format other ↔ bytes = other := by
  constructor
  · intro he
    rw [← bytesOf_format h, he, bytesOf_format h']
  · exact congrArg format

theorem Spells.normalize {v : Str} (h : Spells (trim v) bytes) : MacAddress.normalize v = .ok (format bytes) :=
  normalize_ok_iff.mpr ⟨bytes, h, rfl⟩

/-- Two spellings have one normal form where they denote one address. -/
theorem Spells.normalize_eq_iff {v w : Str} (h : Spells (trim v) bytes) (h' : Spells (trim w) other) :
    MacAddress.normalize v = MacAddress.normalize w ↔ bytes = other := by
  rw [h.normalize, h'.normalize, Except.ok.injEq, format_inj h.length h'.length]

theorem Spells.ne_nil {v : Str} (h : Spells (trim v) bytes) : v ≠ [] := by
  intro h
  subst h
  have hblank := h.normalize
  cases hblank

theorem matchReason_mac_iff {fw : Framework} {a b : Device} (hid : a.id ≠ b.id) (ha : Spells (trim a.macAddress) bytes)
    (hb : Spells (trim b.macAddress) other) : matchReason fw a b = .ok (some "MAC address") ↔ bytes = other := by
  have hsame : sameMac a b = .ok (decide (bytes = other)) := by
    unfold sameMac
    rw [if_pos ⟨List.length_pos_of_ne_nil ha.ne_nil, List.length_pos_of_ne_nil hb.ne_nil⟩, ha.normalize, hb.normalize]
    show Except.ok (format bytes == format other) = _
    rw [Bool.beq_eq_decide_eq, decide_eq_decide.mpr (format_inj ha.length hb.length)]
  unfold matchReason
  rw [if_neg hid, hsame, ok_bind, pure_eq_ok, Except.ok.injEq]
  by_cases he : bytes = other
  · rw [if_pos (decide_eq_true he)]
    exact iff_of_true rfl he
  · rw [if_neg (fun h => he (of_decide_eq_true h))]
    refine iff_of_false ?_ he
    split
    · decide
    · split
      · decide
      · exact fun h => (by cases h)

end Identity

/-- `normalize` takes exactly the texts of the grammar, of which each denotes six bytes and no others; two
    accepted texts have one normal form exactly where they denote the same bytes, and a normal form is
    accepted and left as it is. So two devices whose MAC addresses are accepted match by them exactly
    where they have one hardware address. -/
theorem mac_decides_identity (fw : Framework) :
    (∀ v, (∃ m, normalize v = .ok m) ↔ ∃ bytes, Spells (trim v) bytes) ∧
      (∀ v bytes, Spells (trim v) bytes → bytes.length = 6 ∧ ∀ other, Spells (trim v) other → other = bytes) ∧
      (∀ v w bytes other, Spells (trim v) bytes → Spells (trim w) other → (normalize v = normalize w ↔ bytes = other)) ∧
      (∀ v m, normalize v = .ok m → normalize m = .ok m) ∧
      ∀ a b : Device, a.id ≠ b.id → ∀ bytes other, Spells (trim a.macAddress) bytes → Spells (trim b.macAddress) other →
        (matchReason fw a b = .ok (some "MAC address") ↔ bytes = other) := by
  refine ⟨?_, ?_, ?_, fun _ _ => normalize_normalize, ?_⟩
  · intro v
    constructor
    · intro h
      obtain ⟨m, hm⟩ := h
      obtain ⟨bytes, hspells, -⟩ := normalize_ok_iff.mp hm
      exact ⟨bytes, hspells⟩
    · exact fun ⟨bytes, hspells⟩ => ⟨_, hspells.normalize⟩
  · intro v bytes hspells
    exact ⟨hspells.length, fun other hother => (hother.normalize_eq_iff hspells).mp rfl⟩
  · exact fun v w bytes other hv hw => hv.normalize_eq_iff hw
  · exact fun a b hid bytes other ha hb => matchReason_mac_iff hid ha hb

end MythLab.Devices.MacAddress
