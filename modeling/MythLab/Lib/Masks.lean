/-
  MythLab.Lib.Masks — masks of high bits and the aligned block of a number.

  A mask of `w` bits that ends in `k` zeros is `2 ^ w - 2 ^ k`. Masking a number gives the
  first number of its block of `2 ^ k` (`and_mask`), filling the low bits the last one
  (`block_or_low`). `and_succ_eq_zero` is the test for a number whose bits are all ones.
-/
import Mathlib.Data.Nat.Bitwise

namespace MythLab.Lib

variable {n k w : Nat}

theorem and_succ_eq_zero : n &&& (n + 1) = 0 ↔ ∃ k, n + 1 = 2 ^ k := by
  rw [Nat.and_comm]
  exact Nat.and_sub_one_eq_zero_iff_isPowerOfTwo (Nat.succ_ne_zero n)

/-- The first number of the block of `2 ^ k` numbers that `n` is in. -/
def block (k n : Nat) : Nat := 2 ^ k * (n / 2 ^ k)

theorem block_le : block k n ≤ n := Nat.mul_div_le n (2 ^ k)

theorem lt_block_add : n < block k n + 2 ^ k := Nat.lt_mul_div_succ n (Nat.two_pow_pos k)

theorem testBit_mask (hk : k ≤ w) (i : Nat) : (2 ^ w - 2 ^ k).testBit i = (decide (i < w) && decide (k ≤ i)) := by
  have hpos := Nat.two_pow_pos k
  have hle : 2 ^ k ≤ 2 ^ w := Nat.pow_le_pow_right (by omega) hk
  have hbits := Nat.testBit_two_pow_sub_succ (x := 2 ^ k - 1) (n := w) (by omega) i
  rw [Nat.sub_add_cancel hpos, Nat.testBit_two_pow_sub_one] at hbits
  rw [hbits]
  by_cases h : i < k
  · simp [h]
  · simp [h, Nat.not_lt.mp h]

theorem and_mask (hn : n < 2 ^ w) (hk : k ≤ w) : n &&& (2 ^ w - 2 ^ k) = block k n := by
  apply Nat.eq_of_testBit_eq
  intro i
  rw [Nat.testBit_and, testBit_mask hk, block, Nat.testBit_two_pow_mul]
  by_cases hi : k ≤ i
  · have hhigh : w ≤ i → n.testBit i = false :=
      fun h => Nat.testBit_eq_false_of_lt (Nat.lt_of_lt_of_le hn (Nat.pow_le_pow_right (by omega) h))
    rw [Nat.testBit_div_two_pow, Nat.sub_add_cancel hi]
    by_cases hw : i < w
    · simp [hi, hw]
    · simp [hhigh (Nat.not_lt.mp hw)]
  · simp [hi]

theorem block_or_low : block k n ||| (2 ^ k - 1) = block k n + (2 ^ k - 1) :=
  (Nat.two_pow_add_eq_or_of_lt (Nat.sub_lt (Nat.two_pow_pos k) Nat.one_pos) _).symm

/-- The ones of a mask. -/
theorem count_mask (hk : k ≤ w) : ((List.range w).filter (2 ^ w - 2 ^ k).testBit).length = w - k := by
  obtain ⟨m, rfl⟩ := Nat.exists_eq_add_of_le hk
  have hlow : (List.range k).filter (2 ^ (k + m) - 2 ^ k).testBit = [] := by
    rw [List.filter_eq_nil_iff]
    intro i hi
    have hi := List.mem_range.mp hi
    simp [testBit_mask hk, hi]
  have hhigh : ((List.range m).map (k + ·)).filter (2 ^ (k + m) - 2 ^ k).testBit = (List.range m).map (k + ·) := by
    rw [List.filter_eq_self]
    intro i hi
    obtain ⟨j, hj, rfl⟩ := List.mem_map.mp hi
    have hj := List.mem_range.mp hj
    simp [testBit_mask hk, hj]
  rw [List.range_add, List.filter_append, hlow, hhigh, List.nil_append, List.length_map, List.length_range,
    Nat.add_sub_cancel_left]

end MythLab.Lib
