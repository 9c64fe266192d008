/-
  MythLab.Lib.FairShares — an amount given out in shares, each an equal part of what is left.

  The next of `left` parties may use `share remaining left`. What it leaves unused goes back to
  the others, so shares never shrink. `Fair` is what holds of the books whatever the parties
  use: no party has been given less than an equal part of the whole, and together they have
  used what is gone from it (`Fair.opening`, `Fair.give`).
-/
import Mathlib.Algebra.Order.Field.Basic
import Mathlib.Algebra.BigOperators.Group.List.Basic
import Mathlib.Tactic.Linarith
import Mathlib.Tactic.Ring

namespace MythLab.Lib.FairShares

variable {K : Type} [Field K] [LinearOrder K]

/-- What the next of `left` parties may use. -/
def share (remaining : K) (left : ℕ) : K := remaining / left

/-- The books of a `total` that `parties` share: `given` keeps each share and what was used of it. -/
structure Fair (total : K) (parties : ℕ) (remaining : K) (left : ℕ) (given : List (K × K)) : Prop where
  /-- Those left have at least an equal part each. -/
  level : total * left ≤ remaining * parties
  least : ∀ g ∈ given, total / parties ≤ g.1
  rising : (given.map Prod.fst).Pairwise (· ≤ ·)
  /-- No share was larger than the next one. -/
  upto : ∀ g ∈ given, g.1 * left ≤ remaining
  spent : (given.map Prod.snd).sum + remaining = total

section

variable {total remaining used : K} {parties left : ℕ} {given : List (K × K)}

theorem Fair.opening : Fair total parties total parties [] where
  level := le_refl _
  least := by simp
  rising := List.Pairwise.nil
  upto := by simp
  spent := by simp

variable [IsStrictOrderedRing K]

theorem share_mul (hl : 0 < left) : share remaining left * left = remaining :=
  div_mul_cancel₀ remaining (Nat.cast_ne_zero.mpr hl.ne')

variable (hp : 0 < parties)
include hp

theorem Fair.remaining_nonneg (h : Fair total parties remaining left given) (ht : 0 ≤ total) : 0 ≤ remaining := by
  have hparties : (0 : K) < parties := by exact_mod_cast hp
  have hlevel : 0 ≤ remaining * parties := le_trans (mul_nonneg ht (Nat.cast_nonneg left)) h.level
  exact nonneg_of_mul_nonneg_left hlevel hparties

/-- What has been used is no more than the whole. -/
theorem Fair.used_le (h : Fair total parties remaining left given) (ht : 0 ≤ total) :
    (given.map Prod.snd).sum ≤ total := by
  have hrest := h.remaining_nonneg hp ht
  have hspent := h.spent
  linarith

/-- The next share is at least an equal part of the whole. -/
theorem Fair.le_share (h : Fair total parties remaining left given) (hl : 0 < left) :
    total / parties ≤ share remaining left :=
  (div_le_div_iff₀ (by exact_mod_cast hp) (by exact_mod_cast hl)).mpr h.level

/-- A party that keeps to its share leaves the books fair. -/
theorem Fair.give (h : Fair total parties remaining (left + 1) given) (hu : used ≤ share remaining (left + 1)) :
    Fair total parties (remaining - used) left (given ++ [(share remaining (left + 1), used)]) := by
  have hl : (0 : K) ≤ left := Nat.cast_nonneg left
  have hshare : share remaining (left + 1) * ((left + 1 : ℕ) : K) = remaining := share_mul (Nat.succ_pos left)
  rw [Nat.cast_succ] at hshare
  -- What is left is enough for as large a share again.
  have hnext : share remaining (left + 1) * left ≤ remaining - used := by linarith
  have hbefore (g : K × K) (hg : g ∈ given) : g.1 ≤ share remaining (left + 1) := by
    refine (le_div_iff₀ (by exact_mod_cast Nat.succ_pos left)).mpr (h.upto g hg)
  refine ⟨?_, ?_, ?_, ?_, ?_⟩
  · have hleast := h.le_share hp (Nat.succ_pos left)
    rw [div_le_iff₀ (by exact_mod_cast hp)] at hleast
    calc total * left ≤ share remaining (left + 1) * parties * left := mul_le_mul_of_nonneg_right hleast hl
      _ = share remaining (left + 1) * left * parties := by ring
      _ ≤ (remaining - used) * parties := mul_le_mul_of_nonneg_right hnext (Nat.cast_nonneg parties)
  · intro g hg
    rcases List.mem_append.mp hg with hg | hg
    · exact h.least g hg
    · rw [List.mem_singleton.mp hg]
      exact h.le_share hp (Nat.succ_pos left)
  · rw [List.map_append, List.pairwise_append]
    refine ⟨h.rising, List.pairwise_singleton _ _, ?_⟩
    intro a ha b hb
    obtain ⟨g, hg, rfl⟩ := List.mem_map.mp ha
    rw [List.mem_singleton.mp hb]
    exact hbefore g hg
  · intro g hg
    rcases List.mem_append.mp hg with hg | hg
    · exact le_trans (mul_le_mul_of_nonneg_right (hbefore g hg) hl) hnext
    · rw [List.mem_singleton.mp hg]
      exact hnext
  · have hspent := h.spent
    simp only [List.map_append, List.sum_append, List.map_singleton, List.sum_singleton]
    linarith

end

end MythLab.Lib.FairShares
