/-
  MythLab.Lib.Increasing — a strictly increasing list and the place of a new key in it.

  `placeOf` skips the keys that are lower; inserted there, a new key leaves the list
  strictly increasing (`increasing_insert`).
-/
import Mathlib.Data.List.InsertIdx
import Mathlib.Order.Defs.LinearOrder

namespace MythLab.Lib

variable {κ : Type} [LT κ] [DecidableLT κ]

/-- The place of the first key that is not lower. -/
def placeOf (k : κ) : List κ → Nat
  | [] => 0
  | j :: keys => if j < k then placeOf k keys + 1 else 0

theorem placeOf_le (k : κ) (keys : List κ) : placeOf k keys ≤ keys.length := by
  induction keys with
  | nil => exact Nat.le_refl 0
  | cons j keys ih =>
    unfold placeOf
    split
    · exact Nat.succ_le_succ ih
    · exact Nat.zero_le _

variable [LE κ] [Std.IsLinearOrder κ] [Std.LawfulOrderLT κ]

theorem increasing_insert {k : κ} {keys : List κ} (h : keys.Pairwise (· < ·)) (hk : k ∉ keys) :
    (keys.insertIdx (placeOf k keys) k).Pairwise (· < ·) := by
  induction keys with
  | nil => exact List.pairwise_singleton _ k
  | cons j keys ih =>
    obtain ⟨hj, hkeys⟩ := List.pairwise_cons.mp h
    have hne : j ≠ k := fun he => hk (he ▸ List.mem_cons_self)
    unfold placeOf
    split
    · -- the key goes somewhere behind `j`
      rename_i hlt
      rw [List.insertIdx_succ_cons, List.pairwise_cons]
      refine ⟨?_, ih hkeys fun hin => hk (List.mem_cons_of_mem j hin)⟩
      intro i hi
      rcases (List.mem_insertIdx (placeOf_le k keys)).mp hi with rfl | hi
      · exact hlt
      · exact hj i hi
    · rename_i hnot
      have hlt : k < j := Std.lt_of_le_of_ne (Std.not_lt.mp hnot) hne.symm
      rw [List.insertIdx_zero, List.pairwise_cons]
      refine ⟨?_, h⟩
      intro i hi
      rcases List.mem_cons.mp hi with rfl | hi
      · exact hlt
      · exact Std.lt_trans hlt (hj i hi)

end MythLab.Lib
