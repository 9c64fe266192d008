/-
  MythLab.Lib.Dictionary — a dictionary as the list of its entries: what `lookup` finds
  after an entry is added under a new key, and after a key is removed.
-/

namespace MythLab.Lib

variable {κ ν : Type} [DecidableEq κ] [BEq κ] [LawfulBEq κ] {l : List (κ × ν)} {k j : κ} {v : ν}

theorem lookup_head (l : List (κ × ν)) (k j : κ) (v : ν) :
    ((k, v) :: l).lookup j = if j = k then some v else l.lookup j := by
  rw [List.lookup_cons]
  by_cases hj : j = k
  · simp [hj]
  · simp [hj, beq_eq_false_iff_ne.mpr hj]

theorem lookup_add (hk : l.lookup k = none) : (l ++ [(k, v)]).lookup j = if j = k then some v else l.lookup j := by
  rw [List.lookup_append, lookup_head]
  by_cases hj : j = k
  · simp [hj, hk]
  · simp [hj]

theorem lookup_remove (l : List (κ × ν)) (k j : κ) :
    (l.filter fun e => e.1 ≠ k).lookup j = if j = k then none else l.lookup j := by
  induction l with
  | nil => simp
  | cons e l ih =>
    obtain ⟨i, v⟩ := e
    by_cases hi : i = k
    · rw [List.filter_cons_of_neg (by simp [hi]), ih, lookup_head, hi]
      by_cases hj : j = k
      · simp [hj]
      · simp [hj]
    · rw [List.filter_cons_of_pos (by simp [hi]), lookup_head, lookup_head, ih]
      by_cases hj : j = k
      · simp [hj, Ne.symm hi]
      · simp [hj]

end MythLab.Lib
