/-
  MythLab.Lib.Placing — a list is put in a given order by moving each element, in that
  order, to its place.

  What carries the loop is the prefix that is in place already: the next element is not in
  it, so taking it out and inserting it behind the prefix leaves the prefix alone
  (`place_next`). After the last element the list is the target (`foldl_place`).
-/
import Mathlib.Data.List.Perm.Basic

namespace MythLab.Lib

variable {α : Type} [DecidableEq α]

/-- Move an element to a place. -/
def place (list : List α) (a : α) (i : Nat) : List α := (list.erase a).insertIdx i a

theorem place_next {placed rest : List α} {a : α} (ha : a ∉ placed) :
    place (placed ++ rest) a placed.length = placed ++ a :: rest.erase a := by
  unfold place
  rw [List.erase_append_right rest ha]
  generalize rest.erase a = others
  induction placed with
  | nil => rfl
  | cons b placed ih =>
    rw [List.cons_append, List.length_cons, List.insertIdx_succ_cons, ih fun hin => ha (List.mem_cons_of_mem b hin)]
    rfl

theorem foldl_place (target : List α) {placed rest : List α} (hperm : rest.Perm target)
    (hnodup : (placed ++ target).Nodup) :
    (target.zipIdx placed.length).foldl (fun list p => place list p.1 p.2) (placed ++ rest) = placed ++ target := by
  induction target generalizing placed rest with
  | nil =>
    rw [List.perm_nil.mp hperm]
    rfl
  | cons a target ih =>
    have ha : a ∉ placed := fun hin => (List.nodup_append.mp hnodup).2.2 a hin a List.mem_cons_self rfl
    have hrest : (rest.erase a).Perm target := by
      have htaken := List.perm_cons_erase (hperm.mem_iff.mpr List.mem_cons_self)
      exact (htaken.symm.trans hperm).cons_inv
    have hnodup' : ((placed ++ [a]) ++ target).Nodup := by rwa [List.append_assoc]
    have hstep := ih hrest hnodup'
    rw [List.length_append, List.length_singleton, List.append_assoc, List.append_assoc] at hstep
    rw [List.zipIdx_cons, List.foldl_cons, place_next ha]
    exact hstep

/-- A list is put in the order of any permutation of it. -/
theorem foldl_place_perm {target list : List α} (hperm : list.Perm target) (hnodup : target.Nodup) :
    target.zipIdx.foldl (fun list p => place list p.1 p.2) list = target := by
  have hnone : ([] ++ target).Nodup := hnodup
  exact foldl_place target hperm hnone

end MythLab.Lib
