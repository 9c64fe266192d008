/-
  MythLab.Lib.Refill — a shared list that several actors clear and fill again.

  Each actor clears the list once and then adds the entries of `full` to it, in parts; the
  parts of several actors interleave. What an actor does to the list is a `Local` step.

  `Filled full rows actors crowd`: the list has been cleared, the last time while the
  actors had `crowd` entries still to add. Once nobody has anything to add, the list is
  `full` exactly if `crowd` is zero (`Filled.exact`): otherwise it is too long. `Shows` is
  the invariant of a run, which a step keeps (`Shows.step`).
-/
import MythLab.Lib.Indexed

namespace MythLab.Lib.Refill

variable {α : Type} {full rows : List α}

structure Actor (α : Type) where
  cleared : Bool
  pending : List α

/-- The actor that has not begun. -/
def Actor.waiting : Actor α := ⟨false, []⟩

/-- One actor's step: it leaves the list alone, clears it and adds a first part, or adds a
    part. -/
inductive Local (full : List α) : List α → Actor α → List α → Actor α → Prop
  | stay (rows : List α) (a : Actor α) : Local full rows a rows a
  | clear (rows part rest : List α) : part ++ rest = full → Local full rows .waiting part ⟨true, rest⟩
  | add (rows part rest : List α) : Local full rows ⟨true, part ++ rest⟩ (rows ++ part) ⟨true, rest⟩

/-- How many entries the actors still add. -/
def total : List (Actor α) → Nat
  | [] => 0
  | a :: actors => a.pending.length + total actors

@[simp] theorem total_nil : total ([] : List (Actor α)) = 0 := rfl

@[simp] theorem total_cons (a : Actor α) (actors : List (Actor α)) :
    total (a :: actors) = a.pending.length + total actors := rfl

theorem total_snoc (actors : List (Actor α)) (a : Actor α) :
    total (actors ++ [a]) = total actors + a.pending.length := by
  induction actors with
  | nil => simp
  | cons b actors ih =>
    simp only [List.cons_append, total_cons]
    omega

theorem total_set {actors : List (Actor α)} {i : Nat} {a : Actor α} (hi : actors[i]? = some a) (b : Actor α) :
    total (actors.set i b) + a.pending.length = total actors + b.pending.length := by
  induction actors generalizing i with
  | nil => cases hi
  | cons c actors ih =>
    cases i with
    | zero =>
      cases hi
      simp only [List.set_cons_zero, total_cons]
      omega
    | succ i =>
      have hset := ih (i := i) hi
      simp only [List.set_cons_succ, total_cons]
      omega

theorem total_zero {actors : List (Actor α)} : total actors = 0 ↔ ∀ a ∈ actors, a.pending = [] := by
  induction actors with
  | nil => simp
  | cons a actors ih =>
    rw [total_cons, List.forall_mem_cons, ← ih, ← List.length_eq_zero_iff]
    omega

/-- The list after a clearing, during which `crowd` entries were still to be added. -/
structure Filled (full rows : List α) (actors : List (Actor α)) (crowd : Nat) : Prop where
  length : rows.length + total actors = full.length + crowd
  /-- Then only one actor is filling it. -/
  alone : crowd = 0 → ∃ (i : Nat) (a : Actor α), actors[i]? = some a ∧ rows ++ a.pending = full ∧
    ∀ (j : Nat) (b : Actor α), actors[j]? = some b → j ≠ i → b.pending = []

theorem Filled.join {actors : List (Actor α)} {crowd : Nat} (h : Filled full rows actors crowd) :
    Filled full rows (actors ++ [.waiting]) crowd := by
  refine ⟨?_, ?_⟩
  · rw [total_snoc]
    exact h.length
  · intro hc
    obtain ⟨i, a, hi, hfull, hrest⟩ := h.alone hc
    refine ⟨i, a, ?_, hfull, ?_⟩
    · rw [List.getElem?_append_left (List.getElem?_eq_some_iff.mp hi).1]
      exact hi
    · intro j b hj hne
      rcases getElem?_snoc_cases hj with hj | ⟨-, rfl⟩
      · exact hrest j b hj hne
      · rfl

/-- Adding a part. -/
theorem Filled.add {actors : List (Actor α)} {crowd i : Nat} {part rest : List α} (h : Filled full rows actors crowd)
    (hi : actors[i]? = some ⟨true, part ++ rest⟩) : Filled full (rows ++ part) (actors.set i ⟨true, rest⟩) crowd := by
  have hset := total_set hi ⟨true, rest⟩
  have hlt := (List.getElem?_eq_some_iff.mp hi).1
  refine ⟨?_, ?_⟩
  · have hlength := h.length
    simp only [List.length_append] at hset ⊢
    omega
  · intro hc
    obtain ⟨k, a, hk, hfull, hrest⟩ := h.alone hc
    by_cases hik : k = i
    · subst hik
      obtain rfl : a = ⟨true, part ++ rest⟩ := Option.some.inj (hk.symm.trans hi)
      refine ⟨k, ⟨true, rest⟩, by simp [hlt], by simpa using hfull, ?_⟩
      intro j b hj hne
      rw [List.getElem?_set_ne (Ne.symm hne)] at hj
      exact hrest j b hj hne
    · -- another actor is filling the list: this one had nothing to add
      have hnone : part ++ rest = [] := hrest i _ hi (Ne.symm hik)
      obtain ⟨rfl, rfl⟩ := List.append_eq_nil_iff.mp hnone
      refine ⟨k, a, ?_, by simpa using hfull, ?_⟩
      · rw [List.getElem?_set_ne (Ne.symm hik)]
        exact hk
      · intro j b hj hne
        by_cases hij : i = j
        · subst hij
          rw [List.getElem?_set_self hlt] at hj
          cases hj
          rfl
        · rw [List.getElem?_set_ne hij] at hj
          exact hrest j b hj hne

/-- Clearing, and adding a first part. -/
theorem Filled.clear {actors : List (Actor α)} {i : Nat} {part rest : List α} (hi : actors[i]? = some .waiting)
    (hfull : part ++ rest = full) : Filled full part (actors.set i ⟨true, rest⟩) (total actors) := by
  have hset := total_set hi ⟨true, rest⟩
  have hlt := (List.getElem?_eq_some_iff.mp hi).1
  refine ⟨?_, ?_⟩
  · have hlength : part.length + rest.length = full.length := by rw [← hfull, List.length_append]
    simp only [Actor.waiting, List.length_nil] at hset
    omega
  · intro hc
    refine ⟨i, ⟨true, rest⟩, by simp [hlt], hfull, ?_⟩
    intro j b hj hne
    rw [List.getElem?_set_ne (Ne.symm hne)] at hj
    exact total_zero.mp hc b (List.mem_of_getElem? hj)

/-- The result: when nobody has anything to add. -/
theorem Filled.exact {actors : List (Actor α)} {crowd : Nat} (h : Filled full rows actors crowd)
    (hdone : ∀ a ∈ actors, a.pending = []) : rows = full ↔ crowd = 0 := by
  have htotal := total_zero.mpr hdone
  have hlength := h.length
  refine ⟨?_, ?_⟩
  · intro hrows
    rw [hrows] at hlength
    omega
  · intro hc
    obtain ⟨i, a, hi, hfull, -⟩ := h.alone hc
    rw [hdone a (List.mem_of_getElem? hi), List.append_nil] at hfull
    exact hfull

/-- The invariant of a run: nobody has begun, or the list was cleared last under `crowd`. -/
def Shows (full rows : List α) (actors : List (Actor α)) : Option Nat → Prop
  | none => ∀ a ∈ actors, a = .waiting
  | some crowd => Filled full rows actors crowd

theorem Shows.join {actors : List (Actor α)} {crowd : Option Nat} (h : Shows full rows actors crowd) :
    Shows full rows (actors ++ [.waiting]) crowd := by
  cases crowd with
  | none => exact forall_snoc h rfl
  | some crowd => exact Filled.join h

/-- The step of one actor; the crowd is counted anew when it clears the list. -/
theorem Shows.step {actors : List (Actor α)} {crowd : Option Nat} {i : Nat} {a b : Actor α} {rows' : List α}
    (h : Shows full rows actors crowd) (hi : actors[i]? = some a) (hstep : Local full rows a rows' b) :
    Shows full rows' (actors.set i b) (if !a.cleared && b.cleared then some (total actors) else crowd) := by
  cases hstep with
  | stay =>
    have hset : actors.set i a = actors := by
      obtain ⟨hlt, rfl⟩ := List.getElem?_eq_some_iff.mp hi
      exact List.set_getElem_self hlt
    simpa [hset] using h
  | clear part rest hfull => exact Filled.clear hi hfull
  | add part rest =>
    cases crowd with
    | none => exact (nomatch h _ (List.mem_of_getElem? hi))
    | some crowd => exact Filled.add h hi

end MythLab.Lib.Refill
