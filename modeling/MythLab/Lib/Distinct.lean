/-
  MythLab.Lib.Distinct — a list without its repetitions, by a relation of one's own.

  `eraseDupsBy r` keeps of related elements the first. Over any relation: what it keeps
  stands in the old order (`eraseDupsBy_sublist`), no later element is related to an
  earlier one (`pairwise_eraseDupsBy`), and such a list is left as it is
  (`eraseDupsBy_eq_self`). Over a transitive one it keeps exactly the first occurrences
  (`mem_eraseDupsBy_iff`).
-/
import Mathlib.Data.List.Basic

namespace MythLab.Lib

variable {α : Type} {r : α → α → Bool}

theorem eraseDupsBy_sublist : ∀ (l : List α), (l.eraseDupsBy r).Sublist l
  | [] => by simp
  | a :: l => by
    rw [List.eraseDupsBy_cons]
    exact ((eraseDupsBy_sublist _).trans List.filter_sublist).cons_cons a
  termination_by l => l.length
  decreasing_by exact Nat.lt_succ_of_le (List.length_filter_le _ _)

theorem pairwise_eraseDupsBy : ∀ (l : List α), (l.eraseDupsBy r).Pairwise fun a b => r b a = false
  | [] => by simp
  | a :: l => by
    rw [List.eraseDupsBy_cons, List.pairwise_cons]
    refine ⟨?_, pairwise_eraseDupsBy _⟩
    intro b hb
    simpa using (List.mem_filter.mp ((eraseDupsBy_sublist _).subset hb)).2
  termination_by l => l.length
  decreasing_by exact Nat.lt_succ_of_le (List.length_filter_le _ _)

/-- A list without repetitions is left as it is. -/
theorem eraseDupsBy_eq_self {l : List α} (h : l.Pairwise fun a b => r b a = false) : l.eraseDupsBy r = l := by
  induction l with
  | nil => rfl
  | cons a l ih =>
    obtain ⟨ha, hl⟩ := List.pairwise_cons.mp h
    have hfilter : (l.filter fun b => r b a = false) = l :=
      List.filter_eq_self.mpr fun b hb => decide_eq_true (ha b hb)
    rw [List.eraseDupsBy_cons, hfilter, ih hl]

/-- `a` stands in the list, and nothing before it is related to it. -/
def IsFirst (r : α → α → Bool) (l : List α) (a : α) : Prop :=
  ∃ before after, l = before ++ a :: after ∧ ∀ b ∈ before, r a b = false

theorem isFirst_cons {a b : α} {l : List α} : IsFirst r (b :: l) a ↔ a = b ∨ (r a b = false ∧ IsFirst r l a) := by
  constructor
  · rintro ⟨before, after, heq, hbefore⟩
    cases before with
    | nil =>
      cases heq
      exact Or.inl rfl
    | cons c before =>
      cases heq
      rw [List.forall_mem_cons] at hbefore
      exact Or.inr ⟨hbefore.1, before, after, rfl, hbefore.2⟩
  · rintro (rfl | ⟨hab, before, after, rfl, hbefore⟩)
    · exact ⟨[], l, rfl, by simp⟩
    · exact ⟨b :: before, after, rfl, List.forall_mem_cons.mpr ⟨hab, hbefore⟩⟩

/-- Taking away what is related to an element that `a` is not related to leaves `a` first, or not. -/
theorem isFirst_filter (htrans : ∀ a b c, r a b = true → r b c = true → r a c = true) {a b : α} (hab : r a b = false)
    (l : List α) : IsFirst r (l.filter fun c => r c b = false) a ↔ IsFirst r l a := by
  induction l with
  | nil => rfl
  | cons c l ih =>
    by_cases hcb : r c b = true
    · have hac : r a c = false := (Bool.not_eq_true _).mp fun hac => by
        rw [htrans a c b hac hcb] at hab
        cases hab
      have hne : a ≠ c := by
        rintro rfl
        rw [hcb] at hab
        cases hab
      rw [List.filter_cons_of_neg (by simp [hcb]), ih, isFirst_cons]
      exact ⟨fun h => Or.inr ⟨hac, h⟩, fun h => (h.resolve_left hne).2⟩
    · rw [List.filter_cons_of_pos (by simpa using hcb), isFirst_cons, isFirst_cons, ih]

/-- Of related elements the first is kept. -/
theorem mem_eraseDupsBy_iff (htrans : ∀ a b c, r a b = true → r b c = true → r a c = true) {a : α} :
    ∀ (l : List α), a ∈ l.eraseDupsBy r ↔ IsFirst r l a
  | [] => by simp [IsFirst]
  | b :: l => by
    have ih := mem_eraseDupsBy_iff htrans (a := a) (l.filter fun c => r c b = false)
    rw [List.eraseDupsBy_cons, List.mem_cons, isFirst_cons, ih]
    refine or_congr_right ?_
    constructor
    · intro h
      obtain ⟨before, after, heq, -⟩ := id h
      have hmem : a ∈ l.filter fun c => r c b = false := by
        rw [heq]
        exact List.mem_append_right _ List.mem_cons_self
      have hab : r a b = false := by simpa using (List.mem_filter.mp hmem).2
      exact ⟨hab, (isFirst_filter htrans hab l).mp h⟩
    · rintro ⟨hab, h⟩
      exact (isFirst_filter htrans hab l).mpr h
  termination_by l => l.length
  decreasing_by exact Nat.lt_succ_of_le (List.length_filter_le _ _)

end MythLab.Lib
