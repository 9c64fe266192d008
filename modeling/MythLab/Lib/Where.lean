/-
  MythLab.Lib.Where — filters whose test may throw.

  `whereM p xs` tests the elements in order and stops at the first that throws. Where it
  returns, it is the filter by the tests that held (`whereM_ok`). Where no two elements
  throw differently, its outcome does not depend on the order of the list
  (`whereM_perm`): `SameUpToOrder P` relates the outcomes of two such computations, and
  `SameUpToOrder.bind_eq` and `bind` carry it through what follows.
-/
import Mathlib.Data.List.Perm.Basic
import MythLab.Lib.Effect

namespace MythLab.Lib

variable {ε α β : Type}

def whereM (p : α → Except ε Bool) : List α → Except ε (List α)
  | [] => pure []
  | x :: xs => do
    let keep ← p x
    let rest ← whereM p xs
    pure (if keep then x :: rest else rest)

/-- The test returned, and held. -/
def held : Except ε Bool → Bool
  | .ok b => b
  | .error _ => false

theorem held_bind {x : Except ε β} {f : β → Except ε Bool} :
    held (x >>= f) = true ↔ ∃ b, x = .ok b ∧ held (f b) = true := by
  cases x with
  | error e => exact ⟨fun h => (by cases h), fun ⟨_, h, _⟩ => (by cases h)⟩
  | ok b => exact ⟨fun h => ⟨b, rfl, h⟩, fun ⟨_, h, hf⟩ => by cases h; exact hf⟩

variable {p : α → Except ε Bool} {xs ys : List α}

theorem whereM_ok (h : whereM p xs = .ok ys) : ys = xs.filter (fun x => held (p x)) := by
  induction xs generalizing ys with
  | nil =>
    cases h
    rfl
  | cons x xs ih =>
    obtain ⟨keep, hkeep, h⟩ := bind_ok_iff.mp h
    obtain ⟨rest, hrest, h⟩ := bind_ok_iff.mp h
    cases h
    rw [List.filter_cons, ← ih hrest, hkeep]
    rfl

theorem whereM_returns (h : ∀ x ∈ xs, ∃ b, p x = .ok b) : whereM p xs = .ok (xs.filter fun x => held (p x)) := by
  induction xs with
  | nil => rfl
  | cons x xs ih =>
    rw [List.forall_mem_cons] at h
    obtain ⟨b, hb⟩ := h.1
    unfold whereM
    rw [hb, ih h.2, List.filter_cons, hb]
    cases b <;> rfl

theorem whereM_throws {e : ε} (h : ∀ x ∈ xs, ∀ e', p x = .error e' → e' = e) (hx : ∃ x ∈ xs, ∃ e', p x = .error e') :
    whereM p xs = .error e := by
  induction xs with
  | nil => simp at hx
  | cons x xs ih =>
    rw [List.forall_mem_cons] at h
    unfold whereM
    cases hpx : p x with
    | error e' =>
      rw [h.1 e' hpx]
      rfl
    | ok b =>
      obtain ⟨y, hy, e', he'⟩ := hx
      rcases List.mem_cons.mp hy with rfl | hy
      · cases hpx.symm.trans he'
      · rw [ih h.2 ⟨y, hy, e', he'⟩]
        rfl

/-- Both return lists of the same elements, which all have `P`, or both throw the same. -/
def SameUpToOrder (P : α → Prop) (r r' : Except ε (List α)) : Prop :=
  (∃ xs ys, r = .ok xs ∧ r' = .ok ys ∧ xs.Perm ys ∧ ∀ x ∈ xs, P x) ∨ ∃ e, r = .error e ∧ r' = .error e

theorem whereM_perm {P : α → Prop} {e : ε} (hperm : xs.Perm ys) (hP : ∀ x ∈ xs, P x)
    (h : ∀ x ∈ xs, ∀ e', p x = .error e' → e' = e) : SameUpToOrder P (whereM p xs) (whereM p ys) := by
  have hys : ∀ y ∈ ys, ∀ e', p y = .error e' → e' = e := fun y hy => h y (hperm.mem_iff.mpr hy)
  by_cases hx : ∃ x ∈ xs, ∃ e', p x = .error e'
  · obtain ⟨x, hm, hthrow⟩ := hx
    exact Or.inr ⟨e, whereM_throws h ⟨x, hm, hthrow⟩, whereM_throws hys ⟨x, hperm.mem_iff.mp hm, hthrow⟩⟩
  · have hreturn : ∀ x ∈ xs, ∃ b, p x = .ok b := by
      intro x hm
      cases hpx : p x with
      | error e' => exact absurd ⟨x, hm, e', hpx⟩ hx
      | ok b => exact ⟨b, rfl⟩
    refine Or.inl ⟨_, _, whereM_returns hreturn, ?_, hperm.filter _, ?_⟩
    · exact whereM_returns fun y hy => hreturn y (hperm.mem_iff.mpr hy)
    · exact fun x hm => hP x (List.mem_of_mem_filter hm)

namespace SameUpToOrder

variable {P : α → Prop} {r r' : Except ε (List α)}

theorem pure (hperm : xs.Perm ys) (hP : ∀ x ∈ xs, P x) : SameUpToOrder P (.ok xs : Except ε (List α)) (.ok ys) :=
  Or.inl ⟨xs, ys, rfl, rfl, hperm, hP⟩

theorem error (e : ε) : SameUpToOrder P (.error e) (.error e) := Or.inr ⟨e, rfl, rfl⟩

theorem bind_eq {f : List α → Except ε β} (h : SameUpToOrder P r r')
    (hf : ∀ xs ys, xs.Perm ys → (∀ x ∈ xs, P x) → f xs = f ys) : (r >>= f) = (r' >>= f) := by
  rcases h with ⟨xs, ys, rfl, rfl, hperm, hP⟩ | ⟨e, rfl, rfl⟩
  · exact hf xs ys hperm hP
  · rfl

theorem bind {Q : β → Prop} {f g : List α → Except ε (List β)} (h : SameUpToOrder P r r')
    (hf : ∀ xs ys, xs.Perm ys → (∀ x ∈ xs, P x) → SameUpToOrder Q (f xs) (g ys)) :
    SameUpToOrder Q (r >>= f) (r' >>= g) := by
  rcases h with ⟨xs, ys, rfl, rfl, hperm, hP⟩ | ⟨e, rfl, rfl⟩
  · exact hf xs ys hperm hP
  · exact error e

end SameUpToOrder

end MythLab.Lib
