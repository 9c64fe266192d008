/-
  MythLab.Lib.StopAndWait — histories in which messages are sent and answered.

  A history is a list, oldest first; `sends` and `answers` say which of its entries send a
  message with a key, and which answer one. `Unanswered` are the keys that wait for an
  answer. In a history that `Alternates`, a message is answered before the next is sent, so
  at most one waits (`Alternates.eq_of_unanswered`); appending keeps it so when nothing
  waits at the time of a message (`Alternates.snoc`).
-/

namespace MythLab.Lib

variable {α κ : Type}

/-- Where an entry of a longer history stands. -/
theorem snoc_eq_split {h A B : List α} {x y : α} (e : h ++ [x] = A ++ y :: B) :
    (A = h ∧ y = x ∧ B = []) ∨ ∃ B', B = B' ++ [x] ∧ h = A ++ y :: B' := by
  rcases List.eq_nil_or_concat B with rfl | ⟨B', z, rfl⟩
  · obtain ⟨hA, hx⟩ := List.append_inj' e rfl
    exact Or.inl ⟨hA.symm, (List.singleton_inj.mp hx).symm, rfl⟩
  · rw [List.concat_eq_append, ← List.cons_append, ← List.append_assoc] at e
    obtain ⟨hA, hx⟩ := List.append_inj' e rfl
    rw [List.singleton_inj.mp hx]
    exact Or.inr ⟨B', by rw [List.concat_eq_append], hA⟩

variable (sends answers : α → Option κ)

/-- A message with the key is sent, and not answered after. -/
def Unanswered (h : List α) (k : κ) : Prop :=
  ∃ A x B, h = A ++ x :: B ∧ sends x = some k ∧ ∀ y ∈ B, answers y ≠ some k

/-- Of two messages, the first is answered before the second. -/
def Alternates (h : List α) : Prop :=
  ∀ A x B y C, h = A ++ x :: (B ++ y :: C) → ∀ k, sends x = some k → sends y ≠ none → ∃ z ∈ B, answers z = some k

variable {sends answers} {h : List α} {x : α} {k l : κ}

theorem unanswered_snoc : Unanswered sends answers (h ++ [x]) k ↔
    sends x = some k ∨ Unanswered sends answers h k ∧ answers x ≠ some k := by
  constructor
  · rintro ⟨A, y, B, e, hy, hB⟩
    rcases snoc_eq_split e with ⟨rfl, rfl, rfl⟩ | ⟨B', rfl, rfl⟩
    · exact Or.inl hy
    · refine Or.inr ⟨⟨A, y, B', rfl, hy, fun z hz => hB z (List.mem_append_left _ hz)⟩, ?_⟩
      exact hB x (List.mem_append_right _ List.mem_cons_self)
  · rintro (hx | ⟨⟨A, y, B, rfl, hy, hB⟩, hx⟩)
    · exact ⟨h, x, [], rfl, hx, fun y hy => absurd hy List.not_mem_nil⟩
    · refine ⟨A, y, B ++ [x], by simp, hy, fun z hz => ?_⟩
      rcases List.mem_append.mp hz with hz | hz
      · exact hB z hz
      · rwa [List.mem_singleton.mp hz]

/-- A key that was not sent does not wait. -/
theorem sends_of_unanswered (hu : Unanswered sends answers h k) : ∃ x ∈ h, sends x = some k := by
  obtain ⟨A, x, B, rfl, hx, -⟩ := hu
  exact ⟨x, List.mem_append_right _ List.mem_cons_self, hx⟩

namespace Alternates

theorem nil : Alternates sends answers ([] : List α) := by
  intro A x B y C e
  exact nomatch A.nil_eq_append_iff.mp e |>.2

theorem snoc (ha : Alternates sends answers h) (hx : sends x ≠ none → ∀ k, ¬ Unanswered sends answers h k) :
    Alternates sends answers (h ++ [x]) := by
  intro A y B z C e k hy hz
  rw [← List.cons_append, ← List.append_assoc] at e
  rcases snoc_eq_split e with ⟨rfl, rfl, rfl⟩ | ⟨C', rfl, hh⟩
  · -- The new entry is the second message.
    refine Classical.byContradiction fun hnone => ?_
    exact hx hz k ⟨A, y, B, rfl, hy, fun w hw hk => hnone ⟨w, hw, hk⟩⟩
  · rw [List.append_assoc, List.cons_append] at hh
    exact ha A y B z C' hh k hy hz

/-- At most one message waits. -/
theorem eq_of_unanswered (ha : Alternates sends answers h) (hk : Unanswered sends answers h k)
    (hl : Unanswered sends answers h l) : k = l := by
  obtain ⟨A, x, B, rfl, hx, hB⟩ := hk
  obtain ⟨A', y, B', e, hy, hB'⟩ := hl
  rcases List.append_eq_append_iff.mp e with ⟨C, rfl, hC⟩ | ⟨C, rfl, hC⟩
  · cases C with
    | nil =>
      cases hC
      exact Option.some.inj (hx.symm.trans hy)
    | cons c C =>
      obtain ⟨rfl, rfl⟩ := List.cons.inj hC
      obtain ⟨z, hz, hzk⟩ := ha A x C y B' rfl k hx (by rw [hy]; nofun)
      exact absurd hzk (hB z (List.mem_append_left _ hz))
  · cases C with
    | nil =>
      cases hC
      exact Option.some.inj (hx.symm.trans hy)
    | cons c C =>
      obtain ⟨rfl, rfl⟩ := List.cons.inj hC
      have hh : A' ++ (y :: C) ++ x :: B = A' ++ y :: (C ++ x :: B) := by simp
      obtain ⟨z, hz, hzl⟩ := ha A' y C x B hh l hy (by rw [hx]; nofun)
      exact absurd hzl (hB' z (List.mem_append_left _ hz))

end Alternates

end MythLab.Lib
