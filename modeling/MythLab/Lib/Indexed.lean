/-
  MythLab.Lib.Indexed — lists whose entries are known by their place: entries are added at
  the end and changed in place. Where an entry of a changed list comes from, what of each
  entry stays (`Persists`), and what the change does to a sum over the entries (`weight`).
-/

namespace MythLab.Lib

variable {α : Type} {l : List α} {a b : α} {i j : Nat} {f : α → α}

theorem getElem?_snoc_cases (h : (l ++ [a])[j]? = some b) : l[j]? = some b ∨ j = l.length ∧ b = a := by
  rcases Nat.lt_trichotomy j l.length with hj | rfl | hj
  · rw [List.getElem?_append_left hj] at h
    exact Or.inl h
  · rw [List.getElem?_concat_length] at h
    exact Or.inr ⟨rfl, (Option.some.inj h).symm⟩
  · rw [List.getElem?_eq_none (by simp only [List.length_append, List.length_singleton]; omega)] at h
    cases h

theorem getElem?_modify_cases (h : (l.modify i f)[j]? = some b) :
    i ≠ j ∧ l[j]? = some b ∨ i = j ∧ ∃ a, l[j]? = some a ∧ b = f a := by
  rw [List.getElem?_modify] at h
  by_cases hij : i = j
  · simp only [hij, if_true] at h
    obtain ⟨a, ha, hb⟩ := Option.map_eq_some_iff.mp h
    exact Or.inr ⟨hij, a, ha, hb.symm⟩
  · simp only [hij, if_false] at h
    exact Or.inl ⟨hij, by simpa using h⟩

theorem getElem?_set_cases (h : (l.set i a)[j]? = some b) : i ≠ j ∧ l[j]? = some b ∨ i = j ∧ b = a := by
  rw [List.getElem?_set] at h
  by_cases hij : i = j
  · simp only [hij, if_true] at h
    split at h
    · exact Or.inr ⟨hij, (Option.some.inj h).symm⟩
    · cases h
  · rw [if_neg hij] at h
    exact Or.inl ⟨hij, h⟩

/-- A property of all entries, after one of them has changed. -/
theorem forall_modify {P : α → Prop} (hl : ∀ b ∈ l, P b) (hf : ∀ a ∈ l, l[i]? = some a → P (f a)) :
    ∀ b ∈ l.modify i f, P b := by
  intro b hb
  obtain ⟨j, hj⟩ := List.mem_iff_getElem?.mp hb
  rcases getElem?_modify_cases hj with ⟨-, hb⟩ | ⟨rfl, a, ha, rfl⟩
  · exact hl b (List.mem_of_getElem? hb)
  · exact hf a (List.mem_of_getElem? ha) ha

/-- Where the entry replaced has the property, all entries have it exactly if they did
    before and the new one does. -/
theorem forall_set_iff {P : α → Prop} (h : l[i]? = some a) (ha : P a) :
    (∀ c ∈ l.set i b, P c) ↔ (∀ c ∈ l, P c) ∧ P b := by
  obtain ⟨hi, hai⟩ := List.getElem?_eq_some_iff.mp h
  constructor
  · intro hall
    refine ⟨?_, hall b (List.mem_set hi b)⟩
    intro c hc
    obtain ⟨j, hj⟩ := List.mem_iff_getElem?.mp hc
    by_cases hij : i = j
    · subst hij
      rw [← Option.some.inj (h.symm.trans hj)]
      exact ha
    · exact hall c (List.mem_of_getElem? ((List.getElem?_set_ne hij).trans hj))
  · intro ⟨hl, hb⟩ c hc
    rcases List.mem_or_eq_of_mem_set hc with hc | rfl
    · exact hl c hc
    · exact hb

theorem forall_snoc {P : α → Prop} (hl : ∀ b ∈ l, P b) (ha : P a) : ∀ b ∈ l ++ [a], P b := by
  intro b hb
  rcases List.mem_append.mp hb with hb | hb
  · exact hl b hb
  · rw [List.mem_singleton.mp hb]
    exact ha

/-- Every entry is still in its place, and `r` of it is the same. -/
def Persists {β : Type} (r : α → β) (l m : List α) : Prop :=
  ∀ (i : Nat) (a : α), l[i]? = some a → ∃ b, m[i]? = some b ∧ r b = r a

namespace Persists

variable {β γ : Type} {r : α → β} {m n : List α}

theorem refl (l : List α) : Persists r l l := fun _ a h => ⟨a, h, rfl⟩

theorem trans (h : Persists r l m) (h' : Persists r m n) : Persists r l n := by
  intro i a ha
  obtain ⟨b, hb, hr⟩ := h i a ha
  obtain ⟨c, hc, hr'⟩ := h' i b hb
  exact ⟨c, hc, hr'.trans hr⟩

theorem append (l m : List α) : Persists r l (l ++ m) := by
  intro i a ha
  obtain ⟨hi, -⟩ := List.getElem?_eq_some_iff.mp ha
  exact ⟨a, by rw [List.getElem?_append_left hi, ha], rfl⟩

theorem set (h : l[i]? = some a) (hr : r b = r a) : Persists r l (l.set i b) := by
  intro j c hc
  rw [List.getElem?_set]
  by_cases hij : i = j
  · subst hij
    obtain ⟨hi, -⟩ := List.getElem?_eq_some_iff.mp hc
    rw [h, Option.some.injEq] at hc
    rw [if_pos rfl, if_pos hi]
    exact ⟨b, rfl, hc ▸ hr⟩
  · rw [if_neg hij]
    exact ⟨c, hc, rfl⟩

/-- Lists that agree on more agree on `r`. -/
theorem of_map {f : α → γ} (h : m.map f = l.map f) (hr : ∀ a b, f b = f a → r b = r a) : Persists r l m := by
  intro i a ha
  have hget := congrArg (fun l : List γ => l[i]?) h
  simp only [List.getElem?_map, ha, Option.map_some] at hget
  obtain ⟨b, hb, hf⟩ := Option.map_eq_some_iff.mp hget
  exact ⟨b, hb, hr a b hf⟩

end Persists

/-- The sum of `f` over the entries. -/
def weight (f : α → Nat) : List α → Nat
  | [] => 0
  | a :: l => f a + weight f l

theorem weight_snoc (f : α → Nat) (l : List α) (a : α) : weight f (l ++ [a]) = weight f l + f a := by
  induction l with
  | nil => simp [weight]
  | cons b l ih =>
    simp only [List.cons_append, weight]
    omega

theorem weight_set (f : α → Nat) (h : l[i]? = some a) (b : α) : weight f (l.set i b) + f a = weight f l + f b := by
  induction l generalizing i with
  | nil => cases h
  | cons c l ih =>
    cases i with
    | zero =>
      cases h
      simp only [List.set_cons_zero, weight]
      omega
    | succ i =>
      have hset := ih (i := i) h
      simp only [List.set_cons_succ, weight]
      omega

theorem weight_zero {f : α → Nat} (h : ∀ a ∈ l, f a = 0) : weight f l = 0 := by
  induction l with
  | nil => rfl
  | cons a l ih =>
    have htail := ih fun b hb => h b (List.mem_cons_of_mem _ hb)
    have hhead := h a List.mem_cons_self
    simp only [weight]
    omega

theorem weight_one {f : α → Nat} (h : ∀ a ∈ l, f a = 1) : weight f l = l.length := by
  induction l with
  | nil => rfl
  | cons a l ih =>
    have htail := ih fun b hb => h b (List.mem_cons_of_mem _ hb)
    have hhead := h a List.mem_cons_self
    simp only [weight, List.length_cons]
    omega

end MythLab.Lib
