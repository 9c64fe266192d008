/-
  MythLab.Lib.Table — a table with a primary key, as the list of its rows in insertion
  order. The key's uniqueness is a field, so every table is well formed.

  `upsert` is `INSERT … ON CONFLICT(key) DO UPDATE SET` of every other column, `set` is
  `UPDATE … WHERE key = …`, `delete` is `DELETE … WHERE key = …`. `find` and membership
  after each are given by `find_*` and `mem_*`; `upsert_restore` and `delete_upsert` are
  the two ways to undo an upsert.
-/
import Mathlib.Data.List.Nodup

namespace MythLab.Lib

variable {κ ρ : Type} {key : ρ → κ}

structure Table (key : ρ → κ) where
  rows : List ρ
  nodup : (rows.map key).Nodup

namespace Table

@[ext] theorem ext {t u : Table key} (h : t.rows = u.rows) : t = u := by
  cases t; cases u; simpa using h

/-- Rows with one key are one row. -/
theorem key_inj {t : Table key} {r s : ρ} (hr : r ∈ t.rows) (hs : s ∈ t.rows) (h : key r = key s) : r = s :=
  List.inj_on_of_nodup_map t.nodup hr hs h

def empty : Table key := ⟨[], by simp⟩

/-- Keep the rows that do not satisfy `p`. -/
def deleteWhere (t : Table key) (p : ρ → Bool) : Table key :=
  ⟨t.rows.filter (!p ·), (List.Sublist.map key List.filter_sublist).nodup t.nodup⟩

@[simp] theorem mem_deleteWhere {t : Table key} {p : ρ → Bool} {x : ρ} :
    x ∈ (t.deleteWhere p).rows ↔ x ∈ t.rows ∧ p x = false := by simp [deleteWhere]

variable [DecidableEq κ]

def find (t : Table key) (k : κ) : Option ρ := t.rows.find? (key · = k)

/-- Replace the row with `r`'s key, if there is one. -/
def set (t : Table key) (r : ρ) : Table key where
  rows := t.rows.map fun x => if key x = key r then r else x
  nodup := by
    have : (t.rows.map fun x => if key x = key r then r else x).map key = t.rows.map key := by
      rw [List.map_map]
      refine List.map_congr_left ?_
      intro x _
      show key (if key x = key r then r else x) = key x
      split
      · exact Eq.symm ‹_›
      · rfl
    rw [this]; exact t.nodup

theorem find_none_iff (t : Table key) (k : κ) : t.find k = none ↔ ∀ r ∈ t.rows, key r ≠ k := by
  simp [find, List.find?_eq_none]

theorem find_some_iff (t : Table key) (k : κ) (r : ρ) : t.find k = some r ↔ r ∈ t.rows ∧ key r = k := by
  constructor
  · intro h
    exact ⟨List.mem_of_find?_eq_some h, by simpa using List.find?_some h⟩
  · rintro ⟨hr, rfl⟩
    rcases h : t.find (key r) with _ | r'
    · exact absurd rfl ((find_none_iff t _).mp h r hr)
    · have hm : r' ∈ t.rows := List.mem_of_find?_eq_some h
      have hk : key r' = key r := by simpa using List.find?_some h
      rw [List.inj_on_of_nodup_map t.nodup hm hr hk]

theorem find_mem {t : Table key} {k : κ} {r : ρ} (h : t.find k = some r) : r ∈ t.rows := ((find_some_iff t k r).mp h).1

theorem find_key {t : Table key} {k : κ} {r : ρ} (h : t.find k = some r) : key r = k := ((find_some_iff t k r).mp h).2

def upsert (t : Table key) (r : ρ) : Table key :=
  if h : t.find (key r) = none then
    ⟨t.rows ++ [r], by
      rw [List.map_append, List.nodup_append]
      refine ⟨t.nodup, by simp, ?_⟩
      intro a ha b hb hab
      obtain ⟨x, hx, rfl⟩ := List.mem_map.mp ha
      rw [List.map_singleton, List.mem_singleton] at hb
      exact (find_none_iff t _).mp h x hx (hab.trans hb)⟩
  else t.set r

def delete (t : Table key) (k : κ) : Table key := t.deleteWhere (key · = k)

/-! ## Membership -/

theorem mem_set {t : Table key} {r x : ρ} :
    x ∈ (t.set r).rows ↔ (x = r ∧ t.find (key r) ≠ none) ∨ (x ∈ t.rows ∧ key x ≠ key r) := by
  simp only [set, List.mem_map]
  constructor
  · rintro ⟨y, hy, rfl⟩
    split
    · rename_i hk
      exact Or.inl ⟨rfl, fun hn => (find_none_iff t _).mp hn y hy hk⟩
    · exact Or.inr ⟨hy, ‹_›⟩
  · rintro (⟨rfl, hn⟩ | ⟨hx, hk⟩)
    · obtain ⟨y, hy⟩ := Option.ne_none_iff_exists'.mp hn
      exact ⟨y, find_mem hy, by rw [if_pos (find_key hy)]⟩
    · exact ⟨x, hx, by rw [if_neg hk]⟩

theorem mem_upsert {t : Table key} {r x : ρ} : x ∈ (t.upsert r).rows ↔ x = r ∨ (x ∈ t.rows ∧ key x ≠ key r) := by
  unfold upsert
  split
  · rename_i h
    have hne := (find_none_iff t _).mp h
    simp only [List.mem_append, List.mem_singleton]
    constructor
    · rintro (hx | rfl)
      · exact Or.inr ⟨hx, hne x hx⟩
      · exact Or.inl rfl
    · rintro (rfl | ⟨hx, _⟩)
      · exact Or.inr rfl
      · exact Or.inl hx
  · rename_i h
    simp [mem_set, h]

theorem mem_delete {t : Table key} {k : κ} {x : ρ} : x ∈ (t.delete k).rows ↔ x ∈ t.rows ∧ key x ≠ k := by
  simp [delete]

/-! ## Lookup -/

theorem find_congr {t u : Table key} {k : κ} (h : ∀ r, key r = k → (r ∈ t.rows ↔ r ∈ u.rows)) :
    t.find k = u.find k := by
  rcases ht : t.find k with _ | r
  · refine Eq.symm ((find_none_iff u k).mpr ?_)
    intro r hr hk
    exact (find_none_iff t k).mp ht r ((h r hk).mpr hr) hk
  · obtain ⟨hr, hk⟩ := (find_some_iff t k r).mp ht
    exact Eq.symm ((find_some_iff u k r).mpr ⟨(h r hk).mp hr, hk⟩)

@[simp] theorem find_upsert_self (t : Table key) (r : ρ) : (t.upsert r).find (key r) = some r :=
  (find_some_iff _ _ _).mpr ⟨mem_upsert.mpr (Or.inl rfl), rfl⟩

theorem find_upsert_ne (t : Table key) {r : ρ} {k : κ} (h : k ≠ key r) : (t.upsert r).find k = t.find k :=
  find_congr fun x hx => by
    rw [mem_upsert]
    constructor
    · rintro (rfl | ⟨hm, _⟩)
      · exact absurd hx.symm h
      · exact hm
    · intro hm; exact Or.inr ⟨hm, fun he => h (hx.symm.trans he)⟩

theorem find_set_self {t : Table key} {r : ρ} (h : t.find (key r) ≠ none) : (t.set r).find (key r) = some r :=
  (find_some_iff _ _ _).mpr ⟨mem_set.mpr (Or.inl ⟨rfl, h⟩), rfl⟩

theorem find_set_ne (t : Table key) {r : ρ} {k : κ} (h : k ≠ key r) : (t.set r).find k = t.find k :=
  find_congr fun x hx => by
    rw [mem_set]
    constructor
    · rintro (⟨rfl, _⟩ | ⟨hm, _⟩)
      · exact absurd hx.symm h
      · exact hm
    · intro hm; exact Or.inr ⟨hm, fun he => h (hx.symm.trans he)⟩

/-- A key stays present under an upsert or a replacement. -/
theorem find_upsert_ne_none {t : Table key} {k : κ} (r : ρ) (h : t.find k ≠ none) : (t.upsert r).find k ≠ none := by
  by_cases hk : k = key r
  · rw [hk, find_upsert_self]; simp
  · rwa [find_upsert_ne t hk]

theorem find_set_ne_none {t : Table key} {k : κ} (r : ρ) (h : t.find k ≠ none) : (t.set r).find k ≠ none := by
  by_cases hk : k = key r
  · rw [hk, find_set_self (hk ▸ h)]; simp
  · rwa [find_set_ne t hk]

theorem find_delete_ne (t : Table key) {k k' : κ} (h : k' ≠ k) : (t.delete k).find k' = t.find k' :=
  find_congr fun x hx => by
    rw [mem_delete]
    exact ⟨fun hm => hm.1, fun hm => ⟨hm, fun he => h (hx.symm.trans he)⟩⟩

theorem find_deleteWhere (t : Table key) (p : ρ → Bool) (k : κ) : (t.deleteWhere p).find k = (t.find k).filter (!p ·) := by
  cases hfind : t.find k with
  | none =>
    refine (find_none_iff _ k).mpr ?_
    intro r hr
    exact (find_none_iff t k).mp hfind r (mem_deleteWhere.mp hr).1
  | some r =>
    obtain ⟨hr, rfl⟩ := (find_some_iff t k r).mp hfind
    cases hp : p r with
    | false =>
      rw [Option.filter_some, hp]
      exact (find_some_iff _ _ r).mpr ⟨mem_deleteWhere.mpr ⟨hr, hp⟩, rfl⟩
    | true =>
      rw [Option.filter_some, hp]
      refine (find_none_iff _ _).mpr ?_
      intro x hx hk
      obtain ⟨hx, hpx⟩ := mem_deleteWhere.mp hx
      rw [key_inj hx hr hk, hp] at hpx
      cases hpx

/-! ## One replacement after another -/

/-- An upsert of a key that is present is a replacement. -/
theorem upsert_of_present {t : Table key} {r : ρ} (h : t.find (key r) ≠ none) : t.upsert r = t.set r := by
  rw [upsert, dif_neg h]

/-- Of two replacements of one row the second counts. -/
theorem set_set (t : Table key) {r r' : ρ} (hk : key r' = key r) : (t.set r').set r = t.set r := by
  ext1
  show (t.rows.map _).map _ = t.rows.map _
  rw [List.map_map]
  refine List.map_congr_left ?_
  intro x _
  show (if key (if key x = key r' then r' else x) = key r then r else if key x = key r' then r' else x) = _
  by_cases e : key x = key r
  · rw [if_pos (e.trans hk.symm), if_pos hk, if_pos e]
  · have e' : ¬ key x = key r' := fun h' => e (h'.trans hk)
    rw [if_neg e', if_neg e]

/-! ## Undoing an upsert -/

theorem set_rows_same {t : Table key} {r : ρ} (h : ∀ x ∈ t.rows, key x = key r → x = r) : t.set r = t := by
  ext1
  show t.rows.map _ = t.rows
  conv_rhs => rw [← List.map_id t.rows]
  refine List.map_congr_left ?_
  intro x hx
  split
  · exact (h x hx ‹_›).symm
  · rfl

/-- Putting a row back over what replaced it restores the table, order included. -/
theorem upsert_restore {t : Table key} {r r' : ρ} (h : t.find (key r) = some r) (hk : key r' = key r) :
    (t.upsert r').upsert r = t := by
  have hne : t.find (key r) ≠ none := by rw [h]; simp
  have hne' : t.find (key r') ≠ none := by rw [hk]; exact hne
  rw [upsert_of_present hne', upsert_of_present (find_set_ne_none r' hne), set_set t hk]
  exact set_rows_same fun x hx hx' => key_inj hx (find_mem h) hx'

/-- A row put back over itself changes nothing. -/
theorem upsert_same {t : Table key} {r : ρ} (h : t.find (key r) = some r) : t.upsert r = t := by
  rw [upsert, dif_neg (by rw [h]; simp)]
  exact set_rows_same fun x hx hk => key_inj hx (find_mem h) hk

/-- Deleting a row that an upsert inserted restores the table. -/
theorem delete_upsert {t : Table key} {r : ρ} (h : t.find (key r) = none) : (t.upsert r).delete (key r) = t := by
  have hne := (find_none_iff t _).mp h
  rw [upsert, dif_pos h]
  ext1
  show (t.rows ++ [r]).filter _ = t.rows
  rw [List.filter_append, List.filter_eq_self.mpr (fun x hx => by simp [hne x hx])]
  simp

/-- Deleting a key that is not there changes nothing. -/
theorem delete_absent {t : Table key} {k : κ} (h : t.find k = none) : t.delete k = t := by
  ext1
  exact List.filter_eq_self.mpr fun x hx => by simp [(find_none_iff t k).mp h x hx]

end Table

end MythLab.Lib
