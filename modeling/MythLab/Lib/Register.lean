/-
  MythLab.Lib.Register — a register whose later write wins.

  A write replaces the content unless the content is later (`put`). `puts_cases`: after
  any list of writes the register holds the latest of them, or what it held if that is
  later than all of them; so the order of writes with distinct times does not matter
  (`puts_perm`), and the time never goes back (`time_le_puts`).
-/
import Mathlib.Data.List.Induction
import Mathlib.Data.List.Nodup
import Mathlib.Order.Lattice

namespace MythLab.Lib.Register

variable {ω τ : Type} [LinearOrder τ] (time : ω → τ)

def put (content write : ω) : ω := if time write < time content then content else write

def puts (content : ω) (writes : List ω) : ω := writes.foldl (put time) content

variable {time}

@[simp] theorem puts_nil (content : ω) : puts time content [] = content := rfl

@[simp] theorem puts_snoc (content write : ω) (writes : List ω) :
    puts time content (writes ++ [write]) = put time (puts time content writes) write := by
  simp [puts]

theorem time_le_put (content write : ω) : time content ≤ time (put time content write) := by
  unfold put
  split
  · exact le_rfl
  · exact not_lt.mp ‹_›

theorem time_le_puts (time : ω → τ) (content : ω) (writes : List ω) : time content ≤ time (puts time content writes) := by
  induction writes using List.reverseRecOn with
  | nil => exact le_rfl
  | append_singleton writes write ih =>
    rw [puts_snoc]
    exact ih.trans (time_le_put _ write)

/-- The content after all writes: the latest of them, unless it was later than all. -/
theorem puts_cases (time : ω → τ) (content : ω) (writes : List ω) :
    (puts time content writes = content ∧ ∀ x ∈ writes, time x < time content) ∨
      (puts time content writes ∈ writes ∧ (∀ x ∈ writes, time x ≤ time (puts time content writes)) ∧
        time content ≤ time (puts time content writes)) := by
  induction writes using List.reverseRecOn with
  | nil => exact Or.inl ⟨rfl, by simp⟩
  | append_singleton writes write ih =>
    have hle := time_le_puts time content writes
    rw [puts_snoc]
    unfold put
    by_cases h : time write < time (puts time content writes)
    · -- the write is older than the content
      rw [if_pos h]
      rcases ih with ⟨he, hlt⟩ | ⟨hm, hmax, hge⟩
      · refine Or.inl ⟨he, ?_⟩
        intro x hx
        rcases List.mem_append.mp hx with hx | hx
        · exact hlt x hx
        · rw [List.mem_singleton.mp hx, ← he]; exact h
      · refine Or.inr ⟨List.mem_append_left _ hm, ?_, hge⟩
        intro x hx
        rcases List.mem_append.mp hx with hx | hx
        · exact hmax x hx
        · rw [List.mem_singleton.mp hx]; exact h.le
    · rw [if_neg h]
      have hnew := not_lt.mp h
      refine Or.inr ⟨by simp, ?_, hle.trans hnew⟩
      intro x hx
      rcases List.mem_append.mp hx with hx | hx
      · rcases ih with ⟨he, hlt⟩ | ⟨-, hmax, -⟩
        · exact (hlt x hx).le.trans (hle.trans hnew)
        · exact (hmax x hx).trans hnew
      · rw [List.mem_singleton.mp hx]

/-- Writes of distinct times leave the same content in every order. -/
theorem puts_perm {content : ω} {writes writes' : List ω} (hperm : writes.Perm writes')
    (hdistinct : (writes.map time).Nodup) : puts time content writes = puts time content writes' := by
  rcases puts_cases time content writes with ⟨he, hlt⟩ | ⟨hm, hmax, hge⟩
  · rcases puts_cases time content writes' with ⟨he', -⟩ | ⟨hm', -, hge'⟩
    · rw [he, he']
    · exact absurd (hlt _ (hperm.mem_iff.mpr hm')) (not_lt.mpr hge')
  · rcases puts_cases time content writes' with ⟨-, hlt'⟩ | ⟨hm', hmax', -⟩
    · exact absurd (hlt' _ (hperm.mem_iff.mp hm)) (not_lt.mpr hge)
    · refine List.inj_on_of_nodup_map hdistinct hm (hperm.mem_iff.mpr hm') ?_
      exact le_antisymm (hmax' _ (hperm.mem_iff.mp hm)) (hmax _ (hperm.mem_iff.mpr hm'))

end MythLab.Lib.Register
