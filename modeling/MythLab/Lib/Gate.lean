/-
  MythLab.Lib.Gate — a gate with one place, as a semaphore of one permit has it.

  A caller waits, enters when a permit is free and takes it, gives it back, and leaves.
  Whether the permit is given back is up to the caller. `Sound n` says where the permit
  is: free, with a caller inside, or lost by `n` callers that left without giving it
  back. Each operation keeps it (`Sound.arrive` … `Sound.abandon`); a caller that has
  left either returned the permit (`Sound.leave_released`) or lost it (`Sound.leave_lost`).
-/

namespace MythLab.Lib

structure Gate (ρ : Type) where
  permits : Nat
  waiting : List ρ
  inside : List ρ
  deriving Repr

namespace Gate

variable {ρ : Type} {g : Gate ρ} {n : Nat}

def fresh : Gate ρ := ⟨1, [], []⟩

def arrive (g : Gate ρ) (r : ρ) : Gate ρ := { g with waiting := g.waiting ++ [r] }

/-- The `i`th waiting caller takes a permit, when one is free. -/
def enter (g : Gate ρ) (i : Nat) : Option (Gate ρ) :=
  match g.waiting[i]? with
  | some r => if 0 < g.permits then some ⟨g.permits - 1, g.waiting.eraseIdx i, g.inside ++ [r]⟩ else none
  | none => none

/-- The `i`th waiting caller gives up. -/
def abandon (g : Gate ρ) (i : Nat) : Gate ρ := { g with waiting := g.waiting.eraseIdx i }

def release (g : Gate ρ) : Gate ρ := { g with permits := g.permits + 1 }

/-- The `i`th caller inside leaves. -/
def leave (g : Gate ρ) (i : Nat) : Gate ρ := { g with inside := g.inside.eraseIdx i }

/-- The one permit is free, taken, or lost by one of the `n` callers that lost one. -/
def Sound (n : Nat) (g : Gate ρ) : Prop := g.permits + g.inside.length + n = 1

theorem Sound.fresh : Sound 0 (fresh : Gate ρ) := rfl

theorem Sound.arrive (h : Sound n g) (r : ρ) : Sound n (g.arrive r) := h

theorem Sound.abandon (h : Sound n g) (i : Nat) : Sound n (g.abandon i) := h

theorem Sound.enter (h : Sound n g) {g' : Gate ρ} {i : Nat} (he : g.enter i = some g') : Sound n g' := by
  unfold Gate.enter at he
  split at he
  · split at he
    · cases he
      unfold Sound at h ⊢
      simp only [List.length_append, List.length_singleton]
      omega
    · cases he
  · cases he

/-- While a caller is inside, no permit is free and none is lost. -/
theorem Sound.inside (h : Sound n g) {i : Nat} {r : ρ} (hi : g.inside[i]? = some r) :
    g.permits = 0 ∧ n = 0 ∧ g.inside = [r] ∧ i = 0 := by
  obtain ⟨hlt, hr⟩ := List.getElem?_eq_some_iff.mp hi
  unfold Sound at h
  obtain ⟨r', hone⟩ := List.length_eq_one_iff.mp (show g.inside.length = 1 by omega)
  have hzero : i = 0 := by omega
  subst hzero
  have hrr : r' = r := by simpa [hone] using hr
  exact ⟨by omega, by omega, by rw [hone, hrr], rfl⟩

theorem Sound.leave_released (h : Sound n g) {i : Nat} {r : ρ} (hi : g.inside[i]? = some r) :
    Sound 0 (g.release.leave i) := by
  obtain ⟨hp, -, hin, rfl⟩ := h.inside hi
  simp [Sound, Gate.leave, Gate.release, hp, hin]

theorem Sound.leave_lost (h : Sound n g) {i : Nat} {r : ρ} (hi : g.inside[i]? = some r) : Sound 1 (g.leave i) := by
  obtain ⟨hp, -, hin, rfl⟩ := h.inside hi
  simp [Sound, Gate.leave, hp, hin]

/-- With nobody inside the permit is free, unless it is lost. -/
theorem Sound.idle (h : Sound n g) (hidle : g.inside = []) : g.permits = 1 ↔ n = 0 := by
  have hs : g.permits + n = 1 := by simpa [Sound, hidle] using h
  omega

/-- A waiting caller can enter exactly when a permit is free. -/
theorem enter_isSome {i : Nat} (hi : i < g.waiting.length) : (g.enter i).isSome ↔ 0 < g.permits := by
  unfold enter
  rw [List.getElem?_eq_getElem hi]
  by_cases hp : 0 < g.permits <;> simp [hp]

end Gate

end MythLab.Lib
