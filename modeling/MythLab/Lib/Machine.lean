/-
  MythLab.Lib.Machine — state machines, their runs and the invariant rule.

  An event may be impossible in a state (`none`). A run (`Runs`) keeps its log: each
  step's state and event, oldest first; `Leads` is what later states are to an earlier one.
  `Runs.inv` proves an invariant over the runs whose steps all satisfy a condition on the
  state before the step and the event; `Runs.log_inv` proves one that also speaks of the
  log, `Runs.length_le` bounds a run by a rank; `last p` is the last step of a log for
  which `p` holds; `Reach.simulates` is the rule of forward simulation; `Inevitable` is what
  steps of a kind come to in any order, and `inevitable_of_rank` proves it by a rank;
  `runs_of_exec` turns a computed execution into a run.
-/
import Mathlib.Logic.Relation

namespace MythLab.Lib

structure Machine (σ ε : Type) where
  init : σ → Prop
  step : σ → ε → Option σ

namespace Machine

variable {σ ε : Type} (M : Machine σ ε)

/-- A run from a start of `M`: its log and the state it ends in. -/
inductive Runs : List (σ × ε) → σ → Prop
  | init {s : σ} : M.init s → Runs [] s
  | step {log : List (σ × ε)} {s s' : σ} (e : ε) : Runs log s → M.step s e = some s' → Runs (log ++ [(s, e)]) s'

def Reach (s : σ) : Prop := ∃ log, M.Runs log s

/-- Every step of the log satisfies `ok`. -/
def Throughout (ok : σ → ε → Prop) (log : List (σ × ε)) : Prop := ∀ p ∈ log, ok p.1 p.2

@[simp] theorem throughout_snoc (ok : σ → ε → Prop) (log : List (σ × ε)) (s : σ) (e : ε) :
    Throughout ok (log ++ [(s, e)]) ↔ Throughout ok log ∧ ok s e := by
  simp only [Throughout, List.mem_append, List.mem_singleton]
  constructor
  · intro h; exact ⟨fun p hp => h p (Or.inl hp), h (s, e) (Or.inr rfl)⟩
  · rintro ⟨h, he⟩ p (hp | rfl)
    · exact h p hp
    · exact he

/-- The last step of the log for which `p` holds. -/
def last (p : σ → ε → Bool) (log : List (σ × ε)) : Option (σ × ε) := log.reverse.find? fun q => p q.1 q.2

theorem last_snoc (p : σ → ε → Bool) (log : List (σ × ε)) (s : σ) (e : ε) :
    last p (log ++ [(s, e)]) = if p s e then some (s, e) else last p log := by
  simp only [last, List.reverse_append, List.reverse_singleton, List.singleton_append, List.find?_cons]
  cases p s e <;> rfl

variable {M}

theorem reach_step {s s' : σ} (e : ε) (h : M.Reach s) (hs : M.step s e = some s') : M.Reach s' := by
  obtain ⟨log, h⟩ := h
  exact ⟨_, .step e h hs⟩

/-- What a run passed through is reachable. -/
theorem Runs.reach_of_mem {log : List (σ × ε)} {s : σ} (h : M.Runs log s) {t : σ} {e : ε} (ht : (t, e) ∈ log) :
    M.Reach t := by
  induction h with
  | init => cases ht
  | step e' hr _ ih =>
    rcases List.mem_append.mp ht with ht | ht
    · exact ih ht
    · obtain ⟨rfl, -⟩ := Prod.mk.inj (List.mem_singleton.mp ht)
      exact ⟨_, hr⟩

/-- The states a run to `s` passes through, `s` included. -/
def Passes (log : List (σ × ε)) (s t : σ) : Prop := t = s ∨ ∃ e, (t, e) ∈ log

theorem Runs.next {log : List (σ × ε)} {s : σ} (h : M.Runs log s) {t t' : σ} {e : ε} (ht : (t, e) ∈ log)
    (hs : M.step t e = some t') : Passes log s t' := by
  induction h with
  | init => cases ht
  | step e' _ hs' ih =>
    rcases List.mem_append.mp ht with ht | ht
    · rcases ih ht with rfl | ⟨e'', he⟩
      · exact Or.inr ⟨e', by simp⟩
      · exact Or.inr ⟨e'', List.mem_append_left _ he⟩
    · obtain ⟨rfl, rfl⟩ := Prod.mk.inj (List.mem_singleton.mp ht)
      exact Or.inl (Option.some.inj (hs.symm.trans hs'))

/-- The invariant rule, over the runs whose steps all satisfy `ok`. -/
theorem Runs.inv {I : σ → Prop} {ok : σ → ε → Prop} (hinit : ∀ s, M.init s → I s)
    (hstep : ∀ s e s', I s → ok s e → M.step s e = some s' → I s') {log : List (σ × ε)} {s : σ}
    (h : M.Runs log s) (hok : Throughout ok log) : I s := by
  induction h with
  | init hi => exact hinit _ hi
  | step e _ hs ih =>
    obtain ⟨hlog, he⟩ := (throughout_snoc _ _ _ _).mp hok
    exact hstep _ e _ (ih hlog) he hs

/-- So does everything the run passes through. -/
theorem Runs.inv_passes {I : σ → Prop} {ok : σ → ε → Prop} (hinit : ∀ s, M.init s → I s)
    (hstep : ∀ s e s', I s → ok s e → M.step s e = some s' → I s') {log : List (σ × ε)} {s t : σ}
    (h : M.Runs log s) (hok : Throughout ok log) (ht : Passes log s t) : I t := by
  induction h generalizing t with
  | init hi =>
    rcases ht with rfl | ⟨_, ht⟩
    · exact hinit _ hi
    · cases ht
  | step e hr hs ih =>
    obtain ⟨hlog, he⟩ := (throughout_snoc _ _ _ _).mp hok
    rcases ht with rfl | ⟨_, ht⟩
    · exact hstep _ e _ (ih hlog (Or.inl rfl)) he hs
    · rcases List.mem_append.mp ht with ht | ht
      · exact ih hlog (Or.inr ⟨_, ht⟩)
      · obtain ⟨rfl, -⟩ := Prod.mk.inj (List.mem_singleton.mp ht)
        exact ih hlog (Or.inl rfl)

theorem Reach.inv {I : σ → Prop} (hinit : ∀ s, M.init s → I s)
    (hstep : ∀ s e s', I s → M.step s e = some s' → I s') {s : σ} (h : M.Reach s) : I s := by
  obtain ⟨log, h⟩ := h
  have hok : Throughout (fun (_ : σ) (_ : ε) => True) log := fun _ _ => trivial
  exact h.inv hinit (fun s e s' hs _ he => hstep s e s' hs he) hok

/-- The invariant rule for an invariant that also speaks of the log. -/
theorem Runs.log_inv {I : List (σ × ε) → σ → Prop} (hinit : ∀ s, M.init s → I [] s)
    (hstep : ∀ log s e s', M.Runs log s → I log s → M.step s e = some s' → I (log ++ [(s, e)]) s')
    {log : List (σ × ε)} {s : σ} (h : M.Runs log s) : I log s := by
  induction h with
  | init hi => exact hinit _ hi
  | step e hr hs ih => exact hstep _ _ e _ hr ih hs

/-- Where each step lowers a rank, a run has no more steps than the rank it starts at. -/
theorem Runs.length_le (rank : σ → Nat) (bound : Nat) {ok : σ → ε → Prop} (hinit : ∀ s, M.init s → rank s ≤ bound)
    (hstep : ∀ s e s', ok s e → M.step s e = some s' → rank s' < rank s) {log : List (σ × ε)} {s : σ}
    (h : M.Runs log s) (hok : Throughout ok log) : log.length + rank s ≤ bound := by
  induction h with
  | init hi => simpa using hinit _ hi
  | step e _ hs ih =>
    obtain ⟨hlog, he⟩ := (throughout_snoc _ _ _ _).mp hok
    have hbefore := ih hlog
    have hlower := hstep _ e _ he hs
    simp only [List.length_append, List.length_singleton]
    omega

/-- The states that steps lead to from `s`. -/
def Leads (M : Machine σ ε) : σ → σ → Prop := Relation.ReflTransGen fun s t => ∃ e, M.step s e = some t

theorem Leads.inv {I : σ → Prop} (hstep : ∀ s e s', I s → M.step s e = some s' → I s') {s t : σ} (h : M.Leads s t)
    (hs : I s) : I t := by
  induction h with
  | refl => exact hs
  | tail _ hstep' ih =>
    obtain ⟨e, he⟩ := hstep'
    exact hstep _ e _ ih he

theorem Reach.leads {s t : σ} (hs : M.Reach s) (h : M.Leads s t) : M.Reach t :=
  h.inv (fun _ e _ hs he => reach_step e hs he) hs

/-- Forward simulation: where every step of `M` is matched by steps of `N`, what `M` reaches is
    related to what `N` reaches. -/
theorem Reach.simulates {τ δ : Type} {N : Machine τ δ} {R : σ → τ → Prop}
    (hinit : ∀ s, M.init s → ∃ t, N.init t ∧ R s t)
    (hstep : ∀ s e s' t, M.Reach s → R s t → M.step s e = some s' → ∃ t', N.Leads t t' ∧ R s' t') {s : σ}
    (h : M.Reach s) : ∃ t, N.Reach t ∧ R s t := by
  obtain ⟨log, h⟩ := h
  induction h with
  | init hi =>
    obtain ⟨t, ht, hR⟩ := hinit _ hi
    exact ⟨t, ⟨[], .init ht⟩, hR⟩
  | step e hr hs ih =>
    obtain ⟨t, ht, hR⟩ := ih
    obtain ⟨t', hlead, hR'⟩ := hstep _ e _ t ⟨_, hr⟩ hR hs
    exact ⟨t', ht.leads hlead, hR'⟩

/-- However steps of a kind go on, they come to a state with `P`, and one of them is possible
    until then. -/
inductive Inevitable (M : Machine σ ε) (kind : σ → ε → Prop) (P : σ → Prop) : σ → Prop
  | now {s : σ} : P s → Inevitable M kind P s
  | later {s : σ} : (∃ e s', kind s e ∧ M.step s e = some s') →
      (∀ e s', kind s e → M.step s e = some s' → Inevitable M kind P s') → Inevitable M kind P s

/-- While `P` does not hold, a step of the kind is possible, and each lowers a rank. -/
theorem inevitable_of_rank {α : Type} {lt : α → α → Prop} (hlt : WellFounded lt) (rank : σ → α) {I P : σ → Prop}
    {kind : σ → ε → Prop}
    (hstep : ∀ s e s', I s → ¬ P s → kind s e → M.step s e = some s' → I s' ∧ lt (rank s') (rank s))
    (hmore : ∀ s, I s → ¬ P s → ∃ e s', kind s e ∧ M.step s e = some s') {s : σ} (hs : I s) :
    M.Inevitable kind P s := by
  obtain ⟨x, hx⟩ : ∃ x, x = rank s := ⟨_, rfl⟩
  induction x using hlt.induction generalizing s with
  | _ x ih =>
    by_cases hP : P s
    · exact .now hP
    · refine .later (hmore s hs hP) ?_
      intro e s' he hs'
      obtain ⟨hI, hlower⟩ := hstep s e s' hs hP he hs'
      exact ih (rank s') (hx ▸ hlower) hI rfl

/-- Execute a list of events, as long as each is possible. -/
def exec (M : Machine σ ε) : σ → List ε → Option (List (σ × ε) × σ)
  | s, [] => some ([], s)
  | s, e :: es =>
    match M.step s e with
    | none => none
    | some s' => (exec M s' es).map fun r => ((s, e) :: r.1, r.2)

theorem Runs.append_exec : ∀ (es : List ε) {log log' : List (σ × ε)} {s t : σ}, M.Runs log s →
    M.exec s es = some (log', t) → M.Runs (log ++ log') t := by
  intro es
  induction es with
  | nil => intro log log' s t h he; cases he; simpa using h
  | cons e es ih =>
    intro log log' s t h he
    simp only [exec] at he
    split at he
    · cases he
    · rename_i s' hs
      obtain ⟨⟨l, u⟩, hl, he⟩ := Option.map_eq_some_iff.mp he
      cases he
      simpa using ih (h.step e hs) hl

theorem runs_of_exec {es : List ε} {log : List (σ × ε)} {s t : σ} (hs : M.init s)
    (h : M.exec s es = some (log, t)) : M.Runs log t := by
  simpa using Runs.append_exec es (.init hs) h

theorem exec_events {es : List ε} {log : List (σ × ε)} {s t : σ} (h : M.exec s es = some (log, t)) :
    log.map Prod.snd = es := by
  induction es generalizing s log with
  | nil =>
    cases h
    rfl
  | cons e es ih =>
    unfold exec at h
    split at h
    · cases h
    · obtain ⟨r, hr, he⟩ := Option.map_eq_some_iff.mp h
      cases he
      exact congrArg (e :: ·) (ih hr)

/-- A computed execution whose steps all satisfy `ok` and whose end satisfies `p`. -/
theorem exists_run (M : Machine σ ε) (ok : σ → ε → Prop) [∀ s e, Decidable (ok s e)] (p : σ → Bool) (es : List ε)
    {s : σ} (hs : M.init s)
    (h : ((M.exec s es).any fun r => (r.1.all fun q => decide (ok q.1 q.2)) && p r.2) = true) :
    ∃ log t, M.Runs log t ∧ Throughout ok log ∧ p t = true := by
  rcases hexec : M.exec s es with _ | ⟨log, t⟩
  · rw [hexec] at h
    cases h
  · rw [hexec] at h
    obtain ⟨hok, hp⟩ := Bool.and_eq_true_iff.mp h
    exact ⟨log, t, runs_of_exec hs hexec, fun q hq => of_decide_eq_true (List.all_eq_true.mp hok q hq), hp⟩

/-- A computed execution by these events, whose log and end satisfy `p`. -/
theorem exists_run_by (M : Machine σ ε) (p : List (σ × ε) → σ → Bool) (es : List ε) {s : σ} (hs : M.init s)
    (h : ((M.exec s es).any fun r => p r.1 r.2) = true) :
    ∃ log t, M.Runs log t ∧ log.map Prod.snd = es ∧ p log t = true := by
  rcases hexec : M.exec s es with _ | ⟨log, t⟩
  · rw [hexec] at h
    cases h
  · rw [hexec] at h
    exact ⟨log, t, runs_of_exec hs hexec, exec_events hexec, h⟩

end Machine

end MythLab.Lib
