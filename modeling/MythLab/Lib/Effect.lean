/-
  MythLab.Lib.Effect — programs on a state whose calls to the outside may throw.

  An effect maps a state to a value or an exception and the state it leaves; a thrown
  exception keeps every change made before it (`tryCatch` and `tryFinally` do not roll
  back). A world is a state and the calls made so far. A call consults the environment
  for its own number: it runs, or it throws; a throwing `call` may have taken effect
  first, a throwing `statement` never has.

  A computation without effects is an `Except`; `throwIf` is its guard, and `bind_ok_iff`,
  `throwIf_ok_iff` say what a computation that returned has passed.

  Rules: `wp m Q s` says that `Q` holds of how `m` ends from `s`. There is one rule for
  each construct (`wp_bind` … `wp_finally`; a `throw` and a `modify` unfold), one
  for each kind of call (`wp_call`, `wp_statement`), and `wp_mono` weakens the
  postcondition. `Keeps I m` says that `m` keeps the invariant `I` on every exit; its rules
  follow the same constructs.
-/

namespace MythLab.Lib

variable {σ ε κ α β : Type}

/-! ## Computations without effects -/

/-- `if (c) throw e;` -/
def throwIf (c : Prop) [Decidable c] (e : ε) : Except ε Unit := if c then .error e else .ok ()

@[simp] theorem pure_eq_ok (a : α) : (pure a : Except ε α) = .ok a := rfl

@[simp] theorem ok_bind (a : α) (f : α → Except ε β) : (Except.ok a >>= f) = f a := rfl

theorem bind_ok_iff {x : Except ε α} {f : α → Except ε β} {b : β} :
    (x >>= f) = .ok b ↔ ∃ a, x = .ok a ∧ f a = .ok b := by
  cases x with
  | error e => exact ⟨fun h => (by cases h), fun ⟨_, h, _⟩ => (by cases h)⟩
  | ok a => exact ⟨fun h => ⟨a, rfl, h⟩, fun ⟨_, h, hf⟩ => by cases h; exact hf⟩

@[simp] theorem throwIf_ok_iff {c : Prop} [Decidable c] {e : ε} {u : Unit} : throwIf c e = .ok u ↔ ¬ c := by
  unfold throwIf
  split
  · exact ⟨fun h => (by cases h), fun h => absurd ‹c› h⟩
  · exact ⟨fun _ => ‹¬ c›, fun _ => rfl⟩

theorem throwIf_bind_ok_iff {c : Prop} [Decidable c] {e : ε} {f : Unit → Except ε β} {b : β} :
    (throwIf c e >>= f) = .ok b ↔ ¬ c ∧ f () = .ok b := by
  rw [bind_ok_iff]
  exact ⟨fun ⟨_, hc, hf⟩ => ⟨throwIf_ok_iff.mp hc, hf⟩, fun ⟨hc, hf⟩ => ⟨(), throwIf_ok_iff.mpr hc, hf⟩⟩

/-- A list every element of which was mapped, by a function that returns `g` where it
    returns. -/
theorem mapM_ok {f : α → Except ε β} {g : α → β} (hg : ∀ a b, f a = .ok b → b = g a) {xs : List α} {ys : List β}
    (h : xs.mapM f = .ok ys) : ys = xs.map g := by
  induction xs generalizing ys with
  | nil =>
    cases h
    rfl
  | cons x xs ih =>
    rw [List.mapM_cons] at h
    obtain ⟨y, hy, h⟩ := bind_ok_iff.mp h
    obtain ⟨ys', hys, h⟩ := bind_ok_iff.mp h
    cases h
    rw [List.map_cons, ← hg x y hy, ← ih hys]

/-- Every element of the list can be mapped. -/
theorem mapM_returns {f : α → Except ε β} {xs : List α} (h : ∀ x ∈ xs, ∃ b, f x = .ok b) : ∃ ys, xs.mapM f = .ok ys := by
  induction xs with
  | nil => exact ⟨[], rfl⟩
  | cons x xs ih =>
    rw [List.forall_mem_cons] at h
    obtain ⟨b, hb⟩ := h.1
    obtain ⟨ys, hys⟩ := ih h.2
    refine ⟨b :: ys, ?_⟩
    rw [List.mapM_cons, hb, hys]
    rfl

theorem forM_ok_iff {f : α → Except ε PUnit} {xs : List α} : xs.forM f = .ok () ↔ ∀ x ∈ xs, f x = .ok () := by
  induction xs with
  | nil => simp
  | cons x xs ih =>
    rw [List.forall_mem_cons, ← ih]
    refine ⟨?_, ?_⟩
    · intro h
      obtain ⟨_, hx, hxs⟩ := bind_ok_iff.mp h
      exact ⟨hx, hxs⟩
    · intro ⟨hx, hxs⟩
      exact bind_ok_iff.mpr ⟨(), hx, hxs⟩

/-! ## Programs -/

/-- A program on a state `σ` that may throw an `ε`. -/
def Eff (σ ε α : Type) : Type := σ → Except ε α × σ

namespace Eff

instance : Monad (Eff σ ε) where
  pure a := fun s => (.ok a, s)
  bind m f := fun s =>
    match m s with
    | (.ok a, s') => f a s'
    | (.error e, s') => (.error e, s')

instance : MonadExceptOf ε (Eff σ ε) where
  throw e := fun s => (.error e, s)
  tryCatch m h := fun s =>
    match m s with
    | (.ok a, s') => (.ok a, s')
    | (.error e, s') => h e s'

/-- The finalizer runs on both exits; what it throws replaces the outcome. -/
instance : MonadFinally (Eff σ ε) where
  tryFinally' m f := fun s =>
    match m s with
    | (.ok a, s') =>
      match f (some a) s' with
      | (.ok b, s'') => (.ok (a, b), s'')
      | (.error e, s'') => (.error e, s'')
    | (.error e, s') =>
      match f none s' with
      | (.ok _, s'') => (.error e, s'')
      | (.error e', s'') => (.error e', s'')

/-- Read the state. -/
def get : Eff σ ε σ := fun s => (.ok s, s)

def modify (f : σ → σ) : Eff σ ε Unit := fun s => (.ok (), f s)

/-- A computation without effects that may throw. -/
def lift (r : Except ε α) : Eff σ ε α := fun s => (r, s)

/-- `m` if `c` holds, else the value `a`. -/
def provided (c : Prop) [Decidable c] (m : Eff σ ε α) (a : α) : Eff σ ε α := if c then m else pure a

/-! ## Weakest preconditions -/

/-- `Q` holds of how `m` ends from `s`. -/
def wp (m : Eff σ ε α) (Q : Except ε α → σ → Prop) (s : σ) : Prop := Q (m s).1 (m s).2

theorem wp_mono {m : Eff σ ε α} {Q R : Except ε α → σ → Prop} {s : σ} (h : wp m Q s)
    (hQR : ∀ r s', Q r s' → R r s') : wp m R s := hQR _ _ h

theorem wp_and {m : Eff σ ε α} {Q R : Except ε α → σ → Prop} {s : σ} (hQ : wp m Q s) (hR : wp m R s) :
    wp m (fun r s' => Q r s' ∧ R r s') s := ⟨hQ, hR⟩

@[simp] theorem wp_pure (a : α) (Q : Except ε α → σ → Prop) (s : σ) : wp (pure a) Q s ↔ Q (.ok a) s := Iff.rfl

@[simp] theorem wp_get (Q : Except ε σ → σ → Prop) (s : σ) : wp get Q s ↔ Q (.ok s) s := Iff.rfl

@[simp] theorem wp_lift (r : Except ε α) (Q : Except ε α → σ → Prop) (s : σ) : wp (lift r) Q s ↔ Q r s := Iff.rfl

theorem wp_bind {m : Eff σ ε α} {f : α → Eff σ ε β} {Q : Except ε β → σ → Prop} {s : σ} :
    wp (m >>= f) Q s ↔ wp m (fun r s' => match r with | .ok a => wp (f a) Q s' | .error e => Q (.error e) s') s := by
  unfold wp
  show Q (match m s with | (.ok a, s') => f a s' | (.error e, s') => (.error e, s')).1
    (match m s with | (.ok a, s') => f a s' | (.error e, s') => (.error e, s')).2 ↔ _
  rcases m s with ⟨_ | _, _⟩ <;> exact Iff.rfl

theorem bind_error {m : Eff σ ε α} {f : α → Eff σ ε β} {s s' : σ} {e : ε} (h : m s = (.error e, s')) :
    (m >>= f) s = (.error e, s') := by
  show (match m s with | (.ok a, s') => f a s' | (.error e, s') => (.error e, s')) = _
  rw [h]

theorem wp_get_bind {f : σ → Eff σ ε β} {Q : Except ε β → σ → Prop} {s : σ} :
    wp (get >>= f) Q s ↔ wp (f s) Q s := Iff.rfl

theorem wp_modify_bind {g : σ → σ} {f : Unit → Eff σ ε β} {Q : Except ε β → σ → Prop} {s : σ} :
    wp (modify g >>= f) Q s ↔ wp (f ()) Q (g s) := Iff.rfl

theorem wp_lift_bind {a : α} {f : α → Eff σ ε β} {Q : Except ε β → σ → Prop} {s : σ} :
    wp (lift (.ok a) >>= f) Q s ↔ wp (f a) Q s := Iff.rfl

/-- A computation without effects either stops the program or hands on its value. -/
theorem wp_lift_step {r : Except ε α} {f : α → Eff σ ε β} {Q : Except ε β → σ → Prop} {s : σ}
    (herror : ∀ e, r = .error e → Q (.error e) s) (hok : ∀ a, r = .ok a → wp (f a) Q s) : wp (lift r >>= f) Q s := by
  cases r with
  | error e => exact herror e rfl
  | ok a => exact hok a rfl

theorem wp_discard {m : Eff σ ε α} {Q : Except ε PUnit → σ → Prop} {s : σ} :
    wp (discard m) Q s ↔ wp m (fun r s' => Q (r.map fun _ => ()) s') s := by
  have run : discard m s =
      match m s with | (Except.ok _, s') => (Except.ok (), s') | (.error e, s') => (.error e, s') := rfl
  unfold wp
  rw [run]
  rcases m s with ⟨_ | _, _⟩ <;> exact Iff.rfl

theorem wp_tryCatch {m : Eff σ ε α} {h : ε → Eff σ ε α} {Q : Except ε α → σ → Prop} {s : σ} :
    wp (tryCatch m h) Q s ↔
      wp m (fun r s' => match r with | .ok a => Q (.ok a) s' | .error e => wp (h e) Q s') s := by
  have run : tryCatch m h s =
      match m s with | (Except.ok a, s') => (Except.ok a, s') | (.error e, s') => h e s' := rfl
  unfold wp
  rw [run]
  rcases m s with ⟨_ | _, _⟩ <;> exact Iff.rfl

theorem wp_finally {m : Eff σ ε α} {f : Eff σ ε β} {Q : Except ε α → σ → Prop} {s : σ} :
    wp (tryFinally m f) Q s ↔
      wp m (fun r s' => wp f (fun b s'' => match b with | .ok _ => Q r s'' | .error e => Q (.error e) s'') s') s := by
  have run : tryFinally m f s =
      match m s with
      | (r, s') => match f s' with | (Except.ok _, s'') => (r, s'') | (.error e, s'') => (.error e, s'') := by
    simp only [tryFinally, tryFinally', Functor.map]
    rcases m s with ⟨_ | _, s'⟩
    · rcases hf : f s' with ⟨_ | _, _⟩ <;> simp [hf]
    · rcases hf : f s' with ⟨_ | _, _⟩
      · simp [hf]
      · simp only [hf]; rfl
  unfold wp
  rw [run]
  rcases m s with ⟨r, s'⟩
  rcases hf : f s' with ⟨_ | _, _⟩ <;> simp [hf]

theorem wp_ite {c : Prop} [Decidable c] {m n : Eff σ ε α} {Q : Except ε α → σ → Prop} {s : σ}
    (hm : c → wp m Q s) (hn : ¬ c → wp n Q s) : wp (if c then m else n) Q s := by
  split
  · exact hm ‹_›
  · exact hn ‹_›

theorem wp_provided {c : Prop} [Decidable c] {m : Eff σ ε α} {a : α} {Q : Except ε α → σ → Prop} {s : σ}
    (hm : c → wp m Q s) (hn : ¬ c → Q (.ok a) s) : wp (provided c m a) Q s := wp_ite hm hn

/-! ## Invariants of a program -/

/-- `m` keeps `I`, however it ends. -/
def Keeps (I : σ → Prop) (m : Eff σ ε α) : Prop := ∀ s, I s → wp m (fun _ s' => I s') s

theorem Keeps.pure {I : σ → Prop} (a : α) : Keeps I (pure a : Eff σ ε α) := fun _ h => h

theorem Keeps.lift {I : σ → Prop} (r : Except ε α) : Keeps I (lift r) := fun _ h => h

theorem Keeps.get {I : σ → Prop} : Keeps I (get : Eff σ ε σ) := fun _ h => h

theorem Keeps.modify {I : σ → Prop} {f : σ → σ} (hf : ∀ s, I s → I (f s)) : Keeps I (modify f : Eff σ ε Unit) := hf

theorem Keeps.bind {I : σ → Prop} {m : Eff σ ε α} {f : α → Eff σ ε β} (hm : Keeps I m) (hf : ∀ a, Keeps I (f a)) :
    Keeps I (m >>= f) := by
  intro s hs
  rw [wp_bind]
  refine wp_mono (hm s hs) ?_
  intro r s' hs'
  rcases r with e | a
  · exact hs'
  · exact hf a s' hs'

theorem Keeps.forM {I : σ → Prop} {f : α → Eff σ ε PUnit} (hf : ∀ a, Keeps I (f a)) (xs : List α) : Keeps I (xs.forM f) := by
  induction xs with
  | nil => exact .pure _
  | cons x xs ih => exact .bind (hf x) fun _ => ih

theorem Keeps.finally {I : σ → Prop} {m : Eff σ ε α} {f : Eff σ ε β} (hm : Keeps I m) (hf : Keeps I f) :
    Keeps I (tryFinally m f) := by
  intro s hs
  rw [wp_finally]
  refine wp_mono (hm s hs) ?_
  intro r s' hs'
  refine wp_mono (hf s' hs') ?_
  intro r' s'' hs''
  cases r' <;> exact hs''

theorem Keeps.provided {I : σ → Prop} {c : Prop} [Decidable c] {m : Eff σ ε α} {a : α} (hm : Keeps I m) :
    Keeps I (provided c m a) := fun s hs => wp_provided (fun _ => hm s hs) fun _ => hs

end Eff

/-! ## Calls the environment may fail -/

/-- What the environment does to a call: nothing, or make it throw, after it took
    effect or before. -/
inductive Fault (ε : Type) where
  | none
  | throws (tookEffect : Bool) (e : ε)
  deriving Repr

/-- The same fault, its exception mapped. -/
def Fault.map {ε' : Type} (f : ε → ε') : Fault ε → Fault ε'
  | .none => .none
  | .throws tookEffect e => .throws tookEffect (f e)

/-- A call made: where in the program, and whether it threw. -/
structure Call (κ : Type) where
  site : κ
  threw : Bool
  deriving DecidableEq, Repr

structure World (σ κ : Type) where
  state : σ
  calls : List (Call κ)

def threw : Except ε α → Bool
  | .ok _ => false
  | .error _ => true

@[simp] theorem threw_ok (a : α) : threw (.ok a : Except ε α) = false := rfl
@[simp] theorem threw_error (e : ε) : threw (.error e : Except ε α) = true := rfl

theorem eq_ok_of_threw {r : Except ε Unit} (h : threw r = false) : r = .ok () := by
  cases r with
  | ok u => rfl
  | error e => cases h

theorem eq_error_of_threw {r : Except ε α} (h : threw r = true) : ∃ e, r = .error e := by
  cases r with
  | ok a => cases h
  | error e => exact ⟨e, rfl⟩

/-- A call at `site` that does `run`. When the environment makes it throw, it may have
    taken effect already. -/
def call (faults : Nat → Fault ε) (site : κ) (run : σ → Except ε α × σ) : Eff (World σ κ) ε α := fun w =>
  match faults w.calls.length with
  | .none => ((run w.state).1, ⟨(run w.state).2, w.calls ++ [⟨site, threw (run w.state).1⟩]⟩)
  | .throws tookEffect e =>
    (.error e, ⟨if tookEffect then (run w.state).2 else w.state, w.calls ++ [⟨site, true⟩]⟩)

/-- A call that takes effect or throws, never both. -/
def statement (faults : Nat → Fault ε) (site : κ) (run : σ → Except ε α × σ) : Eff (World σ κ) ε α := fun w =>
  match faults w.calls.length with
  | .none => ((run w.state).1, ⟨(run w.state).2, w.calls ++ [⟨site, threw (run w.state).1⟩]⟩)
  | .throws _ e => (.error e, ⟨w.state, w.calls ++ [⟨site, true⟩]⟩)

/-- A point where the environment may stop the program, for instance by cancelling it. -/
def checkpoint (faults : Nat → Fault ε) (site : κ) : Eff (World σ κ) ε Unit :=
  statement faults site fun s => (.ok (), s)

theorem call_throws {faults : Nat → Fault ε} {site : κ} {run : σ → Except ε α × σ} {w : World σ κ} {tookEffect : Bool}
    {e : ε} (h : faults w.calls.length = .throws tookEffect e) : call faults site run w =
      (.error e, ⟨if tookEffect then (run w.state).2 else w.state, w.calls ++ [⟨site, true⟩]⟩) := by
  unfold call
  rw [h]

theorem wp_call {faults : Nat → Fault ε} {site : κ} {run : σ → Except ε α × σ}
    {Q : Except ε α → World σ κ → Prop} {w : World σ κ}
    (hrun : Q (run w.state).1 ⟨(run w.state).2, w.calls ++ [⟨site, threw (run w.state).1⟩]⟩)
    (hfault : ∀ tookEffect e, faults w.calls.length = .throws tookEffect e →
      Q (.error e) ⟨if tookEffect then (run w.state).2 else w.state, w.calls ++ [⟨site, true⟩]⟩) :
    Eff.wp (call faults site run) Q w := by
  unfold Eff.wp call
  rcases hf : faults w.calls.length with _ | ⟨tookEffect, e⟩
  · exact hrun
  · exact hfault tookEffect e hf

theorem wp_statement {faults : Nat → Fault ε} {site : κ} {run : σ → Except ε α × σ}
    {Q : Except ε α → World σ κ → Prop} {w : World σ κ}
    (hrun : Q (run w.state).1 ⟨(run w.state).2, w.calls ++ [⟨site, threw (run w.state).1⟩]⟩)
    (hfault : ∀ e, faults w.calls.length ≠ .none → Q (.error e) ⟨w.state, w.calls ++ [⟨site, true⟩]⟩) :
    Eff.wp (statement faults site run) Q w := by
  unfold Eff.wp statement
  rcases hf : faults w.calls.length with _ | ⟨_, e⟩
  · exact hrun
  · exact hfault e (by rw [hf]; simp)

theorem keeps_call {I : World σ κ → Prop} {faults : Nat → Fault ε} {site : κ} {run : σ → Except ε α × σ}
    (hran : ∀ w threw, I w → I ⟨(run w.state).2, w.calls ++ [⟨site, threw⟩]⟩)
    (hnot : ∀ w, I w → I ⟨w.state, w.calls ++ [⟨site, true⟩]⟩) : Eff.Keeps I (call faults site run) := by
  intro w hw
  refine wp_call (hran w _ hw) ?_
  intro tookEffect e _
  cases tookEffect
  · exact hnot w hw
  · exact hran w _ hw

theorem keeps_statement {I : World σ κ → Prop} {faults : Nat → Fault ε} {site : κ} {run : σ → Except ε α × σ}
    (hran : ∀ w threw, I w → I ⟨(run w.state).2, w.calls ++ [⟨site, threw⟩]⟩)
    (hnot : ∀ w, I w → I ⟨w.state, w.calls ++ [⟨site, true⟩]⟩) : Eff.Keeps I (statement faults site run) :=
  fun w hw => wp_statement (hran w _ hw) fun _ _ => hnot w hw

/-! ## Programs that only read -/

/-- The state is `s`, and the outcome is `expected` or what the environment threw. -/
def Yields (faults : Nat → Fault ε) (s : σ) (expected r : Except ε α) (w : World σ κ) : Prop :=
  w.state = s ∧ (r = expected ∨ threw r = true ∧ ∃ n, faults n ≠ .none)

section Yields

variable {faults : Nat → Fault ε} {site : κ} {s : σ} {w : World σ κ} {expected r : Except ε α}

theorem Yields.expected_ok {a : α} (h : Yields faults s expected (.ok a) w) : expected = .ok a := by
  rcases h.2 with h | ⟨hthrew, -⟩
  · exact h.symm
  · cases hthrew

/-- The environment throws nothing. -/
theorem Yields.eq_of_none (h : Yields (fun _ => .none) s expected r w) : r = expected := by
  rcases h.2 with h | ⟨-, n, hn⟩
  · exact h
  · exact absurd rfl hn

theorem wp_call_yields {run : σ → Except ε α × σ} (hs : w.state = s) (hrun : run s = (expected, s)) :
    Eff.wp (call faults site run) (Yields faults s expected) w := by
  subst hs
  refine wp_call ?_ ?_
  · rw [hrun]
    exact ⟨rfl, Or.inl rfl⟩
  · intro tookEffect e h
    refine ⟨?_, Or.inr ⟨rfl, w.calls.length, by rw [h]; simp⟩⟩
    rw [hrun]
    cases tookEffect <;> rfl

theorem wp_lift_yields (hs : w.state = s) : Eff.wp (Eff.lift expected) (Yields faults s expected) w := ⟨hs, Or.inl rfl⟩

theorem wp_bind_yields {m : Eff (World σ κ) ε α} {f : α → Eff (World σ κ) ε β} {y : Except ε β}
    (hm : m.wp (Yields faults s expected) w) (herror : ∀ e, expected = .error e → y = .error e)
    (hok : ∀ a v, expected = .ok a → v.state = s → (f a).wp (Yields faults s y) v) :
    (m >>= f).wp (Yields faults s y) w := by
  rw [Eff.wp_bind]
  refine Eff.wp_mono hm ?_
  intro r v hr
  rcases r with e | a
  · exact ⟨hr.1, hr.2.imp (fun h => (herror e h.symm).symm) fun h => ⟨rfl, h.2⟩⟩
  · exact hok a v hr.expected_ok hr.1

theorem wp_finally_yields {m : Eff (World σ κ) ε α} {run : σ → Except ε β × σ} {b : β}
    (hm : m.wp (Yields faults s expected) w) (hrun : run s = (.ok b, s)) :
    (tryFinally m (call faults site run)).wp (Yields faults s expected) w := by
  rw [Eff.wp_finally]
  refine Eff.wp_mono hm ?_
  intro r v ⟨hv, hr⟩
  refine Eff.wp_mono (wp_call_yields hv hrun) ?_
  intro r' v' ⟨hv', hr'⟩
  rcases r' with e | a
  · rcases hr' with h | ⟨-, hn⟩
    · cases h
    · exact ⟨hv', Or.inr ⟨rfl, hn⟩⟩
  · exact ⟨hv', hr⟩

end Yields

end MythLab.Lib
