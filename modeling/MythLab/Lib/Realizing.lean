/-
  MythLab.Lib.Realizing — a program on one state that does what another does on another
  state, under some faults of its calls.

  `Realizes R m n Q`: started from states that `R` relates, `m` ends as `n` does when the
  environment makes certain of `n`'s calls throw, with the same calls made, and `Q` relates
  the states. So what is proved of `n` for any faults holds of `m`. The faults are those of
  the calls `m` makes, in their order, which is what lets the rules compose them.
-/
import MythLab.Lib.Effect

namespace MythLab.Lib

variable {σ τ κ φ ε α β : Type}

theorem Eff.bind_ok {m : Eff σ ε α} {f : α → Eff σ ε β} {s s' : σ} {a : α} (h : m s = (.ok a, s')) :
    (m >>= f) s = f a s' := by
  simp only [bind]
  rw [h]

theorem Eff.tryCatch_ok {m : Eff σ ε α} {f : ε → Eff σ ε α} {s s' : σ} {a : α} (h : m s = (.ok a, s')) :
    tryCatch m f s = (.ok a, s') := by
  have hr : (tryCatch m f).wp (fun r s'' => (r, s'') = (.ok a, s')) s := by
    rw [wp_tryCatch, wp, h]
  exact hr

theorem Eff.tryCatch_error {m : Eff σ ε α} {f : ε → Eff σ ε α} {s s' : σ} {e : ε} (h : m s = (.error e, s')) :
    tryCatch m f s = f e s' := by
  have hr : (tryCatch m f).wp (fun r s'' => (r, s'') = f e s') s := by
    rw [wp_tryCatch, wp, h]
    rfl
  exact hr

theorem Eff.tryFinally_modify {m : Eff σ ε α} {f : σ → σ} (s : σ) :
    tryFinally m (Eff.modify f) s = ((m s).1, f (m s).2) := by
  have hr : ∀ r, (m s).1 = r → (tryFinally m (Eff.modify f)).wp (fun r' s' => r' = r ∧ s' = f (m s).2) s := by
    intro r hr
    rw [Eff.wp_finally]
    exact ⟨hr, rfl⟩
  exact Prod.ext (hr _ rfl).1 (hr _ rfl).2

theorem call_runs {faults : Nat → Fault ε} {site : κ} {run : σ → Except ε α × σ} {w : World σ κ}
    (h : faults w.calls.length = .none) : call faults site run w =
      ((run w.state).1, ⟨(run w.state).2, w.calls ++ [⟨site, threw (run w.state).1⟩]⟩) := by
  unfold call
  rw [h]

/-- From its `n`-th call on the environment does these, in this order. -/
def Occurs (faults : Nat → Fault φ) (n : Nat) (fs : List (Fault φ)) : Prop :=
  ∀ i f, fs[i]? = some f → faults (n + i) = f

theorem Occurs.head {faults : Nat → Fault φ} {n : Nat} {f : Fault φ} (h : Occurs faults n [f]) : faults n = f := h 0 f rfl

theorem occurs_append {faults : Nat → Fault φ} {n : Nat} {fs gs : List (Fault φ)} (h : Occurs faults n (fs ++ gs)) :
    Occurs faults n fs ∧ Occurs faults (n + fs.length) gs := by
  refine ⟨?_, ?_⟩
  · intro i f hi
    have hlt : i < fs.length := (List.getElem?_eq_some_iff.mp hi).1
    exact h i f (by rw [List.getElem?_append_left hlt, hi])
  · intro i f hi
    rw [Nat.add_assoc]
    exact h (fs.length + i) f (by rw [List.getElem?_append_right (Nat.le_add_right _ _), Nat.add_sub_cancel_left, hi])

/-- An environment in which they occur. -/
theorem exists_occurs (fs : List (Fault φ)) : ∃ faults : Nat → Fault φ, Occurs faults 0 fs := by
  refine ⟨fun n => fs[n]?.getD .none, ?_⟩
  intro i f hi
  rw [Nat.zero_add]
  exact (congrArg (Option.getD · .none) hi : _)

/-- How `m` ended and how `n` does under the faults `fs`: alike, with the same calls made. -/
structure Ends (Q : Except ε α → σ → τ → Prop) (n : (Nat → Fault φ) → Except ε α × World τ κ) (made : Nat)
    (m : Except ε α × World σ κ) (fs : List (Fault φ)) (v : World τ κ) : Prop where
  result : ∀ faults, Occurs faults made fs → n faults = (m.1, v)
  calls : v.calls = m.2.calls
  length : m.2.calls.length = made + fs.length
  states : Q m.1 m.2.state v.state

def Realizes (R : σ → τ → Prop) (m : Eff (World σ κ) ε α) (n : (Nat → Fault φ) → Eff (World τ κ) ε α)
    (Q : Except ε α → σ → τ → Prop) : Prop :=
  ∀ w v, R w.state v.state → v.calls = w.calls → ∃ fs v', Ends Q (fun faults => n faults v) w.calls.length (m w) fs v'

namespace Realizes

section Rules

variable {R : σ → τ → Prop} {Q S : Except ε α → σ → τ → Prop} {m : Eff (World σ κ) ε α}
  {n : (Nat → Fault φ) → Eff (World τ κ) ε α}

theorem mono (h : Realizes R m n Q) (hQ : ∀ r s t, Q r s t → S r s t) : Realizes R m n S := by
  intro w v hR hcalls
  obtain ⟨fs, v', hends⟩ := h w v hR hcalls
  exact ⟨fs, v', hends.result, hends.calls, hends.length, hQ _ _ _ hends.states⟩

theorem weaken {R' : σ → τ → Prop} (h : Realizes R m n Q) (hR : ∀ s t, R' s t → R s t) : Realizes R' m n Q :=
  fun w v hw hcalls => h w v (hR _ _ hw) hcalls

/-- A fact that the states are not part of. -/
theorem assume {P : Prop} (h : P → Realizes R m n Q) : Realizes (fun s t => R s t ∧ P) m n Q :=
  fun w v hR hcalls => h hR.2 w v hR.1 hcalls

theorem lift (r : Except ε α) (h : ∀ s t, R s t → Q r s t) :
    Realizes R (Eff.lift r : Eff (World σ κ) ε α) (fun _ : Nat → Fault φ => Eff.lift r) Q :=
  fun _ v hR hcalls => ⟨[], v, fun _ _ => rfl, hcalls, rfl, h _ _ hR⟩

/-- Steps of the two states alone. -/
theorem modify {Q : Except ε Unit → σ → τ → Prop} {f : σ → σ} {g : τ → τ} (h : ∀ s t, R s t → Q (.ok ()) (f s) (g t)) :
    Realizes R (Eff.modify fun w : World σ κ => { w with state := f w.state })
      (fun _ : Nat → Fault φ => Eff.modify fun v : World τ κ => { v with state := g v.state }) Q :=
  fun _ v hR hcalls => ⟨[], { v with state := g v.state }, fun _ _ => rfl, hcalls, rfl, h _ _ hR⟩

/-- What is read of the two states alike. -/
theorem read {f : σ → α} {g : τ → α} (hfg : ∀ s t, R s t → g t = f s) (h : ∀ s t, R s t → Q (.ok (f s)) s t) :
    Realizes R (do let w : World σ κ ← Eff.get; pure (f w.state))
      (fun _ : Nat → Fault φ => do let v : World τ κ ← Eff.get; pure (g v.state)) Q :=
  fun _ v hR hcalls => ⟨[], v, fun _ _ => congrArg (fun a => (Except.ok a, v)) (hfg _ _ hR), hcalls, rfl, h _ _ hR⟩

theorem bind {f : α → Eff (World σ κ) ε β} {g : (Nat → Fault φ) → α → Eff (World τ κ) ε β}
    {S : Except ε β → σ → τ → Prop} (hm : Realizes R m n Q)
    (hf : ∀ a, Realizes (Q (.ok a)) (f a) (fun faults => g faults a) S)
    (herror : ∀ e s t, Q (.error e) s t → S (.error e) s t) :
    Realizes R (m >>= f) (fun faults => n faults >>= g faults) S := by
  intro w v hR hcalls
  obtain ⟨fs, v', hends⟩ := hm w v hR hcalls
  rcases hmw : m w with ⟨e | a, w'⟩
  · rw [hmw] at hends
    refine ⟨fs, v', ?_⟩
    rw [Eff.bind_error hmw]
    exact ⟨fun faults hoccurs => Eff.bind_error (hends.result faults hoccurs), hends.calls, hends.length,
      herror _ _ _ hends.states⟩
  · rw [hmw] at hends
    obtain ⟨gs, v'', hends'⟩ := hf a w' v' hends.states hends.calls
    refine ⟨fs ++ gs, v'', ?_⟩
    rw [Eff.bind_ok hmw]
    refine ⟨?_, hends'.calls, ?_, hends'.states⟩
    · intro faults hoccurs
      obtain ⟨hfs, hgs⟩ := occurs_append hoccurs
      exact (Eff.bind_ok (hends.result faults hfs)).trans (hends'.result faults (by rw [hends.length]; exact hgs))
    · rw [hends'.length, hends.length, List.length_append, Nat.add_assoc]

theorem tryCatch {f : ε → Eff (World σ κ) ε α} {g : (Nat → Fault φ) → ε → Eff (World τ κ) ε α} (hm : Realizes R m n Q)
    (hf : ∀ e, Realizes (Q (.error e)) (f e) (fun faults => g faults e) S)
    (hok : ∀ a s t, Q (.ok a) s t → S (.ok a) s t) :
    Realizes R (MonadExceptOf.tryCatch m f) (fun faults => MonadExceptOf.tryCatch (n faults) (g faults)) S := by
  intro w v hR hcalls
  obtain ⟨fs, v', hends⟩ := hm w v hR hcalls
  rcases hmw : m w with ⟨e | a, w'⟩
  · rw [hmw] at hends
    obtain ⟨gs, v'', hends'⟩ := hf e w' v' hends.states hends.calls
    have hrun : MonadExceptOf.tryCatch m f w = f e w' := Eff.tryCatch_error hmw
    refine ⟨fs ++ gs, v'', ?_⟩
    rw [hrun]
    refine ⟨?_, hends'.calls, ?_, hends'.states⟩
    · intro faults hoccurs
      obtain ⟨hfs, hgs⟩ := occurs_append hoccurs
      exact (Eff.tryCatch_error (hends.result faults hfs)).trans (hends'.result faults (by rw [hends.length]; exact hgs))
    · rw [hends'.length, hends.length, List.length_append, Nat.add_assoc]
  · rw [hmw] at hends
    have hrun : MonadExceptOf.tryCatch m f w = (.ok a, w') := Eff.tryCatch_ok hmw
    refine ⟨fs, v', ?_⟩
    rw [hrun]
    exact ⟨fun faults hoccurs => Eff.tryCatch_ok (hends.result faults hoccurs), hends.calls, hends.length,
      hok _ _ _ hends.states⟩

/-- A finalizer that changes the two states alone. -/
theorem finalizes {f : σ → σ} {g : τ → τ} (hm : Realizes R m n Q) (hf : ∀ r s t, Q r s t → S r (f s) (g t)) :
    Realizes R (tryFinally m (Eff.modify fun w : World σ κ => { w with state := f w.state }))
      (fun faults => tryFinally (n faults) (Eff.modify fun v : World τ κ => { v with state := g v.state })) S := by
  intro w v hR hcalls
  obtain ⟨fs, v', hends⟩ := hm w v hR hcalls
  refine ⟨fs, { v' with state := g v'.state }, ?_⟩
  rw [Eff.tryFinally_modify]
  refine ⟨?_, hends.calls, hends.length, hf _ _ _ hends.states⟩
  intro faults hoccurs
  exact (Eff.tryFinally_modify v).trans (by rw [hends.result faults hoccurs])

theorem ite {c : Prop} [Decidable c] {m' : Eff (World σ κ) ε α} {n' : (Nat → Fault φ) → Eff (World τ κ) ε α}
    (hm : c → Realizes R m n Q) (hm' : ¬ c → Realizes R m' n' Q) :
    Realizes R (if c then m else m') (fun faults => if c then n faults else n' faults) Q := by
  by_cases h : c
  · simp only [if_pos h]
    exact hm h
  · simp only [if_neg h]
    exact hm' h

theorem provided {c : Prop} [Decidable c] {a : α} (hm : c → Realizes R m n Q) (ha : ¬ c → ∀ s t, R s t → Q (.ok a) s t) :
    Realizes R (Eff.provided c m a) (fun faults => Eff.provided c (n faults) a) Q :=
  ite hm fun h => lift (.ok a) (ha h)

end Rules

section Calls

variable {R : σ → τ → Prop} {Q : Except ε α → σ → τ → Prop} {site : κ} {run : σ → Except ε α × σ}
  {abstract : τ → Except ε α × τ} {toExn : φ → ε}

/-- A call that the same environment fails in both programs. -/
theorem call (faults : Nat → Fault φ) (hrun : ∀ s t, R s t → (abstract t).1 = (run s).1 ∧ Q (run s).1 (run s).2 (abstract t).2)
    (hthrows : ∀ s t e, R s t → Q (.error e) s t ∧ Q (.error e) (run s).2 (abstract t).2) :
    Realizes R (Lib.call (fun n => (faults n).map toExn) site run)
      (fun faults => Lib.call (fun n => (faults n).map toExn) site abstract) Q := by
  intro w v hR hcalls
  have hhead (others : Nat → Fault φ) (h : Occurs others w.calls.length [faults w.calls.length]) :
      (others v.calls.length).map toExn = (faults w.calls.length).map toExn := by
    rw [hcalls, h.head]
  rcases hfault : (faults w.calls.length).map toExn with _ | ⟨tookEffect, e⟩
  · obtain ⟨hresult, hQ⟩ := hrun _ _ hR
    refine ⟨[faults w.calls.length], ⟨(abstract v.state).2, v.calls ++ [⟨site, threw (abstract v.state).1⟩]⟩, ?_⟩
    rw [call_runs hfault]
    refine ⟨?_, by rw [hcalls, hresult], by simp, hQ⟩
    intro others hoccurs
    exact (call_runs ((hhead others hoccurs).trans hfault)).trans (by rw [hresult])
  · obtain ⟨hbefore, hafter⟩ := hthrows _ _ e hR
    refine ⟨[faults w.calls.length],
      ⟨if tookEffect then (abstract v.state).2 else v.state, v.calls ++ [⟨site, true⟩]⟩, ?_⟩
    rw [call_throws hfault]
    refine ⟨fun others hoccurs => call_throws ((hhead others hoccurs).trans hfault), by rw [hcalls], by simp, ?_⟩
    cases tookEffect
    · exact hbefore
    · exact hafter

/-- A call of a store that is what the abstract one does, or throws with its state as before. -/
theorem storeCall (h : ∀ s t, R s t → ((abstract t).1 = (run s).1 ∧ Q (run s).1 (run s).2 (abstract t).2) ∨
      ∃ e, (run s).1 = .error (toExn e) ∧ Q (run s).1 (run s).2 t) :
    Realizes R (Lib.call (fun _ => .none) site run) (fun faults => Lib.call (fun n => (faults n).map toExn) site abstract) Q := by
  intro w v hR hcalls
  have hrun : Lib.call (fun _ => .none) site run w =
      ((run w.state).1, ⟨(run w.state).2, w.calls ++ [⟨site, threw (run w.state).1⟩]⟩) := rfl
  rw [hrun]
  rcases h _ _ hR with ⟨hresult, hQ⟩ | ⟨e, he, hQ⟩
  · refine ⟨[.none], ⟨(abstract v.state).2, v.calls ++ [⟨site, threw (abstract v.state).1⟩]⟩, ?_⟩
    refine ⟨?_, by rw [hcalls, hresult], by simp, hQ⟩
    intro faults hoccurs
    have hfault : (faults v.calls.length).map toExn = .none := by
      rw [hcalls, hoccurs.head]
      rfl
    exact (call_runs hfault).trans (by rw [hresult])
  · refine ⟨[.throws false e], ⟨v.state, v.calls ++ [⟨site, true⟩]⟩, ?_⟩
    refine ⟨?_, by rw [hcalls, he]; rfl, by simp, hQ⟩
    intro faults hoccurs
    have hfault : (faults v.calls.length).map toExn = .throws false (toExn e) := by
      rw [hcalls, hoccurs.head]
      rfl
    exact (call_throws hfault).trans (by rw [he]; rfl)

end Calls

end Realizes

end MythLab.Lib
