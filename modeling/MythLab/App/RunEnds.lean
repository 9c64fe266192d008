/-
  MythLab.App.RunEnds — a run can always come to its end.

  The token in the field `cancellation` is that of the run that has not ended, and a run
  past its `finally` has cancelled it (`Tokens`): its write loop then ends too. So from
  whatever a run waits for there are steps to its end (`run_can_end`): the sessions and the
  browser have to answer, with whatever they answer.
-/
import MythLab.App.SessionOwners

namespace MythLab.App.TerminalSessions

open Lib Dotnet Function

variable {s s' t : State} {e : Event}

/-! ## The tokens of the runs -/

structure Tokens (s : State) : Prop where
  live : ∀ r, s.phase r ≠ .ended → s.cancellation = some r
  current : ∀ c, s.cancellation = some c → s.running = some c
  stopping : ∀ k c, (s.stop k).stopping = some c → (s.stop k).task = some c
  past : ∀ r, s.phase r = .disposing ∨ s.phase r = .joining → s.cancelled r = true

theorem tokens_shown : Tokens shown where
  live _ h := absurd rfl h
  current _ h := nomatch h
  stopping _ _ h := nomatch h
  past _ h := by rcases h with h | h <;> cases h

theorem Tokens.calm (h : Tokens s) (hc : Calm s s')
    (hpast : ∀ r, s'.phase r = .disposing ∨ s'.phase r = .joining → s'.cancelled r = true) : Tokens s' where
  live r hr := hc.cancellation.trans (h.live r fun he => hr (hc.ended r he))
  current c hcc := hc.running.trans (h.current c (hc.cancellation.symm.trans hcc))
  stopping := by rw [hc.stop]; exact h.stopping
  past := hpast

/-- Tokens are cancelled, and the phases are as before. -/
theorem Tokens.past_mono (h : Tokens s) (hphase : s'.phase = s.phase)
    (hmono : ∀ r, s.cancelled r = true → s'.cancelled r = true) :
    ∀ r, s'.phase r = .disposing ∨ s'.phase r = .joining → s'.cancelled r = true := by
  intro r hr
  rw [hphase] at hr
  exact hmono r (h.past r hr)

/-- The run that has not ended changes its phase. -/
theorem Tokens.past_update (h : Tokens s) {r : Nat} {p : Phase} (hr : s.phase r ≠ .ended)
    (hphase : s'.phase = update s.phase r p) (hc : s.Cancels s'.cancelled p) :
    ∀ r', s'.phase r' = .disposing ∨ s'.phase r' = .joining → s'.cancelled r' = true := by
  intro r' hr'
  rw [hphase] at hr'
  by_cases hrr : r' = r
  · subst hrr
    rw [update_self] at hr'
    refine hc.2 ?_ r' (h.live r' hr)
    rcases hr' with hp | hp <;> simp [hp]
  · rw [update_of_ne hrr] at hr'
    exact hc.1 r' (h.past r' hr')

theorem Tokens.call (h : Tokens s) (caller : Caller) : Tokens (s.beginStop caller) := by
  obtain ⟨f, hc, hs⟩ := s.beginStop_eq caller
  rw [hs]
  refine ⟨h.live, h.current, ?_, h.past_mono rfl (hc .ended).1⟩
  intro k c hk
  by_cases hks : k = s.stops
  · subst hks
    simp only [update_self] at hk ⊢
    exact h.current c hk
  · simp only [update_of_ne hks] at hk ⊢
    exact h.stopping k c hk

theorem Tokens.setStop (h : Tokens s) (k : Nat) (p : StopPhase) : Tokens (s.setStop k p) := by
  refine ⟨h.live, h.current, ?_, h.past⟩
  intro l c hl
  by_cases hlk : l = k
  · subst hlk
    simp only [State.setStop, update_self] at hl ⊢
    exact h.stopping l c hl
  · simp only [State.setStop, update_of_ne hlk] at hl ⊢
    exact h.stopping l c hl

/-- The reference comparison: what is taken back is the token of a run that has ended. -/
theorem Tokens.stopReturns (h : Tokens s) {k : Nat} (hover : s.hasEnded (s.stop k).task) :
    Tokens (s.stopReturns k) := by
  refine { h.setStop k .returned with live := fun r hr => ?_, current := fun c hc => ?_ }
  · have hlive := h.live r hr
    refine (if_neg fun he => ?_).trans hlive
    exact hr (hover r (h.stopping k r (he.symm.trans hlive)))
  · simp only [State.stopReturns] at hc
    split at hc
    · cases hc
    · exact h.current c hc

theorem Tokens.restart (h : Tokens s) (ht : Turns s) {k : Nat} (hcaller : (s.stop k).caller = .reconnect)
    (hphase : (s.stop k).phase = .returned) : Tokens (s.restart k) := by
  have hended := (ht.turn hcaller hphase).1
  have hset := h.setStop k .resumed
  unfold State.restart
  split
  · exact { hset with }
  · have hother {r : Nat} (hr : r ≠ s.runs) : update s.phase s.runs .initializing r = .ended :=
      (update_of_ne hr _ _).trans (hended r)
    refine ⟨?_, fun _ => id, hset.stopping, ?_⟩
    · intro r hr
      by_cases hrn : r = s.runs
      · exact congrArg some hrn.symm
      · exact absurd (hother hrn) hr
    · intro r hr
      by_cases hrn : r = s.runs
      · simp only [State.startRun, State.setStop, hrn, update_self, reduceCtorEq, or_self] at hr
      · rcases hr with hr | hr
        · cases (hother hrn).symm.trans hr
        · cases (hother hrn).symm.trans hr

theorem Tokens.step (h : Tokens s) (ht : Turns s) (hc : Change s e s') : Tokens s' := by
  have hactive {r : Nat} {p : Phase} (hr : s.phase r = p) (hp : p ≠ .ended) : s.phase r ≠ .ended := hr ▸ hp
  have hcalm (ho : e.outer = false) : Calm s s' := hc.calm.resolve_right (by rw [ho]; nofun)
  cases hc with
  | refused => exact h
  | reconnect | close => exact { h.call _ with }
  | disconnect => exact h.call _
  | stopReturns _ hover => exact h.stopReturns hover
  | restart hcaller hp => exact h.restart ht hcaller hp
  | closed => exact { h.setStop _ _ with }
  | initialized => exact { h with }
  | rendererFails =>
    obtain ⟨f, hcancels, hf⟩ := s.cancel_eq
    rw [hf]
    exact ⟨h.live, h.current, h.stopping, h.past_mono rfl (hcancels .ended).1⟩
  | @message m =>
    refine h.calm (hcalm rfl) ?_
    obtain ⟨f, q, w, l, b, u, c, hmono, hs, -⟩ := s.onMessage_eq m
    rw [hs]
    exact h.past_mono rfl hmono
  | @paste text allowed =>
    refine h.calm (hcalm rfl) ?_
    obtain ⟨f, q, hmono, hs⟩ := s.paste_eq text allowed
    rw [hs]
    exact h.past_mono rfl hmono
  | @prepared r posted hr =>
    refine h.calm (hcalm rfl) ?_
    obtain ⟨f, d, p, u, hcancels, hs⟩ := s.prepared_eq r posted
    rw [hs]
    exact h.past_update (hactive hr nofun) rfl hcancels
  | @connected r ok hr =>
    refine h.calm (hcalm rfl) ?_
    cases ok with
    | false =>
      obtain ⟨f, d, p, -, hcancels, hs⟩ := s.unwind_eq r
      rw [show s.connected r false = s.unwind r from rfl, hs]
      exact h.past_update (hactive hr nofun) rfl hcancels
    | true => exact h.past_update (hactive hr nofun) rfl (s.cancels_self (p := .resizing) (by simp))
  | @resized r ok hr =>
    refine h.calm (hcalm rfl) ?_
    obtain ⟨f, d, p, w, hcancels, hs⟩ := s.resized_eq r ok
    rw [hs]
    exact h.past_update (hactive hr nofun) rfl hcancels
  | @read r i bytes posted hr =>
    refine h.calm (hcalm rfl) ?_
    obtain ⟨f, d, p, u, a, n, c, o, hcancels, hs⟩ := s.read_eq r i bytes posted
    rw [hs]
    exact h.past_update (hactive hr nofun) rfl hcancels
  | @waited r a late hr =>
    refine h.calm (hcalm rfl) ?_
    obtain ⟨f, d, p, hcancels, hs⟩ := s.waited_eq hr late
    rw [hs]
    exact h.past_update (hactive hr nofun) rfl hcancels
  | @disposed r hr =>
    refine h.calm (hcalm rfl) (h.past_update (hactive hr nofun) rfl ⟨fun _ => id, fun _ c hcc => ?_⟩)
    cases (h.live r (hactive hr nofun)).symm.trans hcc
    exact h.past r (Or.inl hr)
  | @joined r hr =>
    refine h.calm (hcalm rfl) (h.past_update (hactive hr nofun) rfl ⟨fun _ => id, fun _ c hcc => ?_⟩)
    cases (h.live r (hactive hr nofun)).symm.trans hcc
    exact h.past r (Or.inr hr)
  | writerTakes | writerReturns => exact { h with }
  | writerFails =>
    obtain ⟨f, hcancels, hf⟩ := s.cancel_eq
    simp only [State.writerFails, hf]
    exact ⟨h.live, h.current, h.stopping, h.past_mono rfl (hcancels .ended).1⟩

theorem tokens_of_reach (h : window.Reach s) : Tokens s := by
  have hall : Turns s ∧ Tokens s := by
    refine h.inv (I := fun s => Turns s ∧ Tokens s) ?_ ?_
    · rintro s rfl
      exact ⟨turns_shown, tokens_shown⟩
    · rintro s e s' ⟨ht, hk⟩ hs
      exact ⟨ht.step (step_change hs), hk.step ht (step_change hs)⟩
  exact hall.2

/-! ## The way to the end -/

/-- Steps lead from `s` to the end of the run. -/
def Ends (s : State) (r : Nat) : Prop := ∃ t, window.Leads s t ∧ t.phase r = .ended

variable {r : Nat}

theorem Ends.of_step (e : Event) (hs : step s e = some s') (h : Ends s' r) : Ends s r := by
  obtain ⟨t, ht, hr⟩ := h
  exact ⟨t, .head ⟨e, hs⟩ ht, hr⟩

theorem ends_of_ended (h : s.phase r = .ended) : Ends s r := ⟨s, .refl, h⟩

theorem ends_of_joined (h : s.phase r = .joining) (hw : ∀ w ∈ s.writer r, w.phase = .ended) : Ends s r := by
  refine Ends.of_step (.joined r) (if_pos ⟨h, hw⟩) (ends_of_ended (s.setPhase_self r _))

/-- The write loop ends with its token, or with what it is writing. -/
theorem ends_of_joining (hk : Tokens s) (h : s.phase r = .joining) : Ends s r := by
  obtain ⟨f, -, hf⟩ := s.cancel_eq
  have hfails (w : Writer) : (s.writerFails r w).phase r = .joining ∧
      ∀ v ∈ (s.writerFails r w).writer r, v.phase = .ended := by
    simp only [State.writerFails, hf, update_self]
    refine ⟨h, fun v hv => ?_⟩
    cases hv
    rfl
  cases hw : s.writer r with
  | none => exact ends_of_joined h (by simp [hw])
  | some w =>
    cases hp : w.phase with
    | idle =>
      refine Ends.of_step (.writerStops r) ?_ (ends_of_joined (hfails w).1 (hfails w).2)
      simp only [step, hw, hp, hk.past r (Or.inr h), and_self, if_true]
    | writing =>
      refine Ends.of_step (.writerReturns r false) ?_ (ends_of_joined (hfails w).1 (hfails w).2)
      simp only [step, hw, hp, if_true, Bool.false_eq_true, if_false]
    | ended =>
      refine ends_of_joined h ?_
      rw [hw]
      intro v hv
      cases hv
      exact hp

theorem ends_of_disposing (hk : Tokens s) (ht : Turns s) (h : s.phase r = .disposing) : Ends s r := by
  have hs : step s (.disposed r) = some (s.disposed r) := if_pos h
  refine Ends.of_step (.disposed r) hs ?_
  by_cases hw : s.writer r = none
  · refine ends_of_ended ?_
    simp only [State.disposed, State.leave, hw, if_true, State.setPhase_self]
  · refine ends_of_joining (hk.step ht (step_change hs)) ?_
    simp only [State.disposed, State.leave, hw, if_false, State.setPhase_self]

/-- A step to the `finally`. -/
theorem ends_of_unwind (hk : Tokens s) (ht : Turns s) (e : Event) (u : State) (hs : step s e = some (u.unwind r)) :
    Ends s r := by
  have hk' := hk.step ht (step_change hs)
  have ht' := ht.step (step_change hs)
  refine Ends.of_step e hs ?_
  obtain ⟨f, d, p, hp, -, heq⟩ := u.unwind_eq r
  have hphase : (u.unwind r).phase r = p := by simp only [heq, update_self]
  rcases hp with rfl | rfl | rfl
  · exact ends_of_disposing hk' ht' hphase
  · exact ends_of_joining hk' hphase
  · exact ends_of_ended hphase

/-- Where the browser is initialized, or the run is cancelled, the run need not connect. -/
theorem ends_of_initializing (hk : Tokens s) (ht : Turns s) (h : s.phase r = .initializing)
    (hinit : s.initialization ≠ .running) : Ends s r := by
  have hs : step s (.prepared r false) = some (s.prepared r false) := if_pos ⟨h, Or.inr hinit⟩
  by_cases hc : s.cancelled r ∨ s.initialization = .ended false
  · exact ends_of_unwind hk ht _ s (hs.trans (congrArg some (if_pos hc)))
  · exact ends_of_unwind hk ht _ (s.record .reset) (hs.trans (congrArg some (if_neg hc)))

/-- From whatever a run waits for, it can come to its end. -/
theorem run_can_end (h : window.Reach s) (r : Nat) : Ends s r := by
  have hk := tokens_of_reach h
  have ht := (inv_of_reach h).turns
  cases hr : s.phase r with
  | initializing =>
    by_cases hinit : s.initialization = .running
    · have hs : step s (.initialized false) = some { s with initialization := .ended false, requiresReopen := _ } :=
        if_pos ⟨hinit, by simp⟩
      have hc := step_change hs
      exact Ends.of_step _ hs (ends_of_initializing (hk.step ht hc) (ht.step hc) hr (by simp))
    · exact ends_of_initializing hk ht hr hinit
  | connecting => exact ends_of_unwind hk ht (.connected r false) s (if_pos hr)
  | resizing => exact ends_of_unwind hk ht (.resized r false) s (if_pos hr)
  | reading i =>
    refine ends_of_unwind hk ht (.read r none true) s ?_
    simp only [step, hr, State.read]
    exact if_pos (by simp)
  | acknowledging a =>
    refine ends_of_unwind hk ht (.waited r true) s ?_
    simp only [step, hr, State.waited, Bool.or_true, if_true]
  | disposing => exact ends_of_disposing hk ht hr
  | joining => exact ends_of_joining hk hr
  | ended => exact ends_of_ended hr

end MythLab.App.TerminalSessions
