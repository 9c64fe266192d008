/-
  MythLab.App.WindowRefinement — the terminal window in full does what the shutdown counts on.

  `App.TerminalWindow` keeps of a window only whether a run goes on, the browser's
  initialization and the flags. Every step of the window in full is matched by steps of
  that one (`Shows.step`), so whatever it reaches looks like something that one reaches
  (`window_refines`). Which token is cancelled is left open: no step there depends on it.
-/
import MythLab.App.TerminalWindow
import MythLab.App.SessionOwners

namespace MythLab.App.TerminalWindow

open Lib

def machine : Machine State Event := ⟨(· = shown), step⟩

end MythLab.App.TerminalWindow

namespace MythLab.App.TerminalSessions

open Lib Dotnet Function

variable {s s' : State} {e : Event} {t : TerminalWindow.State}

def Initialization.outline : Initialization → TerminalWindow.Initialization
  | .notStarted => .notStarted
  | .running => .running
  | .ended _ => .ended

theorem outline_started (i : Initialization) :
    (if i.outline = .notStarted then .running else i.outline) = (if i = .notStarted then .running else i).outline := by
  cases i <;> rfl

/-- What the shutdown sees of a window. -/
structure Shows (s : State) (t : TerminalWindow.State) : Prop where
  running : t.running = true ↔ ∃ r, s.phase r ≠ .ended
  initialization : t.initialization = s.initialization.outline
  restarting : t.restarting = s.restarting
  requiresReopen : t.requiresReopen = s.requiresReopen
  closing : t.closing = s.closing
  drained : t.drained = s.drained

theorem shows_shown : Shows shown TerminalWindow.shown where
  running := ⟨nofun, fun ⟨_, h⟩ => absurd rfl h⟩
  initialization := rfl
  restarting := rfl
  requiresReopen := rfl
  closing := rfl
  drained := rfl

theorem Shows.not_running (h : Shows s t) (hended : ∀ r, s.phase r = .ended) : t.running = false :=
  Bool.eq_false_iff.mpr fun hr => by
    obtain ⟨r, hr⟩ := h.running.mp hr
    exact hr (hended r)

/-- Steps of the outline that match. -/
def Matched (s' : State) (t : TerminalWindow.State) : Prop := ∃ t', TerminalWindow.machine.Leads t t' ∧ Shows s' t'

theorem Matched.one {u : TerminalWindow.State} {e : TerminalWindow.Event} (hs : TerminalWindow.step t e = some u)
    (h : Shows s' u) : Matched s' t := ⟨u, .single ⟨e, hs⟩, h⟩

theorem Shows.calm (h : Shows s t) (hc : Calm s s') : Matched s' t := by
  have hflags (b : Bool) (hb : b = true ↔ ∃ r, s'.phase r ≠ .ended) : Shows s' { t with running := b } :=
    ⟨hb, h.initialization.trans (congrArg _ hc.initialization.symm), h.restarting.trans hc.restarting.symm,
      h.requiresReopen.trans hc.requiresReopen.symm, h.closing.trans hc.closing.symm, h.drained.trans hc.drained.symm⟩
  by_cases hrun : t.running = true
  · by_cases hactive : ∃ r, s'.phase r ≠ .ended
    · have hsame := hflags true ⟨fun _ => hactive, fun _ => rfl⟩
      rw [← hrun] at hsame
      exact ⟨t, .refl, hsame⟩
    · -- The run has ended.
      refine Matched.one (e := .runEnds) ?_ (hflags false ⟨nofun, fun hr => absurd hr hactive⟩)
      simp only [TerminalWindow.step, hrun, if_true]
  · have hnone : ¬ ∃ r, s'.phase r ≠ .ended := by
      rintro ⟨r, hr⟩
      exact hrun (h.running.mpr ⟨r, fun he => hr (hc.ended r he)⟩)
    have hsame := hflags false ⟨nofun, fun hr => absurd hr hnone⟩
    rw [← Bool.eq_false_iff.mpr hrun] at hsame
    exact ⟨t, .refl, hsame⟩

theorem Shows.restart (h : Shows s t) (ht : Turns s) {k : Nat} (hcaller : (s.stop k).caller = .reconnect)
    (hphase : (s.stop k).phase = .returned) : Matched (s.restart k) t := by
  have hended := (ht.turn hcaller hphase).1
  have hrunning := h.not_running hended
  have hrestarting : t.restarting = true :=
    h.restarting.trans (ht.pending k ⟨hcaller, by simp [hphase]⟩).1
  by_cases hc : s.closing = true
  · have hclosing : t.closing = true := h.closing.trans hc
    have hs : s.restart k = { s.setStop k .resumed with restarting := false } := if_pos hc
    rw [hs]
    refine Matched.one (e := .restart) (u := { t with restarting := false }) ?_ { h with restarting := rfl }
    simp only [TerminalWindow.step, hrestarting, hrunning, hclosing, and_self, if_true]
  · have hclosing : t.closing = false := h.closing.trans (Bool.eq_false_iff.mpr hc)
    refine Matched.one (e := .restart) (u := { t with
      restarting := false
      running := true
      cancelled := false
      initialization := if t.initialization = .notStarted then .running else t.initialization }) ?_ ?_
    · simp only [TerminalWindow.step, hrestarting, hrunning, hclosing, and_self, if_true, Bool.false_eq_true, if_false]
    · have hs : s.restart k = { s.setStop k .resumed with restarting := false }.startRun := if_neg hc
      have hactive : (s.restart k).phase s.runs ≠ .ended := by
        simp [hs, State.startRun, State.setStop]
      refine ⟨⟨fun _ => ⟨s.runs, hactive⟩, fun _ => rfl⟩, ?_, ?_, ?_, ?_, ?_⟩
      · rw [hs, h.initialization]
        exact outline_started s.initialization
      · rw [hs]; rfl
      · rw [hs]; exact h.requiresReopen
      · rw [hs]; exact h.closing
      · rw [hs]; exact h.drained

/-- Every step of the window is matched. -/
theorem Shows.step (h : Shows s t) (ht : Turns s) (hc : Change s e s') : Matched s' t := by
  rcases hc.calm with hcalm | houter
  · exact h.calm hcalm
  · obtain ⟨f, -, hf⟩ := s.cancel_eq
    cases hc with
    | refused => exact ⟨t, .refl, h⟩
    | reconnect hclosing hrestarting hreopen =>
      unfold State.beginStop
      rw [hf]
      refine Matched.one (e := .reconnect) (u := { t with restarting := true, cancelled := true }) ?_
        { h with restarting := rfl }
      simp only [TerminalWindow.step, h.closing, h.restarting, h.requiresReopen, hclosing, hrestarting, hreopen,
        Bool.or_self, Bool.false_eq_true, if_false]
    | disconnect =>
      unfold State.beginStop
      rw [hf]
      exact Matched.one (e := .disconnect) rfl { h with }
    | close hclosing =>
      unfold State.beginStop
      rw [hf]
      refine Matched.one (e := .close) (u := { t with closing := true, cancelled := true }) ?_ { h with closing := rfl }
      simp only [TerminalWindow.step, TerminalWindow.closeSession, h.closing, hclosing, Bool.false_eq_true, if_false]
    | stopReturns => exact ⟨t, .refl, { h with }⟩
    | restart hcaller hp => exact h.restart ht hcaller hp
    | @closed k hcaller hp hinit =>
      by_cases hd : s.drained = true
      · exact ⟨t, .refl, { h with drained := h.drained.trans hd }⟩
      · have hclosed := ht.closed hcaller hp
        have hrunning := h.not_running (hclosed.drained rfl).2
        have hclosing : t.closing = true := h.closing.trans (ht.closes k hcaller).1
        have hdrained : t.drained = false := h.drained.trans (Bool.eq_false_iff.mpr hd)
        have hended : t.initialization ≠ .running := by
          rw [h.initialization]
          cases hi : s.initialization with
          | running => exact absurd hi hinit
          | notStarted | ended => simp [Initialization.outline]
        refine Matched.one (e := .closed) (u := { t with drained := true }) ?_ { h with drained := rfl }
        simp only [TerminalWindow.step, hclosing, hdrained, hrunning, ne_eq, hended, not_false_eq_true, and_self, if_true]
    | @initialized ok hrun =>
      have hrunning : t.initialization = .running := h.initialization.trans (congrArg _ hrun)
      have hfirst : TerminalWindow.step t .initialized = some { t with initialization := .ended } := by
        simp only [TerminalWindow.step, hrunning, if_true]
      cases ok with
      | true =>
        refine Matched.one hfirst { h with initialization := rfl, requiresReopen := ?_ }
        exact h.requiresReopen.trans (Bool.or_false _).symm
      | false =>
        refine ⟨_, (Relation.ReflTransGen.single ⟨.initialized, hfirst⟩).tail ⟨.rendererFails, rfl⟩, ?_⟩
        exact { h with initialization := rfl, requiresReopen := (Bool.or_true _).symm }
    | rendererFails =>
      rw [hf]
      exact Matched.one (e := .rendererFails) rfl { h with requiresReopen := rfl }
    | writerFails _ he => rcases he with rfl | rfl <;> cases houter
    | _ => cases houter

/-- A window looks like one that the shutdown knows. -/
theorem window_refines (h : window.Reach s) : ∃ t, TerminalWindow.machine.Reach t ∧ Shows s t := by
  refine h.simulates ?_ ?_
  · rintro s rfl
    exact ⟨TerminalWindow.shown, rfl, shows_shown⟩
  · intro s e s' t hs ht hstep
    exact ht.step (inv_of_reach hs).turns (step_change hstep)

end MythLab.App.TerminalSessions
