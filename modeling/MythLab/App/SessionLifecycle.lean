/-
  MythLab.App.SessionLifecycle — the sessions of a terminal window over whole runs.

  In every state that is reached: one run and one open session at most; each session
  disposed of by the run that opened it, once, which an active run can always come to; an
  input written to the session it was queued for; and after the close neither run nor
  session, then and ever after.
-/
import MythLab.App.RunEnds

namespace MythLab.App.TerminalSessions

open Lib Dotnet Function

variable {s t : State}

/-- `connect` has returned the session, and its `DisposeAsync` has not come to its end. -/
def State.Open (s : State) (i : Nat) : Prop := i < s.sessions ∧ (s.disposals i = [] ∨ s.session = some i)

theorem Owns.field_of_open (h : Owns s) {i : Nat} (hi : s.Open i) : s.session = some i := by
  obtain ⟨hlt, hnot | hfield⟩ := hi
  · have hkept := h.kept i hlt
    unfold State.Kept at hkept
    rw [hnot] at hkept
    split at hkept
    · exact hkept.elim
    · exact hkept.1
    · exact hkept.1
    · exact nomatch hkept.2
  · exact hfield

theorem Owns.disposals_cases (h : Owns s) {i : Nat} (hi : i < s.sessions) :
    s.disposals i = [] ∨ s.disposals i = [s.openedBy i] := by
  have hkept := h.kept i hi
  unfold State.Kept at hkept
  split at hkept
  · exact hkept.elim
  · exact Or.inl hkept.2
  · exact Or.inr hkept.2
  · exact Or.inr hkept.2

/-- A session whose run has ended is not open. -/
theorem Owns.of_ended (h : Owns s) {i : Nat} (hi : i < s.sessions) (he : s.phase (s.openedBy i) = .ended) :
    s.session ≠ some i ∧ s.disposals i = [s.openedBy i] := by
  have hkept := h.kept i hi
  unfold State.Kept at hkept
  rw [he] at hkept
  exact hkept

theorem drained_leads (hs : window.Reach s) (hd : s.drained = true) (h : window.Leads s t) :
    t.drained = true ∧ t.runs = s.runs := by
  have hall : window.Reach t ∧ t.drained = true ∧ t.runs = s.runs := by
    refine h.inv (I := fun t => window.Reach t ∧ t.drained = true ∧ t.runs = s.runs) ?_ ⟨hs, hd, rfl⟩
    rintro t e t' ⟨ht, hd, hruns⟩ hstep
    obtain ⟨hd', hruns'⟩ := (inv_of_reach ht).turns.drained_step hd (step_change hstep)
    exact ⟨Machine.reach_step e ht hstep, hd', hruns'.trans hruns⟩
  exact hall.2

/-- Steps keep a session and the run that opened it. -/
theorem openedBy_leads (h : window.Leads s t) (hs : window.Reach s) {i : Nat} (hi : i < s.sessions) :
    i < t.sessions ∧ t.openedBy i = s.openedBy i := by
  have hall : window.Reach t ∧ i < t.sessions ∧ t.openedBy i = s.openedBy i := by
    refine h.inv (I := fun t => window.Reach t ∧ i < t.sessions ∧ t.openedBy i = s.openedBy i) ?_ ⟨hs, hi, rfl⟩
    rintro t e t' ⟨ht, hlt, hby⟩ hstep
    obtain ⟨hlt', hby'⟩ := (step_change hstep).openedBy hlt
    exact ⟨Machine.reach_step e ht hstep, hlt', hby'.trans hby⟩
  exact hall.2

/-- One run at a time and one session; each session is disposed of by its own run, once, and
    has been when the run has ended, which it always can; an input goes to the session it was
    queued for; a window that has closed has neither run nor session, and never will. -/
theorem sessions_keep_to_their_runs (h : window.Reach s) :
    (∀ r r', s.phase r ≠ .ended → s.phase r' ≠ .ended → r = r') ∧ (∀ i j, s.Open i → s.Open j → i = j) ∧
      (∀ i < s.sessions, (s.disposals i = [] ∨ s.disposals i = [s.openedBy i]) ∧
        (s.phase (s.openedBy i) = .ended → s.disposals i = [s.openedBy i]) ∧
        ∃ t, window.Leads s t ∧ t.phase (s.openedBy i) = .ended ∧ t.disposals i = [s.openedBy i]) ∧
      (∀ i < s.sessions, ∀ q ∈ s.written i, q.session = i) ∧
      (s.drained = true → ∀ t, window.Leads s t →
        t.runs = s.runs ∧ (∀ r, t.phase r = .ended) ∧ ∀ i, ¬ t.Open i) := by
  have hinv := inv_of_reach h
  refine ⟨fun r r' => hinv.turns.eq_of_active, ?_, ?_, hinv.inputs.written, ?_⟩
  · intro i j hi hj
    exact Option.some.inj ((hinv.owns.field_of_open hi).symm.trans (hinv.owns.field_of_open hj))
  · intro i hi
    refine ⟨hinv.owns.disposals_cases hi, fun he => (hinv.owns.of_ended hi he).2, ?_⟩
    obtain ⟨t, ht, hended⟩ := run_can_end h (s.openedBy i)
    obtain ⟨hlt, hby⟩ := openedBy_leads ht h hi
    have hdisposed := ((inv_of_reach (h.leads ht)).owns.of_ended hlt (by rw [hby]; exact hended)).2
    exact ⟨t, ht, hended, hdisposed.trans (by rw [hby])⟩
  · intro hd t ht
    obtain ⟨hdt, hruns⟩ := drained_leads h hd ht
    have hinvt := inv_of_reach (h.leads ht)
    have hended := (hinvt.turns.drained hdt).2
    refine ⟨hruns, hended, fun i hi => ?_⟩
    exact (hinvt.owns.of_ended hi.1 (hended _)).1 (hinvt.owns.field_of_open hi)

/-- A session that was written to, and a window that has closed. -/
theorem sessions_keep_to_their_runs_closed :
    ∃ s, window.Reach s ∧ s.drained = true ∧ s.written 0 = [⟨0, .bytes [97]⟩] ∧
      (∀ i j, s.Open i → s.Open j → i = j) ∧ s.disposals 0 = [0] ∧ ∀ t, window.Leads s t → t.runs = 1 := by
  obtain ⟨log, s, hr, -, hp⟩ := Machine.exists_run window (fun _ _ => True)
    (fun s => s.drained && s.written 0 = [⟨0, .bytes [97]⟩] && s.runs = 1 && s.sessions = 1 && s.openedBy 0 = 0)
    [.reconnect, .stopReturns 0, .restart 0, .message (.ready 80 24), .initialized true, .prepared 0 true,
      .connected 0 true, .resized 0 true, .message (.input (str "a")), .writerTakes 0, .writerReturns 0 true,
      .close, .read 0 none true, .disposed 0, .writerStops 0, .joined 0, .stopReturns 1, .closed 1] rfl
    (by decide +kernel)
  simp only [Bool.and_eq_true, decide_eq_true_eq] at hp
  obtain ⟨⟨⟨⟨hd, hw⟩, hruns⟩, hsessions⟩, hopened⟩ := hp
  obtain ⟨-, hone, hdisposed, -, hclosed⟩ := sessions_keep_to_their_runs ⟨log, hr⟩
  have hended := (hclosed hd s .refl).2.1
  refine ⟨s, ⟨log, hr⟩, hd, hw, hone, ?_, fun t ht => (hclosed hd t ht).1.trans hruns⟩
  have hown := (hdisposed 0 (by omega)).2.1 (hended _)
  rwa [hopened] at hown

end MythLab.App.TerminalSessions
