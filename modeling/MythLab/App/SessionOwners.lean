/-
  MythLab.App.SessionOwners — each session with its run.

  The field `session` is the session of the run that has not ended, and a session whose run
  is past its disposal was disposed by that run, once (`Owns`). What a channel holds is for
  the session of its run, and so is the write loop (`Inputs`).
-/
import MythLab.App.RunTurns

namespace MythLab.App.TerminalSessions

open Lib Dotnet Function

variable {s s' t : State} {e : Event}

/-! ## The sessions and their runs -/

/-- How far a run is with its session. -/
inductive Stage where
  | before
  | held
  | disposing
  | after
  deriving DecidableEq, Repr

def Phase.stage : Phase → Stage
  | .initializing | .connecting => .before
  | .resizing | .reading _ | .acknowledging _ => .held
  | .disposing => .disposing
  | .joining | .ended => .after

theorem active_of_stage {p : Phase} (h : p.stage ≠ .after) : p ≠ .ended := fun he => h (he ▸ rfl)

/-- What holds of a session, as far as the run is that opened it. -/
def State.Kept (s : State) (i : Nat) : Prop :=
  match (s.phase (s.openedBy i)).stage with
  | .before => False
  | .held => s.session = some i ∧ s.disposals i = []
  | .disposing => s.session = some i ∧ s.disposals i = [s.openedBy i]
  | .after => s.session ≠ some i ∧ s.disposals i = [s.openedBy i]

structure Owns (s : State) : Prop where
  field : ∀ i, s.session = some i → i < s.sessions
  opener : ∀ i < s.sessions, s.openedBy i < s.runs
  kept : ∀ i < s.sessions, s.Kept i
  one : ∀ i < s.sessions, ∀ j < s.sessions, s.openedBy i = s.openedBy j → i = j
  reading : ∀ r i, s.phase r = .reading i → s.session = some i

theorem owns_shown : Owns shown where
  field _ h := nomatch h
  opener i h := absurd h (Nat.not_lt_zero i)
  kept i h := absurd h (Nat.not_lt_zero i)
  one i h := absurd h (Nat.not_lt_zero i)
  reading _ _ h := nomatch h

/-- The session in the field is that of a run that has not ended. -/
theorem Owns.field_stage (h : Owns s) {i : Nat} (hi : s.session = some i) :
    (s.phase (s.openedBy i)).stage = .held ∧ s.disposals i = [] ∨
      (s.phase (s.openedBy i)).stage = .disposing ∧ s.disposals i = [s.openedBy i] := by
  have hkept := h.kept i (h.field i hi)
  unfold State.Kept at hkept
  split at hkept
  · exact hkept.elim
  · exact Or.inl ⟨‹_›, hkept.2⟩
  · exact Or.inr ⟨‹_›, hkept.2⟩
  · exact absurd hi hkept.1

theorem Owns.field_opener (h : Owns s) (ht : Turns s) {i r : Nat} (hi : s.session = some i) (hr : s.running = some r) :
    s.openedBy i = r := by
  have hactive : s.phase (s.openedBy i) ≠ .ended := by
    refine active_of_stage fun ha => ?_
    rcases h.field_stage hi with ⟨hs, -⟩ | ⟨hs, -⟩ <;> rw [ha] at hs <;> cases hs
  exact Option.some.inj ((ht.active _ hactive).symm.trans hr)

/-- A run goes on with its session as before. -/
theorem Owns.setPhase (h : Owns s) {r : Nat} {p : Phase} (hp : p.stage = (s.phase r).stage)
    (hreading : ∀ i, p = .reading i → s.session = some i) : Owns (s.setPhase r p) := by
  have hstage (r' : Nat) : ((s.setPhase r p).phase r').stage = (s.phase r').stage := by
    by_cases hr : r' = r
    · simp only [State.setPhase, hr, update_self, hp]
    · simp only [State.setPhase, update_of_ne hr]
  refine ⟨h.field, h.opener, ?_, h.one, ?_⟩
  · intro i hi
    have hkept := h.kept i hi
    unfold State.Kept at hkept ⊢
    rwa [hstage]
  · intro r' i hr'
    by_cases hr : r' = r
    · subst hr
      exact hreading i (by simpa only [State.setPhase, update_self] using hr')
    · exact h.reading r' i (by simpa only [State.setPhase, update_of_ne hr] using hr')

/-- A run is past its session, or has none. -/
theorem Owns.leave (h : Owns s) {r : Nat} (hnone : s.session = none)
    (hr : (s.phase r).stage = .before ∨ (s.phase r).stage = .held) : Owns (s.leave r) := by
  have hstage : ((s.leave r).phase r).stage = .after := by
    simp only [State.leave, State.setPhase, update_self]
    split <;> rfl
  have hother {r' : Nat} (h : r' ≠ r) : (s.leave r).phase r' = s.phase r' := update_of_ne h _ _
  refine ⟨h.field, h.opener, ?_, h.one, ?_⟩
  · intro i hi
    have hkept := h.kept i hi
    by_cases hir : s.openedBy i = r
    · unfold State.Kept at hkept
      rw [hir] at hkept
      rcases hr with hr | hr <;> rw [hr] at hkept
      · exact hkept.elim
      · cases hnone.symm.trans hkept.1
    · unfold State.Kept at hkept ⊢
      rwa [show (s.leave r).openedBy = s.openedBy from rfl, hother hir]
  · intro r' i hr'
    by_cases hrr : r' = r
    · rw [hrr] at hr'
      rw [hr'] at hstage
      cases hstage
    · exact h.reading r' i (hother hrr ▸ hr')

theorem Owns.unwind (h : Owns s) (ht : Turns s) {r : Nat}
    (hr : (s.phase r).stage = .before ∨ (s.phase r).stage = .held) : Owns (s.unwind r) := by
  have hactive : s.phase r ≠ .ended := active_of_stage (by rcases hr with hr | hr <;> rw [hr] <;> nofun)
  obtain ⟨f, -, hf⟩ := s.cancel_eq
  unfold State.unwind
  rw [hf]
  split
  · rename_i hnone
    have hcancel : Owns { s with cancelled := f } := { h with }
    exact hcancel.leave hnone hr
  · rename_i i hi
    -- The session in the field is the run's own, and nobody has disposed of it.
    have hopener : s.openedBy i = r := h.field_opener ht hi (ht.active r hactive)
    have hnot : s.disposals i = [] := by
      rcases h.field_stage hi with ⟨-, hd⟩ | ⟨hs, -⟩
      · exact hd
      · rw [hopener] at hs
        rcases hr with hr | hr <;> rw [hs] at hr <;> cases hr
    refine ⟨h.field, h.opener, ?_, h.one, ?_⟩
    · intro j hj
      have hkept := h.kept j hj
      unfold State.Kept at hkept ⊢
      by_cases hjr : s.openedBy j = r
      · have hji : j = i := h.one j hj i (h.field i hi) (hjr.trans hopener.symm)
        subst hji
        simp only [State.setPhase, hopener, update_self, Phase.stage, hnot, List.nil_append]
        exact ⟨hi, trivial⟩
      · have hji : j ≠ i := fun hji => hjr (hji ▸ hopener)
        simpa only [State.setPhase, update_of_ne hjr, update_of_ne hji] using hkept
    · intro r' j hr'
      by_cases hrr : r' = r
      · simp only [State.setPhase, hrr, update_self, reduceCtorEq] at hr'
      · exact h.reading r' j (by simpa only [State.setPhase, update_of_ne hrr] using hr')

theorem Owns.startRead (h : Owns s) (ht : Turns s) {r : Nat} (hr : (s.phase r).stage = .held) : Owns (s.startRead r) := by
  unfold State.startRead
  split
  · exact h.unwind ht (Or.inr hr)
  · rename_i i hi
    refine h.setPhase hr.symm fun j hj => ?_
    cases hj
    exact hi

theorem Owns.connected (h : Owns s) (ht : Turns s) {r : Nat} (hr : s.phase r = .connecting) (ok : Bool) :
    Owns (s.connected r ok) := by
  have hactive : s.phase r ≠ .ended := by simp [hr]
  cases ok
  · exact h.unwind ht (Or.inl (by rw [hr]; rfl))
  · -- No session was opened by the run before, and none is in the field.
    have hfresh : ∀ i < s.sessions, s.openedBy i ≠ r := by
      intro i hi hir
      have hkept := h.kept i hi
      unfold State.Kept at hkept
      rw [hir, hr] at hkept
      exact hkept
    have hnone : s.session = none := by
      cases hi : s.session with
      | none => rfl
      | some i => exact absurd (h.field_opener ht hi (ht.active r hactive)) (hfresh i (h.field i hi))
    constructor
    · intro i hi
      cases hi
      exact Nat.lt_succ_self _
    · intro i hi
      by_cases hin : i = s.sessions
      · subst hin
        simpa only [State.connected, if_true, State.setPhase, update_self] using ht.started r (ht.active r hactive)
      · simpa only [State.connected, if_true, State.setPhase, update_of_ne hin] using
          h.opener i (Nat.lt_of_le_of_ne (Nat.le_of_lt_succ hi) hin)
    · intro i hi
      by_cases hin : i = s.sessions
      · subst hin
        simp only [State.Kept, State.connected, if_true, State.setPhase, update_self, Phase.stage, and_self]
      · have hlt : i < s.sessions := Nat.lt_of_le_of_ne (Nat.le_of_lt_succ hi) hin
        have hkept := h.kept i hlt
        unfold State.Kept at hkept ⊢
        simp only [State.connected, if_true, State.setPhase, update_of_ne hin, update_of_ne (hfresh i hlt)]
        rw [hnone] at hkept
        split at hkept
        · exact hkept.elim
        · cases hkept.1
        · cases hkept.1
        · exact ⟨fun he => hin (Option.some.inj he).symm, hkept.2⟩
    · intro i hi j hj hij
      by_cases hin : i = s.sessions
      · by_cases hjn : j = s.sessions
        · rw [hin, hjn]
        · simp only [State.connected, if_true, State.setPhase, hin, update_self, update_of_ne hjn] at hij
          exact absurd hij.symm (hfresh j (Nat.lt_of_le_of_ne (Nat.le_of_lt_succ hj) hjn))
      · by_cases hjn : j = s.sessions
        · simp only [State.connected, if_true, State.setPhase, hjn, update_self, update_of_ne hin] at hij
          exact absurd hij (hfresh i (Nat.lt_of_le_of_ne (Nat.le_of_lt_succ hi) hin))
        · simp only [State.connected, if_true, State.setPhase, update_of_ne hin, update_of_ne hjn] at hij
          exact h.one i (Nat.lt_of_le_of_ne (Nat.le_of_lt_succ hi) hin) j
            (Nat.lt_of_le_of_ne (Nat.le_of_lt_succ hj) hjn) hij
    · intro r' i hr'
      by_cases hrr : r' = r
      · simp only [State.connected, if_true, State.setPhase, hrr, update_self, reduceCtorEq] at hr'
      · simp only [State.connected, if_true, State.setPhase, update_of_ne hrr] at hr'
        cases hnone.symm.trans (h.reading r' i hr')

theorem Owns.disposed (h : Owns s) (ht : Turns s) {r : Nat} (hr : s.phase r = .disposing) : Owns (s.disposed r) := by
  have hrunning : s.running = some r := ht.active r (by simp [hr])
  have hstage : ((s.disposed r).phase r).stage = .after := by
    simp only [State.disposed, State.leave, State.setPhase, update_self]
    split <;> rfl
  have hother {r' : Nat} (hne : r' ≠ r) : (s.disposed r).phase r' = s.phase r' := update_of_ne hne _ _
  refine ⟨?_, h.opener, ?_, h.one, ?_⟩
  · intro i hi
    cases hi
  · intro i hi
    have hkept := h.kept i hi
    unfold State.Kept at hkept ⊢
    by_cases hir : s.openedBy i = r
    · rw [hir, hr] at hkept
      rw [show (s.disposed r).openedBy i = r from hir, hstage]
      exact ⟨(Option.some_ne_none i).symm, hkept.2⟩
    · rw [show (s.disposed r).openedBy = s.openedBy from rfl, hother hir]
      split at hkept
      · exact hkept
      · exact absurd (h.field_opener ht hkept.1 hrunning) hir
      · exact absurd (h.field_opener ht hkept.1 hrunning) hir
      · exact ⟨(Option.some_ne_none i).symm, hkept.2⟩
  · intro r' i hr'
    by_cases hrr : r' = r
    · rw [hrr] at hr'
      rw [hr'] at hstage
      cases hstage
    · have hactive : s.phase r' ≠ .ended := by simp [← hother hrr, hr']
      exact absurd (Option.some.inj ((ht.active r' hactive).symm.trans hrunning)) hrr

theorem Owns.restart (h : Owns s) (ht : Turns s) {k : Nat} (hcaller : (s.stop k).caller = .reconnect)
    (hphase : (s.stop k).phase = .returned) : Owns (s.restart k) := by
  have hended : ∀ r, s.phase r = .ended := (ht.turn hcaller hphase).1
  unfold State.restart
  split
  · exact { h with }
  · refine ⟨h.field, fun i hi => Nat.lt_succ_of_lt (h.opener i hi), ?_, h.one, ?_⟩
    · intro i hi
      have hne : s.openedBy i ≠ s.runs := Nat.ne_of_lt (h.opener i hi)
      have hkept := h.kept i hi
      unfold State.Kept at hkept ⊢
      simpa only [State.startRun, State.setStop, update_of_ne hne] using hkept
    · intro r i hr
      by_cases hrn : r = s.runs
      · simp only [State.startRun, State.setStop, hrn, update_self, reduceCtorEq] at hr
      · exact h.reading r i (by simpa only [State.startRun, State.setStop, update_of_ne hrn] using hr)

theorem Owns.step (h : Owns s) (ht : Turns s) (hc : Change s e s') : Owns s' := by
  cases hc with
  | refused => exact h
  | reconnect | disconnect | close =>
    obtain ⟨f, -, hf⟩ := s.cancel_eq
    unfold State.beginStop
    rw [hf]
    exact { h with }
  | stopReturns | closed | initialized | writerTakes | writerReturns => exact { h with }
  | restart hcaller hp => exact h.restart ht hcaller hp
  | rendererFails | writerFails =>
    obtain ⟨f, -, hf⟩ := s.cancel_eq
    simp only [State.writerFails, hf]
    exact { h with }
  | @message m =>
    obtain ⟨f, q, w, l, b, u, c, -, hs, -⟩ := s.onMessage_eq m
    rw [hs]
    exact { h with }
  | @paste text allowed =>
    obtain ⟨f, q, -, hs⟩ := s.paste_eq text allowed
    rw [hs]
    exact { h with }
  | @prepared r posted hr =>
    have hbefore : (s.phase r).stage = .before := by rw [hr]; rfl
    have hrecord : Owns (s.record .reset) := { h with }
    have htrecord : Turns (s.record .reset) := { ht with }
    unfold State.prepared
    split
    · exact h.unwind ht (Or.inl hbefore)
    · split
      · exact hrecord.setPhase hbefore.symm nofun
      · exact hrecord.unwind htrecord (Or.inl hbefore)
  | connected hr => exact h.connected ht hr _
  | @resized r ok hr =>
    have hheld : (s.phase r).stage = .held := by rw [hr]; rfl
    unfold State.resized
    split
    · rename_i i c _ _
      have hwriter : Owns { s with writer := update s.writer r (some ⟨i, c, .idle⟩) } := { h with }
      exact hwriter.startRead { ht with } hheld
    · exact h.unwind ht (Or.inr hheld)
  | @read r i bytes posted hr =>
    have hheld : (s.phase r).stage = .held := by rw [hr]; rfl
    unfold State.read
    split
    · exact h.unwind ht (Or.inr hheld)
    · exact h.unwind ht (Or.inr hheld)
    · rename_i bytes _
      have houtput : Owns (s.output i bytes) := { h with }
      split
      · exact houtput.setPhase hheld.symm nofun
      · exact houtput.unwind { ht with } (Or.inr hheld)
  | @waited r a late hr =>
    have hheld : (s.phase r).stage = .held := by rw [hr]; rfl
    unfold State.waited
    split
    · exact h.unwind ht (Or.inr hheld)
    · split
      · exact h.startRead ht hheld
      · exact h
  | disposed hr => exact h.disposed ht hr
  | joined hr => exact h.setPhase (by rw [hr]; rfl) nofun

/-- A step keeps a session and the run that opened it. -/
theorem Change.openedBy (hc : Change s e s') {i : Nat} (hi : i < s.sessions) :
    i < s'.sessions ∧ s'.openedBy i = s.openedBy i := by
  obtain ⟨f, -, hf⟩ := s.cancel_eq
  cases hc with
  | reconnect | disconnect | close | rendererFails | writerFails =>
    simp only [State.beginStop, State.writerFails, hf]
    exact ⟨hi, trivial⟩
  | refused | stopReturns | closed | initialized | disposed | joined | writerTakes | writerReturns => exact ⟨hi, rfl⟩
  | restart =>
    unfold State.restart
    split <;> exact ⟨hi, rfl⟩
  | @message m =>
    obtain ⟨f, q, w, l, b, u, c, -, hs, -⟩ := s.onMessage_eq m
    rw [hs]
    exact ⟨hi, rfl⟩
  | @paste text allowed =>
    obtain ⟨f, q, -, hs⟩ := s.paste_eq text allowed
    rw [hs]
    exact ⟨hi, rfl⟩
  | @prepared r posted =>
    obtain ⟨f, d, p, u, -, hs⟩ := s.prepared_eq r posted
    rw [hs]
    exact ⟨hi, rfl⟩
  | @connected r ok =>
    cases ok with
    | false =>
      obtain ⟨f, d, p, -, -, hs⟩ := s.unwind_eq r
      rw [show s.connected r false = s.unwind r from rfl, hs]
      exact ⟨hi, rfl⟩
    | true => exact ⟨Nat.lt_succ_of_lt hi, update_of_ne (Nat.ne_of_lt hi) _ _⟩
  | @resized r ok =>
    obtain ⟨f, d, p, w, -, hs⟩ := s.resized_eq r ok
    rw [hs]
    exact ⟨hi, rfl⟩
  | @read r i bytes posted =>
    obtain ⟨f, d, p, u, a, n, c, o, -, hs⟩ := s.read_eq r i bytes posted
    rw [hs]
    exact ⟨hi, rfl⟩
  | @waited r a late hr =>
    obtain ⟨f, d, p, -, hs⟩ := s.waited_eq hr late
    rw [hs]
    exact ⟨hi, rfl⟩

/-! ## The inputs and their sessions -/

structure Inputs (s : State) : Prop where
  queued : ∀ r, ∀ q ∈ s.queue r, q.session < s.sessions ∧ s.openedBy q.session = r
  writer : ∀ r w, s.writer r = some w → w.channel = r ∧ w.target < s.sessions ∧ s.openedBy w.target = r
  written : ∀ i < s.sessions, ∀ q ∈ s.written i, q.session = i

theorem inputs_shown : Inputs shown where
  queued _ _ h := absurd h List.not_mem_nil
  writer _ _ h := nomatch h
  written i h := absurd h (Nat.not_lt_zero i)

theorem Inputs.enqueue (h : Inputs s) (ho : Owns s) (ht : Turns s) (value : Input) : Inputs (s.enqueue value) := by
  unfold State.enqueue
  split
  · rename_i i c ch hi hc hch
    split
    · exact h
    · split
      · refine ⟨?_, h.writer, h.written⟩
        intro r q hq
        by_cases hr : r = ch
        · subst hr
          simp only [update_self, List.mem_append, List.mem_singleton] at hq
          rcases hq with hq | rfl
          · exact h.queued r q hq
          · -- The channel in the field is that of the run whose session is in the field.
            exact ⟨ho.field i hi, ho.field_opener ht hi (ht.input ▸ hch)⟩
        · simp only [update_of_ne hr] at hq
          exact h.queued r q hq
      · obtain ⟨f, -, hf⟩ := s.cancel_eq
        rw [hf]
        exact { h with }
  · exact h

theorem Inputs.onMessage (h : Inputs s) (ho : Owns s) (ht : Turns s) (m : Message) : Inputs (s.onMessage m) := by
  cases m with
  | ready cols lines => exact { h with }
  | resize cols lines =>
    have hsize : Inputs (s.setSize cols lines) := { h with }
    exact hsize.enqueue { ho with } { ht with } _
  | input data =>
    unfold State.onMessage
    dsimp only
    split
    · exact h.enqueue ho ht _
    · exact h
  | ack id =>
    unfold State.onMessage
    dsimp only
    split
    · split <;> exact { h with }
    · exact { h with }

theorem Inputs.paste (h : Inputs s) (ho : Owns s) (ht : Turns s) (text : Str) (allowed : Bool) :
    Inputs (s.paste text allowed) := by
  unfold State.paste
  split
  · exact h
  · split
    · exact h
    · exact h.enqueue ho ht _

theorem Inputs.unwind (h : Inputs s) (r : Nat) : Inputs (s.unwind r) := by
  obtain ⟨f, d, p, -, -, hs⟩ := s.unwind_eq r
  rw [hs]
  exact { h with }

theorem Inputs.connected (h : Inputs s) (r : Nat) (ok : Bool) : Inputs (s.connected r ok) := by
  cases ok
  · exact h.unwind r
  · have hopened {i : Nat} (hi : i < s.sessions) : i < s.sessions + 1 ∧
        update s.openedBy s.sessions r i = s.openedBy i :=
      ⟨Nat.lt_succ_of_lt hi, update_of_ne (Nat.ne_of_lt hi) _ _⟩
    constructor
    · intro r' q hq
      obtain ⟨hlt, hby⟩ := h.queued r' q hq
      exact ⟨(hopened hlt).1, (hopened hlt).2.trans hby⟩
    · intro r' w hw
      obtain ⟨hch, hlt, hby⟩ := h.writer r' w hw
      exact ⟨hch, (hopened hlt).1, (hopened hlt).2.trans hby⟩
    · intro i hi q hq
      by_cases hin : i = s.sessions
      · subst hin
        simp only [State.connected, if_true, update_self, List.not_mem_nil] at hq
      · simp only [State.connected, if_true, update_of_ne hin] at hq
        exact h.written i (Nat.lt_of_le_of_ne (Nat.le_of_lt_succ hi) hin) q hq

/-- A change of a run's write loop that leaves its session and its channel. -/
theorem Inputs.setWriter (h : Inputs s) {r : Nat} {w v : Writer} (hw : s.writer r = some w)
    (htarget : v.target = w.target) (hchannel : v.channel = w.channel) :
    Inputs { s with writer := update s.writer r (some v) } := by
  refine ⟨h.queued, ?_, h.written⟩
  intro r' u hu
  by_cases hr : r' = r
  · subst hr
    simp only [update_self, Option.some.injEq] at hu
    subst hu
    rw [htarget, hchannel]
    exact h.writer r' w hw
  · simp only [update_of_ne hr] at hu
    exact h.writer r' u hu

theorem Inputs.resized (h : Inputs s) (ho : Owns s) (ht : Turns s) {r : Nat} (hr : s.phase r = .resizing) (ok : Bool) :
    Inputs (s.resized r ok) := by
  have hrunning : s.running = some r := ht.active r (by rw [hr]; nofun)
  unfold State.resized
  split
  · rename_i i c hi hc
    have hopener : s.openedBy i = r := ho.field_opener ht hi hrunning
    have hchannel : c = r := Option.some.inj (hc.symm.trans (ht.input.trans hrunning))
    obtain ⟨f, d, p, -, hs⟩ := { s with writer := update s.writer r (some ⟨i, c, .idle⟩) }.startRead_eq r
    rw [hs]
    refine ⟨h.queued, ?_, h.written⟩
    intro r' w hw
    by_cases hrr : r' = r
    · subst hrr
      simp only [update_self, Option.some.injEq] at hw
      subst hw
      exact ⟨hchannel, ho.field i hi, hopener⟩
    · simp only [update_of_ne hrr] at hw
      exact h.writer r' w hw
  · exact h.unwind r

theorem Inputs.writerTakes (h : Inputs s) (ho : Owns s) {r : Nat} {w : Writer} {q : Queued} {rest : List Queued}
    (hw : s.writer r = some w) (hq : s.queue w.channel = q :: rest) : Inputs (s.writerTakes r w q rest) := by
  obtain ⟨hchannel, htarget, hopened⟩ := h.writer r w hw
  have hmem : q ∈ s.queue w.channel := hq ▸ List.mem_cons_self
  obtain ⟨hqs, hqo⟩ := h.queued w.channel q hmem
  -- The run has opened one session: what is in its channel is for the session it writes to.
  have hsame : q.session = w.target := ho.one _ hqs _ htarget (hqo.trans (hchannel.trans hopened.symm))
  have hwriter := h.setWriter (v := { w with phase := .writing }) hw rfl rfl
  refine ⟨?_, hwriter.writer, ?_⟩
  · intro r' q' hq'
    by_cases hr : r' = w.channel
    · subst hr
      simp only [State.writerTakes, update_self] at hq'
      exact h.queued _ q' (hq ▸ List.mem_cons_of_mem q hq')
    · simp only [State.writerTakes, update_of_ne hr] at hq'
      exact h.queued r' q' hq'
  · intro i hi q' hq'
    by_cases hit : i = w.target
    · subst hit
      simp only [State.writerTakes, update_self, List.mem_append, List.mem_singleton] at hq'
      rcases hq' with hq' | rfl
      · exact h.written _ hi q' hq'
      · exact hsame
    · simp only [State.writerTakes, update_of_ne hit] at hq'
      exact h.written i hi q' hq'

theorem Inputs.restart (h : Inputs s) (k : Nat) : Inputs (s.restart k) := by
  unfold State.restart
  split
  · exact { h with }
  · refine ⟨?_, ?_, h.written⟩
    · intro r q hq
      by_cases hr : r = s.runs
      · simp only [State.startRun, State.setStop, hr, update_self, List.not_mem_nil] at hq
      · simp only [State.startRun, State.setStop, update_of_ne hr] at hq
        exact h.queued r q hq
    · intro r w hw
      by_cases hr : r = s.runs
      · simp only [State.startRun, State.setStop, hr, update_self, reduceCtorEq] at hw
      · simp only [State.startRun, State.setStop, update_of_ne hr] at hw
        exact h.writer r w hw

theorem Inputs.step (h : Inputs s) (ho : Owns s) (ht : Turns s) (hc : Change s e s') : Inputs s' := by
  obtain ⟨f, -, hf⟩ := s.cancel_eq
  have hcancel : Inputs { s with cancelled := f } := { h with }
  cases hc with
  | refused => exact h
  | reconnect | disconnect | close =>
    unfold State.beginStop
    rw [hf]
    exact { h with }
  | stopReturns | closed | initialized | disposed | joined => exact { h with }
  | rendererFails =>
    rw [hf]
    exact { h with }
  | restart => exact h.restart _
  | message => exact h.onMessage ho ht _
  | paste => exact h.paste ho ht _ _
  | @prepared r posted =>
    obtain ⟨f, d, p, u, -, hs⟩ := s.prepared_eq r posted
    rw [hs]
    exact { h with }
  | connected => exact h.connected _ _
  | resized hr => exact h.resized ho ht hr _
  | @read r i bytes posted =>
    obtain ⟨f, d, p, u, a, n, c, o, -, hs⟩ := s.read_eq r i bytes posted
    rw [hs]
    exact { h with }
  | @waited r a late hr =>
    obtain ⟨f, d, p, -, hs⟩ := s.waited_eq hr late
    rw [hs]
    exact { h with }
  | writerTakes hw hq => exact h.writerTakes ho hw hq
  | @writerReturns r w hw => exact h.setWriter (v := { w with phase := .idle }) hw rfl rfl
  | writerFails hw =>
    unfold State.writerFails
    rw [hf]
    exact hcancel.setWriter hw rfl rfl

/-! ## Whole runs -/

structure Inv (s : State) : Prop where
  turns : Turns s
  owns : Owns s
  inputs : Inputs s

theorem Inv.step (h : Inv s) (hc : Change s e s') : Inv s' :=
  ⟨h.turns.step hc, h.owns.step h.turns hc, h.inputs.step h.owns h.turns hc⟩

theorem inv_of_reach (h : window.Reach s) : Inv s := by
  refine h.inv ?_ ?_
  · rintro s rfl
    exact ⟨turns_shown, owns_shown, inputs_shown⟩
  · intro s e s' h hs
    exact h.step (step_change hs)

end MythLab.App.TerminalSessions
