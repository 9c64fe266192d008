/-
  MythLab.App.RunTurns — one run of a terminal window at a time.

  The run that has not ended is the one in the field `running`; a reconnect holds the turn
  while it waits for the run before; a close that has come to its end has seen the last run
  end (`Turns`). A step within a run (`Calm`) changes nothing of this but that the run may
  end. A window that has closed starts no run (`Turns.drained_step`).
-/
import MythLab.App.TerminalSessions

namespace MythLab.App.TerminalSessions

open Lib Dotnet Function

variable {s s' t : State} {e : Event}

/-! ## The turns of the runs -/

/-- A call of `ReconnectAsync` past its guard that has not run on. -/
def State.Pending (s : State) (k : Nat) : Prop := (s.stop k).caller = .reconnect ∧ (s.stop k).phase ≠ .resumed

structure Turns (s : State) : Prop where
  active : ∀ r, s.phase r ≠ .ended → s.running = some r
  started : ∀ r, s.running = some r → r < s.runs
  input : s.input = s.running
  task : ∀ k r, (s.stop k).task = some r → r < s.runs
  finished : ∀ k, (s.stop k).phase ≠ .waiting → s.hasEnded (s.stop k).task
  pending : ∀ k, s.Pending k → s.restarting = true ∧ (s.stop k).task = s.running
  one : ∀ k l, s.Pending k → s.Pending l → k = l
  closes : ∀ k, (s.stop k).caller = .close → s.closing = true ∧ (s.stop k).task = s.running
  drained : s.drained = true → s.closing = true ∧ ∀ r, s.phase r = .ended

theorem turns_shown : Turns shown where
  active _ h := absurd rfl h
  started _ h := nomatch h
  input := rfl
  task _ _ h := nomatch h
  finished _ _ _ h := nomatch h
  pending _ h := absurd rfl h.2
  one _ _ h := absurd rfl h.2
  closes _ h := nomatch h
  drained h := nomatch h

/-- At most one run has not ended. -/
theorem Turns.eq_of_active (h : Turns s) {r r' : Nat} (hr : s.phase r ≠ .ended) (hr' : s.phase r' ≠ .ended) : r = r' :=
  Option.some.inj ((h.active r hr).symm.trans (h.active r' hr'))

/-- A step within a run: no run starts, and none that has ended goes on. -/
structure Calm (s s' : State) : Prop where
  runs : s'.runs = s.runs
  running : s'.running = s.running
  input : s'.input = s.input
  stop : s'.stop = s.stop
  restarting : s'.restarting = s.restarting
  closing : s'.closing = s.closing
  drained : s'.drained = s.drained
  requiresReopen : s'.requiresReopen = s.requiresReopen
  initialization : s'.initialization = s.initialization
  cancellation : s'.cancellation = s.cancellation
  ended : ∀ r, s.phase r = .ended → s'.phase r = .ended

namespace Calm

theorem refl (s : State) : Calm s s := ⟨rfl, rfl, rfl, rfl, rfl, rfl, rfl, rfl, rfl, rfl, fun _ h => h⟩

theorem ended_update {r : Nat} (hr : s.phase r ≠ .ended) (p : Phase) :
    ∀ r', s.phase r' = .ended → update s.phase r p r' = .ended := by
  intro r' hr'
  have hne : r' ≠ r := fun h => hr (h ▸ hr')
  rwa [update_of_ne hne]

theorem onMessage (s : State) (m : Message) : Calm s (s.onMessage m) := by
  obtain ⟨f, q, w, l, b, h, c, -, hs, -⟩ := s.onMessage_eq m
  rw [hs]
  exact ⟨rfl, rfl, rfl, rfl, rfl, rfl, rfl, rfl, rfl, rfl, fun _ h => h⟩

theorem paste (s : State) (text : Str) (allowed : Bool) : Calm s (s.paste text allowed) := by
  obtain ⟨f, q, -, hs⟩ := s.paste_eq text allowed
  rw [hs]
  exact ⟨rfl, rfl, rfl, rfl, rfl, rfl, rfl, rfl, rfl, rfl, fun _ h => h⟩

theorem writerFails (s : State) (r : Nat) (w : Writer) : Calm s (s.writerFails r w) := by
  obtain ⟨f, -, hf⟩ := s.cancel_eq
  unfold State.writerFails
  rw [hf]
  exact ⟨rfl, rfl, rfl, rfl, rfl, rfl, rfl, rfl, rfl, rfl, fun _ h => h⟩

variable {r : Nat}

theorem setPhase (hr : s.phase r ≠ .ended) (p : Phase) : Calm s (s.setPhase r p) :=
  ⟨rfl, rfl, rfl, rfl, rfl, rfl, rfl, rfl, rfl, rfl, ended_update hr p⟩

theorem unwind (hr : s.phase r ≠ .ended) : Calm s (s.unwind r) := by
  obtain ⟨f, d, p, -, -, hs⟩ := s.unwind_eq r
  rw [hs]
  exact ⟨rfl, rfl, rfl, rfl, rfl, rfl, rfl, rfl, rfl, rfl, ended_update hr p⟩

theorem prepared (hr : s.phase r ≠ .ended) (posted : Bool) : Calm s (s.prepared r posted) := by
  obtain ⟨f, d, p, h, -, hs⟩ := s.prepared_eq r posted
  rw [hs]
  exact ⟨rfl, rfl, rfl, rfl, rfl, rfl, rfl, rfl, rfl, rfl, ended_update hr p⟩

theorem connected (hr : s.phase r ≠ .ended) (ok : Bool) : Calm s (s.connected r ok) := by
  cases ok
  · exact unwind hr
  · exact ⟨rfl, rfl, rfl, rfl, rfl, rfl, rfl, rfl, rfl, rfl, ended_update hr .resizing⟩

theorem resized (hr : s.phase r ≠ .ended) (ok : Bool) : Calm s (s.resized r ok) := by
  obtain ⟨f, d, p, w, -, hs⟩ := s.resized_eq r ok
  rw [hs]
  exact ⟨rfl, rfl, rfl, rfl, rfl, rfl, rfl, rfl, rfl, rfl, ended_update hr p⟩

theorem read (hr : s.phase r ≠ .ended) (i : Nat) (bytes : Option (List UInt8)) (posted : Bool) :
    Calm s (s.read r i bytes posted) := by
  obtain ⟨f, d, p, h, a, n, c, o, -, hs⟩ := s.read_eq r i bytes posted
  rw [hs]
  exact ⟨rfl, rfl, rfl, rfl, rfl, rfl, rfl, rfl, rfl, rfl, ended_update hr p⟩

theorem waited {a : Nat} (hr : s.phase r = .acknowledging a) (late : Bool) : Calm s (s.waited r a late) := by
  have hactive : s.phase r ≠ .ended := by rw [hr]; nofun
  obtain ⟨f, d, p, -, hs⟩ := s.waited_eq hr late
  rw [hs]
  exact ⟨rfl, rfl, rfl, rfl, rfl, rfl, rfl, rfl, rfl, rfl, ended_update hactive p⟩

theorem disposed (hr : s.phase r ≠ .ended) : Calm s (s.disposed r) :=
  ⟨rfl, rfl, rfl, rfl, rfl, rfl, rfl, rfl, rfl, rfl, ended_update hr _⟩

end Calm

/-- The calls of `StopAsync` and what their callers do next, and the browser's own state. -/
def Event.outer : Event → Bool
  | .reconnect | .disconnect | .close | .stopReturns _ | .restart _ | .closed _ => true
  | .initialized _ | .rendererFails => true
  | _ => false

/-- Every other step is calm. -/
theorem Change.calm (h : Change s e s') : Calm s s' ∨ e.outer = true := by
  have hactive {r : Nat} {p : Phase} (hr : s.phase r = p) (hp : p ≠ .ended) : s.phase r ≠ .ended := hr ▸ hp
  cases h with
  | refused => exact Or.inl (.refl s)
  | reconnect | disconnect | close | stopReturns | restart | closed | initialized | rendererFails => exact Or.inr rfl
  | message => exact Or.inl (.onMessage s _)
  | paste => exact Or.inl (.paste s _ _)
  | prepared hr => exact Or.inl (.prepared (hactive hr nofun) _)
  | connected hr => exact Or.inl (.connected (hactive hr nofun) _)
  | resized hr => exact Or.inl (.resized (hactive hr nofun) _)
  | read hr => exact Or.inl (.read (hactive hr nofun) _ _ _)
  | waited hr => exact Or.inl (.waited hr _)
  | disposed hr => exact Or.inl (.disposed (hactive hr nofun))
  | joined hr => exact Or.inl (.setPhase (hactive hr nofun) _)
  | writerTakes | writerReturns => exact Or.inl ⟨rfl, rfl, rfl, rfl, rfl, rfl, rfl, rfl, rfl, rfl, fun _ h => h⟩
  | writerFails => exact Or.inl (.writerFails s _ _)

theorem hasEnded_mono (h : ∀ r, s.phase r = .ended → s'.phase r = .ended) {task : Option Nat}
    (ht : s.hasEnded task) : s'.hasEnded task := fun r hr => h r (ht r hr)

theorem Turns.calm (h : Turns s) (hc : Calm s s') : Turns s' := by
  obtain ⟨hruns, hrunning, hinput, hstop, hrestarting, hclosing, hdrained, -, -, -, hended⟩ := hc
  have hpending (k : Nat) : s'.Pending k ↔ s.Pending k := by unfold State.Pending; rw [hstop]
  constructor
  · intro r hr
    rw [hrunning]
    exact h.active r fun hr' => hr (hended r hr')
  · rw [hrunning, hruns]; exact h.started
  · rw [hinput, hrunning]; exact h.input
  · rw [hstop, hruns]; exact h.task
  · intro k hk
    rw [hstop] at hk ⊢
    exact hasEnded_mono hended (h.finished k hk)
  · intro k hk
    rw [hrestarting, hstop, hrunning]
    exact h.pending k ((hpending k).mp hk)
  · intro k l hk hl
    exact h.one k l ((hpending k).mp hk) ((hpending l).mp hl)
  · rw [hstop, hclosing, hrunning]; exact h.closes
  · intro hd
    rw [hdrained] at hd
    rw [hclosing]
    exact ⟨(h.drained hd).1, fun r => hended r ((h.drained hd).2 r)⟩

/-- A call of `StopAsync` begins; only a reconnect without another takes the turn. -/
theorem Turns.call (h : Turns s) (k : Nat) {n : Nat} {caller : Caller} {x : Option Nat} {restarting closing : Bool}
    (hreconnect : caller = .reconnect → s.restarting = false ∧ restarting = true)
    (hrestarting : s.restarting = true → restarting = true) (hclose : caller = .close → closing = true)
    (hclosing : s.closing = true → closing = true) :
    Turns { s with
      stop := update s.stop k ⟨x, s.running, caller, .waiting⟩
      stops := n
      restarting := restarting
      closing := closing } := by
  have hnone (l : Nat) (hc : caller = .reconnect) : ¬ s.Pending l := fun hl => by
    rw [(h.pending l hl).1] at hreconnect
    exact nomatch (hreconnect hc).1
  constructor
  · exact h.active
  · exact h.started
  · exact h.input
  · intro l r hr
    by_cases hl : l = k
    · subst hl
      simp only [update_self] at hr
      exact h.started r hr
    · simp only [update_of_ne hl] at hr
      exact h.task l r hr
  · intro l hp
    by_cases hl : l = k
    · subst hl
      simp only [update_self, ne_eq, not_true_eq_false] at hp
    · simp only [update_of_ne hl] at hp ⊢
      exact h.finished l hp
  · intro l hp
    by_cases hl : l = k
    · subst hl
      simp only [State.Pending, update_self] at hp ⊢
      exact ⟨(hreconnect hp.1).2, trivial⟩
    · simp only [State.Pending, update_of_ne hl] at hp ⊢
      exact ⟨hrestarting (h.pending l hp).1, (h.pending l hp).2⟩
  · intro l m hl hm
    by_cases hlk : l = k
    · by_cases hmk : m = k
      · rw [hlk, hmk]
      · subst hlk
        simp only [State.Pending, update_self, update_of_ne hmk] at hl hm
        exact absurd hm (hnone m hl.1)
    · by_cases hmk : m = k
      · subst hmk
        simp only [State.Pending, update_self, update_of_ne hlk] at hl hm
        exact absurd hl (hnone l hm.1)
      · simp only [State.Pending, update_of_ne hlk, update_of_ne hmk] at hl hm
        exact h.one l m hl hm
  · intro l hc
    by_cases hl : l = k
    · subst hl
      simp only [update_self] at hc ⊢
      exact ⟨hclose hc, trivial⟩
    · simp only [update_of_ne hl] at hc ⊢
      exact ⟨hclosing (h.closes l hc).1, (h.closes l hc).2⟩
  · intro hd
    exact ⟨hclosing (h.drained hd).1, (h.drained hd).2⟩

/-- A call of `StopAsync` goes on. -/
theorem Turns.setStop (h : Turns s) {k : Nat} {p : StopPhase} (hover : s.hasEnded (s.stop k).task)
    (hp : (s.stop k).phase ≠ .resumed) : Turns (s.setStop k p) := by
  have hstop (l : Nat) : ((s.setStop k p).stop l).caller = (s.stop l).caller ∧
      ((s.setStop k p).stop l).task = (s.stop l).task := by
    by_cases hl : l = k
    · subst hl
      simp only [State.setStop, update_self, and_self]
    · simp only [State.setStop, update_of_ne hl, and_self]
  have hpending (l : Nat) (hl : (s.setStop k p).Pending l) : s.Pending l := by
    refine ⟨(hstop l).1 ▸ hl.1, ?_⟩
    by_cases hlk : l = k
    · exact hlk ▸ hp
    · have hphase := hl.2
      simpa only [State.setStop, update_of_ne hlk] using hphase
  constructor
  · exact h.active
  · exact h.started
  · exact h.input
  · intro l r hr
    exact h.task l r ((hstop l).2 ▸ hr)
  · intro l hl
    rw [(hstop l).2]
    by_cases hlk : l = k
    · exact hlk ▸ hover
    · exact h.finished l (by simpa only [State.setStop, update_of_ne hlk] using hl)
  · intro l hl
    rw [(hstop l).2]
    exact h.pending l (hpending l hl)
  · intro l m hl hm
    exact h.one l m (hpending l hl) (hpending m hm)
  · intro l hl
    rw [(hstop l).2]
    exact h.closes l ((hstop l).1 ▸ hl)
  · exact h.drained

/-- What a reconnect's turn leaves: the run before has ended, and nobody else waits. -/
theorem Turns.turn (h : Turns s) {k : Nat} (hcaller : (s.stop k).caller = .reconnect)
    (hphase : (s.stop k).phase = .returned) :
    (∀ r, s.phase r = .ended) ∧ ∀ l, ¬ (s.setStop k .resumed).Pending l := by
  have hpending : s.Pending k := ⟨hcaller, by rw [hphase]; nofun⟩
  have hover : s.hasEnded (s.stop k).task := h.finished k (by rw [hphase]; nofun)
  constructor
  · intro r
    by_contra hr
    exact hr (hover r ((h.pending k hpending).2 ▸ h.active r hr))
  · rintro l ⟨hl, hlp⟩
    by_cases hlk : l = k
    · subst hlk
      simp only [State.setStop, update_self, ne_eq, not_true_eq_false] at hlp
    · simp only [State.setStop, update_of_ne hlk] at hl hlp
      exact hlk (h.one l k ⟨hl, hlp⟩ hpending)

theorem Turns.restart (h : Turns s) {k : Nat} (hcaller : (s.stop k).caller = .reconnect)
    (hphase : (s.stop k).phase = .returned) : Turns (s.restart k) := by
  obtain ⟨hended, hnone⟩ := h.turn hcaller hphase
  have hover : s.hasEnded (s.stop k).task := h.finished k (by rw [hphase]; nofun)
  have hset : Turns (s.setStop k .resumed) := h.setStop hover (by rw [hphase]; nofun)
  unfold State.restart
  split
  · exact { hset with pending := fun l hl => absurd hl (hnone l), one := fun l _ hl => absurd hl (hnone l) }
  · rename_i hclosing
    have hfree (l : Nat) (hl : ((s.setStop k .resumed).stop l).caller = .close) : False := hclosing (hset.closes l hl).1
    constructor
    · intro r hr
      by_cases hrn : r = s.runs
      · exact congrArg some hrn.symm
      · exact absurd ((update_of_ne hrn _ _).trans (hended r)) hr
    · intro r hr
      cases hr
      exact Nat.lt_succ_self _
    · rfl
    · intro l r hr
      exact Nat.lt_succ_of_lt (hset.task l r hr)
    · intro l hl r hr
      have hne : r ≠ s.runs := Nat.ne_of_lt (hset.task l r hr)
      exact (update_of_ne hne _ _).trans (hended r)
    · exact fun l hl => absurd hl (hnone l)
    · exact fun l _ hl => absurd hl (hnone l)
    · exact fun l hl => (hfree l hl).elim
    · intro hd
      exact absurd (h.drained hd).1 hclosing

theorem Turns.closed (h : Turns s) {k : Nat} (hcaller : (s.stop k).caller = .close)
    (hphase : (s.stop k).phase = .returned) : Turns { s.setStop k .resumed with drained := true } := by
  have hover : s.hasEnded (s.stop k).task := h.finished k (by rw [hphase]; nofun)
  obtain ⟨hclosing, htask⟩ := h.closes k hcaller
  refine { h.setStop hover (by rw [hphase]; nofun) with drained := fun _ => ⟨hclosing, fun r => ?_⟩ }
  by_contra hr
  exact hr (hover r (htask ▸ h.active r hr))

theorem Turns.step (h : Turns s) (hc : Change s e s') : Turns s' := by
  rcases hc.calm with hcalm | houter
  · exact h.calm hcalm
  · cases hc with
    | refused => exact h
    | reconnect _ hr =>
      obtain ⟨f, -, hs⟩ := s.beginStop_eq .reconnect
      rw [hs]
      have hcancel : Turns { s with cancelled := f } := { h with }
      exact hcancel.call s.stops (fun _ => ⟨hr, rfl⟩) (fun _ => rfl) nofun id
    | disconnect =>
      obtain ⟨f, -, hs⟩ := s.beginStop_eq .disconnect
      rw [hs]
      have hcancel : Turns { s with cancelled := f } := { h with }
      exact hcancel.call s.stops nofun id nofun id
    | close =>
      obtain ⟨f, -, hs⟩ := s.beginStop_eq .close
      rw [hs]
      have hcancel : Turns { s with cancelled := f } := { h with }
      exact hcancel.call s.stops nofun id (fun _ => rfl) (fun _ => rfl)
    | stopReturns hp hover =>
      have hset := h.setStop (p := .returned) hover (by rw [hp]; nofun)
      exact { hset with }
    | restart hcaller hp => exact h.restart hcaller hp
    | closed hcaller hp => exact h.closed hcaller hp
    | initialized => exact { h with }
    | rendererFails =>
      obtain ⟨f, -, hf⟩ := s.cancel_eq
      rw [hf]
      exact { h with }
    | writerFails _ he => rcases he with rfl | rfl <;> cases houter
    | _ => cases houter

/-- A window that has closed stays closed, and starts no run. -/
theorem Turns.drained_step (h : Turns s) (hd : s.drained = true) (hc : Change s e s') :
    s'.drained = true ∧ s'.runs = s.runs := by
  rcases hc.calm with hcalm | houter
  · exact ⟨hcalm.drained.trans hd, hcalm.runs⟩
  · have hclosing : s.closing = true := (h.drained hd).1
    cases hc with
    | refused => exact ⟨hd, rfl⟩
    | reconnect hopen => exact absurd (hclosing.symm.trans hopen) nofun
    | disconnect =>
      obtain ⟨f, -, hs⟩ := s.beginStop_eq .disconnect
      rw [hs]
      exact ⟨hd, rfl⟩
    | close hopen => exact absurd (hclosing.symm.trans hopen) nofun
    | restart =>
      unfold State.restart
      rw [if_pos hclosing]
      exact ⟨hd, rfl⟩
    | stopReturns | initialized => exact ⟨hd, rfl⟩
    | closed => exact ⟨rfl, rfl⟩
    | rendererFails =>
      obtain ⟨f, -, hf⟩ := s.cancel_eq
      rw [hf]
      exact ⟨hd, rfl⟩
    | writerFails _ he => rcases he with rfl | rfl <;> cases houter
    | _ => cases houter

end MythLab.App.TerminalSessions
