/-
  MythLab.App.TerminalDelivery — every output comes to the parser.

  Where the browser takes every output and its page is loaded once (`Lossless`), what the
  parser was given, what waits in the page and what is on the way to it are all outputs of
  the window, in their order, each once. A run that waits for an acknowledgement gets it:
  its output waits somewhere or the acknowledgement does, so one of the events that
  transport them is possible (`Awaiting.more`), and each of these lowers a rank
  (`transports_step`). That the page is there by then is `Prepared`: a run connects after the
  browser's first message.
-/
import MythLab.App.TerminalLink

namespace MythLab.App.TerminalLink

open Lib Dotnet Function TerminalPage
open TerminalSessions (Change Turns Phase active_of_stage)

variable {w w' : TerminalSessions.State} {r : Nat}

/-! ## The browser's first message -/

/-- The run connects or has a session. -/
def talks : Phase → Bool
  | .connecting | .resizing | .reading _ | .acknowledging _ => true
  | .initializing | .disposing | .joining | .ended => false

/-- A run waits for the initialization, and that for the browser. -/
structure Prepared (w : TerminalSessions.State) : Prop where
  ready : w.initialization = .ended true → w.ready = true
  started : ∀ r, w.phase r ≠ .ended → w.initialization ≠ .notStarted
  talking : ∀ r, talks (w.phase r) = true → w.initialization = .ended true

theorem prepared_shown : Prepared TerminalSessions.shown where
  ready h := nomatch h
  started _ h := absurd rfl h
  talking _ h := nomatch h

theorem ready_enqueue (w : TerminalSessions.State) (value : TerminalSessions.Input) :
    (w.enqueue value).ready = w.ready := by
  obtain ⟨f, q, -, hs⟩ := w.enqueue_eq value
  rw [hs]

theorem ready_onMessage (m : TerminalSessions.Message) (h : w.ready = true) : (w.onMessage m).ready = true := by
  cases m with
  | ready cols lines => rfl
  | resize cols lines => exact (ready_enqueue (w.setSize cols lines) _).trans h
  | input data =>
    unfold TerminalSessions.State.onMessage
    dsimp only
    split
    · exact (ready_enqueue w _).trans h
    · exact h
  | ack id =>
    unfold TerminalSessions.State.onMessage
    dsimp only
    split
    · split <;> exact h
    · exact h

/-- Only a message says that the browser is ready. -/
theorem ready_of_change {e : TerminalSessions.Event} (hc : Change w e w') :
    w'.ready = w.ready ∨ ∃ m, e = .message m ∧ w' = w.onMessage m := by
  obtain ⟨f, -, hf⟩ := w.cancel_eq
  cases hc with
  | @message m => exact Or.inr ⟨m, rfl, rfl⟩
  | reconnect | disconnect | close =>
    unfold TerminalSessions.State.beginStop
    rw [hf]
    exact Or.inl rfl
  | refused | stopReturns | closed | initialized | joined | writerTakes | writerReturns => exact Or.inl rfl
  | restart =>
    unfold TerminalSessions.State.restart
    split <;> exact Or.inl rfl
  | rendererFails | writerFails =>
    simp only [TerminalSessions.State.writerFails, hf]
    exact Or.inl trivial
  | @paste text allowed =>
    obtain ⟨f, q, -, hs⟩ := w.paste_eq text allowed
    exact Or.inl (by rw [hs])
  | @prepared r posted =>
    obtain ⟨f, d, p, h, -, hs⟩ := w.prepared_eq r posted
    exact Or.inl (by rw [hs])
  | @connected r ok =>
    cases ok
    · obtain ⟨f, d, p, -, -, hs⟩ := w.unwind_eq r
      exact Or.inl (by rw [TerminalSessions.State.connected, if_neg (by simp), hs])
    · exact Or.inl rfl
  | @resized r ok =>
    obtain ⟨f, d, p, q, -, hs⟩ := w.resized_eq r ok
    exact Or.inl (by rw [hs])
  | @read r i bytes posted =>
    obtain ⟨f, d, p, h, a, n, c, o, -, hs⟩ := w.read_eq r i bytes posted
    exact Or.inl (by rw [hs])
  | @waited r a late hr =>
    obtain ⟨f, d, p, -, hs⟩ := w.waited_eq hr late
    exact Or.inl (by rw [hs])
  | disposed => exact Or.inl rfl

namespace Prepared

theorem of_same (h : Prepared w) (hready : w.ready = true → w'.ready = true)
    (hinit : w'.initialization = w.initialization) (hphase : w'.phase = w.phase) : Prepared w' := by
  refine ⟨?_, ?_, ?_⟩
  · rw [hinit]
    exact fun hdone => hready (h.ready hdone)
  · rw [hinit, hphase]
    exact h.started
  · rw [hinit, hphase]
    exact h.talking

/-- A run goes on. If it comes to talk, the browser is ready. -/
theorem of_update (h : Prepared w) (hready : w.ready = true → w'.ready = true)
    (hinit : w'.initialization = w.initialization) {p : Phase} (hphase : w'.phase = update w.phase r p)
    (hr : w.phase r ≠ .ended) (hp : talks p = true → w.initialization = .ended true) : Prepared w' := by
  have hself : w'.phase r = p := by rw [hphase, update_self]
  have hother {r' : Nat} (hne : r' ≠ r) : w'.phase r' = w.phase r' := by rw [hphase, update_of_ne hne]
  refine ⟨?_, ?_, ?_⟩
  · rw [hinit]
    exact fun hdone => hready (h.ready hdone)
  · intro r' hr'
    rw [hinit]
    by_cases hne : r' = r
    · exact h.started r hr
    · exact h.started r' (hother hne ▸ hr')
  · intro r' hr'
    rw [hinit]
    by_cases hne : r' = r
    · rw [hne, hself] at hr'
      exact hp hr'
    · rw [hother hne] at hr'
      exact h.talking r' hr'

/-- A run goes to its end. -/
theorem of_end (h : Prepared w) (hready : w.ready = true → w'.ready = true)
    (hinit : w'.initialization = w.initialization) {p : Phase} (hphase : w'.phase = update w.phase r p)
    (hr : w.phase r ≠ .ended) (hp : p = .disposing ∨ p = .joining ∨ p = .ended) : Prepared w' := by
  refine h.of_update hready hinit hphase hr fun htalks => ?_
  rcases hp with rfl | rfl | rfl <;> cases htalks

/-- A run that talks goes on. -/
theorem of_talks (h : Prepared w) (hready : w.ready = true → w'.ready = true)
    (hinit : w'.initialization = w.initialization) {p : Phase} (hphase : w'.phase = update w.phase r p)
    (hr : talks (w.phase r) = true) : Prepared w' := by
  refine h.of_update hready hinit hphase ?_ fun _ => h.talking r hr
  intro hended
  rw [hended] at hr
  cases hr

/-- The run that starts does not talk. -/
theorem restart (h : Prepared w) (k : Nat) : Prepared (w.restart k) := by
  unfold TerminalSessions.State.restart
  split
  · exact h.of_same id rfl rfl
  · let initialization : TerminalSessions.Initialization :=
      if w.initialization = .notStarted then .running else w.initialization
    have hended : initialization = .ended true ↔ w.initialization = .ended true := by
      by_cases hnot : w.initialization = .notStarted <;> simp [initialization, hnot]
    have hstarted : initialization ≠ .notStarted := by
      by_cases hnot : w.initialization = .notStarted <;> simp [initialization, hnot]
    refine ⟨fun hdone => h.ready (hended.mp hdone), fun _ _ => hstarted, ?_⟩
    intro r' hr'
    refine hended.mpr (h.talking r' ?_)
    by_cases hne : r' = w.runs
    · rw [hne] at hr'
      have hnew : talks (update w.phase w.runs .initializing w.runs) = true := hr'
      rw [update_self] at hnew
      cases hnew
    · have hold : talks (update w.phase w.runs .initializing r') = true := hr'
      rwa [update_of_ne hne] at hold

/-- A run is prepared: it comes to talk if the initialization has ended well. -/
theorem prepared (h : Prepared w) (hr : w.phase r = .initializing)
    (hguard : w.cancelled r = true ∨ w.initialization ≠ .running) (posted : Bool) :
    Prepared (w.prepared r posted) := by
  have hactive : w.phase r ≠ .ended := by simp [hr]
  unfold TerminalSessions.State.prepared
  by_cases hstops : w.cancelled r ∨ w.initialization = .ended false
  · rw [if_pos hstops]
    obtain ⟨f, d, p, hp, -, hw⟩ := w.unwind_eq r
    rw [hw]
    exact h.of_end id rfl rfl hactive hp
  · rw [if_neg hstops]
    obtain ⟨hcancelled, hfailed⟩ := not_or.mp hstops
    have hdone : w.initialization = .ended true := by
      have hnot := hguard.resolve_left hcancelled
      have hstarted := h.started r hactive
      cases hinit : w.initialization with
      | notStarted => exact absurd hinit hstarted
      | running => exact absurd hinit hnot
      | ended ok =>
        cases ok
        · exact absurd hinit hfailed
        · rfl
    split
    · exact h.of_update id rfl rfl hactive fun _ => hdone
    · obtain ⟨f, d, p, hp, -, hw⟩ := (w.record .reset).unwind_eq r
      rw [hw]
      exact h.of_end id rfl rfl hactive hp

theorem connected (h : Prepared w) (hr : w.phase r = .connecting) (ok : Bool) : Prepared (w.connected r ok) := by
  have htalks : talks (w.phase r) = true := by rw [hr]; rfl
  cases ok
  · obtain ⟨f, d, p, -, -, hw⟩ := w.unwind_eq r
    rw [TerminalSessions.State.connected, if_neg (by simp), hw]
    exact h.of_talks id rfl rfl htalks
  · exact h.of_talks id rfl rfl htalks

theorem step (h : Prepared w) {e : TerminalSessions.Event} (hs : TerminalSessions.step w e = some w') :
    Prepared w' := by
  have hc : Change w e w' := TerminalSessions.step_change hs
  have hready (hyes : w.ready = true) : w'.ready = true := by
    rcases ready_of_change hc with hsame | ⟨m, -, rfl⟩
    · rw [hsame, hyes]
    · exact ready_onMessage m hyes
  obtain ⟨f, -, hf⟩ := w.cancel_eq
  cases hc with
  | refused => exact h
  | reconnect | disconnect | close =>
    unfold TerminalSessions.State.beginStop at hready ⊢
    rw [hf] at hready ⊢
    exact h.of_same hready rfl rfl
  | stopReturns | closed | writerTakes | writerReturns => exact h.of_same hready rfl rfl
  | @restart k => exact h.restart k
  | @initialized ok =>
    obtain ⟨⟨hrunning, hok⟩, -⟩ := Option.ite_none_right_eq_some.mp hs
    refine ⟨fun hdone => ?_, fun _ _ => by simp, fun r hr => ?_⟩
    · cases hdone
      exact hok rfl
    · exact absurd (hrunning.symm.trans (h.talking r hr)) (by simp)
  | rendererFails | writerFails =>
    simp only [TerminalSessions.State.writerFails, hf] at hready ⊢
    exact h.of_same hready rfl rfl
  | @message m =>
    obtain ⟨f, q, c, l, b, u, d, -, hw, -⟩ := w.onMessage_eq m
    rw [hw] at hready ⊢
    exact h.of_same hready rfl rfl
  | @paste text allowed =>
    obtain ⟨f, q, -, hw⟩ := w.paste_eq text allowed
    rw [hw] at hready ⊢
    exact h.of_same hready rfl rfl
  | @prepared r posted hr =>
    obtain ⟨⟨-, hguard⟩, -⟩ := Option.ite_none_right_eq_some.mp hs
    exact h.prepared hr hguard posted
  | @connected r ok hr => exact h.connected hr ok
  | @resized r ok hr =>
    obtain ⟨f, d, p, q, -, hw⟩ := w.resized_eq r ok
    rw [hw]
    exact h.of_talks id rfl rfl (by rw [hr]; rfl)
  | @read r i bytes posted hr =>
    obtain ⟨f, d, p, u, a, n, c, o, -, hw⟩ := w.read_eq r i bytes posted
    rw [hw]
    exact h.of_talks id rfl rfl (by rw [hr]; rfl)
  | @waited r a late hr =>
    obtain ⟨f, d, p, -, hw⟩ := w.waited_eq hr late
    rw [hw]
    exact h.of_talks id rfl rfl (by rw [hr]; rfl)
  | @disposed r hr =>
    refine h.of_end hready rfl rfl (by simp [hr]) ?_
    split <;> simp
  | @joined r hr => exact h.of_end hready rfl rfl (by simp [hr]) (by simp)

end Prepared

/-! ## A loaded page -/

variable {json : WebMessageAsJson} {s s' : State} {e : Event} {a : Nat}

/-- A page that is not loaded has said nothing. -/
structure Loaded (s : State) : Prop where
  prepared : Prepared s.window
  silent : s.page.loaded = false → s.page.sent = [] ∧ s.window.ready = false

theorem loaded_shown : Loaded shown := ⟨prepared_shown, fun _ => ⟨rfl, rfl⟩⟩

/-- A run that talks does so to a loaded page. -/
theorem Loaded.of_talks (h : Loaded s) (hr : talks (s.window.phase r) = true) : s.page.loaded = true := by
  by_contra hno
  have hready := h.prepared.ready (h.prepared.talking r hr)
  rw [(h.silent (Bool.eq_false_iff.mpr hno)).2] at hready
  cases hready

/-- Where the window says no more of its readiness than before. -/
theorem Loaded.of_window (h : Loaded s) (hprepared : Prepared s'.window) (hsent : s'.page.sent = s.page.sent)
    (hready : s'.window.ready = s.window.ready) (hloaded : s'.page.loaded = s.page.loaded) : Loaded s' := by
  refine ⟨hprepared, fun hno => ?_⟩
  rw [hsent, hready]
  exact h.silent (hloaded.symm.trans hno)

theorem Loaded.of_loaded (hprepared : Prepared s.window) (hloaded : s.page.loaded = true) : Loaded s :=
  ⟨hprepared, fun hno => absurd (hloaded.symm.trans hno) (by simp)⟩

theorem Loaded.step (h : Loaded s) (htidy : Tidy s.page.buffer) (hs : (link json).step s e = some s') : Loaded s' := by
  cases step_transition hs with
  | @window e w hm hw =>
    have hready : w.ready = s.window.ready := by
      rcases ready_of_change (TerminalSessions.step_change hw) with hsame | ⟨m, rfl, -⟩
      · exact hsame
      · cases hm
    exact h.of_window (h.prepared.step hw) rfl hready rfl
  | @delivered m rest dimensions turn hqueue hloaded =>
    refine .of_loaded h.prepared ?_
    rcases (Page.receive_spec htidy m dimensions turn).2 with hmoves | ⟨-, hmoves⟩ <;> exact hmoves.1.trans hloaded
  | @received m sent hsent =>
    have hloaded : s.page.loaded = true := by
      by_contra hno
      rw [(h.silent (Bool.eq_false_iff.mpr hno)).1] at hsent
      cases hsent
    obtain ⟨w, clipboard, hw, hs'⟩ := onMessage_eq json { s with page := { s.page with sent } } m
    rw [hs']
    refine .of_loaded ?_ hloaded
    rcases hw with rfl | ⟨m', rfl⟩
    · exact h.prepared
    · have hmessage : TerminalSessions.step s.window (.message m') = some (s.window.onMessage m') :=
        step_message s.window m'
      exact h.prepared.step hmessage
  | task hloaded hpage => exact .of_loaded h.prepared ((step_spec htidy hpage).1.1.trans hloaded)
  | @loaded lost dimensions => exact .of_loaded h.prepared (s.page.load_spec dimensions).1

/-! ## Runs in which no output is lost -/

theorem runs_le_step (hs : (link json).step s e = some s') : s.window.runs ≤ s'.window.runs := by
  cases step_transition hs with
  | window hm hw => exact runs_le (TerminalSessions.step_change hw)
  | @received m sent hsent =>
    obtain ⟨w, clipboard, hw, hs'⟩ := onMessage_eq json { s with page := { s.page with sent } } m
    rw [hs']
    rcases hw with rfl | ⟨m', rfl⟩
    · exact Nat.le_refl _
    · exact runs_le .message
  | delivered | task | loaded => exact Nat.le_refl _

theorem inv_of_lossless (hjson : ShortAcks json) {log : List (State × Event)} (h : (link json).Runs log s)
    (hok : Machine.Throughout Lossless log) (hruns : s.window.runs ≤ manyRuns) : Inv True s ∧ Loaded s := by
  refine h.inv (I := fun s => s.window.runs ≤ manyRuns → Inv True s ∧ Loaded s) ?_ ?_ hok hruns
  · rintro s rfl _
    exact ⟨inv_shown, loaded_shown⟩
  · intro s e s' ih he hs hfew'
    have hfew : s.window.runs ≤ manyRuns := (runs_le_step hs).trans hfew'
    obtain ⟨hinv, hloaded⟩ := ih hfew
    exact ⟨hinv.step hjson (fun _ => he) (fun _ => hfew) hs, hloaded.step hinv.tidy hs⟩

instance (s : State) (e : Event) : Decidable (Lossless s e) :=
  match e with
  | .window e => inferInstanceAs (Decidable (delivers e = true))
  | .loaded lost _ => inferInstanceAs (Decidable (lost = 0 ∧ s.page.loaded = false))
  | .delivered _ _ | .received | .task _ => isTrue trivial

/-! ## The way of an output -/

/-- The first message of a queue comes to its end, or the timer of the page's write buffer. -/
def transports : Event → Prop
  | .delivered _ _ | .received | .task (.timer _) => True
  | .window _ | .task _ | .loaded _ _ => False

/-- How far the messages are. -/
def rank (s : State) : Nat × Nat × Nat := (s.toPage.length, s.page.buffer.pending.length, s.page.sent.length)

/-- Lexicographically. -/
def Lower : Nat × Nat × Nat → Nat × Nat × Nat → Prop := Prod.Lex (· < ·) (Prod.Lex (· < ·) (· < ·))

theorem wellFounded_lower : WellFounded Lower := (Prod.lex Nat.lt_wfRel (Prod.lex Nat.lt_wfRel Nat.lt_wfRel)).wf

/-- No run goes on, and nothing is posted. -/
structure Carried (w w' : TerminalSessions.State) : Prop where
  runs : w'.runs = w.runs
  phase : w'.phase = w.phase
  session : w'.session = w.session
  outputs : chunksOut w'.history = chunksOut w.history

/-- An event that transports something lowers the rank. -/
theorem transports_step (htidy : Tidy s.page.buffer) (hloaded : s.page.loaded = true) (ht : transports e)
    (hs : (link json).step s e = some s') :
    Carried s.window s'.window ∧ s'.page.loaded = true ∧ Lower (rank s') (rank s) := by
  have hsame : Carried s.window s.window := ⟨rfl, rfl, rfl, rfl⟩
  cases step_transition hs with
  | window | loaded => exact ht.elim
  | @delivered m rest dimensions turn hqueue =>
    have hstays : (s.page.receive m dimensions turn).loaded = true := by
      rcases (Page.receive_spec htidy m dimensions turn).2 with hmoves | ⟨-, hmoves⟩ <;> exact hmoves.1.trans hloaded
    refine ⟨hsame, hstays, .left _ _ ?_⟩
    rw [hqueue]
    exact Nat.lt_succ_self _
  | @received m sent hsent =>
    have hrank : Lower (rank { s with page := { s.page with sent } }) (rank s) := by
      refine .right _ (.right _ ?_)
      rw [hsent]
      exact Nat.lt_succ_self _
    obtain ⟨w, clipboard, hw, hs'⟩ := onMessage_eq json { s with page := { s.page with sent } } m
    rw [hs']
    rcases hw with rfl | ⟨m', rfl⟩
    · exact ⟨hsame, hloaded, hrank⟩
    · obtain ⟨f, q, c, l, b, u, d, -, hw, -⟩ := s.window.onMessage_eq m'
      refine ⟨⟨?_, ?_, ?_, chunksOut_onMessage s.window m'⟩, hloaded, hrank⟩
      · show (s.window.onMessage m').runs = s.window.runs
        rw [hw]
      · show (s.window.onMessage m').phase = s.window.phase
        rw [hw]
      · show (s.window.onMessage m').session = s.window.session
        rw [hw]
  | @task e page _ hpage =>
    cases e with
    | data | resized | copy | paste => exact ht.elim
    | timer turn =>
      obtain ⟨hmoves, -, hprogress⟩ := timer_spec htidy hpage
      refine ⟨hsame, hmoves.1.trans hloaded, .right _ (.left _ _ (hprogress ?_))⟩
      -- A timer runs, so a chunk waits.
      intro hnone
      obtain ⟨hpos, -⟩ := Option.ite_none_right_eq_some.mp hpage
      have htimers := htidy.timers
      rw [if_pos (htidy.cleared hnone)] at htimers
      omega

theorem lossless_of_transports (ht : transports e) : Lossless s e := by
  cases e with
  | window | loaded => exact ht.elim
  | delivered | received | task => trivial

/-- A run waits for the acknowledgement `a`; these are all outputs. -/
structure Awaiting (r a : Nat) (outs : List Chunk) (s : State) : Prop where
  inv : Inv True s
  few : s.window.runs ≤ manyRuns
  loaded : s.page.loaded = true
  phase : s.window.phase r = .acknowledging a
  outputs : (chunksOut s.window.history).map Prod.snd = outs

namespace Awaiting

variable {outs : List Chunk}

theorem step (h : Awaiting r a outs s) (hjson : ShortAcks json) (ht : transports e)
    (hs : (link json).step s e = some s') : Awaiting r a outs s' ∧ Lower (rank s') (rank s) := by
  obtain ⟨hcarried, hloaded, hlower⟩ := transports_step h.inv.tidy h.loaded ht hs
  have hinv : Inv True s' := h.inv.step hjson (fun _ => lossless_of_transports ht) (fun _ => h.few) hs
  refine ⟨⟨hinv, hcarried.runs.trans_le h.few, hloaded, (congrFun hcarried.phase r).trans h.phase, ?_⟩, hlower⟩
  rw [hcarried.outputs]
  exact h.outputs

/-- Nothing on the way is left behind. -/
theorem more (h : Awaiting r a outs s) (hleft : ¬ (s.window.completed a = true ∧ s.page.parsed = outs)) :
    ∃ e s', transports e ∧ (link json).step s e = some s' := by
  by_cases hqueue : s.toPage = []
  swap
  · obtain ⟨m, rest, hm⟩ := List.exists_cons_of_ne_nil hqueue
    refine ⟨.delivered none ⟨[], []⟩, { s with toPage := rest, page := s.page.receive m none ⟨[], []⟩ }, trivial, ?_⟩
    simp only [link, TerminalLink.step, hm, h.loaded, if_true]
  by_cases hpending : s.page.buffer.pending = []
  swap
  · have htimers := h.inv.tidy.timers
    have harray : s.page.buffer.writeBuffer ≠ [] := by
      intro hnone
      rw [WriteBuffer.pending, hnone, List.drop_nil] at hpending
      exact hpending rfl
    rw [if_neg harray] at htimers
    let fired : Page := { s.page with buffer := { s.page.buffer with timers := s.page.buffer.timers - 1 } }
    have htimer : TerminalPage.step s.page (.timer ⟨[], []⟩) = some (fired.innerWrite ⟨[], []⟩) :=
      if_pos (by rw [htimers]; exact Nat.zero_lt_one)
    refine ⟨.task (.timer ⟨[], []⟩), { s with page := fired.innerWrite ⟨[], []⟩ }, trivial, ?_⟩
    simp only [link, TerminalLink.step, h.loaded, if_true, htimer, Option.map_some]
  cases hsent : s.page.sent with
  | cons m rest =>
    refine ⟨.received, onMessage json { s with page := { s.page with sent := rest } } m, trivial, ?_⟩
    simp only [link, TerminalLink.step, hsent]
  | nil =>
    -- Then nothing is in flight.
    refine absurd ?_ hleft
    have hmany : s.window.runs ≤ 2 ^ 32 := h.few.trans (by decide)
    obtain ⟨done, acked, old, new, hparsed, hacks, hflight, hall⟩ := h.inv.flight hmany
    obtain ⟨hdone, hflying⟩ := hall trivial
    have hacked : acked = [] := by
      rw [Page.acks, hsent] at hacks
      exact List.map_eq_nil_iff.mp hacks.symm
    have hnew : new = [] := by
      rw [State.flying, hacked, hpending, hqueue] at hflying
      exact List.map_eq_nil_iff.mp hflying.symm
    subst hacked hnew
    refine ⟨?_, ?_⟩
    · by_contra hwaits
      have hstage : (s.window.phase r).stage = .held := by rw [h.phase]; rfl
      obtain ⟨-, i, hi, -⟩ := (TerminalSessions.acks_of_reach h.inv.reach).waits.waiting r a h.phase
      have hclosed : ¬ Open s.window r := by rwa [Open, h.phase]
      obtain ⟨others, c, hnone, -⟩ := hflight.waits r i hstage hi hclosed
      exact absurd hnone (by simp)
    · rw [hparsed, List.append_nil, hdone, ← h.outputs, hflight.outputs, List.append_nil]

end Awaiting

/-- Where no output is lost, each is with the parser, in the write buffer or on the way to the
    page, in its place in the order. However the messages go on, a run that waits for an
    acknowledgement gets it, when the parser was given all outputs. -/
theorem outputs_arrive (hjson : ShortAcks json) {log : List (State × Event)} (h : (link json).Runs log s)
    (hok : Machine.Throughout Lossless log) (hruns : s.window.runs ≤ manyRuns) :
    s.page.parsed ++ s.page.buffer.pending ++ s.toPage.filterMap Posted.chunk? =
        (chunksOut s.window.history).map Prod.snd ∧
      ∀ r a, s.window.phase r = .acknowledging a → (link json).Inevitable (fun _ => transports)
        (fun t => t.window.completed a = true ∧ t.page.parsed = (chunksOut s.window.history).map Prod.snd) s := by
  obtain ⟨hinv, hloaded⟩ := inv_of_lossless hjson h hok hruns
  refine ⟨?_, fun r a hr => ?_⟩
  · obtain ⟨done, acked, old, new, hparsed, -, hflight, hall⟩ := hinv.flight (hruns.trans (by decide))
    obtain ⟨hdone, hflying⟩ := hall trivial
    rw [hflight.outputs, List.map_append, ← hdone, ← hflying, hparsed, State.flying]
    simp only [List.append_assoc]
  · have hpage : s.page.loaded = true := hloaded.of_talks (r := r) (by rw [hr]; rfl)
    have hawaiting : Awaiting r a ((chunksOut s.window.history).map Prod.snd) s := ⟨hinv, hruns, hpage, hr, rfl⟩
    exact Machine.inevitable_of_rank wellFounded_lower rank (fun _ _ _ hs _ ht hstep => hs.step hjson ht hstep)
      (fun _ hs hleft => hs.more hleft) hawaiting

/-- The second output has been posted only. -/
theorem second_output_arrives : ∃ s, (link fun _ => []).Reach s ∧ s.page.parsed = [⟨1, [72]⟩] ∧
    (link fun _ => []).Inevitable (fun _ => transports)
      (fun t => t.window.completed 1 = true ∧ t.page.parsed = [⟨1, [72]⟩, ⟨2, [73]⟩]) s := by
  obtain ⟨log, s, hr, hok, hp⟩ := Machine.exists_run (link fun _ => []) Lossless
    (fun s => s.window.phase 0 = .acknowledging 1 && s.window.runs = 1 && s.page.parsed = [⟨1, [72]⟩] &&
      (chunksOut s.window.history).map Prod.snd = [⟨1, [72]⟩, ⟨2, [73]⟩])
    (twoOutputs.take 16) rfl (by decide +kernel)
  simp only [Bool.and_eq_true, decide_eq_true_eq] at hp
  obtain ⟨⟨⟨hphase, hruns⟩, hparsed⟩, houts⟩ := hp
  have hfew : s.window.runs ≤ manyRuns := by
    rw [hruns]
    decide
  obtain ⟨-, harrive⟩ := outputs_arrive (fun _ => Nat.zero_le _) hr hok hfew
  rw [houts] at harrive
  exact ⟨s, ⟨log, hr⟩, hparsed, harrive 0 1 hphase⟩

end MythLab.App.TerminalLink
