/-
  MythLab.App.TerminalProgress — what a session has accepted comes to the terminal.

  Of the pipeline's steps, those that carry bytes on (`forwards`) are the reads, the end of
  a wait whose acknowledgement has come, and the events that transport messages. Where the
  browser loses nothing, one of them is possible as long as a byte is missing
  (`Forwarding.more`). Each lowers a rank (`Forwarding.step`): how much the session holds,
  then how far its reader and the run are, then how far the messages are.
-/
import MythLab.App.TerminalPipeline

namespace MythLab.App.TerminalPipeline

open Lib Function Ssh TerminalPage
open SshTerminalSession (Action go goReader returned accepted)
open TerminalLink (WebMessageAsJson ShortAcks manyRuns transports Lower wellFounded_lower)
open TerminalSessions (Phase)

variable {json : WebMessageAsJson} {s s' : State} {e : Event}

/-! ## Runs in which no output is lost -/

def Lossless (s : State) : Event → Prop
  | .link e => TerminalLink.Lossless s.link e
  | .session _ _ => True
  | .read _ _ posted => posted = true

/-- A step of the pipeline is one of the window and its page, or none. -/
theorem link_follows (hs : (pipeline json).step s e = some s') : s'.link = s.link ∨
    ∃ e', (TerminalLink.link json).step s.link e' = some s'.link ∧
      (Lossless s e → TerminalLink.Lossless s.link e') := by
  cases step_transition hs with
  | @link e link hread hlink => exact Or.inr ⟨e, hlink, id⟩
  | session | waits => exact Or.inl rfl
  | @returns r i e as t posted link hr hcalls hgo hidle hlink =>
    have hread : (TerminalLink.link json).step s.link (.window (.read r (result as) posted)) = some link := hlink
    exact Or.inr ⟨_, hread, id⟩

theorem link_of_lossless (hjson : ShortAcks json) {log : List (State × Event)} (h : (pipeline json).Runs log s)
    (hok : Machine.Throughout Lossless log) (hruns : s.link.window.runs ≤ manyRuns) :
    TerminalLink.Inv True s.link ∧ TerminalLink.Loaded s.link := by
  refine h.inv (I := fun s => s.link.window.runs ≤ manyRuns → TerminalLink.Inv True s.link ∧
    TerminalLink.Loaded s.link) ?_ ?_ hok hruns
  · rintro s rfl _
    exact ⟨TerminalLink.inv_shown, TerminalLink.loaded_shown⟩
  · intro s e s' ih he hs hfew'
    rcases link_follows hs with hsame | ⟨e', hlink, hlossless⟩
    · rw [hsame] at hfew' ⊢
      exact ih hfew'
    · have hfew : s.link.window.runs ≤ manyRuns := (TerminalLink.runs_le_step hlink).trans hfew'
      obtain ⟨hinv, hloaded⟩ := ih hfew
      exact ⟨hinv.step hjson (fun _ => hlossless he) (fun _ => hfew) hlink, hloaded.step hinv.tidy hlink⟩

instance (s : State) (e : Event) : Decidable (Lossless s e) :=
  match e with
  | .link e => inferInstanceAs (Decidable (TerminalLink.Lossless s.link e))
  | .session _ _ => isTrue trivial
  | .read _ _ posted => inferInstanceAs (Decidable (posted = true))

/-! ## Reads -/

section Reader

variable {t t' : SshTerminalSession.State} {e : SshTerminalSession.Event} {as : List Action}

/-- A read of what is held returns some of it. -/
theorem reader_returns {cancelled : Bool} (hinv : SshTerminalSession.ReaderInv t) (ht : Buffered t)
    (hheld : t.output.held ≠ []) (hcalls : calls cancelled e = true) (hgoes : e ≠ .readCancelled)
    (h : go t e = some (as, t')) (hidle : t'.reader = .idle) :
    ∃ bytes, as = [.returned 8192 bytes] ∧ bytes ≠ [] ∧ t'.output.held.length < t.output.held.length := by
  -- Something waits in the queue if nothing is pending.
  have hqueue (hnone : t.output.pending = none) : t.output.channel.items ≠ [] := by
    intro hitems
    refine hheld ?_
    rw [BoundedTerminalOutput.held, hnone, hitems]
    rfl
  have hreturned {length : Nat} {bytes : Bytes} (has : as = [.returned length bytes]) (hlength : length = 8192) :
      ∃ bytes, as = [.returned 8192 bytes] ∧ bytes ≠ [] ∧ t'.output.held.length < t.output.held.length := by
    subst has hlength
    have hne : bytes ≠ [] := by
      rintro rfl
      exact hheld (SshTerminalSession.returned_nil hinv h (by decide) (List.mem_singleton_self _)).2
    refine ⟨bytes, rfl, hne, ?_⟩
    cases SshTerminalSession.go_change hinv h with
    | returned length bytes hfront =>
      rw [hfront, List.length_append]
      exact Nat.lt_add_of_pos_left (List.length_pos_iff.mpr hne)
  cases e with
  | read length =>
    have hlength : length = 8192 := of_decide_eq_true hcalls
    simp only [go, goReader] at h
    split at h
    · split at h
      · omega
      · split at h
        · exact hreturned (Prod.mk.inj (Option.some.inj h)).1.symm hlength
        · cases h
          cases hidle
    · cases h
  | waitReturns =>
    simp only [go, goReader] at h
    split at h
    · rename_i length hwaiting
      have hitems := hqueue (hinv (by rw [hwaiting]; simp))
      split at h
      · cases h
        cases hidle
      · exact absurd (by assumption) hitems
      · exact absurd (by assumption) hitems
      · cases h
    · cases h
  | take =>
    simp only [go, goReader] at h
    split at h
    · rename_i length htaking
      have hitems := hqueue (hinv (by rw [htaking]; simp))
      split at h
      · exact hreturned (Prod.mk.inj (Option.some.inj h)).1.symm (ht length (Or.inr htaking))
      · exact absurd (by assumption) hitems
      · cases h
    · cases h
  | readCancelled => exact absurd rfl hgoes
  | _ => cases hcalls

theorem copied_length_le (p : BoundedTerminalOutput.Pending) (n : Nat) : (p.copied n).length ≤ n := by
  rw [BoundedTerminalOutput.Pending.copied, List.length_take, BoundedTerminalOutput.Pending.count]
  omega

/-- Where something is held, the read can go on. -/
theorem reader_possible (hinv : SshTerminalSession.ReaderInv t) (ht : Buffered t) (hheld : t.output.held ≠ []) :
    ∃ e as t', (∀ cancelled, calls cancelled e = true) ∧ e ≠ .readCancelled ∧ go t e = some (as, t') ∧
      ∀ bytes ∈ result as, bytes.length ≤ 8192 := by
  have hitems (hnone : t.output.pending = none) : ∃ chunk chunks, t.output.channel.items = chunk :: chunks := by
    refine List.exists_cons_of_ne_nil fun hnil => hheld ?_
    rw [BoundedTerminalOutput.held, hnone, hnil]
    rfl
  have hsmall (p : BoundedTerminalOutput.Pending) (bytes : Bytes)
      (h : bytes ∈ result [.returned 8192 (p.copied 8192)]) : bytes.length ≤ 8192 := by
    rw [← Option.some.inj h]
    exact copied_length_le p 8192
  cases hreader : t.reader with
  | idle =>
    cases hpending : t.output.pending with
    | some p =>
      have hgo : go t (.read 8192) =
          some ([.returned 8192 (p.copied 8192)], { t with output := t.output.read p 8192 }) := by
        simp [go, goReader, hreader, hpending]
      exact ⟨_, _, _, fun _ => rfl, by simp, hgo, hsmall p⟩
    | none =>
      have hgo : go t (.read 8192) = some ([], { t with reader := .waiting 8192 }) := by
        simp [go, goReader, hreader, hpending]
      exact ⟨_, _, _, fun _ => rfl, by simp, hgo, by simp [result]⟩
  | waiting n =>
    obtain ⟨chunk, chunks, hchunks⟩ := hitems (hinv (by rw [hreader]; simp))
    have hgo : go t .waitReturns = some ([], { t with reader := .taking n }) := by
      simp [go, goReader, hreader, hchunks]
    exact ⟨_, _, _, fun _ => rfl, by simp, hgo, by simp [result]⟩
  | taking n =>
    obtain ⟨chunk, chunks, hchunks⟩ := hitems (hinv (by rw [hreader]; simp))
    obtain rfl := ht n (Or.inr hreader)
    have hgo : go t .take = some ([.returned 8192 ((BoundedTerminalOutput.Pending.start chunk).copied 8192)],
        { t with reader := .idle, output := t.output.take chunk 8192 }) := by
      simp [go, goReader, hreader, hchunks]
    exact ⟨_, _, _, fun _ => rfl, by simp, hgo, hsmall _⟩

end Reader

/-! ## The way of a byte -/

/-- The steps that carry bytes on: a read goes on or returns, a wait ends whose acknowledgement
    has come, or a message comes to its end. -/
def forwards (s : State) : Event → Prop
  | .link (.window e) => ∃ r a, e = .waited r false ∧ s.link.window.phase r = .acknowledging a ∧
      s.link.window.completed a = true
  | .link e => transports e
  | .session _ _ => False
  | .read _ e posted => e ≠ .readCancelled ∧ posted = true

/-- How far the run is. -/
def turn : Phase → SshTerminalSession.Reader → Nat
  | .reading _, reader => stage reader
  | _, _ => 3

theorem stage_le (reader : SshTerminalSession.Reader) : stage reader ≤ 2 := by
  cases reader with
  | idle => exact Nat.le_refl _
  | waiting => exact Nat.le_succ _
  | taking => exact Nat.zero_le _

/-- How far the bytes of a session are, and the messages. -/
def rank (r i : Nat) (s : State) : Nat × Nat × (Nat × Nat × Nat) :=
  ((s.session i).output.held.length, turn (s.link.window.phase r) (s.session i).reader, TerminalLink.rank s.link)

/-- Lexicographically. -/
def LowerRank : Nat × Nat × (Nat × Nat × Nat) → Nat × Nat × (Nat × Nat × Nat) → Prop :=
  Prod.Lex (· < ·) (Prod.Lex (· < ·) Lower)

theorem wellFounded_lowerRank : WellFounded LowerRank :=
  (Prod.lex Nat.lt_wfRel (Prod.lex Nat.lt_wfRel ⟨Lower, wellFounded_lower⟩)).wf

/-- The run has the session and reads or waits; the session has accepted these bytes. -/
structure Forwarding (json : WebMessageAsJson) (r i : Nat) (bytes : Bytes) (s : State) : Prop where
  inv : Inv json s
  link : TerminalLink.Inv True s.link
  few : s.link.window.runs ≤ manyRuns
  loaded : s.link.page.loaded = true
  session : s.link.window.session = some i
  phase : s.link.window.phase r = .reading i ∨ ∃ a, s.link.window.phase r = .acknowledging a
  accepted : accepted (s.log i) = bytes

/-- The parser was given the bytes, unless the run was cancelled. -/
def Arrived (r : Nat) (bytes : Bytes) (s : State) : Prop :=
  s.link.window.cancelled r = true ∨ bytes <:+ given s.link.page

/-- A step of the window that takes no message is one of the window and its page. -/
theorem link_window (json : WebMessageAsJson) {l : TerminalLink.State} {e : TerminalSessions.Event}
    {w : TerminalSessions.State} (hm : TerminalLink.isMessage e = false)
    (hw : TerminalSessions.step l.window e = some w) :
    ∃ link, TerminalLink.step json l (.window e) = some link := by
  rw [TerminalLink.step, hm, hw]
  exact ⟨_, rfl⟩

theorem page_window {l l' : TerminalLink.State} {e : TerminalSessions.Event}
    (hs : TerminalLink.step json l (.window e) = some l') : l'.page = l.page := by
  cases TerminalLink.step_transition hs with
  | window => rfl

namespace Forwarding

variable {r i : Nat} {bytes : Bytes}

theorem active (h : Forwarding json r i bytes s) : s.link.window.phase r ≠ .ended := by
  rcases h.phase with hr | ⟨a, hr⟩ <;> simp [hr]

/-- No other run does anything. -/
theorem only (h : Forwarding json r i bytes s) {r' : Nat} (hr' : s.link.window.phase r' ≠ .ended) : r' = r :=
  (TerminalSessions.inv_of_reach h.link.reach).turns.eq_of_active hr' h.active

/-- Where the run reads and nothing is held, the parser was given all. -/
theorem held_ne_nil (h : Forwarding json r i bytes s) (hr : s.link.window.phase r = .reading i)
    (hleft : ¬ Arrived r bytes s) : (s.session i).output.held ≠ [] := by
  intro hnone
  have hflight := h.link.flight (h.few.trans (by decide))
  obtain ⟨before, hscreen⟩ :=
    hflight.shows h.link.reach (by rw [hr]; rfl) h.session (by rw [TerminalLink.Open, hr]; trivial)
  refine hleft (Or.inr ?_)
  rw [← h.accepted, (SshTerminalSession.runs_books (h.inv.runs i)).accepted, hnone, List.append_nil, ← h.inv.reads i]
  exact suffix_given hscreen

/-- While bytes are missing, one of the steps is possible. -/
theorem more (h : Forwarding json r i bytes s) (hleft : ¬ Arrived r bytes s) :
    ∃ e s', forwards s e ∧ (pipeline json).step s e = some s' := by
  rcases h.phase with hr | ⟨a, hr⟩
  · -- The session holds some of them.
    have hbooks := SshTerminalSession.runs_books (h.inv.runs i)
    obtain ⟨e, as, t, hcalls, hgoes, hgo, hsmall⟩ :=
      reader_possible hbooks.reader (h.inv.buffers i) (h.held_ne_nil hr hleft)
    by_cases hidle : t.reader = .idle
    · have hread : TerminalSessions.step s.link.window (.read r (result as) true) =
          some (s.link.window.read r i (result as) true) := by
        simp only [TerminalSessions.step, hr]
        exact if_pos hsmall
      obtain ⟨link, hlink⟩ := link_window json rfl hread
      refine ⟨.read r e true, { s.did i e t with link }, ⟨hgoes, rfl⟩, ?_⟩
      simp only [pipeline, step, hr, hcalls, if_true, hgo, Option.bind_some, hidle, hlink, Option.map_some]
    · refine ⟨.read r e true, s.did i e t, ⟨hgoes, rfl⟩, ?_⟩
      simp only [pipeline, step, hr, hcalls, if_true, hgo, Option.bind_some, hidle, if_false]
  · by_cases hcompleted : s.link.window.completed a = true
    · have hwaited : TerminalSessions.step s.link.window (.waited r false) =
          some (s.link.window.waited r a false) := by
        simp only [TerminalSessions.step, hr]
      obtain ⟨link, hlink⟩ := link_window json rfl hwaited
      refine ⟨.link (.window (.waited r false)), { s with link }, ⟨r, a, rfl, hr, hcompleted⟩, ?_⟩
      simp only [pipeline, step, isRead, Bool.false_eq_true, if_false, hlink, Option.map_some]
    · have hawaiting : TerminalLink.Awaiting r a _ s.link := ⟨h.link, h.few, h.loaded, hr, rfl⟩
      obtain ⟨e, link, ht, hlink⟩ : ∃ e link, transports e ∧ (TerminalLink.link json).step s.link e = some link :=
        hawaiting.more fun hdone => hcompleted hdone.1
      have hread : isRead e = false := by
        cases e with
        | window => exact ht.elim
        | delivered | received | task | loaded => rfl
      have hforwards : forwards s (.link e) := by
        cases e with
        | window => exact ht.elim
        | delivered | received | task | loaded => exact ht
      refine ⟨.link e, { s with link }, hforwards, ?_⟩
      have hstep : TerminalLink.step json s.link e = some link := hlink
      simp only [pipeline, step, hread, Bool.false_eq_true, if_false, hstep, Option.map_some]

theorem reading_unique (h : Forwarding json r i bytes s) {r' i' : Nat} (hr' : s.link.window.phase r' = .reading i') :
    r' = r ∧ i' = i := by
  have hsession : s.link.window.session = some i' :=
    (TerminalSessions.inv_of_reach h.link.reach).owns.reading r' i' hr'
  exact ⟨h.only (by simp [hr']), Option.some.inj (hsession.symm.trans h.session)⟩

/-- The wait ends, and the next read begins. -/
theorem step_waited (h : Forwarding json r i bytes s) (hjson : ShortAcks json) (hleft : ¬ Arrived r bytes s) {a : Nat}
    (hr : s.link.window.phase r = .acknowledging a) (hcompleted : s.link.window.completed a = true)
    {link : TerminalLink.State} (hlink : TerminalLink.step json s.link (.window (.waited r false)) = some link)
    (hinv : Inv json { s with link }) :
    Forwarding json r i bytes { s with link } ∧ LowerRank (rank r i { s with link }) (rank r i s) := by
  have hcancelled : s.link.window.cancelled r = false := Bool.eq_false_iff.mpr fun hc => hleft (Or.inl hc)
  have hwaited : s.link.window.waited r a false = s.link.window.setPhase r (.reading i) := by
    simp only [TerminalSessions.State.waited, hcancelled, hcompleted, TerminalSessions.State.startRead, h.session,
      Bool.or_self, Bool.false_eq_true, if_false, if_true]
  have hwindow : link.window = s.link.window.setPhase r (.reading i) := by
    cases TerminalLink.step_transition hlink with
    | window hm hw =>
      simp only [TerminalSessions.step, hr] at hw
      exact (Option.some.inj hw).symm.trans hwaited
  have hphase : link.window.phase r = .reading i := by
    rw [hwindow]
    exact s.link.window.setPhase_self r _
  have hlossless : TerminalLink.Lossless s.link (.window (.waited r false)) := rfl
  have hlinked : TerminalLink.Inv True link := h.link.step hjson (fun _ => hlossless) (fun _ => h.few) hlink
  refine ⟨⟨hinv, hlinked, ?_, ?_, ?_, Or.inl hphase, h.accepted⟩, .right _ (.left _ _ ?_)⟩
  · show link.window.runs ≤ manyRuns
    rw [hwindow]
    exact h.few
  · show link.page.loaded = true
    rw [page_window hlink]
    exact h.loaded
  · show link.window.session = some i
    rw [hwindow]
    exact h.session
  · show turn (link.window.phase r) _ < turn (s.link.window.phase r) _
    rw [hphase, hr]
    exact Nat.lt_succ_of_le (stage_le _)

theorem step_transports (h : Forwarding json r i bytes s) (hjson : ShortAcks json) {e : TerminalLink.Event}
    (ht : transports e) {link : TerminalLink.State} (hlink : TerminalLink.step json s.link e = some link)
    (hinv : Inv json { s with link }) :
    Forwarding json r i bytes { s with link } ∧ LowerRank (rank r i { s with link }) (rank r i s) := by
  obtain ⟨hcarried, hloaded, hlower⟩ := TerminalLink.transports_step h.link.tidy h.loaded ht hlink
  have hlinked : TerminalLink.Inv True link :=
    h.link.step hjson (fun _ => TerminalLink.lossless_of_transports ht) (fun _ => h.few) hlink
  refine ⟨⟨hinv, hlinked, hcarried.runs.trans_le h.few, hloaded, hcarried.session.trans h.session, ?_, h.accepted⟩, ?_⟩
  · show link.window.phase r = .reading i ∨ ∃ a, link.window.phase r = .acknowledging a
    rw [hcarried.phase]
    exact h.phase
  · show LowerRank (_, turn (link.window.phase r) _, TerminalLink.rank link) (rank r i s)
    rw [hcarried.phase]
    exact .right _ (.right _ hlower)

section Read

variable {e : SshTerminalSession.Event} {as : List Action} {t : SshTerminalSession.State}

/-- A step of `ReadAsync` accepts nothing. -/
theorem accepted_did (h : Forwarding json r i bytes s) {cancelled : Bool} (hcalls : calls cancelled e = true)
    (hgo : go (s.session i) e = some (as, t)) : SshTerminalSession.accepted ((s.did i e t).log i) = bytes := by
  simp only [State.did, update_self]
  rw [accepted_snoc hgo, entered_nil (isReader_of_calls hcalls) hgo, List.append_nil]
  exact h.accepted

theorem step_waits (h : Forwarding json r i bytes s) {cancelled : Bool} (hr : s.link.window.phase r = .reading i)
    (hcalls : calls cancelled e = true) (hgo : go (s.session i) e = some (as, t)) (hbusy : t.reader ≠ .idle)
    (hinv : Inv json (s.did i e t)) :
    Forwarding json r i bytes (s.did i e t) ∧ LowerRank (rank r i (s.did i e t)) (rank r i s) := by
  obtain ⟨-, houtput, -, hstage⟩ := reader_waits hcalls (h.inv.buffers i) hgo hbusy
  have hsession : (s.did i e t).session i = t := update_self ..
  refine ⟨⟨hinv, h.link, h.few, h.loaded, h.session, h.phase, h.accepted_did hcalls hgo⟩, ?_⟩
  rw [rank, hsession, houtput]
  refine .right _ (.left _ _ ?_)
  show turn (s.link.window.phase r) t.reader < turn (s.link.window.phase r) (s.session i).reader
  rw [hr]
  exact hstage

theorem step_returns (h : Forwarding json r i bytes s) (hjson : ShortAcks json) (hleft : ¬ Arrived r bytes s)
    {cancelled : Bool} (hr : s.link.window.phase r = .reading i) (hcalls : calls cancelled e = true)
    (hgoes : e ≠ .readCancelled) (hgo : go (s.session i) e = some (as, t)) (hidle : t.reader = .idle)
    {link : TerminalLink.State} (hlink : TerminalLink.step json s.link (.window (.read r (result as) true)) = some link)
    (hinv : Inv json { s.did i e t with link }) : Forwarding json r i bytes { s.did i e t with link } ∧
      LowerRank (rank r i { s.did i e t with link }) (rank r i s) := by
  obtain ⟨read, rfl, hread, hless⟩ := reader_returns (SshTerminalSession.runs_books (h.inv.runs i)).reader
    (h.inv.buffers i) (h.held_ne_nil hr hleft) hcalls hgoes hgo hidle
  have hsession : (s.did i e t).session i = t := update_self ..
  -- The window posts what was read, and waits.
  have hwindow : link.window =
      (s.link.window.output i read).setPhase r (.acknowledging s.link.window.acknowledgements) := by
    obtain ⟨b, more, rfl⟩ := List.exists_cons_of_ne_nil hread
    exact window_read hr hlink
  have hlossless : TerminalLink.Lossless s.link (.window (.read r (some read) true)) := rfl
  have hlinked : TerminalLink.Inv True link := h.link.step hjson (fun _ => hlossless) (fun _ => h.few) hlink
  refine ⟨⟨hinv, hlinked, ?_, ?_, ?_, Or.inr ⟨s.link.window.acknowledgements, ?_⟩, h.accepted_did hcalls hgo⟩,
    .left _ _ ?_⟩
  · show link.window.runs ≤ manyRuns
    rw [hwindow]
    exact h.few
  · show link.page.loaded = true
    rw [page_window hlink]
    exact h.loaded
  · show link.window.session = some i
    rw [hwindow]
    exact h.session
  · show link.window.phase r = _
    rw [hwindow]
    exact (s.link.window.output i read).setPhase_self r _
  · show ((s.did i e t).session i).output.held.length < _
    rw [hsession]
    exact hless

end Read

/-- Each of the steps lowers the rank. -/
theorem step (h : Forwarding json r i bytes s) (hjson : ShortAcks json) (hleft : ¬ Arrived r bytes s)
    (hf : forwards s e) (hs : (pipeline json).step s e = some s') :
    Forwarding json r i bytes s' ∧ LowerRank (rank r i s') (rank r i s) := by
  have hinv : Inv json s' := h.inv.step hjson hs
  cases step_transition hs with
  | session => exact hf.elim
  | @link e link hread hlink =>
    by_cases hwindow : ∃ e', e = .window e'
    · obtain ⟨e', rfl⟩ := hwindow
      obtain ⟨r', a, rfl, hr', hcompleted⟩ := hf
      have hactive : s.link.window.phase r' ≠ .ended := by simp [hr']
      obtain rfl := h.only hactive
      exact h.step_waited hjson hleft hr' hcompleted hlink hinv
    · have ht : transports e := by
        cases e with
        | window e' => exact absurd ⟨e', rfl⟩ hwindow
        | delivered | received | task | loaded => exact hf
      exact h.step_transports hjson ht hlink hinv
  | waits hr' hcalls hgo hbusy =>
    obtain ⟨rfl, rfl⟩ := h.reading_unique hr'
    exact h.step_waits hr' hcalls hgo hbusy hinv
  | returns hr' hcalls hgo hidle hlink =>
    obtain ⟨rfl, rfl⟩ := h.reading_unique hr'
    obtain ⟨hgoes, rfl⟩ := hf
    exact h.step_returns hjson hleft hr' hcalls hgoes hgo hidle hlink hinv

end Forwarding

/-- Where the browser loses nothing: whatever of the forwarding steps are taken, all that the
    session of a run has accepted comes to the parser, unless the run is cancelled before. -/
theorem accepted_arrives (hjson : ShortAcks json) {log : List (State × Event)} (h : (pipeline json).Runs log s)
    (hok : Machine.Throughout Lossless log) (hruns : s.link.window.runs ≤ manyRuns) {r i : Nat}
    (hi : s.link.window.session = some i)
    (hr : s.link.window.phase r = .reading i ∨ ∃ a, s.link.window.phase r = .acknowledging a) :
    (pipeline json).Inevitable forwards (fun t => t.link.window.cancelled r = true ∨
      SshTerminalSession.accepted (s.log i) <:+ given t.link.page) s := by
  obtain ⟨hlink, hloaded⟩ := link_of_lossless hjson h hok hruns
  have hpage : s.link.page.loaded = true := by
    refine hloaded.of_talks (r := r) ?_
    rcases hr with hr | ⟨a, hr⟩ <;> rw [hr] <;> rfl
  have hforwarding : Forwarding json r i (SshTerminalSession.accepted (s.log i)) s :=
    ⟨inv_of_reach hjson ⟨log, h⟩, hlink, hruns, hpage, hi, hr, rfl⟩
  exact Machine.inevitable_of_rank wellFounded_lowerRank (rank r i)
    (fun _ _ _ hs hleft hf hstep => hs.step hjson hleft hf hstep) (fun _ hs hleft => hs.more hleft) hforwarding

theorem two_bytes_arrive : ∃ s, (pipeline fun _ => []).Reach s ∧ given s.link.page = [] ∧
    (pipeline fun _ => []).Inevitable forwards (fun t => t.link.window.cancelled 0 = true ∨
      [72, 73] <:+ given t.link.page) s := by
  obtain ⟨log, s, hr, hok, hp⟩ := Machine.exists_run (pipeline fun _ => []) Lossless
    (fun s => s.link.window.phase 0 = .reading 0 && s.link.window.session = some 0 && s.link.window.runs = 1 &&
      given s.link.page = [] && SshTerminalSession.accepted (s.log 0) = [72, 73])
    twoBytes rfl (by decide +kernel)
  simp only [Bool.and_eq_true, decide_eq_true_eq] at hp
  obtain ⟨⟨⟨⟨hphase, hsession⟩, hruns⟩, hscreen⟩, haccepted⟩ := hp
  have hfew : s.link.window.runs ≤ manyRuns := by
    rw [hruns]
    decide
  have harrives := accepted_arrives (fun _ => Nat.zero_le _) hr hok hfew hsession (Or.inl hphase)
  rw [haccepted] at harrives
  exact ⟨s, ⟨log, hr⟩, hscreen, harrives⟩

end MythLab.App.TerminalPipeline
