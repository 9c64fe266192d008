/-
  MythLab.App.TerminalPipeline — from the SSH shell to the screen.

  The terminal window with its page (`App.TerminalLink`), over the SSH sessions it opens
  (`Ssh.SshTerminalSession`). A run that reads is in `ReadAsync` of its session, with a
  buffer of 8192 bytes; when that returns, the window posts what it returned in the same
  step. A session drains its shell, also before the window has it, and is disposed in any
  order of steps. Each session keeps its log.

  Proved (`screen_shows_shell`): what the shell of the open session has given is what the
  parsers of the page were given last, but for what is still held or on the way. The screen
  shows this, or what of it has come since the page was loaded or the terminal reset.
-/
import MythLab.App.TerminalDelivery
import MythLab.Ssh.SshTerminalSession

namespace MythLab.App.TerminalPipeline

open Lib Function Ssh TerminalPage
open SshTerminalSession (Action go goReader goDrain returned written accepted)
open TerminalLink (WebMessageAsJson ShortAcks Lossless manyRuns Open)
open TerminalSessions (Change Phase)

structure State where
  link : TerminalLink.State
  session : Nat → SshTerminalSession.State
  /-- What each session has done, oldest first. -/
  log : Nat → List (SshTerminalSession.State × SshTerminalSession.Event)

/-- A new window; no session has begun. -/
def shown : State := ⟨TerminalLink.shown, fun _ => ⟨.empty, .idle, .idle, false, false⟩, fun _ => []⟩

inductive Event where
  /-- A step of the window, the page or the queues; `ReadAsync` does not return in it. -/
  | link (e : TerminalLink.Event)
  /-- A step of a session outside `ReadAsync`. -/
  | session (i : Nat) (e : SshTerminalSession.Event)
  /-- A step of the `ReadAsync` of a run; if it returns, `posted` is that of the window's step. -/
  | read (run : Nat) (e : SshTerminalSession.Event) (posted : Bool)
  deriving DecidableEq, Repr

def isRead : TerminalLink.Event → Bool
  | .window (.read _ _ _) => true
  | _ => false

/-- A step of `ReadAsync`. -/
def isReader : SshTerminalSession.Event → Bool
  | .read _ | .waitReturns | .take | .readCancelled => true
  | _ => false

/-- The window's call of `ReadAsync` is with its buffer, and only its token ends it. -/
def calls (cancelled : Bool) : SshTerminalSession.Event → Bool
  | .read length => length = 8192
  | .waitReturns | .take => true
  | .readCancelled => cancelled
  | _ => false

/-- A session did something. -/
def State.did (s : State) (i : Nat) (e : SshTerminalSession.Event) (t : SshTerminalSession.State) : State :=
  { s with session := update s.session i t, log := update s.log i (s.log i ++ [(s.session i, e)]) }

/-- What `ReadAsync` returned; `none` if it threw. -/
def result : List Action → Option Bytes
  | [.returned _ bytes] => some bytes
  | _ => none

def step (json : WebMessageAsJson) (s : State) : Event → Option State
  | .link e => if isRead e then none else (TerminalLink.step json s.link e).map fun link => { s with link }
  | .session i e =>
    if isReader e ∨ e = .dispose ∧ s.link.window.disposals i = [] then none
    else (go (s.session i) e).map fun r => s.did i e r.2
  | .read r e posted =>
    match s.link.window.phase r with
    | .reading i =>
      if calls (s.link.window.cancelled r) e then
        (go (s.session i) e).bind fun (as, t) =>
          if t.reader = .idle then
            (TerminalLink.step json s.link (.window (.read r (result as) posted))).map fun link =>
              { s.did i e t with link }
          else some (s.did i e t)
      else none
    | _ => none

def pipeline (json : WebMessageAsJson) : Machine State Event := ⟨(· = shown), step json⟩

variable {json : WebMessageAsJson} {s s' : State} {e : Event}

/-- The event, the guard it had and what it did. -/
inductive Transition (json : WebMessageAsJson) (s : State) : Event → State → Prop where
  | link {e : TerminalLink.Event} {link : TerminalLink.State} : isRead e = false →
      TerminalLink.step json s.link e = some link → Transition json s (.link e) { s with link }
  | session {i : Nat} {e : SshTerminalSession.Event} {as : List Action} {t : SshTerminalSession.State} :
      isReader e = false → go (s.session i) e = some (as, t) → Transition json s (.session i e) (s.did i e t)
  /-- `ReadAsync` goes on. -/
  | waits {r i : Nat} {e : SshTerminalSession.Event} {as : List Action} {t : SshTerminalSession.State}
      {posted : Bool} : s.link.window.phase r = .reading i → calls (s.link.window.cancelled r) e = true →
      go (s.session i) e = some (as, t) → t.reader ≠ .idle → Transition json s (.read r e posted) (s.did i e t)
  /-- `ReadAsync` returns or throws. -/
  | returns {r i : Nat} {e : SshTerminalSession.Event} {as : List Action} {t : SshTerminalSession.State}
      {posted : Bool} {link : TerminalLink.State} : s.link.window.phase r = .reading i →
      calls (s.link.window.cancelled r) e = true → go (s.session i) e = some (as, t) → t.reader = .idle →
      TerminalLink.step json s.link (.window (.read r (result as) posted)) = some link →
      Transition json s (.read r e posted) { s.did i e t with link }

theorem step_transition (h : step json s e = some s') : Transition json s e s' := by
  cases e with
  | link e =>
    simp only [step] at h
    split at h
    · cases h
    · rename_i hread
      obtain ⟨link, hlink, rfl⟩ := Option.map_eq_some_iff.mp h
      exact .link (Bool.eq_false_iff.mpr hread) hlink
  | session i e =>
    simp only [step] at h
    split at h
    · cases h
    · rename_i hguard
      obtain ⟨⟨as, t⟩, hgo, rfl⟩ := Option.map_eq_some_iff.mp h
      exact .session (Bool.eq_false_iff.mpr fun hreader => hguard (Or.inl hreader)) hgo
  | read r e posted =>
    simp only [step] at h
    split at h
    · rename_i i hr
      obtain ⟨hcalls, h⟩ := Option.ite_none_right_eq_some.mp h
      obtain ⟨⟨as, t⟩, hgo, h⟩ := Option.bind_eq_some_iff.mp h
      dsimp only at h
      split at h
      · rename_i hidle
        obtain ⟨link, hlink, rfl⟩ := Option.map_eq_some_iff.mp h
        exact .returns hr hcalls hgo hidle hlink
      · rename_i hbusy
        cases h
        exact .waits hr hcalls hgo hbusy
    · cases h

/-! ## The steps of a session -/

section Actions

variable {t t' : SshTerminalSession.State} {e : SshTerminalSession.Event} {as : List Action}
  {log : List (SshTerminalSession.State × SshTerminalSession.Event)}

theorem returned_snoc (h : go t e = some (as, t')) :
    returned (log ++ [(t, e)]) = returned log ++ as.flatMap Action.bytesReturned := by
  rw [returned, SshTerminalSession.actions_snoc log h, List.flatMap_append]
  rfl

theorem accepted_snoc (h : go t e = some (as, t')) :
    accepted (log ++ [(t, e)]) = accepted log ++ as.flatMap Action.bytesEntered := by
  rw [accepted, SshTerminalSession.actions_snoc log h, List.flatMap_append]
  rfl

/-- `ReadAsync` has the window's buffer. -/
def Buffered (t : SshTerminalSession.State) : Prop := ∀ n, t.reader = .waiting n ∨ t.reader = .taking n → n = 8192

theorem buffered_of_idle (h : t.reader = .idle) : Buffered t := by
  intro n hn
  rw [h] at hn
  rcases hn with hn | hn <;> cases hn

theorem isReader_of_calls {cancelled : Bool} (h : calls cancelled e = true) : isReader e = true := by
  cases e with
  | read | waitReturns | take | readCancelled => rfl
  | _ => cases h

/-- Outside `ReadAsync` nothing is returned. -/
theorem returned_nil (he : isReader e = false) (h : go t e = some (as, t')) :
    as.flatMap Action.bytesReturned = [] := by
  have hnone (hno : ∀ length bytes, Action.returned length bytes ∉ as) : as.flatMap Action.bytesReturned = [] := by
    rw [List.flatMap_eq_nil_iff]
    intro a ha
    cases a with
    | returned length bytes => exact absurd ha (hno length bytes)
    | given | entered => rfl
  cases e with
  | read | waitReturns | take | readCancelled => cases he
  | complete | dispose =>
    cases h
    rfl
  | stop =>
    simp only [go] at h
    split at h <;> cases h
    rfl
  | _ =>
    simp only [go] at h
    exact hnone (SshTerminalSession.goDrain_frame h).2.2

/-- Outside `ReadAsync` a session leaves the reader alone. -/
theorem reader_same (he : isReader e = false) (h : go t e = some (as, t')) : t'.reader = t.reader := by
  cases e with
  | read | waitReturns | take | readCancelled => cases he
  | complete | dispose =>
    cases h
    rfl
  | stop =>
    simp only [go] at h
    split at h <;> cases h
    rfl
  | _ =>
    simp only [go] at h
    exact (SshTerminalSession.goDrain_frame h).1

/-- How far `ReadAsync` has to go. -/
def stage : SshTerminalSession.Reader → Nat
  | .idle => 2
  | .waiting _ => 1
  | .taking _ => 0

/-- `ReadAsync` goes on. -/
theorem reader_waits {cancelled : Bool} (hcalls : calls cancelled e = true) (ht : Buffered t)
    (h : go t e = some (as, t')) (hbusy : t'.reader ≠ .idle) :
    as = [] ∧ t'.output = t.output ∧ Buffered t' ∧ stage t'.reader < stage t.reader := by
  cases e with
  | read length =>
    have hlength : length = 8192 := of_decide_eq_true hcalls
    simp only [go, goReader] at h
    split at h
    · rename_i hidle
      split at h
      · cases h
        exact absurd hidle hbusy
      · split at h <;> cases h
        · exact absurd hidle hbusy
        · refine ⟨rfl, rfl, ?_, by rw [hidle]; exact Nat.lt_succ_self 1⟩
          rintro n (hn | hn) <;> cases hn
          exact hlength
    · cases h
  | waitReturns =>
    simp only [go, goReader] at h
    split at h
    · rename_i length hwaiting
      split at h <;> cases h
      · refine ⟨rfl, rfl, ?_, by rw [hwaiting]; exact Nat.lt_succ_self 0⟩
        rintro n (hn | hn) <;> cases hn
        exact ht length (Or.inl hwaiting)
      · exact absurd rfl hbusy
      · exact absurd rfl hbusy
    · cases h
  | take =>
    simp only [go, goReader] at h
    split at h
    · split at h <;> cases h <;> exact absurd rfl hbusy
    · cases h
  | readCancelled =>
    simp only [go, goReader] at h
    split at h <;> cases h
    exact absurd rfl hbusy
  | _ => cases hcalls

/-- `ReadAsync` goes on or throws, or it returns. -/
theorem reader_actions (he : isReader e = true) (h : go t e = some (as, t')) :
    as = [] ∨ ∃ length bytes, as = [.returned length bytes] ∧ t'.reader = .idle := by
  cases e with
  | read length =>
    simp only [go, goReader] at h
    split at h
    · rename_i hidle
      split at h
      · cases h
        exact Or.inr ⟨_, _, rfl, hidle⟩
      · split at h <;> cases h
        · exact Or.inr ⟨_, _, rfl, hidle⟩
        · exact Or.inl rfl
    · cases h
  | waitReturns =>
    simp only [go, goReader] at h
    split at h
    · split at h <;> cases h
      · exact Or.inl rfl
      · exact Or.inr ⟨_, _, rfl, rfl⟩
      · exact Or.inl rfl
    · cases h
  | take =>
    simp only [go, goReader] at h
    split at h
    · split at h <;> cases h
      · exact Or.inr ⟨_, _, rfl, rfl⟩
      · exact Or.inl rfl
    · cases h
  | readCancelled =>
    simp only [go, goReader] at h
    split at h <;> cases h
    exact Or.inl rfl
  | _ => cases he

theorem result_reader (he : isReader e = true) (h : go t e = some (as, t')) :
    (result as).getD [] = as.flatMap Action.bytesReturned := by
  rcases reader_actions he h with rfl | ⟨length, bytes, rfl, -⟩
  · rfl
  · exact (List.append_nil bytes).symm

theorem entered_nil (he : isReader e = true) (h : go t e = some (as, t')) : as.flatMap Action.bytesEntered = [] := by
  rcases reader_actions he h with rfl | ⟨length, bytes, rfl, -⟩ <;> rfl

end Actions

/-- What the parsers of the page were given, over all its loads, as one text. -/
def given (p : Page) : Bytes := (p.parsed.map Chunk.bytes).flatten

/-- What of it the terminal on the screen was given. -/
def screen (p : Page) : Bytes := (p.screen.map Chunk.bytes).flatten

theorem screen_suffix_given (p : Page) : screen p <:+ given p := by
  obtain ⟨before, hbefore⟩ := p.screen_suffix
  refine ⟨(before.map Chunk.bytes).flatten, ?_⟩
  rw [screen, given, ← hbefore, List.map_append, List.flatten_append]

/-! ## What was read is what the sessions returned -/

variable {w w' : TerminalSessions.State}

theorem reads_of_read (w : TerminalSessions.State) (r i : Nat) (bytes : Option Bytes) (posted : Bool) (j : Nat) :
    (TerminalSessions.reads j (w.read r i bytes posted).history).flatten =
      (TerminalSessions.reads j w.history).flatten ++ if j = i then bytes.getD [] else [] := by
  have hunwind (v : TerminalSessions.State) : (v.unwind r).history = v.history :=
    (TerminalSessions.Fades.unwind v r).history
  have hout (bytes : Bytes) : (TerminalSessions.reads j (w.output i bytes).history).flatten =
      (TerminalSessions.reads j w.history).flatten ++ if j = i then bytes else [] := by
    have hhistory : (w.output i bytes).history =
        w.history ++ [.read i bytes, .output i (w.outputId + 1) (Dotnet.toBase64String bytes)] :=
      List.append_assoc _ _ _
    rw [hhistory, TerminalSessions.reads, List.filterMap_append, List.flatten_append]
    refine congrArg _ ?_
    by_cases hj : j = i
    · simp [TerminalSessions.Happening.bytesOf, hj]
    · simp [TerminalSessions.Happening.bytesOf, hj, Ne.symm hj]
  unfold TerminalSessions.State.read
  split
  · rw [hunwind]
    simp
  · rw [hunwind]
    simp
  · split
    · exact hout _
    · rw [hunwind]
      exact hout _

theorem reads_of_change {e : TerminalSessions.Event} (ht : TerminalSessions.Turns w) (hc : Change w e w')
    (he : ∀ r bytes posted, e ≠ .read r bytes posted) (j : Nat) :
    TerminalSessions.reads j w'.history = TerminalSessions.reads j w.history := by
  rcases TerminalLink.history_of_change ht hc with ⟨xs, hw, hxs⟩ | ⟨r, i, bytes, posted, rfl, -⟩
  · have hnone : xs.filterMap (TerminalSessions.Happening.bytesOf j) = [] :=
      List.filterMap_eq_nil_iff.mpr fun x hx => hxs x hx j
    rw [TerminalSessions.reads, hw, List.filterMap_append, hnone, List.append_nil]
    rfl
  · exact absurd rfl (he r (some bytes) posted)

theorem reads_of_link {l l' : TerminalLink.State} {e : TerminalLink.Event}
    (h : TerminalSessions.window.Reach l.window) (hs : TerminalLink.step json l e = some l') (he : isRead e = false)
    (j : Nat) : TerminalSessions.reads j l'.window.history = TerminalSessions.reads j l.window.history := by
  have hturns := (TerminalSessions.inv_of_reach h).turns
  cases TerminalLink.step_transition hs with
  | @window e w hm hw =>
    refine reads_of_change hturns (TerminalSessions.step_change hw) ?_ j
    rintro r bytes posted rfl
    cases he
  | @received m sent hsent =>
    obtain ⟨w, clipboard, hw, hl⟩ := TerminalLink.onMessage_eq json { l with page := { l.page with sent } } m
    rw [hl]
    rcases hw with rfl | ⟨m', rfl⟩
    · rfl
    · exact reads_of_change hturns (.message (m := m')) (by simp) j
  | delivered | task | loaded => rfl

/-! ## Runs -/

section Did

variable {i : Nat} {e : SshTerminalSession.Event} {as : List Action} {t : SshTerminalSession.State}

theorem runs_did (h : ∀ j, SshTerminalSession.session.Runs (s.log j) (s.session j))
    (hgo : go (s.session i) e = some (as, t)) (j : Nat) :
    SshTerminalSession.session.Runs ((s.did i e t).log j) ((s.did i e t).session j) := by
  by_cases hj : j = i
  · rw [hj]
    simp only [State.did, update_self]
    have hstep : SshTerminalSession.session.step (s.session i) e = some t := by
      simp only [SshTerminalSession.session, hgo, Option.map_some]
    exact .step e (h i) hstep
  · simp only [State.did, update_of_ne hj]
    exact h j

theorem buffered_did (h : ∀ j, Buffered (s.session j)) (ht : Buffered t) (j : Nat) :
    Buffered ((s.did i e t).session j) := by
  by_cases hj : j = i
  · rw [hj]
    simpa only [State.did, update_self] using ht
  · simpa only [State.did, update_of_ne hj] using h j

theorem returned_did (hgo : go (s.session i) e = some (as, t)) (j : Nat) : returned ((s.did i e t).log j) =
    returned (s.log j) ++ if j = i then as.flatMap Action.bytesReturned else [] := by
  by_cases hj : j = i
  · rw [hj, if_pos rfl]
    simp only [State.did, update_self]
    exact returned_snoc hgo
  · rw [if_neg hj, List.append_nil]
    simp only [State.did, update_of_ne hj]

end Did

/-- The window's step when `ReadAsync` returns. -/
theorem window_read {l l' : TerminalLink.State} {r i : Nat} {bytes : Option Bytes} {posted : Bool}
    (hr : l.window.phase r = .reading i)
    (hs : TerminalLink.step json l (.window (.read r bytes posted)) = some l') :
    l'.window = l.window.read r i bytes posted := by
  cases TerminalLink.step_transition hs with
  | window hm hw =>
    simp only [TerminalSessions.step, hr] at hw
    obtain ⟨-, hw⟩ := Option.ite_none_right_eq_some.mp hw
    exact (Option.some.inj hw).symm

/-- The window has read what its sessions returned. -/
structure Inv (json : WebMessageAsJson) (s : State) : Prop where
  link : (TerminalLink.link json).Reach s.link
  runs : ∀ i, SshTerminalSession.session.Runs (s.log i) (s.session i)
  reads : ∀ i, (TerminalSessions.reads i s.link.window.history).flatten = returned (s.log i)
  buffers : ∀ i, Buffered (s.session i)

theorem inv_shown : Inv json shown where
  link := ⟨[], .init rfl⟩
  runs _ := .init rfl
  reads _ := rfl
  buffers _ := buffered_of_idle rfl

theorem Inv.window (h : Inv json s) (hjson : ShortAcks json) : TerminalSessions.window.Reach s.link.window :=
  (TerminalLink.inv_of_reach hjson h.link).reach

theorem Inv.step (h : Inv json s) (hjson : ShortAcks json) (hs : (pipeline json).step s e = some s') :
    Inv json s' := by
  cases step_transition hs with
  | @link e link hread hlink =>
    refine ⟨Machine.reach_step e h.link hlink, h.runs, fun j => ?_, h.buffers⟩
    exact (congrArg List.flatten (reads_of_link (h.window hjson) hlink hread j)).trans (h.reads j)
  | @session i e as t hreader hgo =>
    have ht : Buffered t := by
      unfold Buffered
      rw [reader_same hreader hgo]
      exact h.buffers i
    refine ⟨h.link, runs_did h.runs hgo, fun j => ?_, buffered_did h.buffers ht⟩
    rw [returned_did hgo, returned_nil hreader hgo, ite_self, List.append_nil]
    exact h.reads j
  | @waits r i e as t posted hr hcalls hgo hbusy =>
    obtain ⟨hnone, -, ht, -⟩ := reader_waits hcalls (h.buffers i) hgo hbusy
    refine ⟨h.link, runs_did h.runs hgo, fun j => ?_, buffered_did h.buffers ht⟩
    rw [returned_did hgo, hnone, List.flatMap_nil, ite_self, List.append_nil]
    exact h.reads j
  | @returns r i e as t posted link hr hcalls hgo hidle hlink =>
    have hreach : (TerminalLink.link json).Reach link :=
      Machine.reach_step (.window (.read r (result as) posted)) h.link hlink
    have hbuffers : ∀ j, Buffered ((s.did i e t).session j) := buffered_did h.buffers (buffered_of_idle hidle)
    refine ⟨hreach, runs_did h.runs hgo, fun j => ?_, hbuffers⟩
    show (TerminalSessions.reads j link.window.history).flatten = returned ((s.did i e t).log j)
    rw [window_read hr hlink, reads_of_read, result_reader (isReader_of_calls hcalls) hgo, h.reads, returned_did hgo]

theorem inv_of_reach (hjson : ShortAcks json) (h : (pipeline json).Reach s) : Inv json s :=
  h.inv (fun _ hs => hs ▸ inv_shown) fun _ _ _ hinv hs => hinv.step hjson hs

theorem length_flatMap_le {α : Type} {f : α → Bytes} {n : Nat} {xs : List α} (h : ∀ x ∈ xs, (f x).length ≤ n) :
    (xs.flatMap f).length ≤ xs.length * n := by
  induction xs with
  | nil => exact Nat.zero_le _
  | cons x xs ih =>
    have hx := h x List.mem_cons_self
    have hxs := ih fun y hy => h y (List.mem_cons_of_mem x hy)
    rw [List.flatMap_cons, List.length_append, List.length_cons, Nat.succ_mul]
    omega

/-- What an output holds is at most 64 chunks in the queue, and one that is being read. -/
theorem held_length_le (o : BoundedTerminalOutput) : o.held.length ≤ 65 * 8192 := by
  have hpending : (BoundedTerminalOutput.remaining o.pending).length ≤ 8192 := by
    cases o.pending with
    | none => exact Nat.zero_le _
    | some p => exact (List.drop_sublist _ _).length_le.trans p.chunk.small
  have hitems : o.channel.items.length ≤ 64 := o.channel.bounded
  have hqueue : (o.channel.items.flatMap BoundedTerminalOutput.Chunk.bytes).length ≤ o.channel.items.length * 8192 :=
    length_flatMap_le fun chunk _ => chunk.small
  rw [BoundedTerminalOutput.held, List.length_append]
  omega

/-! ## What the terminal was given -/

theorem returned_written {log : List (SshTerminalSession.State × SshTerminalSession.Event)}
    {t : SshTerminalSession.State} (h : SshTerminalSession.session.Runs log t) : returned log <+: written log := by
  obtain ⟨haccepted, ⟨lost, hwritten, -⟩, -⟩ := SshTerminalSession.runs_books h
  rw [hwritten, haccepted, List.append_assoc, List.append_assoc]
  exact List.prefix_append _ _

theorem suffix_given {p : Page} {before reads : List Bytes} (h : p.parsed.map Chunk.bytes = before ++ reads) :
    reads.flatten <:+ given p := by
  rw [given, h, List.flatten_append]
  exact List.suffix_append _ _

/-- All but the last of these texts were given, and the last one may have been. -/
theorem suffix_given_last {p : Page} {before reads rest : List Bytes} (hsmall : ∀ bytes ∈ reads, bytes.length ≤ 8192)
    (h : p.parsed.map Chunk.bytes = before ++ reads.dropLast ++ rest)
    (hrest : 2 ≤ reads.length → rest.Sublist reads.getLast?.toList) :
    ∃ seen, seen <:+ given p ∧ seen <+: reads.flatten ∧ reads.flatten.length ≤ seen.length + 8192 := by
  rcases List.eq_nil_or_concat reads with rfl | ⟨first, last, rfl⟩
  · exact ⟨[], List.nil_suffix, List.nil_prefix, Nat.zero_le _⟩
  rw [List.concat_eq_append] at *
  have hlast : last.length ≤ 8192 := hsmall last (by simp)
  have hflatten : (first ++ [last]).flatten = first.flatten ++ last := by simp
  rw [List.dropLast_concat] at h
  rw [List.getLast?_concat] at hrest
  by_cases hfirst : first = []
  · refine ⟨[], List.nil_suffix, List.nil_prefix, ?_⟩
    rw [hflatten, hfirst]
    simpa using hlast
  · have hlength : 2 ≤ (first ++ [last]).length := by
      have hpos := List.length_pos_iff.mpr hfirst
      rw [List.length_append, List.length_singleton]
      omega
    rw [List.append_assoc] at h
    refine ⟨(first ++ rest).flatten, suffix_given h, ?_, ?_⟩
    · rcases List.sublist_singleton.mp (hrest hlength) with rfl | rfl
      · rw [hflatten, List.append_nil]
        exact List.prefix_append _ _
      · exact List.prefix_refl _
    · rw [hflatten, List.flatten_append, List.length_append, List.length_append]
      omega

/-- While the window reads, the parsers of the page were last given exactly what the session
    has returned, a beginning of what its shell has given; the screen shows all of it at its
    end, or an end of it. While the window waits for an acknowledgement, 8192 bytes of it at
    most are not there yet. The session holds no more than 65 chunks. -/
theorem screen_shows_shell (hjson : ShortAcks json) (h : (pipeline json).Reach s)
    (hruns : s.link.window.runs ≤ 2 ^ 32) :
    (∀ r i, s.link.window.phase r = .reading i →
        returned (s.log i) <:+ given s.link.page ∧ returned (s.log i) <+: written (s.log i) ∧
          (returned (s.log i) <:+ screen s.link.page ∨ screen s.link.page <:+ returned (s.log i))) ∧
      (∀ r a, s.link.window.phase r = .acknowledging a → ∃ i seen, s.link.window.session = some i ∧
        seen <:+ given s.link.page ∧ seen <+: written (s.log i) ∧
          (seen <:+ screen s.link.page ∨ screen s.link.page <:+ seen) ∧
          (returned (s.log i)).length ≤ seen.length + 8192) ∧
      ∀ i, (accepted (s.log i)).length ≤ (returned (s.log i)).length + 65 * 8192 := by
  have hinv := inv_of_reach hjson h
  have hlink := TerminalLink.inv_of_reach hjson hinv.link
  have hflight := hlink.flight hruns
  refine ⟨?_, ?_, ?_⟩
  · intro r i hr
    have hi : s.link.window.session = some i := (TerminalSessions.inv_of_reach hlink.reach).owns.reading r i hr
    obtain ⟨before, hscreen⟩ := hflight.shows hlink.reach (by rw [hr]; rfl) hi (by rw [Open, hr]; trivial)
    have hgiven := suffix_given hscreen
    rw [hinv.reads i] at hgiven
    exact ⟨hgiven, returned_written (hinv.runs i),
      List.suffix_or_suffix_of_suffix hgiven (screen_suffix_given _)⟩
  · intro r a hr
    obtain ⟨-, i, hi, -⟩ := (TerminalSessions.acks_of_reach hlink.reach).waits.waiting r a hr
    obtain ⟨before, rest, hscreen, hrest⟩ := hflight.shows_waiting hlink.reach (by rw [hr]; rfl) hi
    obtain ⟨seen, hsuffix, hprefix, hlength⟩ :=
      suffix_given_last (TerminalLink.reads_small hlink.reach i) hscreen hrest
    rw [hinv.reads i] at hprefix hlength
    exact ⟨i, seen, hi, hsuffix, hprefix.trans (returned_written (hinv.runs i)),
      List.suffix_or_suffix_of_suffix hsuffix (screen_suffix_given _), hlength⟩
  · intro i
    rw [(SshTerminalSession.runs_books (hinv.runs i)).accepted, List.length_append]
    exact Nat.add_le_add_left (held_length_le _) _

/-- A session opens, and accepts two bytes of its shell. -/
def twoBytes : List Event :=
  [.link (.window .reconnect), .link (.window (.stopReturns 0)), .link (.window (.restart 0)), .link (.loaded 0 none),
    .link .received, .link (.window (.initialized true)), .link (.window (.prepared 0 true)),
    .link (.delivered none ⟨[], []⟩), .link (.window (.connected 0 true)), .link (.window (.resized 0 true)),
    .session 0 .enter, .session 0 (.shellRead [72, 73]), .session 0 .offer]

/-- They are read and come to the parser, and the window reads again. -/
def twoBytesShown : List Event :=
  twoBytes ++ [.read 0 (.read 8192) true, .read 0 .waitReturns true, .read 0 .take true,
    .link (.delivered none ⟨[], []⟩), .link (.task (.timer ⟨[], []⟩)), .link .received,
    .link (.window (.waited 0 false))]

theorem screen_shows_two_bytes : ∃ s, (pipeline fun _ => []).Reach s ∧ returned (s.log 0) = [72, 73] ∧
    returned (s.log 0) <:+ given s.link.page ∧ returned (s.log 0) <+: written (s.log 0) ∧
    (returned (s.log 0) <:+ screen s.link.page ∨ screen s.link.page <:+ returned (s.log 0)) := by
  obtain ⟨log, s, hr, -, hp⟩ := Machine.exists_run (pipeline fun _ => []) (fun _ _ => True)
    (fun s => s.link.window.phase 0 = .reading 0 && s.link.window.runs = 1 && returned (s.log 0) = [72, 73])
    twoBytesShown rfl (by decide +kernel)
  simp only [Bool.and_eq_true, decide_eq_true_eq] at hp
  obtain ⟨⟨hphase, hruns⟩, hreturned⟩ := hp
  have hfew : s.link.window.runs ≤ 2 ^ 32 := by
    rw [hruns]
    decide
  obtain ⟨hreading, -⟩ := screen_shows_shell (fun _ => Nat.zero_le _) ⟨log, hr⟩ hfew
  exact ⟨s, ⟨log, hr⟩, hreturned, hreading 0 0 hphase⟩

end MythLab.App.TerminalPipeline
