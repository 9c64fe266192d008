/-
  MythLab.Ssh.SshTerminalSession — shell output drained into the terminal's output while
  it is read.

  `Drain` runs under a lock: one call at a time reads the shell and writes what it read,
  chunk by chunk, waiting for room. A read waits for a chunk, takes it, and copies what
  its buffer holds. Between any two awaits the other side may step, the output may be
  completed and the session disposed; each await may be cancelled. A step is `go`, with
  what it did (`Action`).

  Proved for every run: nothing that entered the queue is dropped or repeated, so what
  the reads returned is a prefix of what was written (`lossless`).
-/
import MythLab.Lib.Machine
import MythLab.Ssh.BoundedTerminalOutput

namespace MythLab.Ssh.SshTerminalSession

open Lib BoundedTerminalOutput

inductive Drain where
  /-- Nobody has the lock. -/
  | idle
  /-- At `while (shell.DataAvailable)`. -/
  | looping
  /-- In `WriteAsync`, before the chunk that these bytes start with. -/
  | writing (rest : Remainder)
  /-- In `WriteAsync`, the channel is full. -/
  | waiting (chunk : Chunk) (others : Bytes)

inductive Reader where
  | idle
  /-- At `WaitToReadAsync`. -/
  | waiting (length : Nat)
  /-- At the channel's `ReadAsync`. -/
  | taking (length : Nat)
  deriving DecidableEq, Repr

structure State where
  output : BoundedTerminalOutput
  drain : Drain
  reader : Reader
  /-- `DisposeAsync` was called. -/
  disposed : Bool
  /-- `stopped` is cancelled. -/
  stopped : Bool

inductive Event where
  /-- A call of `Drain` takes the lock. -/
  | enter
  /-- The shell has data and `Read` returns these bytes. -/
  | shellRead (bytes : Bytes)
  /-- The shell has no data. -/
  | noData
  /-- The shell is disposed, or fails otherwise. -/
  | shellThrows (isDisposed : Bool)
  /-- The channel's `WriteAsync` is called. -/
  | offer
  /-- There is room for the chunk that waits. -/
  | roomMade
  | writeCancelled
  | writeClosed
  /-- `output.Complete`, by the shell's events or by `DisposeAsync`. -/
  | complete (how : Completion)
  | dispose
  | stop
  /-- `ReadAsync` is called with a buffer of this length. -/
  | read (length : Nat)
  | waitReturns
  | take
  | readCancelled
  deriving DecidableEq, Repr

/-- What a step did. -/
inductive Action where
  /-- These bytes are given to `WriteAsync`. -/
  | given (bytes : Bytes)
  /-- A chunk entered the queue. -/
  | entered (bytes : Bytes)
  /-- `ReadAsync` with a buffer of this length returned these bytes. -/
  | returned (length : Nat) (bytes : Bytes)
  deriving DecidableEq, Repr

/-- `while (!bytes.IsEmpty)`, then back in `Drain`. -/
def afterChunk (others : Bytes) : Drain := if h : 0 < others.length then .writing ⟨others, h⟩ else .looping

/-- `Drain` and `WriteAsync` between their awaits. -/
def goDrain (s : State) : Event → Option (List Action × State)
  | .enter =>
    match s.drain with
    | .idle => some ([], if s.disposed then s else { s with drain := .looping })
    | _ => none
  | .shellRead bytes =>
    match s.drain with
    | .looping =>
      if h : 0 < bytes.length then some ([.given bytes], { s with drain := .writing ⟨bytes, h⟩ })
      else some ([], { s with drain := .idle })
    | _ => none
  | .noData =>
    match s.drain with
    | .looping => some ([], { s with drain := .idle })
    | _ => none
  | .shellThrows isDisposed =>
    match s.drain with
    | .looping =>
      some ([], { s with drain := .idle, output := if isDisposed then s.output.complete .done else s.output })
    | _ => none
  | .offer =>
    match s.drain with
    | .writing rest =>
      if s.stopped then some ([], { s with drain := .idle, output := s.output.complete .done })
      else if s.output.channel.completion ≠ none then some ([], { s with drain := .idle })
      else if room : s.output.channel.items.length < capacity then
        some ([.entered (Chunk.first rest).bytes],
          { s with drain := afterChunk (Chunk.others rest), output := s.output.enqueue (Chunk.first rest) room })
      else some ([], { s with drain := .waiting (Chunk.first rest) (Chunk.others rest) })
    | _ => none
  | .roomMade =>
    match s.drain with
    | .waiting chunk others =>
      if room : s.output.channel.items.length < capacity then
        if s.output.channel.completion = none then
          some ([.entered chunk.bytes], { s with drain := afterChunk others, output := s.output.enqueue chunk room })
        else none
      else none
    | _ => none
  | .writeCancelled =>
    match s.drain with
    | .waiting _ _ =>
      if s.stopped then some ([], { s with drain := .idle, output := s.output.complete .done }) else none
    | _ => none
  | .writeClosed =>
    match s.drain with
    | .waiting _ _ => if s.output.channel.completion ≠ none then some ([], { s with drain := .idle }) else none
    | _ => none
  | _ => none

/-- `ReadAsync` between its awaits. -/
def goReader (s : State) : Event → Option (List Action × State)
  | .read length =>
    match s.reader with
    | .idle =>
      if length = 0 then some ([.returned 0 []], s)
      else
        match s.output.pending with
        | some p => some ([.returned length (p.copied length)], { s with output := s.output.read p length })
        | none => some ([], { s with reader := .waiting length })
    | _ => none
  | .waitReturns =>
    match s.reader with
    | .waiting length =>
      match s.output.channel.items, s.output.channel.completion with
      | _ :: _, _ => some ([], { s with reader := .taking length })
      | [], some .done => some ([.returned length []], { s with reader := .idle })
      | [], some .failed => some ([], { s with reader := .idle })
      | [], none => none
    | _ => none
  | .take =>
    match s.reader with
    | .taking length =>
      match s.output.channel.items, s.output.channel.completion with
      | chunk :: _, _ =>
        some ([.returned length ((Pending.start chunk).copied length)],
          { s with reader := .idle, output := s.output.take chunk length })
      | [], some _ => some ([], { s with reader := .idle })
      | [], none => none
    | _ => none
  | .readCancelled =>
    match s.reader with
    | .idle => none
    | _ => some ([], { s with reader := .idle })
  | _ => none

def go (s : State) (e : Event) : Option (List Action × State) :=
  match e with
  | .complete how => some ([], { s with output := s.output.complete how })
  | .dispose => some ([], { s with disposed := true })
  | .stop => if s.disposed then some ([], { s with stopped := true }) else none
  | .read _ | .waitReturns | .take | .readCancelled => goReader s e
  | _ => goDrain s e

/-- A session from its construction. -/
def session : Machine State Event where
  init s := s = ⟨.empty, .idle, .idle, false, false⟩
  step s e := (go s e).map Prod.snd

/-! ## What a step can do -/

/-- What was given to `WriteAsync` and has not entered the queue. -/
def Drain.unsent : Drain → Bytes
  | .writing rest => rest.1
  | .waiting chunk others => chunk.bytes ++ others
  | _ => []

theorem unsent_afterChunk (others : Bytes) : (afterChunk others).unsent = others := by
  unfold afterChunk
  split
  · rfl
  · rename_i h
    exact (List.eq_nil_of_length_eq_zero (by omega)).symm

def Closed (s : State) : Prop := s.output.channel.completion ≠ none

/-- What a step does to the bytes on their way. -/
inductive Change (s s' : State) : List Action → Prop
  /-- They stay where they are. -/
  | stay : s'.output.held = s.output.held → s'.drain.unsent = s.drain.unsent → (Closed s → Closed s') → Change s s' []
  | given (bytes : Bytes) : s.drain.unsent = [] → s'.drain.unsent = bytes → s'.output = s.output →
      Change s s' [.given bytes]
  /-- A write ends before its last chunk. -/
  | lose : s'.output.held = s.output.held → s'.drain.unsent = [] → Closed s' → Change s s' []
  | entered (bytes : Bytes) : ¬ Closed s → s.drain.unsent = bytes ++ s'.drain.unsent →
      s'.output.held = s.output.held ++ bytes → Change s s' [.entered bytes]
  | returned (length : Nat) (bytes : Bytes) : s.output.held = bytes ++ s'.output.held →
      s'.drain.unsent = s.drain.unsent → (Closed s → Closed s') → Change s s' [.returned length bytes]

theorem goDrain_change {s s' : State} {e : Event} {as : List Action} (h : goDrain s e = some (as, s')) :
    Change s s' as := by
  cases e with
  | enter =>
    simp only [goDrain] at h
    split at h
    · rename_i hd
      cases h
      split
      · exact .stay rfl rfl id
      · exact .stay rfl (by rw [hd]; rfl) id
    · cases h
  | shellRead bytes =>
    simp only [goDrain] at h
    split at h
    · rename_i hd
      split at h <;> cases h
      · exact .given bytes (by rw [hd]; rfl) rfl rfl
      · exact .stay rfl (by rw [hd]; rfl) id
    · cases h
  | noData =>
    simp only [goDrain] at h
    split at h
    · rename_i hd
      cases h
      exact .stay rfl (by rw [hd]; rfl) id
    · cases h
  | shellThrows isDisposed =>
    simp only [goDrain] at h
    split at h
    · rename_i hd
      cases h
      cases isDisposed with
      | true => exact .stay rfl (by rw [hd]; rfl) fun _ => Channel.completion_complete _ _
      | false => exact .stay rfl (by rw [hd]; rfl) id
    · cases h
  | offer =>
    simp only [goDrain] at h
    split at h
    · rename_i rest hd
      have hunsent : s.drain.unsent = (Chunk.first rest).bytes ++ Chunk.others rest := by
        rw [hd, Chunk.first_others]; rfl
      split at h
      · cases h
        exact .lose rfl rfl (Channel.completion_complete _ _)
      · split at h
        · rename_i hclosed
          cases h
          exact .lose rfl rfl hclosed
        · rename_i hopen
          split at h <;> cases h
          · refine .entered _ hopen ?_ (held_enqueue _ _ _)
            show _ = _ ++ (afterChunk _).unsent
            rw [unsent_afterChunk, hunsent]
          · exact .stay rfl hunsent.symm id
    · cases h
  | roomMade =>
    simp only [goDrain] at h
    split at h
    · rename_i chunk others hd
      split at h
      · split at h
        · rename_i hopen
          cases h
          refine .entered _ (fun hclosed => hclosed hopen) ?_ (held_enqueue _ _ _)
          show _ = _ ++ (afterChunk _).unsent
          rw [unsent_afterChunk, hd]
          rfl
        · cases h
      · cases h
    · cases h
  | writeCancelled =>
    simp only [goDrain] at h
    split at h
    · split at h <;> cases h
      exact .lose rfl rfl (Channel.completion_complete _ _)
    · cases h
  | writeClosed =>
    simp only [goDrain] at h
    split at h
    · split at h <;> cases h
      rename_i hclosed
      exact .lose rfl rfl hclosed
    · cases h
  | _ => cases h

/-- While a read waits for a chunk none is pending. -/
def ReaderInv (s : State) : Prop := s.reader ≠ .idle → s.output.pending = none

theorem goReader_change {s s' : State} {e : Event} {as : List Action} (hs : ReaderInv s)
    (h : goReader s e = some (as, s')) : Change s s' as := by
  cases e with
  | read length =>
    simp only [goReader] at h
    split at h
    · split at h
      · cases h
        exact .returned 0 [] rfl rfl id
      · split at h <;> cases h
        · exact .returned _ _ (held_read ‹_› length) rfl id
        · exact .stay rfl rfl id
    · cases h
  | waitReturns =>
    simp only [goReader] at h
    split at h
    · split at h <;> cases h
      · exact .stay rfl rfl id
      · exact .returned _ [] rfl rfl id
      · exact .stay rfl rfl id
    · cases h
  | take =>
    simp only [goReader] at h
    split at h
    · rename_i length hr
      split at h <;> cases h
      · refine .returned _ _ (held_take (hs (by rw [hr]; simp)) ‹_› length) rfl id
      · exact .stay rfl rfl id
    · cases h
  | readCancelled =>
    simp only [goReader] at h
    split at h <;> cases h
    exact .stay rfl rfl id
  | _ => cases h

theorem go_change {s s' : State} {e : Event} {as : List Action} (hs : ReaderInv s) (h : go s e = some (as, s')) :
    Change s s' as := by
  cases e with
  | complete how => cases h; exact .stay rfl rfl fun _ => Channel.completion_complete _ _
  | dispose => cases h; exact .stay rfl rfl id
  | stop =>
    simp only [go] at h
    split at h <;> cases h
    exact .stay rfl rfl id
  | read _ | waitReturns | take | readCancelled =>
    simp only [go] at h
    exact goReader_change hs h
  | _ =>
    simp only [go] at h
    exact goDrain_change h

/-- The reader has no chunk pending while it waits for one. -/
theorem goReader_inv {s s' : State} {e : Event} {as : List Action} (hs : ReaderInv s)
    (h : goReader s e = some (as, s')) : ReaderInv s' := by
  cases e with
  | read length =>
    simp only [goReader] at h
    split at h
    · rename_i hr
      split at h
      · cases h; exact hs
      · split at h <;> cases h
        · intro hne
          exact absurd hr hne
        · intro _
          assumption
    · cases h
  | waitReturns =>
    simp only [goReader] at h
    split at h
    · rename_i hr
      have hnone := hs (by rw [hr]; simp)
      split at h <;> cases h <;> exact fun _ => hnone
    · cases h
  | take =>
    simp only [goReader] at h
    split at h
    · split at h <;> cases h <;> exact fun hne => absurd rfl hne
    · cases h
  | readCancelled =>
    simp only [goReader] at h
    split at h <;> cases h
    exact fun hne => absurd rfl hne
  | _ => cases h

/-- The writer leaves the reader alone. -/
theorem goDrain_frame {s s' : State} {e : Event} {as : List Action} (h : goDrain s e = some (as, s')) :
    s'.reader = s.reader ∧ s'.output.pending = s.output.pending ∧ ∀ length bytes, .returned length bytes ∉ as := by
  cases e <;> simp only [goDrain] at h
  all_goals
    repeat' split at h
    all_goals first
      | cases h; exact ⟨rfl, rfl, by simp⟩
      | cases h

theorem go_inv {s s' : State} {e : Event} {as : List Action} (hs : ReaderInv s) (h : go s e = some (as, s')) :
    ReaderInv s' := by
  cases e with
  | complete how => cases h; exact hs
  | dispose => cases h; exact hs
  | stop =>
    simp only [go] at h
    split at h <;> cases h
    exact hs
  | read _ | waitReturns | take | readCancelled =>
    simp only [go] at h
    exact goReader_inv hs h
  | _ =>
    simp only [go] at h
    obtain ⟨hreader, hpending, -⟩ := goDrain_frame h
    intro hne
    rw [hpending]
    exact hs (by rw [← hreader]; exact hne)

/-- A read with room in its buffer returns nothing only when the output is complete and
    nothing is held. -/
theorem returned_nil {s s' : State} {e : Event} {as : List Action} {length : Nat} (hs : ReaderInv s)
    (h : go s e = some (as, s')) (hlength : 0 < length) (hm : .returned length [] ∈ as) :
    Closed s ∧ s.output.held = [] := by
  -- a read that copies from a chunk returns something
  have copies {n : Nat} {p : Pending} (hm : Action.returned length [] ∈ [Action.returned n (p.copied n)]) : False := by
    injection List.mem_singleton.mp hm with hn hbytes
    exact copied_ne_nil p (by omega) hbytes.symm
  cases e with
  | read n =>
    simp only [go, goReader] at h
    split at h
    · split at h
      · cases h
        cases List.mem_singleton.mp hm
        omega
      · split at h <;> cases h
        · exact (copies hm).elim
        · cases hm
    · cases h
  | waitReturns =>
    simp only [go, goReader] at h
    split at h
    · rename_i hr
      have hnone := hs (by rw [hr]; simp)
      split at h <;> cases h
      · cases hm
      · rename_i hitems hdone
        exact ⟨by rw [Closed, hdone]; simp, by rw [BoundedTerminalOutput.held, hnone, hitems]; rfl⟩
      · cases hm
    · cases h
  | take =>
    simp only [go, goReader] at h
    split at h
    · split at h <;> cases h
      · exact (copies hm).elim
      · cases hm
    · cases h
  | readCancelled =>
    simp only [go, goReader] at h
    split at h <;> cases h
    cases hm
  | complete how => cases h; cases hm
  | dispose => cases h; cases hm
  | stop =>
    simp only [go] at h
    split at h <;> cases h
    cases hm
  | _ =>
    simp only [go] at h
    exact absurd hm ((goDrain_frame h).2.2 length [])

/-! ## Runs -/

def Action.bytesGiven : Action → Bytes
  | .given bytes => bytes
  | _ => []

def Action.bytesEntered : Action → Bytes
  | .entered bytes => bytes
  | _ => []

def Action.bytesReturned : Action → Bytes
  | .returned _ bytes => bytes
  | _ => []

/-- What the steps of a run did, in order. -/
def actions (log : List (State × Event)) : List Action := log.flatMap fun p => ((go p.1 p.2).map Prod.fst).getD []

/-- The bytes written: given to `WriteAsync`. -/
def written (log : List (State × Event)) : Bytes := (actions log).flatMap Action.bytesGiven

/-- The bytes accepted: those that entered the queue. -/
def accepted (log : List (State × Event)) : Bytes := (actions log).flatMap Action.bytesEntered

/-- The bytes that the reads returned. -/
def returned (log : List (State × Event)) : Bytes := (actions log).flatMap Action.bytesReturned

theorem actions_snoc (log : List (State × Event)) {s s' : State} {e : Event} {as : List Action}
    (h : go s e = some (as, s')) : actions (log ++ [(s, e)]) = actions log ++ as := by
  simp [actions, h]

/-- Where the bytes written are: returned, held by the output, lost by writes that ended
    before their last chunk, or still to be written. -/
structure Books (log : List (State × Event)) (s : State) : Prop where
  accepted : accepted log = returned log ++ s.output.held
  written : ∃ lost, written log = SshTerminalSession.accepted log ++ lost ++ s.drain.unsent ∧ (¬ Closed s → lost = [])
  reader : ReaderInv s

theorem Books.step {log : List (State × Event)} {s s' : State} {e : Event} {as : List Action} (hs : Books log s)
    (h : go s e = some (as, s')) : Books (log ++ [(s, e)]) s' := by
  obtain ⟨haccepted, ⟨lost, hwritten, hlost⟩, hreader⟩ := hs
  have hactions := actions_snoc log h
  have hw : SshTerminalSession.written (log ++ [(s, e)]) = SshTerminalSession.written log ++ as.flatMap Action.bytesGiven := by
    simp [SshTerminalSession.written, hactions]
  have ha : SshTerminalSession.accepted (log ++ [(s, e)]) =
      SshTerminalSession.accepted log ++ as.flatMap Action.bytesEntered := by
    simp [SshTerminalSession.accepted, hactions]
  have hr : returned (log ++ [(s, e)]) = returned log ++ as.flatMap Action.bytesReturned := by
    simp [returned, hactions]
  have hinv := go_inv hreader h
  cases go_change hreader h with
  | stay hheld hunsent hclosed =>
    simp only [List.flatMap_nil, List.append_nil] at hw ha hr
    refine ⟨by rw [ha, hr, hheld]; exact haccepted, ⟨lost, by rw [hw, ha, hunsent]; exact hwritten, ?_⟩, hinv⟩
    intro hopen
    exact hlost fun hc => hopen (hclosed hc)
  | given bytes hnone hunsent hout =>
    simp only [List.flatMap_cons, List.flatMap_nil, List.append_nil, Action.bytesGiven, Action.bytesEntered, Action.bytesReturned]
      at hw ha hr
    refine ⟨by rw [ha, hr, hout]; exact haccepted, ⟨lost, ?_, ?_⟩, hinv⟩
    · rw [hw, ha, hwritten, hnone, hunsent, List.append_nil]
    · intro hopen
      exact hlost (by unfold Closed at hopen ⊢; rw [← hout]; exact hopen)
  | lose hheld hunsent hclosed =>
    simp only [List.flatMap_nil, List.append_nil] at hw ha hr
    refine ⟨by rw [ha, hr, hheld]; exact haccepted, ⟨lost ++ s.drain.unsent, ?_, fun hopen => absurd hclosed hopen⟩, hinv⟩
    rw [hw, ha, hwritten, hunsent, List.append_nil, List.append_assoc]
  | entered bytes hopen hunsent hheld =>
    simp only [List.flatMap_cons, List.flatMap_nil, List.append_nil, Action.bytesGiven, Action.bytesEntered, Action.bytesReturned]
      at hw ha hr
    refine ⟨by rw [ha, hr, hheld, haccepted, List.append_assoc], ⟨[], ?_, fun _ => rfl⟩, hinv⟩
    rw [hw, ha, hwritten, hlost hopen, hunsent]
    simp
  | returned length bytes hheld hunsent hclosed =>
    simp only [List.flatMap_cons, List.flatMap_nil, List.append_nil, Action.bytesGiven, Action.bytesEntered, Action.bytesReturned]
      at hw ha hr
    refine ⟨by rw [ha, hr, haccepted, hheld, List.append_assoc], ⟨lost, by rw [hw, ha, hunsent]; exact hwritten, ?_⟩, hinv⟩
    intro hopen
    exact hlost fun hc => hopen (hclosed hc)

theorem runs_books {log : List (State × Event)} {s : State} (h : session.Runs log s) : Books log s := by
  refine h.log_inv ?_ ?_
  · intro s hs
    cases hs
    exact ⟨rfl, ⟨[], rfl, fun _ => rfl⟩, fun hne => absurd rfl hne⟩
  · intro log s e s' _ ih hs
    obtain ⟨⟨as, _⟩, hgo, rfl⟩ := Option.map_eq_some_iff.mp hs
    exact ih.step hgo

/-- The steps at which a read or a write is cancelled. -/
def Cancels (s : State) (e : Event) : Prop := e = .readCancelled ∨ e = .writeCancelled ∨ (e = .offer ∧ s.stopped = true)

theorem cancels_keeps {s s' : State} {e : Event} {as : List Action} (h : go s e = some (as, s')) (hc : Cancels s e) :
    as = [] ∧ s'.output.held = s.output.held := by
  rcases hc with rfl | rfl | ⟨rfl, hstopped⟩
  · simp only [go, goReader] at h
    split at h <;> cases h
    exact ⟨rfl, rfl⟩
  · simp only [go, goDrain] at h
    split at h
    · split at h <;> cases h
      exact ⟨rfl, rfl⟩
    · cases h
  · simp only [go, goDrain, hstopped, if_true] at h
    split at h <;> cases h
    exact ⟨rfl, rfl⟩

/-- In every run: what the reads returned is a prefix of what was written; the queue has
    at most 64 chunks of at most 8192 bytes; what entered it was returned or is held, in
    order; a read with room in its buffer returns nothing only after completion, when all
    that entered was returned; and a cancelled read or write moves no accepted byte. -/
theorem lossless (log : List (State × Event)) (s : State) (h : session.Runs log s) :
    returned log <+: written log ∧
    (s.output.channel.items.length ≤ 64 ∧ ∀ chunk ∈ s.output.channel.items, chunk.bytes.length ≤ 8192) ∧
    accepted log = returned log ++ s.output.held ∧
    (∀ e as s' length, go s e = some (as, s') → .returned length [] ∈ as → 0 < length →
      s.output.channel.completion ≠ none ∧ returned log = accepted log) ∧
    ∀ e as s', go s e = some (as, s') → Cancels s e → as = [] ∧ s'.output.held = s.output.held := by
  obtain ⟨haccepted, ⟨lost, hwritten, -⟩, hreader⟩ := runs_books h
  refine ⟨?_, ⟨s.output.channel.bounded, fun chunk _ => chunk.small⟩, haccepted, ?_, ?_⟩
  · rw [hwritten, haccepted, List.append_assoc, List.append_assoc]
    exact List.prefix_append _ _
  · intro e as s' length hgo hm hlength
    obtain ⟨hclosed, hheld⟩ := returned_nil hreader hgo hlength hm
    refine ⟨hclosed, ?_⟩
    rw [haccepted, hheld, List.append_nil]
  · intro e as s' hgo hcancel
    exact cancels_keeps hgo hcancel

/-- Three bytes are written and read through a buffer of two. -/
def twoReads : List Event :=
  [.enter, .shellRead [1, 2, 3], .offer, .noData, .read 2, .waitReturns, .take, .read 2, .complete .done, .read 2]

theorem two_reads_lossless : ∃ log s, session.Runs log s ∧ returned log = [1, 2, 3] ∧ written log = [1, 2, 3] ∧
    returned log <+: written log := by
  have h : session.Runs _ _ := Machine.runs_of_exec rfl (show session.exec _ twoReads = _ from rfl)
  exact ⟨_, _, h, rfl, rfl, (lossless _ _ h).1⟩

end MythLab.Ssh.SshTerminalSession
