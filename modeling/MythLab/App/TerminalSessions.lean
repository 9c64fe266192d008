/-
  MythLab.App.TerminalSessions — one terminal window in full: its runs, their sessions, the
  write loops, and the browser's messages.

  A step is what runs on the UI thread between two awaits. What an await answers (the
  browser, `connect`, the session) and the order of everything are left to the events, the
  browser's messages too: an acknowledgement may come at any time, with any id.

  Runs, sessions, the tasks the read loop waits for and the calls of `StopAsync` are known
  by their numbers. `ReconnectAsync` makes a cancellation source, a channel and a run
  together, so the three have one number. `App.TerminalWindow` is this window as the
  application's shutdown sees it.
-/
import Mathlib.Logic.Function.Basic
import MythLab.Lib.Machine
import MythLab.Dotnet.Base64

namespace MythLab.App.TerminalSessions

open Lib Dotnet Function

/-! ## The window -/

/-- `Input`: bytes to write, or a size to tell. -/
inductive Input where
  | bytes (bytes : List UInt8)
  | size (columns rows : Int)
  deriving DecidableEq, Repr

/-- An input in a channel, and the session that was open when it was queued. -/
structure Queued where
  session : Nat
  value : Input
  deriving DecidableEq, Repr

/-- What a run of `RunAsync` waits for. -/
inductive Phase where
  /-- `initialization`. -/
  | initializing
  /-- `connect`. -/
  | connecting
  /-- The first `ResizeAsync`. -/
  | resizing
  /-- `ReadAsync` of a session. -/
  | reading (session : Nat)
  /-- `WaitForAcknowledgementAsync`. -/
  | acknowledging (acknowledgement : Nat)
  /-- `DisposeAsync`. -/
  | disposing
  /-- The write loop. -/
  | joining
  | ended
  deriving DecidableEq, Repr

inductive WriterPhase where
  /-- It waits for an input. -/
  | idle
  /-- The session has an input of it. -/
  | writing
  | ended
  deriving DecidableEq, Repr

/-- A run's `WriteLoopAsync`. -/
structure Writer where
  target : Nat
  channel : Nat
  phase : WriterPhase
  deriving DecidableEq, Repr

inductive Caller where
  | disconnect
  | reconnect
  | close
  deriving DecidableEq, Repr

inductive StopPhase where
  /-- It waits for the run. -/
  | waiting
  | returned
  /-- Its caller has run on. -/
  | resumed
  deriving DecidableEq, Repr

/-- A call of `StopAsync`, with its locals. -/
structure Stop where
  stopping : Option Nat
  task : Option Nat
  caller : Caller
  phase : StopPhase
  deriving DecidableEq, Repr

/-- The task `initialization`; whether it succeeded. -/
inductive Initialization where
  | notStarted
  | running
  | ended (ok : Bool)
  deriving DecidableEq, Repr

/-- What has passed between the sessions, the window and the browser. -/
inductive Happening where
  /-- `ReadAsync` has read bytes. -/
  | read (session : Nat) (bytes : List UInt8)
  /-- The message `reset` is posted. -/
  | reset
  /-- The message `output` is posted, for a session. -/
  | output (session : Nat) (id : Int32) (data : Str)
  /-- A message `ack` has come. -/
  | acknowledged (id : Int32)
  deriving DecidableEq, Repr

structure State where
  /-- How many runs have started. -/
  runs : Nat
  /-- A run that has not started is as one that has ended. -/
  phase : Nat → Phase
  writer : Nat → Option Writer
  /-- The token of each run is cancelled. -/
  cancelled : Nat → Bool
  /-- What the channel of each run holds. -/
  queue : Nat → List Queued
  /-- How many sessions `connect` has returned. -/
  sessions : Nat
  /-- The run that connected. -/
  openedBy : Nat → Nat
  /-- The runs that have called `DisposeAsync` of the session. -/
  disposals : Nat → List Nat
  /-- What the session was given to write. -/
  written : Nat → List Queued
  /-- How many tasks to wait for an acknowledgement have been made. -/
  acknowledgements : Nat
  completed : Nat → Bool
  /-- How many calls of `StopAsync` there have been. -/
  stops : Nat
  stop : Nat → Stop
  -- The fields of the window.
  running : Option Nat
  cancellation : Option Nat
  session : Option Nat
  input : Option Nat
  acknowledgement : Option Nat
  outputId : Int32
  columns : Int
  rows : Int
  initialization : Initialization
  /-- The browser has said so. -/
  ready : Bool
  restarting : Bool
  closing : Bool
  drained : Bool
  requiresReopen : Bool
  /-- Oldest first. -/
  history : List Happening

/-- A window that has just been made. -/
def shown : State where
  runs := 0
  phase _ := .ended
  writer _ := none
  cancelled _ := false
  queue _ := []
  sessions := 0
  openedBy _ := 0
  disposals _ := []
  written _ := []
  acknowledgements := 0
  completed _ := false
  stops := 0
  stop _ := ⟨none, none, .disconnect, .resumed⟩
  running := none
  cancellation := none
  session := none
  input := none
  acknowledgement := none
  outputId := 0
  columns := 100
  rows := 30
  initialization := .notStarted
  ready := false
  restarting := false
  closing := false
  drained := false
  requiresReopen := false
  history := []

/-- A message of the browser that `OnMessage` takes. -/
inductive Message where
  | ready (cols lines : Int)
  | resize (cols lines : Int)
  | input (data : Str)
  | ack (id : Int32)
  deriving DecidableEq, Repr

inductive Event where
  | reconnect
  | disconnect
  /-- `CloseSessionAsync`; `OnClosing` calls it too. -/
  | close
  /-- `StopAsync` runs on after the run. -/
  | stopReturns (stop : Nat)
  /-- `ReconnectAsync` runs on after its `StopAsync`. -/
  | restart (stop : Nat)
  /-- `CloseCoreAsync` runs on after its waits. -/
  | closed (stop : Nat)
  | initialized (ok : Bool)
  /-- `ProcessFailed` -/
  | rendererFails
  | message (m : Message)
  /-- `Paste` comes to its end: the text, and whether its lines were allowed. -/
  | paste (text : Str) (allowed : Bool)
  /-- A run goes on after `initialization`; `posted`, that the browser took the message. -/
  | prepared (run : Nat) (posted : Bool)
  | connected (run : Nat) (ok : Bool)
  | resized (run : Nat) (ok : Bool)
  /-- `ReadAsync` throws (`none`), or has read bytes; `posted` as in `prepared`. -/
  | read (run : Nat) (bytes : Option (List UInt8)) (posted : Bool)
  /-- A round of `WaitForAcknowledgementAsync`; `late`, that two visible minutes are over. -/
  | waited (run : Nat) (late : Bool)
  | disposed (run : Nat)
  | joined (run : Nat)
  | writerTakes (run : Nat)
  | writerReturns (run : Nat) (ok : Bool)
  /-- The write loop's token ends it. -/
  | writerStops (run : Nat)
  deriving DecidableEq, Repr

namespace State

variable (s : State)

/-! ## What runs between two awaits -/

def setPhase (r : Nat) (phase : Phase) : State := { s with phase := update s.phase r phase }

@[simp] theorem setPhase_self (r : Nat) (phase : Phase) : (s.setPhase r phase).phase r = phase := update_self ..

/-- `cancellation?.Cancel()` -/
def cancel : State :=
  match s.cancellation with
  | none => s
  | some c => { s with cancelled := update s.cancelled c true }

/-- `RunAsync` past the disposal: the end, where there is no write loop. -/
def leave (r : Nat) : State := s.setPhase r (if s.writer r = none then .ended else .joining)

/-- The `finally` of `RunAsync`, up to its first await. -/
def unwind (r : Nat) : State :=
  match s.session with
  | none => s.cancel.leave r
  | some i => { s.cancel.setPhase r .disposing with disposals := update s.disposals i (s.disposals i ++ [r]) }

/-- `session.ReadAsync`; without a session the dereference throws. -/
def startRead (r : Nat) : State :=
  match s.session with
  | none => s.unwind r
  | some i => s.setPhase r (.reading i)

/-- Something has passed. -/
def record (h : Happening) : State := { s with history := s.history ++ [h] }

def prepared (r : Nat) (posted : Bool) : State :=
  if s.cancelled r ∨ s.initialization = .ended false then s.unwind r
  else if posted then (s.record .reset).setPhase r .connecting
  else (s.record .reset).unwind r

def connected (r : Nat) (ok : Bool) : State :=
  if ok then
    { s.setPhase r .resizing with
      sessions := s.sessions + 1
      openedBy := update s.openedBy s.sessions r
      disposals := update s.disposals s.sessions []
      written := update s.written s.sessions []
      session := some s.sessions }
  else s.unwind r

def resized (r : Nat) (ok : Bool) : State :=
  match ok, s.session, s.input with
  | true, some i, some c => { s with writer := update s.writer r (some ⟨i, c, .idle⟩) }.startRead r
  | _, _, _ => s.unwind r

/-- A new task to wait for, the next id, and the message with the bytes. -/
def output (i : Nat) (bytes : List UInt8) : State :=
  { (s.record (.read i bytes)).record (.output i (s.outputId + 1) (toBase64String bytes)) with
    acknowledgement := some s.acknowledgements
    acknowledgements := s.acknowledgements + 1
    completed := update s.completed s.acknowledgements false
    outputId := s.outputId + 1 }

def read (r i : Nat) (bytes : Option (List UInt8)) (posted : Bool) : State :=
  match bytes with
  | none | some [] => s.unwind r
  | some bytes =>
    if posted then (s.output i bytes).setPhase r (.acknowledging s.acknowledgements) else (s.output i bytes).unwind r

def waited (r a : Nat) (late : Bool) : State :=
  if s.cancelled r || late then s.unwind r else if s.completed a then s.startRead r else s

def disposed (r : Nat) : State := { s with session := none }.leave r

/-- The write loop takes the oldest input, and gives it to its session. -/
def writerTakes (r : Nat) (w : Writer) (q : Queued) (rest : List Queued) : State :=
  { s with
    queue := update s.queue w.channel rest
    written := update s.written w.target (s.written w.target ++ [q])
    writer := update s.writer r (some { w with phase := .writing }) }

/-- The `catch` of `WriteLoopAsync`. -/
def writerFails (r : Nat) (w : Writer) : State :=
  { s.cancel with writer := update s.writer r (some { w with phase := .ended }) }

/-- `Queue` -/
def enqueue (value : Input) : State :=
  match s.session, s.cancellation, s.input with
  | some i, some c, some ch =>
    if s.cancelled c then s
    else if (s.queue ch).length < 64 then { s with queue := update s.queue ch (s.queue ch ++ [⟨i, value⟩]) }
    else s.cancel
  | _, _, _ => s

def setSize (cols lines : Int) : State :=
  { s with columns := max 2 (min cols 500), rows := max 1 (min lines 300) }

def onMessage : Message → State
  | .ready cols lines => { s.setSize cols lines with ready := true }
  | .resize cols lines =>
    (s.setSize cols lines).enqueue (.size (s.setSize cols lines).columns (s.setSize cols lines).rows)
  | .input data => if data.length ≤ 16384 then s.enqueue (.bytes (utf8 data)) else s
  | .ack id =>
    match s.acknowledgement with
    | some a =>
      if id = s.outputId then { s.record (.acknowledged id) with completed := update s.completed a true }
      else s.record (.acknowledged id)
    | none => s.record (.acknowledged id)

/-- `Paste`. The window goes on while it asks; `Queue` looks at the session again. -/
def paste (text : Str) (allowed : Bool) : State :=
  if 32768 < text.length then s
  else if (text.contains (chr '\n') || text.contains (chr '\r')) && !allowed then s
  else s.enqueue (.bytes (utf8 text))

/-- `StopAsync`, up to its await. -/
def beginStop (caller : Caller) : State :=
  { s.cancel with stops := s.stops + 1, stop := update s.stop s.stops ⟨s.cancellation, s.running, caller, .waiting⟩ }

def setStop (k : Nat) (phase : StopPhase) : State := { s with stop := update s.stop k { s.stop k with phase } }

def stopReturns (k : Nat) : State :=
  { s.setStop k .returned with
    cancellation := if s.cancellation = (s.stop k).stopping then none else s.cancellation }

/-- A cancellation source and a channel are made, and `RunAsync` starts. -/
def startRun : State :=
  { s with
    runs := s.runs + 1
    phase := update s.phase s.runs .initializing
    writer := update s.writer s.runs none
    cancelled := update s.cancelled s.runs false
    queue := update s.queue s.runs []
    running := some s.runs
    cancellation := some s.runs
    input := some s.runs
    initialization := if s.initialization = .notStarted then .running else s.initialization }

def restart (k : Nat) : State :=
  if s.closing then { s.setStop k .resumed with restarting := false }
  else { s.setStop k .resumed with restarting := false }.startRun

/-- The task of a call of `StopAsync` has ended, or there was none. -/
def hasEnded (task : Option Nat) : Prop := ∀ r ∈ task, s.phase r = .ended

instance (task : Option Nat) : Decidable (s.hasEnded task) := inferInstanceAs (Decidable (∀ r ∈ task, _))

end State

def step (s : State) : Event → Option State
  | .reconnect =>
    if s.closing || s.restarting || s.requiresReopen then some s
    else some { s.beginStop .reconnect with restarting := true }
  | .disconnect => some (s.beginStop .disconnect)
  | .close => if s.closing then some s else some { s.beginStop .close with closing := true }
  | .stopReturns k =>
    if (s.stop k).phase = .waiting ∧ s.hasEnded (s.stop k).task then some (s.stopReturns k) else none
  | .restart k =>
    if (s.stop k).caller = .reconnect ∧ (s.stop k).phase = .returned then some (s.restart k) else none
  | .closed k =>
    if (s.stop k).caller = .close ∧ (s.stop k).phase = .returned ∧ s.initialization ≠ .running then
      some { s.setStop k .resumed with drained := true }
    else none
  | .initialized ok =>
    -- It waits for the browser's first message, for twenty seconds at most.
    if s.initialization = .running ∧ (ok → s.ready) then
      some { s with initialization := .ended ok, requiresReopen := s.requiresReopen || !ok }
    else none
  | .rendererFails => some { s.cancel with requiresReopen := true }
  | .message m => some (s.onMessage m)
  | .paste text allowed => some (s.paste text allowed)
  | .prepared r posted =>
    if s.phase r = .initializing ∧ (s.cancelled r ∨ s.initialization ≠ .running) then some (s.prepared r posted) else none
  | .connected r ok => if s.phase r = .connecting then some (s.connected r ok) else none
  | .resized r ok => if s.phase r = .resizing then some (s.resized r ok) else none
  | .read r bytes posted =>
    match s.phase r with
    | .reading i => if ∀ b ∈ bytes, b.length ≤ 8192 then some (s.read r i bytes posted) else none
    | _ => none
  | .waited r late =>
    match s.phase r with
    | .acknowledging a => some (s.waited r a late)
    | _ => none
  | .disposed r => if s.phase r = .disposing then some (s.disposed r) else none
  | .joined r =>
    if s.phase r = .joining ∧ ∀ w ∈ s.writer r, w.phase = .ended then some (s.setPhase r .ended) else none
  | .writerTakes r =>
    match s.writer r with
    | some w =>
      match w.phase, s.queue w.channel with
      | .idle, q :: rest => some (s.writerTakes r w q rest)
      | _, _ => none
    | none => none
  | .writerReturns r ok =>
    match s.writer r with
    | some w =>
      if w.phase = .writing then
        if ok then some { s with writer := update s.writer r (some { w with phase := .idle }) } else some (s.writerFails r w)
      else none
    | none => none
  | .writerStops r =>
    match s.writer r with
    | some w => if w.phase = .idle ∧ s.cancelled r then some (s.writerFails r w) else none
    | none => none

def window : Machine State Event := ⟨(· = shown), step⟩

/-! ## What the operations change -/

namespace State

variable (s : State)

/-- The tokens after an operation that leads a run to a phase: none is taken back, and past
    its `finally` the run has cancelled the current one. -/
def Cancels (f : Nat → Bool) (p : Phase) : Prop :=
  (∀ r, s.cancelled r = true → f r = true) ∧
    (p = .disposing ∨ p = .joining ∨ p = .ended → ∀ c, s.cancellation = some c → f c = true)

theorem cancel_eq : ∃ f, (∀ p, s.Cancels f p) ∧ s.cancel = { s with cancelled := f } := by
  unfold cancel
  split
  · rename_i hnone
    exact ⟨s.cancelled, fun _ => ⟨fun _ => id, fun _ c hc => nomatch hnone.symm.trans hc⟩, rfl⟩
  · rename_i c hc
    refine ⟨update s.cancelled c true, fun _ => ⟨fun r hr => ?_, fun _ c' hc' => ?_⟩, rfl⟩
    · by_cases hrc : r = c
      · rw [hrc, update_self]
      · rwa [update_of_ne hrc]
    · cases hc.symm.trans hc'
      exact update_self ..

theorem beginStop_eq (caller : Caller) : ∃ f, (∀ p, s.Cancels f p) ∧ s.beginStop caller = { s with
    cancelled := f
    stops := s.stops + 1
    stop := update s.stop s.stops ⟨s.cancellation, s.running, caller, .waiting⟩ } := by
  obtain ⟨f, hc, hf⟩ := s.cancel_eq
  exact ⟨f, hc, by rw [beginStop, hf]⟩

theorem unwind_eq (r : Nat) : ∃ f d p, (p = .disposing ∨ p = .joining ∨ p = .ended) ∧ s.Cancels f p ∧
    s.unwind r = { s with cancelled := f, disposals := d, phase := update s.phase r p } := by
  obtain ⟨f, hc, hf⟩ := s.cancel_eq
  unfold unwind
  rw [hf]
  split
  · by_cases hw : s.writer r = none
    · exact ⟨f, s.disposals, .ended, by simp, hc _, by simp only [leave, setPhase, hw, if_true]⟩
    · exact ⟨f, s.disposals, .joining, by simp, hc _, by simp only [leave, setPhase, hw, if_false]⟩
  · exact ⟨f, _, .disposing, by simp, hc _, rfl⟩

/-- Nothing is cancelled on the way to a phase before the `finally`. -/
theorem cancels_self {p : Phase} (hp : ¬ (p = .disposing ∨ p = .joining ∨ p = .ended)) : s.Cancels s.cancelled p :=
  ⟨fun _ => id, fun h => absurd h hp⟩

theorem startRead_eq (r : Nat) : ∃ f d p, s.Cancels f p ∧
    s.startRead r = { s with cancelled := f, disposals := d, phase := update s.phase r p } := by
  unfold startRead
  split
  · obtain ⟨f, d, p, -, hc, hs⟩ := s.unwind_eq r
    exact ⟨f, d, p, hc, hs⟩
  · exact ⟨s.cancelled, s.disposals, _, s.cancels_self (by simp), rfl⟩

theorem resized_eq (r : Nat) (ok : Bool) : ∃ f d p w, s.Cancels f p ∧
    s.resized r ok = { s with cancelled := f, disposals := d, phase := update s.phase r p, writer := w } := by
  unfold resized
  split
  · rename_i i c _ _
    obtain ⟨f, d, p, hc, hs⟩ := { s with writer := update s.writer r (some ⟨i, c, .idle⟩) }.startRead_eq r
    exact ⟨f, d, p, _, hc, hs⟩
  · obtain ⟨f, d, p, -, hc, hs⟩ := s.unwind_eq r
    exact ⟨f, d, p, s.writer, hc, hs⟩

theorem prepared_eq (r : Nat) (posted : Bool) : ∃ f d p h, s.Cancels f p ∧ s.prepared r posted =
    { s with cancelled := f, disposals := d, phase := update s.phase r p, history := h } := by
  unfold prepared
  split
  · obtain ⟨f, d, p, -, hc, hs⟩ := s.unwind_eq r
    exact ⟨f, d, p, s.history, hc, hs⟩
  · split
    · exact ⟨s.cancelled, s.disposals, _, _, s.cancels_self (by simp), rfl⟩
    · obtain ⟨f, d, p, -, hc, hs⟩ := (s.record .reset).unwind_eq r
      exact ⟨f, d, p, _, hc, hs⟩

theorem read_eq (r i : Nat) (bytes : Option (List UInt8)) (posted : Bool) : ∃ f d p h a n c o, s.Cancels f p ∧
    s.read r i bytes posted = { s with
      cancelled := f
      disposals := d
      phase := update s.phase r p
      history := h
      acknowledgement := a
      acknowledgements := n
      completed := c
      outputId := o } := by
  obtain ⟨f, d, p, -, hc, hs⟩ := s.unwind_eq r
  unfold read
  split
  · exact ⟨f, d, p, s.history, s.acknowledgement, s.acknowledgements, s.completed, s.outputId, hc, hs⟩
  · exact ⟨f, d, p, s.history, s.acknowledgement, s.acknowledgements, s.completed, s.outputId, hc, hs⟩
  · rename_i bytes _
    split
    · refine ⟨s.cancelled, s.disposals, .acknowledging s.acknowledgements, (s.output i bytes).history,
        some s.acknowledgements, s.acknowledgements + 1, update s.completed s.acknowledgements false, s.outputId + 1,
        s.cancels_self (by simp), ?_⟩
      simp only [output, record, setPhase]
    · obtain ⟨f, d, p, -, hc, hs⟩ := (s.output i bytes).unwind_eq r
      refine ⟨f, d, p, (s.output i bytes).history, some s.acknowledgements, s.acknowledgements + 1,
        update s.completed s.acknowledgements false, s.outputId + 1, hc, ?_⟩
      rw [hs]
      simp only [output, record]

theorem waited_eq {r a : Nat} (hr : s.phase r = .acknowledging a) (late : Bool) : ∃ f d p, s.Cancels f p ∧
    s.waited r a late = { s with cancelled := f, disposals := d, phase := update s.phase r p } := by
  unfold waited
  split
  · obtain ⟨f, d, p, -, hc, hs⟩ := s.unwind_eq r
    exact ⟨f, d, p, hc, hs⟩
  · split
    · exact s.startRead_eq r
    · exact ⟨s.cancelled, s.disposals, s.phase r, s.cancels_self (by simp [hr]), by rw [update_eq_self]⟩

theorem enqueue_eq (value : Input) : ∃ f q, (∀ r, s.cancelled r = true → f r = true) ∧
    s.enqueue value = { s with cancelled := f, queue := q } := by
  obtain ⟨f, hc, hf⟩ := s.cancel_eq
  unfold enqueue
  split
  · split
    · exact ⟨_, _, fun _ => id, rfl⟩
    · split
      · exact ⟨_, _, fun _ => id, rfl⟩
      · exact ⟨f, s.queue, (hc .ended).1, hf⟩
  · exact ⟨_, _, fun _ => id, rfl⟩

theorem paste_eq (text : Str) (allowed : Bool) : ∃ f q, (∀ r, s.cancelled r = true → f r = true) ∧
    s.paste text allowed = { s with cancelled := f, queue := q } := by
  unfold paste
  split
  · exact ⟨_, _, fun _ => id, rfl⟩
  · split
    · exact ⟨_, _, fun _ => id, rfl⟩
    · exact s.enqueue_eq _

theorem onMessage_eq (m : Message) : ∃ f q w l b h c, (∀ r, s.cancelled r = true → f r = true) ∧ s.onMessage m = { s with
    cancelled := f
    queue := q
    columns := w
    rows := l
    ready := b
    history := h
    completed := c } ∧ (h = s.history ∧ c = s.completed ∨ ∃ id, m = .ack id) := by
  cases m with
  | ready cols lines => exact ⟨_, _, _, _, _, _, _, fun _ => id, rfl, Or.inl ⟨rfl, rfl⟩⟩
  | resize cols lines =>
    obtain ⟨f, q, hc, hs⟩ := (s.setSize cols lines).enqueue_eq (.size (max 2 (min cols 500)) (max 1 (min lines 300)))
    exact ⟨f, q, _, _, _, _, _, hc, hs, Or.inl ⟨rfl, rfl⟩⟩
  | input data =>
    unfold onMessage
    dsimp only
    split
    · obtain ⟨f, q, hc, hs⟩ := s.enqueue_eq (.bytes (utf8 data))
      exact ⟨f, q, _, _, _, _, _, hc, hs, Or.inl ⟨rfl, rfl⟩⟩
    · exact ⟨_, _, _, _, _, _, _, fun _ => id, rfl, Or.inl ⟨rfl, rfl⟩⟩
  | ack id =>
    have hack : ∃ id', Message.ack id = .ack id' := ⟨id, rfl⟩
    unfold onMessage
    dsimp only
    split
    · split
      · exact ⟨_, _, _, _, _, _, _, fun _ h => h, rfl, Or.inr hack⟩
      · exact ⟨_, _, _, _, _, _, _, fun _ h => h, rfl, Or.inr hack⟩
    · exact ⟨_, _, _, _, _, _, _, fun _ h => h, rfl, Or.inr hack⟩

end State

/-! ## What a step can do -/

/-- The event, the guard it had and what it did. -/
inductive Change (s : State) : Event → State → Prop where
  /-- Nothing: `ReconnectAsync` and `CloseSessionAsync` may have nothing to do. -/
  | refused {e : Event} : Change s e s
  | reconnect : s.closing = false → s.restarting = false → s.requiresReopen = false →
      Change s .reconnect { s.beginStop .reconnect with restarting := true }
  | disconnect : Change s .disconnect (s.beginStop .disconnect)
  | close : s.closing = false → Change s .close { s.beginStop .close with closing := true }
  | stopReturns {k : Nat} : (s.stop k).phase = .waiting → s.hasEnded (s.stop k).task →
      Change s (.stopReturns k) (s.stopReturns k)
  | restart {k : Nat} : (s.stop k).caller = .reconnect → (s.stop k).phase = .returned →
      Change s (.restart k) (s.restart k)
  | closed {k : Nat} : (s.stop k).caller = .close → (s.stop k).phase = .returned → s.initialization ≠ .running →
      Change s (.closed k) { s.setStop k .resumed with drained := true }
  | initialized {ok : Bool} : s.initialization = .running →
      Change s (.initialized ok) { s with initialization := .ended ok, requiresReopen := s.requiresReopen || !ok }
  | rendererFails : Change s .rendererFails { s.cancel with requiresReopen := true }
  | message {m : Message} : Change s (.message m) (s.onMessage m)
  | paste {text : Str} {allowed : Bool} : Change s (.paste text allowed) (s.paste text allowed)
  | prepared {r : Nat} {posted : Bool} : s.phase r = .initializing →
      Change s (.prepared r posted) (s.prepared r posted)
  | connected {r : Nat} {ok : Bool} : s.phase r = .connecting → Change s (.connected r ok) (s.connected r ok)
  | resized {r : Nat} {ok : Bool} : s.phase r = .resizing → Change s (.resized r ok) (s.resized r ok)
  | read {r i : Nat} {bytes : Option (List UInt8)} {posted : Bool} : s.phase r = .reading i →
      Change s (.read r bytes posted) (s.read r i bytes posted)
  | waited {r a : Nat} {late : Bool} : s.phase r = .acknowledging a → Change s (.waited r late) (s.waited r a late)
  | disposed {r : Nat} : s.phase r = .disposing → Change s (.disposed r) (s.disposed r)
  | joined {r : Nat} : s.phase r = .joining → Change s (.joined r) (s.setPhase r .ended)
  | writerTakes {r : Nat} {w : Writer} {q : Queued} {rest : List Queued} : s.writer r = some w →
      s.queue w.channel = q :: rest → Change s (.writerTakes r) (s.writerTakes r w q rest)
  | writerReturns {r : Nat} {w : Writer} : s.writer r = some w →
      Change s (.writerReturns r true) { s with writer := update s.writer r (some { w with phase := .idle }) }
  | writerFails {e : Event} {r : Nat} {w : Writer} : s.writer r = some w →
      e = .writerReturns r false ∨ e = .writerStops r → Change s e (s.writerFails r w)

theorem step_change {s s' : State} {e : Event} (h : step s e = some s') : Change s e s' := by
  cases e with
  | reconnect =>
    simp only [step] at h
    split at h <;> cases h
    · exact .refused
    · rename_i hg
      simp only [Bool.or_eq_true, not_or, Bool.not_eq_true] at hg
      exact .reconnect hg.1.1 hg.1.2 hg.2
  | disconnect => cases h; exact .disconnect
  | close =>
    simp only [step] at h
    split at h <;> cases h
    · exact .refused
    · rename_i hg
      exact .close (Bool.eq_false_iff.mpr hg)
  | stopReturns k =>
    obtain ⟨hg, h⟩ := Option.ite_none_right_eq_some.mp h
    cases h
    exact .stopReturns hg.1 hg.2
  | restart k =>
    obtain ⟨hg, h⟩ := Option.ite_none_right_eq_some.mp h
    cases h
    exact .restart hg.1 hg.2
  | closed k =>
    obtain ⟨hg, h⟩ := Option.ite_none_right_eq_some.mp h
    cases h
    exact .closed hg.1 hg.2.1 hg.2.2
  | initialized ok =>
    obtain ⟨hg, h⟩ := Option.ite_none_right_eq_some.mp h
    cases h
    exact .initialized hg.1
  | rendererFails => cases h; exact .rendererFails
  | message m => cases h; exact .message
  | paste text allowed => cases h; exact .paste
  | prepared r posted =>
    obtain ⟨hg, h⟩ := Option.ite_none_right_eq_some.mp h
    cases h
    exact .prepared hg.1
  | connected r ok =>
    obtain ⟨hg, h⟩ := Option.ite_none_right_eq_some.mp h
    cases h
    exact .connected hg
  | resized r ok =>
    obtain ⟨hg, h⟩ := Option.ite_none_right_eq_some.mp h
    cases h
    exact .resized hg
  | read r bytes posted =>
    simp only [step] at h
    split at h
    · rename_i i hp
      obtain ⟨-, h⟩ := Option.ite_none_right_eq_some.mp h
      cases h
      exact .read hp
    · cases h
  | waited r late =>
    simp only [step] at h
    split at h <;> cases h
    rename_i a hp
    exact .waited hp
  | disposed r =>
    obtain ⟨hg, h⟩ := Option.ite_none_right_eq_some.mp h
    cases h
    exact .disposed hg
  | joined r =>
    obtain ⟨hg, h⟩ := Option.ite_none_right_eq_some.mp h
    cases h
    exact .joined hg.1
  | writerTakes r =>
    simp only [step] at h
    split at h
    · rename_i w hw
      split at h <;> cases h
      rename_i q rest hp hq
      exact .writerTakes hw hq
    · cases h
  | writerReturns r ok =>
    simp only [step] at h
    split at h
    · rename_i w hw
      obtain ⟨-, h⟩ := Option.ite_none_right_eq_some.mp h
      cases ok <;> cases h
      · exact .writerFails hw (Or.inl rfl)
      · exact .writerReturns hw
    · cases h
  | writerStops r =>
    simp only [step] at h
    split at h
    · rename_i w hw
      obtain ⟨-, h⟩ := Option.ite_none_right_eq_some.mp h
      cases h
      exact .writerFails hw (Or.inr rfl)
    · cases h

end MythLab.App.TerminalSessions
