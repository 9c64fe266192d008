/-
  MythLab.App.TerminalPage — the page in a terminal window's browser: `terminal.js`, and the
  write buffer of xterm.js that it writes to.

  The page takes a posted output, decodes it (`atob`) and writes it to the terminal; the
  write buffer gives its chunks to the parser one after the other, at most 12 ms at a time,
  and calls a chunk's callback when the parser has had it, which posts the acknowledgement.
  A step is one task of the browser's event loop. What the parser answers to a chunk, how
  much of the buffer a task gets through, how large the page is and what the user does is
  left to the events.

  `Moves` says what every task does to the chunks: they reach the parser in the order in
  which they were written, and each is acknowledged when it does. Between two tasks the
  buffer is `Tidy`: a timer runs exactly if a chunk waits.
-/
import Mathlib.Data.List.Basic
import MythLab.Dotnet.Base64

namespace MythLab.App.TerminalPage

open Dotnet

/-! ## `atob` -/

/-- What `atob` skips: tab, line feed, form feed, carriage return, blank. -/
def isAsciiSpace (c : Char16) : Bool := c == chr '\t' || c == chr '\n' || c == 12 || c == chr '\r' || c == chr ' '

/-- One or two padding characters are taken off a text of whole groups. -/
def withoutPadding (s : Str) : Str :=
  if s.length % 4 ≠ 0 then s
  else if s.getLast? = some (chr '=') then
    if s.dropLast.getLast? = some (chr '=') then s.dropLast.dropLast else s.dropLast
  else s

/-- The characters of the groups; a shorter group at the end leaves bits over, which are dropped. -/
def atobGroups : Str → Option Str
  | [] => some []
  | [_] => none
  | [w, x] => do
    let a ← base64Value w
    let b ← base64Value x
    some [UInt16.ofNat (a * 4 + b / 16)]
  | [w, x, y] => do
    let a ← base64Value w
    let b ← base64Value x
    let c ← base64Value y
    some [UInt16.ofNat (a * 4 + b / 16), UInt16.ofNat (b % 16 * 16 + c / 4)]
  | w :: x :: y :: z :: rest => do
    let a ← base64Value w
    let b ← base64Value x
    let c ← base64Value y
    let d ← base64Value z
    let others ← atobGroups rest
    some ([UInt16.ofNat (a * 4 + b / 16), UInt16.ofNat (b % 16 * 16 + c / 4), UInt16.ofNat (c % 4 * 64 + d)] ++ others)

/-- `atob`; `none` where it throws. -/
def atob (s : Str) : Option Str := atobGroups (withoutPadding (s.filter fun c => !isAsciiSpace c))

/-- `Uint8Array.from(atob(data), c => c.charCodeAt(0))` -/
def decode (data : Str) : Option (List UInt8) := (atob data).map fun s => s.map fun c => UInt8.ofNat c.toNat

/-! ## The page -/

/-- A message that the window posts. -/
inductive Posted where
  | reset
  | output (id : Int32) (data : Str)
  deriving DecidableEq, Repr

/-- A message that the page posts. -/
inductive Sent where
  | ready (cols rows : Int)
  | resize (cols rows : Int)
  | input (data : Str)
  | ack (id : Int32)
  | copy (data : Str)
  | paste
  deriving DecidableEq, Repr

/-- The bytes of an output, and the id that their callback acknowledges. -/
structure Chunk where
  id : Int32
  bytes : List UInt8
  deriving DecidableEq, Repr

/-- A new terminal was made, the terminal was reset, or its parser was given a chunk. -/
inductive Shown where
  | loaded
  | reset
  | chunk (c : Chunk)
  deriving DecidableEq, Repr

/-- `WriteBuffer` of xterm.js; a chunk and its callback stand at the same place. -/
structure WriteBuffer where
  writeBuffer : List Chunk
  bufferOffset : Nat
  pendingData : Int
  didUserInput : Bool
  /-- How many timers will call `_innerWrite`. -/
  timers : Nat
  deriving DecidableEq, Repr

def WriteBuffer.empty : WriteBuffer := ⟨[], 0, 0, false, 0⟩

structure Page where
  /-- `terminal.js` has run. -/
  loaded : Bool
  buffer : WriteBuffer
  cols : Int
  rows : Int
  /-- What was posted and has not come to the window, oldest first. -/
  sent : List Sent
  /-- Oldest first, over all loads of the page; each has a terminal of its own. -/
  history : List Shown
  deriving DecidableEq, Repr

def blank : Page := ⟨false, .empty, 80, 24, [], []⟩

/-- What the parser answers to each chunk that a task gets through, the first one at least. -/
structure Turn where
  first : List Str
  others : List (List Str)
  deriving DecidableEq, Repr

namespace Page

variable (p : Page)

/-- `post` -/
def post (m : Sent) : Page := { p with sent := p.sent ++ [m] }

/-- `fit.fit()`, where the size can be measured. -/
def fit : Option (Int × Int) → Page
  | none => p
  | some (width, height) =>
    let cols := max 2 width
    let rows := max 1 height
    if p.rows = rows ∧ p.cols = cols then p else { p with cols, rows }.post (.resize cols rows)

/-- `_action`: the parser is given a chunk; its answers are data of the terminal. -/
def parse (c : Chunk) (replies : List Str) : Page :=
  { p with history := p.history ++ [.chunk c], sent := p.sent ++ replies.map .input }

/-- One round of the loop of `_innerWrite`: the parser, the callback and the counters. -/
def give (c : Chunk) (replies : List Str) : Page :=
  { (p.parse c replies).post (.ack c.id) with buffer := { p.buffer with
    bufferOffset := p.buffer.bufferOffset + 1
    pendingData := p.buffer.pendingData - c.bytes.length } }

/-- The loop of `_innerWrite`, for as many chunks as there are answers. -/
def innerLoop (p : Page) : List (List Str) → Page
  | [] => p
  | replies :: more =>
    match p.buffer.writeBuffer[p.buffer.bufferOffset]? with
    | none => p
    | some c => innerLoop (p.give c replies) more

/-- The end of `_innerWrite`: more at the next timer, or nothing left. -/
def endTurn : Page :=
  if p.buffer.bufferOffset < p.buffer.writeBuffer.length then
    if 50 < p.buffer.bufferOffset then
      { p with buffer := { p.buffer with
        writeBuffer := p.buffer.writeBuffer.drop p.buffer.bufferOffset
        bufferOffset := 0
        timers := p.buffer.timers + 1 } }
    else { p with buffer := { p.buffer with timers := p.buffer.timers + 1 } }
  else { p with buffer := { p.buffer with writeBuffer := [], bufferOffset := 0, pendingData := 0 } }

def innerWrite (turn : Turn) : Page := (p.innerLoop (turn.first :: turn.others)).endTurn

def push (c : Chunk) : Page :=
  { p with buffer := { p.buffer with
    writeBuffer := p.buffer.writeBuffer ++ [c]
    pendingData := p.buffer.pendingData + c.bytes.length } }

/-- `terminal.write(bytes, callback)`; `none` where it throws, with 50 MB pending. -/
def write (c : Chunk) (turn : Turn) : Option Page :=
  if 50000000 < p.buffer.pendingData then none
  else if p.buffer.writeBuffer = [] then
    if p.buffer.didUserInput then
      some (({ p with buffer := { p.buffer with bufferOffset := 0, didUserInput := false } }.push c).innerWrite turn)
    else
      some ({ p with buffer := { p.buffer with bufferOffset := 0, timers := p.buffer.timers + 1 } }.push c)
  else some (p.push c)

/-- The listener for the window's messages. What it throws is lost. -/
def receive (m : Posted) (dimensions : Option (Int × Int)) (turn : Turn) : Page :=
  match m with
  | .output id data =>
    match decode data with
    | none => p
    | some bytes => (p.write ⟨id, bytes⟩ turn).getD p
  | .reset => { p with history := p.history ++ [Shown.reset] }.fit dimensions

/-- The page is loaded, again or for the first time: `terminal.js` runs from its start. -/
def load (dimensions : Option (Int × Int)) : Page :=
  let terminal := { p with
    loaded := true, buffer := .empty, cols := 80, rows := 24, history := p.history ++ [Shown.loaded] }
  let fresh := terminal.fit dimensions
  fresh.post (.ready fresh.cols fresh.rows)

end Page

/-- A task of the page that no message of the window starts. -/
inductive Event where
  /-- The timer of `_innerWrite`. -/
  | timer (turn : Turn)
  /-- `terminal.onData`, by the user or by the terminal itself. -/
  | data (text : Str) (byUser : Bool)
  /-- The `ResizeObserver` -/
  | resized (dimensions : Option (Int × Int))
  /-- `requestCopy` -/
  | copy (selection : Str)
  | paste
  deriving DecidableEq, Repr

def step (p : Page) : Event → Option Page
  | .timer turn =>
    if 0 < p.buffer.timers then
      some ({ p with buffer := { p.buffer with timers := p.buffer.timers - 1 } }.innerWrite turn)
    else none
  | .data text byUser =>
    some { p.post (.input text) with buffer := { p.buffer with didUserInput := p.buffer.didUserInput || byUser } }
  | .resized dimensions => some (p.fit dimensions)
  | .copy selection => some (p.post (.copy (selection.take 32768)))
  | .paste => some (p.post .paste)

/-! ## What was encoded is decoded -/

/-- What holds of the alphabet and of the padding holds of an encoded text. -/
theorem forall_toBase64String {P : Char16 → Prop} (hchar : ∀ n < 64, P (base64Char n)) (hpad : P (chr '='))
    (bytes : List UInt8) : ∀ c ∈ toBase64String bytes, P c := by
  have hbyte (b : UInt8) : b.toNat < 256 := b.toNat_lt
  fun_induction toBase64String bytes with
  | case1 => exact List.forall_mem_nil _
  | case2 a =>
    have ha := hbyte a
    simp only [List.mem_cons, List.not_mem_nil, or_false, forall_eq_or_imp, forall_eq]
    exact ⟨hchar _ (by omega), hchar _ (by omega), hpad, hpad⟩
  | case3 a b =>
    have ha := hbyte a
    have hb := hbyte b
    simp only [List.mem_cons, List.not_mem_nil, or_false, forall_eq_or_imp, forall_eq]
    exact ⟨hchar _ (by omega), hchar _ (by omega), hchar _ (by omega), hpad⟩
  | case4 a b c rest ih =>
    have ha := hbyte a
    have hb := hbyte b
    have hc := hbyte c
    simp only [List.cons_append, List.nil_append, List.mem_cons, forall_eq_or_imp]
    exact ⟨hchar _ (by omega), hchar _ (by omega), hchar _ (by omega), hchar _ (by omega), ih⟩

theorem toBase64String_not_space (bytes : List UInt8) : ∀ c ∈ toBase64String bytes, isAsciiSpace c = false :=
  forall_toBase64String (by decide +kernel) (by decide) bytes

/-- The groups of a text without its padding. -/
def unpadded : List UInt8 → Str
  | [] => []
  | [a] => [base64Char (a.toNat / 4), base64Char (a.toNat % 4 * 16)]
  | [a, b] => [base64Char (a.toNat / 4), base64Char (a.toNat % 4 * 16 + b.toNat / 16), base64Char (b.toNat % 16 * 4)]
  | a :: b :: c :: rest =>
    [base64Char (a.toNat / 4), base64Char (a.toNat % 4 * 16 + b.toNat / 16),
      base64Char (b.toNat % 16 * 4 + c.toNat / 64), base64Char (c.toNat % 64)] ++ unpadded rest

theorem length_toBase64String (bytes : List UInt8) : (toBase64String bytes).length % 4 = 0 := by
  fun_induction toBase64String bytes with
  | case1 => rfl
  | case2 | case3 => simp
  | case4 a b c rest ih => simp only [List.length_append, List.length_cons, List.length_nil]; omega

/-- The padding is that of the last group. -/
theorem withoutPadding_append {s t : Str} (hs : s.length = 4) (ht : t.length % 4 = 0) (hne : t ≠ []) :
    withoutPadding (s ++ t) = s ++ withoutPadding t := by
  have hlength : (s ++ t).length % 4 = 0 := by rw [List.length_append]; omega
  have hpos : 0 < t.length := List.length_pos_iff.mpr hne
  have hdrop : t.dropLast ≠ [] := by
    intro h
    have hzero := congrArg List.length h
    rw [List.length_dropLast, List.length_nil] at hzero
    omega
  simp only [withoutPadding, hlength, ht, ne_eq, not_true_eq_false, if_false, List.getLast?_append_of_ne_nil _ hne,
    List.dropLast_append_of_ne_nil hne, List.getLast?_append_of_ne_nil _ hdrop, List.dropLast_append_of_ne_nil hdrop]
  split_ifs <;> rfl

theorem withoutPadding_toBase64String (bytes : List UInt8) :
    withoutPadding (toBase64String bytes) = unpadded bytes := by
  have hbyte (b : UInt8) : b.toNat < 256 := b.toNat_lt
  have hnotpad (n : Nat) (hn : n < 64) : base64Char n ≠ chr '=' := (base64Char_spec n hn).2.1
  fun_induction toBase64String bytes with
  | case1 => rfl
  | case2 a => simp [withoutPadding, unpadded]
  | case3 a b =>
    have hb := hbyte b
    simp [withoutPadding, unpadded, hnotpad (b.toNat % 16 * 4) (by omega)]
  | case4 a b c rest ih =>
    have hc := hbyte c
    rw [unpadded, ← ih]
    by_cases hrest : toBase64String rest = []
    · rw [hrest]
      simp [withoutPadding, hnotpad (c.toNat % 64) (by omega)]
    · exact withoutPadding_append rfl (length_toBase64String rest) hrest

theorem atobGroups_unpadded (bytes : List UInt8) :
    (atobGroups (unpadded bytes)).map (fun s => s.map fun c => UInt8.ofNat c.toNat) = some bytes := by
  have hvalue (n : Nat) (hn : n < 64) : base64Value (base64Char n) = some n := (base64Char_spec n hn).1
  have hbyte (b : UInt8) : b.toNat < 256 := b.toNat_lt
  have hunit (b : UInt8) (n : Nat) (hn : n = b.toNat) : UInt8.ofNat (UInt16.ofNat n).toNat = b := by
    have hb := hbyte b
    rw [UInt16.toNat_ofNat_of_lt' (show n < 65536 by omega), hn, UInt8.ofNat_toNat]
  fun_induction unpadded bytes with
  | case1 => rfl
  | case2 a =>
    have ha := hbyte a
    simp only [atobGroups, hvalue _ (show a.toNat / 4 < 64 by omega), hvalue _ (show a.toNat % 4 * 16 < 64 by omega),
      Option.bind_eq_bind, Option.bind_some, Option.map_some, List.map_cons, List.map_nil]
    rw [hunit a _ (by omega)]
  | case3 a b =>
    have ha := hbyte a
    have hb := hbyte b
    simp only [atobGroups, hvalue _ (show a.toNat / 4 < 64 by omega),
      hvalue _ (show a.toNat % 4 * 16 + b.toNat / 16 < 64 by omega), hvalue _ (show b.toNat % 16 * 4 < 64 by omega),
      Option.bind_eq_bind, Option.bind_some, Option.map_some, List.map_cons, List.map_nil]
    rw [hunit a _ (by omega), hunit b _ (by omega)]
  | case4 a b c rest ih =>
    have ha := hbyte a
    have hb := hbyte b
    have hc := hbyte c
    obtain ⟨units, hunits, hrest⟩ := Option.map_eq_some_iff.mp ih
    simp only [List.cons_append, List.nil_append, atobGroups, hvalue _ (show a.toNat / 4 < 64 by omega),
      hvalue _ (show a.toNat % 4 * 16 + b.toNat / 16 < 64 by omega),
      hvalue _ (show b.toNat % 16 * 4 + c.toNat / 64 < 64 by omega), hvalue _ (show c.toNat % 64 < 64 by omega),
      hunits, Option.bind_eq_bind, Option.bind_some, Option.map_some, List.map_cons, hrest]
    rw [hunit a _ (by omega), hunit b _ (by omega), hunit c _ (by omega)]

/-- The page has the bytes that the window encoded. -/
theorem decode_toBase64String (bytes : List UInt8) : decode (toBase64String bytes) = some bytes := by
  have hfilter : (toBase64String bytes).filter (fun c => !isAsciiSpace c) = toBase64String bytes := by
    refine List.filter_eq_self.mpr ?_
    intro c hc
    rw [toBase64String_not_space bytes c hc]
    rfl
  rw [decode, atob, hfilter, withoutPadding_toBase64String]
  exact atobGroups_unpadded bytes

/-! ## What a task does to the chunks -/

/-- The chunk of a message, as the page decodes it. -/
def Posted.chunk? : Posted → Option Chunk
  | .reset => none
  | .output id data => (decode data).map (Chunk.mk id)

def Shown.chunk? : Shown → Option Chunk
  | .loaded | .reset => none
  | .chunk c => some c

def Sent.acknowledged? : Sent → Option Int32
  | .ack id => some id
  | _ => none

/-- The chunks that wait for the parser. -/
def WriteBuffer.pending (b : WriteBuffer) : List Chunk := b.writeBuffer.drop b.bufferOffset

/-- The chunks that the parsers were given, oldest first, over all loads of the page. -/
def Page.parsed (p : Page) : List Chunk := p.history.filterMap Shown.chunk?

/-- A terminal that is made or reset shows nothing of the chunks before. -/
def Shown.after (chunks : List Chunk) : Shown → List Chunk
  | .loaded | .reset => []
  | .chunk c => chunks ++ [c]

/-- The chunks that the terminal was given since it was made or reset. -/
def Page.screen (p : Page) : List Chunk := p.history.foldl Shown.after []

theorem Page.screen_suffix (p : Page) : p.screen <:+ p.parsed := by
  unfold Page.screen Page.parsed
  induction p.history using List.reverseRecOn with
  | nil => exact List.suffix_refl _
  | append_singleton history x ih =>
    rw [List.foldl_append, List.filterMap_append]
    cases x with
    | loaded | reset => exact List.nil_suffix
    | chunk c =>
      obtain ⟨before, hbefore⟩ := ih
      exact ⟨before, by rw [← hbefore]; exact (List.append_assoc ..).symm⟩

/-- The acknowledgements that have not come to the window, oldest first. -/
def Page.acks (p : Page) : List Int32 := p.sent.filterMap Sent.acknowledged?

def byteCount : List Chunk → Nat
  | [] => 0
  | c :: chunks => c.bytes.length + byteCount chunks

@[simp] theorem byteCount_cons (c : Chunk) (chunks : List Chunk) :
    byteCount (c :: chunks) = c.bytes.length + byteCount chunks := rfl

@[simp] theorem byteCount_append (xs ys : List Chunk) : byteCount (xs ++ ys) = byteCount xs + byteCount ys := by
  induction xs with
  | nil => exact (Nat.zero_add _).symm
  | cons c xs ih => rw [List.cons_append, byteCount_cons, byteCount_cons, ih, Nat.add_assoc]

/-- The task is over: what is counted as pending waits for the parser, and a timer runs for it. -/
structure Tidy (b : WriteBuffer) : Prop where
  offset : b.bufferOffset ≤ b.writeBuffer.length
  cleared : b.pending = [] → b.writeBuffer = []
  pendingData : b.pendingData = byteCount b.pending
  timers : b.timers = if b.writeBuffer = [] then 0 else 1

theorem tidy_empty : Tidy .empty := ⟨Nat.le_refl _, fun _ => rfl, rfl, rfl⟩

/-- A task, in which chunks were written: the parser was given the oldest ones that waited, and
    those it was given are acknowledged. -/
def Moves (written : List Chunk) (p p' : Page) : Prop :=
  p'.loaded = p.loaded ∧ ∃ given, p'.parsed = p.parsed ++ given ∧
    given ++ p'.buffer.pending = p.buffer.pending ++ written ∧ p'.acks = p.acks ++ given.map Chunk.id

namespace Moves

variable {p p' p'' : Page} {xs ys : List Chunk}

/-- The parser is given nothing. -/
theorem still (hloaded : p'.loaded = p.loaded) (hscreen : p'.parsed = p.parsed)
    (hpending : p'.buffer.pending = p.buffer.pending) (hacks : p'.acks = p.acks) : Moves [] p p' :=
  ⟨hloaded, [], by simp [hscreen], by simp [hpending], by simp [hacks]⟩

theorem refl (p : Page) : Moves [] p p := still rfl rfl rfl rfl

theorem trans (h : Moves xs p p') (h' : Moves ys p' p'') : Moves (xs ++ ys) p p'' := by
  obtain ⟨hloaded, given, hparsed, hpending, hacks⟩ := h
  obtain ⟨hloaded', given', hparsed', hpending', hacks'⟩ := h'
  refine ⟨hloaded'.trans hloaded, given ++ given', ?_, ?_, ?_⟩
  · rw [hparsed', hparsed, List.append_assoc]
  · rw [List.append_assoc, hpending', ← List.append_assoc, hpending, List.append_assoc]
  · rw [hacks', hacks, List.append_assoc, List.map_append]

end Moves

/-! ## The tasks -/

namespace Page

variable {p p' : Page}

theorem acks_post (p : Page) (m : Sent) : (p.post m).acks = p.acks ++ m.acknowledged?.toList := by
  rw [acks, post, List.filterMap_append, acks]
  cases m <;> rfl

theorem acks_parse (p : Page) (c : Chunk) (replies : List Str) : (p.parse c replies).acks = p.acks := by
  have hreplies : (replies.map Sent.input).filterMap Sent.acknowledged? = [] := by
    rw [List.filterMap_map]
    exact List.filterMap_eq_nil_iff.mpr fun _ _ => rfl
  rw [acks, parse, List.filterMap_append, hreplies, List.append_nil, acks]

theorem parsed_parse (p : Page) (c : Chunk) (replies : List Str) : (p.parse c replies).parsed = p.parsed ++ [c] := by
  rw [parsed, parse, List.filterMap_append]
  rfl

theorem give_pending {c : Chunk} (hc : p.buffer.writeBuffer[p.buffer.bufferOffset]? = some c) (replies : List Str) :
    p.buffer.pending = c :: (p.give c replies).buffer.pending := by
  obtain ⟨hlt, hget⟩ := List.getElem?_eq_some_iff.mp hc
  rw [WriteBuffer.pending, List.drop_eq_getElem_cons hlt, hget]
  rfl

theorem moves_give {c : Chunk} (hc : p.buffer.writeBuffer[p.buffer.bufferOffset]? = some c) (replies : List Str) :
    Moves [] p (p.give c replies) := by
  refine ⟨rfl, [c], parsed_parse p c replies, ?_, ?_⟩
  · rw [give_pending hc replies, List.append_nil]
    rfl
  · rw [← acks_parse p c replies]
    exact acks_post _ _

theorem give_counted {c : Chunk} (hc : p.buffer.writeBuffer[p.buffer.bufferOffset]? = some c)
    (hsize : p.buffer.pendingData = byteCount p.buffer.pending) (replies : List Str) :
    (p.give c replies).buffer.bufferOffset ≤ (p.give c replies).buffer.writeBuffer.length ∧
      (p.give c replies).buffer.pendingData = byteCount (p.give c replies).buffer.pending := by
  refine ⟨(List.getElem?_eq_some_iff.mp hc).1, ?_⟩
  have hgive : (p.give c replies).buffer.pendingData = p.buffer.pendingData - c.bytes.length := rfl
  rw [give_pending hc replies, byteCount_cons] at hsize
  omega

/-- The loop keeps the buffer's array and counts what it gives to the parser. -/
theorem innerLoop_spec (turns : List (List Str)) (hoffset : p.buffer.bufferOffset ≤ p.buffer.writeBuffer.length)
    (hsize : p.buffer.pendingData = byteCount p.buffer.pending) :
    Moves [] p (p.innerLoop turns) ∧ (p.innerLoop turns).buffer.bufferOffset ≤ p.buffer.writeBuffer.length ∧
      (p.innerLoop turns).buffer.pendingData = byteCount (p.innerLoop turns).buffer.pending ∧
      (p.innerLoop turns).buffer.writeBuffer = p.buffer.writeBuffer ∧
      (p.innerLoop turns).buffer.timers = p.buffer.timers := by
  induction turns generalizing p with
  | nil => exact ⟨.refl p, hoffset, hsize, rfl, rfl⟩
  | cons replies more ih =>
    rw [innerLoop]
    cases hc : p.buffer.writeBuffer[p.buffer.bufferOffset]? with
    | none => exact ⟨.refl p, hoffset, hsize, rfl, rfl⟩
    | some c =>
      obtain ⟨hlt, hcounted⟩ := give_counted hc hsize replies
      obtain ⟨hmoves, hoffset', hsize', hbuffer', htimers'⟩ := ih hlt hcounted
      exact ⟨(moves_give hc replies).trans hmoves, hoffset', hsize', hbuffer', htimers'⟩

/-- The loop gets through the chunk that has waited longest. -/
theorem innerLoop_progress (turn : Turn) (hsize : p.buffer.pendingData = byteCount p.buffer.pending)
    (hwaits : p.buffer.pending ≠ []) :
    (p.innerLoop (turn.first :: turn.others)).buffer.pending.length < p.buffer.pending.length := by
  obtain ⟨c, hc⟩ : ∃ c, p.buffer.writeBuffer[p.buffer.bufferOffset]? = some c := by
    rw [WriteBuffer.pending, ne_eq, List.drop_eq_nil_iff, Nat.not_le] at hwaits
    exact ⟨_, List.getElem?_eq_getElem hwaits⟩
  rw [innerLoop, hc, give_pending hc turn.first, List.length_cons, Nat.lt_succ_iff]
  obtain ⟨hlt, hcounted⟩ := give_counted hc hsize turn.first
  obtain ⟨⟨-, given, -, hpending, -⟩, -⟩ := innerLoop_spec turn.others hlt hcounted
  rw [List.append_nil] at hpending
  rw [← hpending, List.length_append]
  exact Nat.le_add_left _ _

/-- At the end of a task, what waits is as it was. -/
theorem endTurn_pending (hoffset : p.buffer.bufferOffset ≤ p.buffer.writeBuffer.length) :
    p.endTurn.buffer.pending = p.buffer.pending := by
  unfold endTurn
  split
  · split <;> rfl
  · rename_i hdone
    have hnone : p.buffer.pending = [] := by
      rw [WriteBuffer.pending, List.drop_eq_nil_iff]
      omega
    rw [hnone]
    rfl

/-- A timer runs exactly if a chunk waits. -/
theorem tidy_endTurn (hoffset : p.buffer.bufferOffset ≤ p.buffer.writeBuffer.length)
    (hsize : p.buffer.pendingData = byteCount p.buffer.pending) (htimers : p.buffer.timers = 0) :
    Tidy p.endTurn.buffer := by
  unfold endTurn
  split
  · rename_i hmore
    have hne : p.buffer.pending ≠ [] := by
      rw [WriteBuffer.pending, ne_eq, List.drop_eq_nil_iff]
      omega
    have harray : p.buffer.writeBuffer ≠ [] := fun h => hne (by rw [WriteBuffer.pending, h, List.drop_nil])
    split
    · refine ⟨Nat.zero_le _, fun h => h, hsize, ?_⟩
      dsimp only
      rw [htimers]
      exact (if_neg hne).symm
    · refine ⟨hoffset, fun h => absurd h hne, hsize, ?_⟩
      dsimp only
      rw [htimers, if_neg harray]
  · refine ⟨Nat.le_refl _, fun _ => rfl, rfl, ?_⟩
    dsimp only
    rw [htimers, if_pos rfl]

/-- A task of the write buffer, started without a timer to come: it gets on, if a chunk waits. -/
theorem innerWrite_spec (turn : Turn) (hoffset : p.buffer.bufferOffset ≤ p.buffer.writeBuffer.length)
    (hsize : p.buffer.pendingData = byteCount p.buffer.pending) (htimers : p.buffer.timers = 0) :
    Moves [] p (p.innerWrite turn) ∧ Tidy (p.innerWrite turn).buffer ∧
      (p.buffer.pending ≠ [] → (p.innerWrite turn).buffer.pending.length < p.buffer.pending.length) := by
  have hprogress := innerLoop_progress turn hsize
  obtain ⟨hmoves, hoffset', hsize', hbuffer', htimers'⟩ := innerLoop_spec (turn.first :: turn.others) hoffset hsize
  unfold innerWrite
  generalize p.innerLoop (turn.first :: turn.others) = q at *
  rw [← hbuffer'] at hoffset'
  rw [htimers] at htimers'
  have hpending := endTurn_pending hoffset'
  have hend : Moves [] q q.endTurn := by
    refine .still ?_ ?_ hpending ?_
    all_goals
      unfold endTurn
      split
      · split <;> rfl
      · rfl
  rw [hpending]
  exact ⟨hmoves.trans hend, tidy_endTurn hoffset' hsize' htimers', hprogress⟩

theorem push_pending (hoffset : p.buffer.bufferOffset ≤ p.buffer.writeBuffer.length) (c : Chunk) :
    (p.push c).buffer.pending = p.buffer.pending ++ [c] := List.drop_append_of_le_length hoffset

theorem moves_push (hoffset : p.buffer.bufferOffset ≤ p.buffer.writeBuffer.length) (c : Chunk) :
    Moves [c] p (p.push c) :=
  ⟨rfl, [], (List.append_nil _).symm, push_pending hoffset c, (List.append_nil _).symm⟩

theorem push_counted (hoffset : p.buffer.bufferOffset ≤ p.buffer.writeBuffer.length)
    (hsize : p.buffer.pendingData = byteCount p.buffer.pending) (c : Chunk) :
    (p.push c).buffer.pendingData = byteCount (p.push c).buffer.pending := by
  have hpush : (p.push c).buffer.pendingData = p.buffer.pendingData + c.bytes.length := rfl
  rw [push_pending hoffset, byteCount_append, hpush, hsize]
  simp [byteCount]

/-- A chunk waits, and a timer runs. -/
theorem tidy_push (hoffset : p.buffer.bufferOffset ≤ p.buffer.writeBuffer.length)
    (hsize : p.buffer.pendingData = byteCount p.buffer.pending) (htimers : p.buffer.timers = 1) (c : Chunk) :
    Tidy (p.push c).buffer := by
  have hpending : (p.push c).buffer.pending ≠ [] := by
    rw [push_pending hoffset]
    simp
  refine ⟨?_, fun h => absurd h hpending, push_counted hoffset hsize c, ?_⟩
  · show p.buffer.bufferOffset ≤ (p.buffer.writeBuffer ++ [c]).length
    rw [List.length_append]
    exact Nat.le_add_right_of_le hoffset
  · show p.buffer.timers = if p.buffer.writeBuffer ++ [c] = [] then 0 else 1
    rw [htimers, if_neg (by simp)]

/-- A chunk is written, unless 50 MB are pending. -/
theorem write_spec (ht : Tidy p.buffer) (c : Chunk) (turn : Turn) :
    (p.write c turn = none ∧ 50000000 < byteCount p.buffer.pending) ∨
      ∃ p', p.write c turn = some p' ∧ Moves [c] p p' ∧ Tidy p'.buffer := by
  unfold write
  by_cases hfull : 50000000 < p.buffer.pendingData
  · refine Or.inl ⟨if_pos hfull, ?_⟩
    have hcounted := ht.pendingData
    omega
  · rw [if_neg hfull]
    refine Or.inr ?_
    by_cases hempty : p.buffer.writeBuffer = []
    · rw [if_pos hempty]
      have hnone : p.buffer.pending = [] := by rw [WriteBuffer.pending, hempty, List.drop_nil]
      have htimers : p.buffer.timers = 0 := by rw [ht.timers, if_pos hempty]
      -- From the start of the array, as nothing is in it.
      have hrestart (b : WriteBuffer)
          (hb : b = { p.buffer with bufferOffset := 0, didUserInput := b.didUserInput, timers := b.timers }) :
          Moves [] p { p with buffer := b } ∧ b.bufferOffset ≤ b.writeBuffer.length ∧
            b.pendingData = byteCount b.pending := by
        have hpending : b.pending = p.buffer.pending := by
          rw [hb, hnone]
          exact hempty
        refine ⟨.still rfl rfl hpending rfl, ?_, ?_⟩
        · rw [hb]
          exact Nat.zero_le _
        · rw [hpending, ← ht.pendingData, hb]
      split
      · -- The parser is given the chunk at once.
        obtain ⟨hmoves, hoffset, hsize⟩ := hrestart { p.buffer with bufferOffset := 0, didUserInput := false } rfl
        obtain ⟨hwrite, htidy, -⟩ := innerWrite_spec
          (p := { p with buffer := { p.buffer with bufferOffset := 0, didUserInput := false } }.push c) turn
          (Nat.zero_le _) (push_counted hoffset hsize c) htimers
        exact ⟨_, rfl, (hmoves.trans (moves_push hoffset c)).trans hwrite, htidy⟩
      · obtain ⟨hmoves, hoffset, hsize⟩ :=
          hrestart { p.buffer with bufferOffset := 0, timers := p.buffer.timers + 1 } rfl
        exact ⟨_, rfl, hmoves.trans (moves_push hoffset c), tidy_push hoffset hsize (congrArg (· + 1) htimers) c⟩
    · rw [if_neg hempty]
      have htimers : p.buffer.timers = 1 := by rw [ht.timers, if_neg hempty]
      exact ⟨_, rfl, moves_push ht.offset c, tidy_push ht.offset ht.pendingData htimers c⟩

/-! ## Every task -/

theorem moves_fit (p : Page) (dimensions : Option (Int × Int)) :
    Moves [] p (p.fit dimensions) ∧ (p.fit dimensions).buffer = p.buffer := by
  unfold fit
  split
  · exact ⟨.refl p, rfl⟩
  · dsimp only
    split
    · exact ⟨.refl p, rfl⟩
    · exact ⟨.still rfl rfl rfl ((acks_post _ _).trans (List.append_nil _)), rfl⟩

/-- A message of the window: its chunk is written, unless 50 MB are pending. -/
theorem receive_spec (ht : Tidy p.buffer) (m : Posted) (dimensions : Option (Int × Int)) (turn : Turn) :
    Tidy (p.receive m dimensions turn).buffer ∧
      (Moves m.chunk?.toList p (p.receive m dimensions turn) ∨
        50000000 < byteCount p.buffer.pending ∧ Moves [] p (p.receive m dimensions turn)) := by
  cases m with
  | reset =>
    obtain ⟨hmoves, hbuffer⟩ := moves_fit { p with history := p.history ++ [Shown.reset] } dimensions
    have hreset : Moves [] p { p with history := p.history ++ [Shown.reset] } := by
      refine .still rfl ?_ rfl rfl
      rw [parsed, List.filterMap_append]
      exact List.append_nil _
    refine ⟨?_, Or.inl (hreset.trans hmoves)⟩
    show Tidy (({ p with history := p.history ++ [Shown.reset] }).fit dimensions).buffer
    rw [hbuffer]
    exact ht
  | output id data =>
    cases hdata : decode data with
    | none =>
      simp only [receive, Posted.chunk?, hdata]
      exact ⟨ht, Or.inl (.refl p)⟩
    | some bytes =>
      simp only [receive, Posted.chunk?, hdata]
      rcases write_spec ht ⟨id, bytes⟩ turn with ⟨hwrite, hfull⟩ | ⟨p', hwrite, hmoves, htidy⟩
      · rw [hwrite]
        exact ⟨ht, Or.inr ⟨hfull, .refl p⟩⟩
      · rw [hwrite]
        exact ⟨htidy, Or.inl hmoves⟩

/-- Loading loses what waits, and nothing that was given to the parser. -/
theorem load_spec (p : Page) (dimensions : Option (Int × Int)) :
    (p.load dimensions).loaded = true ∧ (p.load dimensions).buffer = .empty ∧ (p.load dimensions).parsed = p.parsed ∧
      (p.load dimensions).acks = p.acks := by
  let terminal : Page := { p with
    loaded := true, buffer := .empty, cols := 80, rows := 24, history := p.history ++ [Shown.loaded] }
  obtain ⟨⟨hloaded, given, hparsed, hpending, hacks⟩, hbuffer⟩ := moves_fit terminal dimensions
  rw [hbuffer] at hpending
  have hnone : given = [] := (List.append_eq_nil_iff.mp hpending).1
  subst hnone
  have hsame : terminal.parsed = p.parsed := by
    rw [parsed, List.filterMap_append]
    exact List.append_nil _
  refine ⟨hloaded, hbuffer, (hparsed.trans (List.append_nil _)).trans hsame, ?_⟩
  exact (acks_post _ _).trans ((List.append_nil _).trans (hacks.trans (List.append_nil _)))

end Page

/-- The timer's task. -/
theorem timer_spec {p p' : Page} {turn : Turn} (ht : Tidy p.buffer) (h : step p (.timer turn) = some p') :
    Moves [] p p' ∧ Tidy p'.buffer ∧ (p.buffer.pending ≠ [] → p'.buffer.pending.length < p.buffer.pending.length) := by
  obtain ⟨hpos, h⟩ := Option.ite_none_right_eq_some.mp h
  cases h
  have htimers : p.buffer.timers - 1 = 0 := by
    have hone := ht.timers
    split at hone <;> omega
  exact Page.innerWrite_spec (p := { p with buffer := { p.buffer with timers := p.buffer.timers - 1 } }) turn
    ht.offset ht.pendingData htimers

/-- A task that no message starts. -/
theorem step_spec {p p' : Page} {e : Event} (ht : Tidy p.buffer) (h : step p e = some p') :
    Moves [] p p' ∧ Tidy p'.buffer := by
  cases e with
  | timer turn =>
    obtain ⟨hmoves, htidy, -⟩ := timer_spec ht h
    exact ⟨hmoves, htidy⟩
  | data text byUser =>
    cases h
    exact ⟨.still rfl rfl rfl ((p.acks_post _).trans (List.append_nil _)),
      ⟨ht.offset, ht.cleared, ht.pendingData, ht.timers⟩⟩
  | resized dimensions =>
    cases h
    obtain ⟨hmoves, hbuffer⟩ := p.moves_fit dimensions
    exact ⟨hmoves, hbuffer ▸ ht⟩
  | copy selection =>
    cases h
    exact ⟨.still rfl rfl rfl ((p.acks_post _).trans (List.append_nil _)), ht⟩
  | paste =>
    cases h
    exact ⟨.still rfl rfl rfl ((p.acks_post _).trans (List.append_nil _)), ht⟩

end MythLab.App.TerminalPage
