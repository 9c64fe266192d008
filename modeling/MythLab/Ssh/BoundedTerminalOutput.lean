/-
  MythLab.Ssh.BoundedTerminalOutput — the terminal's output: bytes are queued in chunks
  and read through a buffer of any length, so a chunk may take several reads.

  A chunk holds 1 to 8192 bytes and the offset of a pending chunk is inside it; both are
  fields. `held` is what was queued and not yet read, in order: a chunk that enters is
  added at its end (`held_enqueue`), and a read takes its bytes from the front
  (`held_read`, `held_take`).
-/
import MythLab.Lib.Channel

namespace MythLab.Ssh

open Lib

abbrev Bytes := List UInt8

namespace BoundedTerminalOutput

def chunkSize : Nat := 8192

def capacity : Nat := 64

structure Chunk where
  bytes : Bytes
  nonempty : 0 < bytes.length
  small : bytes.length ≤ chunkSize

/-- Bytes that are left to write. -/
abbrev Remainder := { bytes : Bytes // 0 < bytes.length }

/-- `bytes[..count]`, for the count of `WriteAsync`. -/
def Chunk.first (rest : Remainder) : Chunk where
  bytes := rest.1.take (min rest.1.length chunkSize)
  nonempty := by
    have := rest.2
    rw [List.length_take, chunkSize]; omega
  small := by rw [List.length_take]; omega

/-- `bytes[count..]` -/
def Chunk.others (rest : Remainder) : Bytes := rest.1.drop (min rest.1.length chunkSize)

theorem Chunk.first_others (rest : Remainder) : (Chunk.first rest).bytes ++ Chunk.others rest = rest.1 :=
  List.take_append_drop _ _

/-- The chunk that is being read, and how far. -/
structure Pending where
  chunk : Chunk
  offset : Nat
  inside : offset < chunk.bytes.length

namespace Pending

def start (chunk : Chunk) : Pending := ⟨chunk, 0, chunk.nonempty⟩

def remaining (p : Pending) : Bytes := p.chunk.bytes.drop p.offset

/-- How many bytes a read with a buffer of this length copies. -/
def count (p : Pending) (length : Nat) : Nat := min length (p.chunk.bytes.length - p.offset)

def copied (p : Pending) (length : Nat) : Bytes := p.remaining.take (p.count length)

/-- What the read leaves pending. -/
def advance (p : Pending) (length : Nat) : Option Pending :=
  if h : p.offset + p.count length = p.chunk.bytes.length then none
  else some
    { p with
      offset := p.offset + p.count length
      inside := by
        have := p.inside
        unfold count at *; omega }

end Pending

def remaining (p : Option Pending) : Bytes :=
  match p with
  | some p => p.remaining
  | none => []

theorem remaining_start (chunk : Chunk) : (Pending.start chunk).remaining = chunk.bytes := rfl

theorem copied_advance (p : Pending) (length : Nat) :
    p.copied length ++ remaining (p.advance length) = p.remaining := by
  have hdrop : remaining (p.advance length) = p.remaining.drop (p.count length) := by
    unfold Pending.advance Pending.remaining
    rw [List.drop_drop]
    split
    · rename_i h
      rw [h, List.drop_length]
      rfl
    · rfl
  rw [hdrop]
  exact List.take_append_drop _ _

/-- A read with room in its buffer copies something. -/
theorem copied_ne_nil (p : Pending) {length : Nat} (h : 0 < length) : p.copied length ≠ [] := by
  have hinside := p.inside
  refine List.ne_nil_of_length_pos ?_
  unfold Pending.copied Pending.remaining Pending.count
  rw [List.length_take, List.length_drop]
  omega

end BoundedTerminalOutput

open BoundedTerminalOutput

structure BoundedTerminalOutput where
  channel : Channel Chunk capacity
  pending : Option Pending

namespace BoundedTerminalOutput

def empty : BoundedTerminalOutput := ⟨.empty, none⟩

def complete (o : BoundedTerminalOutput) (how : Completion) : BoundedTerminalOutput :=
  { o with channel := o.channel.complete how }

/-- A chunk enters the queue. -/
def enqueue (o : BoundedTerminalOutput) (chunk : Chunk) (room : o.channel.items.length < capacity) :
    BoundedTerminalOutput := { o with channel := o.channel.enqueue chunk room }

/-- A read from the pending chunk. -/
def read (o : BoundedTerminalOutput) (p : Pending) (length : Nat) : BoundedTerminalOutput :=
  { o with pending := p.advance length }

/-- A read that takes the next chunk, the queue's first. -/
def take (o : BoundedTerminalOutput) (chunk : Chunk) (length : Nat) : BoundedTerminalOutput :=
  ⟨o.channel.dequeue, (Pending.start chunk).advance length⟩

/-- The bytes that were queued and not yet read. -/
def held (o : BoundedTerminalOutput) : Bytes := remaining o.pending ++ o.channel.items.flatMap Chunk.bytes

@[simp] theorem held_empty : empty.held = [] := rfl

@[simp] theorem held_complete (o : BoundedTerminalOutput) (how : Completion) : (o.complete how).held = o.held := rfl

theorem held_enqueue (o : BoundedTerminalOutput) (chunk : Chunk) (room : o.channel.items.length < capacity) :
    (o.enqueue chunk room).held = o.held ++ chunk.bytes := by
  simp [held, enqueue]

theorem held_read {o : BoundedTerminalOutput} {p : Pending} (hp : o.pending = some p) (length : Nat) :
    o.held = p.copied length ++ (o.read p length).held := by
  unfold held read
  rw [hp, ← List.append_assoc, copied_advance]
  rfl

theorem held_take {o : BoundedTerminalOutput} {chunk : Chunk} {chunks : List Chunk} (hp : o.pending = none)
    (hitems : o.channel.items = chunk :: chunks) (length : Nat) :
    o.held = (Pending.start chunk).copied length ++ (o.take chunk length).held := by
  have htail : (o.take chunk length).channel.items = chunks := by
    show o.channel.items.tail = chunks
    rw [hitems]; rfl
  unfold held
  rw [htail, hp, hitems, ← List.append_assoc]
  show _ = ((Pending.start chunk).copied length ++ remaining ((Pending.start chunk).advance length)) ++ _
  rw [copied_advance, remaining_start]
  rfl

end BoundedTerminalOutput

end MythLab.Ssh
