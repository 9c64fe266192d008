/-
  MythLab.Lib.Channel — a bounded queue between one writer and one reader.

  The writer waits for room, the reader for an item; `complete` closes the channel to the
  writer, and the first completion counts. That the queue stays within its capacity is a
  field.
-/

namespace MythLab.Lib

inductive Completion where
  | done
  | failed
  deriving DecidableEq, Repr

structure Channel (α : Type) (capacity : Nat) where
  items : List α
  completion : Option Completion
  bounded : items.length ≤ capacity

namespace Channel

variable {α : Type} {capacity : Nat}

def empty : Channel α capacity := ⟨[], none, Nat.zero_le _⟩

def enqueue (c : Channel α capacity) (x : α) (room : c.items.length < capacity) : Channel α capacity where
  items := c.items ++ [x]
  completion := c.completion
  bounded := by simp only [List.length_append, List.length_singleton]; omega

/-- Without the first item. -/
def dequeue (c : Channel α capacity) : Channel α capacity where
  items := c.items.tail
  completion := c.completion
  bounded := by
    have := c.bounded
    simp only [List.length_tail]; omega

def complete (c : Channel α capacity) (how : Completion) : Channel α capacity :=
  { c with completion := some (c.completion.getD how) }

@[simp] theorem items_enqueue (c : Channel α capacity) (x : α) (room : c.items.length < capacity) :
    (c.enqueue x room).items = c.items ++ [x] := rfl

@[simp] theorem completion_enqueue (c : Channel α capacity) (x : α) (room : c.items.length < capacity) :
    (c.enqueue x room).completion = c.completion := rfl

@[simp] theorem items_complete (c : Channel α capacity) (how : Completion) : (c.complete how).items = c.items := rfl

@[simp] theorem completion_complete (c : Channel α capacity) (how : Completion) :
    (c.complete how).completion ≠ none := by simp [complete]

@[simp] theorem completion_dequeue (c : Channel α capacity) : c.dequeue.completion = c.completion := rfl

end Channel

end MythLab.Lib
