import Mathlib.Data.List.Basic

/-!
# Answers in order

On a connection where answers come in the order of the requests, an answer belongs to the
oldest request that still waits for one.  A request may ask for several answers.
-/

/-- The requests that wait for an answer, oldest first, and the answers so far, each with
its request. -/
structure Fifo (α β : Type) where
  queue : List α
  pairs : List (α × β)
  deriving DecidableEq, Repr

namespace Fifo

variable {α β : Type}

def empty : Fifo α β := ⟨[], []⟩

/-- A request for `n` answers. -/
def ask (f : Fifo α β) (a : α) (n : Nat) : Fifo α β := ⟨f.queue ++ List.replicate n a, f.pairs⟩

/-- An answer.  One that nothing waits for is dropped. -/
def answer (f : Fifo α β) (b : β) : Fifo α β :=
  match f.queue with
  | [] => f
  | a :: queue => ⟨queue, f.pairs ++ [(a, b)]⟩

/-- The request that the next answer belongs to. -/
def next (f : Fifo α β) : Option α := f.queue.head?

@[simp]
theorem queue_ask (f : Fifo α β) (a : α) (n : Nat) :
  (f.ask a n).queue = f.queue ++ List.replicate n a
  := rfl

@[simp]
theorem pairs_ask (f : Fifo α β) (a : α) (n : Nat) :
  (f.ask a n).pairs = f.pairs
  := rfl

theorem answer_of_queue {f : Fifo α β} {a : α} {queue : List α} (h : f.queue = a :: queue) (b : β) :
  f.answer b = ⟨queue, f.pairs ++ [(a, b)]⟩
  := by
  simp [answer, h]

end Fifo
