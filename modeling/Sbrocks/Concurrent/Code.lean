import Mathlib.Tactic.Common

/-!
# Programs that make calls

A sequential program is what it does until it makes a call, and how it goes on with each
answer.  What the calls do is left open.
-/

namespace Sbrocks.Concurrent

universe u

/-- A program that makes calls, and goes on with their answers. -/
inductive Code (Call : Type u) (Answer : Call → Type u) (α : Type u) : Type u where
  | done (value : α)
  | call (c : Call) (next : Answer c → Code Call Answer α)

namespace Code

variable {Call : Type u} {Answer : Call → Type u} {α β γ : Type u}

/-- One program after the other. -/
def bind : Code Call Answer α → (α → Code Call Answer β) → Code Call Answer β
  | done value, rest => rest value
  | call c next, rest => call c fun answer => (next answer).bind rest

instance : Monad (Code Call Answer) where
  pure := done
  bind := bind

/-- Make a call and return its answer. -/
def perform (c : Call) : Code Call Answer (Answer c) := call c done

@[simp]
theorem pure_eq_done (value : α) : (pure value : Code Call Answer α) = done value :=
  rfl

@[simp]
theorem done_bind (value : α) (rest : α → Code Call Answer β) :
    (done value >>= rest) = rest value :=
  rfl

@[simp]
theorem call_bind (c : Call) (next : Answer c → Code Call Answer α) (rest : α → Code Call Answer β) :
    (call c next >>= rest) = call c fun answer => next answer >>= rest :=
  rfl

@[simp]
theorem perform_bind (c : Call) (rest : Answer c → Code Call Answer β) :
    (perform c >>= rest) = call c rest :=
  rfl

end Code

end Sbrocks.Concurrent
