import Mathlib.Data.List.Basic

/-!
# Queues

What was put into a queue, what was taken out of it, and what is inside, over any
sequence of puts and gets.
-/

namespace Sbrocks.Queue

universe u

variable {α : Type u} {put got inside : List α}

/-- The values put into a queue, those taken out of it, and those inside, oldest first. -/
inductive Fifo : List α → List α → List α → Prop
  | empty : Fifo [] [] []
  | put {put got inside : List α} (before : Fifo put got inside) (values : List α) :
      Fifo (put ++ values) got (inside ++ values)
  | get {put got inside values : List α} (before : Fifo put got (values ++ inside)) :
      Fifo put (got ++ values) inside

namespace Fifo

/-- Nothing is lost, duplicated or reordered. -/
theorem conserved (fifo : Fifo put got inside) : put = got ++ inside := by
  induction fifo with
  | empty => rfl
  | put before values ih => rw [ih, List.append_assoc]
  | get before ih => rw [ih, List.append_assoc]

theorem isPrefix (fifo : Fifo put got inside) : got <+: put :=
  ⟨inside, fifo.conserved.symm⟩

theorem length (fifo : Fifo put got inside) : put.length = got.length + inside.length := by
  rw [fifo.conserved, List.length_append]

/-- The first values inside can be taken out. -/
theorem take (fifo : Fifo put got inside) (n : Nat) :
    Fifo put (got ++ inside.take n) (inside.drop n) := by
  apply get
  rwa [List.take_append_drop]

end Fifo

end Sbrocks.Queue
