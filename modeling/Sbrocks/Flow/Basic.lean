import Mathlib.Tactic.Common

/-!
# Control flow that may be lost

A computation goes on with a value, or control leaves it for good in some final
state, or nothing more is known of it: it hangs or its behaviour is undefined.
A statement about a computation has one part for the values it goes on with and
one for the states it leaves.
-/

namespace Sbrocks

universe u v

/-- What becomes of a computation that may be left in a state of type `κ`. -/
inductive Flow (κ : Type u) (α : Type v) where
  /-- The computation goes on with a value. -/
  | next (value : α)
  /-- Control left the computation and does not come back. -/
  | left (state : κ)
  /-- It hangs, or its behaviour is undefined. -/
  | stuck

namespace Flow

variable {κ : Type u} {α β : Type v}

/-- Go on with a second computation. -/
def bind (flow : Flow κ α) (rest : α → Flow κ β) : Flow κ β :=
  match flow with
  | next value => rest value
  | left state => left state
  | stuck => stuck

instance : Monad (Flow κ) where
  pure := next
  bind := bind

/-- A missing value leaves the computation stuck. -/
def ofOption : Option α → Flow κ α
  | some value => next value
  | none => stuck

@[simp]
theorem next_bind (value : α) (rest : α → Flow κ β) : (next value : Flow κ α) >>= rest = rest value :=
  rfl

theorem pure_eq_next (value : α) : (pure value : Flow κ α) = next value :=
  rfl

@[simp]
theorem left_bind (state : κ) (rest : α → Flow κ β) : (left state : Flow κ α) >>= rest = left state :=
  rfl

@[simp]
theorem stuck_bind (rest : α → Flow κ β) : (stuck : Flow κ α) >>= rest = stuck :=
  rfl

@[simp]
theorem ofOption_some (value : α) : (ofOption (some value) : Flow κ α) = next value :=
  rfl

@[simp]
theorem ofOption_none : (ofOption none : Flow κ α) = stuck :=
  rfl

/-- What a computation returned went through both of its parts. -/
theorem bind_eq_next {flow : Flow κ α} {rest : α → Flow κ β} {value : β}
    (returned : flow >>= rest = next value) :
    ∃ middle, flow = next middle ∧ rest middle = next value := by
  cases flow with
  | next middle => exact ⟨middle, rfl, returned⟩
  | left state => cases returned
  | stuck => cases returned

theorem ofOption_eq_next {value : Option α} {result : α}
    (returned : (ofOption value : Flow κ α) = next result) : value = some result := by
  cases value with
  | none => cases returned
  | some found =>
      cases returned
      rfl

/-- Whether a computation goes on with a value that passes a test. -/
def returns (flow : Flow κ α) (test : α → Bool) : Bool :=
  match flow with
  | next value => test value
  | left _ => false
  | stuck => false

theorem returns_next {flow : Flow κ α} {test : α → Bool} (checked : flow.returns test = true) :
    ∃ value, flow = next value ∧ test value = true := by
  cases flow with
  | next value => exact ⟨value, rfl, checked⟩
  | left state => cases checked
  | stuck => cases checked

/-! ## Statements about computations -/

/-- Every value that a computation goes on with satisfies the first predicate, and
every state that it is left in satisfies the second. -/
def All (returned : α → Prop) (gone : κ → Prop) : Flow κ α → Prop
  | next value => returned value
  | left state => gone state
  | stuck => True

variable {P P' : α → Prop} {Q Q' : κ → Prop} {R : β → Prop}

@[simp]
theorem all_next {value : α} : (next value : Flow κ α).All P Q ↔ P value :=
  Iff.rfl

@[simp]
theorem all_left {state : κ} : (left state : Flow κ α).All P Q ↔ Q state :=
  Iff.rfl

@[simp]
theorem all_stuck : (stuck : Flow κ α).All P Q :=
  trivial

/-- The rule of consequence, for the values. -/
theorem All.imp {flow : Flow κ α} (all : flow.All P Q) (weaker : ∀ value, P value → P' value) :
    flow.All P' Q := by
  cases flow with
  | next value => exact weaker value all
  | left state => exact all
  | stuck => trivial

/-- The rule of consequence, for both parts. -/
theorem All.mono {flow : Flow κ α} (all : flow.All P Q) (weaker : ∀ value, P value → P' value)
    (gone : ∀ state, Q state → Q' state) : flow.All P' Q' := by
  cases flow with
  | next value => exact weaker value all
  | left state => exact gone state all
  | stuck => trivial

/-- The rule of conjunction. -/
theorem All.and {flow : Flow κ α} (first : flow.All P Q) (second : flow.All P' Q') :
    flow.All (fun value => P value ∧ P' value) fun state => Q state ∧ Q' state := by
  cases flow with
  | next value => exact ⟨first, second⟩
  | left state => exact ⟨first, second⟩
  | stuck => trivial

/-- A result is the one that was computed. -/
theorem All.eq_next {flow : Flow κ α} (all : flow.All P Q) :
    flow.All (fun value => flow = next value ∧ P value) Q := by
  cases flow with
  | next value => exact ⟨rfl, all⟩
  | left state => exact all
  | stuck => trivial

/-- The rule of sequence. -/
theorem All.bind {flow : Flow κ α} {rest : α → Flow κ β} (all : flow.All P Q)
    (next : ∀ value, P value → (rest value).All R Q) : (flow >>= rest).All R Q := by
  cases flow with
  | next value => exact next value all
  | left state => exact all
  | stuck => trivial

theorem All.ofOption {value : Option α} (each : ∀ result, value = some result → P result) :
    (Flow.ofOption value : Flow κ α).All P Q := by
  cases value with
  | none => trivial
  | some result => exact each result rfl

theorem All.of_next {flow : Flow κ α} (all : flow.All P Q) {value : α}
    (returned : flow = .next value) : P value := by
  subst returned
  exact all

theorem All.of_left {flow : Flow κ α} (all : flow.All P Q) {state : κ}
    (gone : flow = .left state) : Q state := by
  subst gone
  exact all

end Flow

end Sbrocks
