import Mathlib.Data.List.Basic
import Mathlib.Tactic.Common

/-!
# Arrays with checked bounds

Writing to an array of a fixed length, where a write outside of it is an error.
-/

namespace Sbrocks.Arrays

universe u

variable {α : Type u}

/-- Write an element. -/
def put (xs : List α) (i : Nat) (x : α) : Option (List α) :=
  if i < xs.length then some (xs.set i x) else none

/-- Write elements from an index on. -/
def putAll (xs : List α) (i : Nat) : List α → Option (List α)
  | [] => some xs
  | y :: ys => do
      let xs ← put xs i y
      putAll xs (i + 1) ys

variable {xs ys zs : List α} {i : Nat} {x : α}

theorem put_of_lt (inside : i < xs.length) : put xs i x = some (xs.set i x) :=
  if_pos inside

theorem put_of_le (outside : xs.length ≤ i) : put xs i x = none :=
  if_neg (Nat.not_lt.mpr outside)

/-- Elements that fit replace those at their place. -/
theorem putAll_eq (fits : i + ys.length ≤ xs.length) :
    putAll xs i ys = some (xs.take i ++ ys ++ xs.drop (i + ys.length)) := by
  induction ys generalizing xs i with
  | nil => simp [putAll]
  | cons y ys ih =>
      rw [List.length_cons] at fits
      have inside : i < xs.length := by omega
      have split : xs.set i y = xs.take i ++ y :: xs.drop (i + 1) :=
        List.set_eq_take_append_cons_drop.trans (if_pos inside)
      have size : (xs.take i).length = i := List.length_take_of_le (Nat.le_of_lt inside)
      have front : (xs.set i y).take (i + 1) = xs.take i ++ [y] := by
        rw [split, List.take_append, size, List.take_of_length_le (by omega)]
        simp
      have back : (xs.set i y).drop (i + 1 + ys.length) = xs.drop (i + (ys.length + 1)) := by
        rw [List.drop_set_of_lt (by omega)]
        congr 1
        omega
      rw [putAll, put_of_lt inside]
      show putAll (xs.set i y) (i + 1) ys = _
      rw [ih (by rw [List.length_set]; omega), front, back, List.length_cons]
      simp

/-- Elements that do not fit are an error. -/
theorem putAll_eq_none (some : ys ≠ []) (beyond : xs.length < i + ys.length) :
    putAll xs i ys = none := by
  induction ys generalizing xs i with
  | nil => exact absurd rfl some
  | cons y ys ih =>
      rw [List.length_cons] at beyond
      rw [putAll]
      by_cases inside : i < xs.length
      · rw [put_of_lt inside]
        show putAll (xs.set i y) (i + 1) ys = none
        apply ih
        · rintro rfl
          simp only [List.length_nil] at beyond
          omega
        · rw [List.length_set]
          omega
      · rw [put_of_le (Nat.le_of_not_lt inside)]
        rfl

end Sbrocks.Arrays
