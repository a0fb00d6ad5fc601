import Mathlib.Data.List.Pairwise
import Mathlib.Tactic.Common

/-!
# Pieces laid end to end

A list of pieces, each with a place and a length, tiles an interval when every
piece begins where the one before it ends.
-/

namespace Sbrocks.Tiling

universe u

variable {α : Type u} {place len len' : α → Nat} {start middle stop : Nat} {xs ys : List α} {a b : α}

/-- The pieces lie end to end and fill the interval. -/
def Tiles (place len : α → Nat) : Nat → List α → Nat → Prop
  | start, [], stop => start = stop
  | start, a :: rest, stop => place a = start ∧ Tiles place len (start + len a) rest stop

namespace Tiles

theorem append (front : Tiles place len start xs middle) (back : Tiles place len middle ys stop) :
    Tiles place len start (xs ++ ys) stop := by
  induction xs generalizing start with
  | nil =>
      cases front
      exact back
  | cons a xs ih => exact ⟨front.1, ih front.2⟩

/-- One more piece at the end. -/
theorem snoc (tiles : Tiles place len start xs stop) (here : place a = stop) :
    Tiles place len start (xs ++ [a]) (stop + len a) :=
  tiles.append ⟨here, rfl⟩

theorem le (tiles : Tiles place len start xs stop) : start ≤ stop := by
  induction xs generalizing start with
  | nil => exact Nat.le_of_eq tiles
  | cons a xs ih =>
      have := ih tiles.2
      omega

/-- Every piece lies in the interval. -/
theorem inside (tiles : Tiles place len start xs stop) (member : a ∈ xs) :
    start ≤ place a ∧ place a + len a ≤ stop := by
  induction xs generalizing start with
  | nil => cases member
  | cons b xs ih =>
      rcases tiles with ⟨here, rest⟩
      rcases List.mem_cons.mp member with rfl | later
      · exact ⟨Nat.le_of_eq here.symm, here ▸ rest.le⟩
      · have := ih rest later
        omega

/-- The pieces are in the order of their places, and do not overlap. -/
theorem ordered (tiles : Tiles place len start xs stop) :
    xs.Pairwise fun a b => place a + len a ≤ place b := by
  induction xs generalizing start with
  | nil => exact List.Pairwise.nil
  | cons a xs ih =>
      rcases tiles with ⟨here, rest⟩
      refine List.pairwise_cons.mpr ⟨?_, ih rest⟩
      intro b later
      have := (rest.inside later).1
      omega

/-- Two pieces are one or do not overlap. -/
theorem apart (tiles : Tiles place len start xs stop) (first : a ∈ xs) (second : b ∈ xs) :
    a = b ∨ place a + len a ≤ place b ∨ place b + len b ≤ place a := by
  have : Std.Symm fun a b => place a + len a ≤ place b ∨ place b + len b ≤ place a :=
    ⟨fun _ _ => Or.symm⟩
  have each : xs.Pairwise fun a b => place a + len a ≤ place b ∨ place b + len b ≤ place a :=
    tiles.ordered.imp Or.inl
  by_cases same : a = b
  · exact .inl same
  · exact .inr (each.forall first second same)

/-- Nothing of the interval is left out. -/
theorem covers (tiles : Tiles place len start xs stop) {i : Nat} (low : start ≤ i) (high : i < stop) :
    ∃ a ∈ xs, place a ≤ i ∧ i < place a + len a := by
  induction xs generalizing start with
  | nil =>
      cases tiles
      omega
  | cons a xs ih =>
      rcases tiles with ⟨here, rest⟩
      by_cases before : i < start + len a
      · exact ⟨a, List.mem_cons_self, by omega, by omega⟩
      · rcases ih rest (by omega) with ⟨b, later, found⟩
        exact ⟨b, List.mem_cons_of_mem _ later, found⟩

/-- There are no more pieces than places. -/
theorem length_le (tiles : Tiles place len start xs stop) (filled : ∀ a ∈ xs, 0 < len a) :
    start + xs.length ≤ stop := by
  induction xs generalizing start with
  | nil => exact Nat.le_of_eq tiles
  | cons a xs ih =>
      have rest := ih tiles.2 fun b later => filled b (List.mem_cons_of_mem _ later)
      have here := filled a List.mem_cons_self
      rw [List.length_cons]
      omega

/-- Only the lengths of the pieces themselves matter. -/
theorem congr (tiles : Tiles place len start xs stop) (same : ∀ a ∈ xs, len' a = len a) :
    Tiles place len' start xs stop := by
  induction xs generalizing start with
  | nil => exact tiles
  | cons a xs ih =>
      refine ⟨tiles.1, ?_⟩
      rw [same a List.mem_cons_self]
      exact ih tiles.2 fun b later => same b (List.mem_cons_of_mem _ later)

end Tiles

end Sbrocks.Tiling
