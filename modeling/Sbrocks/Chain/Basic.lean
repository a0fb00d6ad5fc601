import Mathlib.Data.List.Basic
import Mathlib.Tactic.Common

/-!
# Linked chains

Nodes are linked by a function to the next node, if any.  The loops over a
linked list are bounded by a number of rounds; they give nothing when that number
does not suffice, as on a chain that runs in a circle.
-/

namespace Sbrocks.Chain

universe u

variable {α : Type u}

/-- The first node from `start` on that satisfies a test. -/
def scan (next : α → Option α) (found : α → Bool) : Nat → Option α → Option (Option α)
  | 0, _ => none
  | _ + 1, none => some none
  | n + 1, some node => if found node then some (some node) else scan next found n (next node)

/-- The last node of the chain from a node on. -/
def last (next : α → Option α) : Nat → α → Option α
  | 0, _ => none
  | n + 1, node =>
      match next node with
      | none => some node
      | some following => last next n following

/-- The node whose successor is the given one. -/
def before [DecidableEq α] (next : α → Option α) (target : α) :
    Nat → α → Option (Option α)
  | 0, _ => none
  | n + 1, node =>
      match next node with
      | none => some none
      | some following =>
          if following = target then some (some node) else before next target n following

/-- What a scan finds passes the test. -/
theorem scan_found {next : α → Option α} {found : α → Bool} {n : Nat} {start : Option α} {node : α}
    (result : scan next found n start = some (some node)) : found node = true := by
  induction n generalizing start with
  | zero => cases result
  | succ n ih =>
      cases start with
      | none => cases result
      | some first =>
          rw [scan] at result
          split at result
          · rename_i passes
            cases result
            exact passes
          · exact ih result

end Sbrocks.Chain
