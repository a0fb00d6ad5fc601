import Mathlib.Logic.Function.Basic
import Mathlib.Data.List.Basic
import Mathlib.Tactic.Common

/-!
# Walks through linked tables

A store gives every node one entry per index, and `next` reads from an entry the
node that it points at, if any.  A walk follows a path of indices from a node.
What a walk finds only depends on the entries that it reads, so a store update
matters to the walks that read the updated entry and to no others.
-/

namespace Sbrocks.Radix

universe u v w

variable {F : Type u} {I : Type v} {E : Type w}

/-- The node reached from a node along a path of indices. -/
def walk (next : E → Option F) (store : F → I → E) : F → List I → Option F
  | node, [] => some node
  | node, i :: path => (next (store node i)).bind fun child => walk next store child path

section Walk

variable {next : E → Option F} {store changed : F → I → E}

@[simp]
theorem walk_nil (node : F) : walk next store node [] = some node :=
  rfl

theorem walk_cons (node : F) (i : I) (path : List I) :
    walk next store node (i :: path) =
      (next (store node i)).bind fun child => walk next store child path :=
  rfl

theorem walk_append (node : F) (first second : List I) :
    walk next store node (first ++ second) =
      (walk next store node first).bind fun middle => walk next store middle second := by
  induction first generalizing node with
  | nil => rfl
  | cons i first ih => simp [walk_cons, ih, Option.bind_assoc]

theorem walk_concat {node last : F} {path : List I} (reached : walk next store node path = some last)
    (i : I) : walk next store node (path ++ [i]) = next (store last i) := by
  rw [walk_append, reached]
  simp [walk_cons]

/-- A walk that ends at a node visits a node after each initial segment. -/
theorem exists_walk_of_append {node last : F} {first second : List I}
    (reached : walk next store node (first ++ second) = some last) :
    ∃ middle, walk next store node first = some middle ∧
      walk next store middle second = some last := by
  rw [walk_append] at reached
  exact Option.bind_eq_some_iff.mp reached

/-- The walk along the path reads entry `i` of `node`. -/
def Reads (next : E → Option F) (store : F → I → E) (root : F) (path : List I) (node : F) (i : I) :
    Prop :=
  ∃ before after, path = before ++ i :: after ∧ walk next store root before = some node

theorem Reads.cons {root child node : F} {i j : I} {path : List I}
    (step : next (store root j) = some child) (reads : Reads next store child path node i) :
    Reads next store root (j :: path) node i := by
  rcases reads with ⟨before, after, rfl, reached⟩
  refine ⟨j :: before, after, rfl, ?_⟩
  rw [walk_cons, step]
  exact reached

/-- The nodes that the walk along a path reads, in order. -/
def visited (next : E → Option F) (store : F → I → E) : F → List I → List F
  | _, [] => []
  | node, i :: path =>
      node :: match next (store node i) with
        | none => []
        | some child => visited next store child path

theorem Reads.mem_visited {root node : F} {path : List I} {i : I}
    (reads : Reads next store root path node i) : node ∈ visited next store root path := by
  rcases reads with ⟨before, after, rfl, reached⟩
  induction before generalizing root with
  | nil =>
      cases reached
      exact List.mem_cons_self
  | cons j before ih =>
      rw [walk_cons] at reached
      rw [List.cons_append, visited]
      cases step : next (store root j) with
      | none =>
          rw [step] at reached
          cases reached
      | some child =>
          rw [step] at reached
          exact List.mem_cons_of_mem _ (ih reached)

/-- Two stores whose entries point at the same nodes wherever the walk reads
give the same walk. -/
theorem walk_eq_of_reads_eq {root : F} {path : List I}
    (agree : ∀ node i, Reads next store root path node i →
      next (changed node i) = next (store node i)) :
    walk next changed root path = walk next store root path := by
  induction path generalizing root with
  | nil => rfl
  | cons j path ih =>
      have head : next (changed root j) = next (store root j) :=
        agree root j ⟨[], path, rfl, rfl⟩
      rw [walk_cons, walk_cons, head]
      cases step : next (store root j) with
      | none => rfl
      | some child =>
          exact ih fun node i reads => agree node i (reads.cons step)

theorem walk_congr (agree : ∀ node i, next (changed node i) = next (store node i)) (root : F)
    (path : List I) : walk next changed root path = walk next store root path :=
  walk_eq_of_reads_eq fun node i _ => agree node i

end Walk

section Put

variable [DecidableEq F] [DecidableEq I]

/-- Replace one entry of one node. -/
def put (store : F → I → E) (node : F) (i : I) (entry : E) : F → I → E :=
  Function.update store node (Function.update (store node) i entry)

@[simp]
theorem put_self (store : F → I → E) (node : F) (i : I) (entry : E) :
    put store node i entry node i = entry := by
  simp [put]

theorem put_of_ne {store : F → I → E} {node other : F} {i j : I} (entry : E)
    (different : other ≠ node ∨ j ≠ i) : put store node i entry other j = store other j := by
  by_cases same : other = node
  · subst same
    rcases different with impossible | otherIndex
    · exact absurd rfl impossible
    · simp [put, otherIndex]
  · simp [put, same]

theorem put_of_node_ne {store : F → I → E} {node other : F} {i : I} (entry : E)
    (different : other ≠ node) (j : I) : put store node i entry other j = store other j :=
  put_of_ne entry (.inl different)

theorem put_apply (store : F → I → E) (node other : F) (i j : I) (entry : E) :
    put store node i entry other j = if other = node ∧ j = i then entry else store other j := by
  by_cases same : other = node ∧ j = i
  · rw [if_pos same, same.1, same.2, put_self]
  · rw [if_neg same]
    apply put_of_ne
    tauto

variable {next : E → Option F} {store : F → I → E}

theorem walk_put_of_not_reads {root node : F} {path : List I} {i : I} (entry : E)
    (unread : ¬ Reads next store root path node i) :
    walk next (put store node i entry) root path = walk next store root path := by
  apply walk_eq_of_reads_eq
  intro other j reads
  rw [put_of_ne]
  by_contra same
  rw [not_or, not_not, not_not] at same
  exact unread (same.1 ▸ same.2 ▸ reads)

/-- Replacing an entry by one that points at the same node changes no walk. -/
theorem walk_put_of_next_eq {node : F} {i : I} {entry : E}
    (same : next entry = next (store node i)) (root : F) (path : List I) :
    walk next (put store node i entry) root path = walk next store root path := by
  apply walk_congr
  intro other j
  rw [put_apply]
  split
  · rename_i here
    rw [here.1, here.2, same]
  · rfl

end Put

end Sbrocks.Radix
