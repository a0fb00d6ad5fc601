import Mathlib.Data.List.Nodup
import Mathlib.Logic.Function.Basic
import Sbrocks.Chain.Basic

/-!
# Finite chains

A chain that ends is the list of its nodes.  The loops over a chain find nodes of
that list, and writing a link splices it.
-/

namespace Sbrocks.Chain

universe u

variable {α : Type u} {next next' : α → Option α} {head : Option α} {xs ys zs : List α} {a t : α}

/-- The chain from a link on contains a node. -/
inductive Member (next : α → Option α) : Option α → α → Prop
  | here {a : α} : Member next (some a) a
  | there {a b : α} (later : Member next (next a) b) : Member next (some a) b

/-- The chain from a link on ends, and consists of the listed nodes. -/
def Linked (next : α → Option α) : Option α → List α → Prop
  | head, [] => head = none
  | head, a :: rest => head = some a ∧ Linked next (next a) rest

@[simp]
theorem linked_nil : Linked next head [] ↔ head = none :=
  Iff.rfl

@[simp]
theorem linked_cons : Linked next head (a :: xs) ↔ head = some a ∧ Linked next (next a) xs :=
  Iff.rfl

namespace Linked

theorem eq_nil (linked : Linked next none xs) : xs = [] := by
  cases xs with
  | nil => rfl
  | cons a xs => cases linked.1

theorem eq_cons (linked : Linked next (some a) xs) :
    ∃ rest, xs = a :: rest ∧ Linked next (next a) rest := by
  cases xs with
  | nil => cases linked
  | cons b rest =>
      rcases linked with ⟨same, linked⟩
      cases same
      exact ⟨rest, rfl, linked⟩

theorem unique (linked : Linked next head xs) (other : Linked next head ys) : xs = ys := by
  induction xs generalizing head ys with
  | nil =>
      cases linked
      exact other.eq_nil.symm
  | cons a xs ih =>
      rcases linked with ⟨rfl, linked⟩
      rcases other.eq_cons with ⟨rest, rfl, behind⟩
      rw [ih linked behind]

theorem member_iff (linked : Linked next head xs) : Member next head t ↔ t ∈ xs := by
  constructor
  · intro member
    induction member generalizing xs with
    | here =>
        rcases linked.eq_cons with ⟨rest, rfl, _⟩
        exact List.mem_cons_self
    | there _ ih =>
        rcases linked.eq_cons with ⟨rest, rfl, behind⟩
        exact List.mem_cons_of_mem _ (ih behind)
  · intro member
    induction xs generalizing head with
    | nil => cases member
    | cons a xs ih =>
        rcases linked with ⟨rfl, linked⟩
        rcases List.mem_cons.mp member with rfl | later
        · exact .here
        · exact .there (ih linked later)

/-- The chain after one of its nodes. -/
theorem after (linked : Linked next head (xs ++ t :: ys)) : Linked next (next t) ys := by
  induction xs generalizing head with
  | nil => exact linked.2
  | cons a xs ih => exact ih linked.2

/-- The last node of a chain has no link. -/
theorem last_none (linked : Linked next head (xs ++ [t])) : next t = none :=
  linked.after

/-- A chain that ends visits no node twice. -/
theorem nodup (linked : Linked next head xs) : xs.Nodup := by
  induction xs generalizing head with
  | nil => exact List.nodup_nil
  | cons a xs ih =>
      refine List.nodup_cons.mpr ⟨?_, ih linked.2⟩
      intro again
      rcases List.append_of_mem again with ⟨before, behind, rfl⟩
      have same := linked.2.unique linked.2.after
      have longer := congrArg List.length same
      simp only [List.length_append, List.length_cons] at longer
      omega

/-- Only the links of a chain's own nodes matter. -/
theorem congr (linked : Linked next head xs) (same : ∀ x ∈ xs, next' x = next x) :
    Linked next' head xs := by
  induction xs generalizing head with
  | nil => exact linked
  | cons a xs ih =>
      refine ⟨linked.1, ?_⟩
      rw [same a List.mem_cons_self]
      exact ih linked.2 fun x member => same x (List.mem_cons_of_mem _ member)

/-- Give a chain another end after one of its nodes. -/
theorem splice (linked : Linked next head (xs ++ t :: zs)) (same : ∀ x ∈ xs, next' x = next x)
    (rest : Linked next' (next' t) ys) : Linked next' head (xs ++ t :: ys) := by
  induction xs generalizing head with
  | nil => exact ⟨linked.1, rest⟩
  | cons a xs ih =>
      refine ⟨linked.1, ?_⟩
      rw [same a List.mem_cons_self]
      exact ih linked.2 fun x member => same x (List.mem_cons_of_mem _ member)

/-! ## What the loops find -/

theorem scan_mem {found : α → Bool} {n : Nat} (linked : Linked next head xs)
    (result : scan next found n head = some (some t)) : t ∈ xs := by
  induction n generalizing head xs with
  | zero => cases result
  | succ n ih =>
      cases head with
      | none => cases result
      | some a =>
          rcases linked.eq_cons with ⟨rest, rfl, behind⟩
          rw [scan] at result
          split at result
          · cases result
            exact List.mem_cons_self
          · exact List.mem_cons_of_mem _ (ih behind result)

/-- A scan finds the first node of the chain that passes the test. -/
theorem scan_eq {found : α → Bool} {n : Nat} (linked : Linked next head (xs ++ t :: ys))
    (others : ∀ x ∈ xs, found x = false) (passes : found t = true) (room : xs.length < n) :
    scan next found n head = some (some t) := by
  induction xs generalizing n head with
  | nil =>
      rcases linked with ⟨rfl, _⟩
      cases n with
      | zero => omega
      | succ n => simp [scan, passes]
  | cons a xs ih =>
      rcases linked with ⟨rfl, linked⟩
      cases n with
      | zero => omega
      | succ n =>
          rw [scan, others a List.mem_cons_self]
          exact ih linked (fun x member => others x (List.mem_cons_of_mem _ member))
            (Nat.lt_of_succ_lt_succ room)

/-- A scan gives the first of the nodes that pass the test. -/
theorem scan_filter (found : α → Bool) {n : Nat} (linked : Linked next head xs)
    (room : xs.length < n) : scan next found n head = some (xs.filter found).head? := by
  induction xs generalizing n head with
  | nil =>
      cases linked
      cases n with
      | zero => cases room
      | succ n => rfl
  | cons a xs ih =>
      rcases linked with ⟨rfl, linked⟩
      cases n with
      | zero => cases room
      | succ n =>
          rw [scan]
          split
          · rename_i passes
            rw [List.filter_cons_of_pos passes]
            rfl
          · rename_i fails
            rw [List.filter_cons_of_neg fails]
            exact ih linked (Nat.lt_of_succ_lt_succ room)

/-- With enough rounds, a scan of a chain that ends comes to its end. -/
theorem scan_some (found : α → Bool) {n : Nat} (linked : Linked next head xs) (room : xs.length < n) :
    ∃ result, scan next found n head = some result := by
  induction xs generalizing n head with
  | nil =>
      cases linked
      cases n with
      | zero => omega
      | succ n => exact ⟨none, rfl⟩
  | cons a xs ih =>
      rcases linked with ⟨rfl, linked⟩
      cases n with
      | zero => omega
      | succ n =>
          rw [scan]
          split
          · exact ⟨some a, rfl⟩
          · exact ih linked (Nat.lt_of_succ_lt_succ room)

/-- A scan that finds nothing has tested every node. -/
theorem scan_none {found : α → Bool} {n : Nat} (linked : Linked next head xs)
    (result : scan next found n head = some none) : ∀ x ∈ xs, found x = false := by
  induction n generalizing head xs with
  | zero => cases result
  | succ n ih =>
      cases head with
      | none =>
          rw [linked.eq_nil]
          exact fun _ => nofun
      | some a =>
          rcases linked.eq_cons with ⟨rest, rfl, behind⟩
          rw [scan] at result
          split at result
          · cases result
          · rename_i fails
            intro x member
            rcases List.mem_cons.mp member with rfl | later
            · exact Bool.not_eq_true _ ▸ fails
            · exact ih behind result x later

/-- Every node before another one has a successor. -/
theorem next_isSome (linked : Linked next head (xs ++ t :: ys)) (member : a ∈ xs) :
    (next a).isSome = true := by
  rcases List.append_of_mem member with ⟨front, back, rfl⟩
  rw [List.append_assoc] at linked
  have behind := linked.after
  cases back with
  | nil => rw [behind.1]; rfl
  | cons b back => rw [behind.1]; rfl

theorem last_eq {n : Nat} (linked : Linked next (some a) xs) (result : last next n a = some t) :
    ∃ front, xs = front ++ [t] := by
  induction n generalizing a xs with
  | zero => cases result
  | succ n ih =>
      rcases linked.eq_cons with ⟨rest, rfl, behind⟩
      rw [last] at result
      split at result
      · rename_i ends
        cases result
        rw [ends] at behind
        exact ⟨[], by rw [behind.eq_nil]; rfl⟩
      · rename_i following more
        rw [more] at behind
        rcases ih behind result with ⟨front, rfl⟩
        exact ⟨a :: front, rfl⟩

theorem last_some {n : Nat} (linked : Linked next (some a) (xs ++ [t])) (room : xs.length < n) :
    last next n a = some t := by
  induction xs generalizing n a with
  | nil =>
      cases n with
      | zero => cases room
      | succ n =>
          have here : a = t := Option.some.inj linked.1
          have none : next a = none := here ▸ linked.2
          rw [last, none, here]
  | cons b xs ih =>
      cases n with
      | zero => cases room
      | succ n =>
          have here : a = b := Option.some.inj linked.1
          have behind : Linked next (next a) (xs ++ [t]) := here ▸ linked.2
          rw [last]
          cases following : next a with
          | none =>
              rw [following] at behind
              exact absurd behind.eq_nil (by simp)
          | some c =>
              rw [following] at behind
              exact ih behind (Nat.lt_of_succ_lt_succ room)

theorem before_eq [DecidableEq α] {p : α} {n : Nat} (linked : Linked next (some a) xs)
    (result : before next t n a = some (some p)) : ∃ front back, xs = front ++ p :: t :: back := by
  induction n generalizing a xs with
  | zero => cases result
  | succ n ih =>
      rcases linked.eq_cons with ⟨rest, rfl, behind⟩
      rw [before] at result
      split at result
      · cases result
      · rename_i following more
        rw [more] at behind
        split at result
        · rename_i here
          cases result
          subst here
          rcases behind.eq_cons with ⟨back, rfl, _⟩
          exact ⟨[], back, rfl⟩
        · rcases ih behind result with ⟨front, back, rfl⟩
          exact ⟨a :: front, back, rfl⟩

theorem before_none [DecidableEq α] {n : Nat} (linked : Linked next (some a) (a :: xs))
    (result : before next t n a = some none) : t ∉ xs := by
  induction n generalizing a xs with
  | zero => cases result
  | succ n ih =>
      rw [before] at result
      split at result
      · rename_i ends
        have behind := linked.2
        rw [ends] at behind
        rw [behind.eq_nil]
        exact List.not_mem_nil
      · rename_i following more
        split at result
        · cases result
        · rename_i elsewhere
          have behind := linked.2
          rw [more] at behind
          rcases behind.eq_cons with ⟨rest, rfl, _⟩
          intro member
          rcases List.mem_cons.mp member with here | later
          · exact elsewhere here.symm
          · exact ih behind result later

/-! ## What the operations do -/

variable [DecidableEq α]

/-- Link a new node behind the last one. -/
theorem push (linked : Linked next head (xs ++ [t])) (fresh : a ∉ xs ++ [t]) :
    Linked (Function.update (Function.update next t (some a)) a none) head (xs ++ [t] ++ [a]) := by
  have distinct : t ∉ xs := by
    have := linked.nodup
    grind
  rw [List.append_assoc]
  apply linked.splice
  · intro x member
    rw [Function.update_of_ne (by grind), Function.update_of_ne (by grind)]
  · rw [Function.update_of_ne (by grind), Function.update_self]
    exact ⟨rfl, Function.update_self ..⟩

/-- Link a node of the chain behind the last one: what was behind it is cut off. -/
theorem requeue (linked : Linked next head (xs ++ a :: ys)) {l : α} (last : l ∈ a :: ys) :
    Linked (Function.update (Function.update next l (some a)) a none) head (xs ++ [a]) := by
  have distinct := linked.nodup
  apply linked.splice
  · intro x member
    rw [Function.update_of_ne (by grind), Function.update_of_ne (by grind)]
  · exact Function.update_self ..

/-- Unlink a node behind another one. -/
theorem unlink {p : α} (linked : Linked next head (xs ++ p :: t :: ys)) :
    Linked (Function.update next p (next t)) head (xs ++ p :: ys) := by
  have distinct := linked.nodup
  apply linked.splice
  · intro x member
    rw [Function.update_of_ne (by grind)]
  · rw [Function.update_self]
    have behind : Linked next head ((xs ++ [p]) ++ t :: ys) := by simpa using linked
    apply behind.after.congr
    intro x member
    rw [Function.update_of_ne (by grind)]

end Linked

end Sbrocks.Chain
