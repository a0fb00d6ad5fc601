import Sbrocks.Radix.Walk

/-!
# Forests of tables

Several roots, each with a tree of tables of the same depth below it.  A table
is reached along one path only; two roots may share the tables below a shared
index and no others.  The invariant survives linking a fresh empty table,
rewriting an entry of the last level, and adding a root that only takes over the
shared entries; each step changes the walks that end at the changed entry.
-/

namespace Sbrocks.Radix

universe u v w

variable {F : Type u} {I : Type v} {E : Type w}

/-- The path starts at a shared index. -/
def SharedPath (shared : I → Prop) : List I → Prop
  | [] => False
  | i :: _ => shared i

theorem SharedPath.append {shared : I → Prop} {path : List I} (held : SharedPath shared path)
    (more : List I) : SharedPath shared (path ++ more) := by
  cases path with
  | nil => exact held.elim
  | cons i path => exact held

/-- A node reached from a root in fewer steps than the trees are deep. -/
def IsTable (next : E → Option F) (store : F → I → E) (roots : F → Prop) (depth : Nat)
    (node : F) : Prop :=
  ∃ root path, roots root ∧ path.length < depth ∧ walk next store root path = some node

/-- Tables are reached along one path, and from two roots only below a shared
index; the roots agree on the shared indices. -/
structure Forest (next : E → Option F) (store : F → I → E) (roots : F → Prop)
    (shared : I → Prop) (depth : Nat) : Prop where
  unique : ∀ {first second : F} {path path' : List I} {node : F}, roots first → roots second →
    path.length < depth → path'.length < depth → walk next store first path = some node →
    walk next store second path' = some node →
    path = path' ∧ (first = second ∨ SharedPath shared path)
  coherent : ∀ {first second : F} {i : I}, roots first → roots second → shared i →
    next (store first i) = next (store second i)

namespace Forest

variable {next : E → Option F} {store changed : F → I → E} {roots : F → Prop}
  {shared : I → Prop} {depth : Nat}

/-- Below a shared index every root has the same tables and the same leaves. -/
theorem walk_eq_of_shared (forest : Forest next store roots shared depth) {first second : F}
    (firstRoot : roots first) (secondRoot : roots second) {path : List I}
    (held : SharedPath shared path) :
    walk next store first path = walk next store second path := by
  cases path with
  | nil => exact held.elim
  | cons i path => rw [walk_cons, walk_cons, forest.coherent firstRoot secondRoot held]

/-- A walk no longer than the trees are deep only reads entries of tables. -/
theorem isTable_of_reads {root node : F} {path : List I} {i : I} (isRoot : roots root)
    (bound : path.length ≤ depth) (reads : Reads next store root path node i) :
    IsTable next store roots depth node := by
  rcases reads with ⟨before, after, rfl, reached⟩
  refine ⟨root, before, isRoot, ?_, reached⟩
  simp only [List.length_append, List.length_cons] at bound
  omega

/-- A store that agrees with the old one on all tables has the same walks. -/
theorem walk_eq_of_agree
    (agree : ∀ node i, IsTable next store roots depth node →
      next (changed node i) = next (store node i))
    {root : F} (isRoot : roots root) {path : List I} (bound : path.length ≤ depth) :
    walk next changed root path = walk next store root path :=
  walk_eq_of_reads_eq fun node i reads => agree node i (isTable_of_reads isRoot bound reads)

theorem of_agree (forest : Forest next store roots shared depth) (positive : 0 < depth)
    (agree : ∀ node i, IsTable next store roots depth node →
      next (changed node i) = next (store node i)) :
    Forest next changed roots shared depth := by
  constructor
  · intro first second path path' node firstRoot secondRoot bound bound' reached reached'
    rw [walk_eq_of_agree agree firstRoot (Nat.le_of_lt bound)] at reached
    rw [walk_eq_of_agree agree secondRoot (Nat.le_of_lt bound')] at reached'
    exact forest.unique firstRoot secondRoot bound bound' reached reached'
  · intro first second i firstRoot secondRoot held
    rw [agree first i ⟨first, [], firstRoot, positive, rfl⟩,
      agree second i ⟨second, [], secondRoot, positive, rfl⟩]
    exact forest.coherent firstRoot secondRoot held

theorem isTable_iff_of_agree
    (agree : ∀ node i, IsTable next store roots depth node →
      next (changed node i) = next (store node i)) (node : F) :
    IsTable next changed roots depth node ↔ IsTable next store roots depth node := by
  constructor
  · rintro ⟨root, path, isRoot, bound, reached⟩
    rw [walk_eq_of_agree agree isRoot (Nat.le_of_lt bound)] at reached
    exact ⟨root, path, isRoot, bound, reached⟩
  · rintro ⟨root, path, isRoot, bound, reached⟩
    rw [← walk_eq_of_agree agree isRoot (Nat.le_of_lt bound)] at reached
    exact ⟨root, path, isRoot, bound, reached⟩

/-- Fewer roots make a forest as well. -/
theorem mono (forest : Forest next store roots shared depth) {fewer : F → Prop}
    (subset : ∀ root, fewer root → roots root) : Forest next store fewer shared depth :=
  ⟨fun first second => forest.unique (subset _ first) (subset _ second),
    fun first second => forest.coherent (subset _ first) (subset _ second)⟩

section Put

variable [DecidableEq F] [DecidableEq I]

/-- A walk that reads the entry under update reads it after the one path that
leads to its table, which the update does not disturb. -/
private theorem walk_put_of_reads (forest : Forest next store roots shared depth)
    {root node other : F} {path ρ : List I} {i : I} (isRoot : roots root)
    (bound : path.length < depth) (reached : walk next store root path = some node)
    (entry : E) (otherRoot : roots other) (otherBound : ρ.length ≤ depth)
    (reads : Reads next store other ρ node i) :
    ∃ after, ρ = path ++ i :: after ∧ walk next store other path = some node ∧
      walk next (put store node i entry) other ρ =
        (next entry).bind fun child => walk next (put store node i entry) child after := by
  rcases reads with ⟨before, after, rfl, reachedBefore⟩
  simp only [List.length_append, List.length_cons] at otherBound
  obtain rfl : path = before :=
    (forest.unique isRoot otherRoot bound (by omega) reached reachedBefore).1
  have undisturbed : ¬ Reads next store other path node i := by
    rintro ⟨earlier, later, split, reachedEarlier⟩
    have lengths := congrArg List.length split
    simp only [List.length_append, List.length_cons] at lengths
    have same := (forest.unique otherRoot otherRoot bound (by omega) reachedBefore reachedEarlier).1
    have sameLength := congrArg List.length same
    omega
  refine ⟨after, rfl, reachedBefore, ?_⟩
  rw [walk_append, walk_put_of_not_reads entry undisturbed, reachedBefore]
  simp [walk_cons]

/-- Rewriting an entry of the last level changes the walks that end there. -/
theorem walk_put_leaf (forest : Forest next store roots shared depth) {root node other : F}
    {path ρ : List I} {i : I} (isRoot : roots root) (last : path.length + 1 = depth)
    (reached : walk next store root path = some node) (entry : E) (otherRoot : roots other)
    (otherBound : ρ.length ≤ depth) :
    walk next (put store node i entry) other ρ =
      if ρ = path ++ [i] ∧ walk next store other path = some node then next entry
      else walk next store other ρ := by
  by_cases reads : Reads next store other ρ node i
  · obtain ⟨after, rfl, reachedOther, value⟩ :=
      walk_put_of_reads forest isRoot (by omega) reached entry otherRoot otherBound reads
    simp only [List.length_append, List.length_cons] at otherBound
    obtain rfl : after = [] := List.eq_nil_of_length_eq_zero (by omega)
    rw [value, if_pos ⟨rfl, reachedOther⟩]
    simp
  · rw [walk_put_of_not_reads entry reads, if_neg]
    rintro ⟨rfl, reachedOther⟩
    exact reads ⟨path, [], rfl, reachedOther⟩

/-- The tables are untouched by rewriting an entry of the last level. -/
theorem put_leaf (forest : Forest next store roots shared depth) {root node : F}
    {path : List I} {i : I} (isRoot : roots root) (last : path.length + 1 = depth)
    (inner : path ≠ []) (reached : walk next store root path = some node) (entry : E) :
    Forest next (put store node i entry) roots shared depth := by
  have tables : ∀ {other : F} {ρ : List I}, roots other → ρ.length < depth →
      walk next (put store node i entry) other ρ = walk next store other ρ := by
    intro other ρ otherRoot otherBound
    rw [forest.walk_put_leaf isRoot last reached entry otherRoot (Nat.le_of_lt otherBound), if_neg]
    rintro ⟨rfl, _⟩
    simp only [List.length_append, List.length_cons, List.length_nil] at otherBound
    omega
  constructor
  · intro first second ρ ρ' table firstRoot secondRoot bound bound' found found'
    rw [tables firstRoot bound] at found
    rw [tables secondRoot bound'] at found'
    exact forest.unique firstRoot secondRoot bound bound' found found'
  · intro first second j firstRoot secondRoot held
    have notRoot : ∀ other, roots other → other ≠ node := by
      rintro other otherRoot rfl
      exact inner (forest.unique isRoot otherRoot (by omega) (by simp; omega) reached rfl).1
    rw [put_of_node_ne entry (notRoot first firstRoot), put_of_node_ne entry (notRoot second secondRoot)]
    exact forest.coherent firstRoot secondRoot held

/-- Linking a fresh empty table at an empty entry adds one walk. -/
theorem walk_put_link (forest : Forest next store roots shared depth) {root node other fresh : F}
    {path ρ : List I} {i : I} {entry : E} (isRoot : roots root) (inner : path.length + 1 < depth)
    (reached : walk next store root path = some node) (empty : next (store node i) = none)
    (points : next entry = some fresh) (isFresh : ¬ IsTable next store roots depth fresh)
    (clean : ∀ j, next (store fresh j) = none) (otherRoot : roots other)
    (otherBound : ρ.length ≤ depth) :
    walk next (put store node i entry) other ρ =
      if ρ = path ++ [i] ∧ walk next store other path = some node then some fresh
      else walk next store other ρ := by
  by_cases reads : Reads next store other ρ node i
  · obtain ⟨after, rfl, reachedOther, value⟩ :=
      walk_put_of_reads forest isRoot (by omega) reached entry otherRoot otherBound reads
    cases after with
    | nil =>
        rw [value, points, if_pos ⟨rfl, reachedOther⟩]
        rfl
    | cons j after =>
        have notFresh : fresh ≠ node := by
          rintro rfl
          exact isFresh ⟨root, path, isRoot, by omega, reached⟩
        have different : path ++ i :: j :: after ≠ path ++ [i] := by simp
        rw [value, points, if_neg fun impossible => different impossible.1, walk_append, reachedOther]
        simp [walk_cons, empty, put_of_node_ne entry notFresh, clean]
  · rw [walk_put_of_not_reads entry reads, if_neg]
    rintro ⟨rfl, reachedOther⟩
    exact reads ⟨path, [], rfl, reachedOther⟩

/-- Linking a fresh empty table keeps the forest; at a root the index must not
be a shared one. -/
theorem put_link (forest : Forest next store roots shared depth) {root node fresh : F}
    {path : List I} {i : I} {entry : E} (isRoot : roots root) (inner : path.length + 1 < depth)
    (reached : walk next store root path = some node) (empty : next (store node i) = none)
    (points : next entry = some fresh) (isFresh : ¬ IsTable next store roots depth fresh)
    (clean : ∀ j, next (store fresh j) = none) (own : path = [] → ¬ shared i) :
    Forest next (put store node i entry) roots shared depth := by
  constructor
  · intro first second ρ ρ' table firstRoot secondRoot bound bound' found found'
    rw [forest.walk_put_link isRoot inner reached empty points isFresh clean firstRoot
      (Nat.le_of_lt bound)] at found
    rw [forest.walk_put_link isRoot inner reached empty points isFresh clean secondRoot
      (Nat.le_of_lt bound')] at found'
    split at found
    · rename_i new
      split at found'
      · rename_i new'
        refine ⟨new.1.trans new'.1.symm, ?_⟩
        have above := (forest.unique firstRoot secondRoot (by omega) (by omega) new.2 new'.2).2
        rcases above with same | held
        · exact .inl same
        · exact .inr (new.1 ▸ held.append [i])
      · obtain rfl := Option.some.inj found
        exact absurd ⟨second, ρ', secondRoot, bound', found'⟩ isFresh
    · split at found'
      · obtain rfl := Option.some.inj found'
        exact absurd ⟨first, ρ, firstRoot, bound, found⟩ isFresh
      · exact forest.unique firstRoot secondRoot bound bound' found found'
  · intro first second j firstRoot secondRoot held
    have unchanged : ∀ other, roots other → put store node i entry other j = store other j := by
      intro other otherRoot
      apply put_of_ne
      by_contra same
      rw [not_or, not_not, not_not] at same
      obtain ⟨rfl, rfl⟩ := same
      exact own (forest.unique isRoot otherRoot (by omega) (by simp; omega) reached rfl).1 held
    rw [unchanged first firstRoot, unchanged second secondRoot]
    exact forest.coherent firstRoot secondRoot held

/-- The tables after linking are the old ones and the fresh one. -/
theorem isTable_put_link (forest : Forest next store roots shared depth) {root node fresh table : F}
    {path : List I} {i : I} {entry : E} (isRoot : roots root) (inner : path.length + 1 < depth)
    (reached : walk next store root path = some node) (empty : next (store node i) = none)
    (points : next entry = some fresh) (isFresh : ¬ IsTable next store roots depth fresh)
    (clean : ∀ j, next (store fresh j) = none)
    (isTable : IsTable next (put store node i entry) roots depth table) :
    table = fresh ∨ IsTable next store roots depth table := by
  rcases isTable with ⟨other, ρ, otherRoot, bound, found⟩
  rw [forest.walk_put_link isRoot inner reached empty points isFresh clean otherRoot
    (Nat.le_of_lt bound)] at found
  split at found
  · exact .inl (Option.some.inj found).symm
  · exact .inr ⟨other, ρ, otherRoot, bound, found⟩

end Put

/-- After a root is added, a walk to a table is either the empty one from the new
root or a walk of an old root. -/
private theorem walk_of_walk_addRoot (positive : 0 < depth) {model fresh root node : F}
    {path : List I} (isRoot : roots model)
    (tables : ∀ node i, IsTable next store roots depth node →
      next (changed node i) = next (store node i))
    (taken : ∀ i, shared i → next (changed fresh i) = next (store model i))
    (clean : ∀ i, ¬ shared i → next (changed fresh i) = none)
    (rootOr : root = fresh ∨ roots root) (bound : path.length < depth)
    (found : walk next changed root path = some node) :
    (root = fresh ∧ path = [] ∧ node = fresh) ∨
      (∃ old, roots old ∧ walk next store old path = some node ∧
        (root = old ∨ SharedPath shared path)) := by
  by_cases equal : root = fresh
  · subst equal
    cases path with
    | nil => exact .inl ⟨rfl, rfl, (Option.some.inj found).symm⟩
    | cons i path =>
        by_cases held : shared i
        · refine .inr ⟨model, isRoot, ?_, .inr held⟩
          rw [walk_cons, taken i held] at found
          rw [← walk_eq_of_agree tables isRoot (Nat.le_of_lt bound), walk_cons,
            tables model i ⟨model, [], isRoot, positive, rfl⟩]
          exact found
        · rw [walk_cons, clean i held] at found
          contradiction
  · have oldRoot := rootOr.resolve_left equal
    rw [walk_eq_of_agree tables oldRoot (Nat.le_of_lt bound)] at found
    exact .inr ⟨root, oldRoot, found, .inl rfl⟩

/-- The tables after adding a root are the old ones and the root. -/
theorem isTable_addRoot (positive : 0 < depth) {model fresh node : F} (isRoot : roots model)
    (tables : ∀ node i, IsTable next store roots depth node →
      next (changed node i) = next (store node i))
    (taken : ∀ i, shared i → next (changed fresh i) = next (store model i))
    (clean : ∀ i, ¬ shared i → next (changed fresh i) = none)
    (isTable : IsTable next changed (fun root => root = fresh ∨ roots root) depth node) :
    node = fresh ∨ IsTable next store roots depth node := by
  rcases isTable with ⟨root, path, rootOr, bound, found⟩
  rcases walk_of_walk_addRoot positive isRoot tables taken clean rootOr bound found with
    ⟨_, _, same⟩ | ⟨old, oldRoot, reached, _⟩
  · exact .inl same
  · exact .inr ⟨old, path, oldRoot, bound, reached⟩

/-- A fresh node that takes over the shared entries of a root, and points at
nothing else, is a further root. -/
theorem addRoot (forest : Forest next store roots shared depth) (positive : 0 < depth)
    {model fresh : F} (isRoot : roots model) (isFresh : ¬ IsTable next store roots depth fresh)
    (tables : ∀ node i, IsTable next store roots depth node →
      next (changed node i) = next (store node i))
    (taken : ∀ i, shared i → next (changed fresh i) = next (store model i))
    (clean : ∀ i, ¬ shared i → next (changed fresh i) = none) :
    Forest next changed (fun root => root = fresh ∨ roots root) shared depth := by
  constructor
  · intro first second path path' node firstRoot secondRoot bound bound' found found'
    rcases walk_of_walk_addRoot positive isRoot tables taken clean firstRoot bound found with
      ⟨rfl, rfl, rfl⟩ | ⟨old, oldRoot, reached, sameOr⟩
    · rcases walk_of_walk_addRoot positive isRoot tables taken clean secondRoot bound' found' with
        ⟨rfl, rfl, _⟩ | ⟨old', oldRoot', reached', _⟩
      · exact ⟨rfl, .inl rfl⟩
      · exact absurd ⟨old', path', oldRoot', bound', reached'⟩ isFresh
    · rcases walk_of_walk_addRoot positive isRoot tables taken clean secondRoot bound' found' with
        ⟨rfl, rfl, rfl⟩ | ⟨old', oldRoot', reached', sameOr'⟩
      · exact absurd ⟨old, path, oldRoot, bound, reached⟩ isFresh
      · obtain ⟨rfl, either⟩ := forest.unique oldRoot oldRoot' bound bound' reached reached'
        refine ⟨rfl, ?_⟩
        rcases sameOr with rfl | held
        · rcases sameOr' with rfl | held
          · exact either
          · exact .inr held
        · exact .inr held
  · have rootEntry : ∀ {root : F} {i : I}, (root = fresh ∨ roots root) → shared i →
        next (changed root i) = next (store model i) := by
      intro root i rootOr held
      by_cases equal : root = fresh
      · rw [equal, taken i held]
      · have oldRoot := rootOr.resolve_left equal
        rw [tables root i ⟨root, [], oldRoot, positive, rfl⟩]
        exact forest.coherent oldRoot isRoot held
    intro first second i firstRoot secondRoot held
    rw [rootEntry firstRoot held, rootEntry secondRoot held]

end Forest

end Sbrocks.Radix
