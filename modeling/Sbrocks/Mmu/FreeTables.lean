import Mathlib.Data.List.Perm.Basic
import Mathlib.Data.List.Nodup
import Sbrocks.Mmu.Translation

/-!
# Freeing page tables

`free_page_tables` goes through the first 511 entries of every table that it comes to,
and frees the frame of each entry, after what is below it.  The root is given here by
its frame, and the calls of `mm_phy_free_page` are recorded in a ghost list.
-/

namespace Sbrocks.Mmu

open Sbrocks.Radix

/-- The memory while tables are freed, and the pages that `mm_phy_free_page` was called with. -/
structure Teardown where
  machine : Machine
  calls : List Word

namespace Teardown

/-- Entries of a table. -/
def entry (t : Teardown) (table : Word) (i : BitVec 9) : Word := t.machine.mem table i

/-- Store an entry. -/
def setEntry (t : Teardown) (table : Word) (i : BitVec 9) (value : Word) : Teardown :=
  { t with machine := t.machine.setEntry table i value }

/-- `mm_phy_free_page`. -/
def mmPhyFreePage (t : Teardown) (page : Word) : Teardown where
  machine := { t.machine with phy := t.machine.phy.mmPhyFreePage page }
  calls := t.calls ++ [page]

/-- A loop over the first `n` entries of a table. -/
def forEntries (body : Teardown → BitVec 9 → Teardown) (t : Teardown) : Nat → Teardown
  | 0 => t
  | n + 1 => body (forEntries body t n) (BitVec.ofNat 9 n)

/-- The body of the innermost loop of `free_page_tables`. -/
def clearEntry (pte : Word) (t : Teardown) (n : BitVec 9) : Teardown :=
  if isPresent (t.entry pte n) then t.setEntry pte n 0 else t

/-- The loops of `free_page_tables` from a level on; level 0 is the loop over a last-level table. -/
def freeLevel : Nat → Teardown → Word → Teardown
  | 0, t, pte => forEntries (clearEntry pte) t 511
  | level + 1, t, table => forEntries (fun t i =>
      let t := if isPresent (t.entry table i) then freeLevel level t (tableOf (t.entry table i)) else t
      let t := t.mmPhyFreePage (tableOf (t.entry table i))
      t.setEntry table i 0) t 511

end Teardown

/-- `free_page_tables`. -/
def Machine.freePageTables (m : Machine) (pml4e : Word) : Teardown :=
  Teardown.freeLevel 3 ⟨m, []⟩ pml4e

/-! ## Tables, as lists -/

/-- The first `n` indices. -/
def indices (n : Nat) : List (BitVec 9) := (List.range n).map (BitVec.ofNat 9)

section Lists

variable (mem : Word → BitVec 9 → Word)

/-- The tables that hang below a table. -/
def below : Nat → Word → List Word
  | 0, _ => []
  | level + 1, table => (indices 512).flatMap fun i =>
      (entryFrame (mem table i)).elim [] fun child => child :: below level child

/-- The tables that the loops come to. -/
def tornDown : Nat → Word → List Word
  | 0, _ => []
  | level + 1, table => (indices 511).flatMap fun i =>
      (entryFrame (mem table i)).elim [] fun child => child :: tornDown level child

/-- The pages that absent entries name which the loops come to. -/
def strays : Nat → Word → List Word
  | 0, _ => []
  | level + 1, table => (indices 511).flatMap fun i =>
      (entryFrame (mem table i)).elim ([tableOf (mem table i)].filter (· ≠ 0)) (strays level)

/-- The tables at and below the last index of a table that the loops come to. -/
def skipped : Nat → Word → List Word
  | 0, _ => []
  | level + 1, table =>
      ((indices 511).flatMap fun i => (entryFrame (mem table i)).elim [] (skipped level)) ++
        (entryFrame (mem table 511)).elim [] fun child => child :: below mem level child

/-- The pages that `mm_phy_free_page` is called with. -/
def callsOf : Nat → Word → List Word
  | 0, _ => []
  | level + 1, table => (indices 511).flatMap fun i =>
      (entryFrame (mem table i)).elim [] (callsOf level) ++ [tableOf (mem table i)]

end Lists

variable {mem mem' : Word → BitVec 9 → Word} {level n : Nat} {table page root : Word} {i : BitVec 9}

theorem indices_succ (n : Nat) : indices (n + 1) = indices n ++ [BitVec.ofNat 9 n] := by
  rw [indices, List.range_succ, List.map_append]
  rfl

theorem mem_indices (few : n ≤ 512) : i ∈ indices n ↔ i.toNat < n := by
  rw [indices, List.mem_map]
  constructor
  · rintro ⟨j, inRange, rfl⟩
    have less := List.mem_range.mp inRange
    rw [BitVec.toNat_ofNat]
    omega
  · intro less
    exact ⟨i.toNat, List.mem_range.mpr less, BitVec.eq_of_toNat_eq (by simp)⟩

theorem nodup_indices : (indices 512).Nodup := by
  apply List.Nodup.map_on _ List.nodup_range
  intro a inRange b inRange' same
  have values := congrArg BitVec.toNat same
  have := List.mem_range.mp inRange
  have := List.mem_range.mp inRange'
  rw [BitVec.toNat_ofNat, BitVec.toNat_ofNat] at values
  omega

/-- The indices that are gone through are the first ones. -/
theorem indices_prefix (few : n ≤ 512) : ∃ rest, indices 512 = indices n ++ rest := by
  refine ⟨(List.range (512 - n)).map fun j => BitVec.ofNat 9 (n + j), ?_⟩
  have count : 512 = n + (512 - n) := by omega
  conv_lhs => rw [count]
  rw [indices, List.range_add, List.map_append, List.map_map]
  rfl

/-- What hangs below an entry. -/
def belowAt (mem : Word → BitVec 9 → Word) (level : Nat) (table : Word) (i : BitVec 9) : List Word :=
  (entryFrame (mem table i)).elim [] fun child => child :: below mem level child

theorem below_succ (mem : Word → BitVec 9 → Word) (level : Nat) (table : Word) :
    below mem (level + 1) table = (indices 512).flatMap (belowAt mem level table) := by
  rw [below]
  rfl

theorem belowAt_present {child : Word} (found : entryFrame (mem table i) = some child) :
    belowAt mem level table i = child :: below mem level child := by
  rw [belowAt, found]
  rfl

theorem belowAt_absent (found : entryFrame (mem table i) = none) : belowAt mem level table i = [] := by
  rw [belowAt, found]
  rfl

/-- What hangs below an entry hangs below the table. -/
theorem below_of_belowAt (member : page ∈ belowAt mem level table i) :
    page ∈ below mem (level + 1) table := by
  rw [below_succ]
  exact List.mem_flatMap.mpr ⟨i, (mem_indices (Nat.le_refl _)).mpr i.isLt, member⟩

/-- What hangs below a table depends on the table and on what hangs below it. -/
theorem below_congr (here : mem' table = mem table)
    (there : ∀ node ∈ below mem level table, mem' node = mem node) :
    below mem' level table = below mem level table := by
  induction level generalizing table with
  | zero => rfl
  | succ level ih =>
      rw [below_succ, below_succ]
      apply List.flatMap_congr
      intro i _
      cases found : entryFrame (mem table i) with
      | none => rw [belowAt_absent found, belowAt_absent (by rw [here, found])]
      | some child =>
          have part : ∀ node ∈ child :: below mem level child, mem' node = mem node := by
            intro node member
            rw [← belowAt_present found] at member
            exact there node (below_of_belowAt member)
          rw [belowAt_present found, belowAt_present (by rw [here, found]),
            ih (part child List.mem_cons_self) fun node member =>
              part node (List.mem_cons_of_mem _ member)]

/-- The calls for an entry. -/
def callsAt (mem : Word → BitVec 9 → Word) (level : Nat) (table : Word) (i : BitVec 9) : List Word :=
  (entryFrame (mem table i)).elim [] (callsOf mem level) ++ [tableOf (mem table i)]

theorem callsOf_succ (mem : Word → BitVec 9 → Word) (level : Nat) (table : Word) :
    callsOf mem (level + 1) table = (indices 511).flatMap (callsAt mem level table) := by
  rw [callsOf]
  rfl

/-- The calls depend on the same tables. -/
theorem callsOf_congr (here : mem' table = mem table)
    (there : ∀ node ∈ below mem level table, mem' node = mem node) :
    callsOf mem' level table = callsOf mem level table := by
  induction level generalizing table with
  | zero => rw [callsOf, callsOf]
  | succ level ih =>
      rw [callsOf_succ, callsOf_succ]
      apply List.flatMap_congr
      intro i _
      rw [callsAt, callsAt, here]
      cases found : entryFrame (mem table i) with
      | none => rw [Option.elim_none, Option.elim_none]
      | some child =>
          have part : ∀ node ∈ child :: below mem level child, mem' node = mem node := by
            intro node member
            rw [← belowAt_present found] at member
            exact there node (below_of_belowAt member)
          rw [Option.elim_some, Option.elim_some, ih (part child List.mem_cons_self) fun node member =>
            part node (List.mem_cons_of_mem _ member)]

/-! ## The loops -/

namespace Teardown

variable {t t' : Teardown}

/-- What the loops do to a table and to what hangs below it. -/
structure Torn (level : Nat) (table : Word) (t t' : Teardown) : Prop where
  calls : t'.calls = t.calls ++ callsOf t.machine.mem level table
  absent : ∀ i, i ≠ 511 → entryFrame (t'.machine.mem table i) = none
  frame : ∀ node, node ∉ table :: below t.machine.mem level table →
    t'.machine.mem node = t.machine.mem node

/-- What a loop over tables did up to an index. -/
structure Gone (level : Nat) (table : Word) (n : Nat) (t t' : Teardown) : Prop where
  calls : t'.calls = t.calls ++ (indices n).flatMap (callsAt t.machine.mem level table)
  absent : ∀ i : BitVec 9, i.toNat < n → entryFrame (t'.machine.mem table i) = none
  rest : ∀ i : BitVec 9, n ≤ i.toNat → t'.machine.mem table i = t.machine.mem table i
  frame : ∀ node, node ≠ table → node ∉ (indices n).flatMap (belowAt t.machine.mem level table) →
    t'.machine.mem node = t.machine.mem node

theorem index_lt {i : BitVec 9} (other : i ≠ 511) : i.toNat < 511 := by
  have bound := i.isLt
  have apart : i.toNat ≠ 511 := fun same => other (BitVec.eq_of_toNat_eq same)
  omega

theorem lt_succ_cases (few : n < 512) (less : i.toNat < n + 1) :
    i.toNat < n ∨ i = BitVec.ofNat 9 n := by
  rcases Nat.lt_or_eq_of_le (Nat.le_of_lt_succ less) with before | same
  · exact .inl before
  · right
    apply BitVec.eq_of_toNat_eq
    rw [BitVec.toNat_ofNat, same, Nat.mod_eq_of_lt few]

/-- The loop over a last-level table, up to an index. -/
theorem clearEntries (t : Teardown) (pte : Word) (few : n ≤ 511) :
    (forEntries (clearEntry pte) t n).calls = t.calls ∧
      (∀ i : BitVec 9, i.toNat < n →
        entryFrame ((forEntries (clearEntry pte) t n).machine.mem pte i) = none) ∧
      ∀ node, node ≠ pte →
        (forEntries (clearEntry pte) t n).machine.mem node = t.machine.mem node := by
  induction n with
  | zero => exact ⟨rfl, fun i below => absurd below (Nat.not_lt_zero _), fun _ _ => rfl⟩
  | succ n ih =>
      rcases ih (Nat.le_of_succ_le few) with ⟨calls, absent, frame⟩
      rw [forEntries]
      generalize forEntries (clearEntry pte) t n = t₁ at calls absent frame
      unfold clearEntry
      split
      · refine ⟨calls, fun i less => ?_, fun node other => ?_⟩
        · change entryFrame (put t₁.machine.mem pte (BitVec.ofNat 9 n) 0 pte i) = none
          rcases lt_succ_cases (by omega) less with before | rfl
          · rw [put_apply]
            split
            · rfl
            · exact absent i before
          · rw [put_self]
            rfl
        · rw [← frame node other]
          funext i
          exact put_of_node_ne _ other i
      · rename_i missing
        refine ⟨calls, fun i less => ?_, frame⟩
        rcases lt_succ_cases (by omega) less with before | rfl
        · exact absent i before
        · rw [entryFrame_eq_none_iff]
          simpa [entry] using missing

theorem freeLevel_zero (t : Teardown) (pte : Word) : Torn 0 pte t (freeLevel 0 t pte) := by
  rcases clearEntries t pte (Nat.le_refl 511) with ⟨calls, absent, frame⟩
  rw [freeLevel]
  refine ⟨?_, fun i other => absent i (index_lt other), fun node outside => ?_⟩
  · rw [callsOf, List.append_nil, calls]
  · exact frame node fun same => outside (same ▸ List.mem_cons_self)

/-- The body of the loop over a table of tables. -/
def freeEntry (level : Nat) (table : Word) (t : Teardown) (i : BitVec 9) : Teardown :=
  let t := if isPresent (t.entry table i) then freeLevel level t (tableOf (t.entry table i)) else t
  let t := t.mmPhyFreePage (tableOf (t.entry table i))
  t.setEntry table i 0

theorem freeLevel_succ (level : Nat) (t : Teardown) (table : Word) :
    freeLevel (level + 1) t table = forEntries (freeEntry level table) t 511 := by
  rw [freeLevel]
  rfl

/-- The last step of the body: the frame is freed and the entry is cleared. -/
theorem freeEntry_tail (t : Teardown) (table : Word) (i : BitVec 9) :
    let t' := (t.mmPhyFreePage (tableOf (t.entry table i))).setEntry table i 0
    t'.calls = t.calls ++ [tableOf (t.machine.mem table i)] ∧
      (∀ j, t'.machine.mem table j = if j = i then 0 else t.machine.mem table j) ∧
      ∀ node, node ≠ table → t'.machine.mem node = t.machine.mem node := by
  refine ⟨rfl, fun j => ?_, fun node other => ?_⟩
  · change put t.machine.mem table i 0 table j = _
    rw [put_apply]
    simp only [true_and]
  · funext j
    exact put_of_node_ne _ other j

/-- The loop over a table of tables, up to an index. -/
theorem freeEntries (torn : ∀ t child, (child :: below t.machine.mem level child).Nodup →
      Torn level child t (freeLevel level t child))
    (nodup : (table :: below t.machine.mem (level + 1) table).Nodup) (few : n ≤ 511) :
    Gone level table n t (forEntries (freeEntry level table) t n) := by
  induction n with
  | zero =>
      refine ⟨?_, fun i below => absurd below (Nat.not_lt_zero _), fun _ _ => rfl, fun _ _ _ => rfl⟩
      exact (List.append_nil _).symm
  | succ n ih =>
      have gone := ih (Nat.le_of_succ_le few)
      rw [forEntries]
      generalize forEntries (freeEntry level table) t n = t₁ at gone
      let i := BitVec.ofNat 9 n
      have value : i.toNat = n := by
        rw [BitVec.toNat_ofNat]
        omega
      have entry : t₁.machine.mem table i = t.machine.mem table i := gone.rest i (by omega)
      have calls_succ : (indices (n + 1)).flatMap (callsAt t.machine.mem level table) =
          (indices n).flatMap (callsAt t.machine.mem level table) ++
            callsAt t.machine.mem level table i := by
        rw [indices_succ, List.flatMap_append, List.flatMap_singleton]
      have below_succ' : (indices (n + 1)).flatMap (belowAt t.machine.mem level table) =
          (indices n).flatMap (belowAt t.machine.mem level table) ++
            belowAt t.machine.mem level table i := by
        rw [indices_succ, List.flatMap_append, List.flatMap_singleton]
      -- what the body leaves, from the state before the entry is freed
      have closes : ∀ t₂ : Teardown,
          t₂.calls = t₁.calls ++ (entryFrame (t.machine.mem table i)).elim [] (callsOf t.machine.mem level) →
          t₂.machine.mem table = t₁.machine.mem table →
          (∀ node, node ∉ belowAt t.machine.mem level table i →
            t₂.machine.mem node = t₁.machine.mem node) →
          Gone level table (n + 1) t ((t₂.mmPhyFreePage (tableOf (t₂.entry table i))).setEntry table i 0) := by
        intro t₂ calls same frame
        rcases freeEntry_tail t₂ table i with ⟨calls', here, elsewhere⟩
        refine ⟨?_, fun j less => ?_, fun j later => ?_, fun node other outside => ?_⟩
        · rw [calls', calls, gone.calls, same, entry, calls_succ, callsAt]
          simp only [List.append_assoc]
        · rw [here]
          split
          · rfl
          · rename_i apart
            rw [same]
            exact gone.absent j ((lt_succ_cases (by omega) less).resolve_right apart)
        · rw [here, if_neg, same]
          · exact gone.rest j (by omega)
          · rintro rfl
            omega
        · rw [below_succ', List.mem_append, not_or] at outside
          rw [elsewhere node other, frame node outside.2, gone.frame node other outside.1]
      change Gone level table (n + 1) t (freeEntry level table t₁ i)
      unfold freeEntry
      cases found : entryFrame (t.machine.mem table i) with
      | none =>
          have absent : isPresent (t₁.entry table i) = false := by
            rw [← entryFrame_eq_none_iff]
            exact (congrArg entryFrame entry).trans found
          rw [if_neg (by rw [absent]; exact Bool.false_ne_true)]
          apply closes t₁ _ rfl fun _ _ => rfl
          rw [found, Option.elim_none, List.append_nil]
      | some child =>
          have present : isPresent (t₁.entry table i) = true ∧ tableOf (t₁.entry table i) = child := by
            have here := (congrArg entryFrame entry).trans found
            unfold entryFrame at here
            split at here
            · rename_i present
              exact ⟨present, Option.some.inj here⟩
            · cases here
          rw [if_pos present.1, present.2]
          rcases indices_prefix (Nat.le_of_lt (Nat.lt_of_le_of_lt few (by decide : 511 < 512))) with
            ⟨rest, whole⟩
          rw [below_succ, whole, List.flatMap_append, below_succ', belowAt_present found] at nodup
          have parts := List.nodup_append.mp (List.nodup_append.mp (List.nodup_cons.mp nodup).2).1
          have outside : ∀ node ∈ child :: below t.machine.mem level child,
              node ≠ table ∧ node ∉ (indices n).flatMap (belowAt t.machine.mem level table) := by
            intro node member
            refine ⟨?_, fun earlier => parts.2.2 node earlier node member rfl⟩
            rintro rfl
            apply (List.nodup_cons.mp nodup).1
            exact List.mem_append_left _ (List.mem_append_right _ member)
          have same : ∀ node ∈ child :: below t.machine.mem level child,
              t₁.machine.mem node = t.machine.mem node :=
            fun node member => gone.frame node (outside node member).1 (outside node member).2
          have there : ∀ node ∈ below t.machine.mem level child,
              t₁.machine.mem node = t.machine.mem node :=
            fun node member => same node (List.mem_cons_of_mem _ member)
          have tables := below_congr (same child List.mem_cons_self) there
          have calls := callsOf_congr (same child List.mem_cons_self) there
          have done := torn t₁ child (by rw [tables]; exact parts.2.1)
          apply closes
          · rw [done.calls, calls, found, Option.elim_some]
          · apply done.frame
            rw [tables]
            exact fun member => (outside table member).1 rfl
          · intro node notBelow
            apply done.frame
            rw [tables, ← belowAt_present found]
            exact notBelow

/-- The loops from a level on. -/
theorem freeLevel_torn (level : Nat) (t : Teardown) (table : Word)
    (nodup : (table :: below t.machine.mem level table).Nodup) :
    Torn level table t (freeLevel level t table) := by
  induction level generalizing t table with
  | zero => exact freeLevel_zero t table
  | succ level ih =>
      have gone := freeEntries ih nodup (Nat.le_refl 511)
      rw [freeLevel_succ]
      refine ⟨?_, fun i other => gone.absent i (index_lt other), fun node outside => ?_⟩
      · rw [gone.calls, callsOf_succ]
      · rw [List.mem_cons, not_or] at outside
        apply gone.frame node outside.1
        intro member
        rcases List.mem_flatMap.mp member with ⟨i, _, here⟩
        exact outside.2 (below_of_belowAt here)

end Teardown

/-! ## Trees -/

/-- A well-formed tree: every table hangs from one entry, and none is the null page. -/
structure Tree (mem : Word → BitVec 9 → Word) (root : Word) : Prop where
  unique : ∀ ρ ρ' node, ρ.length < 4 → ρ'.length < 4 → walk entryFrame mem root ρ = some node →
    walk entryFrame mem root ρ' = some node → ρ = ρ'
  nonzero : ∀ ρ node, ρ.length < 4 → walk entryFrame mem root ρ = some node → node ≠ 0

/-- What hangs below an entry is reached through the entry. -/
theorem mem_belowAt (each : ∀ child, page ∈ below mem level child ↔
      ∃ ρ, ρ ≠ [] ∧ ρ.length ≤ level ∧ walk entryFrame mem child ρ = some page) :
    page ∈ belowAt mem level table i ↔
      ∃ ρ, ρ.length ≤ level ∧ walk entryFrame mem table (i :: ρ) = some page := by
  cases found : entryFrame (mem table i) with
  | none =>
      rw [belowAt_absent found]
      simp [walk_cons, found]
  | some child =>
      rw [belowAt_present found, List.mem_cons, each]
      simp only [walk_cons, found, Option.bind_some]
      constructor
      · rintro (rfl | ⟨ρ, _, short, reached⟩)
        · exact ⟨[], Nat.zero_le _, rfl⟩
        · exact ⟨ρ, short, reached⟩
      · rintro ⟨ρ, short, reached⟩
        cases ρ with
        | nil => exact .inl (Option.some.inj reached).symm
        | cons j ρ => exact .inr ⟨j :: ρ, List.cons_ne_nil _ _, short, reached⟩

/-- What hangs below a table is what short paths reach. -/
theorem mem_below : page ∈ below mem level table ↔
    ∃ ρ, ρ ≠ [] ∧ ρ.length ≤ level ∧ walk entryFrame mem table ρ = some page := by
  induction level generalizing table with
  | zero =>
      constructor
      · intro member
        cases member
      · rintro ⟨ρ, nonempty, short, _⟩
        exact absurd (List.eq_nil_of_length_eq_zero (Nat.le_zero.mp short)) nonempty
  | succ level ih =>
      rw [below_succ, List.mem_flatMap]
      constructor
      · rintro ⟨i, _, member⟩
        rcases (mem_belowAt fun child => ih).mp member with ⟨ρ, short, reached⟩
        exact ⟨i :: ρ, List.cons_ne_nil _ _, Nat.succ_le_succ short, reached⟩
      · rintro ⟨ρ, nonempty, short, reached⟩
        cases ρ with
        | nil => exact absurd rfl nonempty
        | cons i ρ =>
            refine ⟨i, (mem_indices (Nat.le_refl _)).mpr i.isLt, ?_⟩
            exact (mem_belowAt fun child => ih).mpr ⟨ρ, Nat.le_of_succ_le_succ short, reached⟩

/-- Where each node is reached by one path, the list of the tables has no duplicates. -/
theorem nodup_below (unique : ∀ ρ ρ' node, ρ.length ≤ level → ρ'.length ≤ level →
      walk entryFrame mem table ρ = some node → walk entryFrame mem table ρ' = some node → ρ = ρ') :
    (table :: below mem level table).Nodup := by
  induction level generalizing table with
  | zero => exact List.nodup_singleton _
  | succ level ih =>
      rw [List.nodup_cons]
      constructor
      · intro member
        rcases mem_below.mp member with ⟨ρ, nonempty, short, reached⟩
        exact nonempty (unique ρ [] table short (Nat.zero_le _) reached rfl)
      · rw [below_succ]
        apply List.nodup_flatMap.mpr
        constructor
        · intro i _
          cases found : entryFrame (mem table i) with
          | none =>
              rw [belowAt_absent found]
              exact List.nodup_nil
          | some child =>
              rw [belowAt_present found]
              apply ih
              intro ρ ρ' node short short' reached reached'
              have step : ∀ σ, walk entryFrame mem table (i :: σ) = walk entryFrame mem child σ :=
                fun σ => by rw [walk_cons, found, Option.bind_some]
              have same := unique (i :: ρ) (i :: ρ') node (Nat.succ_le_succ short)
                (Nat.succ_le_succ short') ((step ρ).trans reached) ((step ρ').trans reached')
              exact (List.cons.inj same).2
        · apply nodup_indices.imp
          intro i j apart
          apply List.disjoint_left.mpr
          intro node first second
          rcases (mem_belowAt fun child => mem_below).mp first with ⟨ρ, short, reached⟩
          rcases (mem_belowAt fun child => mem_below).mp second with ⟨ρ', short', reached'⟩
          have same := unique (i :: ρ) (j :: ρ') node (Nat.succ_le_succ short)
            (Nat.succ_le_succ short') reached reached'
          exact apart (List.cons.inj same).1

/-! ## What is freed -/

/-- The tables that hang from the entries 0 to 510 of a root. -/
def userTables (mem : Word → BitVec 9 → Word) (root : Word) : List Word :=
  (indices 511).flatMap (belowAt mem 2 root)

/-- The tables among them that the loops do not come to. -/
def skippedTables (mem : Word → BitVec 9 → Word) (root : Word) : List Word :=
  (indices 511).flatMap fun i => (entryFrame (mem root i)).elim [] (skipped mem 2)

/-- The tables below all entries but the last one are come to, or they are skipped. -/
theorem tornDown_perm (mem : Word → BitVec 9 → Word) (level : Nat) (table : Word)
    (each : ∀ child, (below mem level child).Perm (tornDown mem level child ++ skipped mem level child)) :
    ((indices 511).flatMap (belowAt mem level table)).Perm (tornDown mem (level + 1) table ++
      (indices 511).flatMap fun i => (entryFrame (mem table i)).elim [] (skipped mem level)) := by
  rw [tornDown]
  refine List.Perm.trans ?_ (List.flatMap_append_perm ..).symm
  apply List.Perm.flatMap_left
  intro i _
  cases found : entryFrame (mem table i) with
  | none =>
      rw [belowAt_absent found]
      exact List.Perm.refl _
  | some child =>
      rw [belowAt_present found]
      exact (each child).cons child

/-- A table is come to, or it is skipped. -/
theorem below_perm (mem : Word → BitVec 9 → Word) (level : Nat) (table : Word) :
    (below mem level table).Perm (tornDown mem level table ++ skipped mem level table) := by
  induction level generalizing table with
  | zero => exact List.Perm.refl _
  | succ level ih =>
      have last : indices 512 = indices 511 ++ [511] := indices_succ 511
      rw [below_succ, last, List.flatMap_append, List.flatMap_singleton, skipped, ← List.append_assoc]
      exact (tornDown_perm mem level table ih).append_right _

/-- The calls are for the tables that the loops come to, and for the strays. -/
theorem callsOf_perm (nonzero : (0 : Word) ∉ below mem level table) :
    ((callsOf mem level table).filter (· ≠ 0)).Perm
      (tornDown mem level table ++ strays mem level table) := by
  induction level generalizing table with
  | zero => exact List.Perm.refl _
  | succ level ih =>
      rw [callsOf_succ, List.filter_flatMap, tornDown, strays]
      refine List.Perm.trans ?_ (List.flatMap_append_perm ..).symm
      apply List.Perm.flatMap_left
      intro i _
      rw [callsAt, List.filter_append]
      cases found : entryFrame (mem table i) with
      | none => exact List.Perm.refl _
      | some child =>
          have frame : tableOf (mem table i) = child := by
            unfold entryFrame at found
            split at found
            · exact Option.some.inj found
            · cases found
          have notZero : (0 : Word) ∉ child :: below mem level child := by
            rw [← belowAt_present found]
            exact fun member => nonzero (below_of_belowAt member)
          rw [List.mem_cons, not_or] at notZero
          have single : [child].filter (· ≠ 0) = [child] := by
            simpa using fun zero : child = 0 => notZero.1 zero.symm
          rw [Option.elim_some, Option.elim_some, Option.elim_some, frame, single, List.cons_append]
          exact (List.perm_append_singleton ..).trans ((ih notZero.2).cons child)

namespace Teardown

/-- The allocator's state is what the calls made of it. -/
def Logged (phy : PhyAlloc) (t : Teardown) : Prop :=
  t.machine.phy = t.calls.foldl PhyAlloc.mmPhyFreePage phy

theorem Logged.forEntries {phy : PhyAlloc} {t : Teardown} {body : Teardown → BitVec 9 → Teardown}
    (logged : Logged phy t) (keeps : ∀ t i, Logged phy t → Logged phy (body t i)) (n : Nat) :
    Logged phy (forEntries body t n) := by
  induction n with
  | zero => exact logged
  | succ n ih => exact keeps _ _ ih

theorem Logged.freeLevel {phy : PhyAlloc} {t : Teardown} (logged : Logged phy t) (level : Nat)
    (table : Word) : Logged phy (freeLevel level t table) := by
  induction level generalizing t table with
  | zero =>
      rw [Teardown.freeLevel]
      apply logged.forEntries
      intro t i logged
      unfold clearEntry
      split
      · exact logged
      · exact logged
  | succ level ih =>
      rw [freeLevel_succ]
      apply logged.forEntries
      intro t i logged
      have freed : ∀ {t : Teardown} (page : Word), Logged phy t →
          Logged phy ((t.mmPhyFreePage page).setEntry table i 0) := by
        intro t page logged
        unfold Logged setEntry mmPhyFreePage
        rw [List.foldl_append, ← logged]
        rfl
      unfold freeEntry
      split
      · exact freed _ (ih logged _)
      · exact freed _ logged

end Teardown

/-- The tables that hang from the entries 0 to 510 are freed, each once, and nothing else is. -/
structure FreesExactly (m : Machine) (root : Word) (t : Teardown) : Prop where
  freed : t.machine.phy = t.calls.foldl PhyAlloc.mmPhyFreePage m.phy
  once : (t.calls.filter (· ≠ 0)).Nodup
  tables : ∀ page, page ≠ 0 → (page ∈ t.calls ↔
    ∃ i ρ, i ≠ 511 ∧ ρ.length ≤ 2 ∧ walk entryFrame m.mem root (i :: ρ) = some page)
  kernel : ∀ ρ page, ρ.length ≤ 2 → walk entryFrame m.mem root (511 :: ρ) = some page →
    page ∉ t.calls
  data : ∀ ρ page, ρ.length = 4 → walk entryFrame m.mem root ρ = some page → page ≠ 0 →
    (∀ ρ', ρ'.length < 4 → walk entryFrame m.mem root ρ' ≠ some page) → page ∉ t.calls
  absent : ∀ i, i ≠ 511 → entryFrame (t.machine.mem root i) = none

variable {m : Machine}

theorem Tree.nodup (tree : Tree mem root) : (root :: below mem 3 root).Nodup :=
  nodup_below fun ρ ρ' node short short' =>
    tree.unique ρ ρ' node (Nat.lt_succ_of_le short) (Nat.lt_succ_of_le short')

theorem mem_userTables : page ∈ userTables mem root ↔
    ∃ i ρ, i ≠ 511 ∧ ρ.length ≤ 2 ∧ walk entryFrame mem root (i :: ρ) = some page := by
  have user : ∀ i, i ∈ indices 511 ↔ i ≠ (511 : BitVec 9) := by
    intro i
    rw [mem_indices (by decide)]
    refine ⟨?_, Teardown.index_lt⟩
    rintro below rfl
    exact absurd below (by decide)
  simp only [userTables, List.mem_flatMap, user, mem_belowAt fun child => mem_below]
  constructor
  · rintro ⟨i, other, ρ, short, reached⟩
    exact ⟨i, ρ, other, short, reached⟩
  · rintro ⟨i, ρ, other, short, reached⟩
    exact ⟨i, other, ρ, short, reached⟩

theorem Tree.nodup_userTables (tree : Tree mem root) : (userTables mem root).Nodup := by
  have last : indices 512 = indices 511 ++ [511] := indices_succ 511
  have nodup := (List.nodup_cons.mp tree.nodup).2
  rw [below_succ, last, List.flatMap_append] at nodup
  exact (List.nodup_append.mp nodup).1

/-- The pages that are freed are the tables if the strays are the skipped tables. -/
theorem Tree.perm_iff (tree : Tree mem root) :
    ((callsOf mem 3 root).filter (· ≠ 0)).Perm (userTables mem root) ↔
      (strays mem 3 root).Perm (skippedTables mem root) := by
  have nonzero : (0 : Word) ∉ below mem 3 root := by
    intro member
    rcases mem_below.mp member with ⟨ρ, _, short, reached⟩
    exact tree.nonzero ρ 0 (Nat.lt_succ_of_le short) reached rfl
  have calls := callsOf_perm nonzero
  have tables : (userTables mem root).Perm (tornDown mem 3 root ++ skippedTables mem root) :=
    tornDown_perm mem 2 root (below_perm mem 2)
  constructor
  · intro same
    exact (List.perm_append_left_iff _).mp ((calls.symm.trans same).trans tables)
  · intro same
    exact (calls.trans ((List.perm_append_left_iff _).mpr same)).trans tables.symm

/-- `free_page_tables` frees a well-formed tree exactly if the pages that absent entries name are the
tables that the loops skip. -/
theorem Machine.freePageTables_exactly_iff (tree : Tree m.mem root) :
    FreesExactly m root (m.freePageTables root) ↔
      (strays m.mem 3 root).Perm (skippedTables m.mem root) := by
  have torn : Teardown.Torn 3 root ⟨m, []⟩ (m.freePageTables root) :=
    Teardown.freeLevel_torn 3 ⟨m, []⟩ root tree.nodup
  have begun : Teardown.Logged m.phy ⟨m, []⟩ := rfl
  have logged : Teardown.Logged m.phy (m.freePageTables root) := begun.freeLevel 3 root
  have calls : (m.freePageTables root).calls = callsOf m.mem 3 root := by
    rw [torn.calls, List.nil_append]
  rw [← tree.perm_iff]
  constructor
  · intro exactly
    rw [← calls]
    apply (List.perm_ext_iff_of_nodup exactly.once tree.nodup_userTables).mpr
    intro page
    rw [List.mem_filter, mem_userTables]
    constructor
    · rintro ⟨called, nonzero⟩
      exact (exactly.tables page (by simpa using nonzero)).mp called
    · rintro ⟨i, ρ, user, short, reached⟩
      have nonzero := tree.nonzero (i :: ρ) page (Nat.succ_le_succ (Nat.succ_le_succ short)) reached
      exact ⟨(exactly.tables page nonzero).mpr ⟨i, ρ, user, short, reached⟩, by simpa using nonzero⟩
  · intro same
    have member : ∀ page, page ≠ 0 → (page ∈ (m.freePageTables root).calls ↔
        ∃ i ρ, i ≠ 511 ∧ ρ.length ≤ 2 ∧ walk entryFrame m.mem root (i :: ρ) = some page) := by
      intro page nonzero
      have passes : decide (page ≠ 0) = true := decide_eq_true nonzero
      rw [← mem_userTables, ← same.mem_iff, List.mem_filter, calls, passes]
      exact (and_iff_left rfl).symm
    refine ⟨logged, ?_, member, ?_, ?_, torn.absent⟩
    · rw [calls]
      exact same.nodup_iff.mpr tree.nodup_userTables
    · intro ρ page short reached called
      have nonzero := tree.nonzero (511 :: ρ) page (Nat.succ_le_succ (Nat.succ_le_succ short)) reached
      rcases (member page nonzero).mp called with ⟨i, ρ', user, short', reached'⟩
      have same := tree.unique (i :: ρ') (511 :: ρ) page (Nat.succ_le_succ (Nat.succ_le_succ short'))
        (Nat.succ_le_succ (Nat.succ_le_succ short)) reached' reached
      exact user (List.cons.inj same).1
    · intro ρ page _ _ nonzero notTable called
      rcases (member page nonzero).mp called with ⟨i, ρ', _, short', reached'⟩
      exact notTable (i :: ρ') (Nat.succ_le_succ (Nat.succ_le_succ short')) reached'

/-- Where absent entries are zero there are no strays. -/
theorem strays_eq_nil (zero : ∀ node i, entryFrame (mem node i) = none → mem node i = 0) (level : Nat)
    (table : Word) : strays mem level table = [] := by
  induction level generalizing table with
  | zero => rfl
  | succ level ih =>
      rw [strays, List.flatMap_eq_nil_iff]
      intro i _
      cases found : entryFrame (mem table i) with
      | none =>
          rw [zero table i found, Option.elim_none]
          decide
      | some child => exact ih child

/-- A root with one page directory pointer table, which has nothing but a last entry. -/
def oneTable (last : Word) : Machine where
  phy := { phyBitmap := fun _ => BitVec.allOnes 64, refcount := fun _ _ => 1, accesses := [] }
  mem node i := if node = 1 ∧ i = 0 then 0x2003 else if node = 2 ∧ i = 511 then last else 0
  cr3 := 0x1000
  kCr3 := 0x1000
  virtualTop := 0

theorem oneTable_tree {last : Word} (found : entryFrame last = none ∨ entryFrame last = some 3) :
    Tree (oneTable last).mem 1 := by
  have first : entryFrame ((oneTable last).mem 1 0) = some 2 := by
    change entryFrame (if _ then 0x2003 else _) = some 2
    rw [if_pos ⟨rfl, rfl⟩]
    decide
  have others : ∀ i, i ≠ 0 → entryFrame ((oneTable last).mem 1 i) = none := by
    intro i other
    change entryFrame (if _ then _ else if _ then _ else 0) = none
    rw [if_neg (fun here => other here.2), if_neg (fun here => absurd here.1 (by decide))]
    rfl
  have second : ∀ i node, entryFrame ((oneTable last).mem 2 i) = some node → i = 511 ∧ node = 3 := by
    intro i node reached
    change entryFrame (if _ then _ else if _ then last else 0) = some node at reached
    rw [if_neg (fun here => absurd here.1 (by decide))] at reached
    split at reached
    · rename_i here
      rcases found with none | three
      · rw [none] at reached
        cases reached
      · rw [three] at reached
        exact ⟨here.2, (Option.some.inj reached).symm⟩
    · cases reached
  have third : ∀ i, entryFrame ((oneTable last).mem 3 i) = none := by
    intro i
    change entryFrame (if _ then _ else if _ then _ else 0) = none
    rw [if_neg (fun here => absurd here.1 (by decide)), if_neg (fun here => absurd here.1 (by decide))]
    rfl
  have nodes : ∀ ρ node, walk entryFrame (oneTable last).mem 1 ρ = some node →
      ρ = [] ∧ node = 1 ∨ ρ = [0] ∧ node = 2 ∨ ρ = [0, 511] ∧ node = 3 := by
    intro ρ node reached
    rcases ρ with _ | ⟨i, ρ⟩
    · exact .inl ⟨rfl, (Option.some.inj reached).symm⟩
    · right
      have user : i = 0 := by
        by_contra other
        rw [walk_cons, others i other] at reached
        cases reached
      subst user
      rw [walk_cons, first, Option.bind_some] at reached
      rcases ρ with _ | ⟨j, ρ⟩
      · exact .inl ⟨rfl, (Option.some.inj reached).symm⟩
      · right
        rw [walk_cons] at reached
        rcases Option.bind_eq_some_iff.mp reached with ⟨child, step, rest⟩
        rcases second j child step with ⟨rfl, rfl⟩
        rcases ρ with _ | ⟨k, ρ⟩
        · exact ⟨rfl, (Option.some.inj rest).symm⟩
        · rw [walk_cons, third] at rest
          cases rest
  constructor
  · intro ρ ρ' node _ _ reached reached'
    rcases nodes ρ node reached with ⟨rfl, rfl⟩ | ⟨rfl, rfl⟩ | ⟨rfl, rfl⟩ <;>
      rcases nodes ρ' _ reached' with ⟨rfl, same⟩ | ⟨rfl, same⟩ | ⟨rfl, same⟩ <;>
      first | rfl | exact absurd same (by decide)
  · intro ρ node _ reached
    rcases nodes ρ node reached with ⟨_, rfl⟩ | ⟨_, rfl⟩ | ⟨_, rfl⟩ <;> decide

/-- A table that hangs from the last index of another one is not freed. -/
theorem lastEntry_not_freed : Tree (oneTable 0x3003).mem 1 ∧
    ¬FreesExactly (oneTable 0x3003) 1 ((oneTable 0x3003).freePageTables 1) := by
  have tree := @oneTable_tree 0x3003 (.inr (by decide))
  refine ⟨tree, fun exactly => ?_⟩
  have torn : Teardown.Torn 3 1 ⟨oneTable 0x3003, []⟩ ((oneTable 0x3003).freePageTables 1) :=
    Teardown.freeLevel_torn 3 ⟨oneTable 0x3003, []⟩ 1 tree.nodup
  have reached : walk entryFrame (oneTable 0x3003).mem 1 [0, 511] = some 3 := by decide
  have called := (exactly.tables 3 (by decide)).mpr ⟨0, [511], by decide, by decide, reached⟩
  rw [torn.calls, List.nil_append] at called
  have missing : (3 : Word) ∉ callsOf (oneTable 0x3003).mem 3 1 := by decide +kernel
  exact missing called

/-- Without it the tree is freed. -/
theorem oneTable_freed : FreesExactly (oneTable 0) 1 ((oneTable 0).freePageTables 1) := by
  apply (Machine.freePageTables_exactly_iff (oneTable_tree (.inl rfl))).mpr
  have zero : ∀ node i, entryFrame ((oneTable 0).mem node i) = none → (oneTable 0).mem node i = 0 := by
    intro node i absent
    change (if _ then _ else if _ then 0 else 0) = (0 : Word)
    change entryFrame (if _ then _ else if _ then 0 else 0) = none at absent
    split at absent
    · cases absent
    · rename_i other
      rw [if_neg other, ite_self]
  rw [strays_eq_nil zero]
  have none : skippedTables (oneTable 0).mem 1 = [] := by decide +kernel
  rw [none]

end Sbrocks.Mmu
