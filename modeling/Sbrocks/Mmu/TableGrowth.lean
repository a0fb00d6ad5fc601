import Sbrocks.Mmu.Translation

/-!
# Growing the tables

`Tables` says that the trees below a set of roots form a forest of tables in
use.  `Grown` is what allocating frames and linking tables do to the memory
state: they keep the translations of every root.  `Mapped` is what one
mapping does: it changes the translation of one page, under the loaded root or,
below a shared index, under all of them.
-/

namespace Sbrocks.Mmu

open Sbrocks.Radix

namespace PhyAlloc

/-- The frames that the next `n` allocations return. -/
def handedOut (phy : PhyAlloc) : Nat → List Word
  | 0 => []
  | n + 1 =>
      match phy.mmPhyAllocPage with
      | (after, some page) => page :: after.handedOut n
      | (_, none) => []

/-- A frame the allocator may still return: its bit is clear, and the scan
reaches it. -/
structure Available (phy : PhyAlloc) (page : Word) : Prop where
  lower : LowerHalf page
  below : page.toNat < bitmapGroups * pagesPerGroup
  free : phy.inUse page = false

theorem Available.mono {before after : PhyAlloc} {page : Word}
    (used : ∀ other, before.inUse other = true → after.inUse other = true)
    (available : Available after page) : Available before page := by
  refine ⟨available.lower, available.below, ?_⟩
  by_contra inUse
  have stillUsed := used page (by simpa using inUse)
  rw [available.free] at stillUsed
  contradiction

theorem Allocated.available {before after : PhyAlloc} {page : Word}
    (allocated : Allocated before after page) : Available before page :=
  ⟨allocated.lower, allocated.below, allocated.wasFree⟩

theorem available_of_mem_handedOut {phy : PhyAlloc} {n : Nat} {page : Word}
    (member : page ∈ phy.handedOut n) : Available phy page := by
  induction n generalizing phy with
  | zero => exact absurd member List.not_mem_nil
  | succ n ih =>
      unfold handedOut at member
      split at member
      · rename_i after first found
        have allocated := mmPhyAllocPage_eq_some found
        rcases List.mem_cons.mp member with rfl | later
        · exact allocated.available
        · exact (ih later).mono allocated.keeps
      · exact absurd member List.not_mem_nil

end PhyAlloc

/-- The trees below the roots form a forest, and every table is a frame in
use. -/
structure Tables (m : Machine) (roots : Word → Prop) (shared : BitVec 9 → Prop) : Prop where
  forest : Forest entryFrame m.mem roots shared 4
  inUse : ∀ {table : Word}, IsTable entryFrame m.mem roots 4 table → m.phy.inUse table = true

namespace Machine

variable {m m' m'' : Machine} {roots : Word → Prop} {shared : BitVec 9 → Prop}

/-- The number of tables that the descent along a path has to create. -/
def missingTables (m : Machine) (table : Word) : List (BitVec 9) → Nat
  | [] => 0
  | offset :: path =>
      match entryFrame (m.mem table offset) with
      | some child => m.missingTables child path
      | none => path.length + 1

/-- The next `n` frames hold no present entry. -/
def CleanNext (m : Machine) (n : Nat) : Prop :=
  ∀ page ∈ m.phy.handedOut n, ∀ offset, entryFrame (m.mem page offset) = none

theorem mmPhyAllocPage_eq_some {page : Word} (found : m.mmPhyAllocPage = some (m', page)) :
    ∃ phy, m.phy.mmPhyAllocPage = (phy, some page) ∧ m' = { m with phy := phy } := by
  unfold mmPhyAllocPage at found
  split at found
  · rename_i phy other scan
    obtain ⟨rfl, rfl⟩ := Prod.mk.inj (Option.some.inj found)
    exact ⟨phy, scan, rfl⟩
  · contradiction

/-- What allocating frames and linking tables along a path below `r` do. -/
structure Grown (roots : Word → Prop) (shared : BitVec 9 → Prop) (r : Word)
    (spine : List (BitVec 9)) (m m' : Machine) : Prop where
  tables : Tables m' roots shared
  walks : ∀ {r : Word} {ρ : List (BitVec 9)}, roots r → ρ.length = 4 →
    walk entryFrame m'.mem r ρ = walk entryFrame m.mem r ρ
  kept : ∀ {r table : Word} {ρ : List (BitVec 9)}, roots r → ρ.length < 4 →
    walk entryFrame m.mem r ρ = some table → walk entryFrame m'.mem r ρ = some table
  short : ∀ {other table : Word} {ρ : List (BitVec 9)}, roots other → ρ.length < 4 →
    walk entryFrame m'.mem other ρ = some table →
    walk entryFrame m.mem other ρ = some table ∨
      (ρ <+: spine ∧ (other = r ∨ SharedPath shared ρ))
  fresh : ∀ {table : Word}, IsTable entryFrame m'.mem roots 4 table →
    IsTable entryFrame m.mem roots 4 table ∨ m.phy.Available table
  data : ∀ {frame : Word}, ¬ IsTable entryFrame m'.mem roots 4 frame → m'.mem frame = m.mem frame
  used : ∀ frame, m.phy.inUse frame = true → m'.phy.inUse frame = true
  cr3 : m'.cr3 = m.cr3
  kCr3 : m'.kCr3 = m.kCr3
  virtualTop : m'.virtualTop = m.virtualTop

variable {r : Word} {spine : List (BitVec 9)}

theorem Grown.refl (tables : Tables m roots shared) : Grown roots shared r spine m m :=
  ⟨tables, fun _ _ => rfl, fun _ _ found => found, fun _ _ => .inl, .inl, fun _ => rfl,
    fun _ => id, rfl, rfl, rfl⟩

theorem Grown.isTable (grown : Grown roots shared r spine m m') {table : Word}
    (isTable : IsTable entryFrame m.mem roots 4 table) : IsTable entryFrame m'.mem roots 4 table := by
  rcases isTable with ⟨r, ρ, isRoot, bound, found⟩
  exact ⟨r, ρ, isRoot, bound, grown.kept isRoot bound found⟩

theorem Grown.trans (first : Grown roots shared r spine m m')
    (second : Grown roots shared r spine m' m'') : Grown roots shared r spine m m'' where
  tables := second.tables
  walks isRoot full := (second.walks isRoot full).trans (first.walks isRoot full)
  kept isRoot bound found := second.kept isRoot bound (first.kept isRoot bound found)
  short isRoot bound found := by
    rcases second.short isRoot bound found with older | new
    · exact first.short isRoot bound older
    · exact .inr new
  fresh isTable := by
    rcases second.fresh isTable with older | available
    · exact first.fresh older
    · exact .inr (available.mono first.used)
  data notTable := by
    rw [second.data notTable, first.data fun older => notTable (second.isTable older)]
  used frame inUse := second.used frame (first.used frame inUse)
  cr3 := second.cr3.trans first.cr3
  kCr3 := second.kCr3.trans first.kCr3
  virtualTop := second.virtualTop.trans first.virtualTop

/-- A frame that is available holds no table. -/
theorem not_isTable_of_available (tables : Tables m roots shared) {page : Word}
    (available : m.phy.Available page) : ¬ IsTable entryFrame m.mem roots 4 page := by
  intro isTable
  have inUse := tables.inUse isTable
  rw [available.free] at inUse
  contradiction

theorem Grown.alloc (tables : Tables m roots shared) {page : Word}
    (found : m.mmPhyAllocPage = some (m', page)) :
    Grown roots shared r spine m m' ∧ m.phy.Available page ∧ m'.phy.inUse page = true ∧
      m'.mem = m.mem := by
  obtain ⟨phy, scan, rfl⟩ := mmPhyAllocPage_eq_some found
  have allocated := PhyAlloc.mmPhyAllocPage_eq_some scan
  refine ⟨⟨⟨tables.forest, fun isTable => allocated.keeps _ (tables.inUse isTable)⟩,
    fun _ _ => rfl, fun _ _ older => older, fun _ _ => .inl, .inl, fun _ => rfl, allocated.keeps,
    rfl, rfl, rfl⟩,
    allocated.available, allocated.isUsed, rfl⟩

theorem cleanNext_zero : m.CleanNext 0 :=
  fun _ member => absurd member List.not_mem_nil

theorem CleanNext.mono {n k : Nat} (clean : m.CleanNext n) (fewer : k ≤ n) : m.CleanNext k := by
  have subset : ∀ (n k : Nat) (phy : PhyAlloc), k ≤ n → ∀ page ∈ phy.handedOut k,
      page ∈ phy.handedOut n := by
    intro n
    induction n with
    | zero =>
        intro k phy none page member
        rwa [Nat.le_zero.mp none] at member
    | succ n ih =>
        intro k phy bound page member
        cases k with
        | zero => exact absurd member List.not_mem_nil
        | succ k =>
            unfold PhyAlloc.handedOut at member ⊢
            split at member
            · rename_i after first found
              rcases List.mem_cons.mp member with rfl | later
              · exact List.mem_cons_self
              · exact List.mem_cons_of_mem _ (ih k after (Nat.le_of_succ_le_succ bound) page later)
            · exact absurd member List.not_mem_nil
  exact fun page member => clean page (subset n k m.phy fewer page member)

/-- The frame just allocated was the first of the next ones. -/
theorem CleanNext.head {n : Nat} {page : Word} (clean : m.CleanNext (n + 1))
    (found : m.mmPhyAllocPage = some (m', page)) (offset : BitVec 9) :
    entryFrame (m.mem page offset) = none := by
  obtain ⟨phy, scan, rfl⟩ := mmPhyAllocPage_eq_some found
  apply clean page
  rw [PhyAlloc.handedOut, scan]
  exact List.mem_cons_self

theorem CleanNext.tail {n : Nat} {page : Word} (clean : m.CleanNext (n + 1))
    (found : m.mmPhyAllocPage = some (m', page)) : m'.CleanNext n := by
  obtain ⟨phy, scan, rfl⟩ := mmPhyAllocPage_eq_some found
  intro other member
  apply clean other
  rw [PhyAlloc.handedOut, scan]
  exact List.mem_cons_of_mem _ member

/-- Cleanliness only looks at frames that are not in use. -/
theorem CleanNext.congr {n : Nat} (clean : m.CleanNext n) (phy : m'.phy = m.phy)
    (mem : ∀ page, m.phy.inUse page = false → ∀ offset,
      entryFrame (m'.mem page offset) = entryFrame (m.mem page offset)) : m'.CleanNext n := by
  intro page member offset
  rw [phy] at member
  rw [mem page (PhyAlloc.available_of_mem_handedOut member).free]
  exact clean page member offset

theorem missingTables_congr (same : ∀ table offset,
    entryFrame (m'.mem table offset) = entryFrame (m.mem table offset)) (table : Word)
    (ρ : List (BitVec 9)) : m'.missingTables table ρ = m.missingTables table ρ := by
  induction ρ generalizing table with
  | nil => rfl
  | cons offset ρ ih =>
      unfold missingTables
      rw [same]
      cases entryFrame (m.mem table offset) with
      | none => rfl
      | some child => exact ih child

/-- Below an empty table everything is missing. -/
theorem missingTables_of_clean {table : Word}
    (clean : ∀ offset, entryFrame (m.mem table offset) = none) (ρ : List (BitVec 9)) :
    m.missingTables table ρ = ρ.length := by
  cases ρ with
  | nil => rfl
  | cons offset ρ =>
      unfold missingTables
      rw [clean]
      rfl

/-! ## One level -/

/-- Rewriting an entry so that it points at the same table changes nothing that
a walk can see. -/
private theorem grown_setEntry_of_same (tables : Tables m roots shared) {table : Word}
    (isTable : IsTable entryFrame m.mem roots 4 table) {offset : BitVec 9} {entry : Word}
    (same : entryFrame entry = entryFrame (m.mem table offset)) :
    Grown roots shared r spine m (m.setEntry table offset entry) := by
  have agree : ∀ node i, entryFrame ((m.setEntry table offset entry).mem node i) =
      entryFrame (m.mem node i) := by
    intro node i
    rw [setEntry_mem, put_apply]
    split
    · rename_i here
      rw [here.1, here.2, same]
    · rfl
  have walks : ∀ r ρ, walk entryFrame (m.setEntry table offset entry).mem r ρ =
      walk entryFrame m.mem r ρ := fun r ρ => walk_congr agree r ρ
  have isTable_iff : ∀ node, IsTable entryFrame (m.setEntry table offset entry).mem roots 4 node →
      IsTable entryFrame m.mem roots 4 node := by
    rintro node ⟨r, ρ, isRoot, bound, found⟩
    exact ⟨r, ρ, isRoot, bound, (walks r ρ).symm.trans found⟩
  refine ⟨⟨tables.forest.of_agree (by decide) fun node i _ => agree node i,
    fun isTable' => tables.inUse (isTable_iff _ isTable')⟩, fun _ _ => walks _ _, ?_,
    fun _ _ found => .inl ((walks _ _).symm.trans found),
    fun isTable' => .inl (isTable_iff _ isTable'), ?_, fun _ => id, rfl, rfl, rfl⟩
  · intro r node ρ _ _ found
    exact (walks r ρ).trans found
  · intro frame notTable
    have different : frame ≠ table := by
      rintro rfl
      obtain ⟨r, ρ, isRoot, bound, found⟩ := isTable
      exact notTable ⟨r, ρ, isRoot, bound, (walks r ρ).trans found⟩
    funext i
    exact put_of_node_ne entry different i

/-- Linking a frame just allocated, if it holds no present entry. -/
private theorem grown_setEntry_of_fresh (tables : Tables m roots shared) {table page : Word}
    {ρ : List (BitVec 9)} {offset : BitVec 9} {entry : Word} (isRoot : roots r)
    (inner : ρ.length < 3) (reached : walk entryFrame m.mem r ρ = some table)
    (empty : entryFrame (m.mem table offset) = none) (own : ρ = [] → ¬ shared offset)
    (found : m.mmPhyAllocPage = some (m', page))
    (clean : ∀ i, entryFrame (m.mem page i) = none) (points : entryFrame entry = some page)
    (onSpine : ρ ++ [offset] <+: spine) :
    Grown roots shared r spine m (m'.setEntry table offset entry) := by
  have alloc : Grown roots shared r spine m m' ∧ _ := Grown.alloc tables found
  obtain ⟨grown, available, inUse, mem⟩ := alloc
  have isFresh := not_isTable_of_available tables available
  have inner' : ρ.length + 1 < 4 := by omega
  have store : (m'.setEntry table offset entry).mem = put m.mem table offset entry := by
    rw [setEntry_mem, mem]
  have forest := tables.forest
  have walks : ∀ {other : Word} {σ : List (BitVec 9)}, roots other → σ.length ≤ 4 →
      walk entryFrame (m'.setEntry table offset entry).mem other σ =
        if σ = ρ ++ [offset] ∧ walk entryFrame m.mem other ρ = some table then some page
        else walk entryFrame m.mem other σ := by
    intro other σ otherRoot bound
    rw [store]
    exact forest.walk_put_link isRoot inner' reached empty points isFresh clean otherRoot bound
  have isTable_or : ∀ {node : Word},
      IsTable entryFrame (m'.setEntry table offset entry).mem roots 4 node →
      node = page ∨ IsTable entryFrame m.mem roots 4 node := by
    intro node isTable
    rw [store] at isTable
    exact forest.isTable_put_link isRoot inner' reached empty points isFresh clean isTable
  constructor
  · constructor
    · rw [store]
      exact forest.put_link isRoot inner' reached empty points isFresh clean own
    · intro node isTable
      rcases isTable_or isTable with rfl | older
      · exact inUse
      · exact grown.used _ (tables.inUse older)
  · intro other σ otherRoot full
    rw [walks otherRoot (Nat.le_of_eq full), if_neg]
    rintro ⟨rfl, _⟩
    simp only [List.length_append, List.length_cons, List.length_nil] at full
    omega
  · intro other node σ otherRoot bound older
    rw [walks otherRoot (Nat.le_of_lt bound), if_neg]
    · exact older
    · rintro ⟨rfl, above⟩
      rw [walk_concat above, empty] at older
      contradiction
  · intro other node σ otherRoot bound later
    rw [walks otherRoot (Nat.le_of_lt bound)] at later
    split at later
    · rename_i new
      refine .inr ⟨new.1 ▸ onSpine, ?_⟩
      rcases (forest.unique otherRoot isRoot (by omega) (by omega) new.2 reached).2 with same | held
      · exact .inl same
      · exact .inr (new.1 ▸ held.append [offset])
    · exact .inl later
  · intro node isTable
    rcases isTable_or isTable with rfl | older
    · exact .inr available
    · exact .inl older
  · intro frame notTable
    have different : frame ≠ table := by
      rintro rfl
      apply notTable
      refine ⟨r, ρ, isRoot, by omega, ?_⟩
      rw [walks isRoot (by omega), if_neg]
      · exact reached
      · rintro ⟨impossible, _⟩
        exact absurd impossible.symm (by simp)
    rw [store]
    funext i
    exact put_of_node_ne entry different i
  · exact grown.used
  · exact grown.cr3
  · exact grown.kCr3
  · exact grown.virtualTop

theorem entryFrame_mmPageToPhy_or {flags page : Word} (flagBits : FlagBits flags)
    (small : page.toNat < 2 ^ 52) : entryFrame (mmPageToPhy page ||| flags) = some page := by
  rw [entryFrame_or flagBits, mmPhyToPage_mmPageToPhy small]

theorem PhyAlloc.Available.small {phy : PhyAlloc} {page : Word} (available : phy.Available page) :
    page.toNat < 2 ^ 52 :=
  Nat.lt_of_lt_of_le available.below (by decide)

/-- Where the entry is absent, a frame is allocated and linked. -/
theorem tableAt_of_absent {table next : Word} {offset : BitVec 9} {flags : Word} {refresh : Bool}
    (absent : isPresent (m.mem table offset) = false)
    (result : m.tableAt table offset flags refresh = some (m', next)) :
    ∃ allocated page, m.mmPhyAllocPage = some (allocated, page) ∧
      m' = allocated.setEntry table offset (mmPageToPhy page ||| flags) ∧
      next = tableOf (mmPageToPhy page ||| flags) := by
  unfold tableAt at result
  rw [absent] at result
  simp only [Bool.not_false, if_true, Option.bind_eq_bind] at result
  obtain ⟨⟨allocated, page⟩, found, linked⟩ := Option.bind_eq_some_iff.mp result
  obtain ⟨rfl, rfl⟩ := Prod.mk.inj (Option.some.inj linked)
  exact ⟨allocated, page, found, rfl, by simp⟩

/-- Where the entry is present, at most its flags are rewritten. -/
theorem tableAt_of_present {table next : Word} {offset : BitVec 9} {flags : Word} {refresh : Bool}
    (flagBits : FlagBits flags) (present : isPresent (m.mem table offset) = true)
    (result : m.tableAt table offset flags refresh = some (m', next)) :
    next = tableOf (m.mem table offset) ∧
      ∃ entry, entryFrame entry = entryFrame (m.mem table offset) ∧
        m' = if refresh then m.setEntry table offset entry else m := by
  unfold tableAt at result
  rw [present] at result
  simp only [Bool.not_true, Bool.false_eq_true, if_false] at result
  obtain ⟨rfl, rfl⟩ := Prod.mk.inj (Option.some.inj result)
  refine ⟨?_, alignDown (m.mem table offset) ||| flags, ?_, rfl⟩
  · cases refresh with
    | false => rfl
    | true => rw [if_pos rfl, setEntry_mem, put_self, tableOf_or flagBits.low, tableOf_alignDown]
  · rw [entryFrame_or flagBits, ← tableOf_eq_mmPhyToPage, tableOf_alignDown, entryFrame, present,
      if_pos rfl]

/-- The specification of one level of the descent: the state has grown, the next
table is reached, and what is missing below it is clean as well. -/
theorem tableAt_grown (tables : Tables m roots shared) {flags : Word} (flagBits : FlagBits flags)
    {table next : Word} {ρ rest : List (BitVec 9)} {offset : BitVec 9} {refresh : Bool}
    (isRoot : roots r) (inner : ρ.length < 3) (reached : walk entryFrame m.mem r ρ = some table)
    (own : ρ = [] → shared offset → entryFrame (m.mem table offset) ≠ none)
    (clean : m.CleanNext (m.missingTables table (offset :: rest)))
    (onSpine : ρ ++ [offset] <+: spine)
    (result : m.tableAt table offset flags refresh = some (m', next)) :
    Grown roots shared r spine m m' ∧ walk entryFrame m'.mem r (ρ ++ [offset]) = some next ∧
      m'.CleanNext (m'.missingTables next rest) := by
  have isTable : IsTable entryFrame m.mem roots 4 table := ⟨r, ρ, isRoot, by omega, reached⟩
  cases present : isPresent (m.mem table offset) with
  | false =>
      have empty : entryFrame (m.mem table offset) = none :=
        (entryFrame_eq_none_iff _).mpr present
      obtain ⟨allocated, page, found, rfl, rfl⟩ := tableAt_of_absent present result
      have alloc : Grown roots shared r spine m allocated ∧ _ := Grown.alloc tables found
      obtain ⟨older, available, -, mem⟩ := alloc
      have missing : m.missingTables table (offset :: rest) = rest.length + 1 := by
        rw [missingTables, empty]
      rw [missing] at clean
      have points : entryFrame (mmPageToPhy page ||| flags) = some page :=
        entryFrame_mmPageToPhy_or flagBits (PhyAlloc.Available.small available)
      have grown := grown_setEntry_of_fresh tables isRoot inner reached empty
        (fun atRoot held => own atRoot held empty) found (clean.head found) points
        onSpine
      have nextTable : tableOf (mmPageToPhy page ||| flags) = page := by
        rw [entryFrame, isPresent_or flagBits.present, if_pos rfl] at points
        exact Option.some.inj points
      have notFresh : page ≠ table := by
        rintro rfl
        exact not_isTable_of_available tables available isTable
      rw [nextTable]
      refine ⟨grown, ?_, ?_⟩
      · rw [walk_concat (grown.kept isRoot (by omega) reached), setEntry_mem, put_self]
        exact points
      · rw [missingTables_of_clean]
        · apply (clean.tail found).congr (setEntry_phy _ _ _ _)
          intro other free i
          have different : other ≠ table := by
            rintro rfl
            rw [older.used _ (tables.inUse isTable)] at free
            contradiction
          rw [setEntry_mem, put_of_node_ne _ different]
        · intro i
          rw [setEntry_mem, put_of_node_ne _ notFresh, mem]
          exact clean.head found i
  | true =>
      have points : entryFrame (m.mem table offset) = some (tableOf (m.mem table offset)) := by
        rw [entryFrame, present, if_pos rfl]
      have missing : m.missingTables table (offset :: rest) =
          m.missingTables (tableOf (m.mem table offset)) rest := by
        rw [missingTables, points]
      rw [missing] at clean
      obtain ⟨rfl, entry, same, rfl⟩ := tableAt_of_present flagBits present result
      cases refresh with
      | false => exact ⟨Grown.refl tables, (walk_concat reached offset).trans points, clean⟩
      | true =>
          have grown : Grown roots shared r spine m _ := grown_setEntry_of_same tables isTable same
          have agree : ∀ node i, entryFrame ((m.setEntry table offset entry).mem node i) =
              entryFrame (m.mem node i) := by
            intro node i
            rw [setEntry_mem, put_apply]
            split
            · rename_i here
              rw [here.1, here.2, same]
            · rfl
          refine ⟨grown, ?_, ?_⟩
          · exact (walk_congr agree r _).trans ((walk_concat reached offset).trans points)
          · have count := missingTables_congr agree (tableOf (m.mem table offset)) rest
            rw [← count] at clean
            exact clean.congr (setEntry_phy _ _ _ _) fun page _ i => agree page i

/-! ## One mapping -/

/-- What mapping one page does. -/
structure Mapped (roots : Word → Prop) (shared : BitVec 9 → Prop) (r virt frame : Word)
    (m m' : Machine) : Prop where
  tables : Tables m' roots shared
  hit : ∀ {other : Word}, roots other → other = r ∨ shared (pml4eOffset virt) →
    walk entryFrame m'.mem other (path virt) = some frame
  walks : ∀ {other : Word} {ρ : List (BitVec 9)}, roots other → ρ.length = 4 →
    ¬ (ρ = path virt ∧ (other = r ∨ shared (pml4eOffset virt))) →
    walk entryFrame m'.mem other ρ = walk entryFrame m.mem other ρ
  kept : ∀ {other table : Word} {ρ : List (BitVec 9)}, roots other → ρ.length < 4 →
    walk entryFrame m.mem other ρ = some table → walk entryFrame m'.mem other ρ = some table
  short : ∀ {other table : Word} {ρ : List (BitVec 9)}, roots other → ρ.length < 4 →
    walk entryFrame m'.mem other ρ = some table →
    walk entryFrame m.mem other ρ = some table ∨
      (ρ <+: tablePath virt ∧ (other = r ∨ SharedPath shared ρ))
  fresh : ∀ {table : Word}, IsTable entryFrame m'.mem roots 4 table →
    IsTable entryFrame m.mem roots 4 table ∨ m.phy.Available table
  data : ∀ {frame : Word}, ¬ IsTable entryFrame m'.mem roots 4 frame → m'.mem frame = m.mem frame
  used : ∀ frame, m.phy.inUse frame = true → m'.phy.inUse frame = true
  cr3 : m'.cr3 = m.cr3
  kCr3 : m'.kCr3 = m.kCr3
  virtualTop : m'.virtualTop = m.virtualTop

/-- The last store of a mapping, once the descent has grown the tables. -/
private theorem Grown.mapped {table virt frame entry : Word}
    (grown : Grown roots shared r (tablePath virt) m m') (isRoot : roots r) (reached : walk entryFrame m'.mem r (tablePath virt) = some table)
    (points : entryFrame entry = some frame) :
    Mapped roots shared r virt frame m (m'.setEntry table (pteOffset virt) entry) := by
  have forest := grown.tables.forest
  have depth : (tablePath virt).length < 4 := Nat.lt_succ_self 3
  have above : ∀ {other : Word}, roots other →
      (walk entryFrame m'.mem other (tablePath virt) = some table ↔
        (other = r ∨ shared (pml4eOffset virt))) := by
    intro other otherRoot
    constructor
    · intro reachedOther
      exact (forest.unique otherRoot isRoot depth depth reachedOther reached).2
    · rintro (rfl | held)
      · exact reached
      · have same := forest.walk_eq_of_shared otherRoot isRoot
          (show SharedPath shared (tablePath virt) from held)
        exact same.trans reached
  have walks : ∀ {other : Word} {ρ : List (BitVec 9)}, roots other → ρ.length ≤ 4 →
      walk entryFrame (m'.setEntry table (pteOffset virt) entry).mem other ρ =
        if ρ = path virt ∧ walk entryFrame m'.mem other (tablePath virt) = some table
        then entryFrame entry else walk entryFrame m'.mem other ρ :=
    fun otherRoot bound => forest.walk_put_leaf isRoot rfl reached entry otherRoot bound
  have tableWalks : ∀ {other : Word} {ρ : List (BitVec 9)}, roots other → ρ.length < 4 →
      walk entryFrame (m'.setEntry table (pteOffset virt) entry).mem other ρ =
        walk entryFrame m'.mem other ρ := by
    intro other ρ otherRoot bound
    rw [walks otherRoot (Nat.le_of_lt bound), if_neg]
    rintro ⟨rfl, _⟩
    exact absurd bound (Nat.lt_irrefl 4)
  have isTable_iff : ∀ {node : Word},
      IsTable entryFrame (m'.setEntry table (pteOffset virt) entry).mem roots 4 node →
      IsTable entryFrame m'.mem roots 4 node := by
    rintro node ⟨other, ρ, otherRoot, bound, found⟩
    exact ⟨other, ρ, otherRoot, bound, (tableWalks otherRoot bound).symm.trans found⟩
  constructor
  · constructor
    · exact forest.put_leaf isRoot rfl (List.cons_ne_nil _ _) reached entry
    · intro node isTable
      exact grown.tables.inUse (isTable_iff isTable)
  · intro other otherRoot either
    rw [walks otherRoot (Nat.le_of_eq (path_length virt)), if_pos ⟨rfl, (above otherRoot).mpr either⟩, points]
  · intro other ρ otherRoot full elsewhere
    rw [walks otherRoot (Nat.le_of_eq full), if_neg]
    · exact grown.walks otherRoot full
    · rintro ⟨same, reachedOther⟩
      exact elsewhere ⟨same, (above otherRoot).mp reachedOther⟩
  · intro other node ρ otherRoot bound found
    exact (tableWalks otherRoot bound).trans (grown.kept otherRoot bound found)
  · intro other node ρ otherRoot bound found
    exact grown.short otherRoot bound ((tableWalks otherRoot bound).symm.trans found)
  · intro node isTable
    exact grown.fresh (isTable_iff isTable)
  · intro frame notTable
    have notTable' : ¬ IsTable entryFrame m'.mem roots 4 frame := by
      rintro ⟨other, ρ, otherRoot, bound, found⟩
      exact notTable ⟨other, ρ, otherRoot, bound, (tableWalks otherRoot bound).trans found⟩
    have different : frame ≠ table := by
      rintro rfl
      exact notTable' ⟨r, tablePath virt, isRoot, depth, reached⟩
    rw [← grown.data notTable']
    funext i
    exact put_of_node_ne entry different i
  · exact grown.used
  · exact grown.cr3
  · exact grown.kCr3
  · exact grown.virtualTop

/-- The two mapping functions: three levels of descent from a root, then the
store of the last entry. -/
private theorem descend_mapped (tables : Tables m roots shared) {flags : Word}
    (flagBits : FlagBits flags) {virt entry frame : Word} {refresh : Bool} (isRoot : roots r)
    (own : shared (pml4eOffset virt) → entryFrame (m.mem r (pml4eOffset virt)) ≠ none)
    (clean : m.CleanNext (m.missingTables r (tablePath virt)))
    (points : entryFrame entry = some frame)
    (result : (do
      let (m, pdpetable) ← m.tableAt r (pml4eOffset virt) flags false
      let (m, pdetable) ← m.tableAt pdpetable (pdpeOffset virt) flags refresh
      let (m, pttable) ← m.tableAt pdetable (pdeOffset virt) flags refresh
      some (m.setEntry pttable (pteOffset virt) entry)) = some m') :
    Mapped roots shared r virt frame m m' := by
  simp only [Option.bind_eq_bind] at result
  obtain ⟨⟨m₁, pdpetable⟩, first, rest₁⟩ := Option.bind_eq_some_iff.mp result
  obtain ⟨⟨m₂, pdetable⟩, second, rest₂⟩ := Option.bind_eq_some_iff.mp rest₁
  obtain ⟨⟨m₃, pttable⟩, third, last⟩ := Option.bind_eq_some_iff.mp rest₂
  obtain rfl := Option.some.inj last
  have spine : ∀ n, (tablePath virt).take n <+: tablePath virt := fun n => List.take_prefix n _
  obtain ⟨grown₁, reached₁, clean₁⟩ :=
    tableAt_grown tables flagBits isRoot (show ([] : List (BitVec 9)).length < 3 by simp)
      (show walk entryFrame m.mem r [] = some r from rfl) (fun _ => own) clean (spine 1) first
  obtain ⟨grown₂, reached₂, clean₂⟩ := tableAt_grown grown₁.tables flagBits isRoot (by simp)
    reached₁ (fun atRoot => absurd atRoot (by simp)) clean₁ (spine 2) second
  obtain ⟨grown₃, reached₃, _⟩ := tableAt_grown grown₂.tables flagBits isRoot (by simp)
    reached₂ (fun atRoot => absurd atRoot (by simp)) clean₂ (spine 3) third
  exact ((grown₁.trans grown₂).trans grown₃).mapped isRoot reached₃ points

/-- The specification of `map_virt_to_phy`. -/
theorem mapVirtToPhy_mapped (tables : Tables m roots shared) {virt phy flags : Word}
    (flagBits : FlagBits flags) (isRoot : roots m.root)
    (own : shared (pml4eOffset virt) → entryFrame (m.mem m.root (pml4eOffset virt)) ≠ none)
    (clean : m.CleanNext (m.missingTables m.root (tablePath virt)))
    (result : m.mapVirtToPhy virt phy flags = some m') :
    Mapped roots shared m.root virt (mmPhyToPage phy) m m' :=
  descend_mapped tables flagBits isRoot own clean (entryFrame_or flagBits phy) result

theorem flagBits_kernel : FlagBits (ptPresentFlag ||| ptWritableFlag) :=
  ⟨by decide, by decide⟩

theorem flagBits_user : FlagBits (ptPresentFlag ||| ptWritableFlag ||| ptUser) :=
  ⟨by decide, by decide⟩

/-- The specification of `kernmem_mapping`. -/
theorem kernmemMapping_mapped (tables : Tables m roots shared) {virt pbase pml4e : Word}
    (isRoot : roots (mmPhyToPage pml4e))
    (own : shared (pml4eOffset virt) →
      entryFrame (m.mem (mmPhyToPage pml4e) (pml4eOffset virt)) ≠ none)
    (clean : m.CleanNext (m.missingTables (mmPhyToPage pml4e) (tablePath virt)))
    (result : m.kernmemMapping virt pbase pml4e = some m') :
    Mapped roots shared (mmPhyToPage pml4e) virt (mmPhyToPage pbase) m m' :=
  descend_mapped tables flagBits_kernel isRoot own clean (entryFrame_or flagBits_kernel pbase) result

end Machine

end Sbrocks.Mmu
