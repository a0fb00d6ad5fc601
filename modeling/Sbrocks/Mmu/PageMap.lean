import Sbrocks.Mmu.TableGrowth

/-!
# The page tables as a map

Under one well-formed root, mapping a page sets the translation of that page and
of no other, provided that the frames taken for new tables hold no present
entry: the mapping functions link such frames as they are.  When a table is
missing, some content of the available frames does break the map.  Unmapping
only ever changes the one page.
-/

namespace Sbrocks.Mmu

open Sbrocks.Radix

instance (phy : PhyAlloc) (page : Word) : Decidable (phy.Available page) :=
  decidable_of_iff (PhyAlloc.LowerHalf page ∧ page.toNat < bitmapGroups * pagesPerGroup ∧
    phy.inUse page = false)
    ⟨fun held => ⟨held.1, held.2.1, held.2.2⟩, fun held => ⟨held.lower, held.below, held.free⟩⟩

namespace Machine

/-- A well-formed tree below the loaded root: every table is reached along one
path and is a frame in use, and frame zero is in use. -/
structure WellFormed (m : Machine) : Prop where
  tables : Tables m (fun r => r = m.root) (fun _ => False)
  nullFrame : m.phy.inUse 0 = true

/-- `virt_to_phy` now gives `phy` for the page of `virt`, and what it gave
before for every other page. -/
def MapsTo (before after : Machine) (virt phy : Word) : Prop :=
  after.virtToPhy virt = phy ∧
    ∀ other, vpn other ≠ vpn virt → after.virtToPhy other = before.virtToPhy other

/-- The table functions act on the map from pages to frames as their names
say. -/
structure ImplementsMap (m : Machine) (virt phy flags : Word) : Prop where
  map : ∀ m', m.mapVirtToPhy virt phy flags = some m' → MapsTo m m' virt phy
  kernmem : ∀ m', m.kernmemMapping virt phy m.cr3 = some m' → MapsTo m m' virt phy
  unmap : MapsTo m (m.unmapPhy virt) virt 0

/-- The same state with another content of the frames that the allocator may
return. -/
def withAvailable (m : Machine) (content : Word → BitVec 9 → Word) : Machine :=
  { m with mem := fun page => if m.phy.Available page then content page else m.mem page }

variable {m m' : Machine}

theorem virtToPhy_of_translate {virt frame : Word} (found : m.translate virt = some frame) :
    m.virtToPhy virt = mmPageToPhy frame := by
  rw [virtToPhy_eq, found]
  rfl

theorem virtToPhy_of_unmapped {virt : Word} (unmapped : m.translate virt = none) :
    m.virtToPhy virt = 0 := by
  rw [virtToPhy_eq, unmapped]
  rfl

theorem virtToPhy_congr {before after : Machine} {virt : Word}
    (same : after.translate virt = before.translate virt) :
    after.virtToPhy virt = before.virtToPhy virt := by
  rw [virtToPhy_eq, virtToPhy_eq, same]

private theorem mmPageToPhy_mmPhyToPage {phy : Word} (aligned : phy.toNat % 4096 = 0) :
    mmPageToPhy (mmPhyToPage phy) = phy := by
  rw [← tableOf_eq_mmPhyToPage, mmPageToPhy_tableOf]
  apply BitVec.eq_of_toNat_eq
  rw [alignDown_toNat]
  omega

theorem mapsTo_of_mapped {roots : Word → Prop} {shared : BitVec 9 → Prop} {virt phy : Word}
    (aligned : phy.toNat % 4096 = 0)
    (mapped : Mapped roots shared m.root virt (mmPhyToPage phy) m m') (isRoot : roots m.root) :
    MapsTo m m' virt phy := by
  have sameRoot : m'.root = m.root := congrArg mmPhyToPage mapped.cr3
  constructor
  · have found : m'.translate virt = some (mmPhyToPage phy) := by
      rw [translate_eq_walk, sameRoot]
      exact mapped.hit isRoot (.inl rfl)
    rw [virtToPhy_of_translate found, mmPageToPhy_mmPhyToPage aligned]
  · intro other different
    apply virtToPhy_congr
    rw [translate_eq_walk, translate_eq_walk, sameRoot]
    apply mapped.walks isRoot (path_length other)
    rintro ⟨same, _⟩
    exact different ((path_eq_iff other virt).mp same)

/-- Clearing the last-level entry of a page unmaps that page alone. -/
private theorem translate_setEntry_zero {roots : Word → Prop} {shared : BitVec 9 → Prop}
    (tables : Tables m roots shared) (isRoot : roots m.root) {virt pttable : Word}
    (found : m.pttable virt = some pttable) (phy : PhyAlloc) (other : Word) :
    ({ m with phy := phy }.setEntry pttable (pteOffset virt) 0).translate other =
      if path other = path virt then none else m.translate other := by
  rw [pttable_eq_walk] at found
  rw [translate_eq_walk, translate_eq_walk]
  have leaf := tables.forest.walk_put_leaf (i := pteOffset virt) isRoot
    (show (tablePath virt).length + 1 = 4 from rfl) found 0 isRoot
    (Nat.le_of_eq (path_length other))
  refine leaf.trans ?_
  simp only [found, and_true, entryFrame_zero]
  rfl

/-- Unmapping only needs the tables to be distinct. -/
theorem mapsTo_unmapPhy {roots : Word → Prop} {shared : BitVec 9 → Prop}
    (tables : Tables m roots shared) (isRoot : roots m.root) (virt : Word) :
    MapsTo m (m.unmapPhy virt) virt 0 := by
  unfold unmapPhy
  cases found : m.pttable virt with
  | none =>
      refine ⟨?_, fun _ _ => rfl⟩
      rw [virtToPhy, found]
  | some pttable =>
      dsimp only
      split
      · constructor
        · apply virtToPhy_of_unmapped
          rw [translate_setEntry_zero tables isRoot found, if_pos rfl]
        · intro other different
          apply virtToPhy_congr
          rw [translate_setEntry_zero tables isRoot found,
            if_neg fun same => different ((path_eq_iff other virt).mp same)]
      · rename_i absent
        refine ⟨?_, fun _ _ => rfl⟩
        rw [virtToPhy, found]
        dsimp only
        rw [if_pos (by simpa using absent)]

/-- With clean frames for the missing tables, the functions implement the
map. -/
theorem implementsMap_of_cleanNext (wellFormed : m.WellFormed) {virt phy flags : Word}
    (aligned : phy.toNat % 4096 = 0) (flagBits : FlagBits flags)
    (clean : m.CleanNext (m.missingTables m.root (tablePath virt))) :
    ImplementsMap m virt phy flags where
  map _ result :=
    have mapped := mapVirtToPhy_mapped wellFormed.tables flagBits rfl (fun held => held.elim) clean
      result
    mapsTo_of_mapped aligned mapped rfl
  kernmem _ result :=
    have mapped := kernmemMapping_mapped wellFormed.tables rfl (fun held => held.elim) clean result
    mapsTo_of_mapped aligned mapped rfl
  unmap := mapsTo_unmapPhy wellFormed.tables rfl virt

/-! ## Stale frames -/

/-- One level of the descent, seen from the entries: whatever was present stays,
and the entry on the way now points at the next table. -/
private theorem tableAt_eq_some {flags : Word} (flagBits : FlagBits flags) {table next : Word}
    {offset : BitVec 9} (refresh : Bool)
    (found : entryFrame (m.mem table offset) = some next ∨
      (entryFrame (m.mem table offset) = none ∧ ∃ m₁, m.mmPhyAllocPage = some (m₁, next))) :
    ∃ m', m.tableAt table offset flags refresh = some (m', next) ∧ m'.root = m.root ∧
      entryFrame (m'.mem table offset) = some next ∧
      (∀ node i child, entryFrame (m.mem node i) = some child →
        entryFrame (m'.mem node i) = some child) ∧
      (entryFrame (m.mem table offset) = some next → m'.phy = m.phy ∧
        ∀ node i, entryFrame (m'.mem node i) = entryFrame (m.mem node i)) := by
  rcases found with present | ⟨absent, m₁, allocated⟩
  · have isPresent' : isPresent (m.mem table offset) = true := by
      by_contra none
      rw [entryFrame, if_neg none] at present
      contradiction
    have nextTable : tableOf (m.mem table offset) = next := by
      rw [entryFrame, if_pos isPresent'] at present
      exact Option.some.inj present
    cases refresh with
    | false =>
        refine ⟨m, ?_, rfl, present, fun _ _ _ older => older, fun _ => ⟨rfl, fun _ _ => rfl⟩⟩
        simp [tableAt, isPresent', nextTable]
    | true =>
        have points : entryFrame (alignDown (m.mem table offset) ||| flags) = some next := by
          rw [entryFrame_or flagBits, ← tableOf_eq_mmPhyToPage, tableOf_alignDown, nextTable]
        have agree : ∀ node i, entryFrame ((m.setEntry table offset
            (alignDown (m.mem table offset) ||| flags)).mem node i) = entryFrame (m.mem node i) := by
          intro node i
          rw [setEntry_mem, put_apply]
          split
          · rename_i here
            rw [here.1, here.2, present, points]
          · rfl
        refine ⟨m.setEntry table offset (alignDown (m.mem table offset) ||| flags), ?_, rfl, ?_, ?_,
          fun _ => ⟨rfl, agree⟩⟩
        · simp [tableAt, isPresent', tableOf_or flagBits.low, tableOf_alignDown, nextTable]
        · exact (agree table offset).trans present
        · intro node i child older
          exact (agree node i).trans older
  · obtain ⟨phy, scan, rfl⟩ := mmPhyAllocPage_eq_some allocated
    have available := (PhyAlloc.mmPhyAllocPage_eq_some scan).available
    have points : entryFrame (mmPageToPhy next ||| flags) = some next :=
      entryFrame_mmPageToPhy_or flagBits (PhyAlloc.Available.small available)
    have nextTable : tableOf (mmPageToPhy next ||| flags) = next := by
      rw [entryFrame, isPresent_or flagBits.present, if_pos rfl] at points
      exact Option.some.inj points
    have isAbsent : isPresent (m.mem table offset) = false := (entryFrame_eq_none_iff _).mp absent
    refine ⟨{ m with phy := phy }.setEntry table offset (mmPageToPhy next ||| flags), ?_, rfl, ?_, ?_,
      fun present => absurd (absent.symm.trans present) (by simp)⟩
    · simp [tableAt, isAbsent, allocated, nextTable]
    · rw [setEntry_mem, put_self]
      exact points
    · intro node i child older
      rw [setEntry_mem, put_of_ne]
      · exact older
      · by_contra same
        rw [not_or, not_not, not_not] at same
        rw [same.1, same.2, absent] at older
        contradiction

private theorem translate_of_entries {virt first second third last : Word}
    {a b c d : BitVec 9} (offsets : path virt = [a, b, c, d])
    (one : entryFrame (m.mem m.root a) = some first)
    (two : entryFrame (m.mem first b) = some second)
    (three : entryFrame (m.mem second c) = some third)
    (four : entryFrame (m.mem third d) = some last) : m.translate virt = some last := by
  rw [translate_eq_walk, offsets]
  simp [walk_cons, one, two, three, four]

/-- Any four indices are the path of some address. -/
theorem exists_path (a b c d : BitVec 9) : ∃ virt, path virt = [a, b, c, d] := by
  refine ⟨BitVec.ofNat 64 (a.toNat * 2 ^ 39 + b.toNat * 2 ^ 30 + c.toNat * 2 ^ 21 +
    d.toNat * 2 ^ 12), ?_⟩
  have aBound := a.isLt
  have bBound := b.isLt
  have cBound := c.isLt
  have dBound := d.isLt
  simp only [path, tablePath, List.cons_append, List.nil_append, List.cons.injEq, and_true,
    ← BitVec.toNat_inj, pml4eOffset_toNat, pdpeOffset_toNat, pdeOffset_toNat, pteOffset_toNat,
    BitVec.toNat_ofNat]
  omega

/-- A page other than the one mapped became translated. -/
private theorem not_mapsTo_of_translated {virt phy stale other : Word} (sameRoot : m'.root = m.root)
    (different : path other ≠ path virt) (before : walk entryFrame m.mem m.root (path other) = none)
    (after : walk entryFrame m'.mem m.root (path other) = some stale)
    (nonzero : mmPageToPhy stale ≠ 0) : ¬ MapsTo m m' virt phy := by
  rintro ⟨_, others⟩
  have same := others other fun equal => different ((path_eq_iff other virt).mpr equal)
  rw [← translate_eq_walk] at before
  rw [← sameRoot, ← translate_eq_walk] at after
  rw [virtToPhy_of_unmapped before, virtToPhy_of_translate after] at same
  exact nonzero same

/-- The mapping whose descent ends at `stale`, read off at another page whose
path does not meet the entry just stored. -/
private theorem exists_not_mapsTo_of_descent {virt phy flags stale : Word}
    {m₁ m₂ m₃ : Machine} {pdpetable pdetable first second third : Word} {a b c d : BitVec 9}
    (descent : m.tableAt m.root (pml4eOffset virt) flags false = some (m₁, pdpetable) ∧
      m₁.tableAt pdpetable (pdpeOffset virt) flags true = some (m₂, pdetable) ∧
      m₂.tableAt pdetable (pdeOffset virt) flags true = some (m₃, stale))
    (sameRoot : m₃.root = m.root) (nonzero : mmPageToPhy stale ≠ 0)
    (last : d ≠ pteOffset virt)
    (before : walk entryFrame m.mem m.root [a, b, c, d] = none)
    (one : entryFrame (m₃.mem m.root a) = some first ∧ m.root ≠ stale)
    (two : entryFrame (m₃.mem first b) = some second ∧ (first ≠ stale ∨ b ≠ pteOffset virt))
    (three : entryFrame (m₃.mem second c) = some third ∧ (second ≠ stale ∨ c ≠ pteOffset virt))
    (four : entryFrame (m₃.mem third d) = some stale) :
    ∃ m', m.mapVirtToPhy virt phy flags = some m' ∧ ¬ MapsTo m m' virt phy := by
  refine ⟨m₃.setEntry stale (pteOffset virt) (phy ||| flags), ?_, ?_⟩
  · simp [mapVirtToPhy, descent.1, descent.2.1, descent.2.2]
  · obtain ⟨other, offsets⟩ := exists_path a b c d
    have different : path other ≠ path virt := by
      rw [offsets]
      intro same
      simp only [path, tablePath, List.cons_append, List.nil_append, List.cons.injEq] at same
      exact last same.2.2.2.1
    have rootKept : (m₃.setEntry stale (pteOffset virt) (phy ||| flags)).root = m.root := sameRoot
    refine not_mapsTo_of_translated rootKept different (offsets ▸ before) ?_ nonzero
    rw [offsets]
    have kept : ∀ {node child : Word} {i : BitVec 9}, node ≠ stale ∨ i ≠ pteOffset virt →
        entryFrame (m₃.mem node i) = some child →
        entryFrame ((m₃.setEntry stale (pteOffset virt) (phy ||| flags)).mem node i) =
          some child := by
      intro node child i avoids found
      rw [setEntry_mem, put_of_ne _ avoids]
      exact found
    simp only [walk_cons, walk_nil, kept (.inl one.2) one.1, kept two.2 two.1, kept three.2 three.1,
      kept (.inr last) four, Option.bind_some]

/-- If a table is missing and the next frame is full of entries that point back
at it, mapping one page also translates another one, which was unmapped. -/
theorem exists_not_mapsTo_of_stale {virt phy flags stale : Word} (flagBits : FlagBits flags)
    (missing : m.missingTables m.root (tablePath virt) ≠ 0)
    (allocated : ∃ m₁, m.mmPhyAllocPage = some (m₁, stale))
    (loops : ∀ i, entryFrame (m.mem stale i) = some stale) (nonzero : mmPageToPhy stale ≠ 0) :
    ∃ m', m.mapVirtToPhy virt phy flags = some m' ∧ ¬ MapsTo m m' virt phy := by
  have elsewhere : pteOffset virt + 1 ≠ pteOffset virt := by
    intro same
    have impossible : (1 : BitVec 9) = 0 := by simp at same
    exact absurd impossible (by decide)
  -- A table with an entry that does not loop is not the stale frame.
  have notStale : ∀ {table : Word} {i : BitVec 9} {child : Option Word},
      entryFrame (m.mem table i) = child → child ≠ some stale → table ≠ stale := by
    rintro table i child found different rfl
    exact different (found.symm.trans (loops i))
  have allocatedLater : ∀ {later : Machine}, later.phy = m.phy →
      ∃ m₁, later.mmPhyAllocPage = some (m₁, stale) := by
    intro later same
    obtain ⟨m₁, found⟩ := allocated
    obtain ⟨phy, scan, rfl⟩ := mmPhyAllocPage_eq_some found
    exact ⟨{ later with phy := phy }, by rw [mmPhyAllocPage, same, scan]⟩
  cases one : entryFrame (m.mem m.root (pml4eOffset virt)) with
  | none =>
      obtain ⟨m₁, first, root₁, link₁, keep₁, _⟩ :=
        tableAt_eq_some flagBits false (.inr ⟨one, allocated⟩)
      obtain ⟨m₂, second, root₂, _, keep₂, _⟩ := tableAt_eq_some flagBits true
        (.inl (keep₁ _ _ _ (loops (pdpeOffset virt))))
      obtain ⟨m₃, third, root₃, _, keep₃, _⟩ := tableAt_eq_some flagBits true
        (.inl (keep₂ _ _ _ (keep₁ _ _ _ (loops (pdeOffset virt)))))
      have loops₃ : ∀ i, entryFrame (m₃.mem stale i) = some stale :=
        fun i => keep₃ _ _ _ (keep₂ _ _ _ (keep₁ _ _ _ (loops i)))
      apply exists_not_mapsTo_of_descent (a := pml4eOffset virt) ⟨first, second, third⟩
        ((root₃.trans root₂).trans root₁) nonzero elsewhere
      · rw [walk_cons, one]
        rfl
      · exact ⟨keep₃ _ _ _ (keep₂ _ _ _ link₁), notStale one (by simp)⟩
      · exact ⟨loops₃ _, .inr elsewhere⟩
      · exact ⟨loops₃ _, .inr elsewhere⟩
      · exact loops₃ _
  | some pdpetable =>
      obtain ⟨m₁, first, root₁, link₁, keep₁, same₁⟩ :=
        tableAt_eq_some flagBits false (.inl one)
      obtain ⟨phy₁, agree₁⟩ := same₁ one
      cases two : entryFrame (m.mem pdpetable (pdpeOffset virt)) with
      | none =>
          obtain ⟨m₂, second, root₂, link₂, keep₂, _⟩ := tableAt_eq_some (m := m₁) flagBits true
            (.inr ⟨(agree₁ _ _).trans two, allocatedLater phy₁⟩)
          obtain ⟨m₃, third, root₃, _, keep₃, _⟩ := tableAt_eq_some flagBits true
            (.inl (keep₂ _ _ _ (keep₁ _ _ _ (loops (pdeOffset virt)))))
          have loops₃ : ∀ i, entryFrame (m₃.mem stale i) = some stale :=
            fun i => keep₃ _ _ _ (keep₂ _ _ _ (keep₁ _ _ _ (loops i)))
          have inner := notStale two (by simp)
          apply exists_not_mapsTo_of_descent (a := pml4eOffset virt) (b := pdpeOffset virt)
            ⟨first, second, third⟩ ((root₃.trans root₂).trans root₁) nonzero elsewhere
          · simp [walk_cons, one, two]
          · exact ⟨keep₃ _ _ _ (keep₂ _ _ _ link₁), notStale one (by simpa using inner)⟩
          · exact ⟨keep₃ _ _ _ link₂, .inl inner⟩
          · exact ⟨loops₃ _, .inr elsewhere⟩
          · exact loops₃ _
      | some pdetable =>
          have three : entryFrame (m.mem pdetable (pdeOffset virt)) = none := by
            cases last : entryFrame (m.mem pdetable (pdeOffset virt)) with
            | none => rfl
            | some pttable =>
                refine absurd ?_ missing
                simp [missingTables, tablePath, one, two, last]
          obtain ⟨m₂, second, root₂, link₂, keep₂, same₂⟩ := tableAt_eq_some (m := m₁) flagBits true
            (.inl ((agree₁ _ _).trans two))
          obtain ⟨phy₂, agree₂⟩ := same₂ ((agree₁ _ _).trans two)
          obtain ⟨m₃, third, root₃, link₃, keep₃, _⟩ := tableAt_eq_some (m := m₂) flagBits true
            (.inr ⟨(agree₂ _ _).trans ((agree₁ _ _).trans three), allocatedLater (phy₂.trans phy₁)⟩)
          have inner := notStale three (by simp)
          have middle := notStale two (by simpa using inner)
          apply exists_not_mapsTo_of_descent (a := pml4eOffset virt) (b := pdpeOffset virt)
            (c := pdeOffset virt) ⟨first, second, third⟩ ((root₃.trans root₂).trans root₁) nonzero
            elsewhere
          · simp [walk_cons, one, two, three]
          · exact ⟨keep₃ _ _ _ (keep₂ _ _ _ link₁), notStale one (by simpa using middle)⟩
          · exact ⟨keep₃ _ _ _ link₂, .inl middle⟩
          · exact ⟨link₃, .inl inner⟩
          · exact keep₃ _ _ _ (keep₂ _ _ _ (keep₁ _ _ _ (loops _)))

/-! ## The exact condition -/

theorem withAvailable_mem_of_inUse (content : Word → BitVec 9 → Word) {page : Word}
    (inUse : m.phy.inUse page = true) : (m.withAvailable content).mem page = m.mem page := by
  have notAvailable : ¬ m.phy.Available page := by
    intro available
    rw [available.free] at inUse
    contradiction
  simp [withAvailable, notAvailable]

/-- The content of the available frames is no part of a well-formed tree. -/
theorem WellFormed.withAvailable (wellFormed : m.WellFormed) (content : Word → BitVec 9 → Word) :
    (m.withAvailable content).WellFormed ∧
      ∀ table, IsTable entryFrame m.mem (fun r => r = m.root) 4 table →
        (m.withAvailable content).mem table = m.mem table := by
  have tables : ∀ table, IsTable entryFrame m.mem (fun r => r = m.root) 4 table →
      (m.withAvailable content).mem table = m.mem table :=
    fun table isTable => withAvailable_mem_of_inUse content (wellFormed.tables.inUse isTable)
  have agree : ∀ node i, IsTable entryFrame m.mem (fun r => r = m.root) 4 node →
      entryFrame ((m.withAvailable content).mem node i) = entryFrame (m.mem node i) :=
    fun node i isTable => by rw [tables node isTable]
  refine ⟨⟨⟨wellFormed.tables.forest.of_agree (by decide) agree, fun isTable => ?_⟩,
    wellFormed.nullFrame⟩, tables⟩
  exact wellFormed.tables.inUse ((Forest.isTable_iff_of_agree agree _).mp isTable)

theorem WellFormed.missingTables_withAvailable (wellFormed : m.WellFormed)
    (content : Word → BitVec 9 → Word) (virt : Word) :
    (m.withAvailable content).missingTables m.root (tablePath virt) =
      m.missingTables m.root (tablePath virt) := by
  have tables := (wellFormed.withAvailable content).2
  have descend : ∀ (later earlier : List (BitVec 9)) (table : Word),
      earlier.length + later.length < 4 → walk entryFrame m.mem m.root earlier = some table →
      (m.withAvailable content).missingTables table later = m.missingTables table later := by
    intro later
    induction later with
    | nil => exact fun _ _ _ _ => rfl
    | cons offset later ih =>
        intro earlier table bound reached
        rw [List.length_cons] at bound
        unfold missingTables
        rw [tables table ⟨m.root, earlier, rfl, by omega, reached⟩]
        cases found : entryFrame (m.mem table offset) with
        | none => rfl
        | some child =>
            apply ih (earlier ++ [offset])
            · simp only [List.length_append, List.length_cons, List.length_nil]
              omega
            · rw [walk_concat reached, found]
  exact descend (tablePath virt) [] m.root (by simp [tablePath]) rfl

/-- Under a well-formed root, the table functions implement the map for each
content of the available frames in which the frames taken for missing tables
hold no present entry.  They do so for every content exactly when no table is
missing on the way to the page, or no frame is left to take. -/
theorem implementsMap_iff (wellFormed : m.WellFormed) {virt phy flags : Word}
    (aligned : phy.toNat % 4096 = 0) (flagBits : FlagBits flags) :
    (∀ content, (m.withAvailable content).CleanNext (m.missingTables m.root (tablePath virt)) →
      ImplementsMap (m.withAvailable content) virt phy flags) ∧
    (m.mmPhyAllocPage.isSome = true →
      ((∀ content, ImplementsMap (m.withAvailable content) virt phy flags) ↔
        m.missingTables m.root (tablePath virt) = 0)) := by
  have clean : ∀ content,
      (m.withAvailable content).CleanNext (m.missingTables m.root (tablePath virt)) →
      ImplementsMap (m.withAvailable content) virt phy flags := by
    intro content cleanNext
    apply implementsMap_of_cleanNext (wellFormed.withAvailable content).1 aligned flagBits
    have count := wellFormed.missingTables_withAvailable content virt
    exact count.symm ▸ cleanNext
  refine ⟨clean, fun frames => ⟨?_, ?_⟩⟩
  · intro implements
    by_contra missing
    obtain ⟨⟨m₁, stale⟩, allocated⟩ := Option.isSome_iff_exists.mp frames
    obtain ⟨phy₁, scan, -⟩ := mmPhyAllocPage_eq_some allocated
    have available := (PhyAlloc.mmPhyAllocPage_eq_some scan).available
    have small := PhyAlloc.Available.small available
    have nonzero : mmPageToPhy stale ≠ 0 := by
      intro zero
      obtain rfl : stale = 0 := by
        rw [← mmPhyToPage_mmPageToPhy small, zero]
        rfl
      exact absurd (available.free.symm.trans wellFormed.nullFrame) (by simp)
    -- Every entry of every available frame points at the frame that comes first.
    let full := m.withAvailable fun _ _ => mmPageToPhy stale ||| ptPresentFlag
    have allocated' : ∃ m₁, full.mmPhyAllocPage = some (m₁, stale) :=
      ⟨{ full with phy := phy₁ }, by
        rw [mmPhyAllocPage, show full.phy.mmPhyAllocPage = (phy₁, some stale) from scan]⟩
    have loops : ∀ i, entryFrame (full.mem stale i) = some stale := by
      intro i
      have content : full.mem stale i = mmPageToPhy stale ||| ptPresentFlag := by
        simp [full, withAvailable, available]
      rw [content]
      exact entryFrame_mmPageToPhy_or ⟨by decide, by decide⟩ small
    have missing' : full.missingTables full.root (tablePath virt) ≠ 0 := by
      have count := wellFormed.missingTables_withAvailable
        (fun _ _ => mmPageToPhy stale ||| ptPresentFlag) virt
      exact fun none => missing (count.symm.trans none)
    have broken : ∃ m', full.mapVirtToPhy virt phy flags = some m' ∧ ¬ MapsTo full m' virt phy :=
      exists_not_mapsTo_of_stale flagBits missing' allocated' loops nonzero
    obtain ⟨m', result, wrong⟩ := broken
    exact wrong ((implements _).map m' result)
  · intro none content
    apply clean content
    rw [none]
    exact cleanNext_zero

/-- A root table in use without present entries is a tree of its own. -/
theorem tables_of_empty {r : Word} (empty : ∀ i, entryFrame (m.mem r i) = none)
    (inUse : m.phy.inUse r = true) : Tables m (fun other => other = r) (fun _ => False) := by
  have onlyRoot : ∀ {ρ : List (BitVec 9)} {table : Word},
      walk entryFrame m.mem r ρ = some table → ρ = [] := by
    intro ρ table found
    cases ρ with
    | nil => rfl
    | cons i ρ =>
        rw [walk_cons, empty i] at found
        contradiction
  refine ⟨⟨?_, fun _ _ held => held.elim⟩, ?_⟩
  · rintro first second ρ ρ' table rfl rfl _ _ found found'
    exact ⟨(onlyRoot found).trans (onlyRoot found').symm, .inl rfl⟩
  · rintro table ⟨other, ρ, rfl, _, found⟩
    obtain rfl := onlyRoot found
    obtain rfl := Option.some.inj found
    exact inUse

/-- A root table in use without present entries is a well-formed tree. -/
theorem wellFormed_of_empty (empty : ∀ i, entryFrame (m.mem m.root i) = none)
    (inUse : m.phy.inUse m.root = true) (nullFrame : m.phy.inUse 0 = true) : m.WellFormed :=
  ⟨tables_of_empty empty inUse, nullFrame⟩

/-- Frames 0 and 1 in use, the root table in frame 1 still empty; the other
frames of the first group are available, and the last group entries of frame 4
are as someone left them. -/
def staleFrameFour : Machine where
  phy := ⟨fun group => if group = 0 then 3 else BitVec.allOnes 64, fun _ _ => 0, []⟩
  mem := fun page offset => if page = 4 ∧ offset = 1 then 0x5001 else 0
  cr3 := 0x1000
  kCr3 := 0x1000
  virtualTop := 0

theorem staleFrameFour_wellFormed : staleFrameFour.WellFormed := by
  apply wellFormed_of_empty
  · intro i
    have notFour : staleFrameFour.root ≠ 4 := by decide
    have empty : staleFrameFour.mem staleFrameFour.root i = 0 := by
      change (if staleFrameFour.root = 4 ∧ i = 1 then (0x5001 : Word) else 0) = 0
      exact if_neg fun impossible => notFour impossible.1
    rw [empty, entryFrame_zero]
  · decide
  · decide

/-- Mapping page 0 takes frame 4 for the last-level table, and page 1 is then
translated by the entry left there. -/
theorem not_implementsMap_of_stale_frame :
    ∃ m virt phy flags, WellFormed m ∧ phy.toNat % 4096 = 0 ∧ FlagBits flags ∧
      ¬ ImplementsMap m virt phy flags := by
  refine ⟨staleFrameFour, 0, 0x6000, 7, staleFrameFour_wellFormed, by decide,
    ⟨by decide, by decide⟩, ?_⟩
  intro implements
  have some : (staleFrameFour.mapVirtToPhy 0 0x6000 7).isSome = true := by decide +kernel
  obtain ⟨m', result⟩ := Option.isSome_iff_exists.mp some
  have unchanged := (implements.map m' result).2 0x1000 (by decide)
  have before : staleFrameFour.virtToPhy 0x1000 = 0 := by decide +kernel
  have after : (staleFrameFour.mapVirtToPhy 0 0x6000 7).map (fun m => m.virtToPhy 0x1000) =
      .some 0x5000 := by decide +kernel
  rw [result, Option.map_some, unchanged, before] at after
  exact absurd after (by decide)

/-- In the state above, clean frames are enough for page 0, and not every content
of the frames will do. -/
theorem implementsMap_iff_page_zero :
    ImplementsMap (staleFrameFour.withAvailable fun _ _ => 0) 0 0x6000 7 ∧
      ¬ ∀ content, ImplementsMap (staleFrameFour.withAvailable content) 0 0x6000 7 := by
  have cleared : (staleFrameFour.withAvailable fun _ _ => 0).CleanNext
      (staleFrameFour.missingTables staleFrameFour.root (tablePath 0)) := by
    intro page member offset
    have available : staleFrameFour.phy.Available page :=
      PhyAlloc.available_of_mem_handedOut member
    have empty : (staleFrameFour.withAvailable fun _ _ => 0).mem page offset = 0 := by
      simp only [withAvailable, available, if_true]
    rw [empty, entryFrame_zero]
  have exact : _ ∧ (_ → ((∀ content, ImplementsMap (staleFrameFour.withAvailable content) 0 0x6000 7) ↔ _)) :=
    implementsMap_iff staleFrameFour_wellFormed (by decide) ⟨by decide, by decide⟩
  refine ⟨exact.1 _ cleared, fun all => ?_⟩
  have none := (exact.2 (by decide +kernel)).mp all
  exact absurd none (by decide)

end Machine

end Sbrocks.Mmu
