import Sbrocks.Mmu.FrameMarks

/-!
# Available regions

The firmware's regions are rounded outwards to pages.  The pages inside a region lie in it
entirely, so whether only whole pages become free is decided by the first and the last
page of each region.
-/

namespace Sbrocks.Mmu.PhyAlloc

variable {state : PhyAlloc} {base length page : Word}

/-- The pages that `mm_phy_map` goes through. -/
def MapsPage (base length page : Word) : Prop :=
  base.toNat / 4096 ≤ page.toNat ∧ page.toNat < (alignUp (base + length)).toNat / 4096

theorem inUse_mmPhyMap (state : PhyAlloc) (base length page : Word) :
    (state.mmPhyMap base length).inUse page = false ↔
      state.inUse page = false ∨ page ≠ 0 ∧ MapsPage base length page := by
  have round : ∀ (state : PhyAlloc) (i : Word),
      (state.setPageFree (mmPhyToPage i)).inUse page = false ↔
        state.inUse page = false ∨ (page ≠ 0 ∧ page.toNat = i.toNat / 4096) := by
    intro state i
    rw [inUse_setPageFree, Bool.and_eq_false_iff, Bool.not_eq_false', Bool.and_eq_true,
      decide_eq_true_eq, decide_eq_true_eq]
    apply or_congr_right
    rw [← BitVec.toNat_inj, mmPhyToPage_toNat]
    constructor
    · rintro ⟨here, nonzero⟩
      refine ⟨?_, here⟩
      rintro rfl
      apply nonzero
      apply BitVec.eq_of_toNat_eq
      rw [mmPhyToPage_toNat]
      exact here.symm
    · rintro ⟨nonzero, here⟩
      refine ⟨here, fun zero => nonzero ?_⟩
      apply BitVec.eq_of_toNat_eq
      rw [here, ← mmPhyToPage_toNat, zero]
  have stopBound := (alignUp (base + length)).isLt
  rw [mmPhyMap, forPages_iff (P := fun state => state.inUse page = false)
    (Q := fun n => page ≠ 0 ∧ page.toNat = n) round (alignUp_multiple (base + length)) (by omega)
    (alignDown_multiple base) state]
  apply or_congr_right
  have first : (alignDown base).toNat / 4096 = base.toNat / 4096 := by
    rw [alignDown_toNat]
    omega
  rw [first]
  constructor
  · rintro ⟨n, above, below, nonzero, rfl⟩
    exact ⟨nonzero, above, below⟩
  · rintro ⟨nonzero, above, below⟩
    exact ⟨page.toNat, above, below, nonzero, rfl⟩

theorem inUse_mmPhyInit (state : PhyAlloc) (below : page.toNat < bitmapGroups * pagesPerGroup) :
    state.mmPhyInit.inUse page = true := by
  have declared : (groupOf page).toNat < bitmapGroups := by
    rw [groupOf_toNat]
    simp only [pagesPerGroup] at below
    omega
  rw [mmPhyInit, inUse_setBitmap_or, inUse]
  dsimp only
  rw [if_pos declared, BitVec.getLsbD_allOnes, decide_eq_true (slotOf_lt page), Bool.true_or]

/-- The state after the regions of a list were mapped. -/
def mapRegions (state : PhyAlloc) (regions : List (Word × Word)) : PhyAlloc :=
  regions.foldl (fun state region => state.mmPhyMap region.1 region.2) state

theorem inUse_mapRegions (state : PhyAlloc) (regions : List (Word × Word)) (page : Word) :
    (state.mapRegions regions).inUse page = false ↔
      state.inUse page = false ∨ page ≠ 0 ∧ ∃ region ∈ regions, MapsPage region.1 region.2 page := by
  induction regions generalizing state with
  | nil => simp [mapRegions]
  | cons region regions ih =>
      show ((state.mmPhyMap region.1 region.2).mapRegions regions).inUse page = false ↔ _
      rw [ih, inUse_mmPhyMap]
      simp only [List.mem_cons, exists_eq_or_imp]
      tauto

/-- All the bytes of a page lie in the regions. -/
def Covered (regions : List (Word × Word)) (page : Word) : Prop :=
  ∀ b < 4096, ∃ region ∈ regions, region.1.toNat ≤ page.toNat * 4096 + b ∧
    page.toNat * 4096 + b < region.1.toNat + region.2.toNat

/-- The first and the last of the pages that `mm_phy_map` goes through. -/
def EdgePage (base length page : Word) : Prop :=
  MapsPage base length page ∧ (page.toNat = base.toNat / 4096 ∨
    page.toNat + 1 = (alignUp (base + length)).toNat / 4096)

theorem alignUp_lt (x : Word) : (alignUp x).toNat < x.toNat + 4096 := by
  by_cases room : x.toNat + 4096 ≤ 2 ^ 64
  · rw [alignUp_toNat room]
    omega
  · unfold alignUp
    split
    · rw [alignDown_toNat, BitVec.toNat_add, pageSize_toNat]
      have bound := x.isLt
      omega
    · omega

/-- The pages between lie in the region. -/
theorem mapsPage_inside {regions : List (Word × Word)} {region : Word × Word}
    (member : region ∈ regions) (maps : MapsPage region.1 region.2 page)
    (inner : ¬ EdgePage region.1 region.2 page) : Covered regions page := by
  have notFirst : page.toNat ≠ region.1.toNat / 4096 := fun first => inner ⟨maps, .inl first⟩
  have notLast : page.toNat + 1 ≠ (alignUp (region.1 + region.2)).toNat / 4096 :=
    fun last => inner ⟨maps, .inr last⟩
  rcases maps with ⟨above, below⟩
  have stop := alignUp_lt (region.1 + region.2)
  have sum : (region.1 + region.2).toNat ≤ region.1.toNat + region.2.toNat := by
    rw [BitVec.toNat_add]
    exact Nat.mod_le _ _
  intro b inPage
  exact ⟨region, member, by omega, by omega⟩

/-- After `mm_phy_init` and the regions, only pages that lie in the regions are free. -/
def FreesWholePages (state : PhyAlloc) (regions : List (Word × Word)) : Prop :=
  ∀ page : Word, page.toNat < bitmapGroups * pagesPerGroup →
    (state.mmPhyInit.mapRegions regions).inUse page = false → Covered regions page

/-- Only whole pages become free if and only if the first and the last page of each region
lie in the regions. -/
theorem freesWholePages_iff (state : PhyAlloc) (regions : List (Word × Word)) :
    FreesWholePages state regions ↔ ∀ region ∈ regions, ∀ page : Word, page ≠ 0 →
      page.toNat < bitmapGroups * pagesPerGroup → EdgePage region.1 region.2 page →
      Covered regions page := by
  constructor
  · intro whole region member page nonzero below edge
    apply whole page below
    rw [inUse_mapRegions]
    exact .inr ⟨nonzero, region, member, edge.1⟩
  · intro edges page below free
    rw [inUse_mapRegions, inUse_mmPhyInit state below] at free
    rcases free with impossible | ⟨nonzero, region, member, maps⟩
    · cases impossible
    · by_cases edge : EdgePage region.1 region.2 page
      · exact edges region member page nonzero below edge
      · exact mapsPage_inside member maps edge

/-- Half a page of memory makes the page free. -/
theorem half_page_freed : ¬ FreesWholePages noneUsed [(0x1000, 0x800)] := by
  intro whole
  have free : (noneUsed.mmPhyInit.mapRegions [(0x1000, 0x800)]).inUse 1 = false := by
    rw [inUse_mapRegions]
    exact .inr ⟨by decide, _, List.mem_cons_self, by decide, by decide⟩
  rcases whole 1 (by decide) free 0x800 (by decide) with ⟨region, member, _, below⟩
  cases List.mem_singleton.mp member
  exact absurd below (by decide)

end Sbrocks.Mmu.PhyAlloc
