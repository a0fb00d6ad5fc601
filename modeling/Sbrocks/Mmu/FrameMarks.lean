import Sbrocks.Mmu.FrameRuns

/-!
# What marking marks

A frame is marked through the signed mask of its position, which is the mask of a
position of the lower half: position 31, and 63 with it, masks the whole upper half of
its group, any other position of the upper half masks the position 32 below.  So marking
is exact for the frames below position 31, and elsewhere only where the frames that it
marks besides are marked already.
-/

namespace Sbrocks.Mmu.PhyAlloc

variable {state after : PhyAlloc} {page other startaddr endaddr : Word}

/-! ## Page loops -/

/-- What a page loop brings about, its rounds do. -/
theorem forPages_iff {P : PhyAlloc → Prop} {Q : Nat → Prop} {body : PhyAlloc → Word → PhyAlloc}
    (round : ∀ state i, P (body state i) ↔ P state ∨ Q (i.toNat / 4096))
    {stop : Word} {last : Nat} (stopPage : stop.toNat = 4096 * last) {fuel first : Nat}
    (enough : last ≤ first + fuel) {i : Word} (page : i.toNat = 4096 * first)
    (state : PhyAlloc) :
    P (forPages body stop fuel i state) ↔ P state ∨ ∃ n, first ≤ n ∧ n < last ∧ Q n := by
  induction fuel generalizing first i state with
  | zero =>
      rw [forPages]
      have empty : ¬ ∃ n, first ≤ n ∧ n < last ∧ Q n := by
        rintro ⟨n, above, below, _⟩
        omega
      simp [empty]
  | succ fuel ih =>
      have stopBound := stop.isLt
      rw [forPages]
      split
      · rename_i inside
        have inside' := BitVec.lt_def.mp inside
        have next : (i + pageSize).toNat = 4096 * (first + 1) := by
          rw [BitVec.toNat_add, pageSize_toNat]
          omega
        have current : i.toNat / 4096 = first := by omega
        rw [ih (by omega) next, round, current, or_assoc]
        apply or_congr_right
        constructor
        · rintro (here | ⟨n, above, below, hit⟩)
          · exact ⟨first, Nat.le_refl _, by omega, here⟩
          · exact ⟨n, by omega, below, hit⟩
        · rintro ⟨n, above, below, hit⟩
          rcases Nat.lt_or_eq_of_le above with later | rfl
          · exact .inr ⟨n, later, below, hit⟩
          · exact .inl hit
      · rename_i outside
        have outside' : ¬ i.toNat < stop.toNat := fun below => outside (BitVec.lt_def.mpr below)
        have empty : ¬ ∃ n, first ≤ n ∧ n < last ∧ Q n := by
          rintro ⟨n, above, below, _⟩
          omega
        simp [empty]

/-! ## Masks -/

/-- Marking the one frame sets the bit of the other. -/
def Masks (page other : Word) : Prop :=
  page.toNat / 64 = other.toNat / 64 ∧
    if page.toNat % 32 = 31 then 31 ≤ other.toNat % 64 else other.toNat % 64 = page.toNat % 32

instance (page other : Word) : Decidable (Masks page other) :=
  inferInstanceAs (Decidable (_ ∧ _))

theorem groupOf_eq_iff (page other : Word) :
    groupOf other = groupOf page ↔ page.toNat / 64 = other.toNat / 64 := by
  rw [← BitVec.toNat_inj, groupOf_toNat, groupOf_toNat]
  exact eq_comm

/-- The signed mask, by frames. -/
theorem mask_eq_masks (page other : Word) : (decide (groupOf other = groupOf page) &&
    (intBit (slotOf page).toNat).getLsbD (slotOf other).toNat) = decide (Masks page other) := by
  rw [intBit_getLsbD (slotOf_lt other), slotOf_toNat, slotOf_toNat,
    Nat.mod_mod_of_dvd _ (by decide : 32 ∣ 64), Bool.eq_iff_iff, Bool.and_eq_true,
    decide_eq_true_eq, decide_eq_true_eq, groupOf_eq_iff, Masks]
  apply and_congr_right
  intro _
  split
  · exact decide_eq_true_iff
  · exact decide_eq_true_iff

theorem inUse_setPageUsed (state : PhyAlloc) (page other : Word) :
    (state.setPageUsed page).inUse other =
      (state.inUse other || (decide (page ≠ 0) && decide (Masks page other))) := by
  unfold setPageUsed
  by_cases zero : page = 0
  · rw [if_neg (not_not_intro zero), decide_eq_false (not_not_intro zero), Bool.false_and,
      Bool.or_false]
  · rw [if_pos zero, inUse_incRefCount, inUse_setBitmap_or, mask_eq_masks, decide_eq_true zero,
      Bool.true_and]

/-- A frame of the lower half is masked by itself and by the frame 32 above. -/
theorem masks_lower (lower : other.toNat % 64 < 32) :
    Masks page other ↔ page = other ∨ page.toNat = other.toNat + 32 := by
  unfold Masks
  rw [← BitVec.toNat_inj]
  split <;> omega

/-- A frame of the upper half is masked by the frames at positions 31 and 63. -/
theorem masks_upper (upper : 32 ≤ other.toNat % 64) :
    Masks page other ↔ page.toNat / 64 = other.toNat / 64 ∧ page.toNat % 32 = 31 := by
  unfold Masks
  split <;> omega

/-! ## The scan -/

/-- The scan marks the frame it returns, which is one of the lower half, and finds clear
all that it marks. -/
theorem allocBelow_marks {n : Nat} (bound : n ≤ bitmapGroups)
    (found : state.allocBelow n = (after, some page)) :
    page.toNat % 64 < 32 ∧ (∀ other, Masks page other → state.inUse other = false) ∧
      (∀ other, after.inUse other = (state.inUse other || decide (Masks page other))) ∧
      after.refcount = (state.incRefCount (mmPageToPhy page)).refcount := by
  induction n generalizing state with
  | zero => cases found
  | succ n ih =>
      unfold allocBelow at found
      dsimp only at found
      have nBound : n ≤ bitmapGroups := Nat.le_of_succ_le bound
      cases slot : freeSlot (state.phyBitmap (BitVec.ofNat 64 n)) with
      | none =>
          rw [slot] at found
          have rest := ih nBound found
          refine ⟨rest.1, rest.2.1, rest.2.2.1, rest.2.2.2.trans ?_⟩
          unfold incRefCount touch setRefcount
          dsimp only
          split <;> rfl
      | some p =>
          rw [slot] at found
          rcases freeSlot_eq_some slot with ⟨lower, clear⟩
          have inGroup : p < 64 := by omega
          obtain ⟨rfl, samePage⟩ := Prod.mk.inj found
          obtain rfl : pageAt n p = page := Option.some.inj samePage
          have group := groupOf_pageAt nBound inGroup
          have position := slotOf_pageAt nBound inGroup
          refine ⟨?_, ?_, ?_, ?_⟩
          · rw [← slotOf_toNat, position]
            exact lower
          · intro other masked
            have bit := (mask_eq_masks (pageAt n p) other).trans (decide_eq_true masked)
            rw [Bool.and_eq_true, decide_eq_true_eq, group, position] at bit
            rw [inUse, bit.1]
            exact clear _ (slotOf_lt other) bit.2
          · intro other
            rw [inUse_incRefCount, ← mask_eq_masks, group, position]
            exact inUse_setBitmap_or _ _ _ _
          · unfold incRefCount setBitmap touch setRefcount
            dsimp only
            split <;> rfl

/-! ## Exact marks -/

/-- Marking a frame marks that frame and counts one reference to it, and freeing it
afterwards brings the bitmap back. -/
structure MarksOnly (before after : PhyAlloc) (page : Word) : Prop where
  bits : ∀ other, after.inUse other = (before.inUse other || decide (other = page))
  counts : ∀ other, after.refcount (groupOf other) (slotOf other) =
    before.refcount (groupOf other) (slotOf other) + if other = page then 1 else 0
  undone : ∀ other, (after.setPageFree page).inUse other = before.inUse other

theorem refcount_incRefCount (nonzero : page ≠ 0) (small : page.toNat < 2 ^ 52) (other : Word) :
    (state.incRefCount (mmPageToPhy page)).refcount (groupOf other) (slotOf other) =
      state.refcount (groupOf other) (slotOf other) + if other = page then 1 else 0 := by
  unfold incRefCount
  rw [mmPhyToPage_mmPageToPhy small]
  dsimp only
  rw [if_pos nonzero]
  unfold setRefcount
  dsimp only
  by_cases group : groupOf other = groupOf page
  · by_cases slot : slotOf other = slotOf page
    · have same := page_eq_of_group_slot group (congrArg BitVec.toNat slot)
      rw [if_pos same, group, slot, Function.update_self, Function.update_self]
    · have different : other ≠ page := fun same => slot (congrArg slotOf same)
      rw [if_neg different, group, Function.update_self, Function.update_of_ne slot]
      exact (BitVec.add_zero _).symm
  · have different : other ≠ page := fun same => group (congrArg groupOf same)
    rw [if_neg different, Function.update_of_ne group]
    exact (BitVec.add_zero _).symm

/-- The frame was not marked, its mask has its own bit, and all else that the mask has
was marked already. -/
def Exact (state : PhyAlloc) (page : Word) : Prop :=
  state.inUse page = false ∧ (page.toNat % 64 < 31 ∨ page.toNat % 32 = 31 ∧
    ∀ other, other ≠ page → page.toNat / 64 = other.toNat / 64 → 31 ≤ other.toNat % 64 →
      state.inUse other = true)

theorem marksOnly_iff_of_masks (nonzero : page ≠ 0)
    (bits : ∀ other, after.inUse other = (state.inUse other || decide (Masks page other)))
    (counts : ∀ other, after.refcount (groupOf other) (slotOf other) =
      state.refcount (groupOf other) (slotOf other) + if other = page then 1 else 0) :
    MarksOnly state after page ↔ Exact state page := by
  constructor
  · intro marks
    have clear : state.inUse page = false := by
      have undone := marks.undone page
      rw [inUse_setPageFree, decide_eq_true rfl, decide_eq_true nonzero, Bool.and_self,
        Bool.not_true, Bool.and_false] at undone
      exact undone.symm
    have own : Masks page page := by
      have bit := (bits page).symm.trans (marks.bits page)
      rw [clear, Bool.false_or, Bool.false_or, decide_eq_true rfl] at bit
      exact of_decide_eq_true bit
    refine ⟨clear, ?_⟩
    by_cases last : page.toNat % 32 = 31
    · refine .inr ⟨last, fun other different group upper => ?_⟩
      have masked : Masks page other := ⟨group, by rwa [if_pos last]⟩
      have bit := (bits other).symm.trans (marks.bits other)
      rw [decide_eq_true masked, Bool.or_true, decide_eq_false different, Bool.or_false] at bit
      exact bit.symm
    · have position := own.2
      rw [if_neg last] at position
      exact .inl (by omega)
  · rintro ⟨clear, place⟩
    have own : Masks page page := by
      refine ⟨rfl, ?_⟩
      split <;> omega
    have covered : ∀ other, other ≠ page → Masks page other → state.inUse other = true := by
      rintro other different ⟨group, position⟩
      rcases place with low | ⟨last, marked⟩
      · rw [if_neg (by omega)] at position
        exact absurd (BitVec.eq_of_toNat_eq (by omega)) different
      · rw [if_pos last] at position
        exact marked other different group position
    have exact' : ∀ other, after.inUse other = (state.inUse other || decide (other = page)) := by
      intro other
      rw [bits]
      by_cases here : other = page
      · rw [here, decide_eq_true own, decide_eq_true rfl]
      · rw [decide_eq_false here, Bool.or_false]
        by_cases masked : Masks page other
        · rw [covered other here masked, Bool.true_or]
        · rw [decide_eq_false masked, Bool.or_false]
    refine ⟨exact', counts, fun other => ?_⟩
    rw [inUse_setPageFree, exact', decide_eq_true nonzero, Bool.and_true]
    by_cases here : other = page
    · rw [here, clear, decide_eq_true rfl]
      rfl
    · rw [decide_eq_false here, Bool.or_false, Bool.not_false, Bool.and_true]

/-- What `mark_kernel_pages` marks. -/
theorem inUse_markKernelPages (state : PhyAlloc) (room : endaddr.toNat + 4096 ≤ 2 ^ 64)
    (nonzero : other ≠ 0) : (state.markKernelPages startaddr endaddr).inUse other = true ↔
      state.inUse other = true ∨
        ∃ page, page ≠ 0 ∧ MeetsRange startaddr endaddr page ∧ Masks page other := by
  have round : ∀ (state : PhyAlloc) (i : Word),
      (state.setPageUsed (mmPhyToPage i)).inUse other = true ↔ state.inUse other = true ∨
        (BitVec.ofNat 64 (i.toNat / 4096) ≠ 0 ∧ Masks (BitVec.ofNat 64 (i.toNat / 4096)) other) := by
    intro state i
    have page : BitVec.ofNat 64 (i.toNat / 4096) = mmPhyToPage i := by
      apply BitVec.eq_of_toNat_eq
      rw [mmPhyToPage_toNat, BitVec.toNat_ofNat]
      omega
    rw [inUse_setPageUsed, page, Bool.or_eq_true, Bool.and_eq_true, decide_eq_true_eq,
      decide_eq_true_eq]
  have stop := alignUp_toNat room
  have zeroBit : (decide (groupOf other = 0) && (1 : Word).getLsbD (slotOf other).toNat) = false := by
    rw [Bool.and_eq_false_iff]
    by_cases group : groupOf other = 0
    · right
      have slot : (slotOf other).toNat ≠ 0 := by
        intro slot
        exact nonzero (page_eq_of_group_slot group slot)
      simp [BitVec.getLsbD_one, slot]
    · exact .inl (decide_eq_false group)
  rw [markKernelPages, inUse_setBitmap_or, zeroBit, Bool.or_false,
    forPages_iff (P := fun state => state.inUse other = true)
      (Q := fun n => BitVec.ofNat 64 n ≠ 0 ∧ Masks (BitVec.ofNat 64 n) other) round
      (alignUp_multiple endaddr) (by omega) (alignDown_multiple startaddr) state]
  apply or_congr_right
  have first : (alignDown startaddr).toNat / 4096 = startaddr.toNat / 4096 := by
    rw [alignDown_toNat]
    omega
  rw [first, stop]
  constructor
  · rintro ⟨n, above, below, nonzero', masked⟩
    refine ⟨BitVec.ofNat 64 n, nonzero', ⟨?_, ?_⟩, masked⟩
    · rw [BitVec.toNat_ofNat]
      omega
    · rw [BitVec.toNat_ofNat]
      omega
  · rintro ⟨page, nonzero', ⟨above, below⟩, masked⟩
    refine ⟨page.toNat, above, by omega, ?_⟩
    rw [BitVec.ofNat_toNat, BitVec.setWidth_eq]
    exact ⟨nonzero', masked⟩

/-- The frames that were free and are marked now are those that were free and meet the
range. -/
def MarksRange (before after : PhyAlloc) (startaddr endaddr : Word) : Prop :=
  ∀ page, page ≠ 0 → (before.inUse page = false ∧ after.inUse page = true ↔
    before.inUse page = false ∧ MeetsRange startaddr endaddr page)

/-- For the free frames of an upper half, the frames at positions 31 and 63 decide; for
those of a lower half, the frames 32 above do not matter. -/
def ExactRange (state : PhyAlloc) (startaddr endaddr : Word) : Prop :=
  ∀ page, page ≠ 0 → state.inUse page = false →
    if 32 ≤ page.toNat % 64 then
      (MeetsRange startaddr endaddr page ↔ ∃ masking : Word,
        masking.toNat / 64 = page.toNat / 64 ∧ masking.toNat % 32 = 31 ∧
          MeetsRange startaddr endaddr masking)
    else MeetsRange startaddr endaddr (page + 32) → MeetsRange startaddr endaddr page

theorem marksRange_iff (state : PhyAlloc) (room : endaddr.toNat + 4096 ≤ 2 ^ 64) :
    MarksRange state (state.markKernelPages startaddr endaddr) startaddr endaddr ↔
      ExactRange state startaddr endaddr := by
  unfold MarksRange ExactRange
  apply forall_congr'
  intro page
  apply imp_congr_right
  intro nonzero
  rw [and_congr_right_iff]
  apply imp_congr_right
  intro free
  rw [inUse_markKernelPages state room nonzero, free, or_iff_right Bool.false_ne_true]
  split
  · rename_i upper
    refine iff_comm.trans (iff_congr Iff.rfl ?_)
    apply exists_congr
    intro masking
    rw [masks_upper upper]
    constructor
    · rintro ⟨_, meets, group, position⟩
      exact ⟨group, position, meets⟩
    · rintro ⟨group, position, meets⟩
      refine ⟨?_, meets, group, position⟩
      rintro rfl
      exact absurd position (by decide)
  · rename_i lower
    have above : (page + 32).toNat = page.toNat + 32 := by
      have bound := page.isLt
      rw [BitVec.toNat_add]
      change (page.toNat + 32) % 2 ^ 64 = page.toNat + 32
      omega
    constructor
    · rintro same meets
      apply same.mp
      refine ⟨page + 32, ?_, meets, (masks_lower (by omega)).mpr (.inr above)⟩
      intro zero
      rw [zero] at above
      exact absurd above (by simp)
    · intro covered
      constructor
      · rintro ⟨masking, _, meets, masked⟩
        rcases (masks_lower (by omega)).mp masked with rfl | higher
        · exact meets
        · apply covered
          rwa [show page + 32 = masking from BitVec.eq_of_toNat_eq (above.trans higher.symm)]
      · intro meets
        exact ⟨page, nonzero, meets, (masks_lower (by omega)).mpr (.inl rfl)⟩

/-- A bitmap without a bit. -/
def noneUsed : PhyAlloc := ⟨fun _ => 0, fun _ _ => 0, []⟩

/-- The scan can return the frame: it stands in the lower half of its group, and all that
its mask marks is free. -/
structure Findable (state : PhyAlloc) (page : Word) : Prop where
  below : page.toNat < bitmapGroups * pagesPerGroup
  lower : LowerHalf page
  clear : ∀ other, Masks page other → state.inUse other = false

/-- A result is returned; it is zero if and only if every frame is in use, and nothing
changed then, and it is a free frame otherwise. -/
def Reports (state : PhyAlloc) : Prop :=
  ∃ after page, state.mmPhyAllocPage = (after, some page) ∧
    (page = 0 ↔ ∀ other : Word, other.toNat < bitmapGroups * pagesPerGroup →
      state.inUse other = true) ∧
    (page = 0 → after.phyBitmap = state.phyBitmap ∧ after.refcount = state.refcount) ∧
    ((∃ other : Word, other.toNat < bitmapGroups * pagesPerGroup ∧ state.inUse other = false) →
      page.toNat < bitmapGroups * pagesPerGroup ∧ state.inUse page = false)

theorem freeSlot_isSome {group : Word} {p : Nat} (lower : p < 32)
    (clear : ∀ j < 64, (intBit p).getLsbD j = true → group.getLsbD j = false) :
    (freeSlot group).isSome = true := by
  have maskClear : group &&& intBit p = 0 := by
    apply BitVec.eq_of_getLsbD_eq
    intro j bound
    have zero : (0 : Word).getLsbD j = false := BitVec.getLsbD_zero
    rw [BitVec.getLsbD_and, zero]
    cases bit : (intBit p).getLsbD j with
    | false => exact Bool.and_false _
    | true => rw [clear j bound bit, Bool.false_and]
  have own : (intBit p).getLsbD p = true := by
    rw [intBit_getLsbD (by omega), Nat.mod_eq_of_lt lower]
    by_cases top : p = 31 <;> simp [top]
  have notFull : group ≠ 0xffffffffffffffff := by
    rintro rfl
    have bit := clear p (by omega) own
    rw [show (0xffffffffffffffff : Word) = BitVec.allOnes 64 from rfl, BitVec.getLsbD_allOnes,
      decide_eq_true (show p < 64 by omega)] at bit
    cases bit
  unfold freeSlot
  rw [if_pos notFull, List.find?_isSome]
  refine ⟨p, List.mem_range.mpr (Nat.lt_of_lt_of_le lower (by decide)), ?_⟩
  rw [maskClear]
  rfl

/-- The scan starts each group at its first position. -/
theorem freeSlot_zero {group : Word} {p : Nat} (found : freeSlot group = some p)
    (clear : group.getLsbD 0 = false) : p = 0 := by
  unfold freeSlot at found
  split at found
  · obtain ⟨_, _, earlier⟩ := List.find?_range_eq_some.mp found
    by_contra later
    have tried := earlier 0 (by omega)
    have maskClear : group &&& intBit 0 = 0 := by
      apply BitVec.eq_of_getLsbD_eq
      intro j bound
      have zero : (0 : Word).getLsbD j = false := BitVec.getLsbD_zero
      rw [BitVec.getLsbD_and, intBit_getLsbD bound, if_neg (by decide), zero]
      by_cases first : j = 0
      · rw [first, clear, Bool.false_and]
      · rw [decide_eq_false first, Bool.and_false]
    rw [maskClear] at tried
    exact absurd tried (by decide)
  · cases found

/-- The scan finds a frame in the group of any frame it can return, or above. -/
theorem allocBelow_isSome {n : Nat} (bound : n ≤ bitmapGroups) (findable : Findable state other)
    (inside : other.toNat / 64 < n) :
    ∃ after page, state.allocBelow n = (after, some page) ∧
      other.toNat / 64 ≤ page.toNat / 64 := by
  induction n generalizing state with
  | zero => omega
  | succ n ih =>
      have nBound : n ≤ bitmapGroups := Nat.le_of_succ_le bound
      unfold allocBelow
      dsimp only
      cases slot : freeSlot (state.phyBitmap (BitVec.ofNat 64 n)) with
      | some p =>
          have lower := (freeSlot_eq_some slot).1
          refine ⟨_, _, rfl, ?_⟩
          rw [pageAt_toNat nBound (by omega)]
          omega
      | none =>
          have findable' : Findable (state.touch (.bitmap (BitVec.ofNat 64 n))) other :=
            ⟨findable.below, findable.lower, findable.clear⟩
          apply ih nBound findable'
          rcases Nat.lt_or_eq_of_le (Nat.le_of_lt_succ inside) with lower | same
          · exact lower
          · have group : groupOf other = BitVec.ofNat 64 n := by
              apply BitVec.eq_of_toNat_eq
              have small := other.isLt
              rw [groupOf_toNat, BitVec.toNat_ofNat, same, Nat.mod_eq_of_lt (by omega)]
            have found : (freeSlot (state.phyBitmap (BitVec.ofNat 64 n))).isSome = true := by
              apply freeSlot_isSome (p := (slotOf other).toNat) findable.lower
              intro j inGroup bit
              have masked : Masks other (pageAt n j) := by
                apply of_decide_eq_true
                rw [← mask_eq_masks, groupOf_pageAt nBound inGroup, slotOf_pageAt nBound inGroup,
                  bit, group, decide_eq_true rfl]
                rfl
              have free := findable.clear _ masked
              rwa [inUse, groupOf_pageAt nBound inGroup, slotOf_pageAt nBound inGroup] at free
            rw [slot] at found
            cases found

/-- A frame that is returned could be found, and is the first of its group if that is
free. -/
theorem allocBelow_findable {n : Nat} (bound : n ≤ bitmapGroups)
    (found : state.allocBelow n = (after, some page)) :
    Findable state page ∧ ∀ first : Word, first.toNat = page.toNat / 64 * 64 →
      state.inUse first = false → page = first := by
  have allocated := allocBelow_eq_some bound found
  refine ⟨⟨allocated.below, allocated.lower, (allocBelow_marks bound found).2.1⟩, ?_⟩
  intro first start free
  induction n generalizing state with
  | zero => cases found
  | succ n ih =>
      have nBound : n ≤ bitmapGroups := Nat.le_of_succ_le bound
      unfold allocBelow at found
      dsimp only at found
      cases slot : freeSlot (state.phyBitmap (BitVec.ofNat 64 n)) with
      | none =>
          rw [slot] at found
          have free' : (state.touch (.bitmap (BitVec.ofNat 64 n))).inUse first = false := free
          exact ih nBound found (allocBelow_eq_some nBound found) free'
      | some p =>
          rw [slot] at found
          have inGroup : p < 64 := by
            have lower := (freeSlot_eq_some slot).1
            omega
          obtain ⟨_, samePage⟩ := Prod.mk.inj found
          obtain rfl : pageAt n p = page := Option.some.inj samePage
          rw [pageAt_toNat nBound inGroup] at start
          have same : first = pageAt n 0 := by
            apply BitVec.eq_of_toNat_eq
            rw [pageAt_toNat nBound (by decide), start]
            omega
          rw [same, inUse, groupOf_pageAt nBound (by decide), slotOf_pageAt nBound (by decide)]
            at free
          rw [same, freeSlot_zero slot free]

/-- Out of memory is never reported: where no frame can be found, the scan runs on below
the bitmap.  A free frame is returned if one can be found, other than frame zero. -/
theorem reports_iff (state : PhyAlloc) : Reports state ↔
    ∃ page, page ≠ 0 ∧ Findable state page ∧ (state.inUse 0 = false → 64 ≤ page.toNat) := by
  constructor
  · rintro ⟨after, page, found, zero, _, _⟩
    have allocated := allocBelow_eq_some (Nat.le_refl _) found
    have nonzero : page ≠ 0 := by
      intro none
      have used := zero.mp none page allocated.below
      rw [allocated.wasFree] at used
      cases used
    rcases allocBelow_findable (Nat.le_refl _) found with ⟨findable, first⟩
    refine ⟨page, nonzero, findable, fun free => ?_⟩
    by_contra low
    exact nonzero (first 0 (by simp; omega) free)
  · rintro ⟨other, nonzero, findable, place⟩
    have group : other.toNat / 64 < bitmapGroups := by
      have below := findable.below
      simp only [pagesPerGroup] at below
      omega
    rcases allocBelow_isSome (Nat.le_refl _) findable group with ⟨after, page, found, above⟩
    have allocated := allocBelow_eq_some (Nat.le_refl _) found
    have nonzero' : page ≠ 0 := by
      rintro rfl
      have far := place allocated.wasFree
      simp at above
      omega
    refine ⟨after, page, found, ⟨fun zero => absurd zero nonzero', fun all => ?_⟩,
      fun zero => absurd zero nonzero', fun _ => ⟨allocated.below, allocated.wasFree⟩⟩
    have used := all page allocated.below
    rw [allocated.wasFree] at used
    cases used

/-- Nothing is free, or frame 104 alone. -/
theorem full_not_reports : ¬ Reports ⟨fun _ => BitVec.allOnes 64, fun _ _ => 0, []⟩ ∧
    ¬ Reports ⟨fun group => if group = 1 then ~~~wordBit 40 else BitVec.allOnes 64,
      fun _ _ => 0, []⟩ := by
  constructor
  · rintro ⟨after, page, found, _⟩
    have none : (mmPhyAllocPage ⟨fun _ => BitVec.allOnes 64, fun _ _ => 0, []⟩).2 = none := by
      decide +kernel
    rw [found] at none
    cases none
  · rintro ⟨after, page, found, _⟩
    have none : (mmPhyAllocPage ⟨fun group => if group = 1 then ~~~wordBit 40
        else BitVec.allOnes 64, fun _ _ => 0, []⟩).2 = none := by
      decide +kernel
    rw [found] at none
    cases none

end Sbrocks.Mmu.PhyAlloc
