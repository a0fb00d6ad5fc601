import Sbrocks.Mmu.PhyAlloc

/-!
# The bitmap as a set of frames

Each operation of the allocator is described by its effect on the bits of
single frames.  Freeing clears exactly one bit.  Marking may set further bits,
but it never clears one, and it does set the bit of the frame itself whenever
the frame stands in the lower half of its group; the scan only ever returns
such frames.
-/

namespace Sbrocks.Mmu.PhyAlloc

/-- The bit of a frame in `phy_bitmap`. -/
def inUse (state : PhyAlloc) (page : Word) : Bool :=
  (state.phyBitmap (groupOf page)).getLsbD (slotOf page).toNat

/-- The frame stands in the lower half of its group, the half that the signed
masks address faithfully. -/
def LowerHalf (page : Word) : Prop :=
  page.toNat % 64 < 32

instance (page : Word) : Decidable (LowerHalf page) :=
  inferInstanceAs (Decidable (page.toNat % 64 < 32))

theorem groupOf_toNat (page : Word) : (groupOf page).toNat = page.toNat / 64 := rfl

theorem slotOf_toNat (page : Word) : (slotOf page).toNat = page.toNat % 64 := rfl

theorem slotOf_lt (page : Word) : (slotOf page).toNat < 64 := by
  rw [slotOf_toNat]
  omega

theorem page_eq_of_group_slot {first second : Word} (group : groupOf first = groupOf second)
    (slot : (slotOf first).toNat = (slotOf second).toNat) : first = second := by
  apply BitVec.eq_of_toNat_eq
  have groups := congrArg BitVec.toNat group
  rw [groupOf_toNat, groupOf_toNat] at groups
  rw [slotOf_toNat, slotOf_toNat] at slot
  omega

@[simp]
theorem inUse_touch (state : PhyAlloc) (access : Access) (page : Word) :
    (state.touch access).inUse page = state.inUse page :=
  rfl

@[simp]
theorem inUse_setRefcount (state : PhyAlloc) (group slot value page : Word) :
    (state.setRefcount group slot value).inUse page = state.inUse page :=
  rfl

theorem inUse_setBitmap (state : PhyAlloc) (group value page : Word) :
    (state.setBitmap group value).inUse page =
      if groupOf page = group then value.getLsbD (slotOf page).toNat
      else state.inUse page := by
  by_cases same : groupOf page = group
  · simp [inUse, setBitmap, same]
  · simp [inUse, setBitmap, same]

/-- Or-ing a mask into a group sets the masked bits and keeps all others. -/
theorem inUse_setBitmap_or (state : PhyAlloc) (group mask page : Word) :
    (state.setBitmap group (state.phyBitmap group ||| mask)).inUse page =
      (state.inUse page || (decide (groupOf page = group) &&
        mask.getLsbD (slotOf page).toNat)) := by
  rw [inUse_setBitmap]
  by_cases same : groupOf page = group
  · simp [same, inUse]
  · simp [same]

@[simp]
theorem inUse_incRefCount (state : PhyAlloc) (phy page : Word) :
    (state.incRefCount phy).inUse page = state.inUse page := by
  unfold incRefCount
  dsimp only
  split <;> simp

/-- Freeing clears the bit of the frame and no other bit. -/
theorem inUse_setPageFree (state : PhyAlloc) (freed page : Word) :
    (state.setPageFree freed).inUse page =
      (state.inUse page && !(decide (page = freed) && decide (freed ≠ 0))) := by
  unfold setPageFree
  by_cases zero : freed = 0
  · simp [zero]
  · rw [if_pos zero, inUse_setBitmap]
    by_cases group : groupOf page = groupOf freed
    · rw [if_pos group, BitVec.getLsbD_and, BitVec.getLsbD_not,
        wordBit_getLsbD (slotOf_lt page)]
      by_cases slot : (slotOf page).toNat = (slotOf freed).toNat
      · have equal := page_eq_of_group_slot group slot
        simp only [equal, zero, decide_true, ne_eq, not_false_eq_true, Bool.and_self,
          Bool.not_true, Bool.and_false]
      · have different : page ≠ freed := fun equal => slot (by rw [equal])
        simp [slot, different, slotOf_lt page, inUse, group]
    · have different : page ≠ freed := fun equal => group (by rw [equal])
      simp [group, different]

theorem inUse_mmPhyFreePage (state : PhyAlloc) (freed page : Word) :
    (state.mmPhyFreePage freed).inUse page =
      (state.inUse page && !(decide (page = freed) && decide (freed ≠ 0))) := by
  unfold mmPhyFreePage
  by_cases zero : freed = 0
  · simp [zero]
  · rw [if_neg zero, inUse_setRefcount, inUse_setPageFree]

/-- Whether dropping a reference to this frame drops the last one. -/
def DropsLast (state : PhyAlloc) (page : Word) : Prop :=
  state.refcount (groupOf page) (slotOf page) = 1

instance (state : PhyAlloc) (page : Word) : Decidable (state.DropsLast page) :=
  inferInstanceAs (Decidable (state.refcount (groupOf page) (slotOf page) = 1))

/-- Dropping a reference clears at most the bit of the frame itself, and only
with the last reference. -/
theorem inUse_decRefCount (state : PhyAlloc) (phy page : Word) :
    (state.decRefCount phy).inUse page =
      (state.inUse page && !(decide (page = mmPhyToPage phy) &&
        decide (mmPhyToPage phy ≠ 0) && decide (state.DropsLast (mmPhyToPage phy)))) := by
  unfold decRefCount
  dsimp only
  generalize mmPhyToPage phy = dropped
  by_cases zero : dropped = 0
  · simp [zero]
  · have counted : ∀ count : Word, count - 1 = 0 ↔ count = 1 := by
      intro count
      constructor
      · intro last
        bv_omega
      · rintro rfl
        rfl
    rw [if_pos zero]
    by_cases last : state.DropsLast dropped
    · have falls : state.refcount (groupOf dropped) (slotOf dropped) - 1 = 0 :=
        (counted _).mpr last
      simp only [setRefcount, Function.update_self, falls, if_true]
      rw [inUse_setPageFree]
      simp [last, inUse]
    · have stays : state.refcount (groupOf dropped) (slotOf dropped) - 1 ≠ 0 :=
        fun falls => last ((counted _).mp falls)
      simp only [setRefcount, Function.update_self, stays, if_false]
      simp [last, inUse]

/-- Marking a frame used never clears a bit. -/
theorem inUse_setPageUsed_of_inUse {state : PhyAlloc} {page : Word} (used : state.inUse page)
    (marked : Word) : (state.setPageUsed marked).inUse page := by
  unfold setPageUsed
  split
  · rw [inUse_incRefCount, inUse_setBitmap_or, used, Bool.true_or]
  · exact used

private theorem intBit_self {p : Nat} (lower : p < 32) : (intBit p).getLsbD p = true := by
  rw [intBit_getLsbD (by omega), Nat.mod_eq_of_lt lower]
  by_cases top : p = 31 <;> simp [top]

/-- A lower-half frame gets its own bit set. -/
theorem inUse_setPageUsed_self (state : PhyAlloc) {page : Word} (nonzero : page ≠ 0)
    (lower : LowerHalf page) : (state.setPageUsed page).inUse page := by
  unfold setPageUsed
  rw [if_pos nonzero, inUse_incRefCount, inUse_setBitmap_or,
    intBit_self (p := (slotOf page).toNat) lower]
  simp

/-! ## The scan -/

/-- The inner loop stops at a position of the lower half whose whole signed mask
is clear: a position from 32 on has the mask of one tried before. -/
theorem freeSlot_eq_some {group : Word} {p : Nat} (found : freeSlot group = some p) :
    p < 32 ∧ ∀ j < 64, (intBit p).getLsbD j = true → group.getLsbD j = false := by
  unfold freeSlot at found
  split at found
  · obtain ⟨clear, inRange, earlier⟩ := List.find?_range_eq_some.mp found
    have maskClear : group &&& intBit p = 0 := by simpa using clear
    constructor
    · by_contra upper
      have sameMask : intBit (p - 32) = intBit p := by
        have inGroup : p < 64 := by simpa [pagesPerGroup] using inRange
        have modulo : (p - 32) % 32 = p % 32 := by omega
        simp only [intBit, modulo]
      have tried := earlier (p - 32) (by omega)
      simp [sameMask, maskClear] at tried
    · intro j _ inMask
      have bit := congrArg (fun word => BitVec.getLsbD word j) maskClear
      simpa [inMask] using bit
  · contradiction

/-- A word whose scan succeeds has the found bit clear. -/
theorem freeSlot_bit_clear {group : Word} {p : Nat} (found : freeSlot group = some p) :
    group.getLsbD p = false := by
  obtain ⟨lower, clear⟩ := freeSlot_eq_some found
  exact clear p (by omega) (intBit_self lower)

theorem pageAt_toNat {n p : Nat} (nBound : n ≤ bitmapGroups) (pBound : p < 64) :
    (pageAt n p).toNat = n * 64 + p := by
  simp only [bitmapGroups, pageMax] at nBound
  simp only [pageAt, pagesPerGroup, BitVec.toNat_ofNat]
  omega

theorem groupOf_pageAt {n p : Nat} (nBound : n ≤ bitmapGroups) (pBound : p < 64) :
    groupOf (pageAt n p) = BitVec.ofNat 64 n := by
  apply BitVec.eq_of_toNat_eq
  rw [groupOf_toNat, pageAt_toNat nBound pBound, BitVec.toNat_ofNat]
  simp only [bitmapGroups, pageMax] at nBound
  omega

theorem slotOf_pageAt {n p : Nat} (nBound : n ≤ bitmapGroups) (pBound : p < 64) :
    (slotOf (pageAt n p)).toNat = p := by
  rw [slotOf_toNat, pageAt_toNat nBound pBound]
  omega

/-- What a successful allocation does: the frame is a lower-half frame whose bit
was clear and is now set, and no bit is cleared. -/
structure Allocated (before after : PhyAlloc) (page : Word) : Prop where
  lower : LowerHalf page
  below : page.toNat < bitmapGroups * pagesPerGroup
  wasFree : before.inUse page = false
  isUsed : after.inUse page = true
  keeps : ∀ other, before.inUse other = true → after.inUse other = true

theorem allocBelow_eq_some {state after : PhyAlloc} {n : Nat} {page : Word}
    (bound : n ≤ bitmapGroups) (found : state.allocBelow n = (after, some page)) :
    Allocated state after page := by
  induction n generalizing state with
  | zero => simp [allocBelow] at found
  | succ n ih =>
      unfold allocBelow at found
      dsimp only at found
      have nBound : n ≤ bitmapGroups := Nat.le_of_succ_le bound
      cases slot : freeSlot (state.phyBitmap (BitVec.ofNat 64 n)) with
      | none =>
          rw [slot] at found
          have inner := ih nBound found
          exact ⟨inner.lower, inner.below, by simpa using inner.wasFree, inner.isUsed,
            fun other used => inner.keeps other (by simpa using used)⟩
      | some p =>
          rw [slot] at found
          have lower := (freeSlot_eq_some slot).1
          have inGroup : p < 64 := by omega
          obtain ⟨rfl, samePage⟩ := Prod.mk.inj found
          obtain rfl : pageAt n p = page := Option.some.inj samePage
          have marks := inUse_setBitmap_or (state.touch (.bitmap (BitVec.ofNat 64 n)))
            (BitVec.ofNat 64 n) (intBit p)
          refine ⟨?_, ?_, ?_, ?_, ?_⟩
          · rw [LowerHalf, ← slotOf_toNat, slotOf_pageAt nBound inGroup]
            exact lower
          · rw [pageAt_toNat nBound inGroup]
            simp only [pagesPerGroup]
            omega
          · rw [inUse, groupOf_pageAt nBound inGroup, slotOf_pageAt nBound inGroup]
            exact freeSlot_bit_clear slot
          · rw [inUse_incRefCount]
            refine (marks (pageAt n p)).trans ?_
            rw [groupOf_pageAt nBound inGroup, slotOf_pageAt nBound inGroup, intBit_self lower]
            simp
          · intro other used
            rw [inUse_incRefCount]
            refine (marks other).trans ?_
            rw [inUse_touch, used, Bool.true_or]

/-- The specification of `mm_phy_alloc_page` on the bits. -/
theorem mmPhyAllocPage_eq_some {state after : PhyAlloc} {page : Word}
    (found : state.mmPhyAllocPage = (after, some page)) : Allocated state after page :=
  allocBelow_eq_some (Nat.le_refl _) found

end Sbrocks.Mmu.PhyAlloc
