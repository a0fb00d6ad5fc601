import Sbrocks.Mmu.FrameBitmap

/-!
# Which indices the allocator uses

The bitmap has one bit for each of 508 groups of frames, the reference counts
only cover the first 64 groups.  Every operation is described by the exact
condition under which its own accesses stay inside the declared arrays, and a
whole run is in bounds exactly when every step meets its condition.
-/

namespace Sbrocks.Mmu

/-- The declared sizes of `refcount[64][64]`, in each dimension. -/
def refcountSize : Nat := 64

/-- The index, or pair of indices, lies inside the declared array. -/
def Access.InBounds : Access → Prop
  | .bitmap group => group.toNat < bitmapGroups
  | .refcount group slot => group.toNat < refcountSize ∧ slot.toNat < refcountSize

instance (access : Access) : Decidable access.InBounds := by
  cases access <;> unfold Access.InBounds <;> infer_instance

namespace PhyAlloc

/-- Every recorded access lies inside the declared arrays. -/
def InBounds (state : PhyAlloc) : Prop :=
  ∀ access ∈ state.accesses, access.InBounds

instance (state : PhyAlloc) : Decidable state.InBounds :=
  inferInstanceAs (Decidable (∀ access ∈ state.accesses, access.InBounds))

/-! ## Single operations -/

theorem inBounds_touch (state : PhyAlloc) (access : Access) :
    (state.touch access).InBounds ↔ access.InBounds ∧ state.InBounds := by
  simp [InBounds, touch]

theorem inBounds_setBitmap (state : PhyAlloc) (group value : Word) :
    (state.setBitmap group value).InBounds ↔
      group.toNat < bitmapGroups ∧ state.InBounds := by
  simp [InBounds, setBitmap, Access.InBounds]

theorem inBounds_setRefcount (state : PhyAlloc) (group slot value : Word) :
    (state.setRefcount group slot value).InBounds ↔
      (group.toNat < refcountSize ∧ slot.toNat < refcountSize) ∧ state.InBounds := by
  simp [InBounds, setRefcount, Access.InBounds]

theorem inBounds_mmPhyInit (state : PhyAlloc) : state.mmPhyInit.InBounds ↔ state.InBounds := by
  rw [mmPhyInit, inBounds_setBitmap]
  constructor
  · rintro ⟨_, older⟩
    exact older
  · intro older
    exact ⟨by decide, older⟩

/-- A frame whose reference count is a cell of the declared array. -/
def Counted (page : Word) : Prop :=
  page.toNat < refcountSize * pagesPerGroup

instance (page : Word) : Decidable (Counted page) :=
  inferInstanceAs (Decidable (page.toNat < refcountSize * pagesPerGroup))

/-- A frame whose bit is a bit of the declared array. -/
def Tracked (page : Word) : Prop :=
  page.toNat < bitmapGroups * pagesPerGroup

private theorem groupOf_lt_iff (page : Word) (groups : Nat) :
    (groupOf page).toNat < groups ↔ page.toNat < groups * pagesPerGroup := by
  rw [groupOf_toNat]
  simp only [pagesPerGroup]
  omega

private theorem cell_inBounds_iff (page : Word) :
    ((groupOf page).toNat < refcountSize ∧ (slotOf page).toNat < refcountSize) ↔
      Counted page := by
  rw [groupOf_lt_iff]
  constructor
  · rintro ⟨counted, _⟩
    exact counted
  · intro counted
    exact ⟨counted, slotOf_lt page⟩

theorem Counted.tracked {page : Word} (counted : Counted page) : Tracked page :=
  Nat.lt_of_lt_of_le counted (by decide)

private theorem counted_zero : Counted 0 := by decide

theorem inBounds_setPageFree (state : PhyAlloc) (page : Word) :
    (state.setPageFree page).InBounds ↔ Tracked page ∧ state.InBounds := by
  rw [setPageFree]
  split
  · rw [inBounds_setBitmap, groupOf_lt_iff]
    rfl
  · rename_i zero
    obtain rfl : page = 0 := not_not.mp zero
    exact (and_iff_right counted_zero.tracked).symm

theorem inBounds_incRefCount (state : PhyAlloc) (phy : Word) :
    (state.incRefCount phy).InBounds ↔ Counted (mmPhyToPage phy) ∧ state.InBounds := by
  simp only [incRefCount]
  split
  · rw [inBounds_setRefcount, cell_inBounds_iff]
  · rename_i zero
    rw [not_not.mp zero]
    exact (and_iff_right counted_zero).symm

theorem inBounds_decRefCount (state : PhyAlloc) (phy : Word) :
    (state.decRefCount phy).InBounds ↔ Counted (mmPhyToPage phy) ∧ state.InBounds := by
  simp only [decRefCount]
  split
  · split
    · rw [inBounds_setPageFree, inBounds_setRefcount, cell_inBounds_iff]
      constructor
      · rintro ⟨_, inside⟩
        exact inside
      · intro inside
        exact ⟨inside.1.tracked, inside⟩
    · rw [inBounds_setRefcount, cell_inBounds_iff]
  · rename_i zero
    rw [not_not.mp zero]
    exact (and_iff_right counted_zero).symm

theorem inBounds_mmPhyFreePage (state : PhyAlloc) (page : Word) :
    (state.mmPhyFreePage page).InBounds ↔ Counted page ∧ state.InBounds := by
  rw [mmPhyFreePage]
  split
  · rename_i zero
    rw [zero]
    exact (and_iff_right counted_zero).symm
  · rw [inBounds_setRefcount, cell_inBounds_iff, inBounds_setPageFree]
    constructor
    · rintro ⟨counted, _, older⟩
      exact ⟨counted, older⟩
    · rintro ⟨counted, older⟩
      exact ⟨counted, counted.tracked, older⟩

/-- Marking a frame touches its bit and its reference count.  The address
`page * 4096` does not wrap for a frame of the address space. -/
theorem inBounds_setPageUsed (state : PhyAlloc) {page : Word} (small : page.toNat < 2 ^ 52) :
    (state.setPageUsed page).InBounds ↔ Counted page ∧ state.InBounds := by
  rw [setPageUsed]
  split
  · rw [inBounds_incRefCount, mmPhyToPage_mmPageToPhy small, inBounds_setBitmap,
      groupOf_lt_iff]
    constructor
    · rintro ⟨counted, _, older⟩
      exact ⟨counted, older⟩
    · rintro ⟨counted, older⟩
      exact ⟨counted, counted.tracked, older⟩
  · rename_i zero
    obtain rfl : page = 0 := not_not.mp zero
    exact (and_iff_right counted_zero).symm

/-! ## Page loops -/

/-- A page loop whose round at a frame is in bounds exactly below `limit` is in
bounds exactly when it is empty or ends at or below `limit`. -/
theorem inBounds_forPages {body : PhyAlloc → Word → PhyAlloc} {limit : Nat}
    (round : ∀ state i, (body state i).InBounds ↔
      (mmPhyToPage i).toNat < limit ∧ state.InBounds)
    {stop : Word} {last : Nat} (stopPage : stop.toNat = 4096 * last) {fuel first : Nat}
    (enough : last ≤ first + fuel) {i : Word} (page : i.toNat = 4096 * first)
    (state : PhyAlloc) :
    (forPages body stop fuel i state).InBounds ↔
      (first < last → last ≤ limit) ∧ state.InBounds := by
  induction fuel generalizing first i state with
  | zero =>
      rw [forPages]
      have empty : ¬ first < last := by omega
      simp [empty]
  | succ fuel ih =>
      have stopBound := stop.isLt
      rw [forPages]
      split
      · rename_i inside
        have inside' := BitVec.lt_def.mp inside
        have next : (i + pageSize).toNat = 4096 * (first + 1) := by
          rw [BitVec.toNat_add, pageSize_toNat]
          omega
        have current : (mmPhyToPage i).toNat = first := by
          rw [mmPhyToPage_toNat]
          omega
        rw [ih (by omega) next, round, current, ← and_assoc]
        apply and_congr_left
        intro _
        omega
      · rename_i outside
        have outside' : ¬ i.toNat < stop.toNat := fun below => outside (BitVec.lt_def.mpr below)
        have empty : ¬ first < last := by omega
        simp [empty]

/-- The page range from `ALIGN_DOWN(first)` to `ALIGN_UP(stop)` is empty or ends
at or below frame number `limit`. -/
def RangeFits (limit : Nat) (first stop : Word) : Prop :=
  (alignDown first).toNat / 4096 < (alignUp stop).toNat / 4096 →
    (alignUp stop).toNat / 4096 ≤ limit

instance (limit : Nat) (first stop : Word) : Decidable (RangeFits limit first stop) :=
  inferInstanceAs (Decidable (_ → _))

/-- The region given to `mm_phy_map` fits the bitmap. -/
def MapFits (base length : Word) : Prop :=
  RangeFits (bitmapGroups * pagesPerGroup) base (base + length)

instance (base length : Word) : Decidable (MapFits base length) :=
  inferInstanceAs (Decidable (RangeFits _ _ _))

/-- The range given to `mark_kernel_pages` fits the reference counts. -/
def MarkFits (startaddr endaddr : Word) : Prop :=
  RangeFits (refcountSize * pagesPerGroup) startaddr endaddr

instance (startaddr endaddr : Word) : Decidable (MarkFits startaddr endaddr) :=
  inferInstanceAs (Decidable (RangeFits _ _ _))

private theorem last_page_lt (stop : Word) (first : Nat) :
    stop.toNat / 4096 ≤ first + 2 ^ 52 := by
  have bound := stop.isLt
  omega

theorem inBounds_mmPhyMap (state : PhyAlloc) (base length : Word) :
    (state.mmPhyMap base length).InBounds ↔ MapFits base length ∧ state.InBounds :=
  inBounds_forPages (fun state _ => inBounds_setPageFree state _) (alignUp_multiple _)
    (last_page_lt _ _) (alignDown_multiple _) state

theorem inBounds_markKernelPages (state : PhyAlloc) (startaddr endaddr : Word) :
    (state.markKernelPages startaddr endaddr).InBounds ↔
      MarkFits startaddr endaddr ∧ state.InBounds := by
  have small : ∀ i : Word, (mmPhyToPage i).toNat < 2 ^ 52 := by
    intro i
    have bound := i.isLt
    rw [mmPhyToPage_toNat]
    omega
  rw [markKernelPages, inBounds_setBitmap, inBounds_forPages
    (fun state i => inBounds_setPageUsed state (small i)) (alignUp_multiple _)
    (last_page_lt _ _) (alignDown_multiple _) state]
  constructor
  · rintro ⟨_, inside⟩
    exact inside
  · intro inside
    exact ⟨by decide, inside⟩

/-! ## The scan -/

/-- The highest of the groups below `n` with a free position exists, and its
reference counts are cells of the declared array. -/
def ScanFits (state : PhyAlloc) (n : Nat) : Prop :=
  ∃ group < n, group < refcountSize ∧
    (freeSlot (state.phyBitmap (BitVec.ofNat 64 group))).isSome = true ∧
    ∀ above < n, group < above → freeSlot (state.phyBitmap (BitVec.ofNat 64 above)) = none

/-- The scan of `mm_phy_alloc_page` stops at a group with reference counts. -/
def AllocFits (state : PhyAlloc) : Prop :=
  ScanFits state bitmapGroups

private theorem scanFits_succ_of_some {state : PhyAlloc} {n : Nat}
    (found : (freeSlot (state.phyBitmap (BitVec.ofNat 64 n))).isSome = true) :
    ScanFits state (n + 1) ↔ n < refcountSize := by
  constructor
  · rintro ⟨group, below, counted, _, noneAbove⟩
    rcases Nat.lt_or_eq_of_le (Nat.le_of_lt_succ below) with lower | rfl
    · rw [noneAbove n (Nat.lt_succ_self n) lower] at found
      contradiction
    · exact counted
  · intro counted
    exact ⟨n, Nat.lt_succ_self n, counted, found, fun above below higher => by omega⟩

private theorem scanFits_succ_of_none {state : PhyAlloc} {n : Nat}
    (full : freeSlot (state.phyBitmap (BitVec.ofNat 64 n)) = none) :
    ScanFits state (n + 1) ↔ ScanFits state n := by
  constructor
  · rintro ⟨group, below, counted, found, noneAbove⟩
    rcases Nat.lt_or_eq_of_le (Nat.le_of_lt_succ below) with lower | rfl
    · exact ⟨group, lower, counted, found,
        fun above aboveBelow => noneAbove above (Nat.lt_succ_of_lt aboveBelow)⟩
    · rw [full] at found
      contradiction
  · rintro ⟨group, below, counted, found, noneAbove⟩
    refine ⟨group, Nat.lt_succ_of_lt below, counted, found, ?_⟩
    intro above aboveBelow higher
    rcases Nat.lt_or_eq_of_le (Nat.le_of_lt_succ aboveBelow) with lower | rfl
    · exact noneAbove above lower higher
    · exact full

theorem inBounds_allocBelow {n : Nat} (bound : n ≤ bitmapGroups) (state : PhyAlloc) :
    (state.allocBelow n).1.InBounds ↔ ScanFits state n ∧ state.InBounds := by
  induction n generalizing state with
  | zero =>
      constructor
      · intro inside
        have outside := ((inBounds_touch _ _).mp inside).1
        exact absurd outside (by decide)
      · rintro ⟨⟨group, below, _⟩, _⟩
        exact absurd below (Nat.not_lt_zero group)
  | succ n ih =>
      have nBound : n ≤ bitmapGroups := Nat.le_of_succ_le bound
      have inBitmap : (BitVec.ofNat 64 n).toNat < bitmapGroups := by
        rw [BitVec.toNat_ofNat]
        exact Nat.lt_of_le_of_lt (Nat.mod_le _ _) bound
      unfold allocBelow
      dsimp only
      cases slot : freeSlot (state.phyBitmap (BitVec.ofNat 64 n)) with
      | none =>
          have same : ScanFits (state.touch (.bitmap (BitVec.ofNat 64 n))) n ↔
              ScanFits state n := Iff.rfl
          dsimp only
          rw [ih nBound, inBounds_touch, same, scanFits_succ_of_none slot]
          exact and_congr_right fun _ => and_iff_right inBitmap
      | some p =>
          have inGroup : p < 64 := by
            have lower := (freeSlot_eq_some slot).1
            omega
          have small : (pageAt n p).toNat < 2 ^ 52 := by
            rw [pageAt_toNat nBound inGroup]
            simp only [bitmapGroups, pageMax] at nBound
            omega
          have counted : Counted (pageAt n p) ↔ n < refcountSize := by
            rw [Counted, pageAt_toNat nBound inGroup]
            simp only [pagesPerGroup]
            omega
          dsimp only
          rw [inBounds_incRefCount, mmPhyToPage_mmPageToPhy small, counted, inBounds_setBitmap,
            inBounds_touch, scanFits_succ_of_some (by rw [slot]; rfl)]
          apply and_congr_right
          intro _
          exact (and_iff_right inBitmap).trans (and_iff_right inBitmap)

theorem inBounds_mmPhyAllocPage (state : PhyAlloc) :
    state.mmPhyAllocPage.1.InBounds ↔ AllocFits state ∧ state.InBounds :=
  inBounds_allocBelow (Nat.le_refl _) state

/-- An allocation inside the bounds returns a counted frame. -/
theorem counted_of_mmPhyAllocPage {state after : PhyAlloc} {page : Word}
    (found : state.mmPhyAllocPage = (after, some page)) (inside : after.InBounds) :
    Counted page := by
  have counted : ∀ n ≤ bitmapGroups, ∀ state : PhyAlloc,
      state.allocBelow n = (after, some page) → Counted page := by
    intro n
    induction n with
    | zero =>
        intro _ state scan
        simp [allocBelow] at scan
    | succ n ih =>
        intro bound state scan
        have nBound : n ≤ bitmapGroups := Nat.le_of_succ_le bound
        unfold allocBelow at scan
        dsimp only at scan
        split at scan
        · rename_i p slot
          obtain ⟨rfl, samePage⟩ := Prod.mk.inj scan
          obtain rfl : pageAt n p = page := Option.some.inj samePage
          have inGroup : p < 64 := by
            have lower := (freeSlot_eq_some slot).1
            omega
          have cell := ((inBounds_incRefCount _ _).mp inside).1
          rwa [mmPhyToPage_mmPageToPhy] at cell
          rw [pageAt_toNat nBound inGroup]
          simp only [bitmapGroups, pageMax] at nBound
          omega
        · exact ih nBound _ scan
  exact counted bitmapGroups (Nat.le_refl _) state found

/-! ## Runs -/

/-- A call of the allocator's interface. -/
inductive TableOp where
  | map (base length : Word)
  | mark (startaddr endaddr : Word)
  | alloc
  | inc (phy : Word)
  | dec (phy : Word)
  | free (page : Word)
  deriving DecidableEq

/-- The state after a call. -/
def perform (state : PhyAlloc) : TableOp → PhyAlloc
  | .map base length => state.mmPhyMap base length
  | .mark startaddr endaddr => state.markKernelPages startaddr endaddr
  | .alloc => state.mmPhyAllocPage.1
  | .inc phy => state.incRefCount phy
  | .dec phy => state.decRefCount phy
  | .free page => state.mmPhyFreePage page

/-- The state after a sequence of calls. -/
def performAll (state : PhyAlloc) (ops : List TableOp) : PhyAlloc :=
  ops.foldl perform state

/-- The pages returned once the call is done. -/
def returnedBy (state : PhyAlloc) (returned : List Word) : TableOp → List Word
  | .alloc => state.mmPhyAllocPage.2.toList ++ returned
  | _ => returned

/-- Reference counts and frees are about pages the allocator returned. -/
def OnReturned (returned : List Word) : TableOp → Prop
  | .inc phy | .dec phy => mmPhyToPage phy ∈ returned
  | .free page => page ∈ returned
  | _ => True

instance (returned : List Word) (op : TableOp) : Decidable (OnReturned returned op) := by
  cases op <;> unfold OnReturned <;> infer_instance

/-- Every call of the sequence is about pages returned before it. -/
def Disciplined (state : PhyAlloc) (returned : List Word) : List TableOp → Prop
  | [] => True
  | op :: ops => OnReturned returned op ∧
      Disciplined (state.perform op) (state.returnedBy returned op) ops

instance decidableDisciplined : (state : PhyAlloc) → (returned : List Word) →
    (ops : List TableOp) → Decidable (Disciplined state returned ops)
  | _, _, [] => inferInstanceAs (Decidable True)
  | state, returned, op :: ops =>
      have := decidableDisciplined (state.perform op) (state.returnedBy returned op) ops
      inferInstanceAs (Decidable (_ ∧ _))

/-- The call meets the table sizes: the mapped region ends inside the bitmap,
the marked range ends inside the reference counts, and the scan stops at a group
with reference counts. -/
def Fits (state : PhyAlloc) : TableOp → Prop
  | .map base length => MapFits base length
  | .mark startaddr endaddr => MarkFits startaddr endaddr
  | .alloc => AllocFits state
  | _ => True

/-- Every call of the sequence meets the table sizes in the state it finds. -/
def AllFit (state : PhyAlloc) : List TableOp → Prop
  | [] => True
  | op :: ops => Fits state op ∧ AllFit (state.perform op) ops

/-- One call, given that the pages returned so far have reference counts. -/
theorem inBounds_perform {state : PhyAlloc} {returned : List Word} {op : TableOp}
    (counted : ∀ page ∈ returned, Counted page) (onReturned : OnReturned returned op) :
    (state.perform op).InBounds ↔ Fits state op ∧ state.InBounds := by
  cases op with
  | map base length => exact inBounds_mmPhyMap state base length
  | mark startaddr endaddr => exact inBounds_markKernelPages state startaddr endaddr
  | alloc => exact inBounds_mmPhyAllocPage state
  | inc phy =>
      exact (inBounds_incRefCount state phy).trans
        (and_congr_left' (iff_true_intro (counted _ onReturned)))
  | dec phy =>
      exact (inBounds_decRefCount state phy).trans
        (and_congr_left' (iff_true_intro (counted _ onReturned)))
  | free page =>
      exact (inBounds_mmPhyFreePage state page).trans
        (and_congr_left' (iff_true_intro (counted _ onReturned)))

theorem counted_returnedBy {state : PhyAlloc} {returned : List Word} {op : TableOp}
    (counted : ∀ page ∈ returned, Counted page) (inside : (state.perform op).InBounds) :
    ∀ page ∈ state.returnedBy returned op, Counted page := by
  cases op with
  | alloc =>
      intro page member
      rcases List.mem_append.mp member with fresh | older
      · have found : state.mmPhyAllocPage.2 = some page := by simpa using fresh
        exact counted_of_mmPhyAllocPage (Prod.ext rfl found) inside
      · exact counted page older
  | _ => exact counted

/-- Accesses are never taken back by a call. -/
theorem InBounds.of_perform {state : PhyAlloc} {op : TableOp}
    (inside : (state.perform op).InBounds) : state.InBounds := by
  cases op with
  | map base length => exact ((inBounds_mmPhyMap state base length).mp inside).2
  | mark startaddr endaddr => exact ((inBounds_markKernelPages state startaddr endaddr).mp inside).2
  | alloc => exact ((inBounds_mmPhyAllocPage state).mp inside).2
  | inc phy => exact ((inBounds_incRefCount state phy).mp inside).2
  | dec phy => exact ((inBounds_decRefCount state phy).mp inside).2
  | free page => exact ((inBounds_mmPhyFreePage state page).mp inside).2

theorem InBounds.of_performAll {state : PhyAlloc} {ops : List TableOp}
    (inside : (state.performAll ops).InBounds) : state.InBounds := by
  induction ops generalizing state with
  | nil => exact inside
  | cons op ops ih => exact (ih inside).of_perform

/-- A disciplined sequence of calls is in bounds exactly when each of them
fits. -/
theorem inBounds_performAll {state : PhyAlloc} {returned : List Word} {ops : List TableOp}
    (disciplined : Disciplined state returned ops)
    (counted : ∀ page ∈ returned, Counted page) :
    (state.performAll ops).InBounds ↔ AllFit state ops ∧ state.InBounds := by
  induction ops generalizing state returned with
  | nil => exact (and_iff_right trivial).symm
  | cons op ops ih =>
      obtain ⟨onReturned, later⟩ := disciplined
      have now : (state.perform op).InBounds ↔ Fits state op ∧ state.InBounds :=
        inBounds_perform counted onReturned
      constructor
      · intro inside
        have first : (state.perform op).InBounds :=
          InBounds.of_performAll inside
        have rest := (ih later (counted_returnedBy counted first)).mp inside
        exact ⟨⟨(now.mp first).1, rest.1⟩, (now.mp first).2⟩
      · rintro ⟨⟨fits, rest⟩, inside⟩
        have first := now.mpr ⟨fits, inside⟩
        exact (ih later (counted_returnedBy counted first)).mpr ⟨rest, first⟩

/-- Every region that `start` makes available fits the bitmap. -/
def SmapFits (smap : List Smap) : Prop :=
  ∀ entry ∈ smap, entry.type = 1 ∧ entry.length ≠ 0 → MapFits entry.base entry.length

theorem inBounds_start (state : PhyAlloc) (smap : List Smap) (physbase physfree : Word) :
    (state.start smap physbase physfree).InBounds ↔
      (SmapFits smap ∧ MarkFits physbase physfree) ∧ state.InBounds := by
  have regions : ∀ state : PhyAlloc,
      (smap.foldl (fun state entry =>
        if entry.type = 1 ∧ entry.length ≠ 0 then state.mmPhyMap entry.base entry.length
        else state) state).InBounds ↔ SmapFits smap ∧ state.InBounds := by
    induction smap with
    | nil => simp [SmapFits]
    | cons entry smap ih =>
        intro state
        rw [List.foldl_cons, ih]
        by_cases available : entry.type = 1 ∧ entry.length ≠ 0
        · rw [if_pos available, inBounds_mmPhyMap]
          simp only [SmapFits, List.forall_mem_cons, available]
          tauto
        · rw [if_neg available]
          simp only [SmapFits, List.forall_mem_cons, available, false_imp_iff, true_and]
  rw [start, inBounds_markKernelPages, regions, inBounds_mmPhyInit]
  tauto

/-- The tables as the kernel image holds them before `start`. -/
def staticTables : PhyAlloc :=
  ⟨fun _ => 0, fun _ _ => 0, []⟩

/-- From the static tables through `start` and any disciplined sequence of
calls, every index lies inside its array exactly when the memory map fits the
bitmap, the kernel range fits the reference counts and every call fits. -/
theorem start_performAll_inBounds_iff (smap : List Smap) (physbase physfree : Word)
    (ops : List TableOp)
    (disciplined : Disciplined (staticTables.start smap physbase physfree) [] ops) :
    (∀ access ∈ ((staticTables.start smap physbase physfree).performAll ops).accesses,
        access.InBounds) ↔
      SmapFits smap ∧ MarkFits physbase physfree ∧
        AllFit (staticTables.start smap physbase physfree) ops := by
  have run := inBounds_performAll disciplined fun _ member => absurd member List.not_mem_nil
  have boot := inBounds_start staticTables smap physbase physfree
  have empty : staticTables.InBounds := fun _ member => absurd member List.not_mem_nil
  refine run.trans ?_
  rw [boot]
  tauto

/-- Two frames at 8 KiB: one is allocated, gains a reference and is freed. -/
theorem start_performAll_inBounds_iff_low_memory :
    (∀ access ∈ ((staticTables.start [⟨0x2000, 0x2000, 1⟩] 0x1000 0x1800).performAll
        [.alloc, .inc 0x2000, .free 2]).accesses, access.InBounds) ↔
      SmapFits [⟨0x2000, 0x2000, 1⟩] ∧ MarkFits 0x1000 0x1800 ∧
        AllFit (staticTables.start [⟨0x2000, 0x2000, 1⟩] 0x1000 0x1800)
          [.alloc, .inc 0x2000, .free 2] :=
  start_performAll_inBounds_iff _ _ _ _ (by decide +kernel)

/-- With memory at 16 MiB available, the first allocation counts a reference to
frame 4096, in the cell `refcount[64][0]` outside the array. -/
theorem start_performAll_not_inBounds :
    ∃ smap physbase physfree ops,
      Disciplined (staticTables.start smap physbase physfree) [] ops ∧
      ¬ ∀ access ∈ ((staticTables.start smap physbase physfree).performAll ops).accesses,
        access.InBounds :=
  ⟨[⟨0x1000000, 0x1000, 1⟩], 0x200000, 0x201000, [.alloc], by decide +kernel,
    by decide +kernel⟩

end PhyAlloc

end Sbrocks.Mmu
