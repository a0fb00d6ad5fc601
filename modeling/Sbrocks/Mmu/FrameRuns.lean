import Sbrocks.Mmu.FrameBitmap

/-!
# Runs of the frame allocator

After boot the kernel allocates frames, counts references and frees frames in
any order.  A run records, newest first, which frames were returned and which
were freed; the bitmap then has the bit of every outstanding frame set, and the
bit of every kernel frame that nobody freed.
-/

namespace Sbrocks.Mmu.PhyAlloc

/-! ## Boot -/

/-- Whatever one round of the page loop keeps, the loop keeps. -/
theorem forPages_keeps {P : PhyAlloc → Prop} {body : PhyAlloc → Word → PhyAlloc}
    (keeps : ∀ state i, P state → P (body state i)) (stop : Word) (fuel : Nat) (i : Word)
    {state : PhyAlloc} (holds : P state) : P (forPages body stop fuel i state) := by
  induction fuel generalizing i state with
  | zero => exact holds
  | succ fuel ih =>
      unfold forPages
      split
      · exact ih _ (keeps _ _ holds)
      · exact holds

/-- The loop does reach each page between its bounds: what the round at that
page establishes, and later rounds keep, holds at the end. -/
theorem forPages_reaches {P : PhyAlloc → Prop} {body : PhyAlloc → Word → PhyAlloc}
    (keeps : ∀ state i, P state → P (body state i)) {target stop : Word}
    (hits : ∀ state, P (body state target)) (below : target < stop)
    {k fuel : Nat} {i : Word} (distance : target.toNat = i.toNat + 4096 * k)
    (enough : k < fuel) (state : PhyAlloc) : P (forPages body stop fuel i state) := by
  induction k generalizing fuel i state with
  | zero =>
      obtain rfl : i = target := BitVec.eq_of_toNat_eq (by omega)
      obtain ⟨fuel, rfl⟩ := Nat.exists_eq_succ_of_ne_zero (Nat.ne_of_gt enough)
      unfold forPages
      rw [if_pos below]
      exact forPages_keeps keeps _ _ _ (hits state)
  | succ k ih =>
      obtain ⟨fuel, rfl⟩ := Nat.exists_eq_succ_of_ne_zero (Nat.ne_of_gt (Nat.zero_lt_of_lt enough))
      have targetBound := target.isLt
      have next : (i + pageSize).toNat = i.toNat + 4096 := by
        rw [BitVec.toNat_add, pageSize_toNat]
        omega
      have inside : i < stop := by
        have stopAbove := BitVec.lt_def.mp below
        exact BitVec.lt_def.mpr (by omega)
      unfold forPages
      rw [if_pos inside]
      exact ih (by omega) (Nat.lt_of_succ_lt_succ enough) _

/-- The frame meets the address range `[startaddr, endaddr)`. -/
def MeetsRange (startaddr endaddr page : Word) : Prop :=
  startaddr.toNat / 4096 ≤ page.toNat ∧ page.toNat * 4096 < endaddr.toNat

theorem inUse_markKernelPages_of_inUse {state : PhyAlloc} {page : Word}
    (used : state.inUse page) (startaddr endaddr : Word) :
    (state.markKernelPages startaddr endaddr).inUse page := by
  rw [markKernelPages, inUse_setBitmap_or, Bool.or_eq_true]
  left
  exact forPages_keeps (P := fun state => state.inUse page = true)
    (fun _ _ holds => inUse_setPageUsed_of_inUse holds _) _ _ _ used

/-- Frame zero is never available. -/
theorem inUse_markKernelPages_zero (state : PhyAlloc) (startaddr endaddr : Word) :
    (state.markKernelPages startaddr endaddr).inUse 0 := by
  rw [markKernelPages, inUse_setBitmap_or]
  simp [groupOf, slotOf]

/-- Marking the kernel image sets the bit of each lower-half frame that meets
it. -/
theorem inUse_markKernelPages_of_meetsRange (state : PhyAlloc) {startaddr endaddr page : Word}
    (room : endaddr.toNat + 4096 ≤ 2 ^ 64) (lower : LowerHalf page)
    (meets : MeetsRange startaddr endaddr page) :
    (state.markKernelPages startaddr endaddr).inUse page := by
  by_cases zero : page = 0
  · subst zero
    exact inUse_markKernelPages_zero state startaddr endaddr
  · obtain ⟨above, below⟩ := meets
    have pageBound : page.toNat < 2 ^ 52 := by omega
    have address : (mmPageToPhy page).toNat = page.toNat * 4096 := by
      rw [mmPageToPhy, BitVec.toNat_mul]
      exact Nat.mod_eq_of_lt (by simp; omega)
    have belowStop : mmPageToPhy page < alignUp endaddr := by
      rw [BitVec.lt_def, address, alignUp_toNat room]
      omega
    have distance : (mmPageToPhy page).toNat =
        (alignDown startaddr).toNat + 4096 * (page.toNat - startaddr.toNat / 4096) := by
      rw [address, alignDown_toNat]
      omega
    rw [markKernelPages, inUse_setBitmap_or, Bool.or_eq_true]
    left
    apply forPages_reaches (P := fun state => state.inUse page = true)
      (fun _ _ holds => inUse_setPageUsed_of_inUse holds _) _ belowStop distance
    · exact Nat.lt_of_le_of_lt (Nat.sub_le _ _) pageBound
    · intro state
      rw [mmPhyToPage_mmPageToPhy pageBound]
      exact inUse_setPageUsed_self state zero lower

/-! ## Runs -/

/-- What a run records of its operations. -/
inductive FrameEvent where
  | returned (page : Word)
  | freed (page : Word)
  deriving DecidableEq

/-- The frame was returned and has not been freed since, in a history whose
newest event comes first. -/
def Outstanding (page : Word) : List FrameEvent → Prop
  | [] => False
  | .returned other :: older => other = page ∨ Outstanding page older
  | .freed other :: older => other ≠ page ∧ Outstanding page older

/-- The event of `dec_ref_count`, which frees the frame with its last
reference. -/
def decEvents (state : PhyAlloc) (phy : Word) : List FrameEvent :=
  if state.DropsLast (mmPhyToPage phy) then [.freed (mmPhyToPage phy)] else []

/-- The states reached from `boot` by any sequence of allocations, reference
count changes and frees, each with its history. -/
inductive FrameRun (boot : PhyAlloc) : List FrameEvent → PhyAlloc → Prop where
  | boot : FrameRun boot [] boot
  | alloc {history : List FrameEvent} {state after : PhyAlloc} {page : Word} :
      FrameRun boot history state → state.mmPhyAllocPage = (after, some page) →
      FrameRun boot (.returned page :: history) after
  | inc {history : List FrameEvent} {state : PhyAlloc} (phy : Word) :
      FrameRun boot history state → FrameRun boot history (state.incRefCount phy)
  | dec {history : List FrameEvent} {state : PhyAlloc} (phy : Word) :
      FrameRun boot history state →
      FrameRun boot (state.decEvents phy ++ history) (state.decRefCount phy)
  | free {history : List FrameEvent} {state : PhyAlloc} (page : Word) :
      FrameRun boot history state →
      FrameRun boot (.freed page :: history) (state.mmPhyFreePage page)

/-- The bitmap accounts for a history: frame zero, every frame of `kept` that
was never freed and every outstanding frame have their bits set. -/
structure Accounted (kept : Word → Prop) (history : List FrameEvent) (state : PhyAlloc) :
    Prop where
  zero : state.inUse 0
  kept : ∀ page, kept page → .freed page ∉ history → state.inUse page
  outstanding : ∀ page, Outstanding page history → state.inUse page

/-- Freeing one frame keeps the account of the history extended by the event. -/
theorem Accounted.free {kept : Word → Prop} {history : List FrameEvent}
    {state after : PhyAlloc} {freed : Word} (accounted : Accounted kept history state)
    (bits : ∀ page, after.inUse page =
      (state.inUse page && !(decide (page = freed) && decide (freed ≠ 0)))) :
    Accounted kept (.freed freed :: history) after := by
  refine ⟨?_, ?_, ?_⟩
  · rw [bits, accounted.zero]
    by_cases equal : freed = 0
    · simp [equal]
    · rw [decide_eq_false (Ne.symm equal)]
      rfl
  · intro page pageKept notFreed
    have different : page ≠ freed := fun equal => notFreed (by simp [equal])
    have older := accounted.kept page pageKept fun mem => notFreed (List.mem_cons_of_mem _ mem)
    rw [bits, older]
    simp [different]
  · rintro page ⟨different, older⟩
    rw [bits, accounted.outstanding page older]
    simp [different.symm]

theorem FrameRun.accounted {kept : Word → Prop} {boot state : PhyAlloc}
    {history : List FrameEvent} (start : Accounted kept [] boot)
    (run : FrameRun boot history state) : Accounted kept history state := by
  induction run with
  | boot => exact start
  | alloc _ found ih =>
      have allocated := mmPhyAllocPage_eq_some found
      refine ⟨allocated.keeps _ ih.zero, ?_, ?_⟩
      · intro other otherKept notFreed
        exact allocated.keeps _
          (ih.kept other otherKept fun mem => notFreed (List.mem_cons_of_mem _ mem))
      · rintro other (rfl | older)
        · exact allocated.isUsed
        · exact allocated.keeps _ (ih.outstanding other older)
  | inc phy _ ih =>
      exact ⟨by simpa using ih.zero, fun page pageKept notFreed => by
        simpa using ih.kept page pageKept notFreed, fun page older => by
        simpa using ih.outstanding page older⟩
  | @dec history state phy _ ih =>
      by_cases last : state.DropsLast (mmPhyToPage phy)
      · have events : state.decEvents phy = [.freed (mmPhyToPage phy)] := if_pos last
        rw [events]
        exact ih.free fun page => by simp [inUse_decRefCount, last]
      · have events : state.decEvents phy = [] := if_neg last
        have bits : ∀ page, (state.decRefCount phy).inUse page = state.inUse page := by
          intro page
          simp [inUse_decRefCount, last]
        rw [events]
        exact ⟨(bits 0).trans ih.zero,
          fun page pageKept notFreed => (bits page).trans (ih.kept page pageKept notFreed),
          fun page older => (bits page).trans (ih.outstanding page older)⟩
  | free page _ ih => exact ih.free fun other => inUse_mmPhyFreePage _ _ _

/-- No frame is handed out twice.  After any boot sequence and any run, the
frame that `mm_phy_alloc_page` returns is not frame zero, is not a frame of the
kernel image unless that frame was freed, and is not outstanding. -/
theorem mmPhyAllocPage_not_outstanding (state : PhyAlloc) (regions : List (Word × Word))
    (startaddr endaddr : Word) (room : endaddr.toNat + 4096 ≤ 2 ^ 64)
    {history : List FrameEvent} {before : PhyAlloc} {page : Word}
    (run : FrameRun ((regions.foldl (fun state region => state.mmPhyMap region.1 region.2)
      state.mmPhyInit).markKernelPages startaddr endaddr) history before)
    (found : before.mmPhyAllocPage.2 = some page) :
    page ≠ 0 ∧ (MeetsRange startaddr endaddr page → .freed page ∈ history) ∧
      ¬ Outstanding page history := by
  have start := fun mapped : PhyAlloc =>
    (⟨inUse_markKernelPages_zero mapped startaddr endaddr,
      fun other kept _ => inUse_markKernelPages_of_meetsRange mapped room kept.1 kept.2,
      fun _ impossible => impossible.elim⟩ :
      Accounted (fun other => LowerHalf other ∧ MeetsRange startaddr endaddr other) []
        (mapped.markKernelPages startaddr endaddr))
  have accounted := run.accounted (start _)
  have allocated := mmPhyAllocPage_eq_some (Prod.ext rfl found)
  have free : ¬ before.inUse page = true := by
    rw [allocated.wasFree]
    exact Bool.false_ne_true
  refine ⟨?_, ?_, ?_⟩
  · rintro rfl
    exact free accounted.zero
  · intro meets
    by_contra notFreed
    exact free (accounted.kept page ⟨allocated.lower, meets⟩ notFreed)
  · intro outstanding
    exact free (accounted.outstanding page outstanding)

/-- Boot with frames 1 and 2 available and frame 1 in the kernel image: the
first allocation returns frame 2. -/
theorem mmPhyAllocPage_not_outstanding_second_frame :
    (2 : Word) ≠ 0 ∧ (MeetsRange 0x1000 0x1800 2 → .freed 2 ∈ ([] : List FrameEvent)) ∧
      ¬ Outstanding 2 [] :=
  let state : PhyAlloc := ⟨fun _ => 0, fun _ _ => 0, []⟩
  mmPhyAllocPage_not_outstanding state [(0x1000, 0x2000)] 0x1000 0x1800 (by decide)
    .boot (by decide +kernel)

end Sbrocks.Mmu.PhyAlloc
