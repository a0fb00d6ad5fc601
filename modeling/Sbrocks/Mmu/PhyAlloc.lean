import Sbrocks.Word.Basic

/-!
# The physical frame allocator

One bit per frame in `phy_bitmap`, set when the frame is in use, and one
reference count per frame in `refcount`.  Both tables are total functions
here, so an index past the declared arrays is an extra cell; which indices the
code uses is recorded in `accesses`, a ghost log that no operation reads.

Marking a frame used goes through the signed mask `1 << (page % 64)` while
freeing it goes through an unsigned one; both masks are kept as they are.
-/

namespace Sbrocks.Mmu

/-- One indexing of an allocator table: a word of `phy_bitmap`, or a cell of
`refcount`. -/
inductive Access where
  | bitmap (group : Word)
  | refcount (group slot : Word)
  deriving DecidableEq

/-- `PAGE_MAX`, the number of frames the allocator was written for. -/
def pageMax : Nat := 32510

/-- Words in `phy_bitmap`. -/
def bitmapGroups : Nat := pageMax / 64 + 1

/-- Frames tracked by one word of the bitmap. -/
def pagesPerGroup : Nat := 64

/-- The word of the bitmap that holds a frame's bit, `page/64`. -/
def groupOf (page : Word) : Word := page / 64

/-- The position of a frame in its group, `page%64`. -/
def slotOf (page : Word) : Word := page % 64

/-- The static tables of the allocator. -/
structure PhyAlloc where
  phyBitmap : Word → Word
  refcount : Word → Word → Word
  accesses : List Access

namespace PhyAlloc

/-- Record an access in the ghost log. -/
def touch (state : PhyAlloc) (access : Access) : PhyAlloc :=
  { state with accesses := access :: state.accesses }

/-- Store a word of `phy_bitmap`. -/
def setBitmap (state : PhyAlloc) (group value : Word) : PhyAlloc :=
  { state with
    phyBitmap := Function.update state.phyBitmap group value
    accesses := .bitmap group :: state.accesses }

/-- Store a cell of `refcount`. -/
def setRefcount (state : PhyAlloc) (group slot value : Word) : PhyAlloc :=
  { state with
    refcount := Function.update state.refcount group
      (Function.update (state.refcount group) slot value)
    accesses := .refcount group slot :: state.accesses }

/-- Mark every frame unavailable.  The `memset` covers the declared array. -/
def mmPhyInit (state : PhyAlloc) : PhyAlloc :=
  let cleared := { state with
    phyBitmap := fun group =>
      if group.toNat < bitmapGroups then BitVec.allOnes 64 else state.phyBitmap group }
  cleared.setBitmap 0 (cleared.phyBitmap 0 ||| 1)

/-- Clear the bit of a frame, through the unsigned mask. -/
def setPageFree (state : PhyAlloc) (page : Word) : PhyAlloc :=
  if page ≠ 0 then
    state.setBitmap (groupOf page)
      (state.phyBitmap (groupOf page) &&& ~~~wordBit (slotOf page).toNat)
  else state

/-- Take one more reference to the frame at a physical address. -/
def incRefCount (state : PhyAlloc) (phy : Word) : PhyAlloc :=
  let page := mmPhyToPage phy
  if page ≠ 0 then
    state.setRefcount (groupOf page) (slotOf page)
      (state.refcount (groupOf page) (slotOf page) + 1)
  else state

/-- Drop one reference; the last one frees the frame. -/
def decRefCount (state : PhyAlloc) (phy : Word) : PhyAlloc :=
  let page := mmPhyToPage phy
  if page ≠ 0 then
    let dropped := state.setRefcount (groupOf page) (slotOf page)
      (state.refcount (groupOf page) (slotOf page) - 1)
    if dropped.refcount (groupOf page) (slotOf page) = 0 then dropped.setPageFree page
    else dropped
  else state

/-- Mark a frame used, through the signed mask. -/
def setPageUsed (state : PhyAlloc) (page : Word) : PhyAlloc :=
  if page ≠ 0 then
    (state.setBitmap (groupOf page)
      (state.phyBitmap (groupOf page) ||| intBit (slotOf page).toNat)).incRefCount
        (mmPageToPhy page)
  else state

/-- Free a frame whatever its reference count. -/
def mmPhyFreePage (state : PhyAlloc) (page : Word) : PhyAlloc :=
  if page = 0 then state
  else (state.setPageFree page).setRefcount (groupOf page) (slotOf page) 0

/-- The page loop `for (i = start; i < stop; i += PAGE_SIZE)`.  A 64-bit space
has `2 ^ 52` pages, so the fuel given by the callers never cuts the loop. -/
def forPages (body : PhyAlloc → Word → PhyAlloc) (stop : Word) :
    Nat → Word → PhyAlloc → PhyAlloc
  | 0, _, state => state
  | fuel + 1, i, state =>
      if i < stop then forPages body stop fuel (i + pageSize) (body state i) else state

/-- Make the frames of one memory region available. -/
def mmPhyMap (state : PhyAlloc) (base length : Word) : PhyAlloc :=
  forPages (fun state i => state.setPageFree (mmPhyToPage i)) (alignUp (base + length))
    (2 ^ 52) (alignDown base) state

/-- Mark the frames of the kernel image used. -/
def markKernelPages (state : PhyAlloc) (startaddr endaddr : Word) : PhyAlloc :=
  let marked := forPages (fun state lowmem => state.setPageUsed (mmPhyToPage lowmem))
    (alignUp endaddr) (2 ^ 52) (alignDown startaddr) state
  marked.setBitmap 0 (marked.phyBitmap 0 ||| 1)

/-- The page number `(g * PAGES_PER_GROUP) + p`. -/
def pageAt (g p : Nat) : Word := BitVec.ofNat 64 (g * pagesPerGroup + p)

/-- The inner loop of the allocator: the first position of a group whose signed
mask meets no set bit. -/
def freeSlot (group : Word) : Option Nat :=
  if group ≠ 0xffffffffffffffff then
    (List.range pagesPerGroup).find? fun p => group &&& intBit p == 0
  else none

/-- The outer loop of the allocator, from group `n - 1` downwards.  The counter
is unsigned, so the loop does not stop below group 0: it goes on at index
`2 ^ 64 - 1`, outside the array, where no result is defined. -/
def allocBelow (state : PhyAlloc) : Nat → PhyAlloc × Option Word
  | 0 => (state.touch (.bitmap (-1)), none)
  | n + 1 =>
      let group : Word := BitVec.ofNat 64 n
      let read := state.touch (.bitmap group)
      match freeSlot (state.phyBitmap group) with
      | some p =>
          ((read.setBitmap group (state.phyBitmap group ||| intBit p)).incRefCount
            (mmPageToPhy (pageAt n p)), some (pageAt n p))
      | none => allocBelow read n

/-- Allocate a frame, scanning from the highest group. -/
def mmPhyAllocPage (state : PhyAlloc) : PhyAlloc × Option Word :=
  state.allocBelow bitmapGroups

end PhyAlloc

/-- One entry of the firmware memory map. -/
structure Smap where
  base : Word
  length : Word
  type : BitVec 32

namespace PhyAlloc

/-- The allocator part of `start`: type-1 regions are made available, then the
kernel image is taken out. -/
def start (state : PhyAlloc) (smap : List Smap) (physbase physfree : Word) : PhyAlloc :=
  (smap.foldl (fun state entry =>
      if entry.type = 1 ∧ entry.length ≠ 0 then state.mmPhyMap entry.base entry.length
      else state)
    state.mmPhyInit).markKernelPages physbase physfree

end PhyAlloc

end Sbrocks.Mmu
