import Sbrocks.Memory.Bytes
import Sbrocks.Syscall.Calls

/-!
# The allocator of the C library

`malloc` keeps a list of blocks in the memory of its own process and extends it
through the break.  A process is its memory, the list head of the allocator, and
the kernel that answers its system calls; page faults are answered under it.
-/

namespace Sbrocks.Libc

open Sbrocks.Process

/-- A process, and the kernel it calls. -/
structure Program where
  mem : Bytes.Memory 64
  head : Word
  kernel : Kernel

/-- `struct mem_block`, except for its place. -/
structure MemBlock where
  size : Word
  free : BitVec 32
  next : Word

/-- `USED`. -/
def used : BitVec 32 := 0

/-- `FREE`. -/
def freed : BitVec 32 := 1

/-- `BLOCK_SIZE`. -/
def memBlockSize : Word := 24

/-- More than a list of blocks can hold. -/
def blockRounds : Nat := 2 ^ 64

namespace Program

variable (p : Program)

/-- The block header at an address. -/
def memBlock (block : Word) : MemBlock where
  size := BitVec.ofNat 64 (Bytes.load p.mem block 8)
  free := BitVec.ofNat 32 (Bytes.load p.mem (block + 8) 4)
  next := BitVec.ofNat 64 (Bytes.load p.mem (block + 16) 8)

/-- `block->size = size`. -/
def setSize (block size : Word) : Program :=
  { p with mem := Bytes.store p.mem block size.toNat 8 }

/-- `block->free = free`. -/
def setFree (block : Word) (free : BitVec 32) : Program :=
  { p with mem := Bytes.store p.mem (block + 8) free.toNat 4 }

/-- `block->next = next`. -/
def setNext (block next : Word) : Program :=
  { p with mem := Bytes.store p.mem (block + 16) next.toNat 8 }

/-- `brk` of the library. -/
def brk (endDataSegment : Word) : Flow Kernel (Program × Word) := do
  let (k, ret) ← p.kernel.systemBrk endDataSegment
  return ({ p with kernel := k }, ret)

/-- `sbrk`. -/
def sbrk (increment : Word) : Flow Kernel (Program × Word) := do
  let (p, breakPtr) ← p.brk 0
  if increment = 0 then return (p, breakPtr)
  else
    let (p, _) ← p.brk (breakPtr + increment)
    return (p, breakPtr)

/-- `allocateMemory`. -/
def allocateMemory (size : Word) : Flow Kernel (Program × Word) := do
  let (p, current) ← p.sbrk 0
  let (p, addr) ← p.sbrk (size + memBlockSize)
  if addr = -1 then return (p, 0)
  else return (((p.setSize current size).setNext current 0).setFree current used, current)

/-- Whether a block can be reused for a request. -/
def fits (size block : Word) : Bool :=
  (p.memBlock block).free = freed ∧ size ≤ (p.memBlock block).size

/-- The loop of `find_free_mem_block`: the last block passed, and the one found or zero. -/
def findFreeMemBlockLoop (size last temp : Word) : Nat → Option (Word × Word)
  | 0 => none
  | n + 1 =>
      if temp ≠ 0 ∧ ¬p.fits size temp then
        findFreeMemBlockLoop size temp (p.memBlock temp).next n
      else some (last, temp)

/-- `find_free_mem_block`, with what `*last` holds. -/
def findFreeMemBlock (last size : Word) : Option (Word × Word) :=
  p.findFreeMemBlockLoop size last p.head blockRounds

/-- `malloc`. -/
def malloc (size : Word) : Flow Kernel (Program × Word) := do
  if size = 0 then return (p, 0)
  else if p.head = 0 then
    let (p, block) ← p.allocateMemory size
    if block = 0 then return (p, 0)
    else return ({ p with head := block }, block + memBlockSize)
  else
    let (last, block) ← Flow.ofOption (p.findFreeMemBlock p.head size)
    if block = 0 then
      let (p, block) ← p.allocateMemory size
      if block = 0 then return (p, 0)
      else return (p.setNext last block, block + memBlockSize)
    else return (p.setFree block used, block + memBlockSize)

/-- `free`. -/
def free (ptr : Word) : Program :=
  if ptr = 0 then p else p.setFree (ptr - memBlockSize) freed

/-! ## What the writes to a header change -/

variable {p : Program} {block x : Word}

/-- The fields of a header that does not wrap. -/
theorem fields_toNat (room : block.toNat + 24 < 2 ^ 64) :
    (block + 8).toNat = block.toNat + 8 ∧ (block + 16).toNat = block.toNat + 16 := by
  have eight : (8 : Word).toNat = 8 := rfl
  have sixteen : (16 : Word).toNat = 16 := rfl
  rw [BitVec.toNat_add, BitVec.toNat_add, eight, sixteen]
  omega

theorem payload_toNat (room : block.toNat + 24 < 2 ^ 64) :
    (block + memBlockSize).toNat = block.toNat + 24 := by
  have header : memBlockSize.toNat = 24 := rfl
  rw [BitVec.toNat_add, header]
  omega

theorem memBlock_setSize (room : block.toNat + 24 < 2 ^ 64) (size : Word) :
    (p.setSize block size).memBlock block = { p.memBlock block with size } := by
  have fields := fields_toNat room
  unfold memBlock setSize
  rw [Bytes.load_store (by omega) size.isLt, Bytes.load_store_apart (by omega) (by omega) (by omega),
    Bytes.load_store_apart (by omega) (by omega) (by omega), BitVec.ofNat_toNat, BitVec.setWidth_eq]

theorem memBlock_setFree (room : block.toNat + 24 < 2 ^ 64) (free : BitVec 32) :
    (p.setFree block free).memBlock block = { p.memBlock block with free } := by
  have fields := fields_toNat room
  unfold memBlock setFree
  rw [Bytes.load_store (by omega) free.isLt, Bytes.load_store_apart (by omega) (by omega) (by omega),
    Bytes.load_store_apart (by omega) (by omega) (by omega), BitVec.ofNat_toNat, BitVec.setWidth_eq]

theorem memBlock_setNext (room : block.toNat + 24 < 2 ^ 64) (next : Word) :
    (p.setNext block next).memBlock block = { p.memBlock block with next } := by
  have fields := fields_toNat room
  unfold memBlock setNext
  rw [Bytes.load_store (by omega) next.isLt, Bytes.load_store_apart (by omega) (by omega) (by omega),
    Bytes.load_store_apart (by omega) (by omega) (by omega), BitVec.ofNat_toNat, BitVec.setWidth_eq]

/-- A header depends on its own bytes only. -/
theorem memBlock_congr {p' : Program} (room : block.toNat + 24 < 2 ^ 64)
    (same : ∀ x : Word, block.toNat ≤ x.toNat → x.toNat < block.toNat + 24 → p'.mem x = p.mem x) :
    p'.memBlock block = p.memBlock block := by
  have fields := fields_toNat room
  unfold memBlock
  rw [Bytes.load_congr (by omega) fun x low high => same x (by omega) (by omega),
    Bytes.load_congr (by omega) fun x low high => same x (by omega) (by omega),
    Bytes.load_congr (by omega) fun x low high => same x (by omega) (by omega)]

theorem setSize_outside (room : block.toNat + 24 < 2 ^ 64) (size : Word)
    (outside : x.toNat < block.toNat ∨ block.toNat + 24 ≤ x.toNat) :
    (p.setSize block size).mem x = p.mem x :=
  Bytes.store_outside (by omega) (by omega)

theorem setFree_outside (room : block.toNat + 24 < 2 ^ 64) (free : BitVec 32)
    (outside : x.toNat < block.toNat ∨ block.toNat + 24 ≤ x.toNat) :
    (p.setFree block free).mem x = p.mem x := by
  have fields := fields_toNat room
  exact Bytes.store_outside (by omega) (by omega)

theorem setNext_outside (room : block.toNat + 24 < 2 ^ 64) (next : Word)
    (outside : x.toNat < block.toNat ∨ block.toNat + 24 ≤ x.toNat) :
    (p.setNext block next).mem x = p.mem x := by
  have fields := fields_toNat room
  exact Bytes.store_outside (by omega) (by omega)

end Program

end Sbrocks.Libc
