import Sbrocks.Mmu.PhyAlloc
import Sbrocks.Radix.Walk

/-!
# Page tables

Physical memory is a map from frames to 512 words.  The kernel reaches every
table through the one-to-one window, so `KADDR` of a physical address is that
address itself here.  Functions that allocate return nothing when the frame
allocator's scan leaves its array.
-/

namespace Sbrocks.Mmu

open Sbrocks.Radix

/-- The memory state: the frame allocator, physical memory, the loaded and the
kernel's page table root, and the top of the kernel's virtual memory. -/
structure Machine where
  phy : PhyAlloc
  mem : Word → BitVec 9 → Word
  cr3 : Word
  kCr3 : Word
  virtualTop : Word

/-- `PT_PRESENT_FLAG`. -/
def ptPresentFlag : Word := 1

/-- `PT_WRITABLE_FLAG`. -/
def ptWritableFlag : Word := 2

/-- `PT_USER`. -/
def ptUser : Word := 4

/-- `VIRT_KERNEL_BASE`. -/
def virtKernelBase : Word := 0xFFFFFFFF80000000

/-- The macro `isPresent`. -/
def isPresent (entry : Word) : Bool := entry &&& ptPresentFlag != 0

/-- `_pml4e_offset`. -/
def pml4eOffset (virt : Word) : BitVec 9 := (virt >>> 39).setWidth 9

/-- `_pdpe_offset`. -/
def pdpeOffset (virt : Word) : BitVec 9 := (virt >>> 30).setWidth 9

/-- `_pde_offset`. -/
def pdeOffset (virt : Word) : BitVec 9 := (virt >>> 21).setWidth 9

/-- `_pte_offset`. -/
def pteOffset (virt : Word) : BitVec 9 := (virt >>> 12).setWidth 9

/-- The frame at `KADDR(ALIGN_DOWN(entry))`. -/
def tableOf (entry : Word) : Word := mmPhyToPage (alignDown entry)

namespace Machine

/-- `read_cr3`, as the frame of the loaded root table. -/
def root (m : Machine) : Word := mmPhyToPage m.cr3

/-- `write_cr3`. -/
def writeCr3 (m : Machine) (cr3 : Word) : Machine := { m with cr3 := cr3 }

/-- Store one entry of a table. -/
def setEntry (m : Machine) (table : Word) (offset : BitVec 9) (entry : Word) : Machine :=
  { m with mem := put m.mem table offset entry }

@[simp]
theorem setEntry_mem (m : Machine) (table : Word) (offset : BitVec 9) (entry : Word) :
    (m.setEntry table offset entry).mem = put m.mem table offset entry :=
  rfl

@[simp]
theorem setEntry_phy (m : Machine) (table : Word) (offset : BitVec 9) (entry : Word) :
    (m.setEntry table offset entry).phy = m.phy :=
  rfl

@[simp]
theorem setEntry_root (m : Machine) (table : Word) (offset : BitVec 9) (entry : Word) :
    (m.setEntry table offset entry).root = m.root :=
  rfl

/-- `mm_phy_alloc_page` on the whole state. -/
def mmPhyAllocPage (m : Machine) : Option (Machine × Word) :=
  match m.phy.mmPhyAllocPage with
  | (phy, some page) => some ({ m with phy := phy }, page)
  | (_, none) => none

/-- The last-level table of an address under the loaded root: the three levels
that `virt_to_phy`, `get_pte_entry` and `unmap_phy` descend alike. -/
def pttable (m : Machine) (virt : Word) : Option Word :=
  let kpml4e := m.root
  if !isPresent (m.mem kpml4e (pml4eOffset virt)) then none
  else
    let pdpetable := tableOf (m.mem kpml4e (pml4eOffset virt))
    if !isPresent (m.mem pdpetable (pdpeOffset virt)) then none
    else
      let pdetable := tableOf (m.mem pdpetable (pdpeOffset virt))
      if !isPresent (m.mem pdetable (pdeOffset virt)) then none
      else some (tableOf (m.mem pdetable (pdeOffset virt)))

/-- `virt_to_phy`; its second argument is not used there. -/
def virtToPhy (m : Machine) (virt : Word) : Word :=
  match m.pttable virt with
  | none => 0
  | some pttable =>
      if !isPresent (m.mem pttable (pteOffset virt)) then 0
      else alignDown (m.mem pttable (pteOffset virt))

/-- `get_pte_entry`: the place of a present last-level entry. -/
def getPteEntry (m : Machine) (virt : Word) : Option (Word × BitVec 9) :=
  match m.pttable virt with
  | none => none
  | some pttable =>
      if !isPresent (m.mem pttable (pteOffset virt)) then none
      else some (pttable, pteOffset virt)

/-- `unmap_phy`. -/
def unmapPhy (m : Machine) (virt : Word) : Machine :=
  match m.pttable virt with
  | none => m
  | some pttable =>
      if isPresent (m.mem pttable (pteOffset virt)) then
        let phy := alignDown (m.mem pttable (pteOffset virt))
        { m with phy := m.phy.decRefCount phy }.setEntry pttable (pteOffset virt) 0
      else m

/-- One level of the descent of `map_virt_to_phy` and `kernmem_mapping`: a
missing table is allocated, as it is, and linked; `refresh` says whether a
present entry is stored again with the new flags.  The result includes the
frame of the next table. -/
def tableAt (m : Machine) (table : Word) (offset : BitVec 9) (flags : Word) (refresh : Bool) :
    Option (Machine × Word) :=
  if !isPresent (m.mem table offset) then do
    let (m, phyPage) ← m.mmPhyAllocPage
    let m := m.setEntry table offset (mmPageToPhy phyPage ||| flags)
    some (m, tableOf (m.mem table offset))
  else
    let m := if refresh then m.setEntry table offset (alignDown (m.mem table offset) ||| flags)
      else m
    some (m, tableOf (m.mem table offset))

/-- `map_virt_to_phy`, under the loaded root. -/
def mapVirtToPhy (m : Machine) (virt phy flags : Word) : Option Machine := do
  let (m, pdpetable) ← m.tableAt m.root (pml4eOffset virt) flags false
  let (m, pdetable) ← m.tableAt pdpetable (pdpeOffset virt) flags true
  let (m, pttable) ← m.tableAt pdetable (pdeOffset virt) flags true
  some (m.setEntry pttable (pteOffset virt) (phy ||| flags))

/-- `kernmem_mapping`, under the root at the physical address `pml4e`; its page
count is not used there. -/
def kernmemMapping (m : Machine) (virt pbase pml4e : Word) : Option Machine := do
  let flags := ptPresentFlag ||| ptWritableFlag
  let (m, pdpetable) ← m.tableAt (mmPhyToPage pml4e) (pml4eOffset virt) flags false
  let (m, pdetable) ← m.tableAt pdpetable (pdpeOffset virt) flags false
  let (m, pttable) ← m.tableAt pdetable (pdeOffset virt) flags false
  some (m.setEntry pttable (pteOffset virt) (pbase ||| flags))

/-! ## Kernel virtual memory -/

/-- `size / PAGE_SIZE`, plus one for a remainder. -/
def pagesOf (size : Word) : Nat :=
  (size / 4096).toNat + if size % 4096 ≠ 0 then 1 else 0

/-- The loop of `alloc_pages_at_virt`: each page gets a frame of its own. -/
def allocPagesLoop (m : Machine) (flags : Word) : Nat → Word → Option Machine
  | 0, _ => some m
  | n + 1, virt => do
      let (m, phyPage) ← m.mmPhyAllocPage
      let m ← m.mapVirtToPhy virt (mmPageToPhy phyPage) flags
      m.allocPagesLoop flags n (virt + pageSize)

/-- `alloc_pages_at_virt`, which returns its own argument. -/
def allocPagesAtVirt (m : Machine) (virt size flags : Word) : Option Machine :=
  m.allocPagesLoop flags (pagesOf size) virt

/-- `set_current_vm_top`. -/
def setCurrentVmTop (m : Machine) (newTop : Word) : Machine := { m with virtualTop := newTop }

@[simp]
theorem setCurrentVmTop_root (m : Machine) (newTop : Word) :
    (m.setCurrentVmTop newTop).root = m.root :=
  rfl

@[simp]
theorem setCurrentVmTop_phy (m : Machine) (newTop : Word) : (m.setCurrentVmTop newTop).phy = m.phy :=
  rfl

@[simp]
theorem setCurrentVmTop_mem (m : Machine) (newTop : Word) : (m.setCurrentVmTop newTop).mem = m.mem :=
  rfl

@[simp]
theorem setCurrentVmTop_virtualTop (m : Machine) (newTop : Word) :
    (m.setCurrentVmTop newTop).virtualTop = newTop :=
  rfl

/-- The loop of `alloc_pages`: as above, at the moving top of the kernel's
virtual memory. -/
def allocTopLoop (m : Machine) (flags : Word) : Nat → Option Machine
  | 0 => some m
  | n + 1 => do
      let (m, phyPage) ← m.mmPhyAllocPage
      let m ← m.mapVirtToPhy m.virtualTop (mmPageToPhy phyPage) flags
      (m.setCurrentVmTop (m.virtualTop + pageSize)).allocTopLoop flags n

/-- `alloc_pages`: the address of the first page. -/
def allocPages (m : Machine) (noOfPages : Nat) (flags : Word) : Option (Machine × Word) := do
  let retaddr := m.virtualTop
  let m ← m.allocTopLoop flags noOfPages
  some (m, retaddr)

/-- `kmalloc`. -/
def kmalloc (m : Machine) (size : Word) : Option (Machine × Word) :=
  m.allocPages (pagesOf size) (ptPresentFlag ||| ptWritableFlag)

/-- The loop of `kfree`. -/
def kfreeLoop (m : Machine) : Nat → Word → Machine
  | 0, _ => m
  | n + 1, vaddr =>
      let phyaddr := m.virtToPhy vaddr
      let m := if phyaddr ≠ 0 then { m with phy := m.phy.mmPhyFreePage (mmPhyToPage phyaddr) }
        else m
      m.kfreeLoop n (vaddr + pageSize)

/-- `kfree`: the frames are freed, the mappings stay. -/
def kfree (m : Machine) (vaddr size : Word) : Machine :=
  m.kfreeLoop (pagesOf size) vaddr

/-- The frame that an access to a virtual address reaches. -/
def translate (m : Machine) (virt : Word) : Option Word :=
  match m.pttable virt with
  | none => none
  | some pttable =>
      if !isPresent (m.mem pttable (pteOffset virt)) then none
      else some (tableOf (m.mem pttable (pteOffset virt)))

/-- The position of an aligned word in its page. -/
def wordOffset (virt : Word) : BitVec 9 := (virt >>> 3).setWidth 9

/-- Store a word at an aligned virtual address. -/
def storeWord (m : Machine) (virt value : Word) : Option Machine := do
  let frame ← m.translate virt
  some (m.setEntry frame (wordOffset virt) value)

/-- The copy loop of `env_setup_vm`, entry by entry up to entry `n`. -/
def copyEntries (m : Machine) (ptr : Word) : Nat → Option Machine
  | 0 => some m
  | n + 1 => do
      let m ← m.copyEntries ptr n
      m.storeWord (ptr + BitVec.ofNat 64 (8 * n)) (m.mem (mmPhyToPage m.kCr3) (BitVec.ofNat 9 n))

/-- `env_setup_vm`: a root table of its own for a new process, at a kernel
address, with the entries of the kernel's root. -/
def envSetupVm (m : Machine) : Option (Machine × Word) := do
  let (m, pml4e) ← m.allocPages 1 (ptPresentFlag ||| ptWritableFlag ||| ptUser)
  let m ← m.copyEntries pml4e 512
  some (m, pml4e)

end Machine

end Sbrocks.Mmu
