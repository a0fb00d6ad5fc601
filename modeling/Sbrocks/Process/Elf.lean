import Sbrocks.Fs.Tarfs

/-!
# The program loader

`readElf` creates a task for a file of the archive: an area and fresh pages for
each loadable segment, an empty heap, and a stack of one page that holds the
arguments.
-/

namespace Sbrocks.Process

open Sbrocks.Mmu

/-- `USER_STACK`. -/
def userStack : Word := 0xF000000000

/-- `USER_STACK_SIZE`. -/
def userStackSize : Word := 16 * 4096

/-- `USER_HEAP`. -/
def userHeap : Word := 0xF000030000

/-- `VM_RW`. -/
def vmRw : Word := 6

/-- `PT_LOAD`. -/
def ptLoad : Word := 1

namespace Kernel

variable (fault : Fault)

/-- One string of `setup_stack`: its copy goes below the stack pointer. -/
def pushString (k : Kernel) (ustackptr str : Word) : Flow Kernel (Kernel × Word) := do
  let (k, length) ← k.strlen fault (.atAddr str)
  let ustackptr := ustackptr - (length + 1)
  let k ← k.memcpy fault ustackptr str (length + 1).toNat
  return (k, ustackptr)

/-- The strings of `setup_stack`, last one first: the addresses of the copies in
the order of the strings. -/
def pushStrings (k : Kernel) (ustackptr : Word) : List Word → Flow Kernel (Kernel × Word × List Word)
  | [] => .next (k, ustackptr, [])
  | str :: rest => do
      let (k, ustackptr, copies) ← k.pushStrings ustackptr rest
      let (k, ustackptr) ← k.pushString fault ustackptr str
      return (k, ustackptr, ustackptr :: copies)

/-- The pointers of `setup_stack`, last one first. -/
def pushWords (k : Kernel) (ustackptr : Word) : List Word → Flow Kernel (Kernel × Word)
  | [] => .next (k, ustackptr)
  | value :: rest => do
      let (k, ustackptr) ← k.pushWords ustackptr rest
      let ustackptr := ustackptr - 8
      let k ← k.storeLe fault ustackptr value
      return (k, ustackptr)

/-- `setup_stack`. -/
def setupStack (k : Kernel) (task : Word) (argv envp : List Word) : Flow Kernel Kernel := do
  let mm := (k.task task).mm
  let k := k.modMm mm fun s => { s with stackVm := userStack - 8 }
  let k := k.writeCr3 (k.m.virtToPhy (k.task task).pml4e)
  let k ← k.allocPagesAtVirt (userStack - pageSize) pageSize userFlags
  let (k, ustackptr, addr1) ← k.pushStrings fault (userStack - 8) envp
  let (k, ustackptr, addr) ← k.pushStrings fault ustackptr argv
  let ustackptr := if argv ≠ [] then ustackptr - 8 else ustackptr
  let (k, ustackptr) ← k.pushWords fault ustackptr addr1
  let ustackptr := if argv ≠ [] then ustackptr - 8 else ustackptr - 16
  let (k, ustackptr) ← k.pushWords fault ustackptr addr
  let ustackptr := ustackptr - 8
  let k ← k.storeLe fault ustackptr (BitVec.ofNat 64 argv.length)
  return k.modMm mm fun s => { s with stackVm := ustackptr }

/-- The fields of a program header that the loader reads. -/
structure ProgramHeader where
  pType : Word
  pFlags : Word
  pOffset : Word
  pVaddr : Word
  pFilesz : Word
  pMemsz : Word

/-- Read a program header. -/
def loadPhdr (k : Kernel) (phdr : Word) : Flow Kernel (Kernel × ProgramHeader) := do
  let (k, pType) ← k.loadLe fault phdr 4
  let (k, pFlags) ← k.loadLe fault (phdr + 4) 4
  let (k, pOffset) ← k.loadLe fault (phdr + 8) 8
  let (k, pVaddr) ← k.loadLe fault (phdr + 16) 8
  let (k, pFilesz) ← k.loadLe fault (phdr + 32) 8
  let (k, pMemsz) ← k.loadLe fault (phdr + 40) 8
  return (k, ⟨pType, pFlags, pOffset, pVaddr, pFilesz, pMemsz⟩)

/-- The flags of a segment's pages. -/
def segmentFlags (ph : ProgramHeader) : Word :=
  if ph.pFlags = 0 then ptPresentFlag ||| ptUser else userFlags

/-- A loadable segment: its area, its pages, its bytes from the file and zeros
behind them. -/
def loadSegment (k : Kernel) (task elfHeader oldCr3 : Word) (ph : ProgramHeader) :
    Flow Kernel Kernel := do
  let start := ph.pVaddr
  let mm := (k.task task).mm
  let (k, vma) ← k.createVma mm start (start + ph.pMemsz) .normal ph.pFlags 0
  let k ← k.addToVmaList mm vma
  let k := k.writeCr3 (k.m.virtToPhy (k.task task).pml4e)
  let k ← k.allocPagesAtVirt start ph.pMemsz (segmentFlags ph)
  let k ← k.memcpy fault start (elfHeader + ph.pOffset) ph.pFilesz.toNat
  let k ← k.memset fault (start + ph.pFilesz) 0 (ph.pMemsz - ph.pFilesz).toNat
  let k := k.writeCr3 oldCr3
  return k.modMm mm fun s => { s with totalVmSize := s.totalVmSize + ph.pMemsz }

/-- The loop of `readElf` over the program headers. -/
def loadSegments (k : Kernel) (task elfHeader oldCr3 phentsize phdr : Word) :
    Nat → Flow Kernel Kernel
  | 0 => .next k
  | n + 1 => do
      let (k, ph) ← k.loadPhdr fault phdr
      let k ← (if ph.pType = ptLoad then k.loadSegment fault task elfHeader oldCr3 ph else .next k)
      k.loadSegments task elfHeader oldCr3 phentsize (phdr + phentsize) n

/-- The heap and the stack area of a new process. -/
def addHeapAndStack (k : Kernel) (mm : Word) : Flow Kernel Kernel := do
  let k := k.modMm mm fun s => { s with brkStart := userHeap, brkEnd := userHeap }
  let (k, vma) ← k.createVma mm userHeap userHeap .heap vmRw 0
  let k ← k.addToVmaList mm vma
  let (k, vma) ← k.createVma mm userStack (userStack - userStackSize) .stack vmRw 0
  let k ← k.addToVmaList mm vma
  return k.modMm mm fun s => { s with totalVmSize := s.totalVmSize + userStackSize }

/-- `readElf`: the new task. -/
def readElf (k : Kernel) (filename : CString) (argv envp : List Word) :
    Flow Kernel (Kernel × Word) := do
  let (k, offset) ← k.findOffsetForFile fault filename
  let elfHeader := k.binaryTarfsStart + offset
  let (k, task) ← k.createNewTask fault filename
  let (k, entry) ← k.loadLe fault (elfHeader + 24) 8
  let oldCr3 := k.m.cr3
  let (k, phnum) ← k.loadLe fault (elfHeader + 56) 2
  let (k, phoff) ← k.loadLe fault (elfHeader + 32) 8
  let (k, phentsize) ← k.loadLe fault (elfHeader + 54) 2
  let k ← k.loadSegments fault task elfHeader oldCr3 phentsize (elfHeader + phoff) phnum.toNat
  let mm := (k.task task).mm
  let k ← k.addHeapAndStack mm
  let k ← k.setupStack fault task argv envp
  let k := k.writeCr3 oldCr3
  let k := k.modTask task fun s => { s with r := { s.r with rsp := (k.mm mm).stackVm, rip := entry } }
  return (k, task)

end Kernel

end Sbrocks.Process
