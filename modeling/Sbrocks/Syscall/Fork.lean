import Sbrocks.Process.Elf

/-!
# Fork

`setup_memory` gives the child an area for each area of the parent.  The pages of
a stack area are copied, those of any other area are mapped a second time.
-/

namespace Sbrocks.Process

open Sbrocks.Mmu

namespace Kernel

variable (fault : Fault)

/-- One round of the stack loop of `setup_memory`: a mapped page is copied to a new
one at a kernel address, whose frame is then mapped in the child. -/
def copyStackPage (k : Kernel) (c p vaddr : Word) : Flow Kernel Kernel := do
  let parentPage := k.m.virtToPhy vaddr
  if parentPage ≠ 0 then
    let (k, dummyVaddr) ← k.allocPages 1 userFlags
    let phyAddr := k.m.virtToPhy dummyVaddr
    let k ← k.memcpy fault dummyVaddr vaddr 4096
    let k := k.writeCr3 (k.m.virtToPhy (k.task c).pml4e)
    let k ← k.mapVirtToPhy vaddr phyAddr userFlags
    return k.writeCr3 (k.m.virtToPhy (k.task p).pml4e)
  else return k

/-- The stack loop of `setup_memory`, from the top page down. -/
def copyStackLoop (k : Kernel) (c p end_ vaddr : Word) : Nat → Flow Kernel Kernel
  | 0 => .stuck
  | rounds + 1 =>
      if end_ ≤ vaddr then do
        let k ← k.copyStackPage fault c p vaddr
        k.copyStackLoop c p end_ (vaddr - pageSize) rounds
      else .next k

/-- One round of the other loop of `setup_memory`: the frame that the parent's page
table gives for a page is mapped in the child and counted once more. -/
def sharePage (k : Kernel) (c p vaddr : Word) : Flow Kernel Kernel := do
  let paddr := k.m.virtToPhy vaddr
  let k := k.writeCr3 (k.m.virtToPhy (k.task c).pml4e)
  let k ← k.mapVirtToPhy vaddr paddr userFlags
  let k := k.setMachine { k.m with phy := k.m.phy.incRefCount paddr }
  return k.writeCr3 (k.m.virtToPhy (k.task p).pml4e)

/-- The other loop of `setup_memory`, from the bottom page up. -/
def shareLoop (k : Kernel) (c p end_ vaddr : Word) : Nat → Flow Kernel Kernel
  | 0 => .stuck
  | rounds + 1 =>
      if vaddr < end_ then do
        let k ← k.sharePage c p vaddr
        k.shareLoop c p end_ (vaddr + pageSize) rounds
      else .next k

/-- The rounds that suffice for the pages of an area. -/
def pageRounds : Nat := 2 ^ 52 + 1

/-- One area of `setup_memory`. -/
def copyArea (k : Kernel) (c p vmList : Word) : Flow Kernel Kernel := do
  let area := k.vma vmList
  let mm := (k.task c).mm
  let (k, vma) ← k.createVma mm area.vmStart area.vmEnd area.vmaType area.vmFlags area.vmFileDescp
  let k ← k.addToVmaList mm vma
  if (k.vma vmList).vmaType = .stack then
    k.copyStackLoop fault c p area.vmEnd (alignUp area.vmStart - 4096) pageRounds
  else k.shareLoop c p area.vmEnd (alignDown area.vmStart) pageRounds

/-- The loop of `setup_memory` over the parent's areas. -/
def copyAreas (k : Kernel) (c p : Word) (vmList : Option Word) : Nat → Flow Kernel Kernel
  | 0 => .stuck
  | rounds + 1 =>
      match vmList with
      | none => .next k
      | some vma => do
          let k ← k.copyArea fault c p vma
          k.copyAreas c p (k.nextVma vma) rounds

/-- `setup_memory`. -/
def setupMemory (k : Kernel) (c p : Word) : Flow Kernel Kernel :=
  k.copyAreas fault c p (k.mm (k.task p).mm).vmaList k.vmaRounds

/-! ## Pipes of a task -/

/-- `add_pipe_to_task`. -/
def addPipeToTask (k : Kernel) (task pipe : Word) : Flow Kernel Kernel :=
  match (k.task task).pipe with
  | none => .next ((k.modTask task fun s => { s with pipe := some pipe }).modFile pipe
      fun s => { s with next := none })
  | some first => do
      let temp ← k.lastFile first
      let k := k.modFile temp fun s => { s with next := some pipe }
      return k.modFile pipe fun s => { s with next := none }

/-- `copy_pipe`. -/
def copyPipe (k : Kernel) (dst src : Word) : Kernel :=
  k.modFile dst fun s =>
    { s with name := (k.file src).name, addr := (k.file src).addr, fd := (k.file src).fd,
             size := (k.file src).size, offset := (k.file src).offset, next := none }

/-- The loop that gives a new task copies of the pipes of another. -/
def copyPipes (k : Kernel) (task : Word) (temp : Option Word) : Nat → Flow Kernel Kernel
  | 0 => .stuck
  | rounds + 1 =>
      match temp with
      | none => .next k
      | some temp => do
          let (k, pipe) ← k.newFile
          let k := k.copyPipe pipe temp
          let k ← k.addPipeToTask task pipe
          k.copyPipes task (k.nextFile temp) rounds

/-! ## The system call -/

/-- `"child"`. -/
def childName : List Byte := [0x63, 0x68, 0x69, 0x6c, 0x64]

/-- `system_fork`. -/
def systemFork (k : Kernel) : Flow Kernel (Kernel × Word) := do
  let parent ← Flow.ofOption k.currentTask
  let (k, child) ← k.createNewTask fault (.text childName)
  let k := k.modTask child fun s => { s with ppid := (k.task parent).pid }
  let k := k.modTask child fun s => { s with r := { (k.task parent).r with rax := 0 } }
  let k := k.modMm (k.task child).mm fun s =>
    { s with brkEnd := (k.mm (k.task parent).mm).brkEnd, stackVm := userStack - 8 }
  let k ← k.setupMemory fault child parent
  let k := k.modTask child fun s => { s with parent := some parent }
  let k := k.modTask parent fun s => { s with childCount := s.childCount + 1 }
  let k := k.modTask child fun s =>
    { s with writeRedirectionFd := (k.task parent).writeRedirectionFd,
             readRedirectionFd := (k.task parent).readRedirectionFd }
  let k ← k.copyPipes child (k.task parent).pipe k.fileRounds
  let k := k.modTask parent fun s =>
    { s with r := { s.r with rax := (k.task child).pid.setWidth 64 }, state := .runnable }
  let k := k.setCurrentTask none
  let k ← k.yield
  return (k, 0)

end Kernel

end Sbrocks.Process
