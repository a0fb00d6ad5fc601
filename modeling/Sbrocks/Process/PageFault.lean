import Sbrocks.Process.Exit

/-!
# Page faults

`page_fault_handler` saves the interrupted frame in the current task, as every
handler does, whether a user program or the kernel itself was interrupted.  The
kernel takes page faults on user buffers and while it clears the areas of a task,
and the handler can take further ones, so it is tied to itself with a bound on
the depth.
-/

namespace Sbrocks.Process

open Sbrocks.Mmu

/-- `PT_PRESENT_FLAG | PT_WRITABLE_FLAG | PT_USER`. -/
def userFlags : Word := ptPresentFlag ||| ptWritableFlag ||| ptUser

/-- The bit of `set_cow_bit`. -/
def cowBit : Word := 0x4000000000000000

/-- `is_cow_set`. -/
def isCowSet (entry : Word) : Bool := entry &&& cowBit != 0

/-- `is_writable_page`. -/
def isWritablePage (entry : Word) : Bool := entry &&& ptWritableFlag != 0

namespace Kernel

variable (fault : Fault)

/-- `alloc_pages_at_virt`. -/
def allocPagesAtVirt (k : Kernel) (virt size flags : Word) : Flow Kernel Kernel := do
  let m ← Flow.ofOption (k.m.allocPagesAtVirt virt size flags)
  return k.setMachine m

/-- `alloc_pages`. -/
def allocPages (k : Kernel) (noOfPages : Nat) (flags : Word) : Flow Kernel (Kernel × Word) := do
  let (m, addr) ← Flow.ofOption (k.m.allocPages noOfPages flags)
  return (k.setMachine m, addr)

/-- `map_virt_to_phy`. -/
def mapVirtToPhy (k : Kernel) (virt phy flags : Word) : Flow Kernel Kernel := do
  let m ← Flow.ofOption (k.m.mapVirtToPhy virt phy flags)
  return k.setMachine m

/-- The area of a heap fault: two pages beyond its end still belong to it. -/
def inHeap (area : VmAreaStruct) (addr : Word) : Bool :=
  area.vmStart ≤ addr && addr < area.vmEnd + 2 * pageSize

/-- The area of a stack fault: it grows down from its start. -/
def inStack (area : VmAreaStruct) (addr : Word) : Bool :=
  addr ≤ area.vmStart && area.vmEnd < addr

/-- The loop of `demand_paging`. -/
def demandPagingLoop (k : Kernel) (task addr : Word) (vma : Option Word) : Nat → Flow Kernel Kernel
  | 0 => .stuck
  | rounds + 1 =>
      match vma with
      | none => k.systemExit fault
      | some vma =>
          let area := k.vma vma
          if area.vmaType = .heap ∧ inHeap area addr then do
            let k := k.writeCr3 (k.m.virtToPhy (k.task task).pml4e)
            let vaddr := alignDown addr
            let k ← k.allocPagesAtVirt vaddr pageSize userFlags
            k.memset fault vaddr 0 4096
          else if area.vmaType = .stack ∧ inStack area addr then do
            let k := k.writeCr3 (k.m.virtToPhy (k.task task).pml4e)
            let vaddr := alignUp addr - 4096
            k.allocPagesAtVirt vaddr pageSize userFlags
          else k.demandPagingLoop task addr area.next rounds

/-- `demand_paging`. -/
def demandPaging (k : Kernel) (addr : Word) : Flow Kernel Kernel := do
  let task ← Flow.ofOption k.currentTask
  k.demandPagingLoop fault task addr (k.mm (k.task task).mm).vmaList k.vmaRounds

/-- The branch of `page_fault_handler` for a present page. -/
def protectionFault (k : Kernel) (vaddr : Word) : Flow Kernel Kernel := do
  let (table, offset) ← Flow.ofOption (k.m.getPteEntry vaddr)
  let pte := k.m.mem table offset
  let paddr := pte &&& 0x000FFFFFFFFFF000
  if isCowSet pte && !isWritablePage pte then
    let startAddr := alignDown vaddr
    let (k, dummyVaddr) ← k.allocPages 1 userFlags
    let phyAddr := k.m.virtToPhy dummyVaddr
    let k ← k.memcpy fault dummyVaddr startAddr 4096
    let k ← k.mapVirtToPhy startAddr phyAddr userFlags
    let k := k.setMachine { k.m with phy := k.m.phy.decRefCount paddr }
    let (table, offset) ← Flow.ofOption (k.m.getPteEntry startAddr)
    return k.setMachine (k.m.setEntry table offset (k.m.mem table offset ||| cowBit))
  else return k

/-- `page_fault_handler`, at the address in `cr2`: the state and the frame that
the stub restores. -/
def pageFaultHandler (k : Kernel) (vaddr : Word) (r : Regs) : Flow Kernel (Kernel × Regs) := do
  let k := k.saveFrame r
  if virtKernelBase ≤ vaddr then k.systemExit fault
  else
    let k ← (if r.errCode &&& 1 ≠ 0 then k.protectionFault fault vaddr
      else k.demandPaging fault vaddr)
    return (k, k.writtenBack r)

/-- The frame of the kernel when it faults on a page that is not present. -/
def kernelFrame (frame : Regs) : Regs := { frame with cs := 0x08, errCode := frame.errCode &&& ~~~1 }

/-- A page fault of the kernel itself, with at most `depth` faults inside one
another; the registers it is interrupted with are a parameter.  The kernel only
goes on if the stub restores those registers. -/
def kernelFault (frames : Kernel → Word → Regs) : Nat → Fault
  | 0 => fun _ _ => .stuck
  | depth + 1 => fun k vaddr => do
      let frame := kernelFrame (frames k vaddr)
      let k := { k with kernelFaults := k.kernelFaults + 1 }
      let (k, r) ← k.pageFaultHandler (kernelFault frames depth) vaddr frame
      if r = frame then return k else .stuck

end Kernel

end Sbrocks.Process
