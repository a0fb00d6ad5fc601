import Sbrocks.Chain.Basic
import Sbrocks.Flow.Basic
import Sbrocks.Mmu.PageTable

/-!
# Tasks and the state of the kernel

The structures of the process subsystem live in heaps of their own, one for each
structure type, beside the paged memory.  A pointer is the address `kmalloc`
returned for the structure, or nothing for `NULL`.  The heaps cannot show
structures that overlap, so an address that is handed out twice, after the kernel's
virtual memory wrapped around, leaves the computation stuck.  Loops over linked
structures are bounded by the number of structures ever allocated.
-/

namespace Sbrocks.Process

open Sbrocks.Mmu

/-- A `char`. -/
abbrev Byte := BitVec 8

/-- `struct regs`: the registers that the interrupt stubs save and restore. -/
structure Regs where
  gs : Word
  fs : Word
  es : Word
  ds : Word
  r15 : Word
  r14 : Word
  r13 : Word
  r12 : Word
  r11 : Word
  r10 : Word
  r9 : Word
  r8 : Word
  rsi : Word
  rbp : Word
  rdx : Word
  rcx : Word
  rbx : Word
  rax : Word
  rdi : Word
  intNo : Word
  errCode : Word
  rip : Word
  cs : Word
  rflag : Word
  rsp : Word
  ss : Word
deriving DecidableEq, Inhabited

/-- `enum task_states`. -/
inductive TaskState where
  | running
  | idle
  | interruptible
  | uninterruptible
  | zombie
  | stopped
  | swapping
  | runnable
  | sleep
  | waiting
deriving DecidableEq, Inhabited

/-- `enum vma_type`. -/
inductive VmaType where
  | heap
  | stack
  | normal
deriving DecidableEq, Inhabited

/-- `struct task_struct`, as far as it is used. -/
structure TaskStruct where
  pid : BitVec 32
  ppid : BitVec 32
  name : List Byte
  state : TaskState
  next : Option Word
  pml4e : Word
  sleepTime : Word
  r : Regs
  parent : Option Word
  childCount : Word
  waitForChildPid : Word
  mm : Word
  pipe : Option Word
  writeRedirectionFd : Word
  readRedirectionFd : Word
deriving Inhabited

/-- `struct mm_struct`, as far as it is used. -/
structure MmStruct where
  vmaList : Option Word
  totalVmSize : Word
  stackVm : Word
  brkStart : Word
  brkEnd : Word
deriving Inhabited

/-- `struct vm_area_struct`. -/
structure VmAreaStruct where
  vmMm : Option Word
  vmStart : Word
  vmEnd : Word
  vmFlags : Word
  vmFileDescp : Word
  vmaType : VmaType
  next : Option Word
deriving Inhabited

/-- `struct file`, of the archive and of pipes alike. -/
structure File where
  name : List Byte
  fd : Word
  addr : Word
  type : Word
  size : Word
  offset : Word
  next : Option Word
deriving Inhabited

/-- `enum control`. -/
inductive Control where
  | normalKey
  | controlKey
  | shiftKey
  | altKey
deriving DecidableEq, Inhabited

/-- The variables of the keyboard driver. -/
structure Keyboard where
  curentControl : Control
  flag : Bool
  i : Nat
  str : Word
  count : Word
  a : Nat → Byte
  waitingTask : Option Word

/-- The variables of the timer; `curr_time` by its three fields. -/
structure Timer where
  timerTicks : BitVec 32
  prevSecs : BitVec 32
  hh : BitVec 32
  mm : BitVec 32
  ss : BitVec 32

/-- The state of the kernel. -/
structure Kernel where
  m : Machine
  task : Word → TaskStruct
  mm : Word → MmStruct
  vma : Word → VmAreaStruct
  file : Word → File
  /-- The task structures ever created. -/
  taskStructs : List Word
  /-- The memory structures ever allocated. -/
  mmStructs : List Word
  /-- The area structures ever allocated. -/
  vmaStructs : List Word
  /-- The file structures ever allocated. -/
  fileStructs : List Word
  taskList : Option Word
  freeTaskList : Option Word
  freeVmList : Option Word
  currentTask : Option Word
  pid : Word
  timer : Timer
  kb : Keyboard
  /-- `filelist`, the files of the archive. -/
  filelist : Option Word
  fdCount : BitVec 32
  cwd : List Byte
  /-- `&_binary_tarfs_start`. -/
  binaryTarfsStart : Word
  pipeReadWaitQueue : Option Word
  /-- `str` of the system calls. -/
  str : Word
  /-- `count` of the system calls. -/
  count : Word
  pipeWriteFlag : Bool
  /-- The number of page faults that the kernel itself has taken. -/
  kernelFaults : Nat

namespace Kernel

/-- The kernel's variables before anything ran, over a machine and an archive. -/
def initial (m : Machine) (binaryTarfsStart : Word) : Kernel where
  m := m
  task _ := default
  mm _ := default
  vma _ := default
  file _ := default
  taskStructs := []
  mmStructs := []
  vmaStructs := []
  fileStructs := []
  taskList := none
  freeTaskList := none
  freeVmList := none
  currentTask := none
  pid := 1
  timer := { timerTicks := 0, prevSecs := 0, hh := 0, mm := 0, ss := 0 }
  kb :=
    { curentControl := .normalKey, flag := false, i := 0, str := 0, count := 0, a := fun _ => 0,
      waitingTask := none }
  filelist := none
  fdCount := 2
  cwd := []
  binaryTarfsStart := binaryTarfsStart
  pipeReadWaitQueue := none
  str := 0
  count := 0
  pipeWriteFlag := false
  kernelFaults := 0

variable (k : Kernel)

/-- Change the task structure at an address. -/
def modTask (t : Word) (change : TaskStruct → TaskStruct) : Kernel :=
  { k with task := Function.update k.task t (change (k.task t)) }

/-- Change the memory structure at an address. -/
def modMm (p : Word) (change : MmStruct → MmStruct) : Kernel :=
  { k with mm := Function.update k.mm p (change (k.mm p)) }

/-- Change the area structure at an address. -/
def modVma (p : Word) (change : VmAreaStruct → VmAreaStruct) : Kernel :=
  { k with vma := Function.update k.vma p (change (k.vma p)) }

/-- Change the file structure at an address. -/
def modFile (p : Word) (change : File → File) : Kernel :=
  { k with file := Function.update k.file p (change (k.file p)) }

/-- Change the memory. -/
def setMachine (m : Machine) : Kernel := { k with m := m }

/-- `set_current_task`. -/
def setCurrentTask (t : Option Word) : Kernel := { k with currentTask := t }

/-- `write_cr3`. -/
def writeCr3 (cr3 : Word) : Kernel := k.setMachine (k.m.writeCr3 cr3)

/-! ## What the changes change -/

theorem modTask_task_self (t : Word) (change : TaskStruct → TaskStruct) :
    (k.modTask t change).task t = change (k.task t) :=
  Function.update_self ..

theorem modTask_task_of_ne {t other : Word} (different : other ≠ t)
    (change : TaskStruct → TaskStruct) : (k.modTask t change).task other = k.task other :=
  Function.update_of_ne different ..

/-- A change that leaves a field alone leaves it alone in every task. -/
theorem modTask_task_field {γ : Type} (field : TaskStruct → γ) (t other : Word)
    {change : TaskStruct → TaskStruct} (kept : field (change (k.task t)) = field (k.task t)) :
    field ((k.modTask t change).task other) = field (k.task other) := by
  by_cases same : other = t
  · rw [same, modTask_task_self, kept]
  · rw [modTask_task_of_ne k same]

@[simp]
theorem modTask_currentTask (t : Word) (change : TaskStruct → TaskStruct) :
    (k.modTask t change).currentTask = k.currentTask :=
  rfl

@[simp]
theorem modTask_m (t : Word) (change : TaskStruct → TaskStruct) : (k.modTask t change).m = k.m :=
  rfl

@[simp]
theorem setMachine_task (m : Machine) : (k.setMachine m).task = k.task :=
  rfl

@[simp]
theorem setMachine_m (m : Machine) : (k.setMachine m).m = m :=
  rfl

@[simp]
theorem setMachine_currentTask (m : Machine) : (k.setMachine m).currentTask = k.currentTask :=
  rfl

@[simp]
theorem setCurrentTask_task (t : Option Word) : (k.setCurrentTask t).task = k.task :=
  rfl

@[simp]
theorem setCurrentTask_m (t : Option Word) : (k.setCurrentTask t).m = k.m :=
  rfl

@[simp]
theorem setCurrentTask_currentTask (t : Option Word) : (k.setCurrentTask t).currentTask = t :=
  rfl

@[simp]
theorem writeCr3_task (cr3 : Word) : (k.writeCr3 cr3).task = k.task :=
  rfl

@[simp]
theorem writeCr3_m (cr3 : Word) : (k.writeCr3 cr3).m = k.m.writeCr3 cr3 :=
  rfl

@[simp]
theorem writeCr3_currentTask (cr3 : Word) : (k.writeCr3 cr3).currentTask = k.currentTask :=
  rfl

/-! ## Allocation and bounds -/

/-- `kmalloc`. -/
def kmalloc (size : Word) : Flow Kernel (Kernel × Word) := do
  let (m, addr) ← Flow.ofOption (k.m.kmalloc size)
  return (k.setMachine m, addr)

/-- `kmalloc` of a structure, apart from those of the same type. -/
def kmallocStruct (size : Word) (structs : List Word) : Flow Kernel (Kernel × Word) := do
  let (k, addr) ← k.kmalloc size
  if addr ∈ structs then .stuck else return (k, addr)

/-- The rounds that suffice for a list of tasks. -/
def taskRounds : Nat := k.taskStructs.length + 1

/-- The rounds that suffice for a list of areas. -/
def vmaRounds : Nat := k.vmaStructs.length + 1

/-- The rounds that suffice for a list of files. -/
def fileRounds : Nat := k.fileStructs.length + 1

end Kernel

end Sbrocks.Process
