import Sbrocks.Process.Access

/-!
# Lists of tasks and areas

The functions of `process.c` that link, unlink and create structures.
-/

namespace Sbrocks.Process

open Sbrocks.Mmu

/-- `"idle"`. -/
def idleName : List Byte := [0x69, 0x64, 0x6c, 0x65]

namespace Kernel

variable (k : Kernel)

/-- The link of a task. -/
def nextTask (t : Word) : Option Word := (k.task t).next

/-- The link of an area. -/
def nextVma (p : Word) : Option Word := (k.vma p).next

/-- A change that leaves the link of an area alone leaves every link alone. -/
theorem modVma_nextVma (vma p : Word) (change : VmAreaStruct → VmAreaStruct)
    (kept : (change (k.vma vma)).next = (k.vma vma).next) :
    (k.modVma vma change).nextVma p = k.nextVma p := by
  by_cases same : p = vma
  · subst same
    exact (congrArg VmAreaStruct.next (Function.update_self ..)).trans kept
  · exact congrArg VmAreaStruct.next (Function.update_of_ne same ..)

/-- The link of a file. -/
def nextFile (p : Word) : Option Word := (k.file p).next

/-- The last task of a list. -/
def lastTask (first : Word) : Flow Kernel Word :=
  Flow.ofOption (Chain.last k.nextTask k.taskRounds first)

/-- The last area of a list. -/
def lastVma (first : Word) : Flow Kernel Word :=
  Flow.ofOption (Chain.last k.nextVma k.vmaRounds first)

/-- The last file of a list. -/
def lastFile (first : Word) : Flow Kernel Word :=
  Flow.ofOption (Chain.last k.nextFile k.fileRounds first)

/-- `add_to_task_list`. -/
def addToTaskList (task : Word) : Flow Kernel Kernel :=
  match k.taskList with
  | none => .next ({ k with taskList := some task }.modTask task fun s => { s with next := none })
  | some first => do
      let t ← k.lastTask first
      let k := k.modTask t fun s => { s with next := some task }
      return k.modTask task fun s => { s with next := none }

/-- `add_to_free_task_list`. -/
def addToFreeTaskList (task : Word) : Flow Kernel Kernel :=
  match k.freeTaskList with
  | none => .next
      ({ k with freeTaskList := some task }.modTask task fun s => { s with next := none })
  | some first => do
      let t ← k.lastTask first
      let k := k.modTask t fun s => { s with next := some task }
      return k.modTask task fun s => { s with next := none }

/-- `add_to_free_vm_list`. -/
def addToFreeVmList (vma : Word) : Flow Kernel Kernel :=
  match k.freeVmList with
  | none => .next ({ k with freeVmList := some vma }.modVma vma fun s => { s with next := none })
  | some first => do
      let p ← k.lastVma first
      let k := k.modVma p fun s => { s with next := some vma }
      return k.modVma vma fun s => { s with next := none }

/-- `create_new_mmstruct`. -/
def createNewMmstruct : Flow Kernel (Kernel × Word) := do
  let (k, mm) ← k.kmallocStruct 96 k.mmStructs
  let k := { k with mmStructs := mm :: k.mmStructs }
  let k := k.modMm mm fun s => { s with vmaList := none, totalVmSize := 0, stackVm := 0 }
  return (k, mm)

/-- `get_free_task`: a structure of the free list, or a new one. -/
def getFreeTask : Flow Kernel (Kernel × Word) :=
  match k.freeTaskList with
  | some task => .next ({ k with freeTaskList := (k.task task).next }, task)
  | none => do
      let (k, task) ← k.kmallocStruct 4520 k.taskStructs
      let (k, mm) ← k.createNewMmstruct
      return (k.modTask task fun s => { s with mm := mm }, task)

/-- `get_free_vma`: a structure of the free list, or a new one. -/
def getFreeVma : Flow Kernel (Kernel × Word) :=
  match k.freeVmList with
  | some vma => .next ({ k with freeVmList := (k.vma vma).next }, vma)
  | none => do
      let (k, vma) ← k.kmallocStruct 56 k.vmaStructs
      return ({ k with vmaStructs := vma :: k.vmaStructs }, vma)

/-- `create_vma`. -/
def createVma (vmMm start end_ : Word) (type : VmaType) (flags fd : Word) :
    Flow Kernel (Kernel × Word) := do
  let (k, vma) ← k.getFreeVma
  let k := k.modVma vma fun _ =>
    { vmMm := some vmMm, vmStart := start, vmEnd := end_, vmaType := type, vmFlags := flags,
      vmFileDescp := fd, next := none }
  return (k, vma)

/-- `add_to_vma_list`. -/
def addToVmaList (mm vma : Word) : Flow Kernel Kernel :=
  match (k.mm mm).vmaList with
  | none => .next (k.modMm mm fun s => { s with vmaList := some vma })
  | some first => do
      let p ← k.lastVma first
      return k.modVma p fun s => { s with next := some vma }

/-- `remove_from_task_list`. -/
def removeFromTaskList (task : Word) : Flow Kernel Kernel :=
  let k := k.modTask task fun s => { s with state := .stopped }
  match k.taskList with
  | none => .next k
  | some first =>
      if first = task then .next { k with taskList := k.nextTask first }
      else do
        let p ← Flow.ofOption (Chain.before k.nextTask task k.taskRounds first)
        match p with
        | none => return k
        | some p => return k.modTask p fun s => { s with next := k.nextTask task }

/-- The test of `get_next_task`. -/
def dispatchable (currentTask task : Word) : Bool :=
  task ≠ currentTask && (k.task task).state = .runnable

/-- `get_next_task`. -/
def getNextTask (currentTask : Option Word) : Flow Kernel (Option Word) :=
  match currentTask with
  | none => .next k.taskList
  | some current => do
      let after ← Flow.ofOption
        (Chain.scan k.nextTask (k.dispatchable current) k.taskRounds (k.nextTask current))
      match after with
      | some task => return some task
      | none =>
          Flow.ofOption (Chain.scan k.nextTask (k.dispatchable current) k.taskRounds k.taskList)

/-- `get_task`. -/
def getTask (pid : Word) : Flow Kernel (Option Word) :=
  Flow.ofOption
    (Chain.scan k.nextTask (fun t => (k.task t).pid.setWidth 64 = pid) k.taskRounds k.taskList)

/-- The fields of a task that `create_new_task` sets before the address space. -/
def freshTask (pid : BitVec 32) (name : List Byte) (s : TaskStruct) : TaskStruct :=
  { s with
    pid := pid, ppid := 0, sleepTime := 0, parent := none, pipe := none, childCount := 0,
    writeRedirectionFd := 0, readRedirectionFd := 0, waitForChildPid := 0, name := name,
    state := .runnable }

/-- `create_new_task`. -/
def createNewTask (fault : Fault) (taskname : CString) : Flow Kernel (Kernel × Word) := do
  let (k, task) ← k.getFreeTask
  let (k, name) ← k.chars fault taskname 0 stringRounds
  let k ← (if name = idleName then .next k else k.addToTaskList task)
  let k := k.modTask task (freshTask (k.pid.setWidth 32) name)
  let k := { k with pid := k.pid + 1, taskStructs := k.taskStructs.insert task }
  let (m, pml4e) ← Flow.ofOption k.m.envSetupVm
  let k := (k.setMachine m).modTask task fun s =>
    { s with
      pml4e := pml4e, next := none, r := { s.r with ds := 0x23, fs := 0x23, es := 0x23, gs := 0x23 } }
  return (k, task)

/-- One round of `update_time_slices`. -/
def updateTimeSlice (s : TaskStruct) : TaskStruct :=
  if s.state = .sleep then
    if s.sleepTime = 0 then { s with state := .runnable }
    else { s with sleepTime := s.sleepTime - 1 }
  else s

/-- The loop of `update_time_slices`. -/
def updateTimeSlicesLoop (k : Kernel) (t : Option Word) : Nat → Flow Kernel Kernel
  | 0 => .stuck
  | rounds + 1 =>
      match t with
      | none => .next k
      | some t =>
          let k := k.modTask t updateTimeSlice
          k.updateTimeSlicesLoop (k.nextTask t) rounds

/-- `update_time_slices`. -/
def updateTimeSlices : Flow Kernel Kernel :=
  k.updateTimeSlicesLoop k.taskList k.taskRounds

/-- `remove_from_parent`. -/
def removeFromParent (child : Word) : Flow Kernel Kernel := do
  let parent ← Flow.ofOption (k.task child).parent
  let k := k.modTask parent fun s => { s with childCount := s.childCount - 1 }
  if (k.task parent).state = .waiting ∧
      (k.task parent).waitForChildPid = (k.task child).pid.setWidth 64 then
    return k.modTask parent fun s => { s with state := .runnable }
  return k

end Kernel

end Sbrocks.Process
