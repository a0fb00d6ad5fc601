import Sbrocks.Process.Scheduler

/-!
# The end of a task

`free_task_struct` clears and frees the areas of a task under the task's own
root, unlinks the task and puts its structure on the free list.
-/

namespace Sbrocks.Process

namespace Kernel

variable (fault : Fault)

/-- The part of a round of `free_task_mm_struct` that clears and frees an area. -/
def freeArea (k : Kernel) (task vma : Word) : Flow Kernel Kernel :=
  let start := (k.vma vma).vmStart
  let end_ := (k.vma vma).vmEnd
  if (k.vma vma).vmaType = .stack then do
    let k ← k.memset fault start 0 (end_ - start).toNat
    return k.setMachine (k.m.kfree end_ (start - end_))
  else if (k.task task).parent = none then do
    let k ← k.memset fault start 0 (end_ - start).toNat
    return k.setMachine (k.m.kfree start (end_ - start))
  else .next k

/-- The loop of `free_task_mm_struct`; the link is read after the area was put on
the free list, which cleared it. -/
def freeAreas (k : Kernel) (task : Word) (vma : Option Word) : Nat → Flow Kernel Kernel
  | 0 => .stuck
  | rounds + 1 =>
      match vma with
      | none => .next k
      | some vma => do
          let k ← k.freeArea fault task vma
          let k := k.modVma vma fun s =>
            { s with vmMm := none, vmStart := 0, vmEnd := 0, vmFlags := 0, vmFileDescp := 0 }
          let k ← k.addToFreeVmList vma
          k.freeAreas task (k.nextVma vma) rounds

/-- `free_task_mm_struct`. -/
def freeTaskMmStruct (k : Kernel) (mm task : Word) : Flow Kernel Kernel := do
  let vma := (k.mm mm).vmaList
  let k := k.modMm mm fun s => { s with totalVmSize := 0, stackVm := 0 }
  let k ← k.freeAreas fault task vma k.vmaRounds
  return k.modMm mm fun s => { s with vmaList := none, totalVmSize := 0, stackVm := 0 }

/-- The fields of a task that `free_task_struct` clears. -/
def clearedTask (s : TaskStruct) : TaskStruct :=
  { s with
    state := .stopped, next := none, ppid := 0, writeRedirectionFd := 0, readRedirectionFd := 0,
    pipe := none, parent := none, childCount := 0, waitForChildPid := 0, sleepTime := 0 }

/-- `free_task_struct`. -/
def freeTaskStruct (k : Kernel) (task : Word) : Flow Kernel Kernel := do
  let k := k.writeCr3 (k.m.virtToPhy (k.task task).pml4e)
  let k ← k.removeFromTaskList task
  let k ← k.freeTaskMmStruct fault (k.task task).mm task
  let k := k.modTask task clearedTask
  let k := k.writeCr3 k.m.kCr3
  let k := k.modTask task fun s => { s with pml4e := 0 }
  k.addToFreeTaskList task

/-- The part of `system_exit` that concerns the parent. -/
def leaveParent (k : Kernel) (task : Word) : Flow Kernel Kernel :=
  if (k.task task).ppid > 0 then do
    let parent ← Flow.ofOption (k.task task).parent
    let k := k.modTask parent fun s => { s with state := .runnable }
    k.removeFromParent task
  else .next k

/-- `system_exit`, which never returns: where no task is left to dispatch, it
waits. -/
def systemExit {α : Type} (k : Kernel) : Flow Kernel α := do
  let task ← Flow.ofOption k.currentTask
  let k ← k.leaveParent task
  let k ← k.freeTaskStruct fault task
  let k := k.modTask task fun s => { s with state := .stopped }
  let k := k.setCurrentTask none
  let k ← k.yield
  .left k

/-- `system_kill`. -/
def systemKill (k : Kernel) (processId : Word) : Flow Kernel (Kernel × Word) := do
  match ← k.getTask processId with
  | none => return (k, -1)
  | some t =>
      let k ← k.freeTaskStruct fault t
      return (k.modTask t fun s => { s with state := .stopped }, 0)

end Kernel

end Sbrocks.Process
