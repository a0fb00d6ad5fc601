import Sbrocks.Process.TaskList

/-!
# The scheduler

`timer_handler` saves the interrupted frame in the current task, picks the next
task, and gives the interrupt stub the frame of the task that is current then.
-/

namespace Sbrocks.Process

namespace Kernel

variable (k : Kernel)

/-- `start_process`; its other arguments are not used there. -/
def startProcess (task : Word) : Kernel :=
  let k := k.writeCr3 (k.m.virtToPhy (k.task task).pml4e)
  k.modTask task fun s => { s with r := { s.r with ss := 0x23, cs := 0x1b, rflag := 0x200 } }

/-- Make a task current and start it. -/
def dispatch (task : Word) : Kernel :=
  let k := k.setCurrentTask (some task)
  let k := k.modTask task fun s => { s with state := .running }
  k.startProcess task

/-- `schedule_process`. -/
def scheduleProcess : Flow Kernel Kernel := do
  match k.currentTask with
  | none =>
      match ← k.getNextTask none with
      | none => return k
      | some task => return k.dispatch task
  | some current =>
      match ← k.getNextTask (some current) with
      | none => return k
      | some task =>
          let k := k.modTask current fun s => { s with state := .runnable }
          return k.dispatch task

/-- `curr_time` after a new second. -/
def newSecond (timer : Timer) (secs : BitVec 32) : Timer :=
  let timer := { timer with ss := secs % 60, prevSecs := secs }
  if secs % 60 = 0 then
    let timer := { timer with mm := timer.mm + 1 }
    if timer.mm % 60 = 0 then
      let timer := { timer with hh := timer.hh + 1, mm := 0 }
      if timer.hh > 24 then { timer with hh := 0 } else timer
    else timer
  else timer

/-- The part of `timer_handler` that counts the ticks. -/
def countTick : Flow Kernel Kernel :=
  let ticks := k.timer.timerTicks + 1
  let k := { k with timer := { k.timer with timerTicks := ticks } }
  let secs := ticks.sdiv 100
  if ticks.srem 18 = 0 ∧ k.timer.prevSecs ≠ secs then do
    let k ← k.updateTimeSlices
    return { k with timer := newSecond k.timer secs }
  else .next k

/-- `task->r = *r` for the current task, if there is one. -/
def saveFrame (r : Regs) : Kernel :=
  match k.currentTask with
  | none => k
  | some task => k.modTask task fun s => { s with r := r }

/-- `*r = task->r` for the current task, if there is one. -/
def writtenBack (r : Regs) : Regs :=
  match k.currentTask with
  | none => r
  | some task => (k.task task).r

/-- `timer_handler`: the state and the frame that the stub restores. -/
def timerHandler (r : Regs) : Flow Kernel (Kernel × Regs) := do
  let k ← (k.saveFrame r).countTick
  let k ← k.scheduleProcess
  return (k, k.writtenBack r)

theorem timerHandler_eq (r : Regs) : k.timerHandler r =
    ((k.saveFrame r).countTick >>= scheduleProcess) >>= fun k => .next (k, k.writtenBack r) := by
  unfold timerHandler
  cases (k.saveFrame r).countTick with
  | next mid => rfl
  | left state => rfl
  | stuck => rfl

/-- `int $0x20` of a function that gave up the processor.  Without a current task
the frame is not saved, so control only comes back when no task is dispatched. -/
def yield : Flow Kernel Kernel := do
  let (k, _) ← k.timerHandler default
  match k.currentTask with
  | none => return k
  | some _ => .left k

end Kernel

end Sbrocks.Process
