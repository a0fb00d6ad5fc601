import Sbrocks.Process.Devices
import Sbrocks.System.Pipes

/-!
# Readers of pipes that wait

One reader of redirected standard input is remembered at a time, with its buffer, and
it is remembered for ever.
-/

namespace Sbrocks.Process

open Sbrocks.Mmu Sbrocks.Radix

variable {fault : Fault} {k k' : Kernel}

/-! ## What a wake-up does -/

/-- The place that an address reaches with the page table of a task. -/
def Kernel.placeIn (k : Kernel) (task virt : Word) : Option Place :=
  (k.m.writeCr3 (k.m.virtToPhy (k.task task).pml4e)).place virt

/-- A read of redirected standard input that was put to sleep. -/
structure SleepingRead where
  task : Word
  buf : Word
  count : Word

/-- The number of bytes that the read asks for. -/
def SleepingRead.length (read : SleepingRead) : Nat := (ofInt (toInt read.count)).toNat

/-- The read is the one that the next write serves. -/
structure Registered (k : Kernel) (read : SleepingRead) : Prop where
  queue : k.pipeReadWaitQueue = some read.task
  str : k.str = read.buf
  count : k.count = read.count

/-- The data of the reader's pipe was stored into its buffer in its own address space, and
nothing into the memory of others. -/
structure Delivered (k k' : Kernel) (read : SleepingRead) : Prop where
  stored : ∀ nodes f, Pipes k read.task nodes → f ∈ nodes →
    (k.file f).fd = (k.task read.task).readRedirectionFd → ∀ i < read.length,
      ∃ source target,
        k.m.place ((k.file f).addr + (k.file f).offset + BitVec.ofNat 64 i) = some source ∧
        k.placeIn read.task (read.buf + BitVec.ofNat 64 i) = some target ∧
        k'.m.byte target = k.m.byte source
  others : ∀ place, k'.m.byte place ≠ k.m.byte place →
    (∃ i < read.length, k.placeIn read.task (read.buf + BitVec.ofNat 64 i) = some place) ∧
      ∀ t virt, t ≠ read.task → k.placeIn t virt ≠ some place

/-- A write woke a task: which reads slept, and the states around the wake-up. -/
structure WakeUp where
  sleeping : List SleepingRead
  task : Word
  before : Kernel
  after : Kernel

/-- The wake-up serves a read that sleeps. -/
def WakeUp.Serves (wakeUp : WakeUp) : Prop :=
  ∃ read ∈ wakeUp.sleeping, read.task = wakeUp.task ∧ Delivered wakeUp.before wakeUp.after read

/-! ## Interleavings of reads and writes -/

/-- What may be asked of the steps of a run, given the reads that sleep. -/
structure Queueing.Conditions where
  sleeps : List SleepingRead → Kernel → Prop
  wakes : List SleepingRead → Kernel → Prop

/-- Tasks read redirected standard input and write redirected standard output: which reads
sleep, which wake-ups there were, and the state reached. -/
inductive Queueing (fault : Fault) (meets : Queueing.Conditions) :
    List SleepingRead → List WakeUp → Kernel → Prop
  | start {k : Kernel} (nobody : k.pipeReadWaitQueue = none) : Queueing fault meets [] [] k
  | sleep {k k' : Kernel} {sleeping : List SleepingRead} {wakeUps : List WakeUp}
      {task buf nbytes : Word} (before : Queueing fault meets sleeping wakeUps k)
      (running : k.currentTask = some task) (stdin : k.isFilePipe task 0 = .next false)
      (redirected : (k.task task).readRedirectionFd ≠ 0) (nothing : k.pipeWriteFlag = false)
      (called : Ends (k.systemRead fault 0 buf nbytes) k') (met : meets.sleeps sleeping k) :
      Queueing fault meets (sleeping ++ [⟨task, buf, nbytes⟩]) wakeUps k'
  | write {k k' : Kernel} {sleeping : List SleepingRead} {wakeUps : List WakeUp}
      {task buf nbytes : Word} (before : Queueing fault meets sleeping wakeUps k)
      (running : k.currentTask = some task) (stdout : k.isFilePipe task 1 = .next false)
      (redirected : (k.task task).writeRedirectionFd ≠ 0) (nobody : k.pipeReadWaitQueue = none)
      (called : k.systemWrite fault 1 buf nbytes = .next (k', nbytes)) :
      Queueing fault meets sleeping wakeUps k'
  | wake {k k₁ k' : Kernel} {sleeping : List SleepingRead} {wakeUps : List WakeUp}
      {task buf nbytes reader : Word} (before : Queueing fault meets sleeping wakeUps k)
      (running : k.currentTask = some task) (stdout : k.isFilePipe task 1 = .next false)
      (redirected : (k.task task).writeRedirectionFd ≠ 0)
      (somebody : k.pipeReadWaitQueue = some reader)
      (put : k.writeToPipe fault task (k.task task).writeRedirectionFd buf (toInt nbytes) =
        .next k₁)
      (called : k.systemWrite fault 1 buf nbytes = .next (k', nbytes))
      (met : meets.wakes sleeping k) :
      Queueing fault meets (sleeping.filter fun read => read.task ≠ reader)
        (wakeUps ++ [⟨sleeping, reader, k₁, k'⟩]) k'
  | other {k k' : Kernel} {sleeping : List SleepingRead} {wakeUps : List WakeUp}
      (before : Queueing fault meets sleeping wakeUps k)
      (queue : k'.pipeReadWaitQueue = k.pipeReadWaitQueue) (str : k'.str = k.str)
      (count : k'.count = k.count) : Queueing fault meets sleeping wakeUps k'

namespace Queueing

/-- No reader goes to sleep while another one sleeps, and no write wakes a reader unless it
still sleeps and asks for nothing. -/
def alone : Conditions where
  sleeps sleeping _ := sleeping = []
  wakes sleeping k := ∃ read ∈ sleeping, k.pipeReadWaitQueue = some read.task ∧ read.length = 0

end Queueing

/-! ## What the calls leave alone -/

namespace Kernel

variable {frames : Kernel → Word → Regs} {depth : Nat}

/-- What every action on a pipe preserves, a loop over pipes preserves. -/
theorem eachPipe_next {P : Kernel → Prop} {act : Kernel → Word → Flow Kernel Kernel}
    (acts : ∀ k f k', P k → act k f = .next k' → P k') {fd : Word} {head : Option Word}
    {rounds : Nat} (holds : P k) (called : k.eachPipe act fd head rounds = .next k') : P k' := by
  induction rounds generalizing k head with
  | zero => cases called
  | succ rounds ih =>
      cases head with
      | none =>
          cases called
          exact holds
      | some f =>
          rcases Flow.bind_eq_next called with ⟨k₁, acted, rest⟩
          refine ih ?_ rest
          split at acted
          · exact acts k f k₁ holds acted
          · cases acted
            exact holds

/-- What the readers that sleep are remembered by. -/
def waits (k : Kernel) : Option Word × Word × Word := (k.pipeReadWaitQueue, k.str, k.count)

theorem memcpy_waits {s1 s2 : Word} {n : Nat}
    (called : k.memcpy (kernelFault frames depth) s1 s2 n = .next k') : k'.waits = k.waits := by
  have touches := memcpy_touches (kernelFault_touched frames depth).touched (k := k) trivial s1 s2 n
  have same := Touched.devices (touches.of_next called)
  exact congrArg (fun d : Devices => (d.pipeReadWaitQueue, d.str, d.count)) same

theorem writeToPipe_waits {task fd buf : Word} {nbytes : BitVec 32}
    (called : k.writeToPipe (kernelFault frames depth) task fd buf nbytes = .next k') :
    k'.waits = k.waits := by
  apply eachPipe_next (P := fun k' => k'.waits = k.waits) _ rfl called
  intro k₁ f k₂ same acted
  rcases Flow.bind_eq_next acted with ⟨k₃, copied, last⟩
  cases last
  exact (memcpy_waits copied).trans same

/-- Reading nothing changes no memory. -/
theorem readFromPipe_zero {task fd buf : Word} {nbytes : BitVec 32}
    (nothing : (ofInt nbytes).toNat = 0)
    (called : k.readFromPipe fault task fd buf nbytes = .next k') : k'.m = k.m := by
  apply eachPipe_next (P := fun k' => k'.m = k.m) _ rfl called
  intro k₁ f k₂ same acted
  rw [nothing] at acted
  cases acted
  exact same

/-- A sleeping read is remembered. -/
theorem systemRead_sleep {task buf nbytes : Word} (running : k.currentTask = some task)
    (stdin : k.isFilePipe task 0 = .next false)
    (redirected : (k.task task).readRedirectionFd ≠ 0) (nothing : k.pipeWriteFlag = false)
    (called : Ends (k.systemRead fault 0 buf nbytes) k') :
    k'.waits = (some task, buf, nbytes) := by
  obtain ⟨asleep, same⟩ : ∃ asleep, asleep =
      ({ k with str := buf, count := nbytes } : Kernel).addToPipeReadWaitingQueue task := ⟨_, rfl⟩
  have read : k.systemRead fault 0 buf nbytes = (do
      let k' ← asleep.yield
      return (k', 0)) := by
    unfold systemRead
    rw [running, Flow.ofOption_some, Flow.next_bind, stdin, Flow.next_bind, same]
    dsimp only
    rw [if_neg Bool.false_ne_true, if_pos rfl, if_pos redirected, nothing,
      if_neg Bool.false_ne_true]
    rfl
  have kept : Keeps asleep.devices (k.systemRead fault 0 buf nbytes) := by
    rw [read]
    apply Keeps.bind (yield_keeps rfl)
    intro k₁ kept₁
    exact kept₁
  have final := Flow.All.ends (P := fun k => k.devices = asleep.devices) kept called
  have waits : asleep.waits = (some task, buf, nbytes) := by
    rw [same]
    rfl
  rw [← waits]
  exact congrArg (fun d : Devices => (d.pipeReadWaitQueue, d.str, d.count)) (final.elim id id)

/-- A write of redirected output, and the wake-up after it. -/
theorem systemWrite_redirected {task buf nbytes : Word} (running : k.currentTask = some task)
    (stdout : k.isFilePipe task 1 = .next false)
    (redirected : (k.task task).writeRedirectionFd ≠ 0) :
    k.systemWrite fault 1 buf nbytes = (do
      let k ← k.writeToPipe fault task (k.task task).writeRedirectionFd buf (toInt nbytes)
      let k ← ({ k with pipeWriteFlag := true } : Kernel).wakeUpWaitingTask fault
      return (k, nbytes)) := by
  unfold systemWrite
  rw [running, Flow.ofOption_some, Flow.next_bind, stdout, Flow.next_bind,
    if_neg Bool.false_ne_true, if_pos rfl, if_pos redirected]

/-- Waking a reader that asked for nothing changes no memory. -/
theorem wakeUpWaitingTask_zero (nothing : (ofInt (toInt k.count)).toNat = 0)
    (called : k.wakeUpWaitingTask fault = .next k') : k'.m = k.m := by
  unfold wakeUpWaitingTask at called
  split at called
  · cases called
    rfl
  · rcases Flow.bind_eq_next called with ⟨k₁, read, last⟩
    cases last
    have same := fun zero => readFromPipe_zero zero read
    exact same nothing

end Kernel

/-! ## Readers that sleep alone -/

namespace Queueing

variable {frames : Kernel → Word → Regs} {depth : Nat} {sleeping : List SleepingRead}
  {wakeUps : List WakeUp}

/-- A task whose input comes from a pipe runs, and one whose output goes there is ready. -/
def readerAndWriter : Kernel :=
  { Kernel.initial flatMachine 0x100 with
    file := fun f => { (default : File) with fd := if f = 0x10000 then 2 else 3, addr := 0x12000 }
    fileStructs := [0x11000, 0x10000]
    task := fun t =>
      if t = 0x1000 then
        { (default : TaskStruct) with
          pid := 1, state := .running, pml4e := 0x1000, pipe := some 0x10000,
          readRedirectionFd := 2 }
      else
        { (default : TaskStruct) with
          pid := 2, state := .runnable, next := some 0x1000, pml4e := 0x1000,
          pipe := some 0x11000, writeRedirectionFd := 3 }
    taskStructs := [0x1000, 0x2000]
    taskList := some 0x2000
    currentTask := some 0x1000 }

/-- The second task writes a byte while the first one is registered, and the state reached
passes a test. -/
def writes (k : Kernel) (test : Kernel → Bool) : Bool :=
  k.currentTask = some 0x2000 && (k.isFilePipe 0x2000 1).returns (fun pipe => !pipe) &&
    (k.task 0x2000).writeRedirectionFd = 3 && k.pipeReadWaitQueue = some 0x1000 &&
    (k.writeToPipe (Kernel.kernelFault noFrames 0) 0x2000 3 0x9000 1).returns (fun _ => true) &&
    (k.systemWrite (Kernel.kernelFault noFrames 0) 1 0x9000 1).returns fun (k', count) =>
      count = 1 && test k'

theorem writes_wake {meets : Conditions} {test : Kernel → Bool}
    (queueing : Queueing (Kernel.kernelFault noFrames 0) meets sleeping wakeUps k)
    (met : meets.wakes sleeping k) (checked : writes k test = true) : ∃ k₁ k',
    Queueing (Kernel.kernelFault noFrames 0) meets (sleeping.filter fun read => read.task ≠ 0x1000)
      (wakeUps ++ [⟨sleeping, 0x1000, k₁, k'⟩]) k' ∧ test k' = true := by
  simp only [writes, Bool.and_eq_true, decide_eq_true_eq] at checked
  rcases checked with ⟨⟨⟨⟨⟨running, stdout⟩, redirected⟩, somebody⟩, put⟩, called⟩
  rcases Flow.returns_next stdout with ⟨pipe, stdout, notPipe⟩
  rcases Flow.returns_next put with ⟨k₁, put, _⟩
  rcases Flow.returns_next called with ⟨⟨k', count⟩, called, facts⟩
  simp only [Bool.and_eq_true, decide_eq_true_eq] at facts
  rcases facts with ⟨rfl, tested⟩
  rw [(Bool.not_eq_true' pipe).mp notPipe] at stdout
  refine ⟨k₁, k', queueing.wake running stdout ?_ somebody (redirected ▸ put) called met, tested⟩
  rw [redirected]
  decide

/-- The first task reads some bytes, and the state reached passes a test. -/
def sleeps (k : Kernel) (nbytes : Word) (test : Kernel → Bool) : Bool :=
  k.currentTask = some 0x1000 && (k.isFilePipe 0x1000 0).returns (fun pipe => !pipe) &&
    (k.task 0x1000).readRedirectionFd = 2 && k.pipeWriteFlag = false &&
    Flow.checks (k.systemRead (Kernel.kernelFault noFrames 0) 0 0x8000 nbytes) test

theorem sleeps_sleep {meets : Conditions} {nbytes : Word} {test : Kernel → Bool}
    (queueing : Queueing (Kernel.kernelFault noFrames 0) meets sleeping wakeUps k)
    (met : meets.sleeps sleeping k) (checked : sleeps k nbytes test = true) : ∃ k',
    Queueing (Kernel.kernelFault noFrames 0) meets (sleeping ++ [⟨0x1000, 0x8000, nbytes⟩]) wakeUps
      k' ∧ test k' = true := by
  simp only [sleeps, Bool.and_eq_true, decide_eq_true_eq] at checked
  rcases checked with ⟨⟨⟨⟨running, stdin⟩, redirected⟩, nothing⟩, called⟩
  rcases Flow.returns_next stdin with ⟨pipe, stdin, notPipe⟩
  rw [(Bool.not_eq_true' pipe).mp notPipe] at stdin
  rcases Flow.checks_reached called k with ⟨ends, tested⟩
  refine ⟨_, queueing.sleep running stdin ?_ nothing ends met, tested⟩
  rw [redirected]
  decide

set_option maxRecDepth 8000 in
theorem readerAndWriter_checks (nbytes : Word) (some : nbytes = 0 ∨ nbytes = 1) :
    sleeps readerAndWriter nbytes (fun k => writes k fun k => writes k fun _ => true) = true := by
  rcases some with rfl | rfl
  · decide_cbv
  · decide_cbv

/-- Nothing is asked of a run. -/
def unconditioned : Conditions where
  sleeps _ _ := True
  wakes _ _ := True

end Queueing

end Sbrocks.Process
