import Sbrocks.Process.Scheduler

/-!
# Context switches

What `timer_handler` does to the saved frames: the current task's is replaced by
the interrupted one, and a task that becomes current gets the segments and the
flags register that `start_process` writes.  So a preempted task comes back with
its registers, except for its flags.
-/

namespace Sbrocks.Process

/-! ## What the timer does to the tasks -/

/-- Ageing the sleepers and counting the tick: some sleeping times and states
change, and no state but to runnable. -/
structure Aged (k k' : Kernel) : Prop where
  same : k' = { k with task := k'.task, timer := k'.timer }
  task : ∀ t, ∃ state sleepTime, k'.task t = { k.task t with state := state, sleepTime := sleepTime }
  state : ∀ t, (k'.task t).state = (k.task t).state ∨ (k'.task t).state = .runnable

namespace Aged

variable {k k' k'' : Kernel}

theorem refl (k : Kernel) : Aged k k :=
  ⟨rfl, fun _ => ⟨_, _, rfl⟩, fun _ => .inl rfl⟩

theorem trans (first : Aged k k') (second : Aged k' k'') : Aged k k'' where
  same := by
    have step := second.same
    rw [first.same] at step
    exact step
  task t := by
    rcases first.task t with ⟨state, sleepTime, here⟩
    rcases second.task t with ⟨state', sleepTime', there⟩
    exact ⟨state', sleepTime', by rw [there, here]⟩
  state t := by
    rcases second.state t with kept | woken
    · rw [kept]
      exact first.state t
    · exact .inr woken

theorem setTimer (aged : Aged k k') (timer : Timer) : Aged k { k' with timer := timer } :=
  ⟨by rw [aged.same], aged.task, aged.state⟩

theorem frame (aged : Aged k k') (t : Word) : (k'.task t).r = (k.task t).r := by
  rcases aged.task t with ⟨state, sleepTime, same⟩
  rw [same]

theorem kernelFaults (aged : Aged k k') : k'.kernelFaults = k.kernelFaults := by
  rw [aged.same]

theorem next (aged : Aged k k') (t : Word) : (k'.task t).next = (k.task t).next := by
  rcases aged.task t with ⟨state, sleepTime, same⟩
  rw [same]

theorem currentTask (aged : Aged k k') : k'.currentTask = k.currentTask := by
  rw [aged.same]

end Aged

namespace Kernel

variable {k k' : Kernel} {t : Word}

theorem updateTimeSlice_state (s : TaskStruct) :
    (updateTimeSlice s).state = s.state ∨ (updateTimeSlice s).state = .runnable := by
  unfold updateTimeSlice
  split
  · split
    · exact .inr rfl
    · exact .inl rfl
  · exact .inl rfl

theorem modTask_updateTimeSlice_aged (k : Kernel) (t : Word) :
    Aged k (k.modTask t updateTimeSlice) where
  same := rfl
  task other := by
    by_cases same : other = t
    · rw [same, modTask_task_self, updateTimeSlice]
      split
      · split
        · exact ⟨.runnable, (k.task t).sleepTime, rfl⟩
        · exact ⟨(k.task t).state, (k.task t).sleepTime - 1, rfl⟩
      · exact ⟨_, _, rfl⟩
    · rw [modTask_task_of_ne k same]
      exact ⟨_, _, rfl⟩
  state other := by
    by_cases same : other = t
    · rw [same, modTask_task_self]
      exact updateTimeSlice_state _
    · rw [modTask_task_of_ne k same]
      exact .inl rfl

theorem updateTimeSlicesLoop_aged (k : Kernel) (start : Option Word) (rounds : Nat) :
    (k.updateTimeSlicesLoop start rounds).All (Aged k) fun _ => False := by
  induction rounds generalizing k start with
  | zero => trivial
  | succ rounds ih =>
      cases start with
      | none => exact Aged.refl k
      | some t =>
          apply (ih (k.modTask t updateTimeSlice) _).imp
          intro k' aged
          exact (modTask_updateTimeSlice_aged k t).trans aged

theorem countTick_aged (k : Kernel) : k.countTick.All (Aged k) fun _ => False := by
  have ticked : Aged k { k with timer := { k.timer with timerTicks := k.timer.timerTicks + 1 } } :=
    (Aged.refl k).setTimer _
  unfold countTick
  dsimp only
  split
  · apply (updateTimeSlicesLoop_aged _ _ _).bind
    intro k' aged
    exact (ticked.trans aged).setTimer _
  · exact ticked

/-- The timer wakes no task that waits. -/
theorem countTick_waiting (k : Kernel) (waiting : (k.task t).state = .waiting) :
    k.countTick.All (fun k' => (k'.task t).state = .waiting) fun _ => False := by
  have loop : ∀ (rounds : Nat) (k : Kernel) (start : Option Word), (k.task t).state = .waiting →
      (k.updateTimeSlicesLoop start rounds).All (fun k' => (k'.task t).state = .waiting)
        fun _ => False := by
    intro rounds
    induction rounds with
    | zero => exact fun _ _ _ => trivial
    | succ rounds ih =>
        intro k start waiting
        cases start with
        | none => exact waiting
        | some s =>
            apply ih
            by_cases same : t = s
            · subst same
              rw [modTask_task_self, updateTimeSlice, if_neg (by rw [waiting]; exact nofun)]
              exact waiting
            · rw [modTask_task_of_ne k same]
              exact waiting
  unfold countTick
  dsimp only
  split
  · apply (loop _ _ _ _).bind
    · exact fun _ still => still
    · exact waiting
  · exact waiting

/-! ## What the scheduler does -/

/-- The state after `schedule_process` took the current task off. -/
def preempt (k : Kernel) : Kernel :=
  match k.currentTask with
  | none => k
  | some current => k.modTask current fun s => { s with state := .runnable }

/-- What `get_next_task` returns is another task than the current one; it is
runnable when there is a current task. -/
theorem getNextTask_dispatchable (k : Kernel) (current : Word) :
    (k.getNextTask (some current)).All
      (fun found => ∀ task ∈ found, task ≠ current ∧ (k.task task).state = .runnable)
      fun _ => False := by
  have test : ∀ start task, Chain.scan k.nextTask (k.dispatchable current) k.taskRounds start =
      some (some task) → task ≠ current ∧ (k.task task).state = .runnable := by
    intro start task result
    simpa [dispatchable] using Chain.scan_found result
  apply Flow.All.bind (P := fun found => ∀ task ∈ found, task ≠ current ∧
    (k.task task).state = .runnable)
  · apply Flow.All.ofOption
    intro found result task member
    cases member
    exact test _ _ result
  · intro after here
    cases after with
    | some task => exact here
    | none =>
        apply Flow.All.ofOption
        intro found result task member
        cases member
        exact test _ _ result

/-- Everything that `schedule_process` can do: nothing, or it takes the current
task off and dispatches another one. -/
theorem scheduleProcess_cases (k : Kernel) :
    k.scheduleProcess.All
      (fun k' => k' = k ∨ ∃ task, k.currentTask ≠ some task ∧ k' = k.preempt.dispatch task)
      fun _ => False := by
  unfold scheduleProcess preempt
  cases current : k.currentTask with
  | none =>
      apply Flow.All.bind (P := fun _ => True)
      · trivial
      · intro found _
        cases found with
        | none => exact .inl rfl
        | some task => exact .inr ⟨task, by simp, rfl⟩
  | some running =>
      apply (getNextTask_dispatchable k running).bind
      intro found dispatchable
      cases found with
      | none => exact .inl rfl
      | some task =>
          refine .inr ⟨task, ?_, rfl⟩
          intro same
          exact (dispatchable task rfl).1 (Option.some.inj same).symm

/-- What a timer interrupt can do. -/
structure Ticked (k : Kernel) (r : Regs) (mid k' : Kernel) (r' : Regs) : Prop where
  aged : Aged (k.saveFrame r) mid
  scheduled : k' = mid ∨ ∃ task, mid.currentTask ≠ some task ∧ k' = mid.preempt.dispatch task
  frame : r' = k'.writtenBack r

theorem timerHandler_ticked (k : Kernel) (r : Regs) :
    (k.timerHandler r).All (fun result => ∃ mid, Ticked k r mid result.1 result.2)
      fun _ => False := by
  apply (countTick_aged (k.saveFrame r)).bind
  intro mid aged
  apply (scheduleProcess_cases mid).bind
  intro k' scheduled
  exact ⟨mid, aged, scheduled, rfl⟩

@[simp]
theorem saveFrame_currentTask (k : Kernel) (r : Regs) :
    (k.saveFrame r).currentTask = k.currentTask := by
  unfold saveFrame
  split <;> rfl

theorem saveFrame_r_self (k : Kernel) (r : Regs) (running : k.currentTask = some t) :
    ((k.saveFrame r).task t).r = r := by
  rw [saveFrame, running]
  exact congrArg TaskStruct.r (modTask_task_self k t _)

theorem saveFrame_task_of_ne (k : Kernel) (r : Regs) (waiting : k.currentTask ≠ some t) :
    (k.saveFrame r).task t = k.task t := by
  unfold saveFrame
  split
  · rfl
  · rename_i task running
    apply modTask_task_of_ne
    rintro rfl
    exact waiting running

@[simp]
theorem preempt_r (k : Kernel) (t : Word) : (k.preempt.task t).r = (k.task t).r := by
  unfold preempt
  split
  · rfl
  · exact k.modTask_task_field TaskStruct.r _ _ rfl

@[simp]
theorem dispatch_currentTask (k : Kernel) (t : Word) : (k.dispatch t).currentTask = some t :=
  rfl

/-- The frame that `start_process` makes of a saved one. -/
def startFrame (r : Regs) : Regs := { r with ss := 0x23, cs := 0x1b, rflag := 0x200 }

theorem dispatch_task_self (k : Kernel) (t : Word) :
    (k.dispatch t).task t = { k.task t with state := .running, r := startFrame (k.task t).r } := by
  simp [dispatch, startProcess, startFrame, modTask_task_self]

theorem dispatch_task_of_ne (k : Kernel) {task : Word} (different : t ≠ task) :
    (k.dispatch task).task t = k.task t := by
  simp [dispatch, startProcess, modTask_task_of_ne _ different]

namespace Ticked

variable {k mid k' : Kernel} {r r' : Regs}

/-- A task that is not current after the tick has the frame it had when the
scheduler was called. -/
theorem kept (ticked : Ticked k r mid k' r') (off : k'.currentTask ≠ some t) :
    (k'.task t).r = ((k.saveFrame r).task t).r := by
  rw [← ticked.aged.frame]
  rcases ticked.scheduled with rfl | ⟨task, _, rfl⟩
  · rfl
  · have different : t ≠ task := by
      rintro rfl
      exact off rfl
    rw [dispatch_task_of_ne _ different, preempt_r]

/-- A tick that takes the current task off leaves it the interrupted frame. -/
theorem saved (ticked : Ticked k r mid k' r') (running : k.currentTask = some t)
    (off : k'.currentTask ≠ some t) : (k'.task t).r = r := by
  rw [ticked.kept off, saveFrame_r_self k r running]

/-- A task that is current neither before nor after the tick keeps its frame. -/
theorem waited (ticked : Ticked k r mid k' r') (before : k.currentTask ≠ some t)
    (after : k'.currentTask ≠ some t) : (k'.task t).r = (k.task t).r := by
  rw [ticked.kept after, saveFrame_task_of_ne k r before]

/-- A task that the tick makes current goes on with its saved frame, as
`start_process` leaves it. -/
theorem dispatched (ticked : Ticked k r mid k' r') (before : k.currentTask ≠ some t)
    (after : k'.currentTask = some t) : r' = startFrame (k.task t).r := by
  rw [ticked.frame, writtenBack, after]
  rcases ticked.scheduled with rfl | ⟨task, _, rfl⟩
  · rw [ticked.aged.currentTask, saveFrame_currentTask] at after
    exact absurd after before
  · rw [dispatch_currentTask] at after
    cases after
    change ((mid.preempt.dispatch t).task t).r = _
    rw [dispatch_task_self, preempt_r, ticked.aged.frame, saveFrame_task_of_ne k r before]

end Ticked

/-! ## A preempted task -/

/-- Between the tick that takes a task off and the one that dispatches it again:
ticks that dispatch others, and anything else that neither makes a task current
nor writes the frame of this one, such as tasks that are created, block and wake. -/
inductive Waits (t : Word) : Kernel → Kernel → Prop
  | start {k : Kernel} (off : k.currentTask ≠ some t) : Waits t k k
  | tick {k k' k'' : Kernel} {r r' : Regs} (waited : Waits t k k')
      (handled : k'.timerHandler r = .next (k'', r')) (off : k''.currentTask ≠ some t) :
      Waits t k k''
  | other {k k' k'' : Kernel} (waited : Waits t k k')
      (frame : (k''.task t).r = (k'.task t).r)
      (current : k''.currentTask = k'.currentTask ∨ k''.currentTask = none) : Waits t k k''

theorem Waits.off {k k' : Kernel} (waits : Waits t k k') : k'.currentTask ≠ some t := by
  induction waits with
  | start off => exact off
  | tick _ _ off => exact off
  | other _ _ current ih =>
      rcases current with same | idle
      · rwa [same]
      · simp [idle]

theorem Waits.frame {k k' : Kernel} (waits : Waits t k k') : (k'.task t).r = (k.task t).r := by
  induction waits with
  | start off => rfl
  | tick waited handled off ih =>
      rcases (timerHandler_ticked _ _).of_next handled with ⟨mid, ticked⟩
      rw [ticked.waited waited.off off, ih]
  | other _ frame _ ih => rw [frame, ih]

/-- The general registers of a frame. -/
def general (r : Regs) : List Word :=
  [r.r15, r.r14, r.r13, r.r12, r.r11, r.r10, r.r9, r.r8, r.rsi, r.rbp, r.rdx, r.rcx, r.rbx, r.rax,
    r.rdi]

/-- Frames that a user program cannot tell apart. -/
structure SameToUser (r r' : Regs) : Prop where
  general : general r = general r'
  rip : r.rip = r'.rip
  rsp : r.rsp = r'.rsp
  rflag : r.rflag = r'.rflag

/-- The registers of a preempted task come back as they were if and only if its
flags register was the constant that `start_process` writes. -/
theorem dispatched_sameToUser_iff {k₀ k₁ k₂ k₃ : Kernel} {F r r₁ r₃ : Regs}
    (running : k₀.currentTask = some t) (interrupted : k₀.timerHandler F = .next (k₁, r₁))
    (preempted : k₁.currentTask ≠ some t) (waits : Waits t k₁ k₂)
    (tick : k₂.timerHandler r = .next (k₃, r₃)) (dispatched : k₃.currentTask = some t) :
    SameToUser r₃ F ↔ F.rflag = 0x200 := by
  rcases (timerHandler_ticked _ _).of_next interrupted with ⟨mid, first⟩
  rcases (timerHandler_ticked _ _).of_next tick with ⟨mid', last⟩
  have back : r₃ = startFrame F := by
    rw [← first.saved running preempted, ← waits.frame]
    exact last.dispatched waits.off dispatched
  subst back
  constructor
  · intro same
    exact same.rflag.symm
  · intro flags
    exact ⟨rfl, rfl, rfl, flags.symm⟩

/-- Two tasks, the first of which is running. -/
def twoTasks : Kernel :=
  { initial ⟨⟨fun _ => 0, fun _ _ => 0, []⟩, fun _ _ => 0, 0, 0, 0⟩ 0 with
    task := fun t =>
      if t = 0x1000 then { (default : TaskStruct) with state := .running, next := some 0x2000 }
      else { (default : TaskStruct) with state := .runnable }
    taskStructs := [0x2000, 0x1000]
    taskList := some 0x1000
    currentTask := some 0x1000 }

/-- An interrupted frame with the given flags register. -/
def interruptedWith (rflag : Word) : Regs :=
  { (default : Regs) with rax := 7, rip := 0x400123, rsp := 0xEFFFFFF000, cs := 0x1b, ss := 0x23,
                          rflag := rflag }

/-- What a timer interrupt returned. -/
def afterTick (k : Kernel) (r : Regs) : Kernel × Regs :=
  match k.timerHandler r with
  | .next result => result
  | _ => (k, r)

/-- The first task is preempted with the given flags register. -/
def onceTicked (rflag : Word) : Kernel := (twoTasks.afterTick (interruptedWith rflag)).1

/-- The first task comes back. -/
def twiceTicked (rflag : Word) : Kernel × Regs := (onceTicked rflag).afterTick default

/-- A task that was preempted with no flag but the interrupt flag comes back with
all its registers. -/
theorem dispatched_sameToUser_iff_twoTasks :
    SameToUser (twiceTicked 0x200).2 (interruptedWith 0x200) ↔
      (interruptedWith 0x200).rflag = 0x200 := by
  have first : twoTasks.timerHandler (interruptedWith 0x200) =
      .next (onceTicked 0x200, (twoTasks.afterTick (interruptedWith 0x200)).2) := rfl
  have second : (onceTicked 0x200).timerHandler default =
      .next ((twiceTicked 0x200).1, (twiceTicked 0x200).2) := rfl
  exact dispatched_sameToUser_iff rfl first (by decide) (.start (by decide)) second rfl

/-- A task that was preempted right after a comparison comes back without the zero
flag. -/
theorem dispatched_not_sameToUser :
    twoTasks.currentTask = some 0x1000 ∧
      twoTasks.timerHandler (interruptedWith 0x246) =
        .next (onceTicked 0x246, (twoTasks.afterTick (interruptedWith 0x246)).2) ∧
      (onceTicked 0x246).currentTask = some 0x2000 ∧
      (onceTicked 0x246).timerHandler default = .next (twiceTicked 0x246) ∧
      (twiceTicked 0x246).1.currentTask = some 0x1000 ∧
      ¬ SameToUser (twiceTicked 0x246).2 (interruptedWith 0x246) := by
  refine ⟨rfl, rfl, rfl, rfl, rfl, ?_⟩
  intro same
  exact absurd same.rflag (by decide)

end Kernel

end Sbrocks.Process
