import Sbrocks.System.Tasks

/-!
# Blocking and waking

A task blocks by changing its state and giving up the processor.  The scheduler
then takes the first task of the list without looking at its state, so the calls
that block do so only for tasks further back in the list.
-/

namespace Sbrocks.Process

open Sbrocks.Mmu

variable {frames : Kernel → Word → Regs} {depth : Nat} {k k' : Kernel} {t task : Word}

/-! ## Dispatching -/

/-- The first task of the list is runnable. -/
def HeadRunnable (k : Kernel) : Prop :=
  ∃ head, k.taskList = some head ∧ (k.task head).state = .runnable

/-- `schedule_process` makes a runnable task current if and only if there was a current
task or the first task of the list was runnable. -/
theorem dispatched_runnable_iff (scheduled : k.scheduleProcess = .next k')
    (before : k.currentTask ≠ some task) (after : k'.currentTask = some task) :
    (k.task task).state = .runnable ↔ k.currentTask ≠ none ∨ HeadRunnable k := by
  unfold Kernel.scheduleProcess at scheduled
  cases current : k.currentTask with
  | none =>
      rw [current] at scheduled
      dsimp only [Kernel.getNextTask] at scheduled
      rcases Flow.bind_eq_next scheduled with ⟨found, listed, rest⟩
      cases listed
      cases head : k.taskList with
      | none =>
          rw [head] at rest
          cases rest
          rw [current] at after
          cases after
      | some first =>
          rw [head] at rest
          cases rest
          obtain rfl : first = task := Option.some.inj after
          constructor
          · intro runnable
            exact .inr ⟨first, head, runnable⟩
          · rintro (busy | ⟨other, listed, runnable⟩)
            · exact absurd rfl busy
            · rw [head] at listed
              cases listed
              exact runnable
  | some running =>
      rw [current] at scheduled
      rcases Flow.bind_eq_next scheduled with ⟨found, picked, rest⟩
      have dispatchable := (Kernel.getNextTask_dispatchable k running).of_next picked
      cases found with
      | none =>
          cases rest
          exact absurd after before
      | some next =>
          cases rest
          obtain rfl : next = task := Option.some.inj after
          have runnable := (dispatchable next rfl).2
          simp [runnable]

/-- The first process is dispatched at boot. -/
theorem dispatched_runnable_iff_twoProcesses :
    (twoProcesses.task 0x1000).state = .runnable ↔
      twoProcesses.currentTask ≠ none ∨ HeadRunnable twoProcesses :=
  have scheduled : twoProcesses.scheduleProcess = .next (twoProcesses.dispatch 0x1000) := rfl
  dispatched_runnable_iff scheduled nofun rfl

/-- The first process, which runs, calls sleep: it is asleep when the scheduler is
called, and goes on at once. -/
theorem sleeper_dispatched : Reachable noFrames 0 Always firstRuns ∧
    ∃ k k' : Kernel, calling firstRuns 35 5 0 = (k.scheduleProcess >>= .left) ∧
      k.scheduleProcess = .next k' ∧ k.currentTask ≠ some 0x1000 ∧
      (k.task 0x1000).state = .sleep ∧ k'.currentTask = some 0x1000 := by
  refine ⟨reachable_firstRuns trivial,
    { ((firstRuns.saveFrame (callFrame 35 5 0)).modTask 0x1000 fun s =>
        { s with state := .sleep, sleepTime := 5 - 1 }).setCurrentTask none with
      timer := { firstRuns.timer with timerTicks := firstRuns.timer.timerTicks + 1 } }, _, ?_, rfl,
    ?_, ?_, ?_⟩
  · rfl
  · decide
  · decide
  · decide

/-! ## Waiting for a child -/

/-- After its call, a task that gave up the processor waits, unless it is the first of
the list and is dispatched at once. -/
def Resting (k : Kernel) (t : Word) (state : TaskState) : Prop :=
  state = if k.taskList = some t then .running else .waiting

theorem yield_resting (idle : k.currentTask = none) (waiting : (k.task t).state = .waiting) :
    k.yield.All (fun k' => k'.currentTask = none ∧ Resting k t (k'.task t).state)
      fun k' => Resting k t (k'.task t).state := by
  have entry : k.saveFrame default = k := by rw [Kernel.saveFrame, idle]
  unfold Kernel.yield
  rw [Kernel.timerHandler_eq, entry]
  cases counted : k.countTick with
  | stuck => trivial
  | left state => exact ((Kernel.countTick_aged k).of_left counted).elim
  | next mid =>
      have aged := (Kernel.countTick_aged k).of_next counted
      have still := (Kernel.countTick_waiting k waiting).of_next counted
      have idle' : mid.currentTask = none := aged.currentTask.trans idle
      have heads : mid.taskList = k.taskList := by rw [aged.same]
      rw [Flow.next_bind]
      unfold Kernel.scheduleProcess Kernel.getNextTask
      rw [idle', heads]
      dsimp only [Flow.next_bind]
      unfold Resting
      cases k.taskList with
      | none =>
          show Flow.All _ _ ((.next (mid, mid.writtenBack default) : Flow Kernel _) >>= _)
          rw [Flow.next_bind]
          dsimp only
          rw [idle']
          exact ⟨idle', still⟩
      | some head =>
          show ((mid.dispatch head).task t).state = _
          by_cases same : head = t
          · subst same
            rw [Kernel.dispatch_task_self, if_pos rfl]
          · rw [Kernel.dispatch_task_of_ne mid (Ne.symm same),
              if_neg fun equal => same (Option.some.inj equal)]
            exact still

/-- A task that has children blocks in `waitpid`, whatever it waits for. -/
theorem systemWaitpid_resting {fault : Fault}
    (idle : ∀ {k : Kernel} (virt : Word), k.currentTask = none → fault k virt = .stuck)
    (running : k.currentTask = some t) (children : (k.task t).childCount ≠ 0)
    (childPid status : Word) :
    (k.systemWaitpid fault childPid status).All (fun result => Resting k t (result.1.task t).state)
      fun k' => Resting k t (k'.task t).state := by
  unfold Kernel.systemWaitpid
  rw [running]
  dsimp only [Flow.ofOption_some, Flow.next_bind]
  rw [if_neg children]
  have waiting : (((k.modTask t fun s =>
      { s with state := .waiting, waitForChildPid := childPid }).setCurrentTask none).task t).state =
      .waiting := by
    rw [Kernel.setCurrentTask_task, Kernel.modTask_task_self]
  apply (yield_resting rfl waiting).bind
  rintro k₁ ⟨none, resting⟩
  have stored : Touches (fun k' => Resting k t (k'.task t).state) k₁
      (k₁.storeLe fault status (-1)) := Kernel.storeLe_touches (idle_answers idle).touched none status (-1)
  apply Flow.All.bind stored
  intro k₂ touched
  show Resting k t (k₂.task t).state
  rcases touched.task t with ⟨r, same⟩
  change k₂.task t = _ at same
  rw [same]
  exact resting

/-- A live task that the given one is the parent of, by its pids. -/
def LiveChild (k : Kernel) (t child : Word) : Prop :=
  Chain.Member k.nextTask k.taskList child ∧ (k.task child).ppid = (k.task t).pid

theorem saveFrame_childCount (k : Kernel) (r : Regs) (t : Word) :
    ((k.saveFrame r).task t).childCount = (k.task t).childCount := by
  unfold Kernel.saveFrame
  split
  · rfl
  · exact k.modTask_task_field TaskStruct.childCount _ t rfl

theorem saveFrame_taskList (k : Kernel) (r : Regs) : (k.saveFrame r).taskList = k.taskList := by
  unfold Kernel.saveFrame
  split
  · rfl
  · rfl

/-- The call of a task that has children. -/
theorem waitpid_resting (running : k.currentTask = some t) {r : Regs} (wait : r.rax = 61)
    (children : (k.task t).childCount ≠ 0)
    (handled : Ends (k.syscallHandler (Kernel.kernelFault frames depth) r) k') :
    Resting k t (k'.task t).state := by
  have resting : Resting (k.saveFrame r) t (k'.task t).state := by
    have all : (k.syscallHandler (Kernel.kernelFault frames depth) r).All
        (fun result => Resting (k.saveFrame r) t ((HasState.state result).task t).state)
        fun k' => Resting (k.saveFrame r) t (k'.task t).state := by
      unfold Kernel.syscallHandler
      rw [running]
      dsimp only [Flow.ofOption_some, Flow.next_bind]
      rw [Kernel.saveFrame_r_self k r running, wait]
      have waits := systemWaitpid_resting (k := k.saveFrame r) (t := t)
        (kernelFault_idle frames depth) ((k.saveFrame_currentTask r).trans running)
        (by rwa [saveFrame_childCount]) r.rbx r.rcx
      have called : (k.saveFrame r).switchHandler (Kernel.kernelFault frames depth) 61 r.rbx r.rcx
          r.rdx = ((k.saveFrame r).systemWaitpid (Kernel.kernelFault frames depth) r.rbx r.rcx >>=
            fun answer => Flow.next (answer.1, 0)) := rfl
      rw [called]
      apply Flow.All.bind (P := fun result : Kernel × Word =>
        Resting (k.saveFrame r) t (result.1.task t).state)
      · apply waits.bind
        rintro ⟨k₁, result⟩ resting
        exact resting
      · rintro ⟨k₁, ret⟩ resting
        change Resting _ t
          ((k₁.modTask t fun s => { s with r := { s.r with rax := ret } }).task t).state
        rw [Kernel.modTask_task_self]
        exact resting
    rcases Flow.All.ends (P := fun k' => Resting (k.saveFrame r) t (k'.task t).state) all handled
      with here | here
    · exact here
    · exact here
  unfold Resting at resting ⊢
  rwa [saveFrame_taskList] at resting

/-- The call of a task without children. -/
theorem waitpid_childless (reachable : Reachable frames depth Always k)
    (running : k.currentTask = some t) {r : Regs} (user : r.cs = 0x1b) (wait : r.rax = 61)
    (childless : (k.task t).childCount = 0)
    (handled : Ends (k.syscallHandler (Kernel.kernelFault frames depth) r) k') :
    (k'.task t).state ≠ .waiting := by
  rcases reachable.keeps (fun _ => nofun) fun view alive awake stepped _ =>
    stepped.keeps anything view alive awake trivial (fun _ => trivial)
      (fun awake moved _ => moved.currentAwake awake) (admitted_anything _ _ _)
    with ⟨T, view, alive, awake⟩
  have here : T.current = some t := view.current.trans running
  have stepped : Step frames depth k (.syscall r) k' := .syscall running user handled
  have admitted : (Interrupt.syscall r).Admitted .noPause T k := by
    refine ⟨fun _ _ _ => trivial, fun _ _ _ => trivial, fun _ _ _ => trivial, fun _ _ _ => trivial,
      ?_⟩
    rintro (other | other | other | ⟨_, children⟩)
    · rw [wait] at other
      exact absurd other (by decide)
    · rw [wait] at other
      exact absurd other (by decide)
    · rw [wait] at other
      exact absurd other (by decide)
    · apply absurd _ (children t ((k.saveFrame_currentTask r).trans running))
      rwa [saveFrame_childCount]
  have kept : ∃ T', View k' T' ∧ T'.dying = false ∧ (T'.proc t).state ≠ .waiting :=
    stepped.keeps .noPause view alive (awake t here) trivial (fun _ => trivial)
      (fun awake moved allowed => moved.awake awake allowed) admitted
  rcases kept with ⟨T', view', _, awake'⟩
  rw [view'.proc] at awake'
  exact awake'

/-- A task that calls `waitpid` is left waiting for a live child of its own, if and only
if it has no child, or that child lives, or the task is the first of the list and goes
on at once. -/
theorem waitpid_waits_iff (reachable : Reachable frames depth Always k)
    (running : k.currentTask = some t) {r : Regs} (user : r.cs = 0x1b) (wait : r.rax = 61)
    (handled : Ends (k.syscallHandler (Kernel.kernelFault frames depth) r) k') :
    ((k'.task t).state = .waiting →
        ∃ child, LiveChild k t child ∧ (k.task child).pid.setWidth 64 = r.rbx) ↔
      (k.task t).childCount = 0 ∨
        (∃ child, LiveChild k t child ∧ (k.task child).pid.setWidth 64 = r.rbx) ∨
        k.taskList = some t := by
  constructor
  · intro answered
    by_cases childless : (k.task t).childCount = 0
    · exact .inl childless
    · by_cases first : k.taskList = some t
      · exact .inr (.inr first)
      · have resting := waitpid_resting running wait childless handled
        rw [Resting, if_neg first] at resting
        exact .inr (.inl (answered resting))
  · rintro (childless | child | first) waiting
    · exact absurd waiting (waitpid_childless reachable running user wait childless handled)
    · exact child
    · by_cases childless : (k.task t).childCount = 0
      · exact absurd waiting (waitpid_childless reachable running user wait childless handled)
      · have resting := waitpid_resting running wait childless handled
        rw [Resting, if_pos first, waiting] at resting
        cases resting

/-- The first process, which has no child, calls waitpid. -/
theorem waitpid_waits_iff_firstRuns : ∃ k', Ends (calling firstRuns 61 77 8) k' ∧
    ((k'.task 0x1000).state = .waiting →
        ∃ child, LiveChild firstRuns 0x1000 child ∧
          (firstRuns.task child).pid.setWidth 64 = (77 : Word)) := by
  have handled : Ends (calling firstRuns 61 77 8) (Flow.reached (calling firstRuns 61 77 8) firstRuns) :=
    (Flow.checks_reached (show Flow.checks _ (fun _ => true) = true by decide) firstRuns).1
  exact ⟨_, handled, (waitpid_waits_iff (reachable_firstRuns trivial) firstRuns_current rfl rfl
    handled).mpr (.inl (by decide))⟩

/-- The second process runs. -/
def secondRuns : Kernel := ticked firstRuns

/-- The second process has forked, and runs again. -/
def parentRuns : Kernel := ticked (called secondRuns 57 0 0)

/-- The parent has called waitpid for a process that there never was. -/
def parentWaits : Kernel := called parentRuns 61 77 8

theorem parentWaits_checks : Flow.checks (calling secondRuns 57 0 0) (fun k =>
    Flow.checks (k.timerHandler (callFrame 0 0 0)) fun k =>
      k.currentTask = some 0x2000 && k.taskList = some 0x1000 && k.nextTask 0x1000 = some 0x2000 &&
      k.nextTask 0x2000 = some 0x10000 && k.nextTask 0x10000 = none &&
      (k.task 0x1000).pid = 1 && (k.task 0x2000).pid = 2 && (k.task 0x10000).pid = 3 &&
      Flow.checks (calling k 61 77 8) fun k => (k.task 0x2000).state = .waiting) = true := by
  unfold calling Kernel.syscallHandler Kernel.switchHandler Kernel.systemFork Kernel.createNewTask
  simp only [Machine.envSetupVm_eq]
  decide_cbv

theorem reachable_secondRuns : Reachable noFrames 0 Always secondRuns ∧
    secondRuns.currentTask = some 0x2000 := by
  rcases ticked_step (show Flow.checks (firstRuns.timerHandler (callFrame 0 0 0))
    (fun k => k.currentTask = some 0x2000) = true by decide) with ⟨stepped, current⟩
  exact ⟨.step (reachable_firstRuns trivial) stepped trivial, of_decide_eq_true current⟩

/-- The parent of another process waits for ever. -/
theorem parent_waits_for_nobody : Reachable noFrames 0 Always parentRuns ∧
    parentRuns.currentTask = some 0x2000 ∧
    Step noFrames 0 parentRuns (.syscall (callFrame 61 77 8)) parentWaits ∧
    (parentWaits.task 0x2000).state = .waiting ∧
    ¬ ∃ child, LiveChild parentRuns 0x2000 child ∧
      (parentRuns.task child).pid.setWidth 64 = (77 : Word) := by
  rcases reachable_secondRuns with ⟨reachable, current⟩
  rcases called_step current parentWaits_checks with ⟨forked, ticks⟩
  rcases ticked_step ticks with ⟨again, facts⟩
  simp only [Bool.and_eq_true, decide_eq_true_eq] at facts
  rcases facts with ⟨⟨⟨⟨⟨⟨⟨⟨running, head⟩, second⟩, third⟩, last⟩, pid₁⟩, pid₂⟩, pid₃⟩, checked⟩
  rcases called_step running checked with ⟨waited, waiting⟩
  have listed : Chain.Linked parentRuns.nextTask parentRuns.taskList [0x1000, 0x2000, 0x10000] :=
    ⟨head, second, third, last⟩
  refine ⟨.step (.step reachable forked trivial) again trivial, running, waited,
    of_decide_eq_true waiting, ?_⟩
  rintro ⟨child, ⟨live, _⟩, named⟩
  rw [listed.member_iff] at live
  rcases List.mem_cons.mp live with rfl | others
  · rw [show (parentRuns.task 0x1000).pid = 1 from pid₁] at named
    exact absurd named (by decide)
  · rcases List.mem_pair.mp others with rfl | rfl
    · rw [show (parentRuns.task 0x2000).pid = 2 from pid₂] at named
      exact absurd named (by decide)
    · rw [show (parentRuns.task 0x10000).pid = 3 from pid₃] at named
      exact absurd named (by decide)

end Sbrocks.Process
