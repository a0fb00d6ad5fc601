import Mathlib
import Sbrocks.Mmu.AddressSpaces
import Sbrocks.Process.Invariants
import Sbrocks.System.Run

/-!
# What holds of the tasks in every run

The invariants of the process table, read off the reachable states: at most one
task is running, the current task is live as long as no process kills itself, and
pids identify processes as long as no program is executed.
-/

namespace Sbrocks.Process

open Sbrocks.Mmu

variable {frames : Kernel → Word → Regs} {depth : Nat} {k k' : Kernel}

/-- The table of a booted kernel. -/
def bootTable (k : Kernel) (tasks : List Word) : Table Word where
  live := tasks
  free := []
  known := k.taskStructs
  current := none
  pid := k.pid
  proc t := (k.task t).proc
  dying := false
  forking := none
  newest := none
  resumed := false
  faults := k.kernelFaults

theorem Booted.view {tasks : List Word} (booted : Booted k tasks) :
    View k (bootTable k tasks) where
  live := booted.taskList
  free := booted.freeTaskList
  disjoint _ _ := List.not_mem_nil
  known := rfl
  liveKnown t member := (booted.taskStructs t).mpr member
  current := booted.currentTask.symm
  pid := rfl
  faults := rfl
  proc _ := rfl

/-- What every step keeps holds in every run. -/
theorem Reachable.keeps {meets : Kernel → Interrupt → Kernel → Prop} {Inv : Table Word → Prop}
    (reachable : Reachable frames depth meets k)
    (boot : ∀ {k tasks}, Booted k tasks → Inv (bootTable k tasks))
    (each : ∀ {k k' i T}, View k T → T.dying = false → Inv T → Step frames depth k i k' →
      meets k i k' → ∃ T', View k' T' ∧ T'.dying = false ∧ Inv T') :
    ∃ T, View k T ∧ T.dying = false ∧ Inv T := by
  induction reachable with
  | boot booted => exact ⟨_, booted.view, rfl, boot booted⟩
  | step _ stepped met ih =>
      rcases ih with ⟨T, view, alive, inv⟩
      exact each view alive inv stepped met

/-- An invariant of the moves holds when the interrupted frame was saved. -/
theorem Interrupt.enters {policy : Table.Policy Word} {Inv : Table Word → Prop} {T : Table Word}
    (interrupt : Interrupt) (inv : Inv T.settle) (enter : policy.enter)
    (move : ∀ {T T' event}, Inv T → T.Move event T' → policy.Allows T event → Inv T') :
    Inv (interrupt.entered T) := by
  have saved : ∀ r, Inv (T.settle.saveCurrent r) := by
    intro r
    unfold Table.saveCurrent
    cases current : T.settle.current with
    | none => exact inv
    | some t => exact move inv (.enter current) enter
  cases interrupt with
  | timer r => exact saved r
  | syscall r => exact saved r
  | pageFault vaddr r => exact saved r
  | key scancode => exact inv
  | store virt value => exact inv
  | create filename argv envp => exact inv

/-- An invariant of the moves of a step holds after it. -/
theorem Step.keeps (policy : Table.Policy Word) {Inv : Table Word → Prop} {T : Table Word}
    {interrupt : Interrupt} (stepped : Step frames depth k interrupt k') (view : View k T)
    (alive : T.dying = false) (inv : Inv T.settle) (enter : policy.enter)
    (exit : ∀ T, policy.exit T)
    (move : ∀ {T T' event}, Inv T → T.Move event T' → policy.Allows T event → Inv T')
    (admitted : interrupt.Admitted policy T k) :
    ∃ T', View k' T' ∧ T'.dying = false ∧ Inv T' := by
  have entered := interrupt.enters inv enter move
  rcases stepped.serves view alive (fun _ _ allowed => allowed) exit admitted with
    ⟨T', view', run, alive', _⟩ | ⟨T', view', run, alive', _⟩
  · exact ⟨T', view', alive', run.keeps entered fun inv _ moved allowed => move inv moved allowed⟩
  · exact ⟨T', view', alive', run.keeps entered fun inv _ moved allowed => move inv moved allowed⟩

/-- Any run. -/
def Always (_ : Kernel) (_ : Interrupt) (_ : Kernel) : Prop := True

/-- Anything that the kernel does. -/
def anything : Table.Policy Word where
  enter := True
  create _ := True
  fork _ := True
  exec _ := True
  kill _ _ := True
  exit _ := True
  pause _ := True

theorem admitted_anything (interrupt : Interrupt) (T : Table Word) (k : Kernel) :
    interrupt.Admitted anything T k := by
  cases interrupt with
  | syscall r => exact ⟨fun _ _ _ => trivial, fun _ _ _ => trivial, fun _ _ _ => trivial,
      fun _ _ _ => trivial, fun _ _ => trivial⟩
  | create filename argv envp => exact fun _ _ => trivial
  | timer r => trivial
  | pageFault vaddr r => trivial
  | key scancode => trivial
  | store virt value => trivial

/-! ## A run of two processes -/

/-- A machine whose only page table maps its second page to the root and all others to
one page, which is empty but for a slash. -/
def flatMachine : Machine where
  phy := ⟨fun _ => 0, fun _ _ => 0, []⟩
  mem frame i :=
    if frame = 1 then 0x2007
    else if frame = 2 then 0x3007
    else if frame = 3 then 0x4007
    else if frame = 4 then if i = 1 then 0x1007 else 0x5007
    else if frame = 5 ∧ i = 1 then slash.setWidth 64
    else 0
  cr3 := 0x1000
  kCr3 := 0x1000
  virtualTop := 0x10000

/-- Two processes that were created and have not run. -/
def twoProcesses : Kernel :=
  { Kernel.initial flatMachine 0x100 with
    task := fun t =>
      if t = 0x1000 then
        { (default : TaskStruct) with
          pid := 1, state := .runnable, next := some 0x2000, pml4e := 0x1000 }
      else { (default : TaskStruct) with pid := 2, state := .runnable, pml4e := 0x1000 }
    taskStructs := [0x2000, 0x1000]
    taskList := some 0x1000
    pid := 3 }

theorem booted_twoProcesses : Booted twoProcesses [0x1000, 0x2000] where
  taskList := ⟨rfl, rfl, rfl⟩
  freeTaskList := rfl
  currentTask := rfl
  taskStructs t := by simp [twoProcesses, or_comm]
  task t member := by
    rcases List.mem_pair.mp member with rfl | rfl
    · exact ⟨rfl, rfl, rfl, rfl⟩
    · exact ⟨rfl, rfl, rfl, rfl⟩
  pids := rfl
  pid := rfl
  few := by
    show 2 < 2 ^ 32
    omega

/-- The first process runs. -/
def firstRuns : Kernel := ticked twoProcesses

theorem firstRuns_current : firstRuns.currentTask = some 0x1000 := by decide

theorem reachable_firstRuns {meets : Kernel → Interrupt → Kernel → Prop}
    (met : meets twoProcesses (.timer (callFrame 0 0 0)) firstRuns) :
    Reachable noFrames 0 meets firstRuns :=
  .step (.boot booted_twoProcesses)
    (ticked_step (show Flow.checks _ (fun _ => true) = true by decide)).1 met

/-! ## At most one task is running -/

theorem Booted.singleRunner {tasks : List Word} (booted : Booted k tasks) :
    (bootTable k tasks).SingleRunner := by
  intro t member running
  have runnable := (booted.task t ((booted.taskStructs t).mp member)).1
  rw [show (k.task t).state = .running from running] at runnable
  cases runnable

/-- In every run, a task that is running is the current one. -/
theorem running_is_current (reachable : Reachable frames depth Always k) {t : Word}
    (created : t ∈ k.taskStructs) (running : (k.task t).state = .running) :
    k.currentTask = some t := by
  rcases reachable.keeps Booted.singleRunner fun view alive single stepped _ =>
    stepped.keeps anything view alive single trivial (fun _ => trivial)
      (fun single moved _ => moved.singleRunner single) (admitted_anything _ _ _)
    with ⟨T, view, _, single⟩
  rw [← view.current]
  apply single t
  · rw [view.known]
    exact created
  · rw [view.proc]
    exact running

/-- The first process runs after the first tick. -/
theorem running_is_current_firstRuns : firstRuns.currentTask = some 0x1000 :=
  running_is_current (reachable_firstRuns trivial) (by decide) (by decide)

/-! ## The current task is live -/

/-- The step is no kill of the process that makes it. -/
def NoSuicide (k : Kernel) (interrupt : Interrupt) (_ : Kernel) : Prop :=
  ∀ r, interrupt = .syscall r → r.rax = 84 → k.getTask r.rbx ≠ .next k.currentTask

theorem NoSuicide.admitted {T : Table Word} {interrupt : Interrupt}
    (met : NoSuicide k interrupt k') (view : View k T) :
    interrupt.Admitted .noSuicide T k := by
  cases interrupt with
  | syscall r =>
      refine ⟨fun _ _ _ => trivial, fun _ _ _ => trivial, fun _ _ _ => trivial, ?_,
        fun _ _ => trivial⟩
      intro kill t found same
      have current := ((Interrupt.syscall r).goes_entered T).current.symm.trans same
      apply met r rfl kill
      rw [← Kernel.getTask_saveFrame k r, found, ← view.current]
      exact congrArg Flow.next current.symm
  | create filename argv envp => exact fun _ _ => trivial
  | timer r => trivial
  | pageFault vaddr r => trivial
  | key scancode => trivial
  | store virt value => trivial

/-- In every run in which no process kills itself, the current task is in the task
list and not in the free list. -/
theorem current_is_live (reachable : Reachable frames depth NoSuicide k) {t : Word}
    (current : k.currentTask = some t) :
    Chain.Member k.nextTask k.taskList t ∧ ¬ Chain.Member k.nextTask k.freeTaskList t := by
  rcases reachable.keeps
    (fun booted => ⟨fun _ _ => List.not_mem_nil, nofun, fun _ => nofun⟩)
    (fun view alive inv stepped met => stepped.keeps .noSuicide view alive
      ⟨inv.disjoint, inv.notFree, inv.live⟩ trivial (fun _ => trivial)
      (fun inv moved allowed => moved.currentLive inv allowed) (met.admitted view))
    with ⟨T, view, alive, inv⟩
  have here : T.current = some t := view.current.trans current
  rw [view.live.member_iff, view.free.member_iff]
  exact ⟨inv.live alive t here, inv.notFree t here⟩

theorem current_is_live_firstRuns :
    Chain.Member firstRuns.nextTask firstRuns.taskList 0x1000 ∧
      ¬ Chain.Member firstRuns.nextTask firstRuns.freeTaskList 0x1000 :=
  current_is_live (reachable_firstRuns nofun) firstRuns_current

/-- The first process kills itself. -/
def suicide : Kernel := called firstRuns 84 1 0

theorem suicide_checks : Flow.checks (calling firstRuns 84 1 0) (fun k =>
    k.currentTask = some 0x1000 && k.taskList = some 0x2000 && k.nextTask 0x2000 = none &&
      k.freeTaskList = some 0x1000 && k.nextTask 0x1000 = none) = true := by
  decide

/-- A process that killed itself goes on, and its structure is free. -/
theorem current_is_free_suicide : Reachable noFrames 0 Always suicide ∧
    suicide.currentTask = some 0x1000 ∧
    ¬ Chain.Member suicide.nextTask suicide.taskList 0x1000 ∧
    Chain.Member suicide.nextTask suicide.freeTaskList 0x1000 := by
  rcases called_step firstRuns_current suicide_checks with ⟨stepped, facts⟩
  simp only [Bool.and_eq_true, decide_eq_true_eq] at facts
  rcases facts with ⟨⟨⟨⟨current, live⟩, last⟩, free⟩, last'⟩
  have liveList : Chain.Linked suicide.nextTask suicide.taskList [0x2000] := ⟨live, last⟩
  have freeList : Chain.Linked suicide.nextTask suicide.freeTaskList [0x1000] := ⟨free, last'⟩
  refine ⟨.step (reachable_firstRuns trivial) stepped trivial, current, ?_, ?_⟩
  · rw [liveList.member_iff]
    decide
  · rw [freeList.member_iff]
    exact List.mem_cons_self

/-! ## Pids -/

/-- The step creates a task only while pids are new, and is no execve that returns. -/
def NewPids (frames : Kernel → Word → Regs) (depth : Nat) (k : Kernel) (interrupt : Interrupt)
    (_ : Kernel) : Prop :=
  match interrupt with
  | .create _ _ _ => k.pid.toNat < 2 ^ 32
  | .syscall r => (r.rax = 57 ∨ r.rax = 59 → k.pid.toNat < 2 ^ 32) ∧
      (r.rax = 59 → ∀ result,
        k.syscallHandler (Kernel.kernelFault frames depth) r ≠ .next result)
  | _ => True

theorem Booted.distinctPids {tasks : List Word} (booted : Booted k tasks) :
    (bootTable k tasks).DistinctPids := by
  have few := booted.few
  have counter : k.pid.toNat = tasks.length + 1 := by
    rw [booted.pid, BitVec.toNat_ofNat]
    exact Nat.mod_eq_of_lt (by omega)
  have different : (tasks.map fun t => (k.task t).pid).Nodup := by
    rw [booted.pids]
    apply List.Nodup.map_on _ List.nodup_range
    intro i below j below' same
    have equal := congrArg BitVec.toNat same
    rw [List.mem_range] at below below'
    rw [BitVec.toNat_ofNat, BitVec.toNat_ofNat, Nat.mod_eq_of_lt (by omega),
      Nat.mod_eq_of_lt (by omega)] at equal
    omega
  refine ⟨fun s member t member' same => List.inj_on_of_nodup_map different member member' same,
    ?_, ?_⟩
  · intro t member
    have listed : (k.task t).pid ∈ tasks.map fun t => (k.task t).pid := List.mem_map_of_mem member
    rw [booted.pids] at listed
    rcases List.mem_map.mp listed with ⟨i, below, issued⟩
    refine ⟨i + 1, ?_, issued.symm⟩
    show i + 1 < k.pid.toNat
    rw [counter]
    have := List.mem_range.mp below
    omega
  · show k.pid.toNat ≤ 2 ^ 32
    omega

theorem NewPids.keeps {T : Table Word} {interrupt : Interrupt}
    (met : NewPids frames depth k interrupt k') (view : View k T) (alive : T.dying = false)
    (inv : T.DistinctPids) (stepped : Step frames depth k interrupt k') :
    ∃ T', View k' T' ∧ T'.dying = false ∧ T'.DistinctPids := by
  have creates : k.pid.toNat < 2 ^ 32 → ∀ T' : Table Word, T'.pid = T.pid → T'.pid.toNat < 2 ^ 32 := by
    intro room T' same
    rw [same, view.pid]
    exact room
  have keeps : interrupt.Admitted .newPids T k → ∃ T', View k' T' ∧ T'.dying = false ∧
      T'.DistinctPids := fun admitted =>
    stepped.keeps .newPids view alive ⟨inv.distinct, inv.issued, inv.few⟩ trivial (fun _ => trivial)
      (fun inv moved allowed => moved.distinctPids inv allowed) admitted
  cases stepped with
  | syscall running user handled =>
      rename_i r t
      rcases met with ⟨room, gone⟩
      by_cases exec : r.rax = 59
      · -- a call that does not return has not changed any pid
        have entered := view.entered (.syscall r)
        have goes := (Interrupt.syscall r).goes_entered T
        have inv' : (T.settle.saveCurrent r).DistinctPids :=
          (Interrupt.syscall r).enters ⟨inv.distinct, inv.issued, inv.few⟩
            trivial fun inv moved allowed => moved.distinctPids inv allowed
        have answers : (Kernel.kernelFault frames depth).Answers
            (Serving .newPids (T.settle.saveCurrent r)) (Ended .newPids (T.settle.saveCurrent r)) :=
          (kernelFault_serving (fun _ _ allowed => allowed) (fun _ => trivial) frames depth).1
        have ends := Kernel.syscallHandler_execve entered .start rfl goes.resumed answers
          (fun serving => serving) (fun T' same => creates (room (.inr exec)) T'
            (same.trans ((Interrupt.syscall r).entered_pid T))) rfl exec
        cases call : k.syscallHandler (Kernel.kernelFault frames depth) r with
        | next result => exact absurd call (gone exec result)
        | stuck =>
            rw [call] at handled
            exact handled.elim
        | left state =>
            rw [call] at handled ends
            cases handled
            rcases ends with ⟨T', view', run, alive', _⟩
            exact ⟨T', view', alive', run.keeps inv' fun inv _ moved allowed =>
              moved.distinctPids inv allowed⟩
      · apply keeps
        exact ⟨fun call T' same => creates (room call) T'
            (same.trans ((Interrupt.syscall r).entered_pid T)),
          fun _ _ _ => trivial, fun call => absurd call exec, fun _ _ _ => trivial,
          fun _ _ => trivial⟩
  | create idle handled => exact keeps (creates met)
  | timer handled => exact keeps trivial
  | pageFault running user handled => exact keeps trivial
  | key handled => exact keeps trivial
  | store running mapped => exact keeps trivial

/-- In every run with fewer than `2 ^ 32` creations in which no execve returns, the
pids of the tasks in the task list are different, and `get_task` finds the only
process with a pid. -/
theorem pids_identify (reachable : Reachable frames depth (NewPids frames depth) k) :
    (∀ s t, Chain.Member k.nextTask k.taskList s → Chain.Member k.nextTask k.taskList t →
      (k.task s).pid = (k.task t).pid → s = t) ∧
    ∀ pid t, k.getTask pid = .next (some t) →
      Chain.Member k.nextTask k.taskList t ∧ (k.task t).pid.setWidth 64 = pid ∧
      ∀ s, Chain.Member k.nextTask k.taskList s → (k.task s).pid.setWidth 64 = pid → s = t := by
  rcases reachable.keeps Booted.distinctPids fun view alive inv stepped met =>
    met.keeps view alive inv stepped with ⟨T, view, alive, inv⟩
  have distinct : ∀ s t, Chain.Member k.nextTask k.taskList s →
      Chain.Member k.nextTask k.taskList t → (k.task s).pid = (k.task t).pid → s = t := by
    intro s t sListed tListed same
    rw [view.live.member_iff] at sListed tListed
    apply inv.distinct s sListed t tListed
    rw [view.proc, view.proc]
    exact same
  refine ⟨distinct, ?_⟩
  intro pid t found
  rcases (getTask_live view pid).of_next found t rfl with ⟨live, named⟩
  have listed := view.live.member_iff.mpr live
  refine ⟨listed, named, ?_⟩
  intro s sListed same
  apply distinct s t sListed listed
  apply BitVec.eq_of_toNat_eq
  have equal := congrArg BitVec.toNat (same.trans named.symm)
  rw [BitVec.toNat_setWidth, BitVec.toNat_setWidth] at equal
  have := (k.task s).pid.isLt
  have := (k.task t).pid.isLt
  omega

theorem pids_identify_firstRuns : firstRuns.getTask 1 = .next (some 0x1000) ∧
    ∀ s, Chain.Member firstRuns.nextTask firstRuns.taskList s →
      (firstRuns.task s).pid.setWidth 64 = (1 : Word) → s = 0x1000 := by
  have found : firstRuns.getTask 1 = .next (some 0x1000) := rfl
  exact ⟨found, ((pids_identify (reachable_firstRuns trivial)).2 1 0x1000 found).2.2⟩

/-- The first process executes a program. -/
def executed : Kernel := called firstRuns 59 8 0x100

theorem executed_checks : Flow.checks (calling firstRuns 59 8 0x100) (fun k =>
    k.taskList = some 0x1000 && k.nextTask 0x1000 = some 0x2000 &&
      k.nextTask 0x2000 = some 0x10000 && k.nextTask 0x10000 = none &&
      (k.task 0x1000).pid = (k.task 0x10000).pid) = true := by
  unfold calling Kernel.syscallHandler Kernel.switchHandler Kernel.systemExecve Kernel.readElf
    Kernel.createNewTask
  simp only [Machine.envSetupVm_eq]
  decide_cbv

/-- A program that was executed shares the caller's pid with it. -/
theorem pids_shared_executed : Reachable noFrames 0 Always executed ∧
    ∃ s t, Chain.Member executed.nextTask executed.taskList s ∧
      Chain.Member executed.nextTask executed.taskList t ∧ s ≠ t ∧
      (executed.task s).pid = (executed.task t).pid := by
  rcases called_step firstRuns_current executed_checks with ⟨stepped, facts⟩
  simp only [Bool.and_eq_true, decide_eq_true_eq] at facts
  rcases facts with ⟨⟨⟨⟨first, second⟩, third⟩, last⟩, pids⟩
  have listed : Chain.Linked executed.nextTask executed.taskList [0x1000, 0x2000, 0x10000] :=
    ⟨first, second, third, last⟩
  refine ⟨.step (reachable_firstRuns trivial) stepped trivial, 0x1000, 0x10000, ?_, ?_, by decide,
    pids⟩
  · exact listed.member_iff.mpr (by decide)
  · exact listed.member_iff.mpr (by decide)

end Sbrocks.Process
