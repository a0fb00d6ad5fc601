import Sbrocks.Process.AddressSpace

/-!
# Answering page faults

The page fault handler answers a fault of the kernel with a page of the current
task's heap or stack, or ends the task.  So the handler, tied to itself to any
depth, answers faults for every pair of predicates that the end of the current
task leads from one to the other.
-/

namespace Sbrocks.Process

open Sbrocks.Mmu

/-- A computation that creates, blocks and ends no task. -/
def Quiets {α : Type} [HasState α] (J : Kernel → Prop) (k : Kernel) (flow : Flow Kernel α) : Prop :=
  flow.All (fun result => Quiet k (HasState.state result)) J

/-- The end of the current task leads from `I` to `J`. -/
def Fault.Exits (fault : Fault) (I J : Kernel → Prop) : Prop :=
  ∀ {α : Type} {P : α → Prop} {k : Kernel}, I k → (k.systemExit fault : Flow Kernel α).All P J

namespace Quiet

variable {k k' : Kernel} {t : Word}

/-- Changes to other things than tasks. -/
theorem same (task : k'.task = k.task) (heads : k'.heads = k.heads)
    (faults : k'.kernelFaults = k.kernelFaults) : Quiet k k' where
  taskList := congrArg Heads.taskList heads
  freeTaskList := congrArg Heads.freeTaskList heads
  currentTask := congrArg Heads.currentTask heads
  taskStructs := congrArg Heads.taskStructs heads
  pid := congrArg Heads.pid heads
  task t := by rw [task]
  state t := .inl (by rw [task])
  others t _ := by rw [task]
  frame := .inl ⟨faults, fun t => by rw [task]⟩

theorem setMachine (k : Kernel) (m : Machine) : Quiet k (k.setMachine m) :=
  same rfl rfl rfl

/-- A change of the pipes or redirections of a task, or a wake-up. -/
theorem modTask (k : Kernel) (t : Word) {change : TaskStruct → TaskStruct}
    (task : change (k.task t) =
      { k.task t with
        state := (change (k.task t)).state, pipe := (change (k.task t)).pipe,
        writeRedirectionFd := (change (k.task t)).writeRedirectionFd,
        readRedirectionFd := (change (k.task t)).readRedirectionFd })
    (state : (change (k.task t)).state = (k.task t).state ∨
      (change (k.task t)).state = .runnable) :
    Quiet k (k.modTask t change) where
  taskList := rfl
  freeTaskList := rfl
  currentTask := rfl
  taskStructs := rfl
  pid := rfl
  task other := by
    by_cases here : other = t
    · subst here
      rw [k.modTask_task_self]
      rw [task]
    · rw [k.modTask_task_of_ne here]
  state other := by
    by_cases here : other = t
    · subst here
      rw [k.modTask_task_self]
      exact state
    · rw [k.modTask_task_of_ne here]
      exact .inl rfl
  others other _ := by
    by_cases here : other = t
    · subst here
      rw [k.modTask_task_self, task]
    · rw [k.modTask_task_of_ne here]
  frame := by
    refine .inl ⟨rfl, fun other => ?_⟩
    by_cases here : other = t
    · subst here
      rw [k.modTask_task_self, task]
    · rw [k.modTask_task_of_ne here]

end Quiet

namespace Quiets

variable {α β : Type} [HasState α] [HasState β] {I J : Kernel → Prop} {fault : Fault} {k : Kernel}

theorem done {k' : Kernel} (quiet : Quiet k k') : Quiets J k (.next k') :=
  quiet

theorem pair {γ : Type} {k' : Kernel} {result : γ} (quiet : Quiet k k') :
    Quiets J k (.next (k', result)) :=
  quiet

theorem of_touches {flow : Flow Kernel α} (touches : Touches J k flow) : Quiets J k flow :=
  Flow.All.imp touches fun _ touched => touched.quiet

theorem of_spaces {flow : Flow Kernel α} (spaces : Spaces J k flow) : Quiets J k flow :=
  Flow.All.imp spaces fun _ spaced => spaced.quiet

/-- A step without memory accesses before a computation. -/
theorem after {k' : Kernel} {flow : Flow Kernel α} (quiet : Quiet k k') (rest : Quiets J k' flow) :
    Quiets J k flow := by
  apply Flow.All.imp rest
  intro x quiet'
  exact quiet.trans quiet'

theorem bind (answers : fault.Answers I J) {flow : Flow Kernel α} {rest : α → Flow Kernel β}
    (inv : I k) (first : Quiets J k flow)
    (second : ∀ x, I (HasState.state x) → Quiets J (HasState.state x) (rest x)) :
    Quiets J k (flow >>= rest) := by
  apply Flow.All.bind first
  intro x quiet
  exact after quiet (second x (answers.stable inv quiet))

/-- A value that the state determines. -/
theorem ofOption {γ : Type} {value : Option γ} {rest : γ → Flow Kernel β}
    (each : ∀ x, value = some x → Quiets J k (rest x)) :
    Quiets J k (Flow.ofOption value >>= rest) := by
  cases value with
  | none => trivial
  | some x => exact each x rfl

end Quiets

namespace Kernel

variable {I J : Kernel → Prop} {fault : Fault} {k : Kernel}

/-! ## Page faults -/

variable (exits : fault.Exits I J)

include exits

theorem demandPagingLoop_touches (answers : fault.Heeds Touched I J) (inv : I k) (task addr : Word) (vma : Option Word)
    (rounds : Nat) : Touches J k (k.demandPagingLoop fault task addr vma rounds) := by
  induction rounds generalizing vma with
  | zero => trivial
  | succ rounds ih =>
      cases vma with
      | none => exact exits inv
      | some vma =>
          have loaded : Touched k (k.writeCr3 (k.m.virtToPhy (k.task task).pml4e)) :=
            .setMachine k _
          have inv₁ := answers.stable inv loaded
          unfold demandPagingLoop
          dsimp only
          split
          · apply Touches.after loaded
            apply Touches.bind answers inv₁ (allocPagesAtVirt_touches _ _ _)
            intro k₂ inv₂
            exact memset_touches answers inv₂ _ _ _
          · split
            · exact Touches.after loaded (allocPagesAtVirt_touches _ _ _)
            · exact ih _

theorem demandPaging_touches (answers : fault.Heeds Touched I J) (inv : I k) (addr : Word) :
    Touches J k (k.demandPaging fault addr) := by
  unfold demandPaging
  cases k.currentTask with
  | none => trivial
  | some task => exact demandPagingLoop_touches exits answers inv task addr _ _

/-- The handler, from the state that holds the interrupted frame. -/
theorem pageFaultHandler_spaces (answers : fault.Heeds Spaced I J) {r : Regs}
    (inv : I (k.saveFrame r)) (vaddr : Word) :
    Spaces J (k.saveFrame r) (k.pageFaultHandler fault vaddr r) := by
  unfold pageFaultHandler
  dsimp only
  split
  · exact exits inv
  · apply Spaces.bind answers inv
    · show Spaces J (k.saveFrame r) _
      split
      · exact protectionFault_spaces answers inv vaddr
      · exact .of_touches (demandPaging_touches exits answers.touched inv vaddr)
    · intro k₁ _
      exact Spaced.refl k₁

/-- The handler for a page that is not present. -/
theorem pageFaultHandler_touches (answers : fault.Heeds Touched I J) {r : Regs} (inv : I (k.saveFrame r)) (vaddr : Word)
    (notPresent : r.errCode &&& 1 = 0) :
    Touches J (k.saveFrame r) (k.pageFaultHandler fault vaddr r) := by
  unfold pageFaultHandler
  dsimp only
  split
  · exact exits inv
  · apply Touches.bind answers inv
    · show Touches J (k.saveFrame r) _
      split
      · rename_i present
        exact absurd notPresent present
      · exact demandPaging_touches exits answers inv vaddr
    · intro k₁ _
      exact Touched.refl k₁

omit exits in
/-- Without a current task there is nothing to map and nothing to end. -/
theorem pageFaultHandler_idle (idle : k.currentTask = none) (vaddr : Word) {r : Regs}
    (notPresent : r.errCode &&& 1 = 0) : k.pageFaultHandler fault vaddr r = .stuck := by
  have entry : k.saveFrame r = k := by rw [saveFrame, idle]
  unfold pageFaultHandler
  rw [entry]
  dsimp only
  split
  · rw [systemExit, idle]
    rfl
  · rw [if_neg (not_not_intro notPresent), demandPaging, idle]
    rfl

omit exits in
/-- Entering the handler from the kernel. -/
theorem saveFrame_touched {t : Word} (running : k.currentTask = some t) {r : Regs}
    (kernelMode : r.cs = 0x08) :
    Touched k (({ k with kernelFaults := k.kernelFaults + 1 } : Kernel).saveFrame r) := by
  have entry : ({ k with kernelFaults := k.kernelFaults + 1 } : Kernel).saveFrame r =
      ({ k with kernelFaults := k.kernelFaults + 1 } : Kernel).modTask t fun s =>
        { s with r := r } := by
    rw [saveFrame]
    dsimp only
    rw [running]
  rw [entry]
  refine ⟨rfl, ?_, ?_, .inr ⟨Nat.lt_succ_self _, t, running, ?_⟩⟩
  · intro other
    by_cases here : other = t
    · rw [here, modTask_task_self]
      exact ⟨r, rfl⟩
    · rw [modTask_task_of_ne _ here]
      exact ⟨_, rfl⟩
  · intro other elsewhere
    apply modTask_task_of_ne
    rintro rfl
    exact elsewhere running
  · rw [modTask_task_self]
    exact kernelMode

end Kernel

theorem kernelFrame_errCode (frame : Regs) : (Kernel.kernelFrame frame).errCode &&& 1 = 0 := by
  change frame.errCode &&& ~~~1 &&& 1 = 0
  rw [BitVec.and_assoc, show (~~~1 &&& 1 : Word) = 0 from by decide]
  exact BitVec.and_zero

/-- The page fault handler answers the kernel's own faults, to any depth, for
predicates that accesses to memory keep and that the end of a task leads from one to
the other. -/
theorem kernelFault_heeds {I J : Kernel → Prop}
    (stable : ∀ {k k' : Kernel}, I k → Touched k k' → I k')
    (frames : Kernel → Word → Regs)
    (exits : ∀ depth, (Kernel.kernelFault frames depth).Heeds Touched I J →
      (Kernel.kernelFault frames depth).Exits I J) (depth : Nat) :
    (Kernel.kernelFault frames depth).Heeds Touched I J := by
  induction depth with
  | zero => exact ⟨stable, fun _ _ => trivial⟩
  | succ depth ih =>
      refine ⟨stable, ?_⟩
      intro k inv vaddr
      cases running : k.currentTask with
      | none =>
          have idle : ({ k with kernelFaults := k.kernelFaults + 1 } : Kernel).currentTask = none :=
            running
          unfold Kernel.kernelFault
          dsimp only
          rw [Kernel.pageFaultHandler_idle idle vaddr (kernelFrame_errCode (frames k vaddr))]
          trivial
      | some t =>
          have entered := Kernel.saveFrame_touched running
            (show (Kernel.kernelFrame (frames k vaddr)).cs = 0x08 from rfl)
          have handled := Kernel.pageFaultHandler_touches (exits depth ih) ih (stable inv entered)
            vaddr (kernelFrame_errCode (frames k vaddr))
          apply Flow.All.bind (Touches.after entered handled)
          rintro ⟨k', r⟩ touched
          dsimp only
          split
          · exact touched
          · trivial

/-- The same, for predicates that more steps keep. -/
theorem kernelFault_answers {I J : Kernel → Prop}
    (stable : ∀ {k k' : Kernel}, I k → Quiet k k' → I k')
    (frames : Kernel → Word → Regs)
    (exits : ∀ depth, (Kernel.kernelFault frames depth).Answers I J →
      (Kernel.kernelFault frames depth).Exits I J) (depth : Nat) :
    (Kernel.kernelFault frames depth).Answers I J := by
  refine ⟨stable, (kernelFault_heeds (fun inv touched => stable inv touched.quiet) frames ?_
    depth).handles⟩
  intro depth heeds
  exact exits depth ⟨stable, heeds.handles⟩

end Sbrocks.Process
