import Sbrocks.Process.Answers

/-!
# Files, the keyboard and pipes

Memory, areas and tasks are kept apart from the files, from the line of the keyboard
and from what the pipes wait for.  Page faults, the end of a task and the scheduler
only change the former.
-/

namespace Sbrocks.Process

open Sbrocks.Mmu

/-- The variables of the kernel for files, the keyboard and pipes. -/
structure Devices where
  file : Word → File
  fileStructs : List Word
  filelist : Option Word
  fdCount : BitVec 32
  cwd : List Byte
  binaryTarfsStart : Word
  kb : Keyboard
  pipeReadWaitQueue : Option Word
  str : Word
  count : Word
  pipeWriteFlag : Bool

def Kernel.devices (k : Kernel) : Devices where
  file := k.file
  fileStructs := k.fileStructs
  filelist := k.filelist
  fdCount := k.fdCount
  cwd := k.cwd
  binaryTarfsStart := k.binaryTarfsStart
  kb := k.kb
  pipeReadWaitQueue := k.pipeReadWaitQueue
  str := k.str
  count := k.count
  pipeWriteFlag := k.pipeWriteFlag

theorem Touched.devices {k k' : Kernel} (touched : Touched k k') : k'.devices = k.devices := by
  rw [touched.same]
  rfl

/-- A computation that leaves the devices as they are, also where control leaves it. -/
def Keeps {α : Type} [HasState α] (devices : Devices) (flow : Flow Kernel α) : Prop :=
  flow.All (fun result => (HasState.state result).devices = devices) fun k => k.devices = devices

namespace Keeps

variable {α β : Type} [HasState α] [HasState β] {devices : Devices}

theorem bind {flow : Flow Kernel α} {rest : α → Flow Kernel β} (first : Keeps devices flow)
    (second : ∀ x, (HasState.state x).devices = devices → Keeps devices (rest x)) :
    Keeps devices (flow >>= rest) :=
  Flow.All.bind first second

theorem ofOption {γ : Type} {value : Option γ} {rest : γ → Flow Kernel β}
    (each : ∀ x, Keeps devices (rest x)) : Keeps devices (Flow.ofOption value >>= rest) := by
  cases value with
  | none => trivial
  | some x => exact each x

end Keeps

/-- Page faults of the kernel leave the devices as they are. -/
def Fault.Keeps (fault : Fault) (devices : Devices) : Prop :=
  ∀ k virt, k.devices = devices → Process.Keeps devices (fault k virt)

namespace Kernel

variable {devices : Devices} {fault : Fault} {k : Kernel}

/-! ## The scheduler -/

theorem updateTimeSlicesLoop_keeps (kept : k.devices = devices) (t : Option Word) (rounds : Nat) :
    Keeps devices (k.updateTimeSlicesLoop t rounds) := by
  induction rounds generalizing k t with
  | zero => trivial
  | succ rounds ih =>
      cases t with
      | none => exact kept
      | some t =>
          apply ih
          exact kept

theorem countTick_keeps (kept : k.devices = devices) : Keeps devices k.countTick := by
  unfold countTick
  dsimp only
  split
  · apply Keeps.bind
    · apply updateTimeSlicesLoop_keeps
      exact kept
    · intro k₁ kept₁
      exact kept₁
  · exact kept

/-- Choosing the next task changes nothing. -/
theorem getNextTask_only (current : Option Word) {J : Kernel → Prop} :
    (k.getNextTask current).All (fun _ => True) J := by
  unfold getNextTask
  split
  · trivial
  · apply Flow.All.bind (P := fun _ => True)
    · exact Flow.All.ofOption fun _ _ => trivial
    · intro after _
      cases after with
      | some task => trivial
      | none => exact Flow.All.ofOption fun _ _ => trivial

theorem scheduleProcess_keeps (kept : k.devices = devices) : Keeps devices k.scheduleProcess := by
  unfold scheduleProcess
  split
  · apply Flow.All.bind (getNextTask_only none)
    intro found _
    cases found with
    | none => exact kept
    | some task => exact kept
  · apply Flow.All.bind (getNextTask_only _)
    intro found _
    cases found with
    | none => exact kept
    | some task => exact kept

theorem timerHandler_keeps (kept : k.devices = devices) (r : Regs) :
    Keeps devices (k.timerHandler r) := by
  have saved : (k.saveFrame r).devices = devices := by
    unfold saveFrame
    split <;> exact kept
  unfold timerHandler
  apply Keeps.bind (countTick_keeps saved)
  intro k₁ kept₁
  apply Keeps.bind (scheduleProcess_keeps kept₁)
  intro k₂ kept₂
  exact kept₂

theorem yield_keeps (kept : k.devices = devices) : Keeps devices k.yield := by
  unfold yield
  apply Keeps.bind (timerHandler_keeps kept default)
  rintro ⟨k₁, r⟩ kept₁
  dsimp only
  split
  · exact kept₁
  · exact kept₁

/-! ## Memory -/

theorem touch_keeps (answers : fault.Keeps devices) (kept : k.devices = devices) (virt : Word) :
    Keeps devices (k.touch fault virt) := by
  unfold touch
  split
  · split
    · exact kept
    · apply Keeps.bind (answers k virt kept)
      intro k₁ kept₁
      split
      · exact kept₁
      · trivial
  · trivial

theorem memset_keeps (answers : fault.Keeps devices) (kept : k.devices = devices) (str : Word)
    (c : Byte) (n : Nat) : Keeps devices (k.memset fault str c n) := by
  induction n generalizing k str with
  | zero => exact kept
  | succ n ih =>
      apply Keeps.bind
      · apply Keeps.bind (touch_keeps answers kept str)
        rintro ⟨k₁, frame⟩ kept₁
        exact kept₁
      · intro k₁ kept₁
        exact ih kept₁ _

theorem allocPagesAtVirt_keeps (kept : k.devices = devices) (virt size flags : Word) :
    Keeps devices (k.allocPagesAtVirt virt size flags) := by
  apply Keeps.ofOption
  intro m
  exact kept

/-! ## The end of a task -/

theorem addToFreeVmList_keeps (kept : k.devices = devices) (vma : Word) :
    Keeps devices (k.addToFreeVmList vma) := by
  unfold addToFreeVmList
  split
  · exact kept
  · apply Keeps.ofOption
    intro last
    exact kept

theorem freeArea_keeps (answers : fault.Keeps devices) (kept : k.devices = devices)
    (task vma : Word) : Keeps devices (k.freeArea fault task vma) := by
  unfold freeArea
  dsimp only
  split
  · apply Keeps.bind (memset_keeps answers kept _ _ _)
    intro k₁ kept₁
    exact kept₁
  · split
    · apply Keeps.bind (memset_keeps answers kept _ _ _)
      intro k₁ kept₁
      exact kept₁
    · exact kept

theorem freeAreas_keeps (answers : fault.Keeps devices) (kept : k.devices = devices) (task : Word)
    (vma : Option Word) (rounds : Nat) : Keeps devices (k.freeAreas fault task vma rounds) := by
  induction rounds generalizing k vma with
  | zero => trivial
  | succ rounds ih =>
      cases vma with
      | none => exact kept
      | some vma =>
          apply Keeps.bind (freeArea_keeps answers kept task vma)
          intro k₁ kept₁
          apply Keeps.bind
          · apply addToFreeVmList_keeps
            exact kept₁
          · intro k₂ kept₂
            exact ih kept₂ _

theorem freeTaskMmStruct_keeps (answers : fault.Keeps devices) (kept : k.devices = devices)
    (mm task : Word) : Keeps devices (k.freeTaskMmStruct fault mm task) := by
  unfold freeTaskMmStruct
  apply Keeps.bind
  · apply freeAreas_keeps answers
    exact kept
  · intro k₁ kept₁
    exact kept₁

theorem removeFromTaskList_keeps (kept : k.devices = devices) (task : Word) :
    Keeps devices (k.removeFromTaskList task) := by
  unfold removeFromTaskList
  dsimp only
  split
  · exact kept
  · split
    · exact kept
    · apply Keeps.ofOption
      intro found
      split
      · exact kept
      · exact kept

theorem addToFreeTaskList_keeps (kept : k.devices = devices) (task : Word) :
    Keeps devices (k.addToFreeTaskList task) := by
  unfold addToFreeTaskList
  split
  · exact kept
  · apply Keeps.ofOption
    intro last
    exact kept

theorem freeTaskStruct_keeps (answers : fault.Keeps devices) (kept : k.devices = devices)
    (task : Word) : Keeps devices (k.freeTaskStruct fault task) := by
  unfold freeTaskStruct
  apply Keeps.bind
  · apply removeFromTaskList_keeps
    exact kept
  · intro k₁ kept₁
    apply Keeps.bind (freeTaskMmStruct_keeps answers kept₁ _ task)
    intro k₂ kept₂
    apply addToFreeTaskList_keeps
    exact kept₂

theorem leaveParent_keeps (kept : k.devices = devices) (task : Word) :
    Keeps devices (k.leaveParent task) := by
  unfold leaveParent
  split
  · apply Keeps.ofOption
    intro parent
    apply Keeps.ofOption
    intro parent'
    dsimp only
    split
    · exact kept
    · exact kept
  · exact kept

/-- The end of a task leaves the devices as they are: what it had opened stays open. -/
theorem systemExit_keeps {α : Type} {P : α → Prop} (answers : fault.Keeps devices)
    (kept : k.devices = devices) :
    (k.systemExit fault : Flow Kernel α).All P fun k => k.devices = devices := by
  unfold systemExit
  cases k.currentTask with
  | none => trivial
  | some task =>
      apply Flow.All.bind (leaveParent_keeps kept task)
      intro k₁ kept₁
      apply Flow.All.bind (freeTaskStruct_keeps answers kept₁ task)
      intro k₂ kept₂
      apply Flow.All.bind (R := P)
      · exact yield_keeps kept₂
      · intro k₃ kept₃
        exact kept₃

theorem systemKill_keeps (answers : fault.Keeps devices) (kept : k.devices = devices)
    (processId : Word) : Keeps devices (k.systemKill fault processId) := by
  apply Keeps.ofOption
  intro found
  cases found with
  | none => exact kept
  | some t =>
      apply Keeps.bind (freeTaskStruct_keeps answers kept t)
      intro k₁ kept₁
      exact kept₁

/-! ## Page faults -/

theorem demandPagingLoop_keeps (answers : fault.Keeps devices) (kept : k.devices = devices)
    (task addr : Word) (vma : Option Word) (rounds : Nat) :
    Keeps devices (k.demandPagingLoop fault task addr vma rounds) := by
  induction rounds generalizing vma with
  | zero => trivial
  | succ rounds ih =>
      cases vma with
      | none => exact systemExit_keeps answers kept
      | some vma =>
          unfold demandPagingLoop
          dsimp only
          split
          · apply Keeps.bind
            · apply allocPagesAtVirt_keeps
              exact kept
            · intro k₁ kept₁
              exact memset_keeps answers kept₁ _ _ _
          · split
            · apply allocPagesAtVirt_keeps
              exact kept
            · exact ih _

theorem demandPaging_keeps (answers : fault.Keeps devices) (kept : k.devices = devices)
    (addr : Word) : Keeps devices (k.demandPaging fault addr) := by
  apply Keeps.ofOption
  intro task
  exact demandPagingLoop_keeps answers kept task addr _ _

end Kernel

/-- The kernel's page faults leave the devices as they are. -/
theorem kernelFault_keeps (frames : Kernel → Word → Regs) (depth : Nat) (devices : Devices) :
    (Kernel.kernelFault frames depth).Keeps devices := by
  induction depth with
  | zero => exact fun _ _ _ => trivial
  | succ depth ih =>
      intro k vaddr kept
      have saved : (({ k with kernelFaults := k.kernelFaults + 1 } : Kernel).saveFrame
          (Kernel.kernelFrame (frames k vaddr))).devices = devices := by
        unfold Kernel.saveFrame
        split <;> exact kept
      unfold Kernel.kernelFault Kernel.pageFaultHandler
      dsimp only
      apply Keeps.bind
      · split
        · exact Kernel.systemExit_keeps ih saved
        · rw [if_neg (not_not_intro (kernelFrame_errCode (frames k vaddr)))]
          apply Keeps.bind (Kernel.demandPaging_keeps ih saved vaddr)
          intro k₁ kept₁
          exact kept₁
      · rintro ⟨k₁, r⟩ kept₁
        dsimp only
        split
        · exact kept₁
        · trivial

/-- The kernel's page faults touch memory only. -/
theorem kernelFault_touched (frames : Kernel → Word → Regs) (depth : Nat) :
    (Kernel.kernelFault frames depth).Answers (fun _ => True) fun _ => True := by
  apply kernelFault_answers (fun _ _ => trivial)
  intro depth _ α P k _
  have kept := Kernel.systemExit_keeps (P := P) (kernelFault_keeps frames depth k.devices)
    (rfl : k.devices = k.devices)
  exact kept.mono (fun _ => id) fun _ _ => trivial

end Sbrocks.Process
