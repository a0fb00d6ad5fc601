import Sbrocks.Process.Footprint

/-!
# What functions on address spaces do

The functions that map, copy and free the memory of a task change the memory, the areas
and the memory structures.  Like any access to memory they may take page faults, which
replace the frame of the current task.
-/

namespace Sbrocks.Process

open Sbrocks.Mmu

/-- The effect of functions on address spaces. -/
structure Spaced (k k' : Kernel) : Prop where
  same : k' = { k with
    m := k'.m, mm := k'.mm, vma := k'.vma, mmStructs := k'.mmStructs, vmaStructs := k'.vmaStructs,
    freeVmList := k'.freeVmList, kernelFaults := k'.kernelFaults, task := k'.task }
  task : ∀ t, ∃ r, k'.task t = { k.task t with r := r }
  others : ∀ t, k.currentTask ≠ some t → k'.task t = k.task t
  frame : (k'.kernelFaults = k.kernelFaults ∧ k'.task = k.task) ∨
    (k.kernelFaults < k'.kernelFaults ∧
      ∃ t, k.currentTask = some t ∧ (k'.task t).r.cs = 0x08)

theorem Touched.spaced {k k' : Kernel} (touched : Touched k k') : Spaced k k' where
  same := by rw [touched.same]
  task := touched.task
  others := touched.others
  frame := touched.frame

namespace Spaced

variable {k k' k'' : Kernel}

theorem refl (k : Kernel) : Spaced k k := (Touched.refl k).spaced

theorem currentTask (spaced : Spaced k k') : k'.currentTask = k.currentTask := by
  rw [spaced.same]

theorem trans (first : Spaced k k') (second : Spaced k' k'') : Spaced k k'' where
  same := by
    have step := second.same
    rw [first.same] at step
    exact step
  task t := by
    rcases first.task t with ⟨r, here⟩
    rcases second.task t with ⟨r', there⟩
    exact ⟨r', by rw [there, here]⟩
  others t other := by
    rw [second.others t (first.currentTask ▸ other), first.others t other]
  frame := by
    rcases second.frame with ⟨faults, same⟩ | ⟨faults, t, running, kernel⟩
    · rcases first.frame with ⟨faults', same'⟩ | ⟨faults', t, running, kernel⟩
      · exact .inl ⟨faults.trans faults', same.trans same'⟩
      · exact .inr ⟨faults ▸ faults', t, running, same ▸ kernel⟩
    · rw [first.currentTask] at running
      rcases first.frame with ⟨faults', _⟩ | ⟨faults', _⟩
      · exact .inr ⟨faults' ▸ faults, t, running, kernel⟩
      · exact .inr ⟨Nat.lt_trans faults' faults, t, running, kernel⟩

/-- Changes to memory, areas and memory structures alone. -/
theorem changes (same : k' = { k with
    m := k'.m, mm := k'.mm, vma := k'.vma, mmStructs := k'.mmStructs, vmaStructs := k'.vmaStructs,
    freeVmList := k'.freeVmList }) : Spaced k k' := by
  have task : k'.task = k.task := by rw [same]
  have faults : k'.kernelFaults = k.kernelFaults := by rw [same]
  refine ⟨?_, fun t => ⟨_, by rw [task]⟩, fun t _ => by rw [task], .inl ⟨faults, task⟩⟩
  rw [faults, task]
  exact same

theorem setMachine (k : Kernel) (m : Machine) : Spaced k (k.setMachine m) := changes rfl

theorem modMm (k : Kernel) (p : Word) (change : MmStruct → MmStruct) :
    Spaced k (k.modMm p change) :=
  changes rfl

theorem modVma (k : Kernel) (p : Word) (change : VmAreaStruct → VmAreaStruct) :
    Spaced k (k.modVma p change) :=
  changes rfl

theorem quiet (spaced : Spaced k k') : Quiet k k' where
  taskList := by rw [spaced.same]
  freeTaskList := by rw [spaced.same]
  currentTask := spaced.currentTask
  taskStructs := by rw [spaced.same]
  pid := by rw [spaced.same]
  task t := by
    rcases spaced.task t with ⟨r, same⟩
    rw [same]
  state t := by
    rcases spaced.task t with ⟨r, same⟩
    rw [same]
    exact .inl rfl
  others t other := by rw [spaced.others t other]
  frame := by
    rcases spaced.frame with ⟨faults, same⟩ | fault
    · exact .inl ⟨faults, fun t => by rw [same]⟩
    · exact .inr fault

end Spaced

/-- A computation that only works on address spaces. -/
def Spaces {α : Type} [HasState α] (J : Kernel → Prop) (k : Kernel) (flow : Flow Kernel α) : Prop :=
  flow.All (fun result => Spaced k (HasState.state result)) J

theorem Fault.Answers.spaced {fault : Fault} {I J : Kernel → Prop}
    (answers : fault.Answers I J) : fault.Heeds Spaced I J :=
  ⟨fun inv spaced => answers.stable inv spaced.quiet, answers.handles⟩

theorem Fault.Heeds.touched {fault : Fault} {I J : Kernel → Prop}
    (answers : fault.Heeds Spaced I J) : fault.Heeds Touched I J :=
  ⟨fun inv touched => answers.stable inv touched.spaced, answers.handles⟩

namespace Spaces

variable {α β : Type} [HasState α] [HasState β] {I J : Kernel → Prop} {fault : Fault} {k : Kernel}

theorem of_touches {flow : Flow Kernel α} (touches : Touches J k flow) : Spaces J k flow :=
  Flow.All.imp touches fun _ touched => touched.spaced

/-- A step without memory accesses before a computation. -/
theorem after {k' : Kernel} {flow : Flow Kernel α} (spaced : Spaced k k')
    (rest : Spaces J k' flow) : Spaces J k flow := by
  apply Flow.All.imp rest
  intro x spaced'
  exact spaced.trans spaced'

theorem bind (answers : fault.Heeds Spaced I J) {flow : Flow Kernel α} {rest : α → Flow Kernel β}
    (inv : I k) (first : Spaces J k flow)
    (second : ∀ x, I (HasState.state x) → Spaces J (HasState.state x) (rest x)) :
    Spaces J k (flow >>= rest) := by
  apply Flow.All.bind first
  intro x spaced
  exact after spaced (second x (answers.stable inv spaced))

/-- A value that the state determines. -/
theorem ofOption {γ : Type} {value : Option γ} {rest : γ → Flow Kernel β}
    (each : ∀ x, value = some x → Spaces J k (rest x)) :
    Spaces J k (Flow.ofOption value >>= rest) := by
  cases value with
  | none => trivial
  | some x => exact each x rfl

end Spaces

namespace Kernel

variable {I J : Kernel → Prop} {fault : Fault} (answers : fault.Heeds Spaced I J) {k : Kernel}

/-! ## Structures -/

theorem kmalloc_spaces (size : Word) : Spaces J k (k.kmalloc size) := by
  apply Spaces.ofOption
  rintro ⟨m, addr⟩ _
  exact Spaced.setMachine k m

theorem kmallocStruct_spaces (size : Word) (structs : List Word) :
    Spaces J k (k.kmallocStruct size structs) := by
  apply Flow.All.bind (kmalloc_spaces size)
  rintro ⟨k₁, addr⟩ spaced
  dsimp only
  split
  · trivial
  · exact spaced

theorem createNewMmstruct_spaces : Spaces J k k.createNewMmstruct := by
  apply Flow.All.bind (kmallocStruct_spaces _ _)
  rintro ⟨k₁, mm⟩ spaced
  exact spaced.trans (.changes rfl)

theorem getFreeVma_spaces : Spaces J k k.getFreeVma := by
  unfold getFreeVma
  split
  · exact Spaced.changes rfl
  · apply Flow.All.bind (kmallocStruct_spaces _ _)
    rintro ⟨k₁, vma⟩ spaced
    exact spaced.trans (.changes rfl)

theorem createVma_spaces (vmMm start end_ : Word) (type : VmaType) (flags fd : Word) :
    Spaces J k (k.createVma vmMm start end_ type flags fd) := by
  apply Flow.All.bind getFreeVma_spaces
  rintro ⟨k₁, vma⟩ spaced
  exact spaced.trans (.changes rfl)

theorem addToVmaList_spaces (mm vma : Word) : Spaces J k (k.addToVmaList mm vma) := by
  unfold addToVmaList
  split
  · exact Spaced.changes rfl
  · apply Spaces.ofOption
    intro last _
    exact Spaced.changes rfl

theorem addToFreeVmList_spaces (vma : Word) : Spaces J k (k.addToFreeVmList vma) := by
  unfold addToFreeVmList
  split
  · exact Spaced.changes rfl
  · apply Spaces.ofOption
    intro last _
    exact Spaced.changes rfl

theorem allocPagesAtVirt_touches (virt size flags : Word) :
    Touches J k (k.allocPagesAtVirt virt size flags) := by
  unfold allocPagesAtVirt
  cases k.m.allocPagesAtVirt virt size flags with
  | none => trivial
  | some m => exact Touched.setMachine k m

theorem allocPages_spaces (n : Nat) (flags : Word) : Spaces J k (k.allocPages n flags) := by
  apply Spaces.ofOption
  rintro ⟨m, addr⟩ _
  exact Spaced.setMachine k m

theorem mapVirtToPhy_spaces (virt phy flags : Word) : Spaces J k (k.mapVirtToPhy virt phy flags) := by
  apply Spaces.ofOption
  intro m _
  exact Spaced.setMachine k m

/-! ## The areas of a task that ends -/

include answers

theorem freeArea_spaces (inv : I k) (task vma : Word) : Spaces J k (k.freeArea fault task vma) := by
  unfold freeArea
  dsimp only
  split
  · apply Spaces.bind answers inv (.of_touches (memset_touches answers.touched inv _ _ _))
    intro k₁ _
    exact Spaced.setMachine k₁ _
  · split
    · apply Spaces.bind answers inv (.of_touches (memset_touches answers.touched inv _ _ _))
      intro k₁ _
      exact Spaced.setMachine k₁ _
    · exact Spaced.refl k

theorem freeAreas_spaces (inv : I k) (task : Word) (vma : Option Word) (rounds : Nat) :
    Spaces J k (k.freeAreas fault task vma rounds) := by
  induction rounds generalizing k vma with
  | zero => trivial
  | succ rounds ih =>
      cases vma with
      | none => exact Spaced.refl k
      | some vma =>
          apply Spaces.bind answers inv (freeArea_spaces answers inv task vma)
          intro k₁ inv₁
          have cleared := Spaced.modVma k₁ vma fun s =>
            { s with vmMm := none, vmStart := 0, vmEnd := 0, vmFlags := 0, vmFileDescp := 0 }
          apply Spaces.after cleared
          apply Spaces.bind answers (answers.stable inv₁ cleared) (addToFreeVmList_spaces vma)
          intro k₂ inv₂
          exact ih inv₂ _

theorem freeTaskMmStruct_spaces (inv : I k) (mm task : Word) :
    Spaces J k (k.freeTaskMmStruct fault mm task) := by
  have cleared := Spaced.modMm k mm fun s => { s with totalVmSize := 0, stackVm := 0 }
  apply Spaces.after cleared
  apply Spaces.bind answers (answers.stable inv cleared)
    (freeAreas_spaces answers (answers.stable inv cleared) task _ _)
  intro k₁ _
  exact Spaced.changes rfl

/-! ## Page faults -/

theorem protectionFault_spaces (inv : I k) (vaddr : Word) :
    Spaces J k (k.protectionFault fault vaddr) := by
  apply Spaces.ofOption
  rintro ⟨table, offset⟩ _
  dsimp only
  split
  · apply Spaces.bind answers inv (allocPages_spaces _ _)
    rintro ⟨k₁, dummyVaddr⟩ inv₁
    apply Spaces.bind answers inv₁ (.of_touches (memcpy_touches answers.touched inv₁ _ _ _))
    intro k₂ inv₂
    apply Spaces.bind answers inv₂ (mapVirtToPhy_spaces _ _ _)
    intro k₃ inv₃
    apply Spaces.ofOption
    rintro ⟨table', offset'⟩ _
    exact Spaced.changes rfl
  · exact Spaced.refl k

end Kernel

end Sbrocks.Process
