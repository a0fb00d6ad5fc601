import Sbrocks.Chain.Linked
import Sbrocks.Syscall.Effects
import Sbrocks.Process.Devices

/-!
# What happens to the pipes of the tasks

Scheduling, the creation and the end of tasks, page faults and the keyboard leave the
pipes and redirections of each task as they are, or take all of them away.
-/

namespace Sbrocks.Process

open Sbrocks.Mmu

/-- The pipes and redirections of a task. -/
structure Plumbing where
  pipe : Option Word
  writeRedirectionFd : Word
  readRedirectionFd : Word

/-- Neither pipes nor redirections. -/
def Plumbing.dry : Plumbing := ⟨none, 0, 0⟩

def TaskStruct.plumbing (s : TaskStruct) : Plumbing :=
  ⟨s.pipe, s.writeRedirectionFd, s.readRedirectionFd⟩

/-- The pipes of each task are kept, or gone. -/
structure Drained (k k' : Kernel) : Prop where
  fd : ∀ p, (k'.file p).fd = (k.file p).fd
  nextFile : k'.nextFile = k.nextFile
  fileStructs : k'.fileStructs = k.fileStructs
  task : ∀ t, (k'.task t).plumbing = (k.task t).plumbing ∨ (k'.task t).plumbing = .dry

namespace Drained

variable {k k' k'' : Kernel} {t : Word}

theorem refl (k : Kernel) : Drained k k :=
  ⟨fun _ => rfl, rfl, rfl, fun _ => .inl rfl⟩

theorem trans (first : Drained k k') (second : Drained k' k'') : Drained k k'' where
  fd p := (second.fd p).trans (first.fd p)
  nextFile := second.nextFile.trans first.nextFile
  fileStructs := second.fileStructs.trans first.fileStructs
  task t := by
    rcases second.task t with kept | gone
    · rw [kept]
      exact first.task t
    · exact .inr gone

/-- A task without pipes stays without. -/
theorem dry (drained : Drained k k') (before : (k.task t).plumbing = .dry) :
    (k'.task t).plumbing = .dry := by
  rcases drained.task t with kept | gone
  · exact kept.trans before
  · exact gone

/-- Changes to other things than files and tasks. -/
theorem same (file : k'.file = k.file) (structs : k'.fileStructs = k.fileStructs)
    (task : k'.task = k.task) : Drained k k' where
  fd p := by rw [file]
  nextFile := by
    funext p
    unfold Kernel.nextFile
    rw [file]
  fileStructs := structs
  task t := .inl (by rw [task])

/-- A change of a task that keeps its pipes, or takes them away. -/
theorem modTask (k : Kernel) (t : Word) {change : TaskStruct → TaskStruct}
    (change_plumbing : (change (k.task t)).plumbing = (k.task t).plumbing ∨
      (change (k.task t)).plumbing = .dry) : Drained k (k.modTask t change) where
  fd _ := rfl
  nextFile := rfl
  fileStructs := rfl
  task other := by
    by_cases here : other = t
    · rw [here, k.modTask_task_self]
      exact change_plumbing
    · rw [k.modTask_task_of_ne here]
      exact .inl rfl

/-- A change of a task that keeps its pipes, after other things. -/
theorem andTask (drained : Drained k k') (t : Word) {change : TaskStruct → TaskStruct}
    (kept : (change (k'.task t)).plumbing = (k'.task t).plumbing) :
    Drained k (k'.modTask t change) :=
  drained.trans (.modTask k' t (.inl kept))

end Drained

/-- The files and the pipes of each task are kept. -/
structure Steady (k k' : Kernel) : Prop where
  file : k'.file = k.file
  fileStructs : k'.fileStructs = k.fileStructs
  fdCount : k'.fdCount = k.fdCount
  task : ∀ t, (k'.task t).plumbing = (k.task t).plumbing

namespace Steady

variable {k k' k'' : Kernel}

theorem refl (k : Kernel) : Steady k k :=
  ⟨rfl, rfl, rfl, fun _ => rfl⟩

theorem trans (first : Steady k k') (second : Steady k' k'') : Steady k k'' :=
  ⟨second.file.trans first.file, second.fileStructs.trans first.fileStructs,
    second.fdCount.trans first.fdCount, fun t => (second.task t).trans (first.task t)⟩

theorem nextFile (steady : Steady k k') : k'.nextFile = k.nextFile := by
  funext p
  unfold Kernel.nextFile
  rw [steady.file]

theorem drained (steady : Steady k k') : Drained k k' :=
  ⟨fun p => by rw [steady.file], steady.nextFile, steady.fileStructs,
    fun t => .inl (steady.task t)⟩

/-- Changes to other things than files and tasks. -/
theorem same (file : k'.file = k.file) (structs : k'.fileStructs = k.fileStructs)
    (count : k'.fdCount = k.fdCount) (task : k'.task = k.task) : Steady k k' :=
  ⟨file, structs, count, fun t => by rw [task]⟩

/-- A change of a task that keeps its pipes. -/
theorem modTask (k : Kernel) (t : Word) {change : TaskStruct → TaskStruct}
    (kept : (change (k.task t)).plumbing = (k.task t).plumbing) :
    Steady k (k.modTask t change) :=
  ⟨rfl, rfl, rfl, fun other => k.modTask_task_field TaskStruct.plumbing t other kept⟩

/-- A change of a task that keeps its pipes, after other things. -/
theorem andTask (steady : Steady k k') (t : Word) {change : TaskStruct → TaskStruct}
    (kept : (change (k'.task t)).plumbing = (k'.task t).plumbing) :
    Steady k (k'.modTask t change) :=
  steady.trans (.modTask k' t kept)

end Steady

theorem Spaced.plumbing {k k' : Kernel} (spaced : Spaced k k') (t : Word) :
    (k'.task t).plumbing = (k.task t).plumbing := by
  rcases spaced.task t with ⟨r, same⟩
  rw [same]
  rfl

theorem Spaced.steady {k k' : Kernel} (spaced : Spaced k k') : Steady k k' where
  file := by rw [spaced.same]
  fileStructs := by rw [spaced.same]
  fdCount := by rw [spaced.same]
  task := spaced.plumbing

theorem Spaced.drained {k k' : Kernel} (spaced : Spaced k k') : Drained k k' :=
  spaced.steady.drained

/-- The task list and the names of the tasks are kept. -/
structure SameList (k k' : Kernel) : Prop where
  taskList : k'.taskList = k.taskList
  next : ∀ t, (k'.task t).next = (k.task t).next
  name : ∀ t, (k'.task t).name = (k.task t).name

namespace SameList

variable {k k' k'' : Kernel} {t : Word}

theorem refl (k : Kernel) : SameList k k :=
  ⟨rfl, fun _ => rfl, fun _ => rfl⟩

theorem trans (first : SameList k k') (second : SameList k' k'') : SameList k k'' :=
  ⟨second.taskList.trans first.taskList, fun t => (second.next t).trans (first.next t),
    fun t => (second.name t).trans (first.name t)⟩

/-- Changes to other things than the list and tasks. -/
theorem same (taskList : k'.taskList = k.taskList) (task : k'.task = k.task) : SameList k k' :=
  ⟨taskList, fun t => by rw [task], fun t => by rw [task]⟩

theorem modTask (k : Kernel) (t : Word) {change : TaskStruct → TaskStruct}
    (next : (change (k.task t)).next = (k.task t).next)
    (name : (change (k.task t)).name = (k.task t).name) : SameList k (k.modTask t change) :=
  ⟨rfl, fun other => k.modTask_task_field TaskStruct.next t other next,
    fun other => k.modTask_task_field TaskStruct.name t other name⟩

theorem andTask (same : SameList k k') (t : Word) {change : TaskStruct → TaskStruct}
    (next : (change (k'.task t)).next = (k'.task t).next)
    (name : (change (k'.task t)).name = (k'.task t).name) : SameList k (k'.modTask t change) :=
  same.trans (.modTask k' t next name)

/-- The tasks of the list stay in it. -/
theorem member (same : SameList k k') :
    Chain.Member k'.nextTask k'.taskList t ↔ Chain.Member k.nextTask k.taskList t := by
  have next : k'.nextTask = k.nextTask := funext same.next
  rw [next, same.taskList]

end SameList

theorem Quiet.sameList {k k' : Kernel} (quiet : Quiet k k') : SameList k k' :=
  ⟨quiet.taskList, fun t => by rw [quiet.task t], fun t => by rw [quiet.task t]⟩

/-- A computation that keeps the files and the pipes of each task. -/
def Steadies {α : Type} [HasState α] (J : Kernel → Prop) (k : Kernel) (flow : Flow Kernel α) :
    Prop :=
  flow.All (fun result => Steady k (HasState.state result)) J

/-- A computation that keeps the pipes of each task, or takes them away. -/
def Drains {α : Type} [HasState α] (J : Kernel → Prop) (k : Kernel) (flow : Flow Kernel α) : Prop :=
  flow.All (fun result => Drained k (HasState.state result)) J

theorem Fault.Heeds.steady {fault : Fault} {I J : Kernel → Prop}
    (answers : fault.Heeds Steady I J) : fault.Heeds Spaced I J :=
  ⟨fun inv spaced => answers.stable inv spaced.steady, answers.handles⟩

theorem Fault.Heeds.steadies {fault : Fault} {I J : Kernel → Prop}
    (answers : fault.Heeds Drained I J) : fault.Heeds Steady I J :=
  ⟨fun inv steady => answers.stable inv steady.drained, answers.handles⟩

theorem Fault.Heeds.drained {fault : Fault} {I J : Kernel → Prop}
    (answers : fault.Heeds Drained I J) : fault.Heeds Spaced I J :=
  answers.steadies.steady

namespace Drains

variable {α β : Type} [HasState α] [HasState β] {I J : Kernel → Prop} {fault : Fault} {k : Kernel}

theorem done {k' : Kernel} (drained : Drained k k') : Drains J k (.next k') :=
  drained

theorem of_spaces {flow : Flow Kernel α} (spaces : Spaces J k flow) : Drains J k flow :=
  Flow.All.imp spaces fun _ spaced => spaced.drained

/-- A step without memory accesses before a computation. -/
theorem after {k' : Kernel} {flow : Flow Kernel α} (drained : Drained k k')
    (rest : Drains J k' flow) : Drains J k flow := by
  apply Flow.All.imp rest
  intro x drained'
  exact drained.trans drained'

theorem bind (answers : fault.Heeds Drained I J) {flow : Flow Kernel α} {rest : α → Flow Kernel β}
    (inv : I k) (first : Drains J k flow)
    (second : ∀ x, I (HasState.state x) → Drains J (HasState.state x) (rest x)) :
    Drains J k (flow >>= rest) := by
  apply Flow.All.bind first
  intro x drained
  exact after drained (second x (answers.stable inv drained))

/-- A value that the state determines. -/
theorem ofOption {γ : Type} {value : Option γ} {rest : γ → Flow Kernel β}
    (each : ∀ x, Drains J k (rest x)) : Drains J k (Flow.ofOption value >>= rest) := by
  cases value with
  | none => trivial
  | some x => exact each x

end Drains

namespace Steadies

variable {α β : Type} [HasState α] [HasState β] {I J : Kernel → Prop} {fault : Fault} {k : Kernel}

theorem done {k' : Kernel} (steady : Steady k k') : Steadies J k (.next k') :=
  steady

theorem drains {flow : Flow Kernel α} (steadies : Steadies J k flow) : Drains J k flow :=
  Flow.All.imp steadies fun _ steady => steady.drained

theorem of_spaces {flow : Flow Kernel α} (spaces : Spaces J k flow) : Steadies J k flow :=
  Flow.All.imp spaces fun _ spaced => spaced.steady

theorem after {k' : Kernel} {flow : Flow Kernel α} (steady : Steady k k')
    (rest : Steadies J k' flow) : Steadies J k flow := by
  apply Flow.All.imp rest
  intro x steady'
  exact steady.trans steady'

theorem bind (answers : fault.Heeds Steady I J) {flow : Flow Kernel α} {rest : α → Flow Kernel β}
    (inv : I k) (first : Steadies J k flow)
    (second : ∀ x, I (HasState.state x) → Steadies J (HasState.state x) (rest x)) :
    Steadies J k (flow >>= rest) := by
  apply Flow.All.bind first
  intro x steady
  exact after steady (second x (answers.stable inv steady))

theorem ofOption {γ : Type} {value : Option γ} {rest : γ → Flow Kernel β}
    (each : ∀ x, Steadies J k (rest x)) : Steadies J k (Flow.ofOption value >>= rest) := by
  cases value with
  | none => trivial
  | some x => exact each x

end Steadies

namespace Kernel

variable {I J : Kernel → Prop} {fault : Fault} {k : Kernel} {t : Word}

/-! ## The scheduler -/

theorem saveFrame_steady (k : Kernel) (r : Regs) : Steady k (k.saveFrame r) := by
  unfold saveFrame
  split
  · exact .refl k
  · exact .modTask k _ rfl

theorem saveFrame_drained (k : Kernel) (r : Regs) : Drained k (k.saveFrame r) :=
  (saveFrame_steady k r).drained

theorem updateTimeSlice_plumbing (s : TaskStruct) : (updateTimeSlice s).plumbing = s.plumbing := by
  unfold updateTimeSlice
  split
  · split <;> rfl
  · rfl

theorem updateTimeSlicesLoop_steadies (t : Option Word) (rounds : Nat) :
    Steadies J k (k.updateTimeSlicesLoop t rounds) := by
  induction rounds generalizing k t with
  | zero => trivial
  | succ rounds ih =>
      cases t with
      | none => exact Steady.refl k
      | some t => exact Steadies.after (.modTask k t (updateTimeSlice_plumbing _)) (ih _)

theorem countTick_steadies : Steadies J k k.countTick := by
  unfold countTick
  dsimp only
  split
  · apply Flow.All.bind (updateTimeSlicesLoop_steadies _ _)
    intro k₁ steady
    have ticked : Steady k { k with timer := { k.timer with timerTicks := k.timer.timerTicks + 1 } } :=
      .same rfl rfl rfl rfl
    have counted := ticked.trans steady
    exact counted.trans (.same rfl rfl rfl rfl)
  · exact Steady.same rfl rfl rfl rfl

theorem dispatch_steady (k : Kernel) (task : Word) : Steady k (k.dispatch task) where
  file := rfl
  fileStructs := rfl
  fdCount := rfl
  task t := by
    by_cases here : t = task
    · rw [here, dispatch_task_self]
      rfl
    · rw [dispatch_task_of_ne k here]

theorem scheduleProcess_steadies : Steadies J k k.scheduleProcess := by
  unfold scheduleProcess
  split
  · apply Flow.All.bind (getNextTask_only none)
    intro found _
    cases found with
    | none => exact Steady.refl k
    | some task => exact dispatch_steady k task
  · rename_i current _
    apply Flow.All.bind (getNextTask_only _)
    intro found _
    cases found with
    | none => exact Steady.refl k
    | some task =>
        have preempted : Steady k (k.modTask current fun s => { s with state := .runnable }) :=
          .modTask k current rfl
        exact preempted.trans (dispatch_steady _ task)

theorem timerHandler_steadies (r : Regs) : Steadies J k (k.timerHandler r) := by
  apply Steadies.after (saveFrame_steady k r)
  apply Flow.All.bind countTick_steadies
  intro k₁ counted
  apply Flow.All.bind scheduleProcess_steadies
  intro k₂ scheduled
  exact counted.trans scheduled

/-- A call that gives up the processor. -/
theorem yield_steady : k.yield.All (Steady k) (Steady k) := by
  apply Flow.All.bind (timerHandler_steadies default)
  rintro ⟨k₁, r⟩ steady
  dsimp only
  split
  · exact steady
  · exact steady

theorem yield_drains : k.yield.All (Drained k) (Drained k) :=
  yield_steady.mono (fun _ steady => steady.drained) fun _ steady => steady.drained

/-! ## The end of a task -/

theorem removeFromTaskList_drains (task : Word) : Drains J k (k.removeFromTaskList task) := by
  have stopped : Drained k (k.modTask task fun s => { s with state := .stopped }) :=
    .modTask k task (.inl rfl)
  unfold removeFromTaskList
  apply Drains.after stopped
  dsimp only
  split
  · exact Drained.refl _
  · split
    · exact Drained.same rfl rfl rfl
    · apply Drains.ofOption
      intro found
      cases found with
      | none => exact Drained.refl _
      | some p => exact .done (.modTask _ p (.inl rfl))

theorem addToFreeTaskList_drains (task : Word) : Drains J k (k.addToFreeTaskList task) := by
  unfold addToFreeTaskList
  split
  · have listed : Drained k { k with freeTaskList := some task } := .same rfl rfl rfl
    exact .done (listed.andTask task rfl)
  · apply Drains.ofOption
    intro last
    have linked : Drained k (k.modTask last fun s => { s with next := some task }) :=
      .modTask k last (.inl rfl)
    exact .done (linked.andTask task rfl)

theorem addToTaskList_steadies (task : Word) : Steadies J k (k.addToTaskList task) := by
  unfold addToTaskList
  split
  · have listed : Steady k { k with taskList := some task } := .same rfl rfl rfl rfl
    exact .done (listed.andTask task rfl)
  · apply Steadies.ofOption
    intro last
    have linked : Steady k (k.modTask last fun s => { s with next := some task }) :=
      .modTask k last rfl
    exact .done (linked.andTask task rfl)

theorem leaveParent_drains (task : Word) : Drains J k (k.leaveParent task) := by
  unfold leaveParent
  split
  · apply Drains.ofOption
    intro parent
    have woken : Drained k (k.modTask parent fun s => { s with state := .runnable }) :=
      .modTask k parent (.inl rfl)
    apply Drains.after woken
    apply Drains.ofOption
    intro parent'
    dsimp only
    split
    · have counted : Drained (k.modTask parent fun s => { s with state := .runnable }) ((k.modTask parent fun s => { s with state := .runnable }).modTask parent' fun s => { s with childCount := s.childCount - 1 }) :=
   .modTask (k.modTask parent fun s => { s with state := .runnable }) parent' (.inl rfl)
      exact .done (counted.andTask parent' rfl)
    · exact .done (.modTask _ parent' (.inl rfl))
  · exact Drained.refl k

section

variable (answers : fault.Heeds Drained I J)

include answers

theorem freeTaskStruct_drains (inv : I k) (task : Word) :
    Drains J k (k.freeTaskStruct fault task) := by
  have loaded : Drained k (k.writeCr3 (k.m.virtToPhy (k.task task).pml4e)) := .same rfl rfl rfl
  apply Drains.after loaded
  have inv₀ := answers.stable inv loaded
  apply Drains.bind answers inv₀ (removeFromTaskList_drains task)
  intro k₁ inv₁
  apply Drains.bind answers inv₁ (.of_spaces (freeTaskMmStruct_spaces answers.drained inv₁ _ task))
  intro k₂ inv₂
  have cleared : Drained k₂ (k₂.modTask task clearedTask) :=
    .modTask k₂ task (.inr rfl)
  apply Drains.after cleared
  have unloaded : Drained (k₂.modTask task clearedTask) ((k₂.modTask task clearedTask).writeCr3
      (k₂.modTask task clearedTask).m.kCr3) := .same rfl rfl rfl
  apply Drains.after unloaded
  exact Drains.after (.modTask _ task (.inl rfl)) (addToFreeTaskList_drains task)

/-- The end of a task takes its pipes away. -/
theorem systemExit_drains {α : Type} {P : α → Prop} (inv : I k) (gone : ∀ {k}, I k → J k) :
    (k.systemExit fault : Flow Kernel α).All P J := by
  unfold systemExit
  cases k.currentTask with
  | none => trivial
  | some task =>
      apply Flow.All.bind (leaveParent_drains task)
      intro k₁ drained₁
      have inv₁ := answers.stable inv drained₁
      apply Flow.All.bind (freeTaskStruct_drains answers inv₁ task)
      intro k₂ drained₂
      have inv₂ := answers.stable inv₁ drained₂
      have stopped : Drained k₂ (k₂.modTask task fun s => { s with state := .stopped }) :=
        .modTask k₂ task (.inl rfl)
      have idle : Drained k₂ ((k₂.modTask task fun s => { s with state := .stopped }).setCurrentTask
          none) := stopped.trans (.same rfl rfl rfl)
      have inv₃ := answers.stable inv₂ idle
      apply Flow.All.bind (yield_drains.mono (fun _ drained => answers.stable inv₃ drained)
        fun _ drained => gone (answers.stable inv₃ drained))
      intro k₄ inv₄
      exact gone inv₄

end

end Kernel

/-- The kernel's page faults keep what does not depend on the pipes of a task that ends. -/
theorem kernelFault_drained {I : Kernel → Prop}
    (stable : ∀ {k k' : Kernel}, I k → Drained k k' → I k') (frames : Kernel → Word → Regs)
    (depth : Nat) : (Kernel.kernelFault frames depth).Heeds Drained I I := by
  refine ⟨stable, (kernelFault_heeds (fun inv touched => stable inv touched.spaced.drained) frames
    ?_ depth).handles⟩
  intro depth heeds α P k inv
  exact Kernel.systemExit_drains ⟨stable, heeds.handles⟩ inv id

namespace Kernel

variable {I J : Kernel → Prop} {fault : Fault} {k : Kernel}

/-! ## The keyboard -/

theorem deliverLine_steadies (answers : fault.Heeds Steady I J) (inv : I k) (n : Nat) :
    Steadies J k (k.deliverLine fault n) := by
  have flagged : Steady k { k with kb := { k.kb with flag := false } } := .same rfl rfl rfl rfl
  apply Steadies.after flagged
  have inv₁ := answers.stable inv flagged
  apply Steadies.ofOption
  intro waiting
  have loaded : Steady { k with kb := { k.kb with flag := false } }
      (({ k with kb := { k.kb with flag := false } } : Kernel).writeCr3
        (k.m.virtToPhy (k.task waiting).pml4e)) := .same rfl rfl rfl rfl
  apply Steadies.after loaded
  have inv₂ := answers.stable inv₁ loaded
  apply Steadies.bind answers inv₂
    (.of_spaces (.of_touches (storeBytes_touches answers.steady.touched inv₂ _ _)))
  intro k₃ _
  apply Steadies.ofOption
  intro waiting'
  have restored : Steady k₃ ({ (k₃.writeCr3 k.m.cr3) with
      kb := { k₃.kb with i := 0, a := Function.update k₃.kb.a 0 0 } }) := .same rfl rfl rfl rfl
  exact .done (restored.andTask waiting' rfl)

theorem editLine_steadies (answers : fault.Heeds Steady I J) (inv : I k) (currentChar : Byte) :
    Steadies J k (k.editLine fault currentChar) := by
  have put : ∀ c, Steady k (k.putInLine c) := fun _ => .same rfl rfl rfl rfl
  unfold editLine
  split
  · exact Steadies.after (put _) (deliverLine_steadies answers (answers.stable inv (put _)) _)
  · split
    · exact Steady.same rfl rfl rfl rfl
    · dsimp only
      split
      · exact Steadies.after (put _) (deliverLine_steadies answers (answers.stable inv (put _)) _)
      · exact put _

theorem kbHandler_steadies (answers : fault.Heeds Steady I J) (inv : I k) (scancode : Byte) :
    Steadies J k (k.kbHandler fault scancode) := by
  unfold kbHandler
  split
  · exact Steady.refl k
  · split
    · exact Steady.same rfl rfl rfl rfl
    · split
      · exact Steady.same rfl rfl rfl rfl
      · split
        · exact Steady.same rfl rfl rfl rfl
        · apply Steadies.bind answers inv
          · show Steadies J k _
            split
            · exact editLine_steadies answers inv _
            · exact Steady.refl k
          · intro k₁ _
            exact Steady.same rfl rfl rfl rfl

/-! ## New tasks -/

theorem getFreeTask_steadies : Steadies J k k.getFreeTask := by
  unfold getFreeTask
  split
  · exact Steady.same rfl rfl rfl rfl
  · apply Flow.All.bind (kmallocStruct_spaces _ _)
    rintro ⟨k₁, task⟩ spaced₁
    apply Flow.All.bind (createNewMmstruct_spaces (J := J))
    rintro ⟨k₂, mm⟩ spaced₂
    have steady : Steady k k₂ := (spaced₁.trans spaced₂).steady
    have named : Steady k (k₂.modTask task fun s => { s with mm := mm }) := steady.andTask task rfl
    exact named

end Kernel

/-- A task has no pipes, and otherwise the files and the pipes of each task are kept. -/
structure Begun (k k' : Kernel) (task : Word) : Prop where
  file : k'.file = k.file
  fileStructs : k'.fileStructs = k.fileStructs
  fdCount : k'.fdCount = k.fdCount
  dry : (k'.task task).plumbing = .dry
  others : ∀ t, t ≠ task → (k'.task t).plumbing = (k.task t).plumbing

namespace Begun

variable {k k' k'' : Kernel} {task : Word}

theorem drained (begun : Begun k k' task) : Drained k k' where
  fd p := by rw [begun.file]
  nextFile := by
    funext p
    unfold Kernel.nextFile
    rw [begun.file]
  fileStructs := begun.fileStructs
  task t := by
    by_cases own : t = task
    · rw [own]
      exact .inr begun.dry
    · exact .inl (begun.others t own)

theorem after (steady : Steady k k') (begun : Begun k' k'' task) : Begun k k'' task :=
  ⟨begun.file.trans steady.file, begun.fileStructs.trans steady.fileStructs,
    begun.fdCount.trans steady.fdCount, begun.dry,
    fun t other => (begun.others t other).trans (steady.task t)⟩

theorem andSteady (begun : Begun k k' task) (steady : Steady k' k'') : Begun k k'' task :=
  ⟨steady.file.trans begun.file, steady.fileStructs.trans begun.fileStructs,
    steady.fdCount.trans begun.fdCount, (steady.task task).trans begun.dry,
    fun t other => (steady.task t).trans (begun.others t other)⟩

end Begun

namespace Kernel

variable {I J : Kernel → Prop} {fault : Fault} {k : Kernel}

/-- A new task has no pipes. -/
theorem createNewTask_begins (answers : fault.Heeds Steady I J) (inv : I k) (taskname : CString) :
    (k.createNewTask fault taskname).All (fun (k', task) => Begun k k' task) J := by
  apply Flow.All.bind getFreeTask_steadies
  rintro ⟨k₁, task⟩ steady₁
  have inv₁ : I k₁ := answers.stable inv steady₁
  apply Flow.All.bind (chars_touches answers.steady.touched inv₁ taskname 0 stringRounds)
  rintro ⟨k₂, name⟩ touched₂
  have steady₂ : Steady k k₂ := steady₁.trans touched₂.spaced.steady
  apply Flow.All.bind (P := Steady k)
  · split
    · exact steady₂
    · exact Steadies.after steady₂ (addToTaskList_steadies task)
  · intro k₃ steady₃
    apply Flow.All.bind (P := fun _ => True) (.ofOption fun _ _ => trivial)
    rintro ⟨m, pml4e⟩ _
    have fresh : Begun k₃ (k₃.modTask task (freshTask (k₃.pid.setWidth 32) name)) task := by
      refine ⟨rfl, rfl, rfl, ?_, fun t other => ?_⟩
      · rw [modTask_task_self]
        rfl
      · rw [modTask_task_of_ne _ other]
    have counted : Steady (k₃.modTask task (freshTask (k₃.pid.setWidth 32) name))
        (({ k₃.modTask task (freshTask (k₃.pid.setWidth 32) name) with
          pid := k₃.pid + 1, taskStructs := k₃.taskStructs.insert task } : Kernel).setMachine m) :=
      .same rfl rfl rfl rfl
    exact Begun.after steady₃ (fresh.andSteady (counted.andTask task rfl))

end Kernel

end Sbrocks.Process
