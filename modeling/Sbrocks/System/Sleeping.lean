import Sbrocks.Process.Sleepers
import Sbrocks.System.Tasks

/-!
# Sleeping

A task that calls sleep is woken by the second that it asked for, as long as it asked for one,
is not the first of the list when another task gives up the processor, and nobody kills it,
finishes a line or a write that it once waited for, or ends as its child.
-/

namespace Sbrocks.Process

open Sbrocks.Mmu

variable {k k' k'' k₀ : Kernel} {t c : Word}

/-- What happens to a sleeper goes on in a state that differs in nothing that matters to it. -/
theorem SleepsOn.same (sleeps : SleepsOn t k k')
    (next : ∀ s, (k''.task s).next = (k'.task s).next) (taskList : k''.taskList = k'.taskList)
    (state : (k''.task t).state = (k'.task t).state)
    (sleepTime : (k''.task t).sleepTime = (k'.task t).sleepTime) (timer : k''.timer = k'.timer)
    (current : k''.currentTask = k'.currentTask)
    (parent : ∀ s, (k''.task s).parent = (k'.task s).parent) : SleepsOn t k k'' := by
  intro listed
  rcases sleeps (listed.same (fun s => (next s).symm) taskList.symm) with
    slept | ⟨c, running, isChild, orphan⟩ | headed
  · left
    have clock := congrArg Timer.prevSecs timer
    cases slept with
    | still clock' asleep away =>
        exact .still (clock.trans clock') (asleep.same state sleepTime) (current ▸ away)
    | counted clock' more asleep away =>
        exact .counted (clock ▸ clock') more (asleep.same state sleepTime) (current ▸ away)
    | woken clock' due awake =>
        refine .woken (clock ▸ clock') due ?_
        rcases awake with runnable | ⟨running, here⟩
        · exact .inl (state.trans runnable)
        · exact .inr ⟨state.trans running, current.trans here⟩
  · exact .inr (.inl ⟨c, running, isChild, (parent c).trans orphan⟩)
  · exact .inr (.inr ⟨taskList.trans headed.1, current.trans headed.2⟩)

theorem SleepsOn.still (sleeps : SleepsOn t k k') (still : Still (· = t) k' k'') :
    SleepsOn t k k'' := by
  refine sleeps.same (fun s => ?_) still.quiet.taskList (still.rest t rfl) ?_ still.timer
    still.quiet.currentTask fun s => ?_
  · rw [still.quiet.task s]
  · rw [still.quiet.task t]
  · rw [still.quiet.task s]

theorem Dormant.sleepsOn (dormant : Dormant t k k') (current : k'.currentTask = k.currentTask)
    (asleep : (k.task t).state = .sleep) (away : k.currentTask ≠ some t) : SleepsOn t k k' :=
  fun _ => .inl (.still (congrArg Timer.prevSecs dormant.timer) (dormant.asleep ⟨asleep, rfl⟩)
    (current ▸ away))

/-- A computation on behalf of another task than the sleeper. -/
def Sleeps {α : Type} [HasState α] (t : Word) (k : Kernel) (flow : Flow Kernel α) : Prop :=
  flow.All (fun result => SleepsOn t k (HasState.state result)) (SleepsOn t k)

theorem Sleeps.ite {α : Type} [HasState α] {condition : Prop} [Decidable condition]
    {flow other : Flow Kernel α} (holds : condition → Sleeps t k flow)
    (fails : ¬ condition → Sleeps t k other) :
    Sleeps t k (if condition then flow else other) := by
  split
  · rename_i h
    exact holds h
  · rename_i h
    exact fails h

section

variable {frames : Kernel → Word → Regs} {depth : Nat} (asleep : (k.task t).state = .sleep)
  (away : k.currentTask ≠ some t)

include asleep away

theorem Sleeps.of_attended {α : Type} [HasState α] {flow : Flow Kernel α}
    (attended : Attended t (SleepsOn t k) k flow) : Sleeps t k flow :=
  Flow.All.imp attended fun _ attends => attends.sleepsOn asleep away

theorem Sleeps.of_stills {α : Type} [HasState α] {flow : Flow Kernel α}
    (stills : Stills (· = t) (SleepsOn t k) k flow) : Sleeps t k flow :=
  .of_attended asleep away (.of_stills stills)

namespace Kernel

/-! ## Blocking calls -/

/-- Another task changes and gives up the processor. -/
theorem pause_sleeps (running : k.currentTask = some c) (change : TaskStruct → TaskStruct)
    {paused : Kernel} (task : paused.task = (k.modTask c change).task)
    (timer : paused.timer = k.timer) (idle : paused.currentTask = none) :
    Sleeps t k paused.yield := by
  have other : t ≠ c := fun same => away (running.trans (congrArg some same.symm))
  have same : paused.task t = k.task t := by rw [task, k.modTask_task_of_ne other]
  exact yield_sleepsOn asleep ⟨by rw [same], by rw [same], timer⟩ idle

theorem waitForKeyboard_sleeps (running : k.currentTask = some c) (buf nbytes : Word) :
    Sleeps t k (k.waitForKeyboard c buf nbytes) :=
  pause_sleeps asleep away running (fun s => { s with state := .waiting }) rfl rfl rfl

theorem systemSleep_sleeps {α : Type} [HasState α] (sec : Word) :
    Sleeps t k (k.systemSleep sec : Flow Kernel α) := by
  apply Flow.All.bind (P := fun c => k.currentTask = some c) (.ofOption fun _ found => found)
  intro c running
  have paused : Sleeps t k ((k.modTask c fun s =>
      { s with state := .sleep, sleepTime := sec - 1 }).setCurrentTask none).yield :=
    pause_sleeps asleep away running (fun s => { s with state := .sleep, sleepTime := sec - 1 })
      rfl rfl rfl
  apply Flow.All.bind paused
  intro k₁ sleeps
  exact sleeps

theorem systemWaitpid_sleeps (childPid status : Word) :
    Sleeps t k (k.systemWaitpid (kernelFault frames depth) childPid status) := by
  have answers := kernelFault_attends asleep away frames depth
  apply Flow.All.bind (P := fun c => k.currentTask = some c) (.ofOption fun _ found => found)
  intro c running
  split
  · apply Sleeps.of_stills asleep away
    apply Stills.bind answers (.refl k)
      (.of_touches (storeLe_touches answers.spaced.touched (.refl k) _ _))
    intro k₁ _
    exact Still.refl k₁
  · apply Flow.All.bind (P := fun k' : Kernel => SleepsOn t k k' ∧ k'.currentTask = none)
    · have paused : Sleeps t k ((k.modTask c fun s =>
          { s with state := .waiting, waitForChildPid := childPid }).setCurrentTask none).yield :=
        pause_sleeps asleep away running
          (fun s => { s with state := .waiting, waitForChildPid := childPid }) rfl rfl rfl
      cases yielded : ((k.modTask c fun s =>
          { s with state := .waiting, waitForChildPid := childPid }).setCurrentTask none).yield with
      | stuck => trivial
      | left state => exact paused.of_left yielded
      | next k₁ =>
          refine ⟨paused.of_next yielded, ?_⟩
          unfold Kernel.yield at yielded
          rcases Flow.bind_eq_next yielded with ⟨⟨k₂, r⟩, _, rest⟩
          dsimp only at rest
          split at rest
          · rename_i idle
            cases rest
            exact idle
          · cases rest
    · rintro k₁ ⟨sleeps, idle⟩
      have stored : Touches (SleepsOn t k) k₁
          (k₁.storeLe (kernelFault frames depth) status (-1)) :=
        storeLe_touches (idle_answers (kernelFault_idle frames depth)).touched idle status (-1)
      apply Flow.All.bind stored
      intro k₂ touched
      change Touched k₁ k₂ at touched
      have still : Still (· = t) k₁ k₂ := touched.spaced.still
      exact sleeps.still still

theorem systemRead_sleeps (fd buf nbytes : Word) :
    Sleeps t k (k.systemRead (kernelFault frames depth) fd buf nbytes) := by
  have answers := kernelFault_attends asleep away frames depth
  apply Flow.All.bind (P := fun c => k.currentTask = some c) (.ofOption fun _ found => found)
  intro c running
  apply Flow.All.bind (P := fun _ => True)
    ((isFilePipe_asks k c fd).mono (fun _ asked => asked) fun _ => False.elim)
  intro pipe _
  cases pipe with
  | true =>
      apply Sleeps.of_stills asleep away
      apply Stills.bind answers (.refl k) (readFromPipe_stills answers (.refl k) _ _ _ _)
      intro k₁ _
      exact Still.refl k₁
  | false =>
      simp only [Bool.false_eq_true, ↓reduceIte]
      split
      · split
        · split
          · have cleared : Still (· = t) k { k with pipeWriteFlag := false } :=
              .same rfl rfl rfl rfl rfl
            apply Sleeps.of_stills asleep away
            apply Stills.after cleared
            have inv₁ := answers.stable (.refl k) cleared
            apply Stills.bind answers inv₁ (readFromPipe_stills answers inv₁ _ _ _ _)
            intro k₁ _
            exact Still.refl k₁
          · have paused : Sleeps t k (({ k with str := buf, count := nbytes } :
                Kernel).addToPipeReadWaitingQueue c).yield :=
              pause_sleeps asleep away running (fun s => { s with state := .waiting }) rfl rfl rfl
            apply Flow.All.bind paused
            intro k₁ sleeps
            exact sleeps
        · apply Flow.All.bind (waitForKeyboard_sleeps asleep away running _ _)
          intro k₁ sleeps
          exact sleeps
      · apply Sleeps.of_stills asleep away
        apply Stills.bind answers (.refl k) (fread_stills answers (.refl k) _ _ _)
        rintro ⟨k₁, ret⟩ _
        exact Still.refl k₁

/-! ## Fork, execve and kill -/

variable (notFree : k.freeTaskList ≠ some t) (known : t ∈ k.taskStructs)

section

omit asleep away

theorem adoptChild_attends {parent child : Word} (orphan : (k.task child).parent = none) :
    Attends t k (k.adoptChild parent child) := by
  have named : Attends t k (k.modTask child fun s => { s with ppid := (k.task parent).pid }) := by
    refine .modTask k child (fun _ => ⟨rfl, rfl⟩) fun _ named => ?_
    change (k.task child).parent = some t at named
    rw [orphan] at named
    cases named
  unfold adoptChild
  dsimp only
  have framed : Attends t k ((k.modTask child fun s => { s with ppid := (k.task parent).pid }).modTask
      child fun s => { s with r := { ((k.modTask child fun s =>
        { s with ppid := (k.task parent).pid }).task parent).r with rax := 0 } }) :=
    named.andTask child (fun _ => ⟨rfl, rfl⟩) fun small named => ⟨small, named⟩
  exact framed.trans (.same rfl rfl rfl)

theorem linkChild_dormant (k : Kernel) (parent child : Word) :
    Dormant t k (k.linkChild parent child) := by
  have kept : ∀ {γ : Type} (field : TaskStruct → γ), (∀ s, field { s with parent := some parent } =
      field s) → (∀ s, field { s with childCount := s.childCount + 1 } = field s) →
      (∀ s w r, field { s with writeRedirectionFd := w, readRedirectionFd := r } = field s) →
      field ((k.linkChild parent child).task t) = field (k.task t) := by
    intro γ field named counted redirected
    unfold linkChild
    dsimp only
    rw [modTask_task_field _ field child t (redirected _ _ _),
      modTask_task_field _ field parent t (counted _), modTask_task_field _ field child t (named _)]
  exact ⟨kept TaskStruct.state (fun _ => rfl) (fun _ => rfl) fun _ _ _ => rfl,
    kept TaskStruct.sleepTime (fun _ => rfl) (fun _ => rfl) fun _ _ _ => rfl, rfl⟩

theorem takeIdentity_dormant (k : Kernel) (currTask task : Word) :
    Dormant t k (k.takeIdentity currTask task) := by
  have kept : ∀ {γ : Type} (field : TaskStruct → γ),
      (∀ s pid ppid, field { s with pid := pid, ppid := ppid } = field s) →
      (∀ s, field { s with ppid := 0 } = field s) →
      (∀ s parent w r, field { s with
        parent := parent, writeRedirectionFd := w, readRedirectionFd := r } = field s) →
      field ((k.takeIdentity currTask task).task t) = field (k.task t) := by
    intro γ field named orphaned redirected
    unfold takeIdentity
    dsimp only
    rw [modTask_task_field _ field task t (redirected _ _ _ _),
      modTask_task_field _ field currTask t (orphaned _),
      modTask_task_field _ field task t (named _ _ _)]
  exact ⟨kept TaskStruct.state (fun _ _ _ => rfl) (fun _ => rfl) fun _ _ _ _ => rfl,
    kept TaskStruct.sleepTime (fun _ _ _ => rfl) (fun _ => rfl) fun _ _ _ _ => rfl, rfl⟩

/-- Copies of pipes are made without memory accesses of the kernel. -/
theorem copyPipes_still {J : Kernel → Prop} (k : Kernel) (task : Word) (temp : Option Word)
    (rounds : Nat) : Stills (· = t) J k (k.copyPipes task temp rounds) := by
  have faultless : Fault.Answers (fun _ _ => .stuck) (fun _ => True) J :=
    ⟨fun _ _ => trivial, fun _ _ => trivial⟩
  exact copyPipes_stills faultless.still trivial task temp rounds

end

include notFree known

theorem systemFork_sleeps : Sleeps t k (k.systemFork (kernelFault frames depth)) := by
  have answers := kernelFault_attends asleep away frames depth
  rw [systemFork_eq]
  apply Flow.All.bind (P := fun c => k.currentTask = some c) (.ofOption fun _ found => found)
  intro parent running
  have other : parent ≠ t := fun same => away (running.trans (congrArg some same))
  apply Flow.All.bind (createNewTask_attends answers id notFree known (.text childName))
  rintro ⟨k₁, child⟩ ⟨attends₁, _, orphan⟩
  change (k₁.task child).parent = none at orphan
  have adopted : Attends t k (k₁.adoptChild parent child) :=
    attends₁.trans (adoptChild_attends orphan)
  apply Flow.All.bind (setupMemory_spaces answers.spaced adopted child parent)
  intro k₃ spaced₃
  change Spaced _ k₃ at spaced₃
  have until₃ := adopted.trans (.still spaced₃.still)
  have linked := until₃.toDormant.trans (linkChild_dormant k₃ parent child)
  apply Flow.All.bind (copyPipes_still (k₃.linkChild parent child) child _ _)
  intro k₅ still₅
  change Still _ _ k₅ at still₅
  have until₅ : Dormant t k k₅ := linked.trans (Attends.still still₅).toDormant
  have told : Attends t k₅ (k₅.modTask parent fun s => { s with
      r := { s.r with rax := (k₅.task child).pid.setWidth 64 }, state := .runnable }) :=
    .modTask k₅ parent (fun same => absurd same other) fun small parent => ⟨small, parent⟩
  have dormant := until₅.trans told.toDormant
  apply Flow.All.bind (yield_sleepsOn (k := (k₅.modTask parent fun s => { s with
      r := { s.r with rax := (k₅.task child).pid.setWidth 64 }, state := .runnable }).setCurrentTask
      none) asleep ⟨dormant.state, dormant.sleepTime, dormant.timer⟩ rfl)
  intro k₇ sleeps
  exact sleeps

omit asleep away notFree known in
theorem loadProgram_attends {I J : Kernel → Prop} {fault : Fault}
    (answers : fault.Heeds (Still (· = t)) I J) (stable : ∀ {k'}, Attends t k k' → I k')
    (task elfHeader : Word) (argv envp : List Word) :
    Attended t J k (k.loadProgram fault task elfHeader argv envp) := by
  have spaces := answers.spaced
  have inv : ∀ {k'}, Still (· = t) k k' → I k' := fun still => stable (.still still)
  have read : ∀ {k' : Kernel}, Still (· = t) k k' → ∀ virt n,
      (k'.loadLe fault virt n).All (fun result => Still (· = t) k result.1) J := fun still virt n =>
    (loadLe_touches spaces.touched (inv still) virt n).imp fun _ touched =>
      still.trans touched.spaced.still
  apply Flow.All.bind (read (.refl k) _ _)
  rintro ⟨k₁, entry⟩ until₁
  apply Flow.All.bind (read until₁ _ _)
  rintro ⟨k₂, phnum⟩ until₂
  apply Flow.All.bind (read until₂ _ _)
  rintro ⟨k₃, phoff⟩ until₃
  apply Flow.All.bind (read until₃ _ _)
  rintro ⟨k₄, phentsize⟩ until₄
  apply Flow.All.bind (loadSegments_spaces spaces (inv until₄) _ _ _ _ _ _)
  intro k₅ spaced₅
  have until₅ := until₄.trans spaced₅.still
  apply Flow.All.bind (addHeapAndStack_spaces spaces (inv until₅) _)
  intro k₆ spaced₆
  have until₆ := until₅.trans spaced₆.still
  apply Flow.All.bind (setupStack_spaces spaces (inv until₆) _ _ _)
  intro k₇ spaced₇
  have until₇ : Still (· = t) k k₇ := until₆.trans spaced₇.still
  have restored : Attends t k (k₇.writeCr3 k₁.m.cr3) :=
    Attends.trans (.still until₇) (.same rfl rfl rfl)
  have entered : Attends t k ((k₇.writeCr3 k₁.m.cr3).modTask task fun s => { s with
      r := { s.r with rsp := ((k₇.writeCr3 k₁.m.cr3).mm (k₅.task task).mm).stackVm, rip := entry } }) :=
    restored.andTask task (fun _ => ⟨rfl, rfl⟩) fun small parent => ⟨small, parent⟩
  exact entered

omit asleep away in
theorem readElf_attends {I J : Kernel → Prop} {fault : Fault}
    (answers : fault.Heeds (Still (· = t)) I J) (stable : ∀ {k'}, Attends t k k' → I k')
    (filename : CString) (argv envp : List Word) :
    Attended t J k (k.readElf fault filename argv envp) := by
  rw [readElf_eq]
  apply Flow.All.bind (findOffsetForFile_touches answers.spaced.touched (stable (.refl k)) filename)
  rintro ⟨k₁, offset⟩ touched
  have still₁ : Still (· = t) k k₁ := touched.spaced.still
  have until₁ : Attends t k k₁ := .still still₁
  apply Flow.All.bind (createNewTask_attends answers (fun later => stable (until₁.trans later))
    (by rw [still₁.quiet.freeTaskList]; exact notFree)
    (by rw [still₁.quiet.taskStructs]; exact known) filename)
  rintro ⟨k₂, task⟩ ⟨attends₂, _, _⟩
  have until₂ : Attends t k k₂ := until₁.trans attends₂
  exact Attended.after until₂ (loadProgram_attends answers
    (fun later => stable (until₂.trans later)) task _ argv envp)

theorem systemExecve_sleeps (filename argvAddr envpAddr : Word) :
    Sleeps t k (k.systemExecve (kernelFault frames depth) filename argvAddr envpAddr) := by
  have answers := kernelFault_attends asleep away frames depth
  have spaces := answers.spaced
  have inv : ∀ {k'}, Still (· = t) k k' → Attends t k k' := fun still => .still still
  rw [systemExecve_eq]
  apply Flow.All.bind (copyArguments_spaces spaces (.refl k) argvAddr 10)
  rintro ⟨k₁, argv⟩ spaced₁
  have until₁ : Still (· = t) k k₁ := spaced₁.still
  apply Flow.All.bind (loadLe_touches spaces.touched (inv until₁) envpAddr 8)
  rintro ⟨k₂, str⟩ touched₂
  have until₂ : Still (· = t) k k₂ := until₁.trans touched₂.spaced.still
  apply Flow.All.bind (copyUserString_spaces spaces (inv until₂) str)
  rintro ⟨k₃, envp⟩ spaced₃
  have until₃ : Still (· = t) k k₃ := until₂.trans spaced₃.still
  apply Flow.All.bind (P := fun _ => True) (.ofOption fun _ _ => trivial)
  intro currTask _
  apply Flow.All.bind (readElf_attends (by rw [until₃.quiet.freeTaskList]; exact notFree)
    (by rw [until₃.quiet.taskStructs]; exact known) answers
    (fun later => (inv until₃).trans later) (.atAddr filename) argv [envp])
  rintro ⟨k₄, task⟩ attends₄
  have until₄ : Attends t k k₄ := (inv until₃).trans attends₄
  have named := until₄.toDormant.trans (takeIdentity_dormant k₄ currTask task)
  apply (copyPipes_still (k₄.takeIdentity currTask task) task _ _).imp
  intro k₅ still₅
  change Still _ _ k₅ at still₅
  have until₅ : Dormant t k k₅ := named.trans (Attends.still still₅).toDormant
  exact until₅.sleepsOn (still₅.quiet.currentTask.trans until₄.currentTask) asleep away

omit notFree known in
theorem systemKill_sleeps (processId : Word)
    (spared : k.getTask processId ≠ .next (some t)) :
    Sleeps t k (k.systemKill (kernelFault frames depth) processId) := by
  have answers := kernelFault_attends asleep away frames depth
  apply Sleeps.of_attended asleep away
  unfold systemKill
  cases got : k.getTask processId with
  | stuck => trivial
  | left state =>
      unfold getTask at got
      cases scanned : Chain.scan k.nextTask (fun t => (k.task t).pid.setWidth 64 = processId)
          k.taskRounds k.taskList with
      | none =>
          rw [scanned] at got
          cases got
      | some found =>
          rw [scanned] at got
          cases got
  | next found =>
      cases found with
      | none => exact Attends.refl k
      | some s =>
          have other : s ≠ t := fun same => spared (got.trans (congrArg (Flow.next ∘ some) same))
          rw [Flow.next_bind]
          apply Attended.bind (freeTaskStruct_attends answers id other)
          intro k₂ _
          have stopped : Attends t k₂ (k₂.modTask s fun s => { s with state := .stopped }) :=
            .modTask k₂ s (fun same => absurd same other) fun small parent => ⟨small, parent⟩
          exact stopped

end Kernel

/-! ## The handlers -/

/-- A system call that neither kills the sleeper nor writes to a pipe that it once waited
for. -/
structure SparingCall (t : Word) (k : Kernel) (r : Regs) : Prop where
  kill : r.rax = 84 → k.getTask r.rbx ≠ .next (some t)
  write : r.rax = 1 → k.wakesReader r.rbx → k.pipeReadWaitQueue ≠ some t

namespace Kernel

theorem switchHandler_sleeps (notFree : k.freeTaskList ≠ some t) (known : t ∈ k.taskStructs)
    {r : Regs} (sparing : SparingCall t k r) :
    Sleeps t k (k.switchHandler (kernelFault frames depth) r.rax r.rbx r.rcx r.rdx) := by
  have answers := kernelFault_attends asleep away frames depth
  have inv : Attends t k k := .refl k
  have unchanged : SleepsOn t k k := inv.sleepsOn asleep away
  have stills : ∀ {α : Type} [HasState α] {flow : Flow Kernel α},
      Stills (· = t) (SleepsOn t k) k flow → Sleeps t k flow := .of_stills asleep away
  -- a call whose result is always 0
  have done : ∀ flow : Flow Kernel Kernel, Sleeps t k flow →
      Sleeps t k (flow >>= fun k => (.next (k, 0) : Flow Kernel (Kernel × Word))) :=
    fun flow sleeps => Flow.All.bind sleeps fun _ sleeps => sleeps
  unfold switchHandler
  apply Sleeps.ite
  · intro _
    exact systemRead_sleeps asleep away _ _ _
  intro _
  apply Sleeps.ite
  · intro write
    apply stills
    apply systemWrite_stills answers inv
    intro wakes s queued same
    exact sparing.write write wakes (queued.trans (congrArg some same))
  intro _
  apply Sleeps.ite
  · intro _
    exact stills (systemOpen_stills answers inv _)
  intro _
  apply Sleeps.ite
  · intro _
    exact (systemExit_sleepsOn (P := fun _ => False) asleep away answers inv).mono
      (fun _ => False.elim) fun _ => id
  intro _
  apply Sleeps.ite
  · intro _
    exact stills (systemBrk_stills _)
  intro _
  apply Sleeps.ite
  · intro _
    exact systemFork_sleeps asleep away notFree known
  intro _
  apply Sleeps.ite
  · intro _
    apply Flow.All.bind (P := fun _ => True) (.ofOption fun _ _ => trivial)
    intro task _
    exact unchanged
  intro _
  apply Sleeps.ite
  · intro _
    apply Flow.All.bind (P := fun _ => True) (.ofOption fun _ _ => trivial)
    intro task _
    exact unchanged
  intro _
  apply Sleeps.ite
  · intro _
    exact done _ (systemExecve_sleeps asleep away notFree known _ _ _)
  intro _
  apply Sleeps.ite
  · intro _
    apply Flow.All.bind (systemWaitpid_sleeps asleep away _ _)
    rintro ⟨k₁, result⟩ sleeps
    exact sleeps
  intro _
  apply Sleeps.ite
  · intro _
    exact systemSleep_sleeps asleep away _
  intro _
  apply Sleeps.ite
  · intro _
    exact stills (systemGetcwd_stills answers inv _)
  intro _
  apply Sleeps.ite
  · intro _
    exact stills (systemChdir_stills answers inv _)
  intro _
  apply Sleeps.ite
  · intro _
    exact stills (fseek_stills _ _ _)
  intro _
  apply Sleeps.ite
  · intro _
    exact done _ (stills (systemClose_stills answers inv _))
  intro _
  apply Sleeps.ite
  · intro _
    exact done _ (stills (systemPipe_stills answers inv _))
  intro _
  apply Sleeps.ite
  · intro _
    exact done _ (stills (systemDup2_stills _ _))
  intro _
  apply Sleeps.ite
  · intro _
    exact stills (systemGetdents_stills answers inv _ _)
  intro _
  apply Sleeps.ite
  · intro _
    exact done _ (stills (systemReaddir_stills answers inv _ _))
  intro _
  apply Sleeps.ite
  · intro kill
    exact systemKill_sleeps asleep away _ (sparing.kill kill)
  intro _
  exact unchanged

omit asleep away in
/-- Saving a frame does not matter to a sleeper. -/
theorem saveFrame_attends (k : Kernel) (r : Regs) : Attends t k (k.saveFrame r) := by
  unfold saveFrame
  split
  · exact .refl k
  · exact .modTask k _ (fun _ => ⟨rfl, rfl⟩) fun small parent => ⟨small, parent⟩

omit asleep away in
theorem SleepsOn.saved {r : Regs} (sleeps : SleepsOn t (k.saveFrame r) k') : SleepsOn t k k' := by
  have saved : Attends t k (k.saveFrame r) := saveFrame_attends k r
  have clock := congrArg Timer.prevSecs saved.timer
  intro listed
  rcases sleeps listed with slept | ⟨c, running, isChild, orphan⟩ | headed
  · left
    rw [saved.sleepTime] at slept
    cases slept with
    | still clock' asleep away => exact .still (clock'.trans clock) asleep away
    | counted clock' more asleep away => exact .counted (clock ▸ clock') more asleep away
    | woken clock' due awake => exact .woken (clock ▸ clock') due awake
  · exact .inr (.inl ⟨c, saved.currentTask.symm.trans running, saved.child c isChild, orphan⟩)
  · exact .inr (.inr headed)

theorem syscallHandler_sleeps (notFree : k.freeTaskList ≠ some t) (known : t ∈ k.taskStructs)
    {r : Regs} (sparing : SparingCall t k r) :
    Sleeps t k (k.syscallHandler (kernelFault frames depth) r) := by
  apply Flow.All.bind (P := fun c => k.currentTask = some c) (.ofOption fun _ found => found)
  intro c running
  have saved : Attends t k (k.saveFrame r) := saveFrame_attends k r
  have heads : (k.saveFrame r).freeTaskList = k.freeTaskList ∧
      (k.saveFrame r).taskStructs = k.taskStructs ∧
      (k.saveFrame r).pipeReadWaitQueue = k.pipeReadWaitQueue := by
    unfold saveFrame
    split <;> exact ⟨rfl, rfl, rfl⟩
  have sparing' : SparingCall t (k.saveFrame r) r := by
    constructor
    · intro kill
      rw [getTask_saveFrame]
      exact sparing.kill kill
    · rintro write ⟨stdout, task, here, pipe, redirected⟩
      rw [heads.2.2]
      refine sparing.write write ⟨stdout, task, saved.currentTask.symm.trans here, ?_, ?_⟩
      · rw [← k.saveFrame_isFilePipe r]
        exact pipe
      · have same : ((k.saveFrame r).task task).writeRedirectionFd =
            (k.task task).writeRedirectionFd := by
          unfold saveFrame
          split
          · rfl
          · exact k.modTask_task_field TaskStruct.writeRedirectionFd _ task rfl
        rwa [same] at redirected
  dsimp only
  rw [k.saveFrame_r_self r running]
  apply Flow.All.bind (P := fun result : Kernel × Word => SleepsOn t k result.1)
  · apply (switchHandler_sleeps (k := k.saveFrame r) (saved.state.trans asleep)
      (by rw [saved.currentTask]; exact away) (by rw [heads.1]; exact notFree)
      (by rw [heads.2.1]; exact known) sparing').mono
    · intro result sleeps
      exact SleepsOn.saved sleeps
    · intro k' sleeps
      exact SleepsOn.saved sleeps
  · rintro ⟨k₁, ret⟩ sleeps
    change SleepsOn t k k₁ at sleeps
    have answered : SleepsOn t k (k₁.modTask c fun s => { s with r := { s.r with rax := ret } }) :=
      sleeps.same (fun s => k₁.modTask_task_field TaskStruct.next c s rfl) rfl
        (k₁.modTask_task_field TaskStruct.state c t rfl)
        (k₁.modTask_task_field TaskStruct.sleepTime c t rfl) rfl rfl
        fun s => k₁.modTask_task_field TaskStruct.parent c s rfl
    exact answered

end Kernel

end

/-! ## Steps -/

variable {frames : Kernel → Word → Regs} {depth : Nat} {policy : Table.Policy Word}
  {T T' : Table Word} {interrupt : Interrupt}

/-- The sleeper stays in the list, and runs only when the step is over. -/
structure Table.Keeps (T : Table Word) (t : Word) : Prop where
  live : t ∈ T.live
  away : T.current = some t → T.resumed = true

/-- Anything but killing a task. -/
def sparing (t : Word) : Table.Policy Word where
  enter := True
  create _ := True
  fork _ := True
  exec _ := True
  kill _ s := s ≠ t
  exit _ := True
  pause _ := True

theorem Table.Move.spares {event : Event Word} (moved : T.Move event T') (keeps : T.Keeps t)
    (busy : T.resumed = false) (allowed : (sparing t).Allows T event) : T'.Keeps t := by
  rcases keeps with ⟨live, away⟩
  have absent : T.current ≠ some t := by
    intro here
    rw [busy] at away
    exact absurd (away here) (by decide)
  have erased : ∀ s, s ≠ t → t ∈ T.live.erase s := fun s other =>
    (List.mem_erase_of_ne other.symm).mpr live
  cases moved with
  | wake same state others frame => exact ⟨live, away⟩
  | enter current => exact ⟨live, away⟩
  | save own => exact ⟨live, away⟩
  | dispatch other listed alive =>
      unfold Table.dispatch
      rw [preempt_eq]
      exact ⟨live, fun _ => rfl⟩
  | pause current stops alive => exact ⟨live, nofun⟩
  | reuse first => exact ⟨live, away⟩
  | create unlisted unfree =>
      rename_i s listed
      refine ⟨?_, away⟩
      cases listed with
      | false => exact live
      | true => exact List.mem_append_left _ live
  | adopt current created => exact ⟨live, away⟩
  | link current forking => exact ⟨live, away⟩
  | exec current created => exact ⟨live, away⟩
  | leave current child linked => exact ⟨live, away⟩
  | unlink current =>
      exact ⟨erased _ fun same => absent (current.trans (congrArg some same)), away⟩
  | bury current notLive freed => exact ⟨live, nofun⟩
  | kill listed => exact ⟨erased _ allowed, away⟩
  | discard notLive alive => exact ⟨live, away⟩

/-- What disturbs a sleeper without that the code means it to. -/
structure Undisturbed (t : Word) (k : Kernel) (interrupt : Interrupt) (k' : Kernel) : Prop where
  call : ∀ r, interrupt = .syscall r → SparingCall t k r
  key : ∀ scancode, interrupt = .key scancode → k.completes scancode = true →
    k.kb.waitingTask ≠ some t
  /-- A child of the sleeper goes on. -/
  child : ∀ c, k.currentTask = some c → ChildOf k t c → (k'.task c).parent ≠ none
  /-- The sleeper is not the first of the list when a task gives up the processor or none has
  it. -/
  first : k'.taskList ≠ some t ∨ k'.currentTask = k.currentTask ∨
    k.currentTask ≠ none ∧ ∃ r, interrupt = .timer r

theorem SparingCall.admitted {r : Regs} (call : SparingCall t k r) :
    (Interrupt.syscall r).Admitted (sparing t) T k := by
  refine ⟨fun _ _ _ => trivial, fun _ _ _ => trivial, fun _ _ _ => trivial, ?_, fun _ _ => trivial⟩
  rintro kill s found rfl
  rw [Kernel.getTask_saveFrame] at found
  exact call.kill kill found

/-- A step leaves an undisturbed sleeper in the list. -/
theorem Step.listed (stepped : Step frames depth k interrupt k') (view : View k T)
    (alive : T.dying = false) (live : t ∈ T.live) (away : k.currentTask ≠ some t)
    (calls : ∀ r, interrupt = .syscall r → SparingCall t k r) :
    ∃ T', View k' T' ∧ T'.dying = false ∧ t ∈ T'.live := by
  have entered : (interrupt.entered T).Keeps t := by
    have goes := interrupt.goes_entered T
    refine ⟨?_, fun here => absurd ((view.current.symm.trans goes.current.symm).trans here) away⟩
    have saved : ∀ r, (T.settle.saveCurrent r).live = T.live := by
      intro r
      rw [Table.saveCurrent_eq]
      rfl
    cases interrupt with
    | timer r => exact (saved r).symm ▸ live
    | syscall r => exact (saved r).symm ▸ live
    | pageFault vaddr r => exact (saved r).symm ▸ live
    | key scancode => exact live
    | store virt value => exact live
    | create filename argv envp => exact live
  have admitted : interrupt.Admitted (sparing t) T k := by
    cases interrupt with
    | timer r => trivial
    | syscall r => exact (calls r rfl).admitted
    | pageFault vaddr r => trivial
    | key scancode => trivial
    | store virt value => trivial
    | create filename argv envp => exact fun _ _ => trivial
  have served := stepped.serves view alive (fun _ _ allowed => allowed) (fun _ => trivial) admitted
  rcases served with ⟨T', view', run, alive', _⟩ | ⟨T', view', run, alive', _⟩
  · exact ⟨T', view', alive', (run.keeps entered fun keeps busy moved allowed =>
      moved.spares keeps busy allowed).live⟩
  · exact ⟨T', view', alive', (run.keeps entered fun keeps busy moved allowed =>
      moved.spares keeps busy allowed).live⟩

/-- A live task is not the first of the free list. -/
theorem View.notFree (view : View k T) (live : t ∈ T.live) : k.freeTaskList ≠ some t := by
  intro first
  have linked := view.free
  rw [first] at linked
  rcases linked.eq_cons with ⟨rest, whole, _⟩
  apply view.disjoint t live
  rw [whole]
  exact List.mem_cons_self

/-- What a step does to a sleeper, or which of the things happens that end the sleep. -/
theorem Step.sleepsOn (stepped : Step frames depth k interrupt k') (view : View k T)
    (live : t ∈ T.live) (asleep : (k.task t).state = .sleep) (away : k.currentTask ≠ some t)
    (calls : ∀ r, interrupt = .syscall r → SparingCall t k r)
    (keys : ∀ scancode, interrupt = .key scancode → k.completes scancode = true →
      k.kb.waitingTask ≠ some t) (listed : Listed k' t) :
    Slept t (k.task t).sleepTime k k' ∨ Bereaved t k k' ∨
      Headed k' t ∧ (k.currentTask = none ∨ ∀ r, interrupt ≠ .timer r) := by
  have answers := kernelFault_attends asleep away frames depth
  have exits : (Kernel.kernelFault frames depth).Exits (Attends t k) (SleepsOn t k) :=
    fun attends => Kernel.systemExit_sleepsOn asleep away answers attends
  have done : SleepsOn t k k' → (∀ r, interrupt ≠ .timer r) →
      Slept t (k.task t).sleepTime k k' ∨ Bereaved t k k' ∨
        Headed k' t ∧ (k.currentTask = none ∨ ∀ r, interrupt ≠ .timer r) := by
    intro sleeps other
    rcases sleeps listed with slept | bereaved | headed
    · exact .inl slept
    · exact .inr (.inl bereaved)
    · exact .inr (.inr ⟨headed, .inr other⟩)
  cases stepped with
  | timer handled =>
      rename_i r
      have saved : Attends t k (k.saveFrame r) := Kernel.saveFrame_attends k r
      have lists : (∀ s, ((k.saveFrame r).task s).next = (k.task s).next) ∧
          (k.saveFrame r).taskList = k.taskList := by
        unfold Kernel.saveFrame
        split
        · exact ⟨fun _ => rfl, rfl⟩
        · exact ⟨fun s => k.modTask_task_field TaskStruct.next _ s rfl, rfl⟩
      have before : Listed (k.saveFrame r) t :=
        Listed.same ⟨T.live, view.live, live⟩ lists.1 lists.2
      have ticked := Kernel.tick_slept (saved.asleep ⟨asleep, rfl⟩) before
        (by rw [saved.currentTask]; exact away)
      rw [Kernel.timerHandler_eq] at handled
      cases tick : (k.saveFrame r).countTick >>= Kernel.scheduleProcess with
      | stuck =>
          rw [tick] at handled
          exact handled.elim
      | left state =>
          rw [tick] at ticked
          exact ticked.elim
      | next k₁ =>
          rw [tick] at ticked handled
          cases handled
          rcases ticked with slept | ⟨idle, headed⟩
          · left
            have clock := congrArg Timer.prevSecs saved.timer
            cases slept with
            | still clock' asleep away => exact .still (clock'.trans clock) asleep away
            | counted clock' more asleep away => exact .counted (clock ▸ clock') more asleep away
            | woken clock' due awake => exact .woken (clock ▸ clock') due awake
          · exact .inr (.inr ⟨headed, .inl (saved.currentTask.symm.trans idle)⟩)
  | syscall running user handled =>
      rename_i r c
      have handler : Sleeps t k (k.syscallHandler (Kernel.kernelFault frames depth) r) :=
        Kernel.syscallHandler_sleeps asleep away (view.notFree live)
          (view.known ▸ view.liveKnown t live) (calls r rfl)
      exact done ((Flow.All.ends handler handled).elim id id) nofun
  | pageFault running user handled =>
      rename_i vaddr r c
      have saved : Attends t k (k.saveFrame r) := Kernel.saveFrame_attends k r
      have handler := Kernel.pageFaultHandler_spaces exits answers.spaced saved vaddr
      have ended : SleepsOn t k k' := by
        rcases Flow.All.ends (P := SleepsOn t k) (handler.imp fun _ spaced =>
          (saved.trans (.still spaced.still)).sleepsOn asleep away) handled with here | here
        · exact here
        · exact here
      exact done ended nofun
  | key handled =>
      rename_i scancode
      have handler := Kernel.kbHandler_stills answers (.refl k) scancode
        fun completes s waiting same => keys scancode rfl completes
          (waiting.trans (congrArg some same))
      exact done ((Flow.All.ends (Sleeps.of_stills asleep away handler) handled).elim id id) nofun
  | store running mapped =>
      rename_i virt value frame c
      have stored : Attends t k (k.setMachine (k.m.setEntry frame (Machine.wordOffset virt) value)) :=
        .same rfl rfl rfl
      exact done (stored.sleepsOn asleep away) nofun
  | create idle handled =>
      rename_i filename argv envp
      have handler := Kernel.readElf_attends (view.notFree live)
        (view.known ▸ view.liveKnown t live) answers id (.text filename) argv envp
      exact done ((Flow.All.ends (Sleeps.of_attended asleep away handler) handled).elim id id) nofun

/-- A step that does not disturb a sleeper counts it, or leaves it alone. -/
theorem Step.slept (stepped : Step frames depth k interrupt k') (view : View k T)
    (live : t ∈ T.live) (asleep : (k.task t).state = .sleep) (away : k.currentTask ≠ some t)
    (undisturbed : Undisturbed t k interrupt k') (listed : Listed k' t) :
    Slept t (k.task t).sleepTime k k' := by
  rcases stepped.sleepsOn view live asleep away undisturbed.call undisturbed.key listed with
    slept | ⟨c, running, isChild, orphan⟩ | ⟨headed, given⟩
  · exact slept
  · exact absurd orphan (undisturbed.child c running isChild)
  · rcases undisturbed.first with later | same | ⟨busy, r, timer⟩
    · exact absurd headed.1 later
    · exact absurd (same.symm.trans headed.2) away
    · rcases given with idle | other
      · exact absurd idle busy
      · exact absurd timer (other r)

/-! ## Runs -/

/-- The calls of `update_time_slices` in a step, which has at most one tick: each of them is
for a new second. -/
def seconds (k k' : Kernel) : Nat := if k'.timer.prevSecs = k.timer.prevSecs then 0 else 1

theorem seconds_still (clock : k'.timer.prevSecs = k.timer.prevSecs) : seconds k k' = 0 :=
  if_pos clock

theorem seconds_begun (clock : k'.timer.prevSecs ≠ k.timer.prevSecs) : seconds k k' = 1 :=
  if_neg clock

/-- What a run is asked for when a task begins to sleep for some seconds, and at every step
while it sleeps. -/
structure Rules where
  begins : Kernel → Word → Word → Prop
  goesOn : Word → Kernel → Interrupt → Kernel → Prop

/-- The states after a task has called sleep and `update_time_slices` was called some times,
until it should be awake. -/
inductive Sleeping (frames : Kernel → Word → Regs) (depth : Nat) (rules : Rules) (t s : Word) :
    Nat → Kernel → Prop
  | call {k k' : Kernel} {r : Regs} (reachable : Reachable frames depth Always k)
      (running : k.currentTask = some t) (sleep : r.rax = 35) (asked : r.rbx = s)
      (stepped : Step frames depth k (.syscall r) k') (met : rules.begins k t s) :
      Sleeping frames depth rules t s (seconds k k') k'
  | step {n : Nat} {k k' : Kernel} {interrupt : Interrupt}
      (before : Sleeping frames depth rules t s n k) (early : n < max s.toNat 1)
      (stepped : Step frames depth k interrupt k') (met : rules.goesOn t k interrupt k') :
      Sleeping frames depth rules t s (n + seconds k k') k'

/-- The task sleeps until the second that it asked for, and is awake then. -/
structure OnTime (s t : Word) (n : Nat) (k : Kernel) : Prop where
  early : n < max s.toNat 1 → (k.task t).state = .sleep
  due : n = max s.toNat 1 → Awake k t

/-- The task is in the list, not at its head, asks for a second at least, and is not disturbed
while it sleeps. -/
def restful : Rules where
  begins k t s := s ≠ 0 ∧ Chain.Member k.nextTask k.taskList t ∧ k.taskList ≠ some t
  goesOn := Undisturbed

/-- What is left of a sleep after some seconds. -/
inductive SleepLeft (s t : Word) (n : Nat) (k : Kernel) : Prop
  | asleep {rest : Word} (asleep : Asleep k t rest) (away : k.currentTask ≠ some t)
      (left : rest.toNat + 1 + n = s.toNat)
  | awake (awake : Awake k t) (due : n = s.toNat)

theorem Slept.left {rest s : Word} {n : Nat} (slept : Slept t rest k k')
    (left : rest.toNat + 1 + n = s.toNat) : SleepLeft s t (n + seconds k k') k' := by
  cases slept with
  | still clock asleep away =>
      rw [seconds_still clock]
      exact .asleep asleep away left
  | counted clock more asleep away =>
      rw [seconds_begun clock]
      refine .asleep asleep away ?_
      have positive : rest.toNat ≠ 0 := fun zero => more (BitVec.eq_of_toNat_eq zero)
      have less : (rest - 1).toNat = rest.toNat - 1 := by
        rw [BitVec.toNat_sub_of_le (by bv_omega)]
        rfl
      omega
  | woken clock due awake =>
      rw [seconds_begun clock]
      refine .awake awake ?_
      have nothing : rest.toNat = 0 := by rw [due]; rfl
      omega

/-- The call leaves the caller asleep, for one second less than it asked for. -/
theorem sleep_slept {r : Regs} {s : Word} (running : k.currentTask = some t) (sleep : r.rax = 35)
    (asked : r.rbx = s) (stepped : Step frames depth k (.syscall r) k') (listed : Listed k t)
    (behind : k.taskList ≠ some t) :
    Listed k' t ∧ Slept t (s - 1) k k' := by
  cases stepped with
  | syscall here user handled =>
      obtain ⟨k₁, paused⟩ : ∃ k₁, k₁ = ((k.saveFrame r).modTask t fun task =>
          { task with state := .sleep, sleepTime := s - 1 }).setCurrentTask none := ⟨_, rfl⟩
      have saved : (k.saveFrame r).currentTask = some t := (k.saveFrame_currentTask r).trans running
      have asleep : Asleep k₁ t (s - 1) := by
        rw [paused]
        constructor
        · rw [Kernel.setCurrentTask_task, Kernel.modTask_task_self]
        · rw [Kernel.setCurrentTask_task, Kernel.modTask_task_self]
      have lists : (∀ x, (k₁.task x).next = (k.task x).next) ∧ k₁.taskList = k.taskList ∧
          k₁.timer = k.timer ∧ k₁.currentTask = none := by
        have savedLists : (∀ x, ((k.saveFrame r).task x).next = (k.task x).next) ∧
            (k.saveFrame r).taskList = k.taskList ∧ (k.saveFrame r).timer = k.timer := by
          unfold Kernel.saveFrame
          split
          · exact ⟨fun _ => rfl, rfl, rfl⟩
          · exact ⟨fun x => k.modTask_task_field TaskStruct.next _ x rfl, rfl, rfl⟩
        rw [paused]
        refine ⟨fun x => ?_, savedLists.2.1, savedLists.2.2, rfl⟩
        rw [Kernel.setCurrentTask_task, Kernel.modTask_task_field _ TaskStruct.next t x rfl]
        exact savedLists.1 x
      have called : k.syscallHandler (Kernel.kernelFault frames depth) r = (k₁.yield >>= .left) := by
        unfold Kernel.syscallHandler
        rw [running, Flow.ofOption_some, Flow.next_bind]
        dsimp only
        rw [k.saveFrame_r_self r running, sleep, asked]
        show ((k.saveFrame r).systemSleep s : Flow Kernel (Kernel × Word)) >>= _ = _
        unfold Kernel.systemSleep
        rw [saved, Flow.ofOption_some, Flow.next_bind]
        dsimp only
        rw [← paused]
        cases k₁.yield <;> rfl
      have entry : k₁.saveFrame default = k₁ := by rw [Kernel.saveFrame, lists.2.2.2]
      have ticked : (k₁.countTick >>= Kernel.scheduleProcess).All
          (fun k' => Listed k' t ∧ Slept t (s - 1) k k') fun _ => False := by
        have before : Listed k₁ t := listed.same lists.1 lists.2.1
        have slept := Kernel.tick_slept asleep before
          (by rw [lists.2.2.2]; exact (Option.some_ne_none t).symm)
        cases tick : k₁.countTick >>= Kernel.scheduleProcess with
        | stuck => trivial
        | left state =>
            rw [tick] at slept
            exact slept
        | next k₂ =>
            have same := (Kernel.tick_lists k₁).of_next tick
            refine ⟨before.same same.1 same.2, ?_⟩
            rcases slept.of_next tick with slept | ⟨_, headed⟩
            · have clock := congrArg Timer.prevSecs lists.2.2.1
              cases slept with
              | still clock' asleep away => exact .still (clock'.trans clock) asleep away
              | counted clock' more asleep away =>
                  exact .counted (clock ▸ clock') more asleep away
              | woken clock' due awake => exact .woken (clock ▸ clock') due awake
            · exact absurd ((same.2.trans lists.2.1).symm.trans headed.1) behind
      rw [called] at handled
      unfold Kernel.yield at handled
      rw [Kernel.timerHandler_eq, entry] at handled
      cases tick : k₁.countTick >>= Kernel.scheduleProcess with
      | stuck =>
          rw [tick] at handled
          exact handled.elim
      | left state =>
          rw [tick] at ticked
          exact ticked.elim
      | next k₂ =>
          rw [tick] at ticked handled
          dsimp only [Flow.next_bind] at handled
          split at handled
          · cases handled
            exact ticked
          · cases handled
            exact ticked

theorem Sleeping.left {s : Word} {n : Nat} (run : Sleeping frames depth restful t s n k) :
    s ≠ 0 ∧ Reachable frames depth Always k ∧ Listed k t ∧ SleepLeft s t n k := by
  have viewed : ∀ {k : Kernel}, Reachable frames depth Always k →
      ∃ T, View k T ∧ T.dying = false := by
    intro k reachable
    have kept : ∃ T, View k T ∧ T.dying = false ∧ (fun _ => True) T :=
      reachable.keeps (fun _ => trivial) fun view alive _ stepped _ =>
        stepped.keeps anything view alive trivial trivial (fun _ => trivial)
          (fun _ _ _ => trivial) (admitted_anything _ _ _)
    rcases kept with ⟨T, view, alive, _⟩
    exact ⟨T, view, alive⟩
  induction run with
  | call reachable running sleep asked stepped met =>
      rcases met with ⟨some, member, behind⟩
      rcases viewed reachable with ⟨T, view, _⟩
      have listed : Listed _ t := ⟨T.live, view.live, view.live.member_iff.mp member⟩
      rcases sleep_slept running sleep asked stepped listed behind with ⟨listed', slept⟩
      refine ⟨some, reachable.step stepped trivial, listed', ?_⟩
      have positive : s.toNat ≠ 0 := fun zero => some (BitVec.eq_of_toNat_eq zero)
      have less : (s - 1).toNat = s.toNat - 1 := by
        rw [BitVec.toNat_sub_of_le (by bv_omega)]
        rfl
      have left : SleepLeft s t (0 + seconds _ _) _ := slept.left (by omega)
      rwa [Nat.zero_add] at left
  | step before early stepped met ih =>
      rcases ih with ⟨some, reachable, ⟨tasks, linked, inside⟩, left⟩
      refine ⟨some, reachable.step stepped trivial, ?_⟩
      have positive : s.toNat ≠ 0 := fun zero => some (BitVec.eq_of_toNat_eq zero)
      cases left with
      | awake awake due => omega
      | asleep asleep away left =>
          rcases viewed reachable with ⟨T, view, alive⟩
          have live : t ∈ T.live := view.live.unique linked ▸ inside
          rcases stepped.listed view alive live away met.call with ⟨T', view', _, live'⟩
          have listed' : Listed _ t := ⟨T'.live, view'.live, live'⟩
          have slept := stepped.slept view live asleep.state away met listed'
          rw [asleep.sleepTime] at slept
          exact ⟨listed', slept.left left⟩

/-- A task that sleeps undisturbed is asleep until the second that it asked for, and awake
then. -/
theorem sleep_lasts {s : Word} {n : Nat} (run : Sleeping frames depth restful t s n k) :
    OnTime s t n k := by
  rcases run.left with ⟨some, _, _, left⟩
  have positive : s.toNat ≠ 0 := fun zero => some (BitVec.eq_of_toNat_eq zero)
  cases left with
  | asleep asleep away left => exact ⟨fun _ => asleep.state, fun _ => by omega⟩
  | awake awake due => exact ⟨fun _ => by omega, fun _ => awake⟩

/-! ### The second process sleeps -/

/-- Two processes that were created shortly before a second begins. -/
def lateProcesses : Kernel :=
  { twoProcesses with timer := { twoProcesses.timer with timerTicks := 104 } }

theorem booted_lateProcesses : Booted lateProcesses [0x1000, 0x2000] := by
  have booted := booted_twoProcesses
  exact ⟨booted.taskList, booted.freeTaskList, booted.currentTask, booted.taskStructs, booted.task,
    booted.pids, booted.pid, booted.few⟩

/-- The second process runs. -/
def lateRuns : Kernel := ticked (ticked lateProcesses)

theorem reachable_lateRuns : Reachable noFrames 0 Always lateRuns ∧
    lateRuns.currentTask = some 0x2000 ∧ Listed lateRuns 0x2000 ∧
    lateRuns.taskList = some 0x1000 := by
  have first : Step noFrames 0 lateProcesses (.timer (callFrame 0 0 0)) (ticked lateProcesses) :=
    (ticked_step (show Flow.checks _ (fun _ => true) = true by decide)).1
  have second : Step noFrames 0 (ticked lateProcesses) (.timer (callFrame 0 0 0)) lateRuns :=
    (ticked_step (show Flow.checks _ (fun _ => true) = true by decide)).1
  have last : lateRuns.nextTask 0x2000 = none := by decide
  exact ⟨.step (.step (.boot booted_lateProcesses) first trivial) second trivial, by decide,
    ⟨[0x1000, 0x2000], ⟨by decide, by decide, last⟩, by decide⟩, by decide⟩

/-- The second process has asked for some seconds, and the next one has begun. -/
def sleptLate (s : Word) : Kernel := ticked (called lateRuns 35 s 0)

theorem sleptLate_checks (s : Word) (few : s = 0 ∨ s = 1) :
    Flow.checks (calling lateRuns 35 s 0) (fun k => k.currentTask = some 0x1000 &&
      k.taskList = some 0x1000 && (k.task 0x1000).ppid = 0 &&
      k.timer.prevSecs = lateRuns.timer.prevSecs &&
      Flow.checks (k.timerHandler (callFrame 0 0 0)) fun k' =>
        k'.taskList = some 0x1000 && k'.timer.prevSecs ≠ k.timer.prevSecs &&
          ((k'.task 0x2000).state = .sleep || s = 1)) = true := by
  rcases few with rfl | rfl
  · decide
  · decide

/-- A run in which the second process asks for no second or for one. -/
theorem sleeping_sleptLate (rules : Rules) (s : Word) (few : s = 0 ∨ s = 1)
    (begins : rules.begins lateRuns 0x2000 s)
    (goesOn : ∀ k k' i, k.currentTask = some 0x1000 → (k.task 0x1000).ppid = 0 →
      k'.taskList = some 0x1000 → i = .timer (callFrame 0 0 0) → rules.goesOn 0x2000 k i k') :
    Sleeping noFrames 0 rules 0x2000 s 1 (sleptLate s) ∧
      (((sleptLate s).task 0x2000).state = .sleep ∨ s = 1) := by
  rcases reachable_lateRuns with ⟨reachable, running, _, _⟩
  rcases called_step running (sleptLate_checks s few) with ⟨asked, facts⟩
  simp only [Bool.and_eq_true, decide_eq_true_eq] at facts
  rcases facts with ⟨⟨⟨⟨current, head⟩, small⟩, clock⟩, checked⟩
  rcases ticked_step checked with ⟨counted, facts⟩
  simp only [Bool.and_eq_true, decide_eq_true_eq, Bool.or_eq_true] at facts
  rcases facts with ⟨⟨head', clock'⟩, state⟩
  have begun : Sleeping noFrames 0 rules 0x2000 s 0 (called lateRuns 35 s 0) := by
    have called : Sleeping noFrames 0 rules 0x2000 s _ (called lateRuns 35 s 0) :=
      .call reachable running rfl rfl asked begins
    rwa [seconds_still clock] at called
  have after := begun.step (by omega) counted (goesOn _ _ _ current small head' rfl)
  rw [seconds_begun clock'] at after
  exact ⟨after, state⟩

/-- The second process asks for a second. -/
theorem sleep_lasts_sleptLate : Sleeping noFrames 0 restful 0x2000 1 1 (sleptLate 1) ∧
    Awake (sleptLate 1) 0x2000 := by
  rcases reachable_lateRuns with ⟨_, _, ⟨tasks, linked, inside⟩, head⟩
  have run := (sleeping_sleptLate restful 1 (.inr rfl)
    ⟨by decide, linked.member_iff.mpr inside, by rw [head]; decide⟩ (by
      rintro k k' i current small head' rfl
      refine ⟨nofun, nofun, ?_, .inl (by rw [head']; decide)⟩
      intro c running isChild
      obtain rfl : (0x1000 : Word) = c := Option.some.inj (current.symm.trans running)
      have positive := isChild.1
      rw [small] at positive
      exact absurd positive (by decide))).1
  exact ⟨run, (sleep_lasts run).due rfl⟩

/-- Nothing is asked of a run. -/
def restless : Rules where
  begins _ _ _ := True
  goesOn _ _ _ _ := True

/-- The second process asks for no second, and oversleeps. -/
theorem oversleeps_sleptLate : Sleeping noFrames 0 restless 0x2000 0 1 (sleptLate 0) ∧
    ¬ OnTime 0 0x2000 1 (sleptLate 0) := by
  rcases sleeping_sleptLate restless 0 (.inl rfl) trivial
    (fun _ _ _ _ _ _ _ => trivial) with ⟨run, asleep | one⟩
  · refine ⟨run, fun onTime => ?_⟩
    rcases onTime.due rfl with runnable | ⟨running, _⟩
    · rw [asleep] at runnable
      cases runnable
    · rw [asleep] at running
      cases running
  · exact absurd one (by decide)

end Sbrocks.Process
