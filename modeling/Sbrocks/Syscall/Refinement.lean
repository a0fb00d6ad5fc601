import Sbrocks.Process.Refinement
import Sbrocks.Syscall.Effects

/-!
# System calls move the process table

Most system calls leave the table alone.  The others are runs of it: fork and
execve create a task, a blocking call takes the caller off, exit and kill end a
task.  What a policy must allow for that is a hypothesis.
-/

namespace Sbrocks.Process

open Sbrocks.Mmu

variable {policy : Table.Policy Word} {T₀ T : Table Word} {I J : Kernel → Prop} {fault : Fault}
  {k : Kernel} {t : Word}

theorem kernelFault_idle (frames : Kernel → Word → Regs) (depth : Nat) (virt : Word)
    (idle : k.currentTask = none) : Kernel.kernelFault frames depth k virt = .stuck := by
  cases depth with
  | zero => rfl
  | succ depth =>
      have still : ({ k with kernelFaults := k.kernelFaults + 1 } : Kernel).currentTask = none := idle
      unfold Kernel.kernelFault
      dsimp only
      rw [Kernel.pageFaultHandler_idle still virt (kernelFrame_errCode (frames k virt))]
      rfl

/-- Without a current task every fault is stuck. -/
theorem idle_answers (idle : ∀ {k : Kernel} (virt : Word), k.currentTask = none →
    fault k virt = .stuck) : fault.Answers (fun k => k.currentTask = none) J where
  stable none quiet := quiet.currentTask.trans none
  handles none virt := by
    rw [idle virt none]
    trivial

theorem Onward.serving {newest : Option Word} (onward : Onward policy T₀ T newest k)
    (current : T.current = T₀.current) : Serving policy T₀ k := by
  rcases onward with ⟨T', view, run, goes, _, busy⟩
  exact ⟨T', view, run, goes.current.trans current, busy⟩

theorem Onward.quiet {newest : Option Word} {k' : Kernel} (onward : Onward policy T₀ T newest k)
    (quiet : Quiet k k') : Onward policy T₀ T newest k' := by
  rcases onward with ⟨T', view, run, goes, created, busy⟩
  exact ⟨_, view.quiet quiet, run.quiet busy view quiet,
    ⟨goes.current, goes.dying, goes.forking, goes.resumed⟩, created, busy⟩

theorem Onward.returned {newest : Option Word} (onward : Onward policy T₀ T newest k)
    (current : T.current = T₀.current) (alive : T.dying = false)
    (settled : T₀.forking = none → T.forking = none) : Returned policy T₀ k := by
  rcases onward with ⟨T', view, run, goes, _, busy⟩
  exact ⟨T', view, run, goes.dying.trans alive, fun none => goes.forking.trans (settled none), busy,
    .inl (goes.current.trans current)⟩

/-- A quiet computation before another one. -/
theorem Onward.step {α β : Type} [HasState α] {P : β → Prop} {flow : Flow Kernel α}
    {rest : α → Flow Kernel β} {newest : Option Word} (onward : Onward policy T₀ T newest k)
    (quiets : Quiets J k flow)
    (each : ∀ x, Onward policy T₀ T newest (HasState.state x) → (rest x).All P J) :
    (flow >>= rest).All P J := by
  apply Flow.All.bind quiets
  intro x quiet
  exact each x (onward.quiet quiet)

theorem Returned.quiet {k' : Kernel} (returned : Returned policy T₀ k) (quiet : Quiet k k') :
    Returned policy T₀ k' := by
  rcases returned with ⟨T', view, run, alive, settled, busy, back⟩
  exact ⟨_, view.quiet quiet, run.quiet busy view quiet, alive, settled, busy, back⟩

/-- What serving an interrupt comes to: the processor goes back to where it was, or
to another task. -/
def Serves {α : Type} [HasState α] (policy : Table.Policy Word) (T₀ : Table Word)
    (J : Kernel → Prop) (flow : Flow Kernel α) : Prop :=
  flow.All (fun result => Returned policy T₀ (HasState.state result))
    fun k' => J k' ∨ Served policy T₀ k'

theorem Serves.ite {α : Type} [HasState α] {condition : Prop} [Decidable condition]
    {flow other : Flow Kernel α} (holds : condition → Serves policy T₀ J flow)
    (fails : ¬ condition → Serves policy T₀ J other) :
    Serves policy T₀ J (if condition then flow else other) := by
  split
  · rename_i h
    exact holds h
  · rename_i h
    exact fails h

/-- A computation that leaves the process table alone. -/
theorem Serves.of_quiets {α : Type} [HasState α] {flow : Flow Kernel α} (quiets : Quiets J k flow)
    (returned : Returned policy T₀ k) : Serves policy T₀ J flow :=
  Flow.All.mono quiets (fun _ quiet => returned.quiet quiet) fun _ => .inl

/-- The current task gives up the processor; a fork tells it the child first. -/
theorem View.pause (view : View k T) (run : T₀.Run policy T) (running : T.current = some t)
    (alive : T.dying = false) (busy : T.resumed = false) (allowed : ∀ T, policy.pause T)
    (change : TaskStruct → TaskStruct) (state : TaskState) (waitFor rax : Word)
    (next : (change (k.task t)).next = (k.task t).next)
    (proc : (change (k.task t)).proc =
      { (k.task t).proc with
        state := state, waitForChildPid := waitFor, r := { (k.task t).r with rax := rax } })
    (stops : state ≠ .running) :
    ∃ T', View ((k.modTask t change).setCurrentTask none) T' ∧ T₀.Run policy T' ∧
      T'.dying = false ∧ T'.forking = T.forking ∧ T'.resumed = false := by
  have changed := (view.modTask t change (fun s =>
    { s with state := state, waitForChildPid := waitFor, r := { (T.proc t).r with rax := rax } })
    next (by rw [proc, view.proc]; rfl)).setCurrentTask none
  have told : T.Move (.save t) (T.save t { (T.proc t).r with rax := rax }) :=
    .save (.inl ⟨running, rfl⟩)
  have pausing : Table.Move _ (.pause t)
      ({ T.save t { (T.proc t).r with rax := rax } with current := none }.modify t fun s =>
        { s with state := state, waitForChildPid := waitFor }) := .pause running stops alive
  have run' := (run.move busy told trivial).move busy pausing (allowed _)
  have tables : ({ T.save t { (T.proc t).r with rax := rax } with current := none }.modify t fun s =>
      { s with state := state, waitForChildPid := waitFor }) =
      { T.modify t fun s => { s with
          state := state, waitForChildPid := waitFor, r := { (T.proc t).r with rax := rax } } with
        current := none } := by
    unfold Table.save Table.modify
    simp
  rw [tables] at run'
  exact ⟨_, changed, run', alive, rfl, busy⟩

theorem yield_serves (view : View k T) (run : T₀.Run policy T) (alive : T.dying = false)
    (busy : T.resumed = false) (idle : k.currentTask = none)
    (settled : T₀.forking = none → T.forking = none) :
    k.yield.All (fun k' => Returned policy T₀ k' ∧ k'.currentTask = none)
      fun k' => J k' ∨ Served policy T₀ k' := by
  apply (view.yield run alive busy idle).mono
  · rintro k' ⟨none, T', view', run', goes, empty⟩
    refine ⟨⟨T', view', run', goes.dying.trans alive, ?_, goes.resumed.trans busy, .inr empty⟩, none⟩
    intro before
    exact goes.forking.trans (settled before)
  · intro k' scheduled
    exact .inr (scheduled.served settled)

namespace Kernel

/-- What fork gives a new child before its memory is set up. -/
def adoptChild (k : Kernel) (parent child : Word) : Kernel :=
  let k := k.modTask child fun s => { s with ppid := (k.task parent).pid }
  let k := k.modTask child fun s => { s with r := { (k.task parent).r with rax := 0 } }
  k.modMm (k.task child).mm fun s =>
    { s with brkEnd := (k.mm (k.task parent).mm).brkEnd, stackVm := userStack - 8 }

/-- What fork does with parent and child after the memory is set up. -/
def linkChild (k : Kernel) (parent child : Word) : Kernel :=
  let k := k.modTask child fun s => { s with parent := some parent }
  let k := k.modTask parent fun s => { s with childCount := s.childCount + 1 }
  k.modTask child fun s =>
    { s with writeRedirectionFd := (k.task parent).writeRedirectionFd,
             readRedirectionFd := (k.task parent).readRedirectionFd }

/-- What execve does with the new task and the caller. -/
def takeIdentity (k : Kernel) (currTask task : Word) : Kernel :=
  let k := k.modTask task fun s =>
    { s with pid := (k.task currTask).pid, ppid := (k.task currTask).ppid }
  let k := k.modTask currTask fun s => { s with ppid := 0 }
  k.modTask task fun s =>
    { s with parent := (k.task currTask).parent,
             writeRedirectionFd := (k.task currTask).writeRedirectionFd,
             readRedirectionFd := (k.task currTask).readRedirectionFd }

/-- The part of `readElf` after the task was created. -/
def loadProgram (fault : Fault) (k : Kernel) (task elfHeader : Word) (argv envp : List Word) :
    Flow Kernel (Kernel × Word) := do
  let (k, entry) ← k.loadLe fault (elfHeader + 24) 8
  let oldCr3 := k.m.cr3
  let (k, phnum) ← k.loadLe fault (elfHeader + 56) 2
  let (k, phoff) ← k.loadLe fault (elfHeader + 32) 8
  let (k, phentsize) ← k.loadLe fault (elfHeader + 54) 2
  let k ← k.loadSegments fault task elfHeader oldCr3 phentsize (elfHeader + phoff) phnum.toNat
  let mm := (k.task task).mm
  let k ← k.addHeapAndStack mm
  let k ← k.setupStack fault task argv envp
  let k := k.writeCr3 oldCr3
  let k := k.modTask task fun s => { s with r := { s.r with rsp := (k.mm mm).stackVm, rip := entry } }
  return (k, task)

variable (answers : fault.Answers I J) (within : ∀ {k}, Serving policy T₀ k → I k)
  (view : View k T) (run : T₀.Run policy T) (current : T.current = T₀.current)
  (alive : T.dying = false) (busy : T.resumed = false)
  (settled : T₀.forking = none → T.forking = none)

include view run current alive busy settled

/-! ## Blocking calls -/

omit current in
theorem waitForKeyboard_serves (pauses : ∀ T, policy.pause T) (running : k.currentTask = some t)
    (buf nbytes : Word) : Serves policy T₀ J (k.waitForKeyboard t buf nbytes) := by
  have here : T.current = some t := view.current.trans running
  rcases view.pause run here alive busy pauses (fun s => { s with state := .waiting })
    .waiting (k.task t).waitForChildPid (k.task t).r.rax rfl rfl nofun with ⟨T', view', run', alive', forking', busy'⟩
  have listening : View { (k.modTask t fun s => { s with state := .waiting }).setCurrentTask none with
      kb := { k.kb with flag := true, waitingTask := some t, str := buf,
                        count := ofInt (toInt nbytes) } } T' := view'.same rfl rfl rfl
  apply (yield_serves listening run' alive' busy' rfl fun none => forking'.trans (settled none)).mono
  · intro k' both
    exact both.1
  · exact fun _ gone => gone

omit current in
theorem systemSleep_serves {α : Type} [HasState α] (pauses : ∀ T, policy.pause T) (sec : Word) :
    Serves policy T₀ J (k.systemSleep sec : Flow Kernel α) := by
  unfold systemSleep
  cases running : k.currentTask with
  | none => trivial
  | some t =>
      have here : T.current = some t := view.current.trans running
      rcases view.pause run here alive busy pauses
        (fun s => { s with state := .sleep, sleepTime := sec - 1 })
        .sleep (k.task t).waitForChildPid (k.task t).r.rax rfl rfl nofun with ⟨T', view', run', alive', forking', busy'⟩
      apply (yield_serves view' run' alive' busy' rfl
        fun none => forking'.trans (settled none)).bind
      intro k' both
      exact .inr both.1.served

theorem systemWaitpid_serves (answers : fault.Answers I J)
    (idle : ∀ {k : Kernel} (virt : Word), k.currentTask = none → fault k virt = .stuck)
    (inv : I k)
    (pauses : (∀ t, k.currentTask = some t → (k.task t).childCount ≠ 0) → ∀ T, policy.pause T)
    (childPid status : Word) : Serves policy T₀ J (k.systemWaitpid fault childPid status) := by
  have returned : Returned policy T₀ k := ⟨T, view, run, alive, settled, busy, .inl current⟩
  unfold systemWaitpid
  cases running : k.currentTask with
  | none => trivial
  | some t =>
      dsimp only [Flow.ofOption_some, Flow.next_bind]
      split
      · apply Serves.of_quiets (k := k) _ returned
        apply Quiets.bind answers inv (.of_touches (storeLe_touches answers.touched inv _ _))
        intro k₁ _
        exact Quiet.refl k₁
      · rename_i children
        have here : T.current = some t := view.current.trans running
        have pauses' : ∀ T, policy.pause T := by
          apply pauses
          intro s same
          cases running.symm.trans same
          exact children
        rcases view.pause run here alive busy pauses'
          (fun s => { s with state := .waiting, waitForChildPid := childPid })
          .waiting childPid (k.task t).r.rax rfl rfl nofun with ⟨T', view', run', alive', forking', busy'⟩
        apply (yield_serves view' run' alive' busy' rfl
          fun none => forking'.trans (settled none)).bind
        rintro k₁ ⟨returned₁, none⟩
        have stored := storeLe_touches (J := J) (idle_answers idle).touched none status (-1)
        apply Serves.of_quiets (k := k₁) _ returned₁
        apply Quiets.bind (idle_answers idle) none (.of_touches stored)
        intro k₂ _
        exact Quiet.refl k₂

theorem systemRead_serves (answers : fault.Answers I J) (inv : I k) (pauses : ∀ T, policy.pause T)
    (fd buf nbytes : Word) : Serves policy T₀ J (k.systemRead fault fd buf nbytes) := by
  have returned : Returned policy T₀ k := ⟨T, view, run, alive, settled, busy, .inl current⟩
  apply Flow.All.bind (P := fun t => k.currentTask = some t) (.ofOption fun _ found => found)
  intro t running
  have here : T.current = some t := view.current.trans running
  apply Flow.All.bind (P := fun _ => True)
    ((isFilePipe_asks k t fd).mono (fun _ asked => asked) fun _ => False.elim)
  intro pipe _
  cases pipe with
  | true =>
      apply Serves.of_quiets (k := k) _ returned
      apply Quiets.bind answers inv (.of_stills (readFromPipe_stills answers.still inv _ _ _ _))
      intro k₁ _
      exact Quiet.refl k₁
  | false =>
      simp only [Bool.false_eq_true, ↓reduceIte]
      split
      · split
        · split
          · have cleared : Quiet k { k with pipeWriteFlag := false } := .same rfl rfl rfl
            apply Serves.of_quiets (k := k) _ returned
            apply Quiets.after cleared
            have inv₁ := answers.stable inv cleared
            apply Quiets.bind answers inv₁ (.of_stills (readFromPipe_stills answers.still inv₁ _ _ _ _))
            intro k₁ _
            exact Quiet.refl k₁
          · have asking : View { k with str := buf, count := nbytes } T := view.same rfl rfl rfl
            rcases asking.pause run here alive busy pauses
              (fun s => { s with state := .waiting })
              .waiting (k.task t).waitForChildPid (k.task t).r.rax rfl rfl nofun with ⟨T', view', run', alive', forking', busy'⟩
            have queued : View { ((({ k with str := buf, count := nbytes } : Kernel).modTask t
                fun s => { s with state := .waiting }).setCurrentTask none) with
                pipeReadWaitQueue := some t } T' := view'.same rfl rfl rfl
            apply (yield_serves queued run' alive' busy' rfl
              fun none => forking'.trans (settled none)).bind
            intro k₁ both
            exact both.1
        · apply Flow.All.bind (waitForKeyboard_serves view run alive busy settled pauses running _ _)
          intro k₁ returned₁
          exact returned₁
      · apply Serves.of_quiets (k := k) _ returned
        apply Quiets.bind answers inv (.of_stills (fread_stills answers.still inv _ _ _))
        rintro ⟨k₁, ret⟩ _
        exact Quiet.refl k₁

/-! ## Fork and execve -/

omit view run current alive busy settled in
theorem systemFork_eq : k.systemFork fault = (do
    let parent ← Flow.ofOption k.currentTask
    let (k, child) ← k.createNewTask fault (.text childName)
    let k ← (k.adoptChild parent child).setupMemory fault child parent
    let k := k.linkChild parent child
    let k ← k.copyPipes child (k.task parent).pipe k.fileRounds
    let k := k.modTask parent fun s =>
      { s with r := { s.r with rax := (k.task child).pid.setWidth 64 }, state := .runnable }
    let k ← (k.setCurrentTask none).yield
    return (k, 0)) :=
  rfl

omit run current alive busy settled in
theorem adoptChild_view (parent child : Word) :
    View (k.adoptChild parent child) (T.adopt child parent) := by
  have named := view.modTask child (fun s => { s with ppid := (k.task parent).pid })
    (fun s => { s with ppid := (T.proc parent).pid }) rfl (by rw [view.proc]; rfl)
  have copied := named.modTask child
    (fun s => { s with
      r := { ((k.modTask child fun s => { s with ppid := (k.task parent).pid }).task parent).r with
        rax := 0 } })
    (fun s => { s with r := { (T.proc parent).r with rax := 0 } }) rfl (by
      rw [k.modTask_task_field TaskStruct.r child parent rfl, view.proc]
      rfl)
  rw [Table.modify_modify] at copied
  exact (copied.remark T.dying T.resumed (some child) T.newest).same rfl rfl rfl

omit run current alive busy settled in
theorem linkChild_view (parent child : Word) :
    View (k.linkChild parent child) (T.link child parent) := by
  have changed := (view.modTask child (fun s => { s with parent := some parent })
    (fun s => { s with parent := some parent }) rfl rfl).modTask parent
    (fun s => { s with childCount := s.childCount + 1 })
    (fun s => { s with childCount := s.childCount + 1 }) rfl rfl
  unfold linkChild
  dsimp only
  exact (changed.remark T.dying T.resumed none T.newest).modTask_hidden rfl rfl

omit settled in
theorem systemFork_serves (answers : fault.Answers I J)
    (within : ∀ {k}, Serving policy T₀ k → I k)
    (creates : ∀ T', T'.pid = T.pid → policy.create T')
    (forks : ∀ T', T'.current = T.current → policy.fork T') (pauses : ∀ T, policy.pause T) :
    Serves policy T₀ J (k.systemFork fault) := by
  rw [systemFork_eq]
  apply Flow.All.bind (P := fun t => k.currentTask = some t) (.ofOption fun _ found => found)
  intro parent running
  have here : T.current = some parent := view.current.trans running
  have created := view.createNewTask answers within run current busy (.text childName) creates
  apply Flow.All.bind (created.mono (fun _ onward => onward) fun _ => .inl)
  rintro ⟨k₁, child⟩ ⟨T₁, view₁, run₁, goes, newest₁, busy₁⟩
  have here₁ : T₁.current = some parent := goes.current.trans here
  have current₁ : T₁.current = T₀.current := goes.current.trans current
  have adopted := adoptChild_view view₁ parent child
  have adopting : T₁.Move (.adopt child) (T₁.adopt child parent) := .adopt here₁ newest₁
  have run₂ := run₁.move busy₁ adopting (forks T₁ goes.current)
  have inv₂ : I (k₁.adoptChild parent child) := within ⟨_, adopted, run₂, current₁, busy₁⟩
  have copied : Quiets J (k₁.adoptChild parent child) _ :=
    .of_spaces (setupMemory_spaces answers.spaced inv₂ child parent)
  apply Flow.All.bind (copied.mono (fun _ quiet => quiet) fun _ => .inl)
  intro k₃ quiet₃
  change Quiet (k₁.adoptChild parent child) k₃ at quiet₃
  have view₃ := adopted.quiet quiet₃
  have run₃ := run₂.quiet busy₁ adopted quiet₃
  generalize third : (T₁.adopt child parent).withTasks k₃ = T₃ at view₃ run₃
  have here₃ : T₃.current = some parent := by simp [← third, here₁]
  have busy₃ : T₃.resumed = false := by simp [← third, busy₁]
  have alive₃ : T₃.dying = false := by simp [← third, goes.dying, alive]
  have forking₃ : T₃.forking = some child := by simp [← third]
  have linked := linkChild_view view₃ parent child
  have linking : T₃.Move (.link child) (T₃.link child parent) := .link here₃ forking₃
  have run₄ := run₃.move busy₃ linking trivial
  have inv₄ : I (k₃.linkChild parent child) :=
    within ⟨_, linked, run₄, here₃.trans (here₁.symm.trans current₁), busy₃⟩
  have piped := fun temp rounds =>
    Quiets.of_stills (copyPipes_stills answers.still inv₄ child temp rounds)
  apply Flow.All.bind ((piped _ _).mono (fun _ quiet => quiet) fun _ => .inl)
  intro k₅ quiet₅
  change Quiet (k₃.linkChild parent child) k₅ at quiet₅
  have view₅ := linked.quiet quiet₅
  have run₅ := run₄.quiet busy₃ linked quiet₅
  generalize fifth : (T₃.link child parent).withTasks k₅ = T₅ at view₅ run₅
  have here₅ : T₅.current = some parent := by simp [← fifth, here₃]
  have busy₅ : T₅.resumed = false := by simp [← fifth, busy₃]
  have alive₅ : T₅.dying = false := by simp [← fifth, alive₃]
  have forking₅ : T₅.forking = none := by simp [← fifth]
  rcases view₅.pause run₅ here₅ alive₅ busy₅ pauses
    (fun s => { s with r := { s.r with rax := (k₅.task child).pid.setWidth 64 },
                       state := .runnable })
    .runnable (k₅.task parent).waitForChildPid ((k₅.task child).pid.setWidth 64) rfl rfl nofun
    with ⟨T₆, view₆, run₆, alive₆, forking₆, busy₆⟩
  apply (yield_serves view₆ run₆ alive₆ busy₆ rfl fun _ => forking₆.trans forking₅).bind
  intro k₇ both
  exact both.1

omit view run current alive busy settled in
theorem readElf_eq (filename : CString) (argv envp : List Word) :
    k.readElf fault filename argv envp = (do
      let (k, offset) ← k.findOffsetForFile fault filename
      let elfHeader := k.binaryTarfsStart + offset
      let (k, task) ← k.createNewTask fault filename
      k.loadProgram fault task elfHeader argv envp) :=
  rfl

omit view run alive busy settled in
theorem loadProgram_onward (answers : fault.Answers I J)
    (within : ∀ {k}, Serving policy T₀ k → I k) {task : Word}
    (onward : Onward policy T₀ T (some task) k) (elfHeader : Word) (argv envp : List Word) :
    (k.loadProgram fault task elfHeader argv envp).All
      (fun result => result.2 = task ∧ Onward policy T₀ T (some task) result.1) J := by
  have inv : ∀ {k}, Onward policy T₀ T (some task) k → I k :=
    fun goes => within (goes.serving current)
  apply onward.step (.of_touches (loadLe_touches answers.touched (inv onward) _ _))
  rintro ⟨k₁, entry⟩ onward₁
  apply onward₁.step (.of_touches (loadLe_touches answers.touched (inv onward₁) _ _))
  rintro ⟨k₂, phnum⟩ onward₂
  apply onward₂.step (.of_touches (loadLe_touches answers.touched (inv onward₂) _ _))
  rintro ⟨k₃, phoff⟩ onward₃
  apply onward₃.step (.of_touches (loadLe_touches answers.touched (inv onward₃) _ _))
  rintro ⟨k₄, phentsize⟩ onward₄
  apply onward₄.step (.of_spaces (loadSegments_spaces answers.spaced (inv onward₄) _ _ _ _ _ _))
  intro k₅ onward₅
  apply onward₅.step (.of_spaces (addHeapAndStack_spaces answers.spaced (inv onward₅) _))
  intro k₆ onward₆
  apply onward₆.step (.of_spaces (setupStack_spaces answers.spaced (inv onward₆) _ _ _))
  intro k₇ onward₇
  rcases onward₇ with ⟨T₇, view₇, run₇, goes, newest, busy₇⟩
  have restored := view₇.setMachine (k₇.m.writeCr3 k₁.m.cr3)
  have entered := restored.modTask task
    (fun s => { s with r := { s.r with
      rsp := ((k₇.writeCr3 k₁.m.cr3).mm (k₅.task task).mm).stackVm, rip := entry } })
    (fun s => { s with r := { (T₇.proc task).r with
      rsp := ((k₇.writeCr3 k₁.m.cr3).mm (k₅.task task).mm).stackVm, rip := entry } })
    rfl (by rw [view₇.proc]; rfl)
  exact ⟨rfl, _, entered, run₇.move busy₇ (.save (.inr (.inl newest))) trivial,
    ⟨goes.current, goes.dying, goes.forking, goes.resumed⟩, newest, busy₇⟩

omit alive settled in
theorem readElf_onward (answers : fault.Answers I J) (within : ∀ {k}, Serving policy T₀ k → I k)
    (creates : ∀ T', T'.pid = T.pid → policy.create T') (filename : CString)
    (argv envp : List Word) :
    (k.readElf fault filename argv envp).All
      (fun result => Onward policy T₀ T (some result.2) result.1) J := by
  have inv : I k := within ⟨T, view, run, current, busy⟩
  rw [readElf_eq]
  apply Flow.All.bind (findOffsetForFile_touches answers.touched inv filename)
  rintro ⟨k₁, offset⟩ touched
  have view₁ := view.quiet touched.quiet
  have run₁ := run.quiet busy view touched.quiet
  apply Flow.All.bind (view₁.createNewTask answers within run₁ current busy filename creates)
  rintro ⟨k₂, task⟩ ⟨T₂, view₂, run₂, goes, newest, busy₂⟩
  have onward : Onward policy T₀ T (some task) k₂ :=
    ⟨T₂, view₂, run₂, ⟨goes.current, goes.dying, goes.forking, goes.resumed⟩, newest, busy₂⟩
  apply (loadProgram_onward current answers within onward (k₁.binaryTarfsStart + offset) argv
    envp).imp
  rintro ⟨k₃, task'⟩ ⟨rfl, onward₃⟩
  exact onward₃

omit view run current alive busy settled in
theorem systemExecve_eq (filename argvAddr envpAddr : Word) :
    k.systemExecve fault filename argvAddr envpAddr = (do
      let (k, argv) ← k.copyArguments fault argvAddr 10
      let (k, str) ← k.loadLe fault envpAddr 8
      let (k, envp) ← k.copyUserString fault str
      let currTask ← Flow.ofOption k.currentTask
      let (k, task) ← k.readElf fault (.atAddr filename) argv [envp]
      let k := k.takeIdentity currTask task
      k.copyPipes task (k.task currTask).pipe k.fileRounds) :=
  rfl

omit run current alive busy settled in
theorem takeIdentity_view (currTask task : Word) :
    View (k.takeIdentity currTask task) (T.exec currTask task) := by
  have named := view.modTask task
    (fun s => { s with pid := (k.task currTask).pid, ppid := (k.task currTask).ppid })
    (fun s => { s with pid := (T.proc currTask).pid, ppid := (T.proc currTask).ppid }) rfl
    (by rw [view.proc]; rfl)
  have orphaned := named.modTask currTask (fun s => { s with ppid := 0 })
    (fun s => { s with ppid := 0 }) rfl rfl
  unfold takeIdentity Table.exec
  dsimp only
  apply orphaned.modTask
  · rfl
  · rw [orphaned.proc]
    rfl

omit alive settled in
/-- An execve that returns has created a task and given it the caller's identity. -/
theorem systemExecve_takes (answers : fault.Answers I J)
    (within : ∀ {k}, Serving policy T₀ k → I k)
    (creates : ∀ T', T'.pid = T.pid → policy.create T') (filename argvAddr envpAddr : Word) :
    (k.systemExecve fault filename argvAddr envpAddr).All
      (fun k' => ∃ k₁ T₁ currTask task, View k₁ T₁ ∧ T₀.Run policy T₁ ∧ T.Goes T₁ ∧
        T₁.newest = some task ∧ T₁.resumed = false ∧ T₁.current = some currTask ∧
        Quiet (k₁.takeIdentity currTask task) k') J := by
  have inv : ∀ {k'}, Quiet k k' → I k' := fun quiet =>
    within ⟨_, view.quiet quiet, run.quiet busy view quiet, current, busy⟩
  rw [systemExecve_eq]
  apply Flow.All.bind (Quiets.of_spaces (copyArguments_spaces answers.spaced (inv (.refl k)) _ _))
  rintro ⟨k₁, argv⟩ quiet₁
  apply Flow.All.bind (loadLe_touches answers.touched (inv quiet₁) _ _)
  rintro ⟨k₂, str⟩ touched₂
  have quiet₂ := quiet₁.trans touched₂.quiet
  apply Flow.All.bind (Quiets.of_spaces (copyUserString_spaces answers.spaced (inv quiet₂) str))
  rintro ⟨k₃, envp⟩ quiet₃
  have quiet := quiet₂.trans quiet₃
  apply Flow.All.bind (P := fun t => k₃.currentTask = some t) (.ofOption fun _ found => found)
  intro currTask running
  apply Flow.All.bind (readElf_onward (view.quiet quiet) (run.quiet busy view quiet) current busy
    answers within creates _ _ _)
  rintro ⟨k₄, task⟩ ⟨T₄, view₄, run₄, goes, newest, busy₄⟩
  have here : T₄.current = some currTask := by
    rw [goes.current, ← running]
    exact (view.quiet quiet).current
  -- copying the pipes touches no user memory
  have faultless : Fault.Answers (fun _ _ => .stuck) (fun _ => True) J :=
    ⟨fun _ _ => trivial, fun _ _ => trivial⟩
  apply (Quiets.of_stills (copyPipes_stills faultless.still trivial task _ _)).imp
  intro k₅ quiet₅
  exact ⟨k₄, T₄, currTask, task, view₄, run₄,
    ⟨goes.current, goes.dying, goes.forking, goes.resumed⟩, newest, busy₄, here, quiet₅⟩

omit alive settled in
theorem systemExecve_onward (answers : fault.Answers I J)
    (within : ∀ {k}, Serving policy T₀ k → I k)
    (creates : ∀ T', T'.pid = T.pid → policy.create T')
    (execs : ∀ T', T'.current = T.current → policy.exec T')
    (filename argvAddr envpAddr : Word) :
    (k.systemExecve fault filename argvAddr envpAddr).All
      (fun k' => ∃ newest, Onward policy T₀ T newest k') J := by
  apply (systemExecve_takes view run current busy answers within creates filename argvAddr
    envpAddr).imp
  rintro k' ⟨k₁, T₁, currTask, task, view₁, run₁, goes, newest, busy₁, here, quiet⟩
  have named := takeIdentity_view view₁ currTask task
  have taking : T₁.Move (.exec currTask task) (T₁.exec currTask task) := .exec here newest
  have run₂ := run₁.move busy₁ taking (execs T₁ goes.current)
  have onward : Onward policy T₀ T (some task) (k₁.takeIdentity currTask task) :=
    ⟨_, named, run₂, ⟨goes.current, goes.dying, goes.forking, goes.resumed⟩, newest, busy₁⟩
  exact ⟨some task, onward.quiet quiet⟩

/-! ## The handlers -/

omit view run current alive busy settled in
/-- Saving a frame hides no task from `get_task`. -/
theorem getTask_saveFrame (k : Kernel) (r : Regs) (pid : Word) :
    (k.saveFrame r).getTask pid = k.getTask pid := by
  unfold saveFrame
  split
  · rfl
  · rename_i task _
    unfold getTask
    have next : (k.modTask task fun s => { s with r := r }).nextTask = k.nextTask :=
      funext fun t => k.modTask_task_field TaskStruct.next task t rfl
    have pids : ∀ t, ((k.modTask task fun s => { s with r := r }).task t).pid = (k.task t).pid :=
      fun t => k.modTask_task_field TaskStruct.pid task t rfl
    simp only [next, pids]
    rfl

omit view run current alive busy settled in
theorem saveFrame_isFilePipe (k : Kernel) (r : Regs) (t fd : Word) :
    (k.saveFrame r).isFilePipe t fd = k.isFilePipe t fd := by
  have pipe : ((k.saveFrame r).task t).pipe = (k.task t).pipe := by
    unfold saveFrame
    split
    · rfl
    · exact k.modTask_task_field TaskStruct.pipe _ t rfl
  have file : (k.saveFrame r).file = k.file ∧ (k.saveFrame r).fileStructs = k.fileStructs := by
    unfold saveFrame
    split <;> exact ⟨rfl, rfl⟩
  unfold isFilePipe nextFile fileRounds
  rw [pipe, file.1, file.2]

/-- What the policy has to allow for a system call. -/
structure Admits (policy : Table.Policy Word) (T : Table Word) (k : Kernel) (r : Regs) : Prop where
  create : r.rax = 57 ∨ r.rax = 59 → ∀ T', T'.pid = T.pid → policy.create T'
  fork : r.rax = 57 → ∀ T', T'.current = T.current → policy.fork T'
  exec : r.rax = 59 → ∀ T', T'.current = T.current → policy.exec T'
  kill : r.rax = 84 → ∀ t, k.getTask r.rbx = .next (some t) → policy.kill T t
  pause : (r.rax = 0 ∨ r.rax = 35 ∨ r.rax = 57 ∨
    (r.rax = 61 ∧ ∀ t, k.currentTask = some t → (k.task t).childCount ≠ 0)) →
    ∀ T', policy.pause T'

theorem switchHandler_serves (answers : fault.Answers I J) (exits : fault.Exits I J)
    (idle : ∀ {k : Kernel} (virt : Word), k.currentTask = none → fault k virt = .stuck)
    (within : ∀ {k}, Serving policy T₀ k → I k) (r : Regs) (admits : Admits policy T k r) :
    Serves policy T₀ J (k.switchHandler fault r.rax r.rbx r.rcx r.rdx) := by
  have inv : I k := within ⟨T, view, run, current, busy⟩
  have served : Returned policy T₀ k := ⟨T, view, run, alive, settled, busy, .inl current⟩
  unfold switchHandler
  apply Serves.ite
  · intro read
    exact systemRead_serves view run current alive busy settled answers inv
      (admits.pause (.inl read)) _ _ _
  intro _
  apply Serves.ite
  · intro _
    exact .of_quiets (.of_stills (systemWrite_stills answers.still inv _ _ _ fun _ _ _ => id)) served
  intro _
  apply Serves.ite
  · intro _
    exact .of_quiets (.of_stills (systemOpen_stills answers.still inv _)) served
  intro _
  apply Serves.ite
  · intro _
    exact Flow.All.mono (exits (P := fun _ => False) inv) (fun _ => False.elim) fun _ => .inl
  intro _
  apply Serves.ite
  · intro _
    exact .of_quiets (.of_stills (systemBrk_stills _)) served
  intro _
  apply Serves.ite
  · intro fork
    exact systemFork_serves view run current alive busy answers within (admits.create (.inl fork))
      (admits.fork fork) (admits.pause (.inr (.inr (.inl fork))))
  intro _
  apply Serves.ite
  · intro _
    apply Flow.All.bind (P := fun _ => True) (.ofOption fun _ _ => trivial)
    intro task _
    exact served
  intro _
  apply Serves.ite
  · intro _
    apply Flow.All.bind (P := fun _ => True) (.ofOption fun _ _ => trivial)
    intro task _
    exact served
  intro _
  apply Serves.ite
  · intro exec
    have onward := systemExecve_onward view run current busy answers within
      (admits.create (.inr exec)) (admits.exec exec) r.rbx r.rcx r.rdx
    apply Flow.All.bind (onward.mono (fun _ goes => goes) fun _ => .inl)
    rintro k₁ ⟨newest, goes⟩
    exact goes.returned current alive settled
  intro _
  apply Serves.ite
  · intro wait
    have pauses := fun children => admits.pause (.inr (.inr (.inr ⟨wait, children⟩)))
    apply Flow.All.bind (systemWaitpid_serves view run current alive busy settled answers idle inv
      pauses _ _)
    rintro ⟨k₁, result⟩ served₁
    exact served₁
  intro _
  apply Serves.ite
  · intro sleep
    exact systemSleep_serves view run alive busy settled (admits.pause (.inr (.inl sleep))) _
  intro _
  apply Serves.ite
  · intro _
    exact .of_quiets (.of_stills (systemGetcwd_stills answers.still inv _)) served
  intro _
  apply Serves.ite
  · intro _
    exact .of_quiets (.of_stills (systemChdir_stills answers.still inv _)) served
  intro _
  apply Serves.ite
  · intro _
    exact .of_quiets (.of_stills (fseek_stills _ _ _)) served
  intro _
  apply Serves.ite
  · intro _
    apply Flow.All.bind (Serves.of_quiets (.of_stills (systemClose_stills answers.still inv _)) served)
    intro k₁ served₁
    exact served₁
  intro _
  apply Serves.ite
  · intro _
    apply Flow.All.bind (Serves.of_quiets (.of_stills (systemPipe_stills answers.still inv _)) served)
    intro k₁ served₁
    exact served₁
  intro _
  apply Serves.ite
  · intro _
    apply Flow.All.bind (Serves.of_quiets (.of_stills (systemDup2_stills _ _)) served)
    intro k₁ served₁
    exact served₁
  intro _
  apply Serves.ite
  · intro _
    exact .of_quiets (.of_stills (systemGetdents_stills answers.still inv _ _)) served
  intro _
  apply Serves.ite
  · intro _
    apply Flow.All.bind (Serves.of_quiets (.of_stills (systemReaddir_stills answers.still inv _ _)) served)
    intro k₁ served₁
    exact served₁
  intro _
  apply Serves.ite
  · intro kill
    exact (view.systemKill answers within run current alive busy _ (admits.kill kill)).mono
      (fun _ goes => goes.returned current alive settled) fun _ => .inl
  intro _
  exact served

omit view run current alive busy settled in
/-- The result of a call, in the frame of the task that made it. -/
theorem returned_modTask (returned : Returned policy T₀ k) (running : T₀.current = some t)
    (ret : Word) :
    Returned policy T₀ (k.modTask t fun s => { s with r := { s.r with rax := ret } }) := by
  rcases returned with ⟨T', view', run', alive', settled', busy', back⟩
  have told := view'.modTask t (fun s => { s with r := { s.r with rax := ret } })
    (fun s => { s with r := { (T'.proc t).r with rax := ret } }) rfl (by rw [view'.proc]; rfl)
  have saving : T'.Move (.save t) (T'.save t { (T'.proc t).r with rax := ret }) := by
    apply Table.Move.save
    rcases back with same | empty
    · exact .inl ⟨same.trans running, rfl⟩
    · refine .inr (.inr ?_)
      rw [empty]
      exact List.not_mem_nil
  exact ⟨_, told, run'.move busy' saving trivial, alive', settled', busy', back⟩

/-- `syscall_handler`, after the frame was saved. -/
theorem syscallHandler_serves (answers : fault.Answers I J) (exits : fault.Exits I J)
    (idle : ∀ {k : Kernel} (virt : Word), k.currentTask = none → fault k virt = .stuck)
    (within : ∀ {k}, Serving policy T₀ k → I k) {k₀ : Kernel} {r : Regs} (saved : k₀.saveFrame r = k)
    (admits : Admits policy T k r) : Serves policy T₀ J (k₀.syscallHandler fault r) := by
  apply Flow.All.bind (P := fun t => k₀.currentTask = some t) (.ofOption fun _ found => found)
  intro t running
  have frame : ((k₀.saveFrame r).task t).r = r := saveFrame_r_self k₀ r running
  dsimp only
  rw [frame, saved]
  apply Flow.All.bind (switchHandler_serves view run current alive busy settled answers exits idle
    within r admits)
  rintro ⟨k₁, ret⟩ returned
  have here : T₀.current = some t := by
    rw [← current, view.current, ← saved, ← running]
    exact saveFrame_currentTask k₀ r
  exact returned_modTask returned here ret

omit alive settled in
/-- An execve that does not return ends the caller. -/
theorem syscallHandler_execve (answers : fault.Answers I J)
    (within : ∀ {k}, Serving policy T₀ k → I k)
    (creates : ∀ T', T'.pid = T.pid → policy.create T') {k₀ : Kernel} {r : Regs}
    (saved : k₀.saveFrame r = k) (exec : r.rax = 59) :
    (k₀.syscallHandler fault r).All (fun _ => True) J := by
  apply Flow.All.bind (P := fun t => k₀.currentTask = some t) (.ofOption fun _ found => found)
  intro t running
  have frame : ((k₀.saveFrame r).task t).r = r := saveFrame_r_self k₀ r running
  dsimp only
  rw [frame, saved, exec]
  have called : k.switchHandler fault 59 r.rbx r.rcx r.rdx = (do
      let k ← k.systemExecve fault r.rbx r.rcx r.rdx
      return (k, 0)) := rfl
  rw [called]
  apply Flow.All.bind (P := fun _ => True)
  · apply Flow.All.bind (systemExecve_takes view run current busy answers within creates
      r.rbx r.rcx r.rdx)
    intro k₁ _
    trivial
  · rintro ⟨k₁, ret⟩ _
    trivial

end Kernel

end Sbrocks.Process
