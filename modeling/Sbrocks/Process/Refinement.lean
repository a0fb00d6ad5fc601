import Sbrocks.Process.View

/-!
# The kernel moves its process table

The timer, the creation of a task, the end of the current one and the killing of
another are runs of the process table, whatever page faults the kernel takes
meanwhile.
-/

namespace Sbrocks.Process

open Sbrocks.Mmu

variable {policy final : Table.Policy Word} {T₀ T : Table Word} {k : Kernel} {t : Word}

/-- A state on behalf of the task that was current at first. -/
def Serving (policy : Table.Policy Word) (T₀ : Table Word) (k : Kernel) : Prop :=
  ∃ T, View k T ∧ T₀.Run policy T ∧ T.current = T₀.current ∧ T.resumed = false

/-- A state between two interrupts. -/
def Served (policy : Table.Policy Word) (T₀ : Table Word) (k : Kernel) : Prop :=
  ∃ T, View k T ∧ T₀.Run policy T ∧ T.dying = false ∧ (T₀.forking = none → T.forking = none)

/-- A state between two interrupts, in which the processor goes back to where it was. -/
def Returned (policy : Table.Policy Word) (T₀ : Table Word) (k : Kernel) : Prop :=
  ∃ T, View k T ∧ T₀.Run policy T ∧ T.dying = false ∧ (T₀.forking = none → T.forking = none) ∧
    T.resumed = false ∧ (T.current = T₀.current ∨ T.live = [])

/-- A state after the end of the task that was current at first. -/
def Ended (policy : Table.Policy Word) (T₀ : Table Word) (k : Kernel) : Prop :=
  ∃ T, View k T ∧ T₀.Run policy T ∧ T.dying = false ∧ ∀ t ∈ T₀.current, t ∉ T.live

theorem Returned.served (returned : Returned policy T₀ k) : Served policy T₀ k := by
  rcases returned with ⟨T, view, run, alive, settled, _⟩
  exact ⟨T, view, run, alive, settled⟩

theorem Table.Run.quiet {k' : Kernel} (run : T₀.Run policy T) (busy : T.resumed = false)
    (view : View k T) (quiet : Quiet k k') : T₀.Run policy (T.withTasks k') :=
  run.move busy (view.wakes_quiet quiet) trivial

theorem Serving.stable {k' : Kernel} (serving : Serving policy T₀ k) (quiet : Quiet k k') :
    Serving policy T₀ k' := by
  rcases serving with ⟨T, view, run, current, busy⟩
  exact ⟨_, view.quiet quiet, run.quiet busy view quiet, current, busy⟩

theorem Serving.mono (serving : Serving policy T₀ k) (within : policy.Within final) :
    Serving final T₀ k := by
  rcases serving with ⟨T, view, run, current, busy⟩
  exact ⟨T, view, run.mono within, current, busy⟩

/-! ## The timer -/

/-- A state after scheduling, with the lists as they were. -/
def Scheduled (policy : Table.Policy Word) (T₀ T : Table Word) (k : Kernel) : Prop :=
  ∃ T', View k T' ∧ T₀.Run policy T' ∧ T'.dying = false ∧ T'.live = T.live ∧ T'.forking = T.forking

/-- Without a current task the scheduler finds nothing only in an empty list. -/
theorem View.scheduleProcess_idle (view : View k T) {k' : Kernel} (idle : k.currentTask = none)
    (scheduled : k.scheduleProcess = .next k') (still : k'.currentTask = none) : T.live = [] := by
  have linked := view.live
  unfold Kernel.scheduleProcess at scheduled
  rw [idle] at scheduled
  cases head : k.taskList with
  | none =>
      rw [head] at linked
      exact linked.eq_nil
  | some first =>
      dsimp only [Kernel.getNextTask] at scheduled
      rw [head] at scheduled
      cases scheduled
      cases still

/-- The timer, after the frame was saved. -/
theorem View.tick (view : View k T) (run : T₀.Run policy T) (alive : T.dying = false)
    (busy : T.resumed = false) :
    (k.countTick >>= Kernel.scheduleProcess).All (Scheduled policy T₀ T) fun _ => False := by
  apply (Kernel.countTick_aged k).bind
  intro mid aged
  have run₁ := run.move busy (view.wakes_aged aged) trivial
  apply ((view.aged aged).scheduleProcess alive).mono _ fun _ => id
  rintro k' (stays | ⟨task, moved, dispatched⟩)
  · exact ⟨_, stays, run₁, alive, rfl, rfl⟩
  · have same := (T.withTasks mid).preempt_eq
    refine ⟨_, dispatched, run₁.move busy moved trivial, ?_, ?_, ?_⟩
    · show (T.withTasks mid).preempt.dying = false
      rw [same]
      exact alive
    · show (T.withTasks mid).preempt.live = T.live
      rw [same]
      rfl
    · show (T.withTasks mid).preempt.forking = T.forking
      rw [same]
      rfl

theorem View.timerHandler {r : Regs} (view : View (k.saveFrame r) T) (run : T₀.Run policy T)
    (alive : T.dying = false) (busy : T.resumed = false) :
    (k.timerHandler r).All (fun result => Scheduled policy T₀ T result.1) fun _ => False := by
  rw [Kernel.timerHandler_eq]
  apply (view.tick run alive busy).bind
  intro k' scheduled
  exact scheduled

/-- A call that gave up the processor goes on only where no task is left. -/
theorem View.yield (view : View k T) (run : T₀.Run policy T) (alive : T.dying = false)
    (busy : T.resumed = false) (idle : k.currentTask = none) :
    k.yield.All
      (fun k' => k'.currentTask = none ∧ ∃ T', View k' T' ∧ T₀.Run policy T' ∧ T.Goes T' ∧
        T'.live = [])
      (Scheduled policy T₀ T) := by
  have entry : k.saveFrame default = k := by rw [Kernel.saveFrame, idle]
  have scheduled := view.tick run alive busy
  unfold Kernel.yield
  rw [Kernel.timerHandler_eq, entry]
  cases tick : k.countTick >>= Kernel.scheduleProcess with
  | stuck => trivial
  | left state =>
      rw [tick] at scheduled
      exact scheduled.elim
  | next k' =>
      rw [tick] at scheduled
      dsimp only [Flow.next_bind]
      cases still : k'.currentTask with
      | some t => exact scheduled
      | none =>
          refine ⟨still, ?_⟩
          rcases Flow.bind_eq_next tick with ⟨mid, counted, chosen⟩
          have aged := (Kernel.countTick_aged k).of_next counted
          have view₁ := view.aged aged
          have empty := view₁.scheduleProcess_idle (aged.currentTask.trans idle) chosen still
          have run₁ := run.move busy (view.wakes_aged aged) trivial
          rcases (view₁.scheduleProcess alive).of_next chosen with view₂ | ⟨task, _, view₂⟩
          · exact ⟨_, view₂, run₁, ⟨rfl, rfl, rfl, rfl⟩, empty⟩
          · have current : some task = k'.currentTask := view₂.current
            rw [still] at current
            cases current

theorem Scheduled.served {k' : Kernel} (scheduled : Scheduled policy T₀ T k')
    (settled : T₀.forking = none → T.forking = none) : Served policy T₀ k' := by
  rcases scheduled with ⟨T', view, run, alive, live, forking⟩
  exact ⟨T', view, run, alive, fun none => forking.trans (settled none)⟩

/-! ## The end of a task -/

/-- `system_exit` tells the parent. -/
theorem View.leaveParent (view : View k T) (run : T₀.Run policy T) (busy : T.resumed = false)
    (exit : ∀ T, policy.exit T) (running : T.current = some t) :
    (k.leaveParent t).All
      (fun k' => ∃ T', View k' T' ∧ T₀.Run policy T' ∧ T'.current = some t ∧ T'.resumed = false)
      fun _ => False := by
  unfold Kernel.leaveParent
  split
  · rename_i child
    cases linked : (k.task t).parent with
    | none => trivial
    | some parent =>
        have left : T.Move (.leave t) (T.leave parent) := by
          apply Table.Move.leave running
          · rw [view.proc t]
            exact child
          · rw [view.proc t]
            exact linked
        have still : ((k.modTask parent fun s => { s with state := .runnable }).task t).parent =
            some parent := by
          rw [k.modTask_task_field TaskStruct.parent parent t rfl]
          exact linked
        have woken := (view.modTask parent (fun s => { s with state := .runnable })
          (fun s => { s with state := .runnable }) rfl rfl).modTask parent
          (fun s => { s with childCount := s.childCount - 1 })
          (fun s => { s with childCount := s.childCount - 1 }) rfl rfl
        rw [Table.modify_modify] at woken
        have counted : View _ (T.leave parent) := woken.remark true T.resumed T.forking T.newest
        have awake : (((k.modTask parent fun s => { s with state := .runnable }).modTask parent
            fun s => { s with childCount := s.childCount - 1 }).task parent).state ≠ .waiting := by
          rw [Kernel.modTask_task_self, Kernel.modTask_task_self]
          exact nofun
        have removed : (k.modTask parent fun s => { s with state := .runnable }).removeFromParent t =
            .next ((k.modTask parent fun s => { s with state := .runnable }).modTask parent
              fun s => { s with childCount := s.childCount - 1 }) := by
          unfold Kernel.removeFromParent
          rw [still]
          dsimp only [Flow.ofOption_some, Flow.next_bind]
          rw [if_neg fun both => awake both.1]
          rfl
        show ((k.modTask parent fun s => { s with state := .runnable }).removeFromParent t).All _ _
        rw [removed]
        exact ⟨_, counted, run.move busy left (exit T), running, busy⟩
  · exact ⟨T, view, run, running, busy⟩

/-- `free_task_struct` clears the link of the task, which cuts a free list that holds
it already. -/
theorem View.clear (view : View k T) (notLive : t ∉ T.live) :
    ∃ free, View (k.modTask t Kernel.clearedTask) ({ T with free := free }.modify t .cleared) ∧
      (∀ s ∈ free, s ∈ T.free) ∧ (t ∉ T.free → free = T.free) := by
  have proc : ∀ other, (T.modify t .cleared).proc other =
      ((k.modTask t Kernel.clearedTask).task other).proc := by
    intro other
    by_cases here : other = t
    · subst here
      rw [T.modify_proc_self, Kernel.modTask_task_self, view.proc]
      rfl
    · rw [T.modify_proc_of_ne here, Kernel.modTask_task_of_ne _ here, view.proc]
  have live : Chain.Linked (k.modTask t Kernel.clearedTask).nextTask k.taskList T.live := by
    rw [View.nextTask_modTask]
    apply view.live.congr
    intro x member
    exact Function.update_of_ne (ne_of_mem_of_not_mem member notLive) ..
  by_cases again : t ∈ T.free
  · rcases List.append_of_mem again with ⟨kept, cut, here⟩
    have linked := view.free
    rw [here] at linked
    have distinct := linked.nodup
    refine ⟨kept ++ [t], ⟨live, ?_, ?_, view.known, view.liveKnown, view.current, view.pid,
      view.faults, proc⟩, ?_, fun absent => absurd again absent⟩
    · rw [View.nextTask_modTask]
      apply linked.splice
      · intro x member
        apply Function.update_of_ne
        rintro rfl
        exact (List.nodup_append.mp distinct).2.2 x member x (by simp) rfl
      · exact Function.update_self ..
    · intro x member inside
      apply view.disjoint x member
      rw [here]
      rcases List.mem_append.mp inside with before | this
      · exact List.mem_append_left _ before
      · rw [List.mem_singleton.mp this]
        simp
    · intro x inside
      rw [here]
      rcases List.mem_append.mp inside with before | this
      · exact List.mem_append_left _ before
      · rw [List.mem_singleton.mp this]
        simp
  · refine ⟨T.free, ⟨live, ?_, view.disjoint, view.known, view.liveKnown, view.current, view.pid,
      view.faults, proc⟩, fun _ member => member, fun _ => rfl⟩
    rw [View.nextTask_modTask]
    apply view.free.congr
    intro x member
    exact Function.update_of_ne (ne_of_mem_of_not_mem member again) ..

/-- `free_task_struct`: the task is taken off the list, its areas are freed, and its
structure is put on the free list. -/
theorem View.freeTaskStruct {I J : Kernel → Prop} {fault : Fault} (answers : fault.Answers I J)
    (view : View k T) (inv : ∀ {k'}, View k' (T.kill t) → I k') :
    (k.freeTaskStruct fault t).All
      (fun k' => ∃ mid free, (T.kill t).Move .wake ((T.kill t).withTasks mid) ∧
        View k' ({ (T.kill t).withTasks mid with free := free }.modify t .cleared) ∧
        (∀ s ∈ free, s ∈ T.free ∨ s = t) ∧ (t ∉ T.free → free = T.free ++ [t])) J := by
  have notLive : t ∉ (T.kill t).live := view.live.nodup.not_mem_erase
  have loaded : View (k.writeCr3 (k.m.virtToPhy (k.task t).pml4e)) T := view.setMachine _
  have unlinked : ((k.writeCr3 (k.m.virtToPhy (k.task t).pml4e)).removeFromTaskList t).All
      (fun k' => View k' (T.kill t)) J :=
    loaded.removeFromTaskList.mono (fun _ viewed => viewed) fun _ => False.elim
  apply unlinked.bind
  intro k₁ view₁
  apply Flow.All.bind (Quiets.of_spaces (Kernel.freeTaskMmStruct_spaces answers.spaced (inv view₁) _ t))
  intro k₂ quiet
  have view₂ := view₁.quiet quiet
  rcases view₂.clear (t := t) notLive with ⟨free, cleared, inside, whole⟩
  have restored : View (((k₂.modTask t Kernel.clearedTask).writeCr3
      (k₂.modTask t Kernel.clearedTask).m.kCr3).modTask t fun s => { s with pml4e := 0 })
      ({ (T.kill t).withTasks k₂ with free := free }.modify t .cleared) := by
    apply View.modTask_hidden
    · exact cleared.setMachine _
    · rfl
    · rfl
  have freed := restored.addToFreeTaskList (t := t) notLive
  apply freed.mono
  · rintro k₃ ⟨_, free', view₃, inside', whole'⟩
    refine ⟨k₂, free', view₁.wakes_quiet quiet, view₃, ?_, ?_⟩
    · intro s member
      rcases inside' s member with old | new
      · exact .inl (inside s old)
      · exact .inr new
    · intro absent
      have same := whole absent
      subst same
      exact whole' absent
  · exact fun _ => False.elim

/-- The end of the current task, through whatever page faults it takes. -/
theorem serving_exits {fault : Fault} (exit : ∀ T, final.exit T)
    (answers : fault.Answers (Serving final T₀) (Ended final T₀)) :
    fault.Exits (Serving final T₀) (Ended final T₀) := by
  intro α P k serving
  rcases serving with ⟨T, view, run, current, busy⟩
  unfold Kernel.systemExit
  cases running : k.currentTask with
  | none => trivial
  | some t =>
      have here : T.current = some t := view.current.trans running
      have told : (k.leaveParent t).All
          (fun k' => ∃ T', View k' T' ∧ T₀.Run final T' ∧ T'.current = some t ∧
            T'.resumed = false)
          (Ended final T₀) :=
        (view.leaveParent run busy exit here).mono (fun _ left => left) fun _ => False.elim
      apply told.bind
      rintro k₁ ⟨T₁, view₁, run₁, current₁, busy₁⟩
      have unlinking : T₁.Move (.unlink t) (T₁.unlink t) := .unlink current₁
      have run₂ := run₁.move busy₁ unlinking (exit T₁)
      have notLive : t ∉ (T₁.unlink t).live := view₁.live.nodup.not_mem_erase
      have freeing := (view₁.remark true T₁.resumed T₁.forking T₁.newest).freeTaskStruct (t := t)
        answers fun viewed => ⟨_, viewed, run₂, current₁.trans (here.symm.trans current), busy₁⟩
      apply freeing.bind
      rintro k₂ ⟨mid, free, woken, view₂, freed, _⟩
      have run₃ := run₂.move busy₁ woken trivial
      have buried : Table.Move _ (.bury t) (((T₁.unlink t).withTasks mid).bury t free) :=
        .bury current₁ notLive freed
      have stopped : View ((k₂.modTask t fun s => { s with state := .stopped }).setCurrentTask none)
          (((T₁.unlink t).withTasks mid).bury t free) := by
        have changed := view₂.modTask t (fun s => { s with state := .stopped })
          (fun s => { s with state := .stopped }) rfl rfl
        rw [Table.modify_modify] at changed
        exact (changed.remark false T₁.resumed T₁.forking T₁.newest).setCurrentTask none
      have yielded := stopped.yield (run₃.move busy₁ buried trivial) rfl busy₁ rfl
      have gone : ∀ s ∈ T₀.current, s ∉ (((T₁.unlink t).withTasks mid).bury t free).live := by
        intro s member
        rw [← current, here] at member
        cases member
        exact notLive
      have left : ∀ k', Scheduled final T₀ (((T₁.unlink t).withTasks mid).bury t free) k' →
          Ended final T₀ k' := by
        rintro k' ⟨T', view', run', alive, live, _⟩
        exact ⟨T', view', run', alive, fun s member => live ▸ gone s member⟩
      have stays : ∀ k', (k'.currentTask = none ∧ ∃ T', View k' T' ∧ T₀.Run final T' ∧
          (((T₁.unlink t).withTasks mid).bury t free).Goes T' ∧ T'.live = []) →
          Ended final T₀ k' := by
        rintro k' ⟨_, T', view', run', goes, empty⟩
        refine ⟨T', view', run', goes.dying, ?_⟩
        intro s _
        rw [empty]
        exact List.not_mem_nil
      apply (yielded.mono stays left).bind
      intro k' ended
      exact ended

/-- The page fault handler answers faults on behalf of the current task, whose end the
policy need not allow. -/
theorem kernelFault_serving (within : policy.Within final) (exit : ∀ T, final.exit T)
    (frames : Kernel → Word → Regs) (depth : Nat) :
    (Kernel.kernelFault frames depth).Answers (Serving policy T₀) (Ended final T₀) ∧
      (Kernel.kernelFault frames depth).Exits (Serving policy T₀) (Ended final T₀) := by
  have exits : ∀ depth, (Kernel.kernelFault frames depth).Exits (Serving policy T₀)
      (Ended final T₀) := by
    intro depth α P k serving
    have answers := kernelFault_answers (J := Ended final T₀) Serving.stable frames
      (fun _ answers => serving_exits exit answers) depth
    exact serving_exits exit answers (serving.mono within)
  exact ⟨kernelFault_answers Serving.stable frames (fun depth _ => exits depth) depth,
    exits depth⟩

/-! ## Killing a task -/

/-- A state that still has the current task and the remarks of the table. -/
def Onward (policy : Table.Policy Word) (T₀ T : Table Word) (newest : Option Word) (k : Kernel) :
    Prop :=
  ∃ T', View k T' ∧ T₀.Run policy T' ∧ T.Goes T' ∧ T'.newest = newest ∧ T'.resumed = false

theorem getTask_live (view : View k T) (pid : Word) :
    (k.getTask pid).All (fun found => ∀ t ∈ found, t ∈ T.live ∧ (k.task t).pid.setWidth 64 = pid)
      fun _ => False := by
  apply Flow.All.ofOption
  intro found result t member
  cases member
  exact ⟨view.live.scan_mem result, by simpa using Chain.scan_found result⟩

theorem View.systemKill {I J : Kernel → Prop} {fault : Fault} (answers : fault.Answers I J)
    (within : ∀ {k}, Serving policy T₀ k → I k) (view : View k T) (run : T₀.Run policy T)
    (current : T.current = T₀.current) (alive : T.dying = false) (busy : T.resumed = false)
    (processId : Word)
    (allowed : ∀ t, k.getTask processId = .next (some t) → policy.kill T t) :
    (k.systemKill fault processId).All (fun result => Onward policy T₀ T T.newest result.1) J := by
  have listed := getTask_live view processId
  unfold Kernel.systemKill
  cases got : k.getTask processId with
  | stuck => trivial
  | left state =>
      rw [got] at listed
      exact listed.elim
  | next found =>
      rw [got] at listed
      cases found with
      | none => exact ⟨T, view, run, .refl T, rfl, busy⟩
      | some t =>
          have run₁ := run.move busy (.kill (listed t rfl).1) (allowed t got)
          have freeing := view.freeTaskStruct (t := t) answers fun viewed =>
            within ⟨_, viewed, run₁, current, busy⟩
          apply Flow.All.bind freeing
          rintro k₂ ⟨mid, free, woken, view₂, _, whole⟩
          have notFree : t ∉ T.free := view.disjoint t (listed t rfl).1
          rw [whole notFree] at view₂
          have run₂ := run₁.move busy woken trivial
          have notLive : t ∉ (T.kill t).live := view.live.nodup.not_mem_erase
          have discarded : Table.Move _ (.discard t) (((T.kill t).withTasks mid).discard t) :=
            .discard notLive alive
          have stopped := view₂.modTask t (fun s => { s with state := .stopped })
            (fun s => { s with state := .stopped }) rfl rfl
          rw [Table.modify_modify] at stopped
          exact ⟨_, stopped, run₂.move busy discarded trivial, ⟨rfl, rfl, rfl, rfl⟩, rfl, busy⟩

/-! ## The creation of a task -/

/-- Where a new task's structure comes from. -/
inductive Table.Takes (T : Table Word) (t : Word) (rest : List Word) : Prop
  | reused (first : T.free = t :: rest)
  | allocated (empty : T.free = []) (nothing : rest = []) (fresh : t ∉ T.known)

theorem View.takeFreeTask (view : View k T) : k.getFreeTask.All
    (fun result => ∃ rest, View result.1 (T.reuse rest) ∧ T.Takes result.2 rest ∧
      result.2 ∉ T.live ∧ result.2 ∉ rest) fun _ => False := by
  unfold Kernel.getFreeTask
  cases list : k.freeTaskList with
  | some t =>
      have linked := view.free
      rw [list] at linked
      rcases linked.eq_cons with ⟨rest, split, behind⟩
      have distinct := linked.nodup
      rw [split] at distinct
      have notLive : t ∉ T.live := by
        intro member
        exact view.disjoint t member (by rw [split]; exact List.mem_cons_self)
      have taken : View { k with freeTaskList := (k.task t).next } (T.reuse rest) := by
        refine ⟨view.live, behind, ?_, view.known, view.liveKnown, view.current, view.pid,
          view.faults, view.proc⟩
        intro x member inside
        exact view.disjoint x member (by rw [split]; exact List.mem_cons_of_mem _ inside)
      exact ⟨rest, taken, .reused split, notLive, (List.nodup_cons.mp distinct).1⟩
  | none =>
      have empty : T.free = [] := by
        have linked := view.free
        rw [list] at linked
        exact linked.eq_nil
      have allocated : (k.kmallocStruct 4520 k.taskStructs).All
          (fun result => View result.1 T ∧ result.2 ∉ T.known) fun _ => False := by
        unfold Kernel.kmallocStruct
        apply Flow.All.bind (P := fun result => View result.1 T)
        · apply Flow.All.bind (P := fun _ => True)
          · exact Flow.All.ofOption fun _ _ => trivial
          · rintro ⟨m, addr⟩ _
            exact view.setMachine m
        · rintro ⟨k₁, addr⟩ view₁
          dsimp only
          split
          · trivial
          · rename_i unused
            exact ⟨view₁, view.known ▸ unused⟩
      apply Flow.All.bind allocated
      rintro ⟨k₁, t⟩ ⟨view₁, fresh⟩
      have extended : k₁.createNewMmstruct.All (fun result => View result.1 T) fun _ => False := by
        apply Flow.All.bind (P := fun result => View result.1 T)
        · apply Flow.All.bind (P := fun result => View result.1 T)
          · apply Flow.All.bind (P := fun _ => True)
            · exact Flow.All.ofOption fun _ _ => trivial
            · rintro ⟨m, addr⟩ _
              exact view₁.setMachine m
          · rintro ⟨k₂, addr⟩ view₂
            dsimp only
            split
            · trivial
            · exact view₂
        · rintro ⟨k₂, mm⟩ view₂
          exact view₂.same rfl rfl rfl
      apply Flow.All.bind extended
      rintro ⟨k₂, mm⟩ view₂
      have equipped : View (k₂.modTask t fun s => { s with mm := mm }) T :=
        view₂.modTask_hidden rfl rfl
      have same : T.reuse [] = T := by rw [Table.reuse, ← empty]
      refine ⟨[], ?_, .allocated empty rfl fresh, fun member => fresh (view.liveKnown t member),
        List.not_mem_nil⟩
      rw [same]
      exact equipped

/-- A task that was initialised while it is in neither list. -/
theorem View.create (view : View k T) {k₁ k₂ : Kernel} (name : List Byte) (listed : Bool)
    (change : TaskStruct → TaskStruct) {m : Machine} (notLive : t ∉ T.live) (notFree : t ∉ T.free)
    (relinked : Relinked k k₁)
    (live : Chain.Linked k₁.nextTask k₁.taskList (if listed then T.live ++ [t] else T.live))
    (free : Chain.Linked k₁.nextTask k₁.freeTaskList T.free)
    (result : k₂ = ({ (k₁.modTask t (Kernel.freshTask (k₁.pid.setWidth 32) name)) with
      pid := k₁.pid + 1, taskStructs := k₁.taskStructs.insert t, m := m }.modTask t change))
    (next : ∀ s, (change s).next = none)
    (proc : ∀ s, (change s).proc =
      { s.proc with r := { s.r with ds := 0x23, fs := 0x23, es := 0x23, gs := 0x23 } }) :
    View k₂ (T.create t listed) := by
  have pid : k₁.pid = T.pid := by rw [relinked.same, view.pid]
  have tasks : ∀ other, other ≠ t → k₂.task other = k₁.task other := by
    intro other different
    rw [result, Kernel.modTask_task_of_ne _ different]
    exact Kernel.modTask_task_of_ne _ different _
  have here : k₂.task t = change (Kernel.freshTask (k₁.pid.setWidth 32) name (k₁.task t)) := by
    rw [result, Kernel.modTask_task_self]
    exact congrArg change (Kernel.modTask_task_self ..)
  have unlinked : k₂.nextTask t = none := by
    unfold Kernel.nextTask
    rw [here, next]
  have others : ∀ other, other ≠ t → k₂.nextTask other = k₁.nextTask other := by
    intro other different
    unfold Kernel.nextTask
    rw [tasks other different]
  have procs : ∀ other, (T.create t listed).proc other = (k₂.task other).proc := by
    intro other
    by_cases same : other = t
    · subst same
      rw [here, proc]
      unfold Table.create
      rw [Table.modify_proc_self, pid, show ({ T with proc := T.proc } : Table Word).proc = T.proc
        from rfl, view.proc, relinked.task]
      rfl
    · unfold Table.create
      rw [Table.modify_proc_of_ne _ same, tasks other same, relinked.task other]
      exact view.proc other
  refine ⟨?_, ?_, ?_, ?_, ?_, ?_, ?_, ?_, procs⟩
  · have heads : k₂.taskList = k₁.taskList := by rw [result]; rfl
    rw [heads]
    apply live.congr
    intro x member
    by_cases same : x = t
    · subst same
      rw [unlinked]
      cases listed with
      | false => exact absurd member notLive
      | true => exact live.last_none.symm
    · exact others x same
  · have heads : k₂.freeTaskList = k₁.freeTaskList := by rw [result]; rfl
    rw [heads]
    apply free.congr
    intro x member
    exact others x (ne_of_mem_of_not_mem member notFree)
  · intro x member inside
    cases listed with
    | false => exact view.disjoint x member inside
    | true =>
        rcases List.mem_append.mp member with before | this
        · exact view.disjoint x before inside
        · rw [List.mem_singleton.mp this] at inside
          exact notFree inside
  · show T.known.insert t = k₂.taskStructs
    rw [result, view.known]
    show _ = k₁.taskStructs.insert t
    rw [relinked.same]
  · intro x member
    show x ∈ T.known.insert t
    rw [List.mem_insert_iff]
    cases listed with
    | false => exact .inr (view.liveKnown x member)
    | true =>
        rcases List.mem_append.mp member with before | this
        · exact .inr (view.liveKnown x before)
        · exact .inl (List.mem_singleton.mp this)
  · show T.current = k₂.currentTask
    rw [result, view.current]
    show _ = k₁.currentTask
    rw [relinked.same]
  · show T.pid + 1 = k₂.pid
    rw [result, ← pid]
    rfl
  · show T.faults = k₂.kernelFaults
    rw [result, view.faults]
    show _ = k₁.kernelFaults
    rw [relinked.same]

/-- `create_new_task`: a structure is taken, and listed unless the task is named `"idle"`. -/
theorem View.createTask {I J : Kernel → Prop} {fault : Fault} (answers : fault.Answers I J)
    (view : View k T) (taskname : CString)
    (inv : ∀ {k' : Kernel} {t : Word} {rest : List Word}, View k' (T.reuse rest) →
      T.Takes t rest → I k') :
    (k.createNewTask fault taskname).All (fun result => ∃ rest mid listed,
      T.Takes result.2 rest ∧ result.2 ∉ T.live ∧ result.2 ∉ rest ∧
      (listed = false ↔ (result.1.task result.2).name = idleName) ∧
      (T.reuse rest).Move .wake ((T.reuse rest).withTasks mid) ∧
      View result.1 (((T.reuse rest).withTasks mid).create result.2 listed)) J := by
  apply Flow.All.bind (view.takeFreeTask.mono (fun _ taken => taken) fun _ => False.elim)
  rintro ⟨k₁, t⟩ ⟨rest, view₁, took, notLive, notFree⟩
  apply Flow.All.bind (Kernel.chars_touches answers.touched (inv view₁ took) taskname 0 stringRounds)
  rintro ⟨k₂, name⟩ touched
  have view₂ := view₁.quiet touched.quiet
  apply Flow.All.bind (P := fun k₃ => ∃ listed : Bool, (listed = false ↔ name = idleName) ∧
    View.Relinked k₂ k₃ ∧
    Chain.Linked k₃.nextTask k₃.taskList (if listed then T.live ++ [t] else T.live) ∧
    Chain.Linked k₃.nextTask k₃.freeTaskList rest)
  · split
    · rename_i idle
      exact ⟨false, by simp [idle], ⟨rfl, fun _ => rfl⟩, view₂.live, view₂.free⟩
    · rename_i busy
      apply (view₂.addToTaskList (t := t) notLive notFree).mono
      · rintro k₃ ⟨relinked, live, free⟩
        exact ⟨true, by simp [busy], relinked, live, free⟩
      · exact fun _ => False.elim
  · rintro k₃ ⟨listed, named, relinked, live, free⟩
    apply Flow.All.bind (P := fun _ => True)
    · exact Flow.All.ofOption fun _ _ => trivial
    · rintro ⟨m, pml4e⟩ _
      have created := view₂.create name listed (t := t) (m := m)
        (fun s => { s with
          pml4e := pml4e, next := none,
          r := { s.r with ds := 0x23, fs := 0x23, es := 0x23, gs := 0x23 } })
        notLive notFree relinked live free rfl (fun _ => rfl) fun _ => rfl
      refine ⟨rest, k₂, listed, took, notLive, notFree, ?_, view₁.wakes_quiet touched.quiet, created⟩
      rw [named]
      simp [Kernel.modTask_task_self, Kernel.freshTask]

theorem Table.Takes.run {rest : List Word} (took : T.Takes t rest) (run : T₀.Run policy T)
    (busy : T.resumed = false) : T₀.Run policy (T.reuse rest) := by
  cases took with
  | reused first => exact run.move busy (.reuse first) trivial
  | allocated empty nothing fresh =>
      rw [nothing, show T.reuse [] = T by rw [Table.reuse, ← empty]]
      exact run

theorem View.createNewTask {I J : Kernel → Prop} {fault : Fault} (answers : fault.Answers I J)
    (within : ∀ {k}, Serving policy T₀ k → I k) (view : View k T) (run : T₀.Run policy T)
    (current : T.current = T₀.current) (busy : T.resumed = false) (taskname : CString)
    (allowed : ∀ T', T'.pid = T.pid → policy.create T') :
    (k.createNewTask fault taskname).All
      (fun result => Onward policy T₀ T (some result.2) result.1) J := by
  apply (view.createTask answers taskname fun viewed took =>
    within ⟨_, viewed, took.run run busy, current, busy⟩).imp
  rintro ⟨k', t⟩ ⟨rest, mid, listed, took, notLive, notFree, -, woken, created⟩
  have run' := (took.run run busy).move busy woken trivial
  exact ⟨_, created, run'.move busy (.create notLive notFree) (allowed _ rfl),
    ⟨rfl, rfl, rfl, rfl⟩, rfl, busy⟩

end Sbrocks.Process
