import Sbrocks.Chain.Linked
import Sbrocks.Process.Answers
import Sbrocks.Process.Table

/-!
# The process table of a kernel

The task list and the free list of a kernel are chains that end and do not meet.
With the tasks' own fields they make its process table, and the functions of the
kernel move that table.
-/

namespace Sbrocks.Process

open Sbrocks.Mmu

/-- What the process table knows of a task structure. -/
def TaskStruct.proc (s : TaskStruct) : Proc Word where
  pid := s.pid
  ppid := s.ppid
  parent := s.parent
  childCount := s.childCount
  waitForChildPid := s.waitForChildPid
  state := s.state
  r := s.r

/-- A kernel with the given process table. -/
structure View (k : Kernel) (T : Table Word) : Prop where
  live : Chain.Linked k.nextTask k.taskList T.live
  free : Chain.Linked k.nextTask k.freeTaskList T.free
  disjoint : ∀ t ∈ T.live, t ∉ T.free
  known : T.known = k.taskStructs
  liveKnown : ∀ t ∈ T.live, t ∈ T.known
  current : T.current = k.currentTask
  pid : T.pid = k.pid
  faults : T.faults = k.kernelFaults
  proc : ∀ t, T.proc t = (k.task t).proc

/-- The table with the tasks of a kernel. -/
def Table.withTasks (T : Table Word) (k : Kernel) : Table Word :=
  { T with proc := fun t => (k.task t).proc, faults := k.kernelFaults }

@[simp]
theorem Table.withTasks_current (T : Table Word) (k : Kernel) : (T.withTasks k).current = T.current :=
  rfl

@[simp]
theorem Table.withTasks_dying (T : Table Word) (k : Kernel) : (T.withTasks k).dying = T.dying :=
  rfl

@[simp]
theorem Table.withTasks_resumed (T : Table Word) (k : Kernel) : (T.withTasks k).resumed = T.resumed :=
  rfl

@[simp]
theorem Table.withTasks_forking (T : Table Word) (k : Kernel) : (T.withTasks k).forking = T.forking :=
  rfl

@[simp]
theorem Table.withTasks_newest (T : Table Word) (k : Kernel) : (T.withTasks k).newest = T.newest :=
  rfl

@[simp]
theorem Table.withTasks_live (T : Table Word) (k : Kernel) : (T.withTasks k).live = T.live :=
  rfl

namespace View

variable {k k' : Kernel} {T : Table Word} {t : Word}

/-! ## Changes that keep the lists -/

/-- Changes to other things than tasks. -/
theorem same (view : View k T) (task : k'.task = k.task) (heads : k'.heads = k.heads)
    (faults : k'.kernelFaults = k.kernelFaults) : View k' T where
  live := by
    rw [show k'.taskList = k.taskList from congrArg Heads.taskList heads,
      show k'.nextTask = k.nextTask by unfold Kernel.nextTask; rw [task]]
    exact view.live
  free := by
    rw [show k'.freeTaskList = k.freeTaskList from congrArg Heads.freeTaskList heads,
      show k'.nextTask = k.nextTask by unfold Kernel.nextTask; rw [task]]
    exact view.free
  disjoint := view.disjoint
  known := view.known.trans (congrArg Heads.taskStructs heads).symm
  liveKnown := view.liveKnown
  current := view.current.trans (congrArg Heads.currentTask heads).symm
  pid := view.pid.trans (congrArg Heads.pid heads).symm
  faults := view.faults.trans faults.symm
  proc t := by rw [view.proc, task]

/-- Changes to tasks that keep their links. -/
theorem tasks (view : View k T) (next : ∀ t, (k'.task t).next = (k.task t).next)
    (heads : k'.heads = k.heads) : View k' (T.withTasks k') where
  live := by
    rw [show k'.taskList = k.taskList from congrArg Heads.taskList heads,
      show k'.nextTask = k.nextTask from funext next]
    exact view.live
  free := by
    rw [show k'.freeTaskList = k.freeTaskList from congrArg Heads.freeTaskList heads,
      show k'.nextTask = k.nextTask from funext next]
    exact view.free
  disjoint := view.disjoint
  known := view.known.trans (congrArg Heads.taskStructs heads).symm
  liveKnown := view.liveKnown
  current := view.current.trans (congrArg Heads.currentTask heads).symm
  pid := view.pid.trans (congrArg Heads.pid heads).symm
  faults := rfl
  proc _ := rfl

theorem quiet (view : View k T) (quiet : Quiet k k') : View k' (T.withTasks k') :=
  view.tasks (fun t => by rw [quiet.task t]) quiet.heads

theorem wakes_quiet (view : View k T) (quiet : Quiet k k') : T.Move .wake (T.withTasks k') := by
  apply Table.Move.wake
  · intro t
    rw [view.proc t, quiet.task t]
    rfl
  · intro t
    rw [view.proc t]
    exact quiet.state t
  · intro t elsewhere
    rw [view.proc t]
    exact quiet.others t (view.current ▸ elsewhere)
  · rw [view.faults]
    rcases quiet.frame with ⟨faults, same⟩ | ⟨faults, t, running, kernel⟩
    · refine .inl ⟨faults, fun t => ?_⟩
      rw [view.proc t]
      exact same t
    · exact .inr ⟨faults, t, view.current.trans running, kernel⟩

theorem aged (view : View k T) (aged : Aged k k') : View k' (T.withTasks k') := by
  apply view.tasks aged.next
  rw [aged.same]
  rfl

theorem wakes_aged (view : View k T) (aged : Aged k k') : T.Move .wake (T.withTasks k') := by
  apply Table.Move.wake
  · intro t
    rcases aged.task t with ⟨state, sleepTime, same⟩
    rw [view.proc t, same]
    rfl
  · intro t
    rw [view.proc t]
    exact aged.state t
  · intro t _
    rw [view.proc t]
    exact aged.frame t
  · refine .inl ⟨?_, fun t => ?_⟩
    · rw [view.faults]
      exact aged.kernelFaults
    · rw [view.proc t]
      exact aged.frame t

theorem modTask (view : View k T) (t : Word) (change : TaskStruct → TaskStruct)
    (change' : Proc Word → Proc Word) (next : (change (k.task t)).next = (k.task t).next)
    (proc : (change (k.task t)).proc = change' (k.task t).proc) :
    View (k.modTask t change) (T.modify t change') := by
  have viewed : View (k.modTask t change) (T.withTasks (k.modTask t change)) :=
    view.tasks (fun other => k.modTask_task_field TaskStruct.next t other next) rfl
  have tables : T.modify t change' = T.withTasks (k.modTask t change) := by
    have procs : (T.modify t change').proc = fun other => ((k.modTask t change).task other).proc := by
      funext other
      by_cases same : other = t
      · rw [same, T.modify_proc_self, k.modTask_task_self, view.proc, proc]
      · rw [T.modify_proc_of_ne same, k.modTask_task_of_ne same, view.proc]
    have faults : T.faults = (k.modTask t change).kernelFaults := view.faults
    unfold Table.modify Table.withTasks at *
    simp only at procs
    rw [procs, ← faults]
  rw [tables]
  exact viewed

/-- A change that the process table does not see. -/
theorem modTask_hidden (view : View k T) {change : TaskStruct → TaskStruct}
    (next : (change (k.task t)).next = (k.task t).next)
    (proc : (change (k.task t)).proc = (k.task t).proc) : View (k.modTask t change) T where
  live := by
    rw [show (k.modTask t change).nextTask = k.nextTask from
      funext fun other => k.modTask_task_field TaskStruct.next t other next]
    exact view.live
  free := by
    rw [show (k.modTask t change).nextTask = k.nextTask from
      funext fun other => k.modTask_task_field TaskStruct.next t other next]
    exact view.free
  disjoint := view.disjoint
  known := view.known
  liveKnown := view.liveKnown
  current := view.current
  pid := view.pid
  faults := view.faults
  proc other := by
    rw [view.proc, k.modTask_task_field TaskStruct.proc t other proc]

theorem setCurrentTask (view : View k T) (current : Option Word) :
    View (k.setCurrentTask current) { T with current := current } where
  live := view.live
  free := view.free
  disjoint := view.disjoint
  known := view.known
  liveKnown := view.liveKnown
  current := rfl
  pid := view.pid
  faults := view.faults
  proc := view.proc

theorem setMachine (view : View k T) (m : Machine) : View (k.setMachine m) T :=
  view.same rfl rfl rfl

/-- The table's own remarks are not about the kernel. -/
theorem remark (view : View k T) (dying resumed : Bool) (forking newest : Option Word) :
    View k { T with dying := dying, forking := forking, newest := newest, resumed := resumed } where
  live := view.live
  free := view.free
  disjoint := view.disjoint
  known := view.known
  liveKnown := view.liveKnown
  current := view.current
  pid := view.pid
  faults := view.faults
  proc := view.proc

theorem saveFrame (view : View k T) (r : Regs) : View (k.saveFrame r) (T.saveCurrent r) := by
  unfold Kernel.saveFrame Table.saveCurrent
  rw [view.current]
  cases k.currentTask with
  | none => exact view
  | some current => exact view.modTask current (fun s => { s with r := r }) _ rfl rfl

/-! ## The scheduler -/

theorem preempt (view : View k T) : View k.preempt T.preempt := by
  unfold Kernel.preempt Table.preempt
  rw [view.current]
  cases k.currentTask with
  | none => exact view
  | some current =>
      exact view.modTask current (fun s => { s with state := .runnable }) _ rfl rfl

theorem dispatch (view : View k T) (t : Word) : View (k.preempt.dispatch t) (T.dispatch t) := by
  have running := (view.preempt.setCurrentTask (some t)).modTask t
    (fun s => { s with state := .running }) (fun s => { s with state := .running }) rfl rfl
  have loaded := running.setMachine (((k.preempt.setCurrentTask (some t)).modTask t fun s =>
    { s with state := .running }).m.writeCr3 (k.preempt.m.virtToPhy
      (((k.preempt.setCurrentTask (some t)).modTask t fun s =>
        { s with state := .running }).task t).pml4e))
  have started := loaded.modTask t
    (fun s => { s with r := { s.r with ss := 0x23, cs := 0x1b, rflag := 0x200 } })
    (fun s => { s with r := { s.r with ss := 0x23, cs := 0x1b, rflag := 0x200 } }) rfl rfl
  rw [Table.modify_modify] at started
  exact started.remark T.preempt.dying true T.preempt.forking T.preempt.newest

/-- What the scheduler picks is a live task, as long as the current one is. -/
theorem getNextTask_listed (view : View k T) :
    (k.getNextTask k.currentTask).All
      (fun found => ∀ task ∈ found, (∀ current ∈ T.current, current ∈ T.live) → task ∈ T.live)
      fun _ => False := by
  cases current : k.currentTask with
  | none =>
      intro task member _
      rw [Option.mem_def] at member
      have linked := view.live
      rw [member] at linked
      rcases linked.eq_cons with ⟨rest, same, _⟩
      rw [same]
      exact List.mem_cons_self
  | some running =>
      have here : T.current = some running := view.current.trans current
      apply Flow.All.bind (P := fun found => ∀ task ∈ found,
        (∀ current ∈ T.current, current ∈ T.live) → task ∈ T.live)
      · apply Flow.All.ofOption
        intro found result task member live
        cases member
        rcases List.append_of_mem (live running here) with ⟨front, back, same⟩
        have behind := (same ▸ view.live : Chain.Linked _ _ (front ++ running :: back)).after
        rw [same]
        exact List.mem_append_right _ (List.mem_cons_of_mem _ (behind.scan_mem result))
      · intro after inside
        cases after with
        | some task => exact inside
        | none =>
            apply Flow.All.ofOption
            intro found result task member _
            cases member
            exact view.live.scan_mem result

theorem scheduleProcess (view : View k T) (alive : T.dying = false) :
    k.scheduleProcess.All
      (fun k' => View k' T ∨ ∃ t, T.Move (.dispatch t) (T.dispatch t) ∧ View k' (T.dispatch t))
      fun _ => False := by
  have listed := view.getNextTask_listed
  have others := Kernel.scheduleProcess_cases k
  unfold Kernel.scheduleProcess at others ⊢
  cases current : k.currentTask with
  | none =>
      rw [current] at listed others
      apply Flow.All.bind listed
      intro found inside
      cases found with
      | none => exact .inl view
      | some task =>
          have idle : k.preempt = k := by rw [Kernel.preempt, current]
          have dispatched := view.dispatch task
          rw [idle] at dispatched
          refine .inr ⟨task, .dispatch ?_ (inside task rfl) alive, dispatched⟩
          rw [view.current, current]
          exact nofun
  | some running =>
      rw [current] at listed
      apply Flow.All.bind (P := fun found => ∀ task ∈ found, task ≠ running ∧
        ((∀ current ∈ T.current, current ∈ T.live) → task ∈ T.live))
      · have different := Kernel.getNextTask_dispatchable k running
        cases picked : k.getNextTask (some running) with
        | left state =>
            rw [picked] at listed
            exact listed
        | stuck => trivial
        | next found =>
            rw [picked] at listed different
            intro task member
            exact ⟨(different task member).1, listed task member⟩
      · intro found inside
        cases found with
        | none => exact .inl view
        | some task =>
            have busy : k.preempt = k.modTask running fun s => { s with state := .runnable } := by
              rw [Kernel.preempt, current]
            have dispatched := view.dispatch task
            rw [busy] at dispatched
            refine .inr ⟨task, .dispatch ?_ (inside task rfl).2 alive, dispatched⟩
            rw [view.current, current]
            intro same
            exact (inside task rfl).1 (Option.some.inj same).symm

/-! ## Linking and unlinking -/

/-- A change of a task is a change of its link. -/
theorem nextTask_modTask (k : Kernel) (t : Word) (change : TaskStruct → TaskStruct) :
    (k.modTask t change).nextTask = Function.update k.nextTask t (change (k.task t)).next := by
  funext other
  unfold Kernel.nextTask
  by_cases here : other = t
  · subst here
    rw [Kernel.modTask_task_self, Function.update_self]
  · rw [Kernel.modTask_task_of_ne _ here, Function.update_of_ne here]

/-- The links after a task was linked behind the last one of a chain. -/
theorem nextTask_push (k : Kernel) (last t : Word) :
    ((k.modTask last fun s => { s with next := some t }).modTask t fun s =>
      { s with next := none }).nextTask =
      Function.update (Function.update k.nextTask last (some t)) t none := by
  rw [nextTask_modTask, nextTask_modTask]

/-- Changes of links and lists only. -/
structure Relinked (k k' : Kernel) : Prop where
  same : k' = { k with taskList := k'.taskList, freeTaskList := k'.freeTaskList, task := k'.task }
  task : ∀ t, k'.task t = { k.task t with next := (k'.task t).next }

theorem Relinked.trans {k'' : Kernel} (first : Relinked k k') (second : Relinked k' k'') :
    Relinked k k'' where
  same := by
    have step := second.same
    rw [first.same] at step
    exact step
  task t := by rw [second.task t, first.task t]

theorem relinked_modTask (k : Kernel) (t : Word) (link : Option Word) :
    Relinked k (k.modTask t fun s => { s with next := link }) := by
  refine ⟨rfl, fun other => ?_⟩
  by_cases here : other = t
  · subst here
    rw [Kernel.modTask_task_self]
  · rw [Kernel.modTask_task_of_ne _ here]

theorem relinked_push (k : Kernel) (last t : Word) :
    Relinked k ((k.modTask last fun s => { s with next := some t }).modTask t fun s =>
      { s with next := none }) :=
  (relinked_modTask k last (some t)).trans (relinked_modTask _ t none)

/-- `add_to_task_list` of a task that is in neither list. -/
theorem addToTaskList (view : View k T) (notLive : t ∉ T.live) (notFree : t ∉ T.free) :
    (k.addToTaskList t).All
      (fun k' => Relinked k k' ∧ Chain.Linked k'.nextTask k'.taskList (T.live ++ [t]) ∧
        Chain.Linked k'.nextTask k'.freeTaskList T.free) fun _ => False := by
  unfold Kernel.addToTaskList
  cases list : k.taskList with
  | none =>
      have linked := view.live
      rw [list] at linked
      have nextTask := nextTask_modTask { k with taskList := some t } t fun s =>
        { s with next := none }
      have headed : Relinked k { k with taskList := some t } := ⟨rfl, fun _ => rfl⟩
      refine ⟨headed.trans (relinked_modTask _ t none), ?_, ?_⟩
      · rw [nextTask, linked.eq_nil]
        exact ⟨rfl, Function.update_self ..⟩
      · rw [nextTask]
        apply view.free.congr
        intro x member
        exact Function.update_of_ne (ne_of_mem_of_not_mem member notFree) ..
  | some first =>
      have linked := view.live
      rw [list] at linked
      apply Flow.All.bind (P := fun last => ∃ front, T.live = front ++ [last])
      · exact Flow.All.ofOption fun last result => linked.last_eq result
      · rintro last ⟨front, split⟩
        refine ⟨relinked_push k last t, ?_, ?_⟩
        · rw [nextTask_push]
          show Chain.Linked _ k.taskList _
          rw [split] at notLive linked ⊢
          rw [list]
          exact linked.push notLive
        · rw [nextTask_push]
          apply view.free.congr
          intro x member
          have away : x ≠ last := by
            rintro rfl
            exact view.disjoint x (by rw [split]; simp) member
          rw [Function.update_of_ne (ne_of_mem_of_not_mem member notFree),
            Function.update_of_ne away]

/-- `add_to_free_task_list` of a task that is not live. -/
theorem addToFreeTaskList (view : View k T) (notLive : t ∉ T.live) :
    (k.addToFreeTaskList t).All
      (fun k' => Relinked k k' ∧ ∃ free, View k' { T with free := free } ∧
        (∀ s ∈ free, s ∈ T.free ∨ s = t) ∧ (t ∉ T.free → free = T.free ++ [t])) fun _ => False := by
  unfold Kernel.addToFreeTaskList
  cases list : k.freeTaskList with
  | none =>
      have linked := view.free
      rw [list] at linked
      have empty := linked.eq_nil
      have nextTask := nextTask_modTask { k with freeTaskList := some t } t fun s =>
        { s with next := none }
      have headed : Relinked k { k with freeTaskList := some t } := ⟨rfl, fun _ => rfl⟩
      have relinked := headed.trans (relinked_modTask _ t none)
      refine ⟨relinked, [t], ?_, ?_, ?_⟩
      · refine ⟨?_, ?_, ?_, view.known, view.liveKnown, view.current, view.pid, view.faults, ?_⟩
        · rw [nextTask]
          apply view.live.congr
          intro x member
          exact Function.update_of_ne (ne_of_mem_of_not_mem member notLive) ..
        · rw [nextTask]
          exact ⟨rfl, Function.update_self ..⟩
        · intro x member again
          rw [List.mem_singleton.mp again] at member
          exact notLive member
        · intro other
          rw [relinked.task other]
          exact view.proc other
      · intro x member
        exact .inr (List.mem_singleton.mp member)
      · intro _
        rw [empty]
        rfl
  | some first =>
      have linked := view.free
      rw [list] at linked
      apply Flow.All.bind (P := fun last => ∃ front, T.free = front ++ [last])
      · exact Flow.All.ofOption fun last result => linked.last_eq result
      · rintro last ⟨front, split⟩
        have relinked := relinked_push k last t
        have liveKept : Chain.Linked (Function.update (Function.update k.nextTask last (some t)) t
            none) k.taskList T.live := by
          apply view.live.congr
          intro x member
          have away : x ≠ last := by
            rintro rfl
            exact view.disjoint x member (by rw [split]; simp)
          rw [Function.update_of_ne (ne_of_mem_of_not_mem member notLive),
            Function.update_of_ne away]
        have build : ∀ free, Chain.Linked (Function.update (Function.update k.nextTask last (some t))
            t none) (some first) free → (∀ x ∈ T.live, x ∉ free) →
            View ((k.modTask last fun s => { s with next := some t }).modTask t fun s =>
              { s with next := none }) { T with free := free } := by
          intro free chain apart
          refine ⟨?_, ?_, apart, view.known, view.liveKnown, view.current, view.pid, view.faults, ?_⟩
          · rw [nextTask_push]
            exact liveKept
          · rw [nextTask_push]
            show Chain.Linked _ k.freeTaskList _
            rw [list]
            exact chain
          · intro other
            rw [relinked.task other]
            exact view.proc other
        refine ⟨relinked, ?_⟩
        by_cases again : t ∈ T.free
        · -- a structure that is freed twice cuts off what was freed after it
          rcases List.append_of_mem again with ⟨kept, cut, here⟩
          have lastCut : last ∈ t :: cut := by
            have ends := congrArg List.getLast? (here.symm.trans split)
            simp only [List.getLast?_append, List.getLast?_singleton, Option.some_or] at ends
            have inside : (t :: cut).getLast? = some last := by
              cases gone : (t :: cut).getLast? with
              | none => simp at gone
              | some l =>
                  rw [gone] at ends
                  exact ends
            exact List.mem_of_getLast? inside
          rw [here] at linked
          refine ⟨kept ++ [t], build _ (linked.requeue lastCut) ?_, ?_, ?_⟩
          · intro x member inside
            rcases List.mem_append.mp inside with before | this
            · exact view.disjoint x member (by rw [here]; exact List.mem_append_left _ before)
            · rw [List.mem_singleton.mp this] at member
              exact notLive member
          · intro x inside
            rcases List.mem_append.mp inside with before | this
            · exact .inl (by rw [here]; exact List.mem_append_left _ before)
            · exact .inr (List.mem_singleton.mp this)
          · intro absent
            exact absurd again absent
        · have fresh : t ∉ front ++ [last] := split ▸ again
          rw [split] at linked
          refine ⟨front ++ [last] ++ [t], build _ (linked.push fresh) ?_, ?_, ?_⟩
          · intro x member inside
            rcases List.mem_append.mp inside with before | this
            · exact view.disjoint x member (by rw [split]; exact before)
            · rw [List.mem_singleton.mp this] at member
              exact notLive member
          · intro x inside
            rcases List.mem_append.mp inside with before | this
            · exact .inl (by rw [split]; exact before)
            · exact .inr (List.mem_singleton.mp this)
          · intro _
            rw [split]

/-- `remove_from_task_list`. -/
theorem removeFromTaskList (view : View k T) :
    (k.removeFromTaskList t).All (fun k' => View k' (T.kill t)) fun _ => False := by
  have stopped := view.modTask t (fun s => { s with state := .stopped })
    (fun s => { s with state := .stopped }) rfl rfl
  have absent : t ∉ T.live → View (k.modTask t fun s => { s with state := .stopped })
      (T.kill t) := by
    intro notLive
    unfold Table.kill
    rw [List.erase_of_not_mem notLive]
    exact stopped
  unfold Kernel.removeFromTaskList
  dsimp only
  cases list : k.taskList with
  | none =>
      have linked := view.live
      rw [list] at linked
      rw [show (k.modTask t fun s => { s with state := .stopped }).taskList = none from list]
      apply absent
      rw [linked.eq_nil]
      exact List.not_mem_nil
  | some first =>
      rw [show (k.modTask t fun s => { s with state := .stopped }).taskList = some first from list]
      have linked := stopped.live
      rw [show (k.modTask t fun s => { s with state := .stopped }).taskList = some first from list]
        at linked
      have distinct := linked.nodup
      rcases linked.eq_cons with ⟨rest, split, behind⟩
      have live : T.live = first :: rest := split
      dsimp only
      by_cases head : first = t
      · subst head
        rw [if_pos rfl]
        have erased : T.live.erase first = rest := by rw [live, List.erase_cons_head]
        refine ⟨?_, stopped.free, ?_, view.known, ?_, view.current, view.pid,
          view.faults, stopped.proc⟩
        · show Chain.Linked _ _ (T.live.erase first)
          rw [erased]
          exact behind
        · intro x member
          exact view.disjoint x (List.mem_of_mem_erase member)
        · intro x member
          exact view.liveKnown x (List.mem_of_mem_erase member)
      · rw [if_neg head]
        apply Flow.All.bind (P := fun found : Option Word => found.elim (t ∉ T.live) fun p =>
          ∃ front back, T.live = front ++ p :: t :: back)
        · apply Flow.All.ofOption
          intro found result
          cases found with
          | none =>
              show t ∉ T.live
              rw [split] at linked
              have later := linked.before_none result
              intro member
              rw [live] at member
              rcases List.mem_cons.mp member with here | inside
              · exact head here.symm
              · exact later inside
          | some p => exact linked.before_eq result
        · intro found place
          cases found with
          | none => exact absent place
          | some p =>
              rcases place with ⟨front, back, place⟩
              have erased : T.live.erase t = front ++ p :: back := by
                have distinct' : (front ++ p :: t :: back).Nodup := place ▸ view.live.nodup
                rw [place]
                have notFront : t ∉ front := by
                  intro member
                  exact (List.nodup_append.mp distinct').2.2 t member t (by simp) rfl
                have notP : p ≠ t := by
                  rintro rfl
                  have := (List.nodup_append.mp distinct').2.1
                  simp at this
                rw [List.erase_append_right _ notFront, List.erase_cons_tail (by simpa using notP),
                  List.erase_cons_head]
              have nextTask := nextTask_modTask (k.modTask t fun s => { s with state := .stopped }) p
                fun s => { s with next := (k.modTask t fun s =>
                  { s with state := .stopped }).nextTask t }
              have pLive : p ∈ T.live := by rw [place]; simp
              refine ⟨?_, ?_, ?_, view.known, ?_, view.current, view.pid, view.faults, ?_⟩
              · rw [nextTask]
                show Chain.Linked _ k.taskList (T.live.erase t)
                rw [erased, list]
                have whole : T.live = front ++ p :: t :: back := place
                rw [show (T.modify t fun s => { s with state := .stopped }).live = T.live from rfl,
                  whole] at linked
                exact linked.unlink
              · rw [nextTask]
                apply stopped.free.congr
                intro x member
                apply Function.update_of_ne
                rintro rfl
                exact view.disjoint x pLive member
              · intro x member
                exact view.disjoint x (List.mem_of_mem_erase member)
              · intro x member
                exact view.liveKnown x (List.mem_of_mem_erase member)
              · intro other
                rw [show (T.kill t).proc = (T.modify t fun s => { s with state := .stopped }).proc
                  from rfl, stopped.proc other]
                symm
                exact Kernel.modTask_task_field _ TaskStruct.proc p other rfl

end View

end Sbrocks.Process
