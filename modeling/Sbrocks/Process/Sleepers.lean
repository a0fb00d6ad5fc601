import Sbrocks.Chain.Linked
import Sbrocks.Process.Still

/-!
# Sleepers

A task that sleeps is counted down by the ticks that find it in the task list, and is left
alone by everything else, except that the end of a child wakes it and that a task which gives
up the processor hands it to the first of the list.
-/

namespace Sbrocks.Process

open Sbrocks.Mmu

/-- A task sleeps for some more seconds. -/
structure Asleep (k : Kernel) (t rest : Word) : Prop where
  state : (k.task t).state = .sleep
  sleepTime : (k.task t).sleepTime = rest

/-- A task may run, or does. -/
def Awake (k : Kernel) (t : Word) : Prop :=
  (k.task t).state = .runnable ∨ (k.task t).state = .running ∧ k.currentTask = some t

/-- What a second does to a sleeper, if one has begun. -/
inductive Slept (t rest : Word) (k k' : Kernel) : Prop
  | still (clock : k'.timer.prevSecs = k.timer.prevSecs) (asleep : Asleep k' t rest)
      (away : k'.currentTask ≠ some t)
  | counted (clock : k'.timer.prevSecs ≠ k.timer.prevSecs) (more : rest ≠ 0)
      (asleep : Asleep k' t (rest - 1)) (away : k'.currentTask ≠ some t)
  | woken (clock : k'.timer.prevSecs ≠ k.timer.prevSecs) (due : rest = 0) (awake : Awake k' t)

/-- A task of the task list. -/
def Listed (k : Kernel) (t : Word) : Prop :=
  ∃ tasks, Chain.Linked k.nextTask k.taskList tasks ∧ t ∈ tasks

/-- The first task of the list has been dispatched. -/
def Headed (k : Kernel) (t : Word) : Prop :=
  k.taskList = some t ∧ k.currentTask = some t

variable {k k' mid : Kernel} {t rest : Word}

theorem Listed.same (listed : Listed k t) (next : ∀ s, (k'.task s).next = (k.task s).next)
    (taskList : k'.taskList = k.taskList) : Listed k' t := by
  rcases listed with ⟨tasks, linked, inside⟩
  refine ⟨tasks, ?_, inside⟩
  rw [taskList]
  exact linked.congr fun s _ => next s

theorem Asleep.same (asleep : Asleep k t rest) (state : (k'.task t).state = (k.task t).state)
    (sleepTime : (k'.task t).sleepTime = (k.task t).sleepTime) : Asleep k' t rest :=
  ⟨state.trans asleep.state, sleepTime.trans asleep.sleepTime⟩

/-- Nothing happens to a sleeper that is not dispatched. -/
theorem Slept.same (slept : Slept t rest k mid) (before : mid.currentTask ≠ some t)
    (state : (k'.task t).state = (mid.task t).state)
    (sleepTime : (k'.task t).sleepTime = (mid.task t).sleepTime)
    (clock : k'.timer.prevSecs = mid.timer.prevSecs) (away : k'.currentTask ≠ some t) :
    Slept t rest k k' := by
  cases slept with
  | still clock' asleep _ => exact .still (clock.trans clock') (asleep.same state sleepTime) away
  | counted clock' more asleep _ =>
      exact .counted (clock ▸ clock') more (asleep.same state sleepTime) away
  | woken clock' due awake =>
      have runnable := awake.resolve_right fun runs => before runs.2
      exact .woken (clock ▸ clock') due (.inl (state.trans runnable))

/-! ## A tick -/

namespace Kernel

/-- The loop counts every task of the list once. -/
theorem updateTimeSlicesLoop_task {start : Option Word} {tasks : List Word} {rounds : Nat}
    (linked : Chain.Linked k.nextTask start tasks) :
    (k.updateTimeSlicesLoop start rounds).All (fun k' => k'.task t =
      if t ∈ tasks then updateTimeSlice (k.task t) else k.task t) fun _ => False := by
  have once := linked.nodup
  induction tasks generalizing k start rounds with
  | nil =>
      cases linked
      cases rounds with
      | zero => trivial
      | succ rounds => rfl
  | cons s tasks ih =>
      rcases linked with ⟨rfl, linked⟩
      rw [List.nodup_cons] at once
      cases rounds with
      | zero => trivial
      | succ rounds =>
          have next := (modTask_updateTimeSlice_aged k s).next
          have linked' : Chain.Linked (k.modTask s updateTimeSlice).nextTask
              ((k.modTask s updateTimeSlice).nextTask s) tasks := by
            rw [show (k.modTask s updateTimeSlice).nextTask s = k.nextTask s from next s]
            exact linked.congr fun x _ => next x
          apply (ih linked' once.2).imp
          intro k' counted
          rw [counted]
          by_cases here : t = s
          · subst here
            rw [if_neg once.1, if_pos List.mem_cons_self, modTask_task_self]
          · rw [modTask_task_of_ne k here]
            simp [here]

theorem newSecond_prevSecs (timer : Timer) (secs : BitVec 32) :
    (newSecond timer secs).prevSecs = secs := by
  unfold newSecond
  dsimp only
  split
  · split
    · split <;> rfl
    · rfl
  · rfl

/-- A tick counts a sleeper of the list when a second begins. -/
theorem countTick_slept (asleep : Asleep k t rest) (listed : Listed k t)
    (away : k.currentTask ≠ some t) : k.countTick.All (Slept t rest k) fun _ => False := by
  rcases listed with ⟨tasks, linked, inside⟩
  unfold countTick
  dsimp only
  split
  · rename_i begun
    obtain ⟨ticked, same⟩ : ∃ ticked, ticked =
        { k with timer := { k.timer with timerTicks := k.timer.timerTicks + 1 } } := ⟨_, rfl⟩
    have tasks' : ticked.task = k.task ∧ ticked.currentTask = k.currentTask := by
      rw [same]
      exact ⟨rfl, rfl⟩
    have linked' : Chain.Linked ticked.nextTask ticked.taskList tasks := by
      rw [same]
      exact linked
    have counts : ticked.updateTimeSlices.All
        (fun k' => k'.task t = updateTimeSlice (k.task t) ∧ k'.currentTask = k.currentTask)
        fun _ => False := by
      have loop : ticked.updateTimeSlices.All (fun k' => k'.task t =
          if t ∈ tasks then updateTimeSlice (ticked.task t) else ticked.task t) fun _ => False :=
        updateTimeSlicesLoop_task linked'
      have aged : ticked.updateTimeSlices.All (Aged ticked) fun _ => False :=
        updateTimeSlicesLoop_aged ticked ticked.taskList _
      cases done : ticked.updateTimeSlices with
      | stuck => trivial
      | left state =>
          rw [done] at loop
          exact loop
      | next k' =>
          have task := loop.of_next done
          rw [if_pos inside, tasks'.1] at task
          exact ⟨task, (aged.of_next done).currentTask.trans tasks'.2⟩
    rw [← same]
    apply counts.bind
    rintro k₁ ⟨task, current⟩
    have clock : (newSecond k₁.timer ((k.timer.timerTicks + 1).sdiv 100)).prevSecs ≠
        k.timer.prevSecs := by
      rw [newSecond_prevSecs]
      exact begun.2.symm
    unfold updateTimeSlice at task
    rw [if_pos asleep.state] at task
    by_cases due : rest = 0
    · rw [if_pos (asleep.sleepTime.trans due)] at task
      refine .woken clock due (.inl ?_)
      show (k₁.task t).state = _
      rw [task]
    · rw [if_neg (by rw [asleep.sleepTime]; exact due)] at task
      refine .counted clock due ⟨?_, ?_⟩ ?_
      · show (k₁.task t).state = _
        rw [task]
        exact asleep.state
      · show (k₁.task t).sleepTime = _
        rw [task]
        exact congrArg (· - 1) asleep.sleepTime
      · show k₁.currentTask ≠ some t
        rw [current]
        exact away
  · exact .still rfl ⟨asleep.state, asleep.sleepTime⟩ away

/-- The scheduler dispatches a sleeper only as the first of the list. -/
theorem scheduleProcess_slept (slept : Slept t rest k mid) (away : mid.currentTask ≠ some t) :
    mid.scheduleProcess.All (fun k' => Slept t rest k k' ∨
      mid.currentTask = none ∧ Headed k' t) fun _ => False := by
  have others : ∀ k₁ : Kernel, ∀ s, s ≠ t → (k₁.task t).state = (mid.task t).state →
      (k₁.task t).sleepTime = (mid.task t).sleepTime → k₁.timer = mid.timer →
      Slept t rest k (k₁.dispatch s) := by
    intro k₁ s other state sleepTime timer
    have same := k₁.dispatch_task_of_ne (Ne.symm other)
    refine slept.same away ?_ ?_ ?_ ?_
    · rw [same, state]
    · rw [same, sleepTime]
    · show k₁.timer.prevSecs = _
      rw [timer]
    · show some s ≠ some t
      exact fun equal => other (Option.some.inj equal)
  unfold scheduleProcess
  cases current : mid.currentTask with
  | none =>
      unfold getNextTask
      dsimp only [Flow.next_bind]
      cases head : mid.taskList with
      | none => exact .inl slept
      | some first =>
          by_cases here : first = t
          · subst here
            exact .inr ⟨rfl, head, rfl⟩
          · exact .inl (others mid first here rfl rfl rfl)
  | some running =>
      rw [current] at away
      apply (getNextTask_dispatchable mid running).bind
      intro found dispatchable
      cases found with
      | none => exact .inl slept
      | some task =>
          left
          have different : t ≠ running := fun same => away (congrArg some same.symm)
          have same := mid.modTask_task_of_ne different fun s => { s with state := .runnable }
          by_cases here : task = t
          · subst here
            have runnable := (dispatchable task rfl).2
            cases slept with
            | still clock asleep _ =>
                rw [asleep.state] at runnable
                cases runnable
            | counted clock more asleep _ =>
                rw [asleep.state] at runnable
                cases runnable
            | woken clock due _ =>
                refine .woken clock due (.inr ⟨?_, rfl⟩)
                rw [dispatch_task_self]
          · exact others _ task here (by rw [same]) (by rw [same]) rfl

/-- A tick leaves the lists alone. -/
theorem tick_lists (k : Kernel) : (k.countTick >>= scheduleProcess).All (fun k' =>
    (∀ s, (k'.task s).next = (k.task s).next) ∧ k'.taskList = k.taskList) fun _ => False := by
  apply (countTick_aged k).bind
  intro mid aged
  have heads : mid.taskList = k.taskList := by rw [aged.same]
  apply (scheduleProcess_cases mid).mono _ fun _ => id
  rintro k' (rfl | ⟨task, _, rfl⟩)
  · exact ⟨aged.next, heads⟩
  · have preempted : (∀ s, (mid.preempt.task s).next = (mid.task s).next) ∧
        mid.preempt.taskList = mid.taskList := by
      unfold preempt
      split
      · exact ⟨fun _ => rfl, rfl⟩
      · exact ⟨fun s => mid.modTask_task_field TaskStruct.next _ s rfl, rfl⟩
    refine ⟨fun s => ?_, preempted.2.trans heads⟩
    rw [← aged.next s, ← preempted.1 s]
    by_cases here : s = task
    · rw [here, dispatch_task_self]
    · rw [dispatch_task_of_ne _ here]

/-- A tick, for a sleeper that is in the list. -/
theorem tick_slept (asleep : Asleep k t rest) (listed : Listed k t)
    (away : k.currentTask ≠ some t) : (k.countTick >>= scheduleProcess).All
      (fun k' => Slept t rest k k' ∨ k.currentTask = none ∧ Headed k' t) fun _ => False := by
  have slept := countTick_slept asleep listed away
  have aged := countTick_aged k
  cases counted : k.countTick with
  | stuck => trivial
  | left state =>
      rw [counted] at aged
      exact aged
  | next mid =>
      have current := (aged.of_next counted).currentTask
      have result := scheduleProcess_slept (slept.of_next counted) (current ▸ away)
      rw [current] at result
      exact result

end Kernel

/-! ## The task that is served -/

/-- A task has a parent that its end wakes. -/
def ChildOf (k : Kernel) (parent child : Word) : Prop :=
  0 < (k.task child).ppid ∧ (k.task child).parent = some parent

/-- The task that was served was a child of the sleeper and has ended. -/
def Bereaved (t : Word) (k k' : Kernel) : Prop :=
  ∃ c, k.currentTask = some c ∧ ChildOf k t c ∧ (k'.task c).parent = none

/-- What happens to a sleeper of the list while another task is served. -/
def SleepsOn (t : Word) (k k' : Kernel) : Prop :=
  Listed k' t → Slept t (k.task t).sleepTime k k' ∨ Bereaved t k k' ∨ Headed k' t

/-- The sleeper and the clock are left alone. -/
structure Dormant (t : Word) (k k' : Kernel) : Prop where
  state : (k'.task t).state = (k.task t).state
  sleepTime : (k'.task t).sleepTime = (k.task t).sleepTime
  timer : k'.timer = k.timer

/-- The sleeper and the clock are left alone, and the task that is served does not become a
child of the sleeper. -/
structure Attends (t : Word) (k k' : Kernel) : Prop extends Dormant t k k' where
  currentTask : k'.currentTask = k.currentTask
  child : ∀ c, ChildOf k' t c → ChildOf k t c

variable {k'' : Kernel}

theorem Dormant.trans (first : Dormant t k k') (second : Dormant t k' k'') : Dormant t k k'' where
  state := second.state.trans first.state
  sleepTime := second.sleepTime.trans first.sleepTime
  timer := second.timer.trans first.timer

theorem Dormant.asleep (dormant : Dormant t k k') (asleep : Asleep k t rest) : Asleep k' t rest :=
  asleep.same dormant.state dormant.sleepTime

namespace Attends

theorem refl (k : Kernel) : Attends t k k :=
  ⟨⟨rfl, rfl, rfl⟩, rfl, fun _ => id⟩

theorem trans (first : Attends t k k') (second : Attends t k' k'') : Attends t k k'' where
  toDormant := first.toDormant.trans second.toDormant
  currentTask := second.currentTask.trans first.currentTask
  child c isChild := first.child c (second.child c isChild)

/-- Changes to other things than tasks. -/
theorem same (task : k'.task = k.task) (timer : k'.timer = k.timer)
    (current : k'.currentTask = k.currentTask) : Attends t k k' where
  state := by rw [task]
  sleepTime := by rw [task]
  timer := timer
  currentTask := current
  child c isChild := by
    unfold ChildOf at isChild ⊢
    rwa [task] at isChild

/-- A change of one task, which does not make it a child of the sleeper. -/
theorem modTask (k : Kernel) (s : Word) {change : TaskStruct → TaskStruct}
    (rests : s = t → (change (k.task s)).state = (k.task s).state ∧
      (change (k.task s)).sleepTime = (k.task s).sleepTime)
    (child : 0 < (change (k.task s)).ppid → (change (k.task s)).parent = some t →
      ChildOf k t s) : Attends t k (k.modTask s change) where
  state := by
    by_cases here : t = s
    · rw [here, k.modTask_task_self]
      exact (rests here.symm).1
    · rw [k.modTask_task_of_ne here]
  sleepTime := by
    by_cases here : t = s
    · rw [here, k.modTask_task_self]
      exact (rests here.symm).2
    · rw [k.modTask_task_of_ne here]
  timer := rfl
  currentTask := rfl
  child c isChild := by
    unfold ChildOf at isChild
    by_cases here : c = s
    · subst here
      rw [k.modTask_task_self] at isChild
      exact child isChild.1 isChild.2
    · rwa [k.modTask_task_of_ne here] at isChild

theorem andTask (attends : Attends t k k') (s : Word) {change : TaskStruct → TaskStruct}
    (rests : s = t → (change (k'.task s)).state = (k'.task s).state ∧
      (change (k'.task s)).sleepTime = (k'.task s).sleepTime)
    (child : 0 < (change (k'.task s)).ppid → (change (k'.task s)).parent = some t →
      ChildOf k' t s) : Attends t k (k'.modTask s change) :=
  attends.trans (.modTask k' s rests child)

theorem still (still : Still (· = t) k k') : Attends t k k' where
  state := still.rest t rfl
  sleepTime := by rw [still.quiet.task t]
  timer := still.timer
  currentTask := still.quiet.currentTask
  child c isChild := by
    unfold ChildOf at isChild
    rwa [still.quiet.task c] at isChild

theorem sleepsOn (attends : Attends t k k') (asleep : (k.task t).state = .sleep)
    (away : k.currentTask ≠ some t) : SleepsOn t k k' := fun _ =>
  .inl (.still (congrArg Timer.prevSecs attends.timer) (attends.asleep ⟨asleep, rfl⟩)
    (attends.currentTask ▸ away))

end Attends

/-- A computation that leaves the sleeper alone. -/
def Attended {α : Type} [HasState α] (t : Word) (J : Kernel → Prop) (k : Kernel)
    (flow : Flow Kernel α) : Prop :=
  flow.All (fun result => Attends t k (HasState.state result)) J

namespace Attended

variable {α β : Type} [HasState α] [HasState β] {J : Kernel → Prop}

theorem done (attends : Attends t k k') : Attended t J k (.next k') :=
  attends

theorem of_stills {flow : Flow Kernel α} (stills : Stills (· = t) J k flow) : Attended t J k flow :=
  Flow.All.imp stills fun _ still => .still still

theorem after {flow : Flow Kernel α} (attends : Attends t k k') (rest : Attended t J k' flow) :
    Attended t J k flow :=
  Flow.All.imp rest fun _ attends' => attends.trans attends'

theorem bind {flow : Flow Kernel α} {rest : α → Flow Kernel β} (first : Attended t J k flow)
    (second : ∀ x, Attends t k (HasState.state x) → Attended t J (HasState.state x) (rest x)) :
    Attended t J k (flow >>= rest) := by
  apply Flow.All.bind first
  intro x attends
  exact after attends (second x attends)

end Attended

namespace Kernel

variable {k₀ : Kernel} {c : Word} {I J : Kernel → Prop} {fault : Fault}

/-- The task that is served gives up the processor. -/
theorem yield_sleepsOn (asleep : (k₀.task t).state = .sleep) (dormant : Dormant t k₀ k)
    (idle : k.currentTask = none) : k.yield.All (SleepsOn t k₀) (SleepsOn t k₀) := by
  have entry : k.saveFrame default = k := by rw [Kernel.saveFrame, idle]
  have ticked : (k.countTick >>= scheduleProcess).All (SleepsOn t k₀) fun _ => False := by
    cases tick : k.countTick >>= scheduleProcess with
    | stuck => trivial
    | left state => exact ((tick_lists k).of_left tick).elim
    | next k' =>
        intro listed
        have lists := (tick_lists k).of_next tick
        have before : Listed k t := listed.same (fun s => (lists.1 s).symm) lists.2.symm
        have clock := congrArg Timer.prevSecs dormant.timer
        rcases (tick_slept (dormant.asleep ⟨asleep, rfl⟩) before
          (by rw [idle]; exact (Option.some_ne_none t).symm)).of_next tick with slept | headed
        · left
          cases slept with
          | still clock' asleep away => exact .still (clock'.trans clock) asleep away
          | counted clock' more asleep away => exact .counted (clock ▸ clock') more asleep away
          | woken clock' due awake => exact .woken (clock ▸ clock') due awake
        · exact .inr (.inr headed.2)
  unfold Kernel.yield
  rw [Kernel.timerHandler_eq, entry]
  cases tick : k.countTick >>= Kernel.scheduleProcess with
  | stuck => trivial
  | left state =>
      rw [tick] at ticked
      exact ticked.elim
  | next k' =>
      rw [tick] at ticked
      dsimp only [Flow.next_bind]
      split
      · exact ticked
      · exact ticked

/-! ## The end of a task -/

/-- The end of a task leaves a sleeper alone that is not its parent. -/
theorem leaveParent_attends (stranger : ¬ ChildOf k t c) : Attended t J k (k.leaveParent c) := by
  unfold leaveParent
  split
  · rename_i child
    cases linked : (k.task c).parent with
    | none => trivial
    | some parent =>
        have other : parent ≠ t := fun same => stranger ⟨child, linked.trans (congrArg some same)⟩
        have woken : Attends t k (k.modTask parent fun s => { s with state := .runnable }) :=
          .modTask k parent (fun same => absurd same other) fun small parent => ⟨small, parent⟩
        have still : ((k.modTask parent fun s => { s with state := .runnable }).task c).parent =
            some parent := by
          rw [k.modTask_task_field TaskStruct.parent parent c rfl]
          exact linked
        rw [Flow.ofOption_some, Flow.next_bind]
        apply Attended.after woken
        unfold removeFromParent
        dsimp only
        rw [still, Flow.ofOption_some, Flow.next_bind]
        have counted : Attends t (k.modTask parent fun s => { s with state := .runnable })
            ((k.modTask parent fun s => { s with state := .runnable }).modTask parent fun s =>
              { s with childCount := s.childCount - 1 }) :=
          .modTask _ parent (fun same => absurd same other) fun small parent => ⟨small, parent⟩
        split
        · exact Attended.done (counted.trans (.modTask _ parent (fun same => absurd same other)
            fun small parent => ⟨small, parent⟩))
        · exact counted
  · exact Attends.refl k

theorem removeFromTaskList_attends (other : c ≠ t) :
    Attended t J k (k.removeFromTaskList c) := by
  have stopped : Attends t k (k.modTask c fun s => { s with state := .stopped }) :=
    .modTask k c (fun same => absurd same other) fun small parent => ⟨small, parent⟩
  unfold removeFromTaskList
  apply Attended.after stopped
  dsimp only
  split
  · exact Attends.refl _
  · split
    · exact Attends.same rfl rfl rfl
    · apply Flow.All.bind (P := fun _ => True) (.ofOption fun _ _ => trivial)
      intro found _
      cases found with
      | none => exact Attends.refl _
      | some p =>
          exact Attended.done (.modTask _ p (fun _ => ⟨rfl, rfl⟩) fun small parent => ⟨small, parent⟩)

/-- The last task of a list is linked to another one. -/
theorem push_attends (k : Kernel) (last c : Word) : Attends t k
    ((k.modTask last fun s => { s with next := some c }).modTask c fun s =>
      { s with next := none }) := by
  have linked : Attends t k (k.modTask last fun s => { s with next := some c }) :=
    .modTask k last (fun _ => ⟨rfl, rfl⟩) fun small parent => ⟨small, parent⟩
  exact linked.trans (.modTask _ c (fun _ => ⟨rfl, rfl⟩) fun small parent => ⟨small, parent⟩)

theorem addToFreeTaskList_attends (c : Word) : Attended t J k (k.addToFreeTaskList c) := by
  unfold addToFreeTaskList
  split
  · have listed : Attends t k { k with freeTaskList := some c } := .same rfl rfl rfl
    exact Attended.done (listed.trans (.modTask _ c (fun _ => ⟨rfl, rfl⟩) fun small parent =>
      ⟨small, parent⟩))
  · apply Flow.All.bind (P := fun _ => True) (.ofOption fun _ _ => trivial)
    intro last _
    exact Attended.done (push_attends k last c)

/-- The structure of a task other than the sleeper is freed. -/
theorem freeTaskStruct_attends (answers : fault.Heeds (Still (· = t)) I J)
    (stable : ∀ {k'}, Attends t k k' → I k') (other : c ≠ t) :
    Attended t J k (k.freeTaskStruct fault c) := by
  have loaded : Attends t k (k.writeCr3 (k.m.virtToPhy (k.task c).pml4e)) := .same rfl rfl rfl
  apply Attended.after loaded
  apply Attended.bind (removeFromTaskList_attends other)
  intro k₁ attends₁
  change Attends t _ k₁ at attends₁
  have inv₁ : I k₁ := stable (loaded.trans attends₁)
  apply Attended.bind (.of_stills (.of_spaces (freeTaskMmStruct_spaces answers.spaced inv₁ _ c)))
  intro k₂ _
  have cleared : Attends t k₂ (k₂.modTask c clearedTask) :=
    .modTask k₂ c (fun same => absurd same other) fun _ => nofun
  have unloaded : Attends t (k₂.modTask c clearedTask) ((k₂.modTask c clearedTask).writeCr3
      (k₂.modTask c clearedTask).m.kCr3) := .same rfl rfl rfl
  have rootless : Attends t ((k₂.modTask c clearedTask).writeCr3
      (k₂.modTask c clearedTask).m.kCr3) (((k₂.modTask c clearedTask).writeCr3
      (k₂.modTask c clearedTask).m.kCr3).modTask c fun s => { s with pml4e := 0 }) :=
    .modTask _ c (fun _ => ⟨rfl, rfl⟩) fun small parent => ⟨small, parent⟩
  exact Attended.after ((cleared.trans unloaded).trans rootless) (addToFreeTaskList_attends c)

/-! ### A child of the sleeper -/

/-- The scheduler leaves the parents of all tasks. -/
theorem yield_parent (orphan : (k.task c).parent = none)
    (idle : k.currentTask = none) : k.yield.All (fun k' => (k'.task c).parent = none)
      fun k' => (k'.task c).parent = none := by
  unfold Kernel.yield
  apply Flow.All.bind (P := fun result => (result.1.task c).parent = none)
  · apply ((timerHandler_ticked k default).mono _ fun _ => False.elim)
    rintro ⟨k', r⟩ ⟨mid, ticked⟩
    have saved : ((k.saveFrame default).task c).parent = none := by
      rw [Kernel.saveFrame, idle]
      exact orphan
    have counted : (mid.task c).parent = none := by
      rcases ticked.aged.task c with ⟨state, sleepTime, same⟩
      rw [same]
      exact saved
    rcases ticked.scheduled with same | ⟨task, _, same⟩
    · rw [same]
      exact counted
    · have preempted : (mid.preempt.task c).parent = none := by
        unfold preempt
        split
        · exact counted
        · rw [mid.modTask_task_field TaskStruct.parent _ c rfl]
          exact counted
      rw [same]
      by_cases here : c = task
      · subst here
        rw [dispatch_task_self]
        exact preempted
      · rw [dispatch_task_of_ne _ here]
        exact preempted
  · rintro ⟨k', r⟩ parent
    dsimp only
    split
    · exact parent
    · exact parent

theorem addToFreeTaskList_parent (s : Word) : (k.addToFreeTaskList s).All
    (fun k' => (k'.task c).parent = (k.task c).parent) J := by
  unfold addToFreeTaskList
  split
  · exact modTask_task_field _ TaskStruct.parent s c rfl
  · apply Flow.All.bind (P := fun _ => True) (.ofOption fun _ _ => trivial)
    intro last _
    exact (modTask_task_field _ TaskStruct.parent s c rfl).trans
      (modTask_task_field _ TaskStruct.parent last c rfl)

/-- A task that ends forgets its parent. -/
theorem systemExit_parent {α : Type} {P : α → Prop} (running : k.currentTask = some c)
    (answers : fault.Heeds Spaced (fun k => k.currentTask = some c)
      fun k' => (k'.task c).parent = none) :
    (k.systemExit fault : Flow Kernel α).All P fun k' => (k'.task c).parent = none := by
  unfold systemExit
  rw [running, Flow.ofOption_some, Flow.next_bind]
  apply Flow.All.bind (P := fun k' : Kernel => k'.currentTask = some c)
  · unfold leaveParent
    split
    · apply Flow.All.bind (P := fun _ => True) (.ofOption fun _ _ => trivial)
      intro parent _
      apply Flow.All.bind (P := fun _ => True) (.ofOption fun _ _ => trivial)
      intro parent' _
      dsimp only
      split
      · exact running
      · exact running
    · exact running
  · intro k₁ running₁
    apply Flow.All.bind (P := fun k' : Kernel => (k'.task c).parent = none)
    · unfold freeTaskStruct
      dsimp only
      apply Flow.All.bind (P := fun k' : Kernel => k'.currentTask = some c)
      · unfold removeFromTaskList
        dsimp only
        split
        · exact running₁
        · split
          · exact running₁
          · apply Flow.All.bind (P := fun _ => True) (.ofOption fun _ _ => trivial)
            intro found _
            cases found with
            | none => exact running₁
            | some p => exact running₁
      · intro k₂ running₂
        apply Flow.All.bind (freeTaskMmStruct_spaces answers running₂ _ c)
        intro k₃ _
        have cleared : ((((k₃.modTask c clearedTask).writeCr3 (k₃.modTask c
            clearedTask).m.kCr3).modTask c fun s => { s with pml4e := 0 }).task c).parent =
            none := by
          rw [modTask_task_self]
          exact congrArg TaskStruct.parent (k₃.modTask_task_self c clearedTask)
        apply (addToFreeTaskList_parent c).imp
        intro k₄ same
        exact same.trans cleared
    · intro k₂ parent
      have stopped : ((k₂.modTask c fun s => { s with state := .stopped }).task c).parent =
          none := by
        rw [modTask_task_field _ TaskStruct.parent c c rfl]
        exact parent
      have idle : ((k₂.modTask c fun s => { s with state := .stopped }).setCurrentTask
          none).yield.All (fun k' => (k'.task c).parent = none) fun k' =>
          (k'.task c).parent = none := yield_parent stopped rfl
      apply Flow.All.bind idle
      intro k₃ parent₃
      exact parent₃

end Kernel

/-- The kernel's page faults end a task only so that it forgets its parent. -/
theorem kernelFault_parent (frames : Kernel → Word → Regs) (depth : Nat) (c : Word) :
    (Kernel.kernelFault frames depth).Heeds Spaced (fun k => k.currentTask = some c)
      fun k' => (k'.task c).parent = none := by
  have stable : ∀ {k k' : Kernel}, k.currentTask = some c → Spaced k k' →
      k'.currentTask = some c := fun running spaced => spaced.quiet.currentTask.trans running
  refine ⟨stable, (kernelFault_heeds (fun running touched => stable running touched.spaced)
    frames ?_ depth).handles⟩
  intro depth heeds α P k running
  exact Kernel.systemExit_parent running ⟨stable, heeds.handles⟩

namespace Kernel

variable {k₀ : Kernel} {c : Word} {I J : Kernel → Prop}

/-- The end of the task that is served. -/
theorem systemExit_sleepsOn {frames : Kernel → Word → Regs} {depth : Nat} {α : Type}
    {P : α → Prop} (asleep : (k₀.task t).state = .sleep) (away : k₀.currentTask ≠ some t)
    (answers : (kernelFault frames depth).Heeds (Still (· = t)) (Attends t k₀) (SleepsOn t k₀))
    (attends : Attends t k₀ k) :
    (k.systemExit (kernelFault frames depth) : Flow Kernel α).All P (SleepsOn t k₀) := by
  cases running : k.currentTask with
  | none =>
      unfold systemExit
      rw [running]
      trivial
  | some c =>
      have before : k₀.currentTask = some c := attends.currentTask.symm.trans running
      have other : c ≠ t := fun same => away (before.trans (congrArg some same))
      by_cases isChild : ChildOf k t c
      · apply (systemExit_parent running (kernelFault_parent frames depth c)).mono fun _ => id
        intro k' orphan _
        exact .inr (.inl ⟨c, before, attends.child c isChild, orphan⟩)
      · unfold systemExit
        rw [running, Flow.ofOption_some, Flow.next_bind]
        apply Flow.All.bind (leaveParent_attends isChild)
        intro k₁ attends₁
        change Attends t k k₁ at attends₁
        apply Flow.All.bind (freeTaskStruct_attends answers
          (fun later => (attends.trans attends₁).trans later) other)
        intro k₂ attends₂
        change Attends t k₁ k₂ at attends₂
        have until₂ := (attends.trans attends₁).trans attends₂
        have stopped : Attends t k₂ (k₂.modTask c fun s => { s with state := .stopped }) :=
          .modTask k₂ c (fun same => absurd same other) fun small parent => ⟨small, parent⟩
        have whole := until₂.trans stopped
        have dormant : Dormant t k₀ ((k₂.modTask c fun s =>
            { s with state := .stopped }).setCurrentTask none) :=
          ⟨whole.state, whole.sleepTime, whole.timer⟩
        apply Flow.All.bind (yield_sleepsOn asleep dormant rfl)
        intro k₃ slept
        exact slept

end Kernel

/-- The kernel's page faults leave a sleeper asleep, or end the task that is served. -/
theorem kernelFault_attends {k₀ : Kernel} (asleep : (k₀.task t).state = .sleep)
    (away : k₀.currentTask ≠ some t) (frames : Kernel → Word → Regs) (depth : Nat) :
    (Kernel.kernelFault frames depth).Heeds (Still (· = t)) (Attends t k₀) (SleepsOn t k₀) := by
  have stable : ∀ {k k' : Kernel}, Attends t k₀ k → Still (· = t) k k' → Attends t k₀ k' :=
    fun attends still => attends.trans (.still still)
  refine ⟨stable, (kernelFault_heeds (fun attends touched => stable attends
    touched.spaced.still) frames ?_ depth).handles⟩
  intro depth heeds α P k attends
  exact Kernel.systemExit_sleepsOn asleep away ⟨stable, heeds.handles⟩ attends

/-! ## A new task -/

namespace Kernel

variable {I J : Kernel → Prop} {fault : Fault}

/-- A new structure is not that of a task that was created and is not free. -/
theorem getFreeTask_attends (notFree : k.freeTaskList ≠ some t) (known : t ∈ k.taskStructs) :
    k.getFreeTask.All (fun result => Attends t k result.1 ∧ result.2 ≠ t) J := by
  unfold getFreeTask
  split
  · rename_i task first
    exact ⟨.same rfl rfl rfl, fun same => notFree (first.trans (congrArg some same))⟩
  · have allocated : (k.kmallocStruct 4520 k.taskStructs).All
        (fun result => Attends t k result.1 ∧ result.2 ≠ t) J := by
      unfold kmallocStruct
      apply Flow.All.bind (kmalloc_spaces _)
      rintro ⟨k₁, addr⟩ spaced
      dsimp only
      split
      · trivial
      · rename_i unused
        refine ⟨.still spaced.still, fun same => unused ?_⟩
        change addr = t at same
        rw [same]
        exact known
    apply Flow.All.bind allocated
    rintro ⟨k₁, task⟩ ⟨attends₁, other⟩
    apply Flow.All.bind (createNewMmstruct_spaces (J := J))
    rintro ⟨k₂, mm⟩ spaced₂
    have until₂ : Attends t k k₂ := attends₁.trans (.still spaced₂.still)
    have equipped : Attends t k₂ (k₂.modTask task fun s => { s with mm := mm }) :=
      .modTask k₂ task (fun _ => ⟨rfl, rfl⟩) fun small parent => ⟨small, parent⟩
    exact ⟨until₂.trans equipped, other⟩

theorem addToTaskList_attends (s : Word) : Attended t J k (k.addToTaskList s) := by
  unfold addToTaskList
  split
  · have listed : Attends t k { k with taskList := some s } := .same rfl rfl rfl
    exact Attended.done (listed.trans (.modTask _ s (fun _ => ⟨rfl, rfl⟩) fun small parent =>
      ⟨small, parent⟩))
  · apply Flow.All.bind (P := fun _ => True) (.ofOption fun _ _ => trivial)
    intro last _
    exact Attended.done (push_attends k last s)

/-- A task that was created is another one than the sleeper, and has no parent. -/
theorem createNewTask_attends (answers : fault.Heeds (Still (· = t)) I J)
    (stable : ∀ {k'}, Attends t k k' → I k') (notFree : k.freeTaskList ≠ some t)
    (known : t ∈ k.taskStructs) (taskname : CString) :
    (k.createNewTask fault taskname).All (fun result => Attends t k result.1 ∧ result.2 ≠ t ∧
      (result.1.task result.2).parent = none) J := by
  apply Flow.All.bind (getFreeTask_attends notFree known)
  rintro ⟨k₁, task⟩ ⟨attends₁, other⟩
  apply Flow.All.bind (chars_touches answers.spaced.touched (stable attends₁) taskname 0 stringRounds)
  rintro ⟨k₂, name⟩ touched
  have until₂ : Attends t k k₂ := attends₁.trans (.still touched.spaced.still)
  apply Flow.All.bind (P := Attends t k)
  · split
    · exact until₂
    · exact Attended.after until₂ (addToTaskList_attends task)
  · intro k₃ until₃
    apply Flow.All.bind (P := fun _ => True) (.ofOption fun _ _ => trivial)
    rintro ⟨m, pml4e⟩ _
    have fresh : Attends t k₃ (k₃.modTask task (freshTask (k₃.pid.setWidth 32) name)) :=
      .modTask k₃ task (fun same => absurd same other) fun _ => nofun
    have parent : ((k₃.modTask task (freshTask (k₃.pid.setWidth 32) name)).task task).parent =
        none := congrArg TaskStruct.parent (k₃.modTask_task_self task _)
    dsimp only
    generalize described : (Kernel.setMachine _ m) = k₄
    have counted : Attends t k₃ k₄ := by
      rw [← described]
      exact fresh.trans (.same rfl rfl rfl)
    have orphan : (k₄.task task).parent = none := by
      rw [← described]
      exact parent
    refine ⟨until₃.trans ?_, other, ?_⟩
    · dsimp only
      apply counted.andTask task
      · exact fun _ => ⟨rfl, rfl⟩
      · exact fun small parent => ⟨small, parent⟩
    · rw [modTask_task_self]
      exact orphan

end Kernel

end Sbrocks.Process
