import Mathlib.Data.List.Rotate
import Sbrocks.Process.Clock

/-!
# Turns

When nothing but `schedule_process` runs, the tasks that are ready take turns in the order of
the task list, which is searched behind the current task first and from its head then.
-/

namespace Sbrocks.Process

namespace Kernel

/-- The state after some calls of `schedule_process`. -/
def scheduleTimes (k : Kernel) : Nat → Flow Kernel Kernel
  | 0 => .next k
  | n + 1 => do
      let k ← k.scheduleTimes n
      k.scheduleProcess

/-- Whether a task could be dispatched. -/
def ready (k : Kernel) (t : Word) : Bool :=
  (k.task t).state = .runnable

end Kernel

variable {k k' : Kernel} {current t : Word} {before behind queue rest : List Word}

/-- The current task runs, and the others that are ready are queued behind it, in the order
of the list. -/
structure Turn (k : Kernel) (current : Word) (queue before behind : List Word) : Prop where
  linked : Chain.Linked k.nextTask k.taskList (before ++ current :: behind)
  allocated : ∀ t ∈ before ++ current :: behind, t ∈ k.taskStructs
  currentTask : k.currentTask = some current
  running : (k.task current).state = .running
  queue : (behind ++ before).filter k.ready = queue

namespace Turn

theorem distinct (turn : Turn k current queue before behind) :
    (current :: (behind ++ before)).Nodup := by
  have nodup := turn.linked.nodup
  have permuted : List.Perm (before ++ current :: behind) (current :: (behind ++ before)) :=
    List.perm_middle.trans (List.perm_append_comm.cons current)
  exact permuted.nodup nodup

theorem queue_nodup (turn : Turn k current queue before behind) : (current :: queue).Nodup := by
  have distinct := turn.distinct
  rw [List.nodup_cons] at distinct ⊢
  rw [← turn.queue]
  exact ⟨fun member => distinct.1 (List.mem_of_mem_filter member), distinct.2.filter _⟩

theorem mem_queue (turn : Turn k current queue before behind) :
    t ∈ queue ↔ t ∈ before ++ current :: behind ∧ t ≠ current ∧ (k.task t).state = .runnable := by
  have distinct := turn.distinct
  rw [List.nodup_cons] at distinct
  rw [← turn.queue, List.mem_filter]
  constructor
  · rintro ⟨member, ready⟩
    refine ⟨?_, ?_, of_decide_eq_true ready⟩
    · rcases List.mem_append.mp member with behind | before
      · exact List.mem_append_right _ (List.mem_cons_of_mem _ behind)
      · exact List.mem_append_left _ before
    · rintro rfl
      exact distinct.1 member
  · rintro ⟨member, other, ready⟩
    refine ⟨?_, decide_eq_true ready⟩
    rcases List.mem_append.mp member with before | later
    · exact List.mem_append_right _ before
    · exact List.mem_append_left _ ((List.mem_cons.mp later).resolve_left other)

/-- `get_next_task` gives the first of the queue. -/
theorem getNextTask (turn : Turn k current queue before behind) :
    k.getNextTask (some current) = .next queue.head? := by
  have room := room_of_linked turn.linked turn.allocated
  have distinct := turn.distinct
  rw [List.nodup_cons, List.mem_append, not_or] at distinct
  have others : ∀ xs : List Word, current ∉ xs →
      xs.filter (k.dispatchable current) = xs.filter k.ready := by
    intro xs outside
    apply List.filter_congr
    intro t member
    have other : t ≠ current := fun same => outside (same ▸ member)
    simp [Kernel.dispatchable, Kernel.ready, other]
  have self : k.dispatchable current current = false := by simp [Kernel.dispatchable]
  have shorter : behind.length < k.taskRounds := by
    rw [List.length_append, List.length_cons] at room
    omega
  have second : Chain.scan k.nextTask (k.dispatchable current) k.taskRounds k.taskList =
      some (before.filter k.ready ++ behind.filter k.ready).head? := by
    rw [turn.linked.scan_filter _ room, List.filter_append,
      List.filter_cons_of_neg (by rw [self]; exact Bool.false_ne_true), others _ distinct.1.1,
      others _ distinct.1.2]
  unfold Kernel.getNextTask
  dsimp only
  rw [turn.linked.after.scan_filter _ shorter, second, others _ distinct.1.1, ← turn.queue,
    List.filter_append]
  cases first : behind.filter k.ready with
  | nil => simp
  | cons t later => rfl

theorem scheduleProcess_nil (turn : Turn k current [] before behind) :
    k.scheduleProcess = .next k := by
  unfold Kernel.scheduleProcess
  rw [turn.currentTask]
  dsimp only
  rw [turn.getNextTask]
  rfl

theorem scheduleProcess_cons (turn : Turn k current (t :: rest) before behind) :
    k.scheduleProcess =
      .next ((k.modTask current fun s => { s with state := .runnable }).dispatch t) := by
  unfold Kernel.scheduleProcess
  rw [turn.currentTask]
  dsimp only
  rw [turn.getNextTask]
  rfl

/-- The list, seen from a later node of the queue. -/
theorem split {t : Word} {front back : List Word}
    (around : behind ++ before = front ++ t :: back) : ∃ before' behind',
    before' ++ t :: behind' = before ++ current :: behind ∧
      behind' ++ before' = back ++ current :: front := by
  rcases List.append_eq_append_iff.mp around with ⟨middle, rfl, rfl⟩ | ⟨middle, rfl, ahead⟩
  · exact ⟨middle, back ++ current :: behind, by simp, by simp⟩
  · cases middle with
    | nil =>
        cases ahead
        exact ⟨[], back ++ current :: front, by simp, by simp⟩
    | cons s middle =>
        cases ahead
        exact ⟨before ++ current :: front, middle, by simp, by simp⟩

/-- The first of the queue takes its turn, and the current task goes to the end. -/
theorem handOver (turn : Turn k current (t :: rest) before behind) :
    ∃ before' behind',
      Turn ((k.modTask current fun s => { s with state := .runnable }).dispatch t) t
        (rest ++ [current]) before' behind' := by
  generalize described :
    (k.modTask current fun s => { s with state := .runnable }).dispatch t = k'
  have unique := turn.queue_nodup
  have other : t ≠ current := by
    rintro rfl
    exact (List.nodup_cons.mp unique).1 List.mem_cons_self
  have chosen : (k'.task t).state = .running := by
    rw [← described, Kernel.dispatch_task_self]
  have taken : (k'.task current).state = .runnable := by
    rw [← described, Kernel.dispatch_task_of_ne _ (Ne.symm other), Kernel.modTask_task_self]
  have rested : ∀ s, s ≠ t → s ≠ current → k'.task s = k.task s := by
    intro s this that
    rw [← described, Kernel.dispatch_task_of_ne _ this, Kernel.modTask_task_of_ne _ that]
  have links : ∀ s, k'.nextTask s = k.nextTask s := by
    intro s
    show (k'.task s).next = (k.task s).next
    by_cases this : s = t
    · rw [this, ← described, Kernel.dispatch_task_self, Kernel.modTask_task_of_ne _ other]
    · by_cases that : s = current
      · rw [that, ← described, Kernel.dispatch_task_of_ne _ (Ne.symm other),
          Kernel.modTask_task_self]
      · rw [rested s this that]
  rcases List.filter_eq_cons_iff.mp turn.queue with ⟨front, back, around, unready, -, later⟩
  rcases split around with ⟨before', behind', same, around'⟩
  have distinct := turn.distinct
  rw [around] at distinct
  have kept : ∀ xs : List Word, (∀ s ∈ xs, s ≠ t ∧ s ≠ current) →
      xs.filter k'.ready = xs.filter k.ready := by
    intro xs outside
    apply List.filter_congr
    intro s member
    rw [Kernel.ready, Kernel.ready, rested s (outside s member).1 (outside s member).2]
  have none : front.filter k.ready = [] := List.filter_eq_nil_iff.mpr unready
  refine ⟨before', behind', ?_, ?_, ?_, chosen, ?_⟩
  · rw [same, ← described]
    exact turn.linked.congr fun s _ => described ▸ links s
  · rw [same, ← described]
    exact turn.allocated
  · rw [← described]
    rfl
  · have ready : k'.ready current = true := decide_eq_true taken
    rw [around', List.filter_append, List.filter_cons_of_pos ready, kept back (by grind),
      kept front (by grind), later, none]

/-- A call of `schedule_process` rotates the tasks that take turns. -/
theorem scheduleProcess (turn : Turn k current queue before behind) :
    ∃ k' next queue' before' behind', k.scheduleProcess = .next k' ∧
      Turn k' next queue' before' behind' ∧
      next :: queue' = (current :: queue).rotate 1 := by
  cases queue with
  | nil => exact ⟨k, current, [], before, behind, turn.scheduleProcess_nil, turn, by simp⟩
  | cons t rest =>
      rcases turn.handOver with ⟨before', behind', turn'⟩
      exact ⟨_, t, rest ++ [current], before', behind', turn.scheduleProcess_cons, turn', by simp⟩

theorem scheduleTimes (turn : Turn k current queue before behind) (n : Nat) :
    ∃ k' next queue' before' behind', k.scheduleTimes n = .next k' ∧
      Turn k' next queue' before' behind' ∧
      next :: queue' = (current :: queue).rotate n := by
  induction n with
  | zero => exact ⟨k, current, queue, before, behind, rfl, turn, (List.rotate_zero _).symm⟩
  | succ n ih =>
      rcases ih with ⟨mid, next, queue', before', behind', called, turn', rotated⟩
      rcases turn'.scheduleProcess with ⟨k', next', queue'', _, _, scheduled, turn'', again⟩
      refine ⟨k', next', queue'', _, _, ?_, turn'', ?_⟩
      · show k.scheduleTimes n >>= Kernel.scheduleProcess = _
        rw [called]
        exact scheduled
      · rw [again, rotated, List.rotate_rotate]

/-- Those that do not run but take turns are ready. -/
theorem state (turn : Turn k current queue before behind) (member : t ∈ current :: queue) :
    (k.task t).state = if k.currentTask = some t then .running else .runnable := by
  rw [turn.currentTask]
  by_cases same : t = current
  · rw [same, if_pos rfl, turn.running]
  · have queued := (List.mem_cons.mp member).resolve_left same
    rw [if_neg fun equal => same (Option.some.inj equal).symm]
    exact (turn.mem_queue.mp queued).2.2

end Turn

/-- Round robin: from a task that runs, each call of `schedule_process` gives the processor to
the next of the other tasks that are ready, in the order of the list behind that task and round
its end, then to the task itself, and so on forever.  One that is alone keeps it. -/
theorem roundRobin_fair
    (linked : Chain.Linked k.nextTask k.taskList (before ++ current :: behind))
    (allocated : ∀ t ∈ before ++ current :: behind, t ∈ k.taskStructs)
    (currentTask : k.currentTask = some current) (running : (k.task current).state = .running) :
    let turns := (behind ++ before).filter k.ready ++ [current]
    turns.Nodup ∧
    (∀ t, t ∈ turns ↔ t = current ∨
      t ∈ before ++ current :: behind ∧ t ≠ current ∧ (k.task t).state = .runnable) ∧
    ∀ n, ∃ k', k.scheduleTimes (n + 1) = .next k' ∧
      k'.currentTask = turns[n % turns.length]? ∧
      ∀ t ∈ turns, (k'.task t).state =
        if k'.currentTask = some t then .running else .runnable := by
  have turn : Turn k current _ before behind := ⟨linked, allocated, currentTask, running, rfl⟩
  generalize (behind ++ before).filter k.ready = queue at turn
  intro turns
  have rotated : turns = (current :: queue).rotate 1 := by simp [turns]
  have members : ∀ t, t ∈ turns ↔ t ∈ current :: queue := by
    intro t
    rw [rotated, List.mem_rotate]
  refine ⟨?_, ?_, ?_⟩
  · rw [rotated, List.nodup_rotate]
    exact turn.queue_nodup
  · intro t
    rw [members, List.mem_cons, turn.mem_queue]
  · intro n
    rcases turn.scheduleTimes (n + 1) with
      ⟨k', next, queue', before', behind', called, turn', again⟩
    refine ⟨k', called, ?_, ?_⟩
    · have head : (turns.rotate n).head? = some next := by
        rw [rotated, List.rotate_rotate, Nat.add_comm, ← again]
        rfl
      have nonempty : 0 < turns.length := by simp [turns]
      rw [turn'.currentTask, ← head, List.head?_eq_getElem?, List.getElem?_rotate nonempty,
        Nat.zero_add]
    · intro t member
      apply turn'.state
      rw [again, List.mem_rotate]
      exact (members t).mp member

/-- Four tasks: the second runs, the third is asleep, and the others are ready. -/
def fourTasks : Kernel :=
  { noTasks with
    task := fun t =>
      if t = 0x1000 then { (default : TaskStruct) with state := .runnable, next := some 0x2000 }
      else if t = 0x2000 then { (default : TaskStruct) with state := .running, next := some 0x3000 }
      else if t = 0x3000 then { (default : TaskStruct) with state := .sleep, next := some 0x4000 }
      else { (default : TaskStruct) with state := .runnable }
    taskStructs := [0x4000, 0x3000, 0x2000, 0x1000]
    taskList := some 0x1000
    currentTask := some 0x2000 }

/-- Three tasks take turns, the last, the first, and the one that ran: the fifth turn is the first
task's again. -/
theorem roundRobin_fair_fourTasks : ∃ k', fourTasks.scheduleTimes 5 = .next k' ∧
    k'.currentTask = some 0x1000 := by
  have linked : Chain.Linked fourTasks.nextTask fourTasks.taskList
      ([0x1000] ++ 0x2000 :: [0x3000, 0x4000]) := by
    simp only [List.cons_append, List.nil_append, Chain.linked_cons, Chain.linked_nil]
    decide
  obtain ⟨_, _, fair⟩ := roundRobin_fair linked (by simp [fourTasks]) rfl (by decide)
  have turns : ([0x3000, 0x4000] ++ [0x1000] : List Word).filter fourTasks.ready ++ [0x2000] =
      [0x4000, 0x1000, 0x2000] := by decide
  rw [turns] at fair
  rcases fair 4 with ⟨k', called, turn, _⟩
  exact ⟨k', called, turn⟩

end Sbrocks.Process
