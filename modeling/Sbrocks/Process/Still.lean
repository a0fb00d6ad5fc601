import Sbrocks.Process.Answers

/-!
# Steps that leave tasks at rest

What functions on behalf of a task do, where given tasks are not woken and no tick is
counted.
-/

namespace Sbrocks.Process

open Sbrocks.Mmu

/-- As `Quiet`, while the resting tasks are not woken and time stands still. -/
structure Still (resting : Word → Prop) (k k' : Kernel) : Prop where
  quiet : Quiet k k'
  rest : ∀ t, resting t → (k'.task t).state = (k.task t).state
  timer : k'.timer = k.timer
  pipeReadWaitQueue : k'.pipeReadWaitQueue = k.pipeReadWaitQueue

namespace Still

variable {resting : Word → Prop} {k k' k'' : Kernel}

theorem refl (k : Kernel) : Still resting k k :=
  ⟨.refl k, fun _ _ => rfl, rfl, rfl⟩

theorem trans (first : Still resting k k') (second : Still resting k' k'') :
    Still resting k k'' where
  quiet := first.quiet.trans second.quiet
  rest t rests := (second.rest t rests).trans (first.rest t rests)
  timer := second.timer.trans first.timer
  pipeReadWaitQueue := second.pipeReadWaitQueue.trans first.pipeReadWaitQueue

/-- Changes to other things than tasks. -/
theorem same (task : k'.task = k.task) (heads : k'.heads = k.heads)
    (faults : k'.kernelFaults = k.kernelFaults) (timer : k'.timer = k.timer)
    (queue : k'.pipeReadWaitQueue = k.pipeReadWaitQueue) : Still resting k k' where
  quiet := .same task heads faults
  rest t _ := by rw [task]
  timer := timer
  pipeReadWaitQueue := queue

theorem setMachine (k : Kernel) (m : Machine) : Still resting k (k.setMachine m) :=
  same rfl rfl rfl rfl rfl

/-- A change of the pipes or redirections of a task. -/
theorem modTask (k : Kernel) (t : Word) {change : TaskStruct → TaskStruct}
    (task : change (k.task t) =
      { k.task t with
        pipe := (change (k.task t)).pipe,
        writeRedirectionFd := (change (k.task t)).writeRedirectionFd,
        readRedirectionFd := (change (k.task t)).readRedirectionFd }) :
    Still resting k (k.modTask t change) where
  quiet := .modTask k t (by rw [task]) (.inl (by rw [task]))
  rest other _ := k.modTask_task_field TaskStruct.state t other (by rw [task])
  timer := rfl
  pipeReadWaitQueue := rfl

/-- Another task is woken. -/
theorem wake (k : Kernel) {t : Word} (awake : ¬ resting t) :
    Still resting k (k.modTask t fun s => { s with state := .runnable }) where
  quiet := .modTask k t rfl (.inr rfl)
  rest other rests := by
    have different : other ≠ t := by
      rintro rfl
      exact awake rests
    rw [k.modTask_task_of_ne different]
  timer := rfl
  pipeReadWaitQueue := rfl

end Still

theorem Spaced.still {resting : Word → Prop} {k k' : Kernel} (spaced : Spaced k k') :
    Still resting k k' where
  quiet := spaced.quiet
  rest t _ := by
    rcases spaced.task t with ⟨r, same⟩
    rw [same]
  timer := by rw [spaced.same]
  pipeReadWaitQueue := by rw [spaced.same]

/-- A computation that leaves the resting tasks at rest. -/
def Stills {α : Type} [HasState α] (resting : Word → Prop) (J : Kernel → Prop) (k : Kernel)
    (flow : Flow Kernel α) : Prop :=
  flow.All (fun result => Still resting k (HasState.state result)) J

theorem Fault.Answers.still {fault : Fault} {I J : Kernel → Prop} {resting : Word → Prop}
    (answers : fault.Answers I J) : fault.Heeds (Still resting) I J :=
  ⟨fun inv still => answers.stable inv still.quiet, answers.handles⟩

theorem Fault.Heeds.spaced {fault : Fault} {I J : Kernel → Prop} {resting : Word → Prop}
    (answers : fault.Heeds (Still resting) I J) : fault.Heeds Spaced I J :=
  ⟨fun inv spaced => answers.stable inv spaced.still, answers.handles⟩

theorem Quiets.of_stills {α : Type} [HasState α] {J : Kernel → Prop} {k : Kernel}
    {flow : Flow Kernel α} (stills : Stills (fun _ => False) J k flow) : Quiets J k flow :=
  Flow.All.imp stills fun _ still => still.quiet

namespace Stills

variable {α β : Type} [HasState α] [HasState β] {I J : Kernel → Prop} {fault : Fault}
  {resting : Word → Prop} {k : Kernel}

theorem of_spaces {flow : Flow Kernel α} (spaces : Spaces J k flow) : Stills resting J k flow :=
  Flow.All.imp spaces fun _ spaced => spaced.still

theorem of_touches {flow : Flow Kernel α} (touches : Touches J k flow) :
    Stills resting J k flow :=
  .of_spaces (.of_touches touches)

/-- A step without memory accesses before a computation. -/
theorem after {k' : Kernel} {flow : Flow Kernel α} (still : Still resting k k')
    (rest : Stills resting J k' flow) : Stills resting J k flow := by
  apply Flow.All.imp rest
  intro x still'
  exact still.trans still'

theorem bind (answers : fault.Heeds (Still resting) I J) {flow : Flow Kernel α}
    {rest : α → Flow Kernel β} (inv : I k) (first : Stills resting J k flow)
    (second : ∀ x, I (HasState.state x) → Stills resting J (HasState.state x) (rest x)) :
    Stills resting J k (flow >>= rest) := by
  apply Flow.All.bind first
  intro x still
  exact after still (second x (answers.stable inv still))

/-- A value that the state determines. -/
theorem ofOption {γ : Type} {value : Option γ} {rest : γ → Flow Kernel β}
    (each : ∀ x, value = some x → Stills resting J k (rest x)) :
    Stills resting J k (Flow.ofOption value >>= rest) := by
  cases value with
  | none => trivial
  | some x => exact each x rfl

/-- A question about the state, which may hang but not lose control. -/
theorem query {γ : Type} {flow : Flow Kernel γ} {rest : γ → Flow Kernel β}
    (asked : flow.All (fun _ => True) fun _ => False) (each : ∀ x, Stills resting J k (rest x)) :
    Stills resting J k (flow >>= rest) := by
  cases flow with
  | next x => exact each x
  | left state => exact asked.elim
  | stuck => trivial

end Stills

end Sbrocks.Process
