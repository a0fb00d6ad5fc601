import Sbrocks.Syscall.Refinement

/-!
# Runs of the system

The processor runs a user program or idles until it is interrupted; every gate of
the interrupt table masks further interrupts.  A run is a sequence of interrupts
and of stores of user programs.  It starts where `start` has created the first
processes, and may create others while no task is current.
-/

namespace Sbrocks.Process

open Sbrocks.Mmu

/-- What happens to the kernel between two states of a run. -/
inductive Interrupt where
  | timer (r : Regs)
  | syscall (r : Regs)
  | pageFault (vaddr : Word) (r : Regs)
  | key (scancode : Byte)
  /-- A store of a user program. -/
  | store (virt value : Word)
  /-- The creation of a process. -/
  | create (filename : List Byte) (argv envp : List Word)

/-- The state in which a computation returned, or in which control left it. -/
def Ends {α : Type} [HasState α] (flow : Flow Kernel α) (k' : Kernel) : Prop :=
  match flow with
  | .next result => HasState.state result = k'
  | .left state => state = k'
  | .stuck => False

theorem Flow.All.ends {α : Type} [HasState α] {flow : Flow Kernel α} {P Q : Kernel → Prop}
    {k' : Kernel} (all : flow.All (fun result => P (HasState.state result)) Q)
    (ends : Ends flow k') : P k' ∨ Q k' := by
  cases flow with
  | next result =>
      cases ends
      exact .inl all
  | left state =>
      cases ends
      exact .inr all
  | stuck => cases ends

/-- One step of a run.  User programs are interrupted in their own segment. -/
inductive Step (frames : Kernel → Word → Regs) (depth : Nat) :
    Kernel → Interrupt → Kernel → Prop
  | timer {k k' : Kernel} {r : Regs} (handled : Ends (k.timerHandler r) k') :
      Step frames depth k (.timer r) k'
  | syscall {k k' : Kernel} {r : Regs} {t : Word} (running : k.currentTask = some t)
      (user : r.cs = 0x1b)
      (handled : Ends (k.syscallHandler (Kernel.kernelFault frames depth) r) k') :
      Step frames depth k (.syscall r) k'
  | pageFault {k k' : Kernel} {vaddr : Word} {r : Regs} {t : Word}
      (running : k.currentTask = some t) (user : r.cs = 0x1b)
      (handled : Ends (k.pageFaultHandler (Kernel.kernelFault frames depth) vaddr r) k') :
      Step frames depth k (.pageFault vaddr r) k'
  | key {k k' : Kernel} {scancode : Byte}
      (handled : Ends (k.kbHandler (Kernel.kernelFault frames depth) scancode) k') :
      Step frames depth k (.key scancode) k'
  | store {k : Kernel} {virt value frame t : Word} (running : k.currentTask = some t)
      (mapped : k.m.translate virt = some frame) :
      Step frames depth k (.store virt value)
        (k.setMachine (k.m.setEntry frame (Machine.wordOffset virt) value))
  | create {k k' : Kernel} {filename : List Byte} {argv envp : List Word}
      (idle : k.currentTask = none)
      (handled : Ends (k.readElf (Kernel.kernelFault frames depth) (.text filename) argv envp) k') :
      Step frames depth k (.create filename argv envp) k'

/-- A kernel whose first processes were created and have not run. -/
structure Booted (k : Kernel) (tasks : List Word) : Prop where
  taskList : Chain.Linked k.nextTask k.taskList tasks
  freeTaskList : k.freeTaskList = none
  currentTask : k.currentTask = none
  taskStructs : ∀ t, t ∈ k.taskStructs ↔ t ∈ tasks
  task : ∀ t ∈ tasks, (k.task t).state = .runnable ∧ (k.task t).ppid = 0 ∧
    (k.task t).parent = none ∧ (k.task t).childCount = 0
  pids : tasks.map (fun t => (k.task t).pid) =
    (List.range tasks.length).map fun i => BitVec.ofNat 32 (i + 1)
  pid : k.pid = BitVec.ofNat 64 (tasks.length + 1)
  few : tasks.length < 2 ^ 32

/-- Before any process was created the kernel is booted. -/
theorem booted_initial (m : Machine) (binaryTarfsStart : Word) :
    Booted (.initial m binaryTarfsStart) [] :=
  ⟨rfl, rfl, rfl, fun _ => Iff.rfl, nofun, rfl, rfl, by decide⟩

/-- The states of the runs whose steps all meet a condition. -/
inductive Reachable (frames : Kernel → Word → Regs) (depth : Nat)
    (meets : Kernel → Interrupt → Kernel → Prop) : Kernel → Prop
  | boot {k : Kernel} {tasks : List Word} (booted : Booted k tasks) :
      Reachable frames depth meets k
  | step {k k' : Kernel} {interrupt : Interrupt} (before : Reachable frames depth meets k)
      (stepped : Step frames depth k interrupt k') (met : meets k interrupt k') :
      Reachable frames depth meets k'

/-! ## Steps move the process table -/

variable {policy final : Table.Policy Word} {T : Table Word} {k k' : Kernel}
  {frames : Kernel → Word → Regs} {depth : Nat}

/-- The state after the interrupted frame was saved. -/
def Interrupt.saved (k : Kernel) : Interrupt → Kernel
  | .timer r => k.saveFrame r
  | .syscall r => k.saveFrame r
  | .pageFault _ r => k.saveFrame r
  | _ => k

/-- The table after the interrupted frame was saved. -/
def Interrupt.entered (T : Table Word) : Interrupt → Table Word
  | .timer r => T.settle.saveCurrent r
  | .syscall r => T.settle.saveCurrent r
  | .pageFault _ r => T.settle.saveCurrent r
  | _ => T.settle

theorem View.settle (view : View k T) : View k T.settle :=
  view.remark T.dying false T.forking none

theorem View.entered (view : View k T) (interrupt : Interrupt) :
    View (interrupt.saved k) (interrupt.entered T) := by
  cases interrupt with
  | timer r => exact view.settle.saveFrame r
  | syscall r => exact view.settle.saveFrame r
  | pageFault vaddr r => exact view.settle.saveFrame r
  | key scancode => exact view.settle
  | store virt value => exact view.settle
  | create filename argv envp => exact view.settle

theorem Interrupt.goes_entered (interrupt : Interrupt) (T : Table Word) :
    T.settle.Goes (interrupt.entered T) := by
  cases interrupt with
  | timer r => exact Table.saveCurrent_goes _ r
  | syscall r => exact Table.saveCurrent_goes _ r
  | pageFault vaddr r => exact Table.saveCurrent_goes _ r
  | key scancode => exact .refl _
  | store virt value => exact .refl _
  | create filename argv envp => exact .refl _

theorem Interrupt.entered_pid (interrupt : Interrupt) (T : Table Word) :
    (interrupt.entered T).pid = T.pid := by
  have saved : ∀ r, (T.settle.saveCurrent r).pid = T.pid := by
    intro r
    rw [Table.saveCurrent_eq]
    rfl
  cases interrupt with
  | timer r => exact saved r
  | syscall r => exact saved r
  | pageFault vaddr r => exact saved r
  | key scancode => rfl
  | store virt value => rfl
  | create filename argv envp => rfl

/-- What the policy has to allow for a step. -/
def Interrupt.Admitted (policy : Table.Policy Word) (T : Table Word) (k : Kernel) :
    Interrupt → Prop
  | .syscall r => Kernel.Admits policy (T.settle.saveCurrent r) (k.saveFrame r) r
  | .create _ _ _ => ∀ T', T'.pid = T.pid → policy.create T'
  | _ => True

/-- A step is a run of the process table, which the current task may have left for
good. -/
theorem Step.serves {interrupt : Interrupt} (stepped : Step frames depth k interrupt k')
    (view : View k T) (alive : T.dying = false) (within : policy.Within final)
    (exit : ∀ T, final.exit T) (admitted : interrupt.Admitted policy T k) :
    Served policy (interrupt.entered T) k' ∨ Ended final (interrupt.entered T) k' := by
  have faults : (Kernel.kernelFault frames depth).Answers (Serving policy (interrupt.entered T))
      (Ended final (interrupt.entered T)) ∧
      (Kernel.kernelFault frames depth).Exits (Serving policy (interrupt.entered T))
        (Ended final (interrupt.entered T)) := kernelFault_serving within exit frames depth
  rcases faults with ⟨answers, exits⟩
  have entered := view.entered interrupt
  have goes := interrupt.goes_entered T
  have alive' : (interrupt.entered T).dying = false := goes.dying.trans alive
  have busy' : (interrupt.entered T).resumed = false := goes.resumed
  have serving : Serving policy (interrupt.entered T) (interrupt.saved k) :=
    ⟨_, entered, .start, rfl, busy'⟩
  have returned : Returned policy (interrupt.entered T) (interrupt.saved k) :=
    ⟨_, entered, .start, alive', id, busy', .inl rfl⟩
  have swap : ∀ {k'}, Returned policy (interrupt.entered T) k' ∨
      (Ended final (interrupt.entered T) k' ∨ Served policy (interrupt.entered T) k') →
      Served policy (interrupt.entered T) k' ∨ Ended final (interrupt.entered T) k' := by
    rintro k' (h | h | h)
    · exact .inl h.served
    · exact .inr h
    · exact .inl h
  cases stepped with
  | timer handled =>
      rename_i r
      have unmoved : (T.settle.saveCurrent r).Run policy (T.settle.saveCurrent r) := .start
      have ticked := View.timerHandler (k := k) entered unmoved alive' busy'
      rcases Flow.All.ends ticked handled with scheduled | none
      · exact .inl (scheduled.served id)
      · exact none.elim
  | syscall running user handled =>
      rename_i r t
      have handler := Kernel.syscallHandler_serves entered .start rfl alive' busy' id answers exits
        (kernelFault_idle frames depth) (fun serving => serving) rfl admitted
      exact swap (Flow.All.ends handler handled)
  | pageFault running user handled =>
      rename_i vaddr r t
      have quiets := Quiets.of_spaces
        (Kernel.pageFaultHandler_spaces exits answers.spaced serving vaddr)
      exact swap (Flow.All.ends (Serves.of_quiets quiets returned) handled)
  | key handled =>
      rename_i scancode
      have quiets := Quiets.of_stills
        (Kernel.kbHandler_stills answers.still serving scancode fun _ _ _ => id)
      exact swap (Flow.All.ends (Serves.of_quiets quiets returned) handled)
  | store running mapped => exact .inl (returned.quiet (.setMachine k _)).served
  | create idle handled =>
      rename_i filename argv envp
      have onward := Kernel.readElf_onward entered .start rfl busy' answers
        (fun serving => serving) admitted (.text filename) argv envp
      have serves : Serves policy (T.settle) (Ended final T.settle) _ := onward.mono
        (fun _ goes => goes.returned rfl alive id) fun _ => .inl
      exact swap (Flow.All.ends serves handled)

/-! ## Evaluating runs -/

/-- The frame of a system call. -/
def callFrame (rax rbx rcx : Word) : Regs :=
  { (default : Regs) with rax := rax, rbx := rbx, rcx := rcx, cs := 0x1b, ss := 0x23,
                          rflag := 0x200 }

/-- No page fault of the kernel is answered. -/
def noFrames : Kernel → Word → Regs := fun _ _ => default

namespace Flow

variable {α : Type} [HasState α]

/-- The state after an interrupt was handled. -/
def reached (flow : Flow Kernel α) (k : Kernel) : Kernel :=
  match flow with
  | .next result => HasState.state result
  | .left state => state
  | .stuck => k

/-- Whether a computation ends in a state that passes a test. -/
def checks (flow : Flow Kernel α) (test : Kernel → Bool) : Bool :=
  match flow with
  | .next result => test (HasState.state result)
  | .left state => test state
  | .stuck => false

theorem checks_reached {flow : Flow Kernel α} {test : Kernel → Bool}
    (checked : checks flow test = true) (k : Kernel) :
    Ends flow (reached flow k) ∧ test (reached flow k) = true := by
  cases flow with
  | next result => exact ⟨rfl, checked⟩
  | left state => exact ⟨rfl, checked⟩
  | stuck => cases checked

end Flow

/-- The state after a tick. -/
def ticked (k : Kernel) : Kernel := Flow.reached (k.timerHandler (callFrame 0 0 0)) k

/-- The handler's run for a system call. -/
def calling (k : Kernel) (rax rbx rcx : Word) : Flow Kernel (Kernel × Regs) :=
  k.syscallHandler (Kernel.kernelFault noFrames 0) (callFrame rax rbx rcx)

/-- The state after a system call. -/
@[irreducible]
def called (k : Kernel) (rax rbx rcx : Word) : Kernel := Flow.reached (calling k rax rbx rcx) k

theorem ticked_step {test : Kernel → Bool}
    (checked : Flow.checks (k.timerHandler (callFrame 0 0 0)) test = true) :
    Step frames depth k (.timer (callFrame 0 0 0)) (ticked k) ∧ test (ticked k) = true :=
  ⟨.timer (Flow.checks_reached checked k).1, (Flow.checks_reached checked k).2⟩

theorem called_step {t rax rbx rcx : Word} {test : Kernel → Bool} (running : k.currentTask = some t)
    (checked : Flow.checks (calling k rax rbx rcx) test = true) :
    Step noFrames 0 k (.syscall (callFrame rax rbx rcx)) (called k rax rbx rcx) ∧
      test (called k rax rbx rcx) = true := by
  unfold called
  exact ⟨.syscall running rfl (Flow.checks_reached checked k).1, (Flow.checks_reached checked k).2⟩

end Sbrocks.Process
