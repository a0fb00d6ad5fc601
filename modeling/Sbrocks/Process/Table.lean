import Mathlib.Data.List.Basic
import Mathlib.Logic.Function.Basic
import Sbrocks.Process.Task

/-!
# The process table

What the process subsystem is about: which tasks are live, which structures are
free, which task is current, and how the tasks are related.  Every operation of
the kernel is a sequence of moves of this table; invariants are proved for the
moves.
-/

namespace Sbrocks.Process

open Sbrocks.Mmu

universe u

/-- What the table knows of a task. -/
structure Proc (ι : Type u) where
  pid : BitVec 32
  ppid : BitVec 32
  parent : Option ι
  childCount : Word
  waitForChildPid : Word
  state : TaskState
  r : Regs

/-- A process table over task structures of type `ι`. -/
structure Table (ι : Type u) where
  /-- The tasks of `task_list`. -/
  live : List ι
  /-- The structures of `free_task_list`. -/
  free : List ι
  /-- The tasks ever created. -/
  known : List ι
  current : Option ι
  /-- The pid of the next task. -/
  pid : Word
  proc : ι → Proc ι
  /-- Whether the current task is being ended. -/
  dying : Bool
  /-- The child that a fork has not linked to its parent yet. -/
  forking : Option ι
  /-- The task that was created last, while it is being set up. -/
  newest : Option ι
  /-- Whether a task was dispatched since the interrupt. -/
  resumed : Bool
  /-- The number of page faults that the kernel itself has taken. -/
  faults : Nat

/-- The operations on a process table. -/
inductive Event (ι : Type u) where
  | wake
  | enter (t : ι)
  | save (t : ι)
  | dispatch (t : ι)
  | pause (t : ι)
  | reuse (t : ι)
  | create (t : ι)
  | adopt (child : ι)
  | link (child : ι)
  | exec (t task : ι)
  | leave (t : ι)
  | unlink (t : ι)
  | bury (t : ι)
  | kill (t : ι)
  | discard (t : ι)

/-- A created task, in a structure that held the given frame. -/
def Proc.fresh {ι : Type u} (pid : BitVec 32) (r : Regs) : Proc ι where
  pid := pid
  ppid := 0
  parent := none
  childCount := 0
  waitForChildPid := 0
  state := .runnable
  r := { r with ds := 0x23, fs := 0x23, es := 0x23, gs := 0x23 }

/-- A task whose structure was cleared. -/
def Proc.cleared {ι : Type u} (s : Proc ι) : Proc ι :=
  { s with ppid := 0, parent := none, childCount := 0, waitForChildPid := 0, state := .stopped }

namespace Table

variable {ι : Type u} [DecidableEq ι]

/-- Change one task. -/
def modify (T : Table ι) (t : ι) (change : Proc ι → Proc ι) : Table ι :=
  { T with proc := Function.update T.proc t (change (T.proc t)) }

variable (T : Table ι)

@[simp, grind =]
theorem modify_proc (t other : ι) (change : Proc ι → Proc ι) :
    (T.modify t change).proc other = if other = t then change (T.proc t) else T.proc other :=
  Function.update_apply ..

@[simp, grind =]
theorem modify_live (t : ι) (change : Proc ι → Proc ι) : (T.modify t change).live = T.live :=
  rfl

@[simp, grind =]
theorem modify_free (t : ι) (change : Proc ι → Proc ι) : (T.modify t change).free = T.free :=
  rfl

@[simp, grind =]
theorem modify_known (t : ι) (change : Proc ι → Proc ι) : (T.modify t change).known = T.known :=
  rfl

@[simp, grind =]
theorem modify_current (t : ι) (change : Proc ι → Proc ι) :
    (T.modify t change).current = T.current :=
  rfl

@[simp, grind =]
theorem modify_pid (t : ι) (change : Proc ι → Proc ι) : (T.modify t change).pid = T.pid :=
  rfl

@[simp, grind =]
theorem modify_dying (t : ι) (change : Proc ι → Proc ι) : (T.modify t change).dying = T.dying :=
  rfl

@[simp, grind =]
theorem modify_forking (t : ι) (change : Proc ι → Proc ι) :
    (T.modify t change).forking = T.forking :=
  rfl

@[simp, grind =]
theorem modify_newest (t : ι) (change : Proc ι → Proc ι) :
    (T.modify t change).newest = T.newest :=
  rfl

@[simp, grind =]
theorem modify_resumed (t : ι) (change : Proc ι → Proc ι) :
    (T.modify t change).resumed = T.resumed :=
  rfl

@[simp, grind =]
theorem modify_faults (t : ι) (change : Proc ι → Proc ι) :
    (T.modify t change).faults = T.faults :=
  rfl

theorem modify_proc_self (t : ι) (change : Proc ι → Proc ι) :
    (T.modify t change).proc t = change (T.proc t) :=
  Function.update_self ..

theorem modify_proc_of_ne {t other : ι} (different : other ≠ t) (change : Proc ι → Proc ι) :
    (T.modify t change).proc other = T.proc other :=
  Function.update_of_ne different ..

theorem modify_modify (t : ι) (first second : Proc ι → Proc ι) :
    (T.modify t first).modify t second = T.modify t (second ∘ first) := by
  unfold modify
  simp

/-- A change that leaves a field alone leaves it alone in every task. -/
theorem modify_proc_field {γ : Type*} (field : Proc ι → γ) (t other : ι)
    {change : Proc ι → Proc ι} (kept : field (change (T.proc t)) = field (T.proc t)) :
    field ((T.modify t change).proc other) = field (T.proc other) := by
  by_cases same : other = t
  · rw [same, modify_proc_self, kept]
  · rw [modify_proc_of_ne T same]

/-- Take the current task off. -/
def preempt : Table ι :=
  match T.current with
  | none => T
  | some current => T.modify current fun s => { s with state := .runnable }

/-- Taking the current task off leaves everything else. -/
theorem preempt_eq : T.preempt = { T with proc := T.preempt.proc } := by
  unfold preempt
  split
  · rfl
  · rfl

theorem preempt_proc (t : ι) : T.preempt.proc t =
    if T.current = some t then { T.proc t with state := .runnable } else T.proc t := by
  unfold preempt
  cases T.current with
  | none => simp
  | some current => grind

/-- Make a task current, in user mode and with clear flags. -/
def dispatch (t : ι) : Table ι :=
  { T.preempt with current := some t, resumed := true }.modify t fun s =>
    { s with state := .running, r := { s.r with ss := 0x23, cs := 0x1b, rflag := 0x200 } }

/-- Replace the frame of a task. -/
def save (t : ι) (r : Regs) : Table ι := T.modify t fun s => { s with r := r }

/-- Replace the frame of the current task, if there is one. -/
def saveCurrent (r : Regs) : Table ι :=
  match T.current with
  | none => T
  | some current => T.save current r

/-- Saving a frame leaves everything else. -/
theorem saveCurrent_eq (r : Regs) : T.saveCurrent r = { T with proc := (T.saveCurrent r).proc } := by
  unfold saveCurrent
  split
  · rfl
  · rfl

/-- The table when an interrupt arrives. -/
def settle : Table ι := { T with newest := none, resumed := false }

/-- Take the first free structure. -/
def reuse (rest : List ι) : Table ι := { T with free := rest }

/-- Create a task, which may not be listed. -/
def create (t : ι) (listed : Bool) : Table ι :=
  { T with
    live := if listed then T.live ++ [t] else T.live
    known := T.known.insert t
    pid := T.pid + 1
    newest := some t }.modify t fun s => .fresh (T.pid.setWidth 32) s.r

/-- Name the parent of a new child, which takes over its frame. -/
def adopt (child parent : ι) : Table ι :=
  { T with forking := some child }.modify child fun s =>
    { s with ppid := (T.proc parent).pid, r := { (T.proc parent).r with rax := 0 } }

/-- Link a child to its parent, which counts it. -/
def link (child parent : ι) : Table ι :=
  ({ T with forking := none }.modify child fun s => { s with parent := some parent }).modify parent
    fun s => { s with childCount := s.childCount + 1 }

@[simp]
theorem adopt_current (child parent : ι) : (T.adopt child parent).current = T.current :=
  rfl

@[simp]
theorem adopt_dying (child parent : ι) : (T.adopt child parent).dying = T.dying :=
  rfl

@[simp]
theorem adopt_resumed (child parent : ι) : (T.adopt child parent).resumed = T.resumed :=
  rfl

@[simp]
theorem adopt_forking (child parent : ι) : (T.adopt child parent).forking = some child :=
  rfl

@[simp]
theorem link_current (child parent : ι) : (T.link child parent).current = T.current :=
  rfl

@[simp]
theorem link_dying (child parent : ι) : (T.link child parent).dying = T.dying :=
  rfl

@[simp]
theorem link_resumed (child parent : ι) : (T.link child parent).resumed = T.resumed :=
  rfl

@[simp]
theorem link_forking (child parent : ι) : (T.link child parent).forking = none :=
  rfl

/-- Give a new task the identity of the task that executed its program. -/
def exec (t task : ι) : Table ι :=
  let T₁ := T.modify task fun s => { s with pid := (T.proc t).pid, ppid := (T.proc t).ppid }
  let T₂ := T₁.modify t fun s => { s with ppid := 0 }
  T₂.modify task fun s => { s with parent := (T₂.proc t).parent }

/-- Tell the parent that a child ends. -/
def leave (parent : ι) : Table ι :=
  { T with dying := true }.modify parent fun s =>
    { s with state := .runnable, childCount := s.childCount - 1 }

/-- Take the task that ends off the list. -/
def unlink (t : ι) : Table ι :=
  { T with dying := true, live := T.live.erase t }.modify t fun s => { s with state := .stopped }

/-- Free the structure of the task that ended. -/
def bury (t : ι) (free : List ι) : Table ι :=
  { T with dying := false, free := free, current := none }.modify t .cleared

/-- Take a killed task off the list. -/
def kill (t : ι) : Table ι :=
  { T with live := T.live.erase t }.modify t fun s => { s with state := .stopped }

/-- Free the structure of a killed task. -/
def discard (t : ι) : Table ι := { T with free := T.free ++ [t] }.modify t .cleared

/-- Two tables in which the same task is served. -/
structure Goes (T T' : Table ι) : Prop where
  current : T'.current = T.current
  dying : T'.dying = T.dying
  forking : T'.forking = T.forking
  resumed : T'.resumed = T.resumed

omit [DecidableEq ι] in
theorem Goes.refl (T : Table ι) : T.Goes T :=
  ⟨rfl, rfl, rfl, rfl⟩

omit [DecidableEq ι] in
theorem Goes.trans {T T' T'' : Table ι} (first : T.Goes T') (second : T'.Goes T'') : T.Goes T'' :=
  ⟨second.current.trans first.current, second.dying.trans first.dying,
    second.forking.trans first.forking, second.resumed.trans first.resumed⟩

theorem saveCurrent_goes (r : Regs) : T.Goes (T.saveCurrent r) := by
  rw [saveCurrent_eq]
  exact ⟨rfl, rfl, rfl, rfl⟩

/-- The moves of a process table. -/
inductive Move : Table ι → Event ι → Table ι → Prop
  | wake {T : Table ι} {proc : ι → Proc ι} {faults : Nat}
      (same : ∀ t, proc t = { T.proc t with state := (proc t).state, r := (proc t).r })
      (state : ∀ t, (proc t).state = (T.proc t).state ∨ (proc t).state = .runnable)
      (others : ∀ t, T.current ≠ some t → (proc t).r = (T.proc t).r)
      (frame : (faults = T.faults ∧ ∀ t, (proc t).r = (T.proc t).r) ∨
        (T.faults < faults ∧ ∃ t, T.current = some t ∧ (proc t).r.cs = 0x08)) :
      Move T .wake { T with proc := proc, faults := faults }
  | enter {T : Table ι} {t : ι} {r : Regs} (running : T.current = some t) :
      Move T (.enter t) (T.save t r)
  | save {T : Table ι} {t : ι} {r : Regs}
      (own : (T.current = some t ∧ r = { (T.proc t).r with rax := r.rax }) ∨ T.newest = some t ∨
        t ∉ T.live) :
      Move T (.save t) (T.save t r)
  | dispatch {T : Table ι} {t : ι} (other : T.current ≠ some t)
      (listed : (∀ current ∈ T.current, current ∈ T.live) → t ∈ T.live)
      (alive : T.dying = false) : Move T (.dispatch t) (T.dispatch t)
  | pause {T : Table ι} {t : ι} {state : TaskState} {waitFor : Word} (running : T.current = some t)
      (stops : state ≠ .running) (alive : T.dying = false) :
      Move T (.pause t) ({ T with current := none }.modify t fun s =>
        { s with state := state, waitForChildPid := waitFor })
  | reuse {T : Table ι} {t : ι} {rest : List ι} (first : T.free = t :: rest) :
      Move T (.reuse t) (T.reuse rest)
  | create {T : Table ι} {t : ι} {listed : Bool} (notLive : t ∉ T.live) (notFree : t ∉ T.free) :
      Move T (.create t) (T.create t listed)
  | adopt {T : Table ι} {child parent : ι} (running : T.current = some parent)
      (created : T.newest = some child) : Move T (.adopt child) (T.adopt child parent)
  | link {T : Table ι} {child parent : ι} (running : T.current = some parent)
      (forking : T.forking = some child) : Move T (.link child) (T.link child parent)
  | exec {T : Table ι} {t task : ι} (running : T.current = some t)
      (created : T.newest = some task) : Move T (.exec t task) (T.exec t task)
  | leave {T : Table ι} {t parent : ι} (running : T.current = some t) (child : 0 < (T.proc t).ppid)
      (linked : (T.proc t).parent = some parent) : Move T (.leave t) (T.leave parent)
  | unlink {T : Table ι} {t : ι} (running : T.current = some t) : Move T (.unlink t) (T.unlink t)
  | bury {T : Table ι} {t : ι} {free : List ι} (running : T.current = some t)
      (notLive : t ∉ T.live) (freed : ∀ s ∈ free, s ∈ T.free ∨ s = t) :
      Move T (.bury t) (T.bury t free)
  | kill {T : Table ι} {t : ι} (listed : t ∈ T.live) : Move T (.kill t) (T.kill t)
  | discard {T : Table ι} {t : ι} (notLive : t ∉ T.live) (alive : T.dying = false) :
      Move T (.discard t) (T.discard t)

/-- What the moves of a run may do beyond scheduling. -/
structure Policy (ι : Type u) where
  /-- Whether the frame of the current task may be replaced as a whole. -/
  enter : Prop
  create : Table ι → Prop
  fork : Table ι → Prop
  exec : Table ι → Prop
  kill : Table ι → ι → Prop
  exit : Table ι → Prop
  /-- Whether the current task may block. -/
  pause : Table ι → Prop

/-- Whether a policy allows an operation. -/
def Policy.Allows (policy : Policy ι) (T : Table ι) : Event ι → Prop
  | .enter _ => policy.enter
  | .create _ => policy.create T
  | .adopt _ => policy.fork T
  | .exec _ _ => policy.exec T
  | .kill t => policy.kill T t
  | .leave _ => policy.exit T
  | .unlink _ => policy.exit T
  | .pause _ => policy.pause T
  | _ => True

/-- Whatever a policy allows, another one allows. -/
def Policy.Within (policy final : Policy ι) : Prop :=
  ∀ (T : Table ι) (event : Event ι), policy.Allows T event → final.Allows T event

/-- The tables that allowed moves lead to, until a task is dispatched. -/
inductive Run (policy : Policy ι) (start : Table ι) : Table ι → Prop
  | start : Run policy start start
  | move {T T' : Table ι} {event : Event ι} (before : Run policy start T)
      (busy : T.resumed = false) (moved : Move T event T') (allowed : policy.Allows T event) :
      Run policy start T'

theorem Run.mono {policy final : Policy ι} {start T : Table ι} (run : Run policy start T)
    (within : policy.Within final) : Run final start T := by
  induction run with
  | start => exact .start
  | move _ busy moved allowed ih => exact .move ih busy moved (within _ _ allowed)

/-- What every allowed move keeps holds along every run. -/
theorem Run.keeps {policy : Policy ι} {start T : Table ι} {P : Table ι → Prop}
    (run : Run policy start T) (first : P start)
    (each : ∀ {T T' : Table ι} {event : Event ι}, P T → T.resumed = false → Move T event T' →
      policy.Allows T event → P T') : P T := by
  induction run with
  | start => exact first
  | move _ busy moved allowed ih => exact each ih busy moved allowed

end Table

end Sbrocks.Process
