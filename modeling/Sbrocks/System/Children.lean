import Sbrocks.System.Blocking
import Sbrocks.System.Frames
import Sbrocks.System.PipeKeys

/-!
# What fork makes

A fork that its caller lives through makes exactly one task: a child behind all others in the
task list, with a new pid, which goes on from where its parent was interrupted.
-/

namespace Sbrocks.Process

open Sbrocks.Mmu Sbrocks.Transition

variable {frames : Kernel → Word → Regs} {depth : Nat} {k k' : Kernel} {T T' : Table Word}
  {parent child t : Word} {r : Regs}

/-- How a task is related to the others. -/
structure Kin where
  pid : BitVec 32
  ppid : BitVec 32
  parent : Option Word
  childCount : Word

def Proc.kin (s : Proc Word) : Kin where
  pid := s.pid
  ppid := s.ppid
  parent := s.parent
  childCount := s.childCount

def TaskStruct.kin (s : TaskStruct) : Kin := s.proc.kin

/-! ## Between the moves of a fork -/

/-- Tasks are woken, and page faults may be taken. -/
structure Table.Woken (T T' : Table Word) : Prop where
  kin : ∀ t, (T'.proc t).kin = (T.proc t).kin
  faults : T.faults ≤ T'.faults
  frame : T'.faults = T.faults → ∀ t, (T'.proc t).r = (T.proc t).r

theorem Table.Move.woken (moved : T.Move .wake T') : T.Woken T' := by
  cases moved with
  | wake same state others frame =>
      rename_i proc faults
      refine ⟨fun t => ?_, ?_, fun quiet => ?_⟩
      · show (proc t).kin = _
        rw [same t]
        rfl
      · rcases frame with ⟨quiet, _⟩ | ⟨more, _⟩
        · exact Nat.le_of_eq quiet.symm
        · exact Nat.le_of_lt more
      · rcases frame with ⟨_, frames⟩ | ⟨more, _⟩
        · exact frames
        · exact absurd quiet (Nat.ne_of_gt more)

/-- What fork does last, in the table. -/
def Table.tell (T : Table Word) (parent child : Word) : Table Word :=
  { T.modify parent fun s => { s with
      state := .runnable, r := { s.r with rax := (T.proc child).pid.setWidth 64 } } with
    current := none }

theorem View.tellParent (view : View k T) (parent child : Word) :
    View (k.tellParent parent child) (T.tell parent child) := by
  have told := view.modTask parent
    (fun s => { s with
      r := { s.r with rax := (k.task child).pid.setWidth 64 }, state := .runnable })
    (fun s => { s with
      state := .runnable, r := { s.r with rax := (T.proc child).pid.setWidth 64 } })
    rfl (by rw [view.proc]; rfl)
  exact told.setCurrentTask none

/-- A task gives up the processor: the first task of the list is dispatched. -/
theorem View.yield_first (view : View k T) (idle : k.currentTask = none) {first : Word}
    (head : k.taskList = some first) :
    k.yield.All (fun _ => False) fun k' => ∃ T', T.Woken T' ∧ T'.live = T.live ∧ T'.pid = T.pid ∧
      T'.faults = T.faults ∧ View k' (T'.dispatch first) := by
  have entry : k.saveFrame default = k := by rw [Kernel.saveFrame, idle]
  unfold Kernel.yield
  rw [Kernel.timerHandler_eq, entry]
  cases counted : k.countTick with
  | stuck => trivial
  | left state =>
      have aged := Kernel.countTick_aged k
      rw [counted] at aged
      exact aged.elim
  | next mid =>
      have aged := (Kernel.countTick_aged k).of_next counted
      have idle' : mid.currentTask = none := aged.currentTask.trans idle
      have head' : mid.taskList = some first := by
        rw [aged.same]
        exact head
      have chosen : mid.scheduleProcess = .next (mid.dispatch first) := by
        unfold Kernel.scheduleProcess
        rw [idle']
        dsimp only [Kernel.getNextTask]
        rw [head']
        rfl
      have dispatched := (view.aged aged).dispatch first
      rw [Kernel.preempt, idle'] at dispatched
      dsimp only [Flow.next_bind]
      rw [chosen]
      have same : (T.withTasks mid).faults = T.faults := by
        rw [view.faults]
        exact aged.kernelFaults
      exact ⟨_, (view.wakes_aged aged).woken, rfl, rfl, same, dispatched⟩

/-! ## The tables of a fork -/

section

variable (T : Table Word)

theorem Table.create_kin (child t : Word) (listed : Bool) :
    ((T.create child listed).proc t).kin =
      if t = child then ⟨T.pid.setWidth 32, 0, none, 0⟩ else (T.proc t).kin := by
  rw [Table.create, Table.modify_proc]
  split <;> rfl

theorem Table.create_frame {child t : Word} (listed : Bool) (other : t ≠ child) :
    ((T.create child listed).proc t).r = (T.proc t).r := by
  rw [Table.create, Table.modify_proc, if_neg other]

theorem Table.adopt_kin (child parent t : Word) : ((T.adopt child parent).proc t).kin =
    if t = child then { (T.proc child).kin with ppid := (T.proc parent).kin.pid }
    else (T.proc t).kin := by
  rw [Table.adopt, Table.modify_proc]
  split <;> rfl

theorem Table.adopt_frame (child parent t : Word) : ((T.adopt child parent).proc t).r =
    if t = child then { (T.proc parent).r with rax := 0 } else (T.proc t).r := by
  rw [Table.adopt, Table.modify_proc]
  split <;> rfl

theorem Table.link_kin (other : parent ≠ child) (t : Word) :
    ((T.link child parent).proc t).kin =
      if t = child then { (T.proc t).kin with parent := some parent }
      else if t = parent then { (T.proc t).kin with childCount := (T.proc t).kin.childCount + 1 }
      else (T.proc t).kin := by
  rw [Table.link, Table.modify_proc, Table.modify_proc, Table.modify_proc]
  by_cases this : t = child
  · rw [if_pos this, if_neg (this ▸ other.symm), if_pos this, this]
    rfl
  · rw [if_neg this]
    by_cases that : t = parent
    · subst that
      rw [if_pos rfl, if_neg this, if_neg this, if_pos rfl]
      rfl
    · rw [if_neg that, if_neg this, if_neg that]

theorem Table.link_frame (child parent t : Word) :
    ((T.link child parent).proc t).r = (T.proc t).r := by
  rw [Table.link, Table.modify_proc_field _ Proc.r _ _ rfl, Table.modify_proc_field _ Proc.r _ _ rfl]

theorem Table.tell_kin (parent child t : Word) :
    ((T.tell parent child).proc t).kin = (T.proc t).kin := by
  unfold Table.tell
  dsimp only
  rw [Table.modify_proc_field _ Proc.kin _ _ rfl]

theorem Table.tell_frame (parent child t : Word) : ((T.tell parent child).proc t).r =
    if t = parent then { (T.proc t).r with rax := (T.proc child).kin.pid.setWidth 64 }
    else (T.proc t).r := by
  unfold Table.tell
  dsimp only
  rw [Table.modify_proc]
  split
  · rename_i this
    rw [this]
    rfl
  · rfl

end

/-- A fork, in the table: the tasks that it wakes stand between its moves. -/
structure Table.Forks (T : Table Word) (parent child : Word) (T' : Table Word) : Prop where
  kin : ∀ t, (T'.proc t).kin =
    if t = child then ⟨T.pid.setWidth 32, (T.proc parent).kin.pid, some parent, 0⟩
    else if t = parent then
      { (T.proc t).kin with childCount := (T.proc t).kin.childCount + 1 }
    else (T.proc t).kin
  faults : T.faults ≤ T'.faults
  frame : T'.faults = T.faults → ∀ t, (T'.proc t).r =
    if t = child then { (T.proc parent).r with rax := 0 }
    else if t = parent then { (T.proc t).r with rax := (T.pid.setWidth 32).setWidth 64 }
    else (T.proc t).r

theorem Table.forks {T₁ T₃ T₅ T₇ : Table Word} (other : parent ≠ child) (pid : T₁.pid = T.pid)
    (woken₁ : T.Woken T₁) (woken₃ : ((T₁.create child true).adopt child parent).Woken T₃)
    (woken₅ : (T₃.link child parent).Woken T₅) (woken₇ : (T₅.tell parent child).Woken T₇) :
    T.Forks parent child T₇ := by
  have kin₁ : ∀ t, (((T₁.create child true).adopt child parent).proc t).kin =
      if t = child then ⟨T.pid.setWidth 32, (T.proc parent).kin.pid, none, 0⟩
      else (T.proc t).kin := by
    intro t
    rw [adopt_kin, create_kin, create_kin, create_kin, if_pos rfl, if_neg other, woken₁.kin,
      woken₁.kin, pid]
    split <;> rfl
  have kin : ∀ t, (T₅.proc t).kin =
      if t = child then ⟨T.pid.setWidth 32, (T.proc parent).kin.pid, some parent, 0⟩
      else if t = parent then
        { (T.proc t).kin with childCount := (T.proc t).kin.childCount + 1 }
      else (T.proc t).kin := by
    intro t
    rw [woken₅.kin, link_kin _ other, woken₃.kin, kin₁]
    by_cases this : t = child
    · rw [if_pos this, if_pos this, if_pos this]
    · rw [if_neg this, if_neg this, if_neg this]
  refine ⟨fun t => ?_, ?_, fun quiet t => ?_⟩
  · rw [woken₇.kin, tell_kin, kin]
  · exact (woken₁.faults.trans woken₃.faults).trans (woken₅.faults.trans woken₇.faults)
  · have first : T.faults ≤ T₁.faults := woken₁.faults
    have third : T₁.faults ≤ T₃.faults := woken₃.faults
    have fifth : T₃.faults ≤ T₅.faults := woken₅.faults
    have seventh : T₅.faults ≤ T₇.faults := woken₇.faults
    have quiet₁ : T₁.faults = T.faults := by omega
    have quiet₃ : T₃.faults = ((T₁.create child true).adopt child parent).faults :=
      show T₃.faults = T₁.faults by omega
    have quiet₅ : T₅.faults = (T₃.link child parent).faults :=
      show T₅.faults = T₃.faults by omega
    have quiet₇ : T₇.faults = (T₅.tell parent child).faults :=
      show T₇.faults = T₅.faults by omega
    rw [woken₇.frame quiet₇, tell_frame, kin, if_pos rfl, woken₅.frame quiet₅, link_frame,
      woken₃.frame quiet₃, adopt_frame, create_frame _ _ other, woken₁.frame quiet₁]
    by_cases this : t = child
    · rw [if_pos this, if_neg (this ▸ other.symm), if_pos this]
    · rw [if_neg this, if_neg this, create_frame _ _ this, woken₁.frame quiet₁]

/-! ## The kernel's fork -/

/-- What a fork leaves behind, for the table in which it began. -/
structure Table.Begets (T : Table Word) (parent child first : Word) (T' : Table Word)
    (k' : Kernel) : Prop where
  head : T.live.head? = some first
  new : child ∉ T.live
  forks : T.Forks parent child T'
  live : T'.live = T.live ++ [child]
  pid : T'.pid = T.pid + 1
  view : View k' (T'.dispatch first)

/-- A fork that its caller lives through makes one child, and the first task of the list runs. -/
theorem View.systemFork_begets (view : View k T) (busy : T.resumed = false)
    (running : k.currentTask = some parent) (listed : parent ∈ T.live) :
    (k.systemFork (Kernel.kernelFault frames depth)).All (fun _ => False)
      fun k' => Ended anything T k' ∨ ∃ child first T', T.Begets parent child first T' k' := by
  have answers : (Kernel.kernelFault frames depth).Answers (Serving anything T)
      (Ended anything T) :=
    (kernelFault_serving (fun _ _ allowed => allowed) (fun _ => trivial) frames depth).1
  have here : T.current = some parent := view.current.trans running
  rw [Kernel.systemFork_eq, running]
  dsimp only [Flow.ofOption, Flow.next_bind]
  have serving : ∀ {k' : Kernel} {t : Word} {rest : List Word}, View k' (T.reuse rest) →
      T.Takes t rest → Serving anything T k' :=
    fun viewed took => ⟨_, viewed, took.run .start busy, rfl, busy⟩
  have made := view.createTask answers (.text Kernel.childName) serving
  have named := createNewTask_name (J := Ended anything T) (Kernel.kernelFault frames depth) k
    Kernel.childName (by decide) (by decide)
  apply Flow.All.bind ((made.and named).mono (fun _ both => both) fun _ both => .inl both.1)
  rintro ⟨k₁, child⟩ ⟨⟨rest, mid, isListed, took, notLive, notFree, named, woken, view₁⟩, name⟩
  dsimp only at name view₁ woken
  have other : parent ≠ child := fun same => notLive (same ▸ listed)
  have isIn : isListed = true := by
    rw [← Bool.not_eq_false, named, name]
    decide
  subst isIn
  generalize first : (T.reuse rest).withTasks mid = T₁ at view₁ woken
  have busy₁ : T₁.resumed = false := by
    rw [← first]
    exact busy
  have here₁ : T₁.current = some parent := by
    rw [← first]
    exact here
  have run₁ : T.Run anything (T₁.create child true) :=
    ((took.run .start busy).move busy woken trivial).move busy₁
      (.create (first ▸ notLive) (first ▸ notFree)) trivial
  have adopted := Kernel.adoptChild_view view₁ parent child
  have serving₂ : Serving anything T (k₁.adoptChild parent child) :=
    ⟨_, adopted, run₁.move busy₁ (.adopt here₁ rfl) trivial, here₁.trans here.symm, busy₁⟩
  have copied : Quiets (Ended anything T) (k₁.adoptChild parent child) _ :=
    .of_spaces (Kernel.setupMemory_spaces answers.spaced serving₂ child parent)
  apply Flow.All.bind (copied.mono (fun _ quiet => quiet) fun _ => .inl)
  intro k₃ quiet₃
  change Quiet (k₁.adoptChild parent child) k₃ at quiet₃
  have woken₃ := (adopted.wakes_quiet quiet₃).woken
  have view₃ := adopted.quiet quiet₃
  have linked := Kernel.linkChild_view view₃ parent child
  apply Flow.All.bind ((Kernel.copyPipes_quiet (k₃.linkChild parent child) child
    ((k₃.linkChild parent child).task parent).pipe
    (k₃.linkChild parent child).fileRounds).mono (fun _ quiet => quiet) fun _ => .inl)
  intro k₅ quiet₅
  change Quiet (k₃.linkChild parent child) k₅ at quiet₅
  have woken₅ := (linked.wakes_quiet quiet₅).woken
  have told := (linked.quiet quiet₅).tellParent parent child
  have live₁ : T₁.live = T.live := by
    rw [← first]
    rfl
  rcases hd : T.live with _ | ⟨front, behind⟩
  · rw [hd] at listed
    cases listed
  have head : (k₅.tellParent parent child).taskList = some front := by
    have chain := told.live
    change Chain.Linked _ _ (T₁.live ++ [child]) at chain
    rw [live₁, hd] at chain
    exact chain.1
  have yields : (k₅.tellParent parent child).yield.All (fun _ => False)
      fun k' => Ended anything T k' ∨ ∃ child first T', T.Begets parent child first T' k' := by
    apply (told.yield_first rfl head).mono fun _ nothing => nothing
    rintro k' ⟨T₇, woken₇, live₇, pid₇, -, view₇⟩
    have pid₁ : T₁.pid = T.pid := by
      rw [← first]
      rfl
    have woken₁ : T.Woken T₁ := ⟨woken.woken.kin, woken.woken.faults, woken.woken.frame⟩
    refine .inr ⟨child, front, T₇, ?_, notLive, ?_, ?_, ?_, view₇⟩
    · rw [hd]
      rfl
    · exact Table.forks other pid₁ woken₁ woken₃ woken₅ woken₇
    · rw [live₇, ← live₁]
      rfl
    · rw [pid₇, ← pid₁]
      rfl
  exact yields.bind fun _ nothing => nothing.elim

/-- A new task, the last of the list, is a child of the task whose call had the frame `r`.  The
first task of the list runs, and if the kernel took no page fault the two differ in `rax`. -/
structure NewChild (k k' : Kernel) (r : Regs) (parent child : Word) (tasks : List Word) : Prop where
  before : Chain.Linked k.nextTask k.taskList tasks
  new : child ∉ tasks
  after : Chain.Linked k'.nextTask k'.taskList (tasks ++ [child])
  pid : k'.pid = k.pid + 1
  resumed : k'.currentTask = tasks.head?
  kin : ∀ t, (k'.task t).kin =
    if t = child then ⟨k.pid.setWidth 32, (k.task parent).pid, some parent, 0⟩
    else if t = parent then
      { (k.task t).kin with childCount := (k.task t).childCount + 1 }
    else (k.task t).kin
  frame : k'.kernelFaults = k.kernelFaults → ∀ t, (k'.task t).r =
    (if k'.currentTask = some t then Kernel.startFrame else id)
      (if t = child then { r with rax := 0 }
      else if t = parent then { r with rax := (k.pid.setWidth 32).setWidth 64 }
      else (k.task t).r)

/-- Dispatching changes only tasks, and which of them runs. -/
theorem Table.dispatch_eq (T : Table Word) (first : Word) : T.dispatch first =
    { T with current := some first, resumed := true, proc := (T.dispatch first).proc } := by
  unfold Table.dispatch
  rw [preempt_eq]
  rfl

theorem Table.dispatch_kin (T : Table Word) (first t : Word) :
    ((T.dispatch first).proc t).kin = (T.proc t).kin := by
  rw [Table.dispatch, Table.modify_proc_field _ Proc.kin _ _ rfl]
  show (T.preempt.proc t).kin = _
  rw [preempt_proc]
  split <;> rfl

theorem Table.dispatch_frame (T : Table Word) (first t : Word) :
    ((T.dispatch first).proc t).r =
      (if some first = some t then Kernel.startFrame else id) (T.proc t).r := by
  have kept : (T.preempt.proc t).r = (T.proc t).r := by
    rw [preempt_proc]
    split <;> rfl
  rw [Table.dispatch, Table.modify_proc, ← kept]
  by_cases same : t = first
  · rw [if_pos same, if_pos (congrArg some same.symm), same]
    rfl
  · rw [if_neg same, if_neg fun again => same (Option.some.inj again).symm]
    rfl

theorem saveFrame_same (k : Kernel) (r : Regs) :
    (k.saveFrame r).heads = k.heads ∧ (k.saveFrame r).kernelFaults = k.kernelFaults := by
  unfold Kernel.saveFrame
  split
  · exact ⟨rfl, rfl⟩
  · exact ⟨rfl, rfl⟩

theorem saveFrame_kin (k : Kernel) (r : Regs) (t : Word) :
    ((k.saveFrame r).task t).kin = (k.task t).kin := by
  unfold Kernel.saveFrame
  split
  · rfl
  · exact k.modTask_task_field TaskStruct.kin _ t rfl

/-- The table in which a call begins has the tasks of the state before it. -/
theorem View.kin (view : View (k.saveFrame r) T) (t : Word) : (T.proc t).kin = (k.task t).kin := by
  rw [view.proc]
  exact saveFrame_kin k r t

theorem View.frame (view : View (k.saveFrame r) T) (running : k.currentTask = some parent) :
    (T.proc parent).r = r ∧ ∀ t, t ≠ parent → (T.proc t).r = (k.task t).r := by
  refine ⟨?_, fun t other => ?_⟩
  · rw [view.proc]
    exact k.saveFrame_r_self r running
  · rw [view.proc]
    rw [k.saveFrame_task_of_ne r fun same => other (Option.some.inj (running.symm.trans same)).symm]
    rfl

theorem Table.Begets.newChild {first : Word} (begets : T.Begets parent child first T' k')
    (view : View (k.saveFrame r) T) (running : k.currentTask = some parent) :
    NewChild k k' r parent child T.live := by
  have current : k'.currentTask = some first := begets.view.current.symm
  have live : (T'.dispatch first).live = T.live ++ [child] := by
    rw [T'.dispatch_eq]
    exact begets.live
  have pid : (T'.dispatch first).pid = T.pid + 1 := by
    rw [T'.dispatch_eq]
    exact begets.pid
  have faults : (T'.dispatch first).faults = T'.faults := by
    rw [T'.dispatch_eq]
  have same := saveFrame_sameList k r
  have counted : T.pid = k.pid := by
    rw [view.pid]
    exact congrArg Heads.pid (saveFrame_same k r).1
  refine ⟨?_, begets.new, ?_, ?_, ?_, fun t => ?_, fun quiet t => ?_⟩
  · rw [← same.taskList]
    exact view.live.congr fun t _ => (same.next t).symm
  · rw [← live]
    exact begets.view.live
  · rw [← begets.view.pid, pid, counted]
  · rw [current, begets.head]
  · show (k'.task t).proc.kin = _
    rw [← begets.view.proc t, Table.dispatch_kin, begets.forks.kin, view.kin parent, view.kin t,
      counted]
    rfl
  · have steady : T'.faults = T.faults := by
      rw [← faults, begets.view.faults, quiet, view.faults]
      exact (saveFrame_same k r).2.symm
    rcases view.frame running with ⟨own, others⟩
    show (k'.task t).proc.r = _
    rw [← begets.view.proc t, Table.dispatch_frame, begets.forks.frame steady, own, counted, current]
    by_cases isChild : t = child
    · rw [if_pos isChild, if_pos isChild]
    · rw [if_neg isChild, if_neg isChild]
      by_cases isParent : t = parent
      · rw [if_pos isParent, if_pos isParent, isParent, own]
      · rw [if_neg isParent, if_neg isParent, others t isParent]

/-- A task goes on with a frame, now or after any run in which it waits for its turn. -/
def GoesOn (frames : Kernel → Word → Regs) (depth : Nat) (k : Kernel) (t : Word) (F : Regs) : Prop :=
  if k.currentTask = some t then (k.task t).r = Kernel.startFrame F
  else ∀ {events k₁ interrupt k₂}, Runs (Waiting frames depth t) k events k₁ →
    Step frames depth k₁ interrupt k₂ → Spared t k₁ interrupt → k₂.currentTask = some t →
    (k₂.task t).r = Kernel.startFrame F

theorem View.goesOn {F : Regs} (view : View k T) (live : t ∈ T.live)
    (frame : (k.task t).r = (if k.currentTask = some t then Kernel.startFrame else id) F) :
    GoesOn frames depth k t F := by
  unfold GoesOn
  split
  · rename_i here
    rwa [if_pos here] at frame
  · rename_i off
    rw [if_neg off] at frame
    intro events k₁ interrupt k₂ run stepped spared here
    have viewed := view.remark false T.resumed T.forking T.newest
    rw [(viewed.parked rfl live off run).2 interrupt k₂ stepped spared here, frame]
    rfl

/-- In a run in which no process kills itself, a fork that its caller lives through makes one
task.  If the kernel takes no page fault meanwhile, the child goes on from the call with 0 and the
caller with the pid of the child. -/
theorem fork_returns_twice (reachable : Reachable frames depth NoSuicide k)
    (running : k.currentTask = some parent) (fork : r.rax = 57)
    (stepped : Step frames depth k (.syscall r) k') :
    ¬ Chain.Member k'.nextTask k'.taskList parent ∨
      ∃ tasks child, NewChild k k' r parent child tasks ∧
        (k'.kernelFaults = k.kernelFaults → GoesOn frames depth k' child { r with rax := 0 } ∧
          GoesOn frames depth k' parent
            { r with rax := ((k'.task child).pid).setWidth 64 }) := by
  rcases reachable.current_listed with ⟨T, view, alive, listed⟩
  have entered := view.entered (.syscall r)
  have here : (k.saveFrame r).currentTask = some parent :=
    (k.saveFrame_currentTask r).trans running
  have live : parent ∈ ((Interrupt.syscall r).entered T).live := by
    show parent ∈ (T.settle.saveCurrent r).live
    rw [Table.saveCurrent_eq]
    exact listed parent running
  have busy := ((Interrupt.syscall r).goes_entered T).resumed
  have begets : ((k.saveFrame r).systemFork (Kernel.kernelFault frames depth)).All (fun _ => False)
      fun k' => Ended anything ((Interrupt.syscall r).entered T) k' ∨
        ∃ child first T', ((Interrupt.syscall r).entered T).Begets parent child first T' k' :=
    entered.systemFork_begets busy here live
  cases stepped with
  | syscall _ _ handled =>
      have calls : (k.syscallHandler (Kernel.kernelFault frames depth) r).All (fun _ => False)
          fun k' => Ended anything ((Interrupt.syscall r).entered T) k' ∨
            ∃ child first T', ((Interrupt.syscall r).entered T).Begets parent child first T' k' := by
        unfold Kernel.syscallHandler
        rw [running]
        dsimp only [Flow.ofOption, Flow.next_bind]
        rw [k.saveFrame_r_self r running, fork]
        exact Flow.All.bind begets fun _ nothing => nothing.elim
      rcases Flow.All.ends (P := fun _ => False) calls handled with nothing | lost | made
      · exact nothing.elim
      · rcases lost with ⟨T', view', _, _, gone⟩
        have member := view'.live.member_iff (t := parent)
        exact .inl fun still => gone parent (entered.current.trans here) (member.mp still)
      · rcases made with ⟨child, first, T', begets⟩
        have made := begets.newChild entered running
        refine .inr ⟨_, child, made, fun quiet => ?_⟩
        have other : parent ≠ child := fun same => made.new (same ▸ live)
        have pid : (k'.task child).pid = k.pid.setWidth 32 := by
          have kin := made.kin child
          rw [if_pos rfl] at kin
          exact congrArg Kin.pid kin
        have after : (T'.dispatch first).live = ((Interrupt.syscall r).entered T).live ++ [child] := by
          rw [T'.dispatch_eq]
          exact begets.live
        constructor
        · apply begets.view.goesOn (after ▸ List.mem_append_right _ (List.mem_singleton_self child))
          rw [made.frame quiet child, if_pos rfl]
        · apply begets.view.goesOn (after ▸ List.mem_append_left _ live)
          rw [made.frame quiet parent, if_neg other, if_pos rfl, pid]

theorem forks_checks : Flow.checks (calling secondRuns 57 0 0) (fun k =>
    k.taskList = some 0x1000 && k.nextTask 0x1000 = some 0x2000 &&
      k.nextTask 0x2000 = some 0x10000 && k.nextTask 0x10000 = none &&
      k.kernelFaults = secondRuns.kernelFaults) = true := by
  unfold calling Kernel.syscallHandler Kernel.switchHandler Kernel.systemFork Kernel.createNewTask
  simp only [Machine.envSetupVm_eq]
  decide_cbv

/-- The second process forks. -/
theorem fork_returns_twice_secondRuns : ∃ k' tasks child,
    NewChild secondRuns k' (callFrame 57 0 0) 0x2000 child tasks ∧
    GoesOn noFrames 0 k' child { callFrame 57 0 0 with rax := 0 } ∧
    GoesOn noFrames 0 k' 0x2000
      { callFrame 57 0 0 with rax := ((k'.task child).pid).setWidth 64 } := by
  have current := reachable_secondRuns.2
  have reachable : Reachable noFrames 0 NoSuicide secondRuns := by
    rcases ticked_step (show Flow.checks (firstRuns.timerHandler (callFrame 0 0 0))
      (fun _ => true) = true by decide) with ⟨stepped, _⟩
    exact .step (reachable_firstRuns nofun) stepped nofun
  rcases called_step current forks_checks with ⟨stepped, facts⟩
  simp only [Bool.and_eq_true, decide_eq_true_eq] at facts
  rcases facts with ⟨⟨⟨⟨head, second⟩, third⟩, last⟩, quiet⟩
  have listed : Chain.Linked (called secondRuns 57 0 0).nextTask
      (called secondRuns 57 0 0).taskList [0x1000, 0x2000, 0x10000] := ⟨head, second, third, last⟩
  rcases fork_returns_twice reachable current rfl stepped with lost | ⟨tasks, child, made, goOn⟩
  · exact absurd (listed.member_iff.mpr (by decide)) lost
  · exact ⟨_, tasks, child, made, goOn quiet⟩

end Sbrocks.Process
