import Sbrocks.System.Tasks
import Sbrocks.Fs.Archive
import Sbrocks.Process.Devices

/-!
# Executing a file that does not exist

The lookup of a file that is not in the archive gives 0, which the loader takes for the
position of a program.  `execve` then has no way to fail: it returns 0 to its caller, who
lost its parent, beside a new task.
-/

namespace Sbrocks.Process

open Sbrocks.Mmu

section

variable {fault : Fault} {roots : Word → Prop} {k k' : Kernel} {members before after : List Member}
  {places : Nat → Place} {T : Table Word} {frames : Kernel → Word → Regs} {depth : Nat}

namespace Archived

open Member

/-- The lookup comes to the end of the archive. -/
theorem findOffsetLoop_missing (archived : Archived roots k (before ++ after) places)
    {fname : List Byte} (text : (0 : Byte) ∉ fname)
    (missing : ∀ member ∈ after, member.name ≠ fname) {rounds : Nat} (enough : after.length < rounds) :
    k.findOffsetLoop fault fname (BitVec.ofNat 64 (offsetOf before)) rounds = .next (k, 0) := by
  induction after generalizing before rounds with
  | nil =>
      cases rounds with
      | zero => exact absurd enough (Nat.not_lt_zero _)
      | succ rounds =>
          rw [List.append_nil] at archived
          unfold Kernel.findOffsetLoop
          dsimp only
          rw [Kernel.strlen_eq archived.spells_end List.not_mem_nil (by decide), Flow.next_bind]
          rfl
  | cons member after ih =>
      cases rounds with
      | zero => exact absurd enough (Nat.not_lt_zero _)
      | succ rounds =>
          have rest : Archived roots k ((before ++ [member]) ++ after) places := by
            rw [List.append_assoc]
            exact archived
          rw [archived.findOffsetLoop_succ text, if_neg (missing member List.mem_cons_self)]
          exact ih rest (fun other inside => missing other (List.mem_cons_of_mem _ inside))
            (Nat.lt_of_succ_lt_succ enough)

/-- The lookup of a file that is not in the archive gives 0. -/
theorem findOffsetForFile_missing (archived : Archived roots k members places) {name : CString}
    {directory rest : List Byte} (spells : Kernel.Spells fault k name (directory ++ slash :: rest))
    (outside : slash ∉ directory) (nonzero : (0 : Byte) ∉ directory ++ slash :: rest)
    (short : (directory ++ slash :: rest).length < stringRounds)
    (missing : ∀ member ∈ members, member.name ≠ rest) (few : members.length < stringRounds) :
    k.findOffsetForFile fault name = .next (k, 0) := by
  have clean : (0 : Byte) ∉ rest := by
    intro inside
    apply nonzero
    exact List.mem_append_right _ (List.mem_cons_of_mem _ inside)
  unfold Kernel.findOffsetForFile
  rw [Kernel.changeName_eq spells outside nonzero short]
  dsimp only [Flow.next_bind]
  rw [show (0 : Word) = BitVec.ofNat 64 (offsetOf []) from rfl]
  rw [← List.nil_append members] at archived
  exact archived.findOffsetLoop_missing clean missing few

end Archived

/-- An execve that fails cleanly returns an error, and leaves the task list, every task's identity,
state and pipes as they were. -/
def CleanFailure (fault : Fault) (k : Kernel) (filename argvAddr envpAddr : Word) : Prop :=
  ∃ k' ret, k.switchHandler fault 59 filename argvAddr envpAddr = .next (k', ret) ∧ ret ≠ 0 ∧
    (∀ tasks, Chain.Linked k.nextTask k.taskList tasks →
      Chain.Linked k'.nextTask k'.taskList tasks) ∧
    ∀ t, (k'.task t).pid = (k.task t).pid ∧ (k'.task t).ppid = (k.task t).ppid ∧
      (k'.task t).parent = (k.task t).parent ∧ (k'.task t).pipe = (k.task t).pipe ∧
      ((k'.task t).state = .runnable → (k.task t).state = .runnable)

/-- A task is created, once at most, and nothing is scheduled, blocked or ended. -/
def loading (pid : Word) : Table.Policy Word where
  enter := False
  create T := T.pid = pid
  fork _ := False
  exec _ := False
  kill _ _ := False
  exit _ := False
  pause _ := False

/-- What a run of the loader comes to: nothing was created, or a task that is runnable and last in
the list, unless it is not listed at all. -/
def Loaded (T T' : Table Word) : Prop :=
  T'.resumed = true ∨ (T'.pid = T.pid ∧ T'.live = T.live) ∨
    T'.pid = T.pid + 1 ∧ ∃ task, T'.newest = some task ∧
      (T'.live = T.live ∨ T'.live = T.live ++ [task] ∧ (T'.proc task).state = .runnable)

/-- Moves that keep the list and the newest task keep this, if they do not stop that task. -/
theorem Loaded.same {start T T' : Table Word} (loaded : Loaded start T) (busy : T.resumed = false)
    (pid : T'.pid = T.pid) (newest : T'.newest = T.newest) (live : T'.live = T.live)
    (state : ∀ t ∈ T.live, (T.proc t).state = .runnable → (T'.proc t).state = .runnable) :
    Loaded start T' := by
  rcases loaded with resumed | ⟨pid₀, live₀⟩ | ⟨pid₀, task, newest₀, listed⟩
  · rw [resumed] at busy
    cases busy
  · exact .inr (.inl ⟨pid.trans pid₀, live.trans live₀⟩)
  · refine .inr (.inr ⟨pid.trans pid₀, task, newest.trans newest₀, ?_⟩)
    rcases listed with live₀ | ⟨live₀, runnable⟩
    · exact .inl (live.trans live₀)
    · refine .inr ⟨live.trans live₀, state task ?_ runnable⟩
      rw [live₀]
      exact List.mem_append_right _ List.mem_cons_self

theorem Loaded.keeps {start T T' : Table Word} {event : Event Word} (loaded : Loaded start T)
    (busy : T.resumed = false) (moved : T.Move event T')
    (allowed : (loading start.pid).Allows T event) : Loaded start T' := by
  cases moved with
  | wake same state others frame =>
      refine loaded.same busy ?_ ?_ ?_ fun t _ runnable => ?_
      · rfl
      · rfl
      · rfl
      · rcases state t with kept | woken
        · exact kept.trans runnable
        · exact woken
  | save own =>
      refine loaded.same busy ?_ ?_ ?_ fun t _ runnable => ?_
      · rfl
      · rfl
      · rfl
      · exact (T.modify_proc_field Proc.state _ t rfl).trans runnable
  | dispatch other listed alive => exact .inl rfl
  | reuse first => exact .inr (loaded.resolve_left (by simp [busy]))
  | @create t listed notLive notFree =>
      rcases loaded with resumed | ⟨pid, live⟩ | ⟨pid, _⟩
      · rw [resumed] at busy
        cases busy
      · refine .inr (.inr ⟨congrArg (· + 1) pid, t, rfl, ?_⟩)
        cases listed with
        | false => exact .inl live
        | true =>
            refine .inr ⟨congrArg (· ++ [t]) live, ?_⟩
            unfold Table.create
            rw [Table.modify_proc_self]
            rfl
      · have again : T.pid = start.pid := allowed
        rw [again] at pid
        have value := congrArg BitVec.toNat pid
        have bound := start.pid.isLt
        rw [BitVec.toNat_add] at value
        change _ = (_ + 1) % _ at value
        omega
  | @link child parent running forking =>
      refine loaded.same busy ?_ ?_ ?_ fun t _ runnable => ?_
      · rfl
      · rfl
      · rfl
      · unfold Table.link
        rw [Table.modify_proc_field _ Proc.state _ _ rfl]
        exact (Table.modify_proc_field _ Proc.state _ _ rfl).trans runnable
  | @bury s free running notLive freed =>
      refine loaded.same busy ?_ ?_ ?_ fun t member runnable => ?_
      · rfl
      · rfl
      · rfl
      · have other : t ≠ s := fun same => notLive (same ▸ member)
        unfold Table.bury
        rw [Table.modify_proc_of_ne _ other]
        exact runnable
  | @discard s notLive alive =>
      refine loaded.same busy ?_ ?_ ?_ fun t member runnable => ?_
      · rfl
      · rfl
      · rfl
      · have other : t ≠ s := fun same => notLive (same ▸ member)
        unfold Table.discard
        rw [Table.modify_proc_of_ne _ other]
        exact runnable
  | enter running => cases allowed
  | pause running stops alive => cases allowed
  | adopt running created => cases allowed
  | exec running created => cases allowed
  | leave running child linked => cases allowed
  | unlink running => cases allowed
  | kill listed => cases allowed

/-- What an execve that returns has done. -/
structure Executed (k : Kernel) (T : Table Word) (k' : Kernel) : Prop where
  /-- The caller lost its parent's pid. -/
  caller : ∃ t, k.currentTask = some t ∧ (k'.task t).ppid = 0
  /-- A runnable task was appended to the list, unless the name is that of the idle task. -/
  created : ∃ task, Chain.Linked k'.nextTask k'.taskList T.live ∨
    Chain.Linked k'.nextTask k'.taskList (T.live ++ [task]) ∧ (k'.task task).state = .runnable

theorem systemExecve_executed (view : View k T) (filename argvAddr envpAddr : Word)
    (result : k.systemExecve (Kernel.kernelFault frames depth) filename argvAddr envpAddr =
      .next k') : Executed k T k' := by
  have settled : View k T.settle := ⟨view.live, view.free, view.disjoint, view.known,
    view.liveKnown, view.current, view.pid, view.faults, view.proc⟩
  have begun : T.settle.Run (loading T.pid) T.settle := .start
  have all := Kernel.systemExecve_takes settled begun rfl rfl (kernelFault_touched frames depth)
    (fun _ => trivial) (fun T' same => same) filename argvAddr envpAddr
  rcases all.of_next result with ⟨k₁, T₁, currTask, task, view₁, run, goes, newest, busy, current,
    quiet⟩
  have loaded : Loaded T.settle T₁ := run.keeps (.inr (.inl ⟨rfl, rfl⟩))
    fun loaded busy moved allowed => loaded.keeps busy moved allowed
  have view' := (Kernel.takeIdentity_view view₁ currTask task).quiet quiet
  have live : Chain.Linked k'.nextTask k'.taskList T₁.live := view'.live
  constructor
  · refine ⟨currTask, ?_, ?_⟩
    · rw [← view.current, ← current]
      exact goes.current.symm
    · rw [quiet.task currTask]
      show ((k₁.takeIdentity currTask task).task currTask).ppid = 0
      unfold Kernel.takeIdentity
      dsimp only
      rw [Kernel.modTask_task_field _ TaskStruct.ppid _ _ rfl]
      simp [Kernel.modTask]
  · refine ⟨task, ?_⟩
    rcases loaded with resumed | ⟨_, same⟩ | ⟨_, other, found, same | ⟨longer, runnable⟩⟩
    · rw [resumed] at busy
      cases busy
    · rw [same] at live
      exact .inl live
    · rw [same] at live
      exact .inl live
    · rw [newest] at found
      cases found
      rw [longer] at live
      refine .inr ⟨live, ?_⟩
      rcases quiet.state task with kept | woken
      · have same : ((k₁.takeIdentity currTask task).task task).state = (k₁.task task).state := by
          unfold Kernel.takeIdentity
          dsimp only
          rw [Kernel.modTask_task_field _ TaskStruct.state _ _ rfl,
            Kernel.modTask_task_field _ TaskStruct.state _ _ rfl,
            Kernel.modTask_task_field _ TaskStruct.state _ _ rfl]
        rw [kept, same]
        rw [view₁.proc] at runnable
        exact runnable
      · exact woken

/-- No execve fails cleanly, whatever file it names: one that returns reports no error, takes its
parent's pid from the caller, and has appended a runnable task. -/
theorem execve_never_cleanFailure (frames : Kernel → Word → Regs) (depth : Nat) (k : Kernel)
    (filename argvAddr envpAddr : Word) :
    ¬CleanFailure (Kernel.kernelFault frames depth) k filename argvAddr envpAddr ∧
    ∀ T k' ret, View k T → k.switchHandler (Kernel.kernelFault frames depth) 59 filename argvAddr
      envpAddr = .next (k', ret) → ret = 0 ∧ Executed k T k' := by
  have called : k.switchHandler (Kernel.kernelFault frames depth) 59 filename argvAddr envpAddr =
      (do
      let k ← k.systemExecve (Kernel.kernelFault frames depth) filename argvAddr envpAddr
      return (k, 0)) := rfl
  rw [called]
  constructor
  · rintro ⟨k', ret, returned, error, _⟩
    rw [called] at returned
    rcases Flow.bind_eq_next returned with ⟨k₁, _, last⟩
    cases last
    exact error rfl
  · intro T k' ret view returned
    rcases Flow.bind_eq_next returned with ⟨k₁, done, last⟩
    cases last
    exact ⟨rfl, systemExecve_executed view filename argvAddr envpAddr done⟩

end

/-- The first process executes `/`, which names nothing in an archive without members. -/
theorem firstRuns_executes_nothing :
    (firstRuns.switchHandler (Kernel.kernelFault noFrames 0) 59 8 0x100 0).returns (fun (k, ret) =>
      ret = 0 && k.taskList = some 0x1000 && k.nextTask 0x1000 = some 0x2000 &&
      k.nextTask 0x2000 = some 0x10000 && k.nextTask 0x10000 = none &&
      (k.task 0x10000).state = .runnable) = true := by
  unfold Kernel.switchHandler Kernel.systemExecve Kernel.readElf Kernel.createNewTask
  simp only [Machine.envSetupVm_eq]
  decide_cbv

/-- The call returns no error, and there is a third task. -/
theorem firstRuns_no_cleanFailure :
    (firstRuns.findOffsetForFile (Kernel.kernelFault noFrames 0) (.atAddr 8)).returns
      (fun (_, offset) => offset = 0) = true ∧
    ¬CleanFailure (Kernel.kernelFault noFrames 0) firstRuns 8 0x100 0 := by
  refine ⟨by decide_cbv, ?_⟩
  rintro ⟨k', ret, called, error, _⟩
  have checked := firstRuns_executes_nothing
  rw [called] at checked
  simp only [Flow.returns, Bool.and_eq_true, decide_eq_true_eq] at checked
  exact error checked.1.1.1.1.1

end Sbrocks.Process
