import Sbrocks.Process.Ports
import Sbrocks.System.PipeKeys

/-!
# The ports of the tasks

A task of the kernel has ports as a process has them, and the calls about pipes do to them what
they do there: `dup2` redirects the input or the output, `pipe` adds two ends of a new buffer,
and a child and the task that executes a program take the ports over.
-/

namespace Sbrocks.Process

open Sbrocks.Mmu

variable {k k' k'' : Kernel} {t task parent child : Word} {frames : Kernel → Word → Regs}
  {depth : Nat} {p : Ports Word}

/-! ## The ports of a task -/

/-- What a task's input and output are redirected to. -/
def Kernel.redirections (k : Kernel) (t : Word) : Word × Word :=
  ((k.task t).readRedirectionFd, (k.task t).writeRedirectionFd)

/-- A pipe end with the address of its buffer. -/
def Kernel.pipePort (k : Kernel) (q : Word) : Word × Word :=
  ((k.file q).fd, (k.file q).addr)

/-- A task has redirections and pipe ends, in the order of its list. -/
structure Kernel.HasPorts (k : Kernel) (t : Word) (p : Ports Word) : Prop where
  redirections : k.redirections t = (p.readFd, p.writeFd)
  pipes : ∃ nodes, Chain.Linked k.nextFile (k.task t).pipe nodes ∧ nodes.map k.pipePort = p.pipes

theorem redirections_eq (same : (k'.task t).plumbing = (k.task task).plumbing) :
    k'.redirections t = k.redirections task :=
  congrArg (fun s : Plumbing => (s.readRedirectionFd, s.writeRedirectionFd)) same

theorem pipePort_eq {q q' : Word} (same : k'.pipeEntry q' = k.pipeEntry q) :
    k'.pipePort q' = k.pipePort q :=
  congrArg (fun entry => (entry.1, entry.2.1)) same

/-- Every task has ports. -/
theorem Keyed.ports (keyed : Keyed k) (t : Word) :
    ∃ p : Ports Word, k.HasPorts t p ∧ p.Keyed k.fdCount.toNat := by
  rcases keyed with ⟨pipes, lists, distinct⟩
  refine ⟨⟨(k.task t).readRedirectionFd, (k.task t).writeRedirectionFd,
    (pipes t).map k.pipePort⟩, ⟨rfl, pipes t, lists.linked t, rfl⟩, ?_, ?_⟩
  · intro e member
    rcases List.mem_map.mp member with ⟨q, inside, rfl⟩
    exact (distinct t).below q inside
  · show (((pipes t).map k.pipePort).map Prod.fst).Nodup
    rw [List.map_map]
    exact (distinct t).once

namespace Kernel.HasPorts

theorem steady (has : k.HasPorts t p) (steady : Steady k k') : k'.HasPorts t p := by
  rcases has with ⟨redirected, nodes, linked, listed⟩
  refine ⟨(redirections_eq (steady.task t)).trans redirected, nodes, ?_, ?_⟩
  · rw [steady.nextFile, show (k'.task t).pipe = (k.task t).pipe from
      congrArg Plumbing.pipe (steady.task t)]
    exact linked
  · rw [← listed]
    unfold Kernel.pipePort
    rw [steady.file]

/-- `dup2` redirects the input or the output of the current task. -/
theorem systemDup2 {J : Kernel → Prop} (has : k.HasPorts task p)
    (running : k.currentTask = some task) (oldfd newfd : Word) :
    (k.systemDup2 oldfd newfd).All (fun k' => k'.HasPorts task (p.dup2 oldfd newfd)) J := by
  rcases has with ⟨redirected, nodes, linked, listed⟩
  have read : (k.task task).readRedirectionFd = p.readFd := congrArg Prod.fst redirected
  have write : (k.task task).writeRedirectionFd = p.writeFd := congrArg Prod.snd redirected
  have changed : ∀ change : TaskStruct → TaskStruct, (∀ s, (change s).pipe = s.pipe) →
      ∃ nodes, Chain.Linked (k.modTask task change).nextFile
        ((k.modTask task change).task task).pipe nodes ∧
        nodes.map (k.modTask task change).pipePort = p.pipes := by
    intro change kept
    refine ⟨nodes, ?_, listed⟩
    rw [k.modTask_task_field TaskStruct.pipe task task (kept _)]
    exact linked
  unfold Kernel.systemDup2 Ports.dup2
  rw [running, Flow.ofOption_some, Flow.next_bind]
  split
  · refine ⟨?_, changed _ fun _ => rfl⟩
    show (((k.modTask task _).task task).readRedirectionFd,
      ((k.modTask task _).task task).writeRedirectionFd) = _
    rw [Kernel.modTask_task_self, read]
  · split
    · refine ⟨?_, changed _ fun _ => rfl⟩
      show (((k.modTask task _).task task).readRedirectionFd,
        ((k.modTask task _).task task).writeRedirectionFd) = _
      rw [Kernel.modTask_task_self, write]
    · exact ⟨redirected, nodes, linked, listed⟩

/-- Copies of the pipes with the same redirections. -/
theorem copied {nodes copied : List Word} (has : k.HasPorts parent p)
    (copies : PipesCopied k k' parent child nodes copied)
    (given : k'.redirections child = k.redirections parent) : k'.HasPorts child p := by
  rcases has with ⟨redirected, own, linked, listed⟩
  cases linked.unique copies.listed
  refine ⟨given.trans redirected, copied, copies.copies, ?_⟩
  have entries := congrArg (List.map fun entry => (entry.1, entry.2.1)) copies.entries
  rw [List.map_map, List.map_map] at entries
  exact entries.trans listed

/-- The pipes that were copied stay. -/
theorem stays {nodes copied : List Word} (has : k.HasPorts parent p)
    (copies : PipesCopied k k' parent child nodes copied)
    (kept : k'.redirections parent = k.redirections parent) : k'.HasPorts parent p := by
  rcases has with ⟨redirected, own, linked, listed⟩
  cases linked.unique copies.listed
  refine ⟨kept.trans redirected, nodes, copies.stays, ?_⟩
  rw [← listed]
  exact List.map_congr_left fun q inside => pipePort_eq (copies.kept q inside)

end Kernel.HasPorts

/-- Copying pipes redirects nothing. -/
theorem Keyed.redirections {rounds : Nat} (keyed : Keyed k) (dry : (k.task child).pipe = none)
    (copied : k.copyPipes child (k.task parent).pipe rounds = .next k') (t : Word) :
    k'.redirections t = k.redirections t := by
  rcases keyed with ⟨pipes, lists, _⟩
  have none := lists.eq_nil dry
  rcases (lists.copies (lists.linked parent) (lists.structs parent) (by simp [none])).of_next copied
    with ⟨_, _, relisted, _⟩
  exact Prod.ext (relisted.read t) (relisted.write t)

/-- `pipe` adds two ends of a buffer, with the next two descriptors. -/
theorem systemPipe_ports (keyed : Keyed k) (few : k.fdCount.toNat + 2 < 2 ^ 31)
    (running : k.currentTask = some task) (has : k.HasPorts task p) (fds : Word) :
    (k.systemPipe (Kernel.kernelFault frames depth) fds).All
      (fun k' => ∃ made : Pipe Word, made.readEnd.toNat = k.fdCount.toNat ∧
        made.writeEnd.toNat = k.fdCount.toNat + 1 ∧ k'.HasPorts task (p.addPipe made)) Keyed := by
  rcases keyed with ⟨pipes, lists, distinct⟩
  rcases has with ⟨redirected, nodes, linked, listed⟩
  cases linked.unique (lists.linked task)
  apply Kernel.systemPipe_adds lists running fds
  intro k' p1 p2 lists' relisted first second count kept shared
  have keyed' := keyed_added lists distinct few lists' relisted first second count
  obtain ⟨made, ends⟩ : ∃ made : Pipe Word,
    made = ⟨(k'.file p1).fd, (k'.file p2).fd, (k'.file p1).addr⟩ := ⟨_, rfl⟩
  have owns : k'.HasPorts task (p.addPipe made) := by
    have linked' := lists'.linked task
    rw [Function.update_self] at linked'
    refine ⟨(Prod.ext (relisted.read task) (relisted.write task)).trans redirected, _, linked', ?_⟩
    have old : (pipes task).map k'.pipePort = p.pipes := by
      rw [← listed]
      exact List.map_congr_left fun q inside => pipePort_eq (kept q (lists.structs task q inside))
    rw [List.map_append, old, ends]
    show p.pipes ++ [(_, (k'.file p1).addr), (_, (k'.file p2).addr)] = _
    rw [shared]
    rfl
  have fresh := next_fds few first second
  have given : ∀ {k''}, Steady k' k'' → ∃ made : Pipe Word,
      made.readEnd.toNat = k.fdCount.toNat ∧ made.writeEnd.toNat = k.fdCount.toNat + 1 ∧
        k''.HasPorts task (p.addPipe made) := fun steady =>
    ⟨made, by rw [ends]; exact fresh.1, by rw [ends]; exact fresh.2, owns.steady steady⟩
  exact (storeFds_keyed keyed' fds p1 p2).imp fun _ stored => given stored.2

namespace Kernel.Forked

variable {fault : Fault} {k₁ k₃ k₅ : Kernel}

/-- A fork keeps the ports of its caller, and the child has them too. -/
theorem ports (forked : Forked fault k parent child k₁ k₃ k₅ k') (keyed : Keyed k)
    (other : parent ≠ child) (has : k.HasPorts parent p) :
    k'.HasPorts child p ∧ k'.HasPorts parent p := by
  have links := Kernel.linkChild_inherits k₃ parent child
  have before : k₃.redirections parent = k.redirections parent :=
    redirections_eq ((forked.set.task parent).trans (forked.begun.others parent other))
  have after : ∀ t, k'.redirections t = (k₃.linkChild parent child).redirections t := fun t =>
    (redirections_eq (forked.told.task t)).trans
      ((forked.keyed_linked keyed).redirections forked.dry forked.copied t)
  rcases (forked.keyed keyed).2 other with ⟨nodes, copied, copies⟩
  constructor
  · have taken : (k₃.linkChild parent child).redirections child = k₃.redirections parent :=
      Prod.ext links.read links.write
    exact has.copied copies ((after child).trans (taken.trans before))
  · have same := redirections_eq (links.others parent other)
    exact has.stays copies ((after parent).trans (same.trans before))

end Kernel.Forked

/-- The task that executes the program has the ports of the caller. -/
theorem Kernel.Executed.ports {fault : Fault} {filename : CString} {k₁ k₂ k₃ : Kernel}
    (executed : Executed fault k task child filename k₁ k₂ k₃ k') (keyed : Keyed k)
    (other : task ≠ child) (has : k.HasPorts task p) : k'.HasPorts child p := by
  have takes := Kernel.takeIdentity_inherits k₃ task child
  have before : k₃.redirections task = k.redirections task :=
    redirections_eq ((executed.loaded.task task).trans ((executed.begun.others task other).trans
      (executed.spaced.steady.task task)))
  have taken : (k₃.takeIdentity task child).redirections child = k₃.redirections task :=
    Prod.ext takes.read takes.write
  have after := (executed.keyed_taken keyed).redirections executed.dry executed.copied child
  rcases (executed.keyed keyed).2 other with ⟨nodes, copied, copies⟩
  exact has.copied copies (after.trans (taken.trans before))

/-- In every run of calls about pipes in which pipes are made only while descriptors are left, the
current task has ports, with different descriptors below the next one, and its calls act on them:
`dup2` redirects, `pipe` adds the two ends of a buffer with the next two descriptors, a fork that
does not end its caller makes a new live task with the same ports and leaves the caller its own,
and so does an execve that returns for the task that executes the program. -/
theorem ports_followed (run : PipeRun frames depth FewDescriptors k)
    (running : k.currentTask = some task) (r : Regs) :
    ∃ p : Ports Word, k.HasPorts task p ∧ p.Keyed k.fdCount.toNat ∧
      (∀ oldfd newfd, ((k.saveFrame r).systemDup2 oldfd newfd).All
        (fun k' => k'.HasPorts task (p.dup2 oldfd newfd)) fun _ => False) ∧
      (k.fdCount.toNat + 2 < 2 ^ 31 → ∀ fds k',
        (k.saveFrame r).systemPipe (Kernel.kernelFault frames depth) fds = .next k' →
        ∃ made : Pipe Word, made.readEnd.toNat = k.fdCount.toNat ∧
          made.writeEnd.toNat = k.fdCount.toNat + 1 ∧ k'.HasPorts task (p.addPipe made)) ∧
      (∀ k', Ends ((k.saveFrame r).systemFork (Kernel.kernelFault frames depth)) k' →
        ¬ Chain.Member k'.nextTask k'.taskList task ∨
        ∃ child, ¬ Chain.Member k.nextTask k.taskList child ∧
          Chain.Member k'.nextTask k'.taskList child ∧ k'.HasPorts child p ∧
          k'.HasPorts task p) ∧
      ∀ filename argvAddr envpAddr k',
        (k.saveFrame r).systemExecve (Kernel.kernelFault frames depth) filename argvAddr envpAddr =
          .next k' →
        ∃ new, Enters (k.saveFrame r) k' new ∧ k'.HasPorts new p := by
  have keyed := run.keyed
  rcases keyed.ports task with ⟨p, has, distinct⟩
  rcases run.current with ⟨T, view, alive, inv⟩
  have steady := Kernel.saveFrame_steady k r
  have same := saveFrame_sameList k r
  have member : Chain.Member k.nextTask k.taskList task := by
    rw [view.live.member_iff]
    exact inv.live alive task (view.current.trans running)
  have listed : Chain.Member (k.saveFrame r).nextTask (k.saveFrame r).taskList task :=
    same.member.mpr member
  have saved := keyed.steady steady
  have owns := has.steady steady
  have entered := view.entered (.syscall r)
  have current := (k.saveFrame_currentTask r).trans running
  have busy := ((Interrupt.syscall r).goes_entered T).resumed
  refine ⟨p, has, distinct, fun oldfd newfd => owns.systemDup2 current oldfd newfd, ?_, ?_, ?_⟩
  · intro few fds k' made
    have ports := (systemPipe_ports saved (steady.fdCount ▸ few) current owns fds).of_next made
    rw [steady.fdCount] at ports
    exact ports
  · intro k' ends
    rcases systemFork_child entered busy current listed ends with
      gone | ⟨child, _, _, _, forked, other, before, after⟩
    · exact .inl gone
    · have ports := forked.ports saved other owns
      exact .inr ⟨child, fun old => before (same.member.mpr old), after, ports⟩
  · intro filename argvAddr envpAddr k' returns
    rcases systemExecve_new entered current listed returns with
      ⟨new, _, _, _, executed, other, enters⟩
    exact ⟨new, enters, executed.ports saved other owns⟩

/-- The first process, with a pipe, redirects its output to it. -/
theorem ports_followed_piped : ∃ k p k', PipeRun noFrames 0 FewDescriptors k ∧
    k.HasPorts 0x1000 p ∧ (k.saveFrame default).systemDup2 3 1 = .next k' ∧
    k'.HasPorts 0x1000 (p.dup2 3 1) := by
  rcases run_piped with ⟨run, running⟩
  rcases ports_followed run running default with ⟨p, has, _, redirects, _⟩
  obtain ⟨k', called⟩ : ∃ k', ((called firstRuns 22 0x8000 0).saveFrame default).systemDup2 3 1 =
      .next k' := by
    unfold Kernel.systemDup2
    rw [(Kernel.saveFrame_currentTask _ default).trans running, Flow.ofOption_some, Flow.next_bind]
    exact ⟨_, rfl⟩
  exact ⟨_, p, k', run, has, called, (redirects 3 1).of_next called⟩

end Sbrocks.Process
