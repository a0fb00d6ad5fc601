import Sbrocks.Sbush.PathSearch
import Sbrocks.Sbush.Processes

/-!
# Pipelines

The shell forks a process that makes a pipe and forks a process for each command but the last,
which it executes itself.  However the processes interleave, each command is executed between
the pipes of its neighbours.
-/

namespace Sbrocks.Sbush

open Sbrocks.Concurrent Sbrocks.Transition
open Process (Ports Pipe)

variable {s s' s'' : Host} {w w' m : Worker}

/-! ## The stages of a pipeline -/

/-- A command that is none of the shell itself. -/
structure Foreign (cmd : Text) (args : Option Text) : Prop where
  set : cmd = ascii "set" → ¬ args.any (occurs (ascii "PS1")) ∧ ¬ args.any (occurs (ascii "PATH"))
  script : ¬ occurs (ascii ".sbush") cmd
  other : cmd ∉ [ascii "env", ascii "$PATH", ascii "exit", ascii "clear", ascii "pwd", ascii "echo"]

theorem handleCommand_foreign (executeScript : Text → Session → ShellCode Session) {cmd : Text}
    {args : Option Text} (foreign : Foreign cmd args) (v : Session) :
    handleCommand executeScript cmd args v = .done (false, v) := by
  have other := foreign.other
  simp only [List.mem_cons, List.not_mem_nil, or_false, not_or] at other
  unfold handleCommand
  rw [if_neg fun set => (foreign.set set.1).1 set.2, if_neg fun set => (foreign.set set.1).2 set.2,
    if_neg foreign.script, if_neg other.1, if_neg other.2.1, if_neg other.2.2.1,
    if_neg other.2.2.2.1, if_neg other.2.2.2.2.1, if_neg other.2.2.2.2.2]
  rfl

/-- A path with a slash is a script or foreign. -/
theorem foreign_of_slash {cmd : Text} (slashed : slash ∈ cmd)
    (script : ¬ occurs (ascii ".sbush") cmd) (args : Option Text) : Foreign cmd args where
  set same := by
    rw [same] at slashed
    exact absurd slashed (by decide)
  script := script
  other member := by
    have plain : ∀ name ∈ [ascii "env", ascii "$PATH", ascii "exit", ascii "clear", ascii "pwd",
        ascii "echo"], slash ∉ name := by decide
    exact plain cmd member slashed

/-- The commands of a line that the shell can execute. -/
structure Runnable (find : Text → Text → Option Text) (v : Session) (n : Nat) (path : Nat → Text) :
    Prop where
  more : 0 < n
  few : n < 4
  found : ∀ i < n, ∃ word, v.commands i 0 = some word ∧ find v.env word = some (path i)
  foreign : ∀ i < n, Foreign (path i) (v.commands i 1)
  single : n = 1 → ∀ word, v.commands 0 0 = some word → Foreign word (v.commands 0 1)

/-- A process executes the command `i` of `n`, between its neighbours: `m` made the pipes, and
`first` was the shell. -/
structure Stage (first : Worker) (v : Session) (n : Nat) (path : Nat → Text) (s : Host) (m : Nat)
    (w : Worker) (i : Nat) : Prop where
  inside : i < n
  image : w.image = some (path i, v.argv i)
  pid : if i + 1 = n then w.pid = m ∧ (s.children m).length = i
    else (s.children m)[i]? = some w.pid
  input : if i = 0 then w.ports.readFd = first.ports.readFd
    else ∃ pipe, (s.pipes m)[i - 1]? = some pipe ∧ w.ports.readFd = pipe.readEnd ∧
      (pipe.readEnd, pipe.buffer) ∈ w.ports.pipes
  output : if i + 1 = n then w.ports.writeFd = first.ports.writeFd
    else ∃ pipe, (s.pipes m)[i]? = some pipe ∧ w.ports.writeFd = pipe.writeEnd ∧
      (pipe.writeEnd, pipe.buffer) ∈ w.ports.pipes

variable {first : Worker} {v : Session} {n i : Nat} {path : Nat → Text}
  {find : Text → Text → Option Text} {executeScript : Text → Session → ShellCode Session}

/-- What becomes of a process that is over. -/
def Placement (first : Worker) (v : Session) (n : Nat) (path : Nat → Text) (s : Host) (w : Worker) :
    Prop :=
  w.image = none ∨
    ∃ m i, (s.children first.pid)[0]? = some m ∧ Stage first v n path s m w i

/-- The process that makes the pipes, after `i` rounds. -/
structure Manager (first : Worker) (s : Host) (w : Worker) (i : Nat) (prev : Word) : Prop where
  child : (s.children first.pid)[0]? = some w.pid
  other : w.pid ≠ first.pid
  image : w.image = none
  children : (s.children w.pid).length = i
  pipes : (s.pipes w.pid).length = i
  held : ∀ pipe ∈ s.pipes w.pid, (pipe.readEnd, pipe.buffer) ∈ w.ports.pipes
  prev : if i = 0 then prev = 0
    else prev ≠ 0 ∧ ∃ pipe, (s.pipes w.pid)[i - 1]? = some pipe ∧ prev = pipe.readEnd
  readFd : w.ports.readFd = first.ports.readFd
  writeFd : w.ports.writeFd = first.ports.writeFd

/-- A child of it, before it executes its command. -/
structure Started (first : Worker) (s : Host) (m : Nat) (w : Worker) (i : Nat) (prev fd1 : Word) :
    Prop where
  child : (s.children first.pid)[0]? = some m
  image : w.image = none
  pid : (s.children m)[i]? = some w.pid
  prev : if i = 0 then prev = 0
    else prev ≠ 0 ∧ ∃ pipe, (s.pipes m)[i - 1]? = some pipe ∧ prev = pipe.readEnd ∧
      (pipe.readEnd, pipe.buffer) ∈ w.ports.pipes
  fd1 : fd1 ≠ 1 ∧ ∃ pipe, (s.pipes m)[i]? = some pipe ∧ fd1 = pipe.writeEnd ∧
    (pipe.writeEnd, pipe.buffer) ∈ w.ports.pipes
  readFd : w.ports.readFd = first.ports.readFd

/-- What a list has at a place stays there when the list grows. -/
theorem getElem?_later {α : Type} {xs ys : List α} {j : Nat} {x : α} (later : xs <+: ys)
    (found : xs[j]? = some x) : ys[j]? = some x := by
  rcases later with ⟨rest, rfl⟩
  rw [List.getElem?_append_left (List.getElem?_eq_some_iff.mp found).1]
  exact found

theorem children_later {pid j x : Nat} (later : s.log <+: s'.log)
    (found : (s.children pid)[j]? = some x) : (s'.children pid)[j]? = some x :=
  getElem?_later (later.filterMap _) found

theorem pipes_later {pid j : Nat} {x : Pipe Nat} (later : s.log <+: s'.log)
    (found : (s.pipes pid)[j]? = some x) : (s'.pipes pid)[j]? = some x :=
  getElem?_later (later.filterMap _) found

theorem Stage.relied {m : Nat} (stage : Stage first v n path s m w i) (relied : Rely w s s') :
    Stage first v n path s' m w i where
  inside := stage.inside
  image := stage.image
  pid := by
    have pid := stage.pid
    split at pid
    · rename_i last
      rw [if_pos last, ← pid.1, relied.children]
      exact ⟨rfl, pid.1 ▸ pid.2⟩
    · rename_i early
      rw [if_neg early]
      exact children_later relied.log pid
  input := by
    have input := stage.input
    split at input
    · rename_i zero
      rwa [if_pos zero]
    · rename_i more
      rw [if_neg more]
      rcases input with ⟨pipe, made, rest⟩
      exact ⟨pipe, pipes_later relied.log made, rest⟩
  output := by
    have output := stage.output
    split at output
    · rename_i last
      rwa [if_pos last]
    · rename_i early
      rw [if_neg early]
      rcases output with ⟨pipe, made, rest⟩
      exact ⟨pipe, pipes_later relied.log made, rest⟩

theorem Placement.relied (placement : Placement first v n path s w) (relied : Rely w s s') :
    Placement first v n path s' w := by
  rcases placement with none | ⟨m, i, child, stage⟩
  · exact .inl none
  · exact .inr ⟨m, i, children_later relied.log child, stage.relied relied⟩

theorem Manager.relied {prev : Word} (manager : Manager first s w i prev) (relied : Rely w s s') :
    Manager first s' w i prev where
  child := children_later relied.log manager.child
  other := manager.other
  image := manager.image
  children := by
    rw [relied.children]
    exact manager.children
  pipes := by
    rw [relied.pipes]
    exact manager.pipes
  held := by
    rw [relied.pipes]
    exact manager.held
  prev := by
    rw [relied.pipes]
    exact manager.prev
  readFd := manager.readFd
  writeFd := manager.writeFd

theorem Started.later {m : Nat} {prev fd1 : Word} (started : Started first s m w i prev fd1)
    (later : s.log <+: s'.log) : Started first s' m w i prev fd1 where
  child := children_later later started.child
  image := started.image
  pid := children_later later started.pid
  prev := by
    have prev' := started.prev
    split at prev'
    · rename_i zero
      rwa [if_pos zero]
    · rename_i more
      rw [if_neg more]
      rcases prev' with ⟨nonzero, pipe, made, rest⟩
      exact ⟨nonzero, pipe, pipes_later later made, rest⟩
  fd1 := by
    rcases started.fd1 with ⟨other, pipe, made, rest⟩
    exact ⟨other, pipe, pipes_later later made, rest⟩
  readFd := started.readFd

/-! ## Every process is safe -/

section

variable {α : Type} {post : Host → Worker → Prop} {ret : α → Host → Worker → Prop}
  {back : Host → Worker → Prop}

/-- A command is executed, or refused and then ends the process. -/
theorem safe_executeFile {cmd : Text}
    (runs : ∀ s', Rely w s s' → post s' { w with image := some (cmd, v.argv i) })
    (gone : ∀ s', Rely w s s' → post s' w) :
    discipline.Safe post ret s w (executeFile cmd i v >>= fun _ => Session.exit 1) := by
  apply safe_execve runs
  intro s' result relied
  have leave : ∀ s₂, Rely w s s₂ → discipline.Safe post ret s₂ w (Session.exit 1) :=
    fun s₂ relied => safe_exit fun s₃ more => gone s₃ (relied.trans more)
  show discipline.Safe post ret s' w
    ((if result = -1 then perform .serror else pure ()) >>= fun _ => Session.exit 1)
  split
  · refine safe_still (fun acted => ?_) fun s₂ _ more => leave s₂ (relied.trans more)
    cases acted with
    | serror => exact ⟨rfl, (), rfl⟩
  · exact leave s' relied

theorem executeStage_eq (runnable : Runnable find v n path) (inside : i < n) :
    executeStage executeScript find i v = executeFile (path i) i v >>= fun _ => Session.exit 1 := by
  rcases runnable.found i inside with ⟨word, present, found⟩
  have foreign := handleCommand_foreign executeScript (runnable.foreign i inside) v
  simp only [executeStage, absolutePath, present, Session.read, Code.done_bind, Code.pure_eq_done,
    found, foreign]
  rfl

theorem missingLoop_found (runnable : Runnable find v n path) {j : Nat} (inside : i + j ≤ n) :
    missingLoop find v i j = .done false := by
  induction j generalizing i with
  | zero => rfl
  | succ j ih =>
      rcases runnable.found i (by omega) with ⟨word, present, found⟩
      have rest := ih (i := i + 1) (by omega)
      simp only [missingLoop, absolutePath, present, Session.read, Code.done_bind,
        Code.pure_eq_done, found, rest]
      rfl

/-- A port is redirected, or not. -/
theorem safe_redirect {fd port none : Word} {rest : Unit → ShellCode α}
    (redirects : fd ≠ none → ∀ s', Rely w s s' →
      discipline.Safe post ret s' { w with ports := w.ports.dup2 fd port } (rest ()))
    (stays : fd = none → discipline.Safe post ret s w (rest ())) :
    discipline.Safe post ret s w (redirect fd port none >>= rest) := by
  unfold redirect
  split
  · rename_i redirected
    exact safe_dup2 (redirects redirected)
  · rename_i kept
    exact stays (not_not.mp kept)

theorem Started.stage {m : Nat} {prev fd1 : Word} {ports : Ports Nat}
    (started : Started first s m w i prev fd1) (inside : i + 1 < n)
    (pipes : ports.pipes = w.ports.pipes) (write : ports.writeFd = fd1)
    (read : ports.readFd = if prev = 0 then w.ports.readFd else prev) :
    Stage first v n path s m ⟨w.pid, ports, some (path i, v.argv i)⟩ i where
  inside := Nat.lt_of_succ_lt inside
  image := rfl
  pid := by
    rw [if_neg (Nat.ne_of_lt inside)]
    exact started.pid
  input := by
    have input := started.prev
    split at input
    · rename_i zero
      rw [if_pos zero]
      rw [if_pos input] at read
      exact read.trans started.readFd
    · rename_i more
      rw [if_neg more]
      rcases input with ⟨nonzero, pipe, made, same, held⟩
      rw [if_neg nonzero] at read
      exact ⟨pipe, made, read.trans same, pipes ▸ held⟩
  output := by
    rw [if_neg (Nat.ne_of_lt inside)]
    rcases started.fd1 with ⟨_, pipe, made, same, held⟩
    exact ⟨pipe, made, write.trans same, pipes ▸ held⟩

/-- A started child becomes a stage. -/
theorem Started.safe {m : Nat} {prev fd1 : Word} (runnable : Runnable find v n path)
    (inside : i + 1 < n) (started : Started first s m w i prev fd1) :
    discipline.Safe (Placement first v n path) (fun _ : Unit => back) s w
      (startStage executeScript find prev fd1 i v) := by
  unfold startStage
  rw [executeStage_eq runnable (Nat.lt_of_succ_lt inside)]
  -- the command with its output redirected, when its input is
  have last : ∀ (s₁ : Host) (ports : Ports Nat), s.log <+: s₁.log → ports.pipes = w.ports.pipes →
      (ports.readFd = if prev = 0 then w.ports.readFd else prev) →
      discipline.Safe (Placement first v n path) (fun _ : Unit => back) s₁ { w with ports := ports }
        (redirect fd1 1 1 >>= fun _ => executeFile (path i) i v >>= fun _ => Session.exit 1) := by
    intro s₁ ports later₁ pipes read
    apply safe_redirect
    · intro _ s₂ relied₂
      have later₂ := later₁.trans relied₂.log
      refine safe_executeFile (fun s₃ relied₃ => .inr ⟨m, i, ?_, ?_⟩) fun _ _ => .inl started.image
      · exact children_later (later₂.trans relied₃.log) started.child
      · exact (started.later (later₂.trans relied₃.log)).stage inside
          ((Ports.dup2_pipes fd1 1).trans pipes) rfl read
    · intro same
      exact absurd same started.fd1.1
  apply safe_redirect
  · intro some s₁ relied
    exact last s₁ _ relied.log (Ports.dup2_pipes prev 0) (if_neg some).symm
  · intro none
    exact last s _ List.prefix_rfl rfl (if_pos none).symm

theorem pipeLoop_succ (prev : Word) (i j : Nat) : pipeLoop executeScript find v prev i (j + 1) =
    .call .pipe fun fds => .call .fork fun pid =>
      if pid = 0 then
        startStage executeScript find prev fds.2 i v >>= fun _ =>
          pipeLoop executeScript find v fds.1 (i + 1) j
      else pipeLoop executeScript find v fds.1 (i + 1) j :=
  rfl

/-- A round of the manager. -/
theorem Manager.round {prev : Word} (manager : Manager first s w i prev) (placed : Placed s w)
    (few : s.fdCount + 2 < 2 ^ 31)
    (relied : Rely { w with ports := w.ports.addPipe s.nextPipe } (s.pipe w.pid) s') :
    Manager first (s'.fork w.pid) { w with ports := w.ports.addPipe s.nextPipe } (i + 1)
      s.nextPipe.readEnd ∧
    Started first (s'.fork w.pid) w.pid
      { w with pid := s'.nextPid, ports := w.ports.addPipe s.nextPipe } i prev
      s.nextPipe.writeEnd := by
  have later : s.log <+: (s'.fork w.pid).log :=
    (List.prefix_append _ _).trans (relied.log.trans (List.prefix_append _ _))
  have children : (s'.fork w.pid).children w.pid = s.children w.pid ++ [s'.nextPid] := by
    rw [children_fork, if_pos rfl, relied.children, children_pipe]
  have pipes : (s'.fork w.pid).pipes w.pid = s.pipes w.pid ++ [s.nextPipe] := by
    rw [pipes_fork, relied.pipes, pipes_pipe, if_pos rfl]
  have child := children_later later manager.child
  have ends := nextPipe_ends few
  have made : ((s'.fork w.pid).pipes w.pid)[i]? = some s.nextPipe := by
    rw [pipes, List.getElem?_append_right (Nat.le_of_eq manager.pipes), manager.pipes, Nat.sub_self]
    rfl
  have old : ∀ e ∈ w.ports.pipes, e ∈ (w.ports.addPipe s.nextPipe).pipes := fun e member =>
    List.mem_append_left _ member
  constructor
  · refine ⟨child, manager.other, manager.image, ?_, ?_, ?_, ?_, manager.readFd, manager.writeFd⟩
    · show ((s'.fork w.pid).children w.pid).length = i + 1
      rw [children, List.length_append, manager.children]
      rfl
    · show ((s'.fork w.pid).pipes w.pid).length = i + 1
      rw [pipes, List.length_append, manager.pipes]
      rfl
    · show ∀ pipe ∈ (s'.fork w.pid).pipes w.pid, _
      rw [pipes]
      intro pipe member
      rcases List.mem_append.mp member with member | new
      · exact old _ (manager.held pipe member)
      · rw [List.mem_singleton.mp new]
        exact List.mem_append_right _ List.mem_cons_self
    · rw [if_neg (Nat.succ_ne_zero i)]
      refine ⟨fun zero => ?_, s.nextPipe, made, rfl⟩
      have two := placed.two
      rw [← ends.1, zero] at two
      exact absurd two (by decide)
  · refine ⟨child, manager.image, ?_, ?_, ⟨fun one => ?_, s.nextPipe, made, rfl, ?_⟩,
      manager.readFd⟩
    · show ((s'.fork w.pid).children w.pid)[i]? = some s'.nextPid
      rw [children, List.getElem?_append_right (Nat.le_of_eq manager.children), manager.children,
        Nat.sub_self]
      rfl
    · have before := manager.prev
      split at before
      · rename_i zero
        rwa [if_pos zero]
      · rename_i more
        rw [if_neg more]
        rcases before with ⟨nonzero, pipe, found, same⟩
        exact ⟨nonzero, pipe, pipes_later later found, same,
          old _ (manager.held pipe (List.mem_of_getElem? found))⟩
    · have two := placed.two
      have second := ends.2
      rw [one] at second
      have : (1 : Word).toNat = 1 := rfl
      omega
    · exact List.mem_append_right _ (List.mem_cons_of_mem _ List.mem_cons_self)

/-- The loop starts the children one after the other. -/
theorem Manager.safe_loop (runnable : Runnable find v n path) {prev : Word} {j : Nat}
    (manager : Manager first s w i prev) (inside : i + j < n) :
    discipline.Safe (Placement first v n path) (fun prev s w => Manager first s w (i + j) prev) s w
      (pipeLoop executeScript find v prev i j) := by
  induction j generalizing i prev s w with
  | zero => exact fun s' relied => manager.relied relied
  | succ j ih =>
      rw [pipeLoop_succ]
      apply safe_pipe
      intro s₁ relied₁ placed₁ few
      apply safe_fork
      intro s₂ relied₂ placed₂
      rcases (manager.relied relied₁).round placed₁ few relied₂ with ⟨manager', started⟩
      constructor
      · rw [if_neg (Nat.ne_of_gt (Nat.zero_lt_of_lt placed₂.pid))]
        have rest := ih manager' (by omega)
        rwa [Nat.add_right_comm] at rest
      · rw [if_pos rfl]
        exact Discipline.Safe.bind (started.safe runnable (by omega))

theorem runPipeline_eq (runnable : Runnable find v n path) :
    runPipeline executeScript find n v = pipeLoop executeScript find v 0 0 (n - 1) >>= fun prev =>
      redirect prev 0 0 >>= fun _ => .call (.sleep 1) fun _ =>
        executeFile (path (n - 1)) (n - 1) v >>= fun _ => Session.exit 1 := by
  have inside : n - 1 < n := Nat.sub_one_lt_of_lt runnable.more
  rcases runnable.found (n - 1) inside with ⟨word, present, found⟩
  have foreign := handleCommand_foreign executeScript (runnable.foreign (n - 1) inside) v
  simp only [runPipeline, absolutePath, present, Session.read, Code.done_bind, Code.pure_eq_done,
    found, foreign]
  rfl

theorem executeProcessPipe_eq (runnable : Runnable find v n path) :
    executeProcessPipe executeScript find n v = .call .fork fun pid =>
      if pid = 0 then
        runPipeline executeScript find n v >>= fun _ =>
          .call (.waitpid pid) fun _ => .done (clearLoop v 0 n)
      else .call (.waitpid pid) fun _ => .done (clearLoop v 0 n) := by
  unfold executeProcessPipe
  rw [missingLoop_found runnable (by omega)]
  rfl

/-- The manager is the last stage once it executes its command. -/
theorem Manager.stage {prev : Word} {ports : Ports Nat} (manager : Manager first s w (n - 1) prev)
    (more : 0 < n) (pipes : ports.pipes = w.ports.pipes) (write : ports.writeFd = w.ports.writeFd)
    (read : ports.readFd = if prev = 0 then w.ports.readFd else prev) :
    Stage first v n path s w.pid ⟨w.pid, ports, some (path (n - 1), v.argv (n - 1))⟩ (n - 1) where
  inside := Nat.sub_one_lt_of_lt more
  image := rfl
  pid := by
    rw [if_pos (Nat.sub_add_cancel more)]
    exact ⟨rfl, manager.children⟩
  input := by
    have input := manager.prev
    split at input
    · rename_i zero
      rw [if_pos zero]
      rw [if_pos input] at read
      exact read.trans manager.readFd
    · rename_i some
      rw [if_neg some]
      rcases input with ⟨nonzero, pipe, made, same⟩
      rw [if_neg nonzero] at read
      exact ⟨pipe, made, read.trans same, pipes ▸ manager.held pipe (List.mem_of_getElem? made)⟩
  output := by
    rw [if_pos (Nat.sub_add_cancel more)]
    exact write.trans manager.writeFd

theorem Manager.safe (runnable : Runnable find v n path) (manager : Manager first s w 0 0) :
    discipline.Safe (Placement first v n path) (fun _ : Unit => back) s w
      (runPipeline executeScript find n v) := by
  have inside : 0 + (n - 1) < n := by
    have more := runnable.more
    omega
  rw [runPipeline_eq runnable]
  apply Discipline.Safe.bind
  apply (manager.safe_loop runnable inside).mono
  intro prev s w manager
  rw [Nat.zero_add] at manager
  -- the command, when its input is redirected
  have last : ∀ (s₁ : Host) (ports : Ports Nat), Rely w s s₁ → ports.pipes = w.ports.pipes →
      ports.writeFd = w.ports.writeFd → (ports.readFd = if prev = 0 then w.ports.readFd else prev) →
      discipline.Safe (Placement first v n path) (fun _ : Unit => back) s₁ { w with ports := ports }
        (.call (.sleep 1) fun _ =>
          executeFile (path (n - 1)) (n - 1) v >>= fun _ => Session.exit 1) := by
    intro s₁ ports relied₁ pipes write read
    refine safe_still (fun acted => ?_) fun s₂ _ relied₂ => ?_
    · cases acted with
      | sleep => exact ⟨rfl, (), rfl⟩
    · refine safe_executeFile (fun s₃ relied₃ => ?_) fun _ _ => .inl manager.image
      have later := Rely.trans relied₂ relied₃
      have here := manager.relied (relied₁.trans ⟨later.log, later.children, later.pipes⟩)
      exact .inr ⟨w.pid, n - 1, here.child, here.stage runnable.more pipes write read⟩
  apply safe_redirect
  · intro some s₁ relied
    exact last s₁ _ relied (Ports.dup2_pipes prev 0) rfl (if_neg some).symm
  · intro none
    exact last s _ (.refl w s) rfl rfl (if_pos none).symm

/-- What the shell finds when it goes on: it has one child more, and its ports are as before. -/
def WentOn (first : Worker) (s : Host) (w : Worker) : Prop :=
  w = first ∧ (s.children first.pid).length = 1

/-- A process that was forked just now has done nothing. -/
theorem Placed.nothing (placed : Placed s w) :
    s.children s.nextPid = [] ∧ s.pipes s.nextPid = [] := by
  have other : ∀ d ∈ s.log, d.actor ≠ s.nextPid := fun d member =>
    Nat.ne_of_lt (placed.past d member)
  constructor
  · rw [Host.children, List.filterMap_eq_nil_iff]
    intro d member
    cases d with
    | forked parent child => exact if_neg (other _ member)
    | piped owner pipe => rfl
  · rw [Host.pipes, List.filterMap_eq_nil_iff]
    intro d member
    cases d with
    | forked parent child => rfl
    | piped owner pipe => exact if_neg (other _ member)

/-- The shell and all that it starts are safe. -/
theorem safe_executeProcessPipe (runnable : Runnable find v n path) (fresh : s.log = [])
    (image : w.image = none) :
    discipline.Safe (Placement w v n path) (fun _ : Unit => WentOn w) s w
      (executeProcessPipe executeScript find n v >>= fun _ => .done ()) := by
  apply Discipline.Safe.bind
  rw [executeProcessPipe_eq runnable]
  apply safe_fork
  intro s' relied placed
  have other : w.pid ≠ s'.nextPid := Nat.ne_of_lt placed.pid
  have children : (s'.fork w.pid).children w.pid = [s'.nextPid] := by
    rw [children_fork, if_pos rfl, relied.children, Host.children, fresh]
    rfl
  constructor
  · rw [if_neg (Nat.ne_of_gt (Nat.zero_lt_of_lt placed.pid))]
    refine safe_still (fun acted => ?_) fun s₁ _ relied₁ s₂ relied₂ s₃ relied₃ => ⟨rfl, ?_⟩
    · cases acted with
      | waitpid => exact ⟨rfl, (), rfl⟩
    · rw [relied₃.children, relied₂.children, relied₁.children, children]
      rfl
  · rw [if_pos rfl]
    apply Discipline.Safe.bind
    rcases placed.nothing with ⟨childless, pipeless⟩
    have own : (s'.fork w.pid).children s'.nextPid = [] := by
      rw [children_fork, if_neg other, childless]
      rfl
    have ownPipes : (s'.fork w.pid).pipes s'.nextPid = [] := by
      rw [pipes_fork, pipeless]
    apply Manager.safe runnable
    refine ⟨?_, other.symm, image, ?_, ?_, ?_, rfl, rfl, rfl⟩
    · rw [children]
      rfl
    · show ((s'.fork w.pid).children s'.nextPid).length = 0
      rw [own]
      rfl
    · show ((s'.fork w.pid).pipes s'.nextPid).length = 0
      rw [ownPipes]
      rfl
    · show ∀ pipe ∈ (s'.fork w.pid).pipes s'.nextPid, _
      rw [ownPipes]
      nofun

theorem executeProcess_eq (runnable : Runnable find v 1 path) :
    executeProcess executeScript find v = .call .fork fun pid =>
      if pid = 0 then executeFile (path 0) 0 v >>= fun _ => Session.exit 1
      else if v.commands 0 1 ≠ some (ascii "&") then
        .call (.waitpid pid) fun _ => .done (v.clear 0)
      else .done (v.clear 0) := by
  rcases runnable.found 0 Nat.one_pos with ⟨word, present, found⟩
  have foreign := handleCommand_foreign executeScript (runnable.single rfl word present) v
  simp only [executeProcess, absolutePath, present, Session.read, Code.done_bind,
    Code.pure_eq_done, found, foreign]
  rfl

/-- The shell and the one process that it starts are safe. -/
theorem safe_executeProcess (runnable : Runnable find v 1 path) (fresh : s.log = [])
    (image : w.image = none) :
    discipline.Safe (Placement w v 1 path) (fun _ : Unit => WentOn w) s w
      (executeProcess executeScript find v >>= fun _ => .done ()) := by
  apply Discipline.Safe.bind
  rw [executeProcess_eq runnable]
  apply safe_fork
  intro s' relied placed
  have other : w.pid ≠ s'.nextPid := Nat.ne_of_lt placed.pid
  have children : (s'.fork w.pid).children w.pid = [s'.nextPid] := by
    rw [children_fork, if_pos rfl, relied.children, Host.children, fresh]
    rfl
  constructor
  · rw [if_neg (Nat.ne_of_gt (Nat.zero_lt_of_lt placed.pid))]
    have goesOn : ∀ s₁, Rely w (s'.fork w.pid) s₁ → WentOn w s₁ w := fun s₁ relied₁ =>
      ⟨rfl, by rw [relied₁.children, children]; rfl⟩
    split
    · refine safe_still (fun acted => ?_) fun s₁ _ relied₁ s₂ relied₂ s₃ relied₃ => ?_
      · cases acted with
        | waitpid => exact ⟨rfl, (), rfl⟩
      · exact goesOn s₃ ((relied₁.trans relied₂).trans relied₃)
    · exact fun s₂ relied₂ s₃ relied₃ => goesOn s₃ (relied₂.trans relied₃)
  · rw [if_pos rfl]
    have own : (s'.fork w.pid).children s'.nextPid = [] := by
      rw [children_fork, if_neg other, placed.nothing.1]
      rfl
    refine safe_executeFile (fun s₁ relied₁ => .inr ⟨s'.nextPid, 0, ?_, ?_⟩) fun _ _ => .inl image
    · apply children_later relied₁.log
      rw [children]
      rfl
    · refine ⟨Nat.one_pos, rfl, ?_, ?_, ?_⟩
      · rw [if_pos rfl]
        refine ⟨rfl, ?_⟩
        rw [relied₁.children, own]
        rfl
      · rw [if_pos rfl]
      · rw [if_pos rfl]

theorem safe_executeLine (runnable : Runnable find v n path) (fresh : s.log = [])
    (image : w.image = none) :
    discipline.Safe (Placement w v n path) (fun _ : Unit => WentOn w) s w
      (executeLine executeScript find n v >>= fun _ => .done ()) := by
  have more := runnable.more
  have few := runnable.few
  obtain rfl | rfl | rfl : n = 1 ∨ n = 2 ∨ n = 3 := by omega
  · exact safe_executeProcess runnable fresh image
  · exact safe_executeProcessPipe runnable fresh image
  · exact safe_executeProcessPipe runnable fresh image

end

/-! ## Every interleaving -/

/-- A process that makes no more calls. -/
def Rests (p : Process Call Answer Worker) : Prop :=
  ∃ w, p = .gone w ∨ p = .runs w (.done ())

/-- A crew in which the shell runs a line. -/
structure Piping (first : Worker) (v : Session) (n : Nat) (path : Nat → Text) (crew : ShellCrew) :
    Prop where
  sound : discipline.Sound (Placement first v n path) (WentOn first) crew
  genealogy : Genealogy first.pid crew

theorem Piping.start (runnable : Runnable find v n path) (fresh : s.log = [])
    (image : first.image = none) (placed : Placed s first) {events : List (Option Worker)}
    {crew : ShellCrew}
    (run : Runs (Step Acts Outside) ⟨s, [.runs first
      (executeLine executeScript find n v >>= fun _ => .done ())]⟩ events crew) :
    Piping first v n path crew := by
  refine run.keeps ⟨?_, ?_⟩ fun piping stepped => ?_
  · exact ⟨List.forall_mem_singleton.mpr placed, List.pairwise_singleton _ _,
      List.forall_mem_singleton.mpr (safe_executeLine runnable fresh image)⟩
  · have nothing : ∀ parent child, Deed.forked parent child ∉ s.log := by
      rw [fresh]
      exact fun _ _ => List.not_mem_nil
    refine ⟨fun parent child made => absurd made (nothing parent child), ?_,
      ⟨_, List.mem_singleton_self _, rfl⟩,
      fun parent child made => absurd made (nothing parent child)⟩
    rw [fresh]
    exact List.nodup_nil
  · exact ⟨piping.sound.step stepped, piping.genealogy.step stepped piping.sound.placed⟩

/-- Two processes with one pid are one. -/
theorem Piping.unique {crew : ShellCrew} (piping : Piping first v n path crew)
    {p q : Process Call Answer Worker} (member : p ∈ crew.processes) (other : q ∈ crew.processes)
    (same : p.own.pid = q.own.pid) : p = q := by
  have apart := piping.sound.apart
  rw [List.pairwise_map] at apart
  have pids : (crew.processes.map fun p => p.own.pid).Nodup := List.pairwise_map.mpr apart
  exact List.inj_on_of_nodup_map pids member other same

/-- When all rest and every command was executed, a forked process is over. -/
theorem Piping.child_gone {crew : ShellCrew} (piping : Piping first v n path crew)
    (rest : ∀ p ∈ crew.processes, Rests p) {parent child : Nat}
    (made : child ∈ crew.shared.children parent) (old : first.pid ≤ parent) :
    ∃ w, .gone w ∈ crew.processes ∧ w.pid = child := by
  rcases piping.genealogy.present parent child (mem_children made) with ⟨p, member, pid⟩
  rcases rest p member with ⟨w, rfl | rfl⟩
  · exact ⟨w, member, pid⟩
  · have back := piping.sound.returned member
    have younger := (piping.genealogy.older parent child (mem_children made)).1
    have same : w.pid = child := pid
    rw [back.1] at same
    omega

/-- The pid of a stage. -/
theorem Piping.stage_pid {crew : ShellCrew} (piping : Piping first v n path crew) {m : Nat}
    (stage : Stage first v n path crew.shared m w i) : m ≤ w.pid ∧ (i + 1 ≠ n → m < w.pid) := by
  have pid := stage.pid
  split at pid
  · rename_i last
    exact ⟨Nat.le_of_eq pid.1.symm, fun early => absurd last early⟩
  · have younger := (piping.genealogy.older m w.pid (mem_children (List.mem_of_getElem? pid))).1
    exact ⟨Nat.le_of_lt younger, fun _ => younger⟩

/-- What an executed process is, when the shell has one child. -/
theorem Piping.stage {crew : ShellCrew} (piping : Piping first v n path crew)
    (executed : ∀ w, .gone w ∈ crew.processes → w.image ≠ none) {m : Nat}
    (only : crew.shared.children first.pid = [m]) (member : .gone w ∈ crew.processes) :
    ∃ i, Stage first v n path crew.shared m w i := by
  rcases piping.sound.gone member with none | ⟨m', i, child, stage⟩
  · exact absurd none (executed w member)
  · rw [only] at child
    cases child
    exact ⟨i, stage⟩

/-- When all rest and every command was executed, each has its process. -/
theorem Piping.complete {crew : ShellCrew} (piping : Piping first v n path crew)
    (rest : ∀ p ∈ crew.processes, Rests p)
    (executed : ∀ w, .gone w ∈ crew.processes → w.image ≠ none) :
    ∃ m, crew.shared.children first.pid = [m] ∧ ∀ i < n, ∃! w,
      .gone w ∈ crew.processes ∧ Stage first v n path crew.shared m w i := by
  -- the shell has come back
  have back : ∃ m, crew.shared.children first.pid = [m] := by
    rcases piping.genealogy.root with ⟨p, member, pid⟩
    rcases rest p member with ⟨w, rfl | rfl⟩
    · rcases piping.sound.gone member with none | ⟨m, i, child, stage⟩
      · exact absurd none (executed w member)
      · have younger := (piping.genealogy.older first.pid m
          (mem_children (List.mem_of_getElem? child))).1
        have low := (piping.stage_pid stage).1
        have same : w.pid = first.pid := pid
        omega
    · exact List.length_eq_one_iff.mp (piping.sound.returned member).2
  rcases back with ⟨m, only⟩
  have managed : m ∈ crew.shared.children first.pid := only ▸ List.mem_singleton_self m
  have young := (piping.genealogy.older first.pid m (mem_children managed)).1
  -- its child executed the last command
  rcases piping.child_gone rest managed (Nat.le_refl _) with ⟨manager, managing, managerPid⟩
  rcases piping.stage executed only managing with ⟨last, lastStage⟩
  have lastly : last + 1 = n := by
    by_contra early
    have high := (piping.stage_pid lastStage).2 early
    omega
  have count : (crew.shared.children m).length = last := by
    have pid := lastStage.pid
    rw [if_pos lastly] at pid
    exact pid.2
  refine ⟨m, only, fun i inside => ?_⟩
  by_cases early : i + 1 = n
  · have same : last = i := by omega
    refine ⟨manager, ⟨managing, same ▸ lastStage⟩, ?_⟩
    rintro w ⟨member, stage⟩
    have pid := stage.pid
    rw [if_pos early] at pid
    cases piping.unique member managing (pid.1.trans managerPid.symm)
    rfl
  · have short : i < (crew.shared.children m).length := by omega
    rcases piping.child_gone rest (List.getElem_mem short) (Nat.le_of_lt young)
      with ⟨w, member, pid⟩
    rcases piping.stage executed only member with ⟨i', stage⟩
    have here : (crew.shared.children m)[i]? = some w.pid := by
      rw [pid]
      exact List.getElem?_eq_getElem short
    have same : i' = i := by
      have place := stage.pid
      split at place
      · have younger := (piping.genealogy.older m w.pid
          (mem_children (List.mem_of_getElem? here))).1
        omega
      · have inside' := (List.getElem?_eq_some_iff.mp place).1
        exact (List.getElem?_inj inside' (piping.genealogy.children_nodup m)).mp
          (place.trans here.symm)
    refine ⟨w, ⟨member, same ▸ stage⟩, ?_⟩
    rintro w' ⟨member', stage'⟩
    have place := stage'.pid
    rw [if_neg early, here] at place
    cases piping.unique member' member (Option.some.inj place).symm
    rfl

/-- A shell that was not redirected, with `ls | cat` in its table. -/
def lsCat : Session where
  ps1 := []
  env := ascii "PATH=/bin"
  commands i j := if j = 0 then some (if i = 0 then ascii "ls" else ascii "cat") else none

/-- Everything is in `/bin`. -/
def inBin (_ word : Text) : Option Text := some (ascii "/bin/" ++ word)

def binPath (i : Nat) : Text := ascii "/bin/" ++ if i = 0 then ascii "ls" else ascii "cat"

def freshHost : Host := ⟨2, 3, 0, []⟩

def freshShell : Worker := ⟨1, .none, none⟩

theorem runnable_lsCat : Runnable inBin lsCat 2 binPath where
  more := by decide
  few := by decide
  found i _ := ⟨_, rfl, rfl⟩
  foreign i inside := by
    apply foreign_of_slash
    · exact List.mem_append_left _ (by decide)
    · have both : ∀ i < 2, ¬ occurs (ascii ".sbush") (binPath i) := by decide
      exact both i inside
  single one := by cases one

theorem placed_fresh : Placed freshHost freshShell where
  pid := by decide
  two := by decide
  keyed := ⟨fun _ => nofun, List.nodup_nil⟩
  past := fun _ => nofun

/-- Nobody runs scripts. -/
def noScript (_ : Text) (v : Session) : ShellCode Session := .done v

/-- Where the shell forks. -/
def afterFork (pid : Nat) : ShellCode Unit :=
  (if pid = 0 then
    ((pipeLoop noScript inBin lsCat 0 0 1 >>= fun prev => redirect prev 0 0 >>= fun _ =>
      .call (.sleep 1) fun _ => executeFile (binPath 1) 1 lsCat >>= fun _ => Session.exit 1) >>=
        fun _ : Unit => .call (.waitpid pid) fun _ => .done (clearLoop lsCat 0 2))
  else .call (.waitpid pid) fun _ => .done (clearLoop lsCat 0 2)) >>= fun _ => .done ()

theorem code_lsCat : (executeLine noScript inBin 2 lsCat >>= fun _ => (.done () : ShellCode Unit)) =
    .call .fork afterFork := by
  show (executeProcessPipe noScript inBin 2 lsCat >>= _) = _
  rw [executeProcessPipe_eq runnable_lsCat, runPipeline_eq runnable_lsCat]
  rfl

/-- The crew when everything was done. -/
theorem runs_lsCat : ∃ events crew, Runs (Step Acts Outside) ⟨freshHost, [.runs freshShell
    (executeLine noScript inBin 2 lsCat >>= fun _ => .done ())]⟩ events crew ∧
    (∀ p ∈ crew.processes, Rests p) ∧ ∀ w, .gone w ∈ crew.processes → w.image ≠ none := by
  rw [code_lsCat]
  have r0 : Runs (Step Acts Outside) ⟨freshHost, [.runs freshShell (.call .fork afterFork)]⟩ [] _ :=
    .start
  have r1 := r0.step (.call [] [] (.fork _ _))
  have r2 := r1.step (.call [_] [] (.pipe _ _ (by decide)))
  have r3 := r2.step (.call [_] [] (.fork _ _))
  have r4 := r3.step (.call [_, _] [] (.dup2 _ _ _ _))
  have r5 := r4.step (.call [_, _] [] (.execve _ _ _ _ _))
  have r6 := r5.step (.call [_] [_] (.dup2 _ _ _ _))
  have r7 := r6.step (.call [_] [_] (.sleep _ _ _))
  have r8 := r7.step (.call [_] [_] (.execve _ _ _ _ _))
  have r9 := r8.step (.call [] [_, _] (.waitpid _ _ _))
  refine ⟨_, _, r9, ?_, ?_⟩
  · exact List.forall_mem_cons.mpr ⟨⟨_, .inr rfl⟩, List.forall_mem_cons.mpr ⟨⟨_, .inl rfl⟩,
      List.forall_mem_singleton.mpr ⟨_, .inl rfl⟩⟩⟩
  · intro w member
    rcases List.mem_cons.mp member with shell | others
    · cases shell
    · rcases List.mem_pair.mp others with same | same
      · cases same
        nofun
      · cases same
        nofun

end Sbrocks.Sbush
