import Sbrocks.Syscall.PipeLists
import Sbrocks.System.Tasks

/-!
# Redirections

A task's output is redirected by the descriptor of a pipe.  The calls that make, copy and
drop pipes and redirections keep every redirection at a pipe of the task, as long as a
task redirects to its own pipes and closes no pipe that both its input and its output
are redirected to.
-/

namespace Sbrocks.Process

open Sbrocks.Mmu

variable {k k' : Kernel} {pipes : Word → List Word} {t task fd : Word}

/-! ## System calls -/

/-- A task without a first pipe has none. -/
theorem PipeLists.eq_nil (lists : PipeLists k pipes) (dry : (k.task t).pipe = none) :
    pipes t = [] := by
  have linked := lists.linked t
  rw [dry] at linked
  exact linked.eq_nil

/-- Redirections survive where the list of one task grows. -/
theorem Redirected.grown {nodes : List Word} (redirected : ∀ t, Redirected k (pipes t) t)
    (lists : PipeLists k pipes) (relisted : Relisted k k')
    (more : ∀ p ∈ pipes task, p ∈ nodes) (t : Word) :
    Redirected k' (Function.update pipes task nodes t) t := by
  apply (redirected t).relisted relisted (lists.structs t)
  intro p inside
  by_cases own : t = task
  · subst own
    rw [Function.update_self]
    exact more p inside
  · rw [Function.update_of_ne own]
    exact inside

/-- Only redirections of a child change, which takes over those of its parent. -/
structure Inherits (parent child : Word) (k k' : Kernel) : Prop where
  file : k'.file = k.file
  fileStructs : k'.fileStructs = k.fileStructs
  fdCount : k'.fdCount = k.fdCount
  pipe : ∀ t, (k'.task t).pipe = (k.task t).pipe
  others : ∀ t, t ≠ child → (k'.task t).plumbing = (k.task t).plumbing
  write : (k'.task child).writeRedirectionFd = (k.task parent).writeRedirectionFd
  read : (k'.task child).readRedirectionFd = (k.task parent).readRedirectionFd

/-- A child that had no pipes gets the pipes of its parent with the redirections. -/
theorem Watertight.inherit {parent child : Word} (watertight : Watertight k)
    (dry : (k.task child).plumbing = .dry) (inherits : Inherits parent child k k') (rounds : Nat) :
    (k'.copyPipes child (k'.task parent).pipe rounds).All Watertight fun _ => False := by
  rcases watertight with ⟨pipes, lists, redirected⟩
  have next : k'.nextFile = k.nextFile := by
    unfold Kernel.nextFile
    rw [inherits.file]
  have none : pipes child = [] := lists.eq_nil (congrArg Plumbing.pipe dry)
  have lists' : PipeLists k' pipes := lists.congr inherits.pipe (fun p _ => by rw [next])
    fun p known => inherits.fileStructs ▸ known
  apply (lists'.copies (lists'.linked parent) (lists'.structs parent) (by simp [none])).imp
  rintro k'' ⟨nodes, lists'', relisted, copied⟩
  rw [none, List.nil_append] at lists''
  refine ⟨_, lists'', fun t => ?_⟩
  by_cases own : t = child
  · rw [own, Function.update_self]
    have backed : ∀ {fd}, Backed k (pipes parent) fd → Backed k'' nodes fd := by
      intro fd backed
      apply backed.mono
      intro p inside named
      rcases copied.fd_mem inside with ⟨q, listed, same⟩
      refine ⟨q, listed, ?_⟩
      rw [same, inherits.file]
      exact named
    constructor
    · rw [relisted.write child, inherits.write]
      exact backed (redirected parent).write
    · rw [relisted.read child, inherits.read]
      exact backed (redirected parent).read
  · rw [Function.update_of_ne own]
    have kept := inherits.others t own
    have here : Redirected k' (pipes t) t := by
      have same : ∀ {fd}, Backed k (pipes t) fd → Backed k' (pipes t) fd := fun backed =>
        backed.mono fun p inside named => ⟨p, inside, by rw [inherits.file]; exact named⟩
      constructor
      · rw [show (k'.task t).writeRedirectionFd = _ from congrArg Plumbing.writeRedirectionFd kept]
        exact same (redirected t).write
      · rw [show (k'.task t).readRedirectionFd = _ from congrArg Plumbing.readRedirectionFd kept]
        exact same (redirected t).read
    exact here.relisted relisted (lists'.structs t) fun _ => id

namespace Kernel

variable {I J : Kernel → Prop} {fault : Fault}

/-- `system_pipe` puts two new pipes with the next descriptors at the end of the list, and then
stores the descriptors. -/
theorem systemPipe_adds {P : Kernel → Prop} (lists : PipeLists k pipes)
    (running : k.currentTask = some task) (fds : Word)
    (stores : ∀ (k' : Kernel) (p1 p2 : Word),
      PipeLists k' (Function.update pipes task (pipes task ++ [p1, p2])) → Relisted k k' →
      (k'.file p1).fd = ofInt k.fdCount → (k'.file p2).fd = ofInt (toInt (ofInt k.fdCount + 1)) →
      k'.fdCount = toInt (ofInt (toInt (ofInt k.fdCount + 1)) + 1) →
      (∀ q ∈ k.fileStructs, k'.pipeEntry q = k.pipeEntry q) →
      (k'.file p2).addr = (k'.file p1).addr →
      (do let k' ← k'.storeBytes fault fds (leBytes (k'.file p1).fd 4)
          k'.storeBytes fault (fds + 4) (leBytes (k'.file p2).fd 4)).All P J) :
    (k.systemPipe fault fds).All P J := by
  unfold systemPipe
  rw [running, Flow.ofOption_some, Flow.next_bind]
  apply Flow.All.bind k.newFile_fresh
  rintro ⟨k₁, p1⟩ ⟨new₁, count₁⟩
  apply Flow.All.bind k₁.newFile_fresh
  rintro ⟨k₂, p2⟩ ⟨new₂, count₂⟩
  apply Flow.All.bind (allocPages_spaces 1 userFlags)
  rintro ⟨k₃, addr⟩ spaced
  change Spaced k₂ k₃ at spaced
  dsimp only at new₁ new₂ count₁ count₂ ⊢
  have count₃ : k₃.fdCount = k.fdCount := spaced.steady.fdCount.trans (count₂.trans count₁)
  generalize described : (Kernel.modFile _ p2 _) = k₄
  have fresh₂ := new₂.fresh
  rw [new₁.fileStructs, List.mem_cons, not_or] at fresh₂
  have count₄ : k₄.fdCount = toInt (ofInt (toInt (ofInt k.fdCount + 1)) + 1) := by
    rw [← described, ← count₃]
    rfl
  have first : (k₄.file p1).fd = ofInt k.fdCount := by
    rw [← described, ← count₃]
    simp [modFile, Ne.symm fresh₂.1]
  have second : (k₄.file p2).fd = ofInt (toInt (ofInt k.fdCount + 1)) := by
    rw [← described, ← count₃]
    simp [modFile]
  have shared : (k₄.file p2).addr = (k₄.file p1).addr := by
    rw [← described]
    simp [modFile, Ne.symm fresh₂.1]
  have structs : k₄.fileStructs = p2 :: p1 :: k.fileStructs := by
    rw [← described]
    show k₃.fileStructs = _
    rw [spaced.drained.fileStructs, new₂.fileStructs, new₁.fileStructs]
  have file₃ : k₃.file = k.file := by
    rw [spaced.same]
    exact new₂.file.trans new₁.file
  have file₄ : ∀ q ∈ k.fileStructs, k₄.file q = k.file q := by
    intro q known
    have other₁ : q ≠ p1 := fun equal => new₁.fresh (equal ▸ known)
    have other₂ : q ≠ p2 := fun equal => fresh₂.2 (equal ▸ known)
    rw [← described, ← file₃]
    exact (Function.update_of_ne other₂ ..).trans (Function.update_of_ne other₁ ..)
  have plumbing : ∀ t, (k₄.task t).plumbing = (k.task t).plumbing := by
    intro t
    rw [← described]
    show (k₃.task t).plumbing = _
    rw [spaced.plumbing t, new₂.task, new₁.task]
  have relisted₄ : Relisted k k₄ :=
    ⟨fun q known => by rw [file₄ q known], fun t => congrArg Plumbing.writeRedirectionFd (plumbing t),
      fun t => congrArg Plumbing.readRedirectionFd (plumbing t), fun q known => by simp [structs, known]⟩
  have lists₄ : PipeLists k₄ pipes := by
    apply lists.congr (fun t => congrArg Plumbing.pipe (plumbing t)) _ relisted₄.structs
    intro q known
    unfold nextFile
    rw [file₄ q known]
  rcases lists₄.add (p := p1) (by simp [structs])
    (fun t inside => new₁.fresh (lists.structs t p1 inside)) task with
    ⟨k₅, added₅, lists₅, relisted₅, links₅, _⟩
  have unlisted : ∀ t, p2 ∉ Function.update pipes task (pipes task ++ [p1]) t := by
    intro t inside
    by_cases own : t = task
    · rw [own, Function.update_self] at inside
      rcases List.mem_append.mp inside with old | new
      · exact fresh₂.2 (lists.structs task p2 old)
      · exact fresh₂.1 (List.mem_singleton.mp new)
    · rw [Function.update_of_ne own] at inside
      exact fresh₂.2 (lists.structs t p2 inside)
  rcases lists₅.add (p := p2) (relisted₅.structs p2 (by simp [structs])) unlisted task with
    ⟨k₆, added₆, lists₆, relisted₆, links₆, _⟩
  rw [added₅, Flow.next_bind, added₆, Flow.next_bind]
  rw [Function.update_self, Function.update_idem, List.append_assoc] at lists₆
  have kept : ∀ p, k₆.pipeEntry p = k₄.pipeEntry p := fun p =>
    (pipeEntry_entryAt (links₆.entry p)).trans (pipeEntry_entryAt (links₅.entry p))
  have fd : ∀ p, (k₆.file p).fd = (k₄.file p).fd := fun p => congrArg Prod.fst (kept p)
  have addr : ∀ p, (k₆.file p).addr = (k₄.file p).addr := fun p =>
    congrArg (fun entry => entry.2.1) (kept p)
  refine stores k₆ p1 p2 lists₆ ((relisted₄.trans relisted₅).trans relisted₆)
    ((fd p1).trans first) ((fd p2).trans second)
    (links₆.fdCount.trans (links₅.fdCount.trans count₄)) (fun q known => ?_) ?_
  · rw [kept q]
    unfold pipeEntry
    rw [file₄ q known]
  · rw [addr p1, addr p2, shared]

theorem adoptChild_steady (k : Kernel) (parent child : Word) :
    Steady k (k.adoptChild parent child) := by
  have named : Steady k (k.modTask child fun s => { s with ppid := (k.task parent).pid }) :=
    .modTask k child rfl
  have framed : Steady k ((k.modTask child fun s => { s with ppid := (k.task parent).pid }).modTask
      child fun s => { s with r := { ((k.modTask child fun s =>
        { s with ppid := (k.task parent).pid }).task parent).r with rax := 0 } }) :=
    named.andTask child rfl
  exact framed.trans (.same rfl rfl rfl rfl)

theorem linkChild_inherits (k : Kernel) (parent child : Word) :
    Inherits parent child k (k.linkChild parent child) := by
  have kept : ∀ {γ : Type} (field : TaskStruct → γ), (∀ s, field { s with parent := some parent } =
      field s) → (∀ s, field { s with childCount := s.childCount + 1 } = field s) → ∀ t,
      field (((k.modTask child fun s => { s with parent := some parent }).modTask parent fun s =>
        { s with childCount := s.childCount + 1 }).task t) = field (k.task t) := by
    intro γ field named counted t
    rw [modTask_task_field _ field parent t (counted _), modTask_task_field _ field child t (named _)]
  constructor
  · rfl
  · rfl
  · rfl
  · intro t
    unfold linkChild
    dsimp only
    rw [modTask_task_field _ TaskStruct.pipe child t rfl]
    exact kept TaskStruct.pipe (fun _ => rfl) (fun _ => rfl) t
  · intro t other
    unfold linkChild
    dsimp only
    rw [modTask_task_of_ne _ other]
    exact kept TaskStruct.plumbing (fun _ => rfl) (fun _ => rfl) t
  · unfold linkChild
    dsimp only
    rw [modTask_task_self]
    exact kept TaskStruct.writeRedirectionFd (fun _ => rfl) (fun _ => rfl) parent
  · unfold linkChild
    dsimp only
    rw [modTask_task_self]
    exact kept TaskStruct.readRedirectionFd (fun _ => rfl) (fun _ => rfl) parent

theorem takeIdentity_inherits (k : Kernel) (currTask task : Word) :
    Inherits currTask task k (k.takeIdentity currTask task) := by
  have kept : ∀ {γ : Type} (field : TaskStruct → γ) (pid ppid : BitVec 32),
      (∀ s, field { s with pid := pid, ppid := ppid } = field s) →
      (∀ s, field { s with ppid := 0 } = field s) → ∀ t,
      field (((k.modTask task fun s => { s with pid := pid, ppid := ppid }).modTask currTask fun s =>
        { s with ppid := 0 }).task t) = field (k.task t) := by
    intro γ field pid ppid named orphaned t
    rw [modTask_task_field _ field currTask t (orphaned _), modTask_task_field _ field task t (named _)]
  constructor
  · rfl
  · rfl
  · rfl
  · intro t
    unfold takeIdentity
    dsimp only
    rw [modTask_task_field _ TaskStruct.pipe task t rfl]
    exact kept TaskStruct.pipe _ _ (fun _ => rfl) (fun _ => rfl) t
  · intro t other
    unfold takeIdentity
    dsimp only
    rw [modTask_task_of_ne _ other]
    exact kept TaskStruct.plumbing _ _ (fun _ => rfl) (fun _ => rfl) t
  · unfold takeIdentity
    dsimp only
    rw [modTask_task_self]
    exact kept TaskStruct.writeRedirectionFd _ _ (fun _ => rfl) (fun _ => rfl) currTask
  · unfold takeIdentity
    dsimp only
    rw [modTask_task_self]
    exact kept TaskStruct.readRedirectionFd _ _ (fun _ => rfl) (fun _ => rfl) currTask

/-- Loading a program keeps pipes and the task list. -/
theorem loadProgram_steadies (answers : fault.Heeds Steady I J) (inv : I k)
    (task elfHeader : Word) (argv envp : List Word) :
    (k.loadProgram fault task elfHeader argv envp).All
      (fun result => (Steady k result.1 ∧ SameList k result.1) ∧ result.2 = task) J := by
  have spaces := answers.steady
  have stays : ∀ {k'}, Spaced k k' → I k' := fun spaced => answers.stable inv spaced.steady
  have read : ∀ {k : Kernel}, I k → ∀ virt n,
      (k.loadLe fault virt n).All (fun result => Spaced k result.1) J := fun inv virt n =>
    (loadLe_touches spaces.touched inv virt n).imp fun _ touched => touched.spaced
  apply Flow.All.bind (read inv _ _)
  rintro ⟨k₁, entry⟩ spaced₁
  apply Flow.All.bind (read (stays spaced₁) _ _)
  rintro ⟨k₂, phnum⟩ spaced₂
  have until₂ := spaced₁.trans spaced₂
  apply Flow.All.bind (read (stays until₂) _ _)
  rintro ⟨k₃, phoff⟩ spaced₃
  have until₃ := until₂.trans spaced₃
  apply Flow.All.bind (read (stays until₃) _ _)
  rintro ⟨k₄, phentsize⟩ spaced₄
  have until₄ := until₃.trans spaced₄
  apply Flow.All.bind (loadSegments_spaces spaces (stays until₄) _ _ _ _ _ _)
  intro k₅ spaced₅
  have until₅ := until₄.trans spaced₅
  apply Flow.All.bind (addHeapAndStack_spaces spaces (stays until₅) _)
  intro k₆ spaced₆
  have until₆ := until₅.trans spaced₆
  apply Flow.All.bind (setupStack_spaces spaces (stays until₆) _ _ _)
  intro k₇ spaced₇
  have until₇ : Spaced k k₇ := until₆.trans spaced₇
  have restored : Steady k (k₇.writeCr3 k₁.m.cr3) := until₇.steady.trans (.same rfl rfl rfl rfl)
  have entered : Steady k ((k₇.writeCr3 k₁.m.cr3).modTask task fun s => { s with
      r := { s.r with rsp := ((k₇.writeCr3 k₁.m.cr3).mm (k₅.task task).mm).stackVm, rip := entry } }) :=
    restored.andTask task rfl
  have listed : SameList k (k₇.writeCr3 k₁.m.cr3) := until₇.quiet.sameList.trans (.same rfl rfl)
  refine ⟨⟨entered, ?_⟩, rfl⟩
  dsimp only
  exact listed.trans (.modTask _ task rfl rfl)

/-- `readElf` makes a task without pipes. -/
theorem readElf_begins (answers : fault.Heeds Steady I J)
    (begins : ∀ {k k' : Kernel} {t : Word}, I k → Begun k k' t → I k') (inv : I k)
    (filename : CString) (argv envp : List Word) :
    (k.readElf fault filename argv envp).All (fun result => ∃ k₁ k₂, Spaced k k₁ ∧
      k₁.createNewTask fault filename = .next (k₂, result.2) ∧ Begun k₁ k₂ result.2 ∧
      Steady k₂ result.1 ∧ SameList k₂ result.1) J := by
  rw [readElf_eq]
  apply Flow.All.bind (findOffsetForFile_touches answers.steady.touched inv filename)
  rintro ⟨k₁, offset⟩ touched₁
  have spaced₁ : Spaced k k₁ := touched₁.spaced
  have inv₁ : I k₁ := answers.stable inv spaced₁.steady
  apply Flow.All.bind (createNewTask_begins answers inv₁ filename).eq_next
  rintro ⟨k₂, task⟩ ⟨created, begun⟩
  change Begun k₁ k₂ task at begun
  apply (loadProgram_steadies answers (begins inv₁ begun) task (k₁.binaryTarfsStart + offset) argv
    envp).imp
  rintro ⟨k₃, task'⟩ ⟨steady₃, same⟩
  change task' = task at same
  subst same
  exact ⟨k₁, k₂, spaced₁, created, begun, steady₃⟩

/-- What fork does last: it answers its parent and lets another task run. -/
def tellParent (k : Kernel) (parent child : Word) : Kernel :=
  (k.modTask parent fun s =>
    { s with r := { s.r with rax := (k.task child).pid.setWidth 64 }, state := .runnable }).setCurrentTask
      none

theorem tellParent_steady (k : Kernel) (parent child : Word) :
    Steady k (k.tellParent parent child) := by
  have answered : Steady k (k.modTask parent fun s => { s with
      r := { s.r with rax := (k.task child).pid.setWidth 64 }, state := .runnable }) :=
    .modTask k parent rfl
  exact answered.trans (.same rfl rfl rfl rfl)

/-- A fork that got through: a new child got the memory of its parent, its redirections and its
pipes, and the parent was answered. -/
structure Forked (fault : Fault) (k : Kernel) (parent child : Word) (k₁ k₃ k₅ k' : Kernel) :
    Prop where
  running : k.currentTask = some parent
  created : k.createNewTask fault (.text childName) = .next (k₁, child)
  begun : Begun k k₁ child
  spaced : Spaced (k₁.adoptChild parent child) k₃
  copied : (k₃.linkChild parent child).copyPipes child
    ((k₃.linkChild parent child).task parent).pipe (k₃.linkChild parent child).fileRounds = .next k₅
  yielded : Ends (k₅.tellParent parent child).yield k'

/-- Copying pipes touches no user memory. -/
theorem copyPipes_quiet (k : Kernel) (task : Word) (temp : Option Word) (rounds : Nat) :
    Quiets J k (k.copyPipes task temp rounds) := by
  have faultless : Fault.Answers (fun _ _ => .stuck) (fun _ => True) J :=
    ⟨fun _ _ => trivial, fun _ _ => trivial⟩
  exact .of_stills (copyPipes_stills faultless.still trivial task temp rounds)

theorem systemFork_forks
    (creates : (k.createNewTask fault (.text childName)).All
      (fun result => Begun k result.1 result.2) J)
    (sets : ∀ parent k₁ child, k.currentTask = some parent →
      k.createNewTask fault (.text childName) = .next (k₁, child) → Begun k k₁ child →
      Spaces J (k₁.adoptChild parent child)
        ((k₁.adoptChild parent child).setupMemory fault child parent)) :
    (k.systemFork fault).All
      (fun result => ∃ parent child k₁ k₃ k₅, Forked fault k parent child k₁ k₃ k₅ result.1)
      fun k' => J k' ∨ ∃ parent child k₁ k₃ k₅, Forked fault k parent child k₁ k₃ k₅ k' := by
  rw [systemFork_eq]
  apply Flow.All.bind (P := fun t => k.currentTask = some t) (.ofOption fun _ found => found)
  intro parent running
  apply Flow.All.bind (creates.eq_next.mono (fun _ made => made) fun _ => .inl)
  rintro ⟨k₁, child⟩ ⟨created, begun⟩
  change Begun k k₁ child at begun
  apply Flow.All.bind ((sets parent k₁ child running created begun).mono (fun _ set => set)
    fun _ => .inl)
  intro k₃ spaced
  apply Flow.All.bind ((copyPipes_quiet (J := J) (k₃.linkChild parent child) child
    ((k₃.linkChild parent child).task parent).pipe
    (k₃.linkChild parent child).fileRounds).eq_next.mono (fun _ copied => copied) fun _ => .inl)
  rintro k₅ ⟨copied, _⟩
  have last : ∀ k', Ends (k₅.tellParent parent child).yield k' →
      ∃ parent child k₁ k₃ k₅, Forked fault k parent child k₁ k₃ k₅ k' :=
    fun k' yielded => ⟨parent, child, k₁, k₃, k₅, running, created, begun, spaced, copied, yielded⟩
  show ((k₅.tellParent parent child).yield >>= _).All _ _
  cases yields : (k₅.tellParent parent child).yield with
  | next k' => exact last k' (by rw [yields]; exact rfl)
  | left k' => exact .inr (last k' (by rw [yields]; exact rfl))
  | stuck => trivial

/-- An execve that returns: a new task got the program, and the redirections and the pipes of
the caller. -/
structure Executed (fault : Fault) (k : Kernel) (currTask task : Word) (filename : CString)
    (k₁ k₂ k₃ k' : Kernel) : Prop where
  running : k.currentTask = some currTask
  spaced : Spaced k k₁
  created : k₁.createNewTask fault filename = .next (k₂, task)
  begun : Begun k₁ k₂ task
  loaded : Steady k₂ k₃
  listed : SameList k₂ k₃
  copied : (k₃.takeIdentity currTask task).copyPipes task
    ((k₃.takeIdentity currTask task).task currTask).pipe
    (k₃.takeIdentity currTask task).fileRounds = .next k'

theorem systemExecve_executes (answers : fault.Heeds Steady I J)
    (begins : ∀ {k k' : Kernel} {t : Word}, I k → Begun k k' t → I k') (inv : I k)
    (filename argvAddr envpAddr : Word) :
    (k.systemExecve fault filename argvAddr envpAddr).All (fun k' => ∃ currTask task k₁ k₂ k₃,
      Executed fault k currTask task (.atAddr filename) k₁ k₂ k₃ k') J := by
  rw [systemExecve_eq]
  have spaces := answers.steady
  apply Flow.All.bind (copyArguments_spaces spaces inv argvAddr 10)
  rintro ⟨k₁, argv⟩ spaced₁
  change Spaced k k₁ at spaced₁
  have inv₁ : I k₁ := answers.stable inv spaced₁.steady
  apply Flow.All.bind (loadLe_touches spaces.touched inv₁ envpAddr 8)
  rintro ⟨k₂, str⟩ touched₂
  have until₂ : Spaced k k₂ := spaced₁.trans touched₂.spaced
  apply Flow.All.bind (copyUserString_spaces spaces (answers.stable inv until₂.steady) str)
  rintro ⟨k₃, envp⟩ spaced₃
  have until₃ : Spaced k k₃ := until₂.trans spaced₃
  apply Flow.All.bind (P := fun t => k₃.currentTask = some t) (.ofOption fun _ found => found)
  intro currTask running
  have inv₃ := answers.stable inv until₃.steady
  apply Flow.All.bind (readElf_begins answers begins inv₃ (.atAddr filename) argv [envp])
  rintro ⟨k₆, task⟩ ⟨k₄, k₅, spaced₄, created, begun, loaded, listed⟩
  apply (copyPipes_quiet (k₆.takeIdentity currTask task) task
    ((k₆.takeIdentity currTask task).task currTask).pipe
    (k₆.takeIdentity currTask task).fileRounds).eq_next.imp
  rintro k' ⟨copied, _⟩
  refine ⟨currTask, task, k₄, k₅, k₆, ?_, until₃.trans spaced₄, created, begun, loaded, listed,
    copied⟩
  rw [← running, until₃.same]

/-! ### Redirections -/

variable (answers : fault.Heeds Drained Watertight Watertight)

include answers

theorem systemPipe_watertight (inv : Watertight k) (fds : Word) :
    (k.systemPipe fault fds).All Watertight Watertight := by
  rcases inv with ⟨pipes, lists, redirected⟩
  cases running : k.currentTask with
  | none =>
      unfold systemPipe
      rw [running]
      trivial
  | some task =>
      apply systemPipe_adds lists running fds
      intro k' p1 p2 lists' relisted _ _ _ _ _
      have inv' : Watertight k' := by
        refine ⟨_, lists', Redirected.grown redirected lists relisted fun q inside => ?_⟩
        exact List.mem_append_left _ inside
      have spaces := answers.drained.touched
      apply Flow.All.bind (P := Watertight) ((storeBytes_touches spaces inv' _ _).imp
        fun _ touched => inv'.drained touched.spaced.drained)
      intro k'' inv''
      exact (storeBytes_touches spaces inv'' _ _).imp
        fun _ touched => inv''.drained touched.spaced.drained

omit answers in
theorem Forked.watertight {parent child : Word} {k₁ k₃ k₅ : Kernel} (inv : Watertight k)
    (forked : Forked fault k parent child k₁ k₃ k₅ k') : Watertight k' := by
  have adopted := adoptChild_steady k₁ parent child
  have set := adopted.trans forked.spaced.steady
  have inv₃ := (inv.drained forked.begun.drained).drained set.drained
  have dry₃ : (k₃.task child).plumbing = .dry := (set.task child).trans forked.begun.dry
  have inv₅ := (inv₃.inherit dry₃ (linkChild_inherits k₃ parent child) _).of_next forked.copied
  have inv₆ := inv₅.drained (tellParent_steady k₅ parent child).drained
  exact (Flow.All.ends (yield_drains.mono (fun _ drained => inv₆.drained drained)
    fun _ drained => inv₆.drained drained) forked.yielded).elim id id

theorem systemFork_watertight (inv : Watertight k) :
    (k.systemFork fault).All (fun result => Watertight result.1) Watertight := by
  have forks := systemFork_forks (createNewTask_begins answers.steadies inv (.text childName))
    fun parent k₁ child _ _ begun => setupMemory_spaces answers.drained
      ((inv.drained begun.drained).drained (adoptChild_steady k₁ parent child).drained) child parent
  apply forks.mono
  · rintro result ⟨parent, child, k₁, k₃, k₅, forked⟩
    exact forked.watertight inv
  · rintro k' (lost | ⟨parent, child, k₁, k₃, k₅, forked⟩)
    · exact lost
    · exact forked.watertight inv

theorem systemExecve_watertight (inv : Watertight k) (filename argvAddr envpAddr : Word) :
    (k.systemExecve fault filename argvAddr envpAddr).All Watertight Watertight := by
  apply (systemExecve_executes answers.steadies (fun inv begun => inv.drained begun.drained) inv
    filename argvAddr envpAddr).imp
  rintro k' ⟨currTask, task, k₁, k₂, k₃, executed⟩
  have inv₁ := inv.drained executed.spaced.drained
  have inv₃ := (inv₁.drained executed.begun.drained).drained executed.loaded.drained
  have dry₃ := (executed.loaded.task task).trans executed.begun.dry
  exact (inv₃.inherit dry₃ (takeIdentity_inherits k₃ currTask task) _).of_next executed.copied

omit answers in
/-- `fclose` rewinds at most a file with the descriptor. -/
theorem fclose_cases (fd : Word) : (k.fclose fd).All (fun k' => k' = k ∨
    ∃ p, (k.file p).fd = fd ∧ k' = k.modFile p fun s => { s with offset := 0 }) J := by
  apply Flow.All.bind (P := fun found => ∀ p, found = some p → (k.file p).fd = fd)
  · apply Flow.All.bind (P := fun _ => True) (.ofOption fun _ _ => trivial)
    intro first _
    apply Flow.All.bind (.ofOption fun _ found => found)
    intro found scanned
    cases found with
    | none => exact nofun
    | some t =>
        intro p same
        have passes := Chain.scan_found scanned
        split at same
        · cases same
        · rename_i more
          cases same
          simpa [more] using passes
  · intro found named
    cases found with
    | none => exact .inl rfl
    | some p => exact .inr ⟨p, named p rfl, rfl⟩

omit answers in
theorem fclose_drains (fd : Word) : Drains J k (k.fclose fd) := by
  apply (fclose_cases fd).imp
  rintro k' (rfl | ⟨p, _, rfl⟩)
  · exact Drained.refl k'
  · have kept : ∀ q, ((k.modFile p fun s => { s with offset := 0 }).file q).fd = (k.file q).fd ∧
        ((k.modFile p fun s => { s with offset := 0 }).file q).next = (k.file q).next := by
      intro q
      by_cases here : q = p
      · subst here
        simp [modFile]
      · simp [modFile, here]
    exact Drains.done (J := J)
      ⟨fun q => (kept q).1, funext fun q => (kept q).2, rfl, fun _ => .inl rfl⟩

omit answers in
/-- A close keeps the redirections, unless both lead to the pipe that is closed. -/
theorem systemClose_watertight {J : Kernel → Prop} (inv : Watertight k) (fd : Word)
    (single : ∀ t, k.currentTask = some t → k.isFilePipe t fd = .next true → fd = 0 ∨
      (k.task t).writeRedirectionFd ≠ fd ∨ (k.task t).readRedirectionFd ≠ fd) :
    (k.systemClose fd).All Watertight J := by
  rcases inv with ⟨pipes, lists, redirected⟩
  apply Flow.All.bind (P := fun t => k.currentTask = some t) (.ofOption fun _ found => found)
  intro task running
  cases asked : k.isFilePipe task fd with
  | stuck => trivial
  | left state => exact ((isFilePipe_asks k task fd).of_left asked).elim
  | next pipe =>
      cases pipe with
      | false =>
          exact (fclose_drains fd).imp fun _ drained =>
            Watertight.drained ⟨pipes, lists, redirected⟩ drained
      | true =>
          have single := single task running asked
          apply Flow.All.bind ((lists.remove task fd).mono (fun _ removed => removed)
            fun _ => False.elim)
          rintro k₁ ⟨nodes, lists₁, relisted, _, dropped⟩
          have write := relisted.write task
          have read := relisted.read task
          obtain ⟨s', closed⟩ : ∃ s', s' = closeRedirection fd (k₁.task task) := ⟨_, rfl⟩
          have pipe : s'.pipe = (k₁.task task).pipe := by
            rw [closed]
            unfold closeRedirection
            split
            · rfl
            · split <;> rfl
          have lists₂ : PipeLists (k₁.modTask task (closeRedirection fd))
              (Function.update pipes task nodes) := by
            refine lists₁.congr (fun t => ?_) (fun _ _ => rfl) fun _ => id
            apply k₁.modTask_task_field TaskStruct.pipe task t
            rw [← closed]
            exact pipe
          -- a pipe with another descriptor is still in the list
          have backed : ∀ {other}, Backed k (pipes task) other → other ≠ fd →
              Backed k₁ nodes other := by
            intro other backed different
            apply backed.mono
            intro p inside named
            refine ⟨p, dropped.keeps inside fun same => different (named.symm.trans same), ?_⟩
            exact (relisted.fd p (lists.structs task p inside)).trans named
          refine ⟨_, lists₂, fun t => ?_⟩
          by_cases own : t = task
          · subst own
            rw [Function.update_self]
            suffices both : Backed k₁ nodes s'.writeRedirectionFd ∧
                Backed k₁ nodes s'.readRedirectionFd by
              constructor
              · rw [k₁.modTask_task_self, ← closed]
                exact both.1
              · rw [k₁.modTask_task_self, ← closed]
                exact both.2
            have before := redirected t
            rw [closed]
            unfold closeRedirection
            split
            · rename_i same
              refine ⟨.inl rfl, ?_⟩
              show Backed k₁ nodes (k₁.task t).readRedirectionFd
              rw [read]
              rw [write] at same
              rcases single with zero | other | other
              · by_cases equal : (k.task t).readRedirectionFd = fd
                · exact .inl (equal.trans zero)
                · exact backed before.read equal
              · exact absurd same other
              · exact backed before.read other
            · rename_i other
              rw [write] at other
              split
              · refine ⟨?_, .inl rfl⟩
                show Backed k₁ nodes (k₁.task t).writeRedirectionFd
                rw [write]
                exact backed before.write other
              · rename_i other'
                rw [read] at other'
                refine ⟨?_, ?_⟩
                · rw [write]
                  exact backed before.write other
                · rw [read]
                  exact backed before.read other'
          · rw [Function.update_of_ne own]
            have here : Redirected k₁ (pipes t) t :=
              (redirected t).relisted relisted (lists.structs t) fun _ => id
            have same : (k₁.modTask task (closeRedirection fd)).task t = k₁.task t :=
              k₁.modTask_task_of_ne own _
            constructor
            · rw [same]
              exact here.write
            · rw [same]
              exact here.read

omit answers in
/-- A redirection to an own pipe. -/
theorem systemDup2_watertight {J : Kernel → Prop} (inv : Watertight k) (dstfd srcfd : Word)
    (own : srcfd = 1 ∨ srcfd = 0 → dstfd = 0 ∨
      ∀ t, k.currentTask = some t → k.isFilePipe t dstfd = .next true) :
    (k.systemDup2 dstfd srcfd).All Watertight J := by
  rcases inv with ⟨pipes, lists, redirected⟩
  apply Flow.All.bind (P := fun t => k.currentTask = some t) (.ofOption fun _ found => found)
  intro task running
  have backed : srcfd = 1 ∨ srcfd = 0 → Backed k (pipes task) dstfd := by
    intro standard
    rcases own standard with off | named
    · exact .inl off
    · have found := named task running
      rw [lists.isFilePipe_eq] at found
      injection found with found
      exact .inr (of_decide_eq_true found)
  have changed : ∀ change : TaskStruct → TaskStruct, (∀ s, (change s).pipe = s.pipe) →
      Backed k (pipes task) (change (k.task task)).writeRedirectionFd →
      Backed k (pipes task) (change (k.task task)).readRedirectionFd →
      Watertight (k.modTask task change) := by
    intro change pipe write read
    refine ⟨pipes, lists.congr (fun t => k.modTask_task_field TaskStruct.pipe task t (pipe _))
      (fun _ _ => rfl) fun _ => id, fun t => ?_⟩
    by_cases here : t = task
    · subst here
      constructor
      · rw [k.modTask_task_self]
        exact write
      · rw [k.modTask_task_self]
        exact read
    · have same := k.modTask_task_of_ne here change
      constructor
      · rw [same]
        exact (redirected t).write
      · rw [same]
        exact (redirected t).read
  split
  · rename_i stdout
    exact changed _ (fun _ => rfl) (backed (.inl stdout)) (redirected task).read
  · split
    · rename_i stdin
      exact changed _ (fun _ => rfl) (redirected task).write (backed (.inr stdin))
    · exact ⟨pipes, lists, redirected⟩

end Kernel

/-! ## Standard output -/

namespace Kernel

variable {act : Kernel → Word → Flow Kernel Kernel} {head : Option Word} {nodes : List Word}
  {rounds : Nat} {p : Word}

/-- What an action on a pipe leaves of the files. -/
structure ActsOn (k k' : Kernel) (p : Word) : Prop where
  file : ∀ q, q ≠ p → k'.file q = k.file q
  fd : (k'.file p).fd = (k.file p).fd
  next : k'.nextFile p = k.nextFile p

theorem ActsOn.nextFile (acts : ActsOn k k' p) (q : Word) : k'.nextFile q = k.nextFile q := by
  by_cases here : q = p
  · rw [here]
    exact acts.next
  · unfold Kernel.nextFile
    rw [acts.file q here]

section

variable (acts : ∀ {k k' p}, act k p = .next k' → ActsOn k k' p)

include acts

/-- What one round of the loop does. -/
theorem eachPipe_round {head : Word}
    (called : k.eachPipe act fd (some head) (rounds + 1) = .next k') :
    ∃ mid, ActsOn k mid head ∧ ((k.file head).fd = fd → act k head = .next mid) ∧
      mid.eachPipe act fd (k.nextFile head) rounds = .next k' := by
  rcases Flow.bind_eq_next called with ⟨mid, acted, rest⟩
  split at acted
  · have did := acts acted
    rw [did.next] at rest
    exact ⟨mid, did, fun _ => acted, rest⟩
  · rename_i other
    cases acted
    exact ⟨k, ⟨fun _ _ => rfl, rfl, rfl⟩, fun named => absurd named other, rest⟩

/-- The loop leaves files that are not listed alone. -/
theorem eachPipe_others (linked : Chain.Linked k.nextFile head nodes) (outside : p ∉ nodes)
    (called : k.eachPipe act fd head rounds = .next k') : k'.file p = k.file p := by
  induction nodes generalizing k head rounds with
  | nil =>
      cases linked
      cases rounds with
      | zero => cases called
      | succ rounds =>
          cases called
          rfl
  | cons q nodes ih =>
      rcases linked with ⟨rfl, linked⟩
      cases rounds with
      | zero => cases called
      | succ rounds =>
          rcases eachPipe_round acts called with ⟨mid, did, _, rest⟩
          rw [List.mem_cons, not_or] at outside
          rw [← did.file p outside.1]
          exact ih (linked.congr fun q _ => did.nextFile q) outside.2 rest

/-- The loop acts on the first pipe that has the descriptor. -/
theorem eachPipe_first (linked : Chain.Linked k.nextFile head nodes)
    (named : ∃ p ∈ nodes, (k.file p).fd = fd)
    (called : k.eachPipe act fd head rounds = .next k') :
    ∃ p ∈ nodes, (k.file p).fd = fd ∧
      ∃ mid, act k p = .next mid ∧ k'.file p = mid.file p := by
  have once := linked.nodup
  induction nodes generalizing head rounds with
  | nil =>
      rcases named with ⟨p, inside, _⟩
      cases inside
  | cons q nodes ih =>
      rcases linked with ⟨rfl, linked⟩
      rw [List.nodup_cons] at once
      cases rounds with
      | zero => cases called
      | succ rounds =>
          by_cases here : (k.file q).fd = fd
          · rcases eachPipe_round acts called with ⟨mid, did, acted, rest⟩
            have linked' := linked.congr fun q _ => did.nextFile q
            exact ⟨q, List.mem_cons_self, here, mid, acted here,
              eachPipe_others acts linked' once.1 rest⟩
          · unfold eachPipe at called
            dsimp only at called
            rw [if_neg here, Flow.next_bind] at called
            rcases named with ⟨p, inside, named⟩
            have later : p ∈ nodes := (List.mem_cons.mp inside).resolve_left fun same =>
              here (same ▸ named)
            rcases ih linked ⟨p, later, named⟩ called once.2 with ⟨p, inside, found⟩
            exact ⟨p, List.mem_cons_of_mem _ inside, found⟩

end

variable {frames : Kernel → Word → Regs} {depth : Nat} {buf : Word} {nbytes : BitVec 32}

/-- A write to the pipes of a task with a descriptor copies the bytes behind those that were
written to a pipe of the task, and counts them there. -/
structure ReachesPipe (fault : Fault) (k : Kernel) (task fd buf : Word) (nbytes : BitVec 32)
    (p : Word) : Prop where
  listed : Chain.Member k.nextFile (k.task task).pipe p
  named : (k.file p).fd = fd
  copied : ∃ k' : Kernel, k.memcpy fault ((k.file p).addr + (k.file p).offset) buf
    (ofInt nbytes).toNat = .next k'
  counted : ∃ k' : Kernel, k.writeToPipe fault task fd buf nbytes = .next k' ∧
    (k'.file p).offset = (k.file p).offset + ofInt nbytes

theorem writeToPipe_reaches (linked : Chain.Linked k.nextFile (k.task task).pipe nodes)
    (named : ∃ p ∈ nodes, (k.file p).fd = fd)
    (called : k.writeToPipe (kernelFault frames depth) task fd buf nbytes = .next k') :
    ∃ p, ReachesPipe (kernelFault frames depth) k task fd buf nbytes p := by
  have copies : ∀ {k k' : Kernel} {s1 s2 : Word} {n : Nat},
      k.memcpy (kernelFault frames depth) s1 s2 n = .next k' → k'.file = k.file := by
    intro k k' s1 s2 n copied
    have touches := memcpy_touches (kernelFault_touched frames depth).touched (k := k) trivial s1 s2 n
    have touched : Touched k k' := touches.of_next copied
    rw [touched.same]
  have written : ∀ {k : Kernel} {p}, (k.modFile p fun s =>
      { s with offset := s.offset + ofInt nbytes }).file p =
      { k.file p with offset := (k.file p).offset + ofInt nbytes } := Function.update_self ..
  have acts : ∀ {k k' : Kernel} {p}, (do
      let k₁ ← k.memcpy (kernelFault frames depth) ((k.file p).addr + (k.file p).offset) buf
        (ofInt nbytes).toNat
      return k₁.modFile p fun s => { s with offset := s.offset + ofInt nbytes }) = .next k' →
      ActsOn k k' p := by
    intro k k' p acted
    rcases Flow.bind_eq_next acted with ⟨k₁, copied, moved⟩
    cases moved
    have kept := copies copied
    refine ⟨fun q other => ?_, ?_, ?_⟩
    · rw [← kept]
      exact Function.update_of_ne other ..
    · rw [written, ← kept]
    · unfold nextFile
      rw [written, ← kept]
  rcases eachPipe_first acts linked named called with ⟨p, inside, here, mid, acted, last⟩
  rcases Flow.bind_eq_next acted with ⟨k₁, copied, moved⟩
  cases moved
  refine ⟨p, linked.member_iff.mpr inside, here, ⟨k₁, copied⟩, ⟨k', called, ?_⟩⟩
  rw [last, written, copies copied]

/-- What is written to the standard output goes to the console or to a pipe of the task. -/
theorem systemWrite_stdout (watertight : Watertight k) (running : k.currentTask = some task)
    {count ret : Word}
    (called : k.systemWrite (kernelFault frames depth) 1 buf count = .next (k', ret)) :
    k.puts (kernelFault frames depth) buf = .next k' ∨
      ∃ fd p, ReachesPipe (kernelFault frames depth) k task fd buf (toInt count) p := by
  rcases watertight with ⟨pipes, lists, redirected⟩
  have linked := lists.linked task
  unfold systemWrite at called
  rw [running, Flow.ofOption_some, Flow.next_bind, lists.isFilePipe_eq, Flow.next_bind] at called
  split at called
  · rename_i own
    rcases Flow.bind_eq_next called with ⟨k₁, wrote, _⟩
    exact .inr ⟨1, writeToPipe_reaches linked (of_decide_eq_true own) wrote⟩
  · rw [if_pos rfl] at called
    split at called
    · rename_i redirection
      have backed := (redirected task).write.resolve_left redirection
      rcases Flow.bind_eq_next called with ⟨k₁, wrote, _⟩
      exact .inr ⟨_, writeToPipe_reaches linked backed wrote⟩
    · rcases Flow.bind_eq_next called with ⟨k₁, put, last⟩
      cases last
      exact .inl put

end Kernel

/-! ## Runs -/

/-- A system call about pipes, redirections or processes. -/
def PipeCall (r : Regs) : Prop :=
  r.rax = 22 ∨ r.rax = 33 ∨ r.rax = 57 ∨ r.rax = 59 ∨ r.rax = 3

instance (r : Regs) : Decidable (PipeCall r) := by
  unfold PipeCall
  infer_instance

/-- The caller redirects to nothing or to a pipe of its own, and closes no pipe that both
its output and its input are redirected to. -/
structure CarefulCall (k : Kernel) (r : Regs) : Prop where
  dup2 : r.rax = 33 → r.rcx = 1 ∨ r.rcx = 0 → r.rbx = 0 ∨
    ∀ t, k.currentTask = some t → k.isFilePipe t r.rbx = .next true
  close : r.rax = 3 → ∀ t, k.currentTask = some t → k.isFilePipe t r.rbx = .next true →
    r.rbx = 0 ∨ (k.task t).writeRedirectionFd ≠ r.rbx ∨ (k.task t).readRedirectionFd ≠ r.rbx

/-- The states of the runs from a kernel without pipes whose system calls are about pipes,
redirections or processes and meet a condition. -/
inductive PipeRun (frames : Kernel → Word → Regs) (depth : Nat) (meets : Kernel → Regs → Prop) :
    Kernel → Prop
  | boot {k : Kernel} {tasks : List Word} (booted : Booted k tasks)
      (dry : ∀ t, (k.task t).plumbing = .dry) : PipeRun frames depth meets k
  | step {k k' : Kernel} {interrupt : Interrupt} (before : PipeRun frames depth meets k)
      (stepped : Step frames depth k interrupt k')
      (met : ∀ r, interrupt = .syscall r → PipeCall r ∧ meets k r) : PipeRun frames depth meets k'

variable {frames : Kernel → Word → Regs} {depth : Nat}

theorem watertight_dry (dry : ∀ t, (k.task t).plumbing = .dry) : Watertight k := by
  refine ⟨fun _ => [], ⟨?_, fun _ _ => nofun, fun _ _ _ => nofun⟩, fun t => redirected_dry (dry t)⟩
  intro t
  exact congrArg Plumbing.pipe (dry t)

/-- The calls about pipes, redirections and processes keep a predicate. -/
structure CallsKeep (fault : Fault) (Inv : Kernel → Prop) (k : Kernel) (r : Regs) : Prop where
  pipe : r.rax = 22 → (k.systemPipe fault r.rbx).All Inv Inv
  dup2 : r.rax = 33 → (k.systemDup2 r.rbx r.rcx).All Inv Inv
  fork : r.rax = 57 → (k.systemFork fault).All (fun result => Inv result.1) Inv
  execve : r.rax = 59 → (k.systemExecve fault r.rbx r.rcx r.rdx).All Inv Inv
  close : r.rax = 3 → (k.systemClose r.rbx).All Inv Inv

namespace CallsKeep

variable {Inv : Kernel → Prop} {fault : Fault} {r : Regs}

theorem switchHandler (keep : CallsKeep fault Inv k r) (call : PipeCall r) :
    (k.switchHandler fault r.rax r.rbx r.rcx r.rdx).All (fun result => Inv result.1) Inv := by
  have done : ∀ flow : Flow Kernel Kernel, flow.All Inv Inv →
      (flow >>= fun k => (.next (k, 0) : Flow Kernel (Kernel × Word))).All
        (fun result => Inv result.1) Inv := fun flow all =>
    Flow.All.bind all fun _ inv => inv
  unfold Kernel.switchHandler
  rcases call with pipe | dup2 | fork | execve | close
  · rw [pipe]
    exact done _ (keep.pipe pipe)
  · rw [dup2]
    exact done _ (keep.dup2 dup2)
  · rw [fork]
    exact keep.fork fork
  · rw [execve]
    exact done _ (keep.execve execve)
  · rw [close]
    exact done _ (keep.close close)

theorem syscallHandler (keep : CallsKeep fault Inv (k.saveFrame r) r) (call : PipeCall r)
    (stable : ∀ {k k' : Kernel}, Inv k → Steady k k' → Inv k') :
    (k.syscallHandler fault r).All (fun result => Inv result.1) Inv := by
  apply Flow.All.bind (P := fun t => k.currentTask = some t) (.ofOption fun _ found => found)
  intro task running
  dsimp only
  rw [k.saveFrame_r_self r running]
  apply Flow.All.bind (keep.switchHandler call)
  rintro ⟨k₁, ret⟩ inv₁
  have answered : Steady k₁ (k₁.modTask task fun s => { s with r := { s.r with rax := ret } }) :=
    .modTask k₁ task rfl
  exact stable inv₁ answered

end CallsKeep

/-- What the calls keep and steady changes, new tasks and the ends of tasks keep, every step of
a run keeps. -/
theorem Step.keepsPipes {Inv : Kernel → Prop} {interrupt : Interrupt}
    (stepped : Step frames depth k interrupt k') (inv : Inv k)
    (answers : (Kernel.kernelFault frames depth).Heeds Steady Inv Inv)
    (begins : ∀ {k k' : Kernel} {t : Word}, Inv k → Begun k k' t → Inv k')
    (exits : (Kernel.kernelFault frames depth).Exits Inv Inv)
    (calls : ∀ r, interrupt = .syscall r →
      PipeCall r ∧ CallsKeep (Kernel.kernelFault frames depth) Inv (k.saveFrame r) r) : Inv k' := by
  have done : ∀ {α : Type} [HasState α] {flow : Flow Kernel α}, Steadies Inv k flow →
      Ends flow k' → Inv k' := fun steadies ends =>
    (Flow.All.ends (steadies.imp fun _ steady => answers.stable inv steady) ends).elim id id
  cases stepped with
  | timer handled => exact done (Kernel.timerHandler_steadies _) handled
  | syscall running user handled =>
      rename_i r t
      rcases calls r rfl with ⟨call, keep⟩
      exact (Flow.All.ends (keep.syscallHandler call answers.stable) handled).elim id id
  | pageFault running user handled =>
      rename_i vaddr r t
      have saved := Kernel.saveFrame_steady k r
      exact done (Steadies.after saved (.of_spaces (Kernel.pageFaultHandler_spaces exits
        answers.steady (answers.stable inv saved) vaddr))) handled
  | key handled => exact done (Kernel.kbHandler_steadies answers inv _) handled
  | store running mapped => exact answers.stable inv (.same rfl rfl rfl rfl)
  | create idle handled =>
      refine (Flow.All.ends ((Kernel.readElf_begins answers begins inv _ _ _).imp ?_)
        handled).elim id id
      rintro ⟨k₃, task⟩ ⟨k₁, k₂, spaced, _, begun, loaded, _⟩
      exact answers.stable (begins (answers.stable inv spaced.steady) begun) loaded

theorem CarefulCall.saved {r : Regs} (careful : CarefulCall k r) :
    CarefulCall (k.saveFrame r) r := by
  have same := k.saveFrame_currentTask r
  have plumbing := (Kernel.saveFrame_steady k r).task
  constructor
  · intro call standard
    rcases careful.dup2 call standard with off | own
    · exact .inl off
    · refine .inr fun t current => ?_
      rw [Kernel.saveFrame_isFilePipe]
      exact own t (same.symm.trans current)
  · intro call t current named
    rw [Kernel.saveFrame_isFilePipe] at named
    rw [show ((k.saveFrame r).task t).writeRedirectionFd = _ from
      congrArg Plumbing.writeRedirectionFd (plumbing t),
      show ((k.saveFrame r).task t).readRedirectionFd = _ from
      congrArg Plumbing.readRedirectionFd (plumbing t)]
    exact careful.close call t (same.symm.trans current) named

/-- Every step of a run keeps the redirections at pipes of the task. -/
theorem Step.watertight {interrupt : Interrupt} (stepped : Step frames depth k interrupt k')
    (inv : Watertight k)
    (met : ∀ r, interrupt = .syscall r → PipeCall r ∧ CarefulCall k r) : Watertight k' := by
  have answers := kernelFault_drained Watertight.drained frames depth
  have exits : (Kernel.kernelFault frames depth).Exits Watertight Watertight :=
    fun inv => Kernel.systemExit_drains answers inv id
  refine stepped.keepsPipes inv answers.steadies (fun inv begun => inv.drained begun.drained) exits
    fun r same => ?_
  rcases met r same with ⟨call, careful⟩
  have saved := inv.drained (Kernel.saveFrame_drained k r)
  exact ⟨call, fun _ => Kernel.systemPipe_watertight answers saved _,
    fun dup2 => Kernel.systemDup2_watertight saved _ _ (careful.saved.dup2 dup2),
    fun _ => Kernel.systemFork_watertight answers saved,
    fun _ => Kernel.systemExecve_watertight answers saved _ _ _,
    fun close => Kernel.systemClose_watertight saved _ (careful.saved.close close)⟩

/-- The redirections stay at pipes of the task in every run of careful tasks. -/
theorem PipeRun.watertight (run : PipeRun frames depth CarefulCall k) : Watertight k := by
  induction run with
  | boot booted dry => exact watertight_dry dry
  | step before stepped met ih => exact stepped.watertight ih met

/-- A descriptor is 0 or that of a pipe of a task. -/
def LeadsToPipe (k : Kernel) (task fd : Word) : Prop :=
  fd = 0 ∨ ∃ p, Chain.Member k.nextFile (k.task task).pipe p ∧ (k.file p).fd = fd

theorem Backed.leads {nodes : List Word} (backed : Backed k nodes fd)
    (linked : Chain.Linked k.nextFile (k.task task).pipe nodes) : LeadsToPipe k task fd := by
  rcases backed with off | ⟨p, inside, named⟩
  · exact .inl off
  · exact .inr ⟨p, linked.member_iff.mpr inside, named⟩

theorem run_firstRuns {meets : Kernel → Regs → Prop} : PipeRun noFrames 0 meets firstRuns := by
  refine .step (.boot booted_twoProcesses fun t => ?_)
    (ticked_step (show Flow.checks _ (fun _ => true) = true by decide)).1 nofun
  show (if t = 0x1000 then _ else _ : TaskStruct).plumbing = .dry
  split <;> rfl

set_option maxRecDepth 8000 in
theorem piped_checks : Flow.checks (calling firstRuns 22 0x8000 0) (fun k =>
    k.currentTask = some 0x1000 && (k.isFilePipe 0x1000 3).returns (fun own => own) &&
      Flow.checks (calling k 33 3 1) fun k => (k.task 0x1000).writeRedirectionFd = 3) = true := by
  decide_cbv

theorem misdirected_checks : Flow.checks (calling firstRuns 33 99 1) (fun k =>
    (k.task 0x1000).writeRedirectionFd = 99 && (k.task 0x1000).pipe = none) = true := by
  decide

end Sbrocks.Process
