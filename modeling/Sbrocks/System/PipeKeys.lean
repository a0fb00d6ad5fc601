import Sbrocks.Process.TaskStructs
import Sbrocks.System.Redirections

/-!
# Pipes and their descriptors

The descriptors of the pipes of a task are different and below the next one that is given
out, as long as the counter does not overflow.  A child and a program that is executed get
copies of the pipes, and a close takes out just the pipe that it names.
-/

namespace Sbrocks.Process

open Sbrocks.Mmu

variable {k k' k'' : Kernel} {pipes : Word → List Word} {t task parent child fd : Word}
  {nodes nodes' : List Word} {bound : Nat}

/-- The descriptors of pipes are different and below a bound. -/
structure DistinctFds (k : Kernel) (bound : Nat) (nodes : List Word) : Prop where
  once : (nodes.map fun p => (k.file p).fd).Nodup
  below : ∀ p ∈ nodes, (k.file p).fd.toNat < bound

namespace DistinctFds

theorem nil : DistinctFds k bound [] :=
  ⟨List.nodup_nil, nofun⟩

/-- What is known of the descriptors is enough. -/
theorem of_map (distinct : DistinctFds k bound nodes)
    (same : (nodes'.map fun p => (k'.file p).fd) = nodes.map fun p => (k.file p).fd) :
    DistinctFds k' bound nodes' := by
  refine ⟨same ▸ distinct.once, ?_⟩
  intro p inside
  have listed : (k'.file p).fd ∈ nodes.map fun p => (k.file p).fd := by
    rw [← same]
    exact List.mem_map_of_mem inside
  rcases List.mem_map.mp listed with ⟨q, member, named⟩
  rw [← named]
  exact distinct.below q member

theorem kept (distinct : DistinctFds k bound nodes)
    (same : ∀ p ∈ nodes, (k'.file p).fd = (k.file p).fd) : DistinctFds k' bound nodes :=
  distinct.of_map (List.map_congr_left same)

/-- Some of the pipes. -/
theorem sublist (distinct : DistinctFds k bound nodes) (some : nodes'.Sublist nodes) :
    DistinctFds k bound nodes' :=
  ⟨distinct.once.sublist (some.map _), fun p inside => distinct.below p (some.subset inside)⟩

/-- A new pipe with the next descriptor. -/
theorem push (distinct : DistinctFds k bound nodes) {p : Word} (next : (k.file p).fd.toNat = bound) :
    DistinctFds k (bound + 1) (nodes ++ [p]) := by
  constructor
  · rw [List.map_append, List.nodup_append]
    refine ⟨distinct.once, List.nodup_singleton _, ?_⟩
    intro old listed new inside same
    rcases List.mem_map.mp listed with ⟨q, member, rfl⟩
    have below := distinct.below q member
    rw [same, List.mem_singleton.mp inside, next] at below
    omega
  · intro q inside
    rcases List.mem_append.mp inside with old | new
    · have below := distinct.below q old
      omega
    · rw [List.mem_singleton.mp new]
      omega

theorem mono {bound' : Nat} (distinct : DistinctFds k bound nodes) (more : bound ≤ bound') :
    DistinctFds k bound' nodes :=
  ⟨distinct.once, fun p inside => Nat.lt_of_lt_of_le (distinct.below p inside) more⟩

end DistinctFds

/-- With different descriptors just one pipe is dropped. -/
theorem Dropped.eq_filter (dropped : Dropped k fd nodes nodes')
    (once : (nodes.map fun p => (k.file p).fd).Nodup) :
    nodes' = nodes.filter fun p => (k.file p).fd ≠ fd := by
  rcases dropped with ⟨rfl, others⟩ | ⟨front, p, back, rfl, named, rfl⟩
  · symm
    rw [List.filter_eq_self]
    intro p inside
    exact decide_eq_true (others p inside)
  · rw [List.map_append, List.map_cons, named, List.nodup_append] at once
    rcases once with ⟨_, once, apart⟩
    have early : ∀ q ∈ front, (k.file q).fd ≠ fd := fun q inside =>
      apart _ (List.mem_map_of_mem inside) fd List.mem_cons_self
    have late : ∀ q ∈ back, (k.file q).fd ≠ fd := by
      intro q inside same
      exact (List.nodup_cons.mp once).1 (same ▸ List.mem_map_of_mem inside)
    have first : front.filter (fun p => (k.file p).fd ≠ fd) = front :=
      List.filter_eq_self.mpr fun q inside => decide_eq_true (early q inside)
    have last : back.filter (fun p => (k.file p).fd ≠ fd) = back :=
      List.filter_eq_self.mpr fun q inside => decide_eq_true (late q inside)
    rw [List.filter_append, first, List.filter_cons_of_neg (by simp [named]), last]

/-! ## The lists of all tasks -/

/-- The pipes of each task have different descriptors below a bound. -/
def KeyedBelow (bound : Nat) (k : Kernel) : Prop :=
  ∃ pipes, PipeLists k pipes ∧ ∀ t, DistinctFds k bound (pipes t)

/-- The pipes of each task have different descriptors that were given out. -/
def Keyed (k : Kernel) : Prop :=
  KeyedBelow k.fdCount.toNat k

theorem KeyedBelow.drained (keyed : KeyedBelow bound k) (drained : Drained k k') :
    KeyedBelow bound k' := by
  rcases keyed with ⟨pipes, lists, distinct⟩
  rcases lists.drained drained with ⟨pipes', lists', each⟩
  refine ⟨pipes', lists', fun t => ?_⟩
  rcases each t with ⟨_, same⟩ | ⟨_, none⟩
  · rw [same]
    exact (distinct t).kept fun p _ => drained.fd p
  · rw [none]
    exact .nil

namespace Keyed

theorem drained (keyed : Keyed k) (drained : Drained k k') (count : k'.fdCount = k.fdCount) :
    Keyed k' := by
  unfold Keyed
  rw [count]
  exact KeyedBelow.drained keyed drained

theorem steady (keyed : Keyed k) (steady : Steady k k') : Keyed k' :=
  keyed.drained steady.drained steady.fdCount

theorem begun (keyed : Keyed k) (begun : Begun k k' t) : Keyed k' :=
  keyed.drained begun.drained begun.fdCount

theorem inherits (keyed : Keyed k) (inherits : Inherits parent child k k') : Keyed k' := by
  rcases keyed with ⟨pipes, lists, distinct⟩
  have next : k'.nextFile = k.nextFile := by
    funext p
    unfold Kernel.nextFile
    rw [inherits.file]
  refine ⟨pipes, lists.congr inherits.pipe (fun p _ => by rw [next])
    fun p known => inherits.fileStructs ▸ known, fun t => ?_⟩
  rw [inherits.fdCount]
  exact (distinct t).kept fun p _ => by rw [inherits.file]

end Keyed

variable {frames : Kernel → Word → Regs} {depth : Nat}

/-- The end of a task keeps the descriptors of the others. -/
theorem kernelFault_exits_keyed (frames : Kernel → Word → Regs) (depth : Nat) :
    (Kernel.kernelFault frames depth).Exits Keyed Keyed := by
  intro α P k keyed
  have drains := Kernel.systemExit_drains (P := P) (kernelFault_drained
    (I := KeyedBelow k.fdCount.toNat) KeyedBelow.drained frames depth) keyed id
  have keeps := Kernel.systemExit_keeps (P := P) (kernelFault_keeps frames depth k.devices)
    (k := k) rfl
  apply (drains.and keeps).mono (fun _ both => both.1)
  rintro k' ⟨below, kept⟩
  have count : k'.fdCount = k.fdCount := congrArg Devices.fdCount kept
  unfold Keyed
  rw [count]
  exact below

theorem kernelFault_keyed (frames : Kernel → Word → Regs) (depth : Nat) :
    (Kernel.kernelFault frames depth).Heeds Steady Keyed Keyed :=
  ⟨Keyed.steady, (kernelFault_heeds (fun keyed touched => keyed.steady touched.spaced.steady) frames
    (fun depth _ => kernelFault_exits_keyed frames depth) depth).handles⟩

/-! ## Pipes -/

/-- A counter that does not overflow. -/
theorem next_fd (count : BitVec 32) (few : count.toNat + 1 < 2 ^ 31) :
    (ofInt count).toNat = count.toNat ∧ (toInt (ofInt count + 1)).toNat = count.toNat + 1 := by
  have same : ofInt count = BitVec.ofNat 64 count.toNat := by
    have value := ofInt_ofNat (n := count.toNat) (by omega)
    rwa [BitVec.ofNat_toNat, BitVec.setWidth_eq] at value
  have value : (ofInt count).toNat = count.toNat := by
    rw [same, BitVec.toNat_ofNat]
    exact Nat.mod_eq_of_lt (by omega)
  refine ⟨value, ?_⟩
  unfold toInt
  rw [BitVec.toNat_setWidth, BitVec.toNat_add, value]
  show (count.toNat + 1) % 2 ^ 64 % 2 ^ 32 = _
  omega

/-- The descriptors of two new pipes. -/
theorem next_fds {p1 p2 : Word} (few : k.fdCount.toNat + 2 < 2 ^ 31)
    (first : (k'.file p1).fd = ofInt k.fdCount)
    (second : (k'.file p2).fd = ofInt (toInt (ofInt k.fdCount + 1))) :
    (k'.file p1).fd.toNat = k.fdCount.toNat ∧ (k'.file p2).fd.toNat = k.fdCount.toNat + 1 := by
  rcases next_fd k.fdCount (by omega) with ⟨fd₁, count₁⟩
  rcases next_fd (toInt (ofInt k.fdCount + 1)) (by omega) with ⟨fd₂, _⟩
  exact ⟨by rw [first, fd₁], by rw [second, fd₂, count₁]⟩

/-- Two new pipes with the next descriptors leave those of each task different. -/
theorem keyed_added (lists : PipeLists k pipes)
    (distinct : ∀ t, DistinctFds k k.fdCount.toNat (pipes t))
    (few : k.fdCount.toNat + 2 < 2 ^ 31) {p1 p2 : Word}
    (lists' : PipeLists k' (Function.update pipes task (pipes task ++ [p1, p2])))
    (relisted : Relisted k k') (first : (k'.file p1).fd = ofInt k.fdCount)
    (second : (k'.file p2).fd = ofInt (toInt (ofInt k.fdCount + 1)))
    (count : k'.fdCount = toInt (ofInt (toInt (ofInt k.fdCount + 1)) + 1)) : Keyed k' := by
  rcases next_fds few first second with ⟨fd₁, fd₂⟩
  have total : k'.fdCount.toNat = k.fdCount.toNat + 2 := by
    rw [count, (next_fd (toInt (ofInt k.fdCount + 1)) ?_).2, (next_fd k.fdCount (by omega)).2]
    rw [(next_fd k.fdCount (by omega)).2]
    omega
  have old : ∀ t, DistinctFds k' k.fdCount.toNat (pipes t) := fun t =>
    (distinct t).kept fun p inside => relisted.fd p (lists.structs t p inside)
  refine ⟨_, lists', fun t => ?_⟩
  rw [total]
  by_cases own : t = task
  · rw [own, Function.update_self]
    have two := ((old task).push fd₁).push fd₂
    rw [List.append_assoc] at two
    exact two
  · rw [Function.update_of_ne own]
    exact (old t).mono (by omega)

/-- Storing the descriptors touches no pipes. -/
theorem storeFds_keyed (keyed : Keyed k) (fds p1 p2 : Word) :
    (do let k' ← k.storeBytes (Kernel.kernelFault frames depth) fds
          (Kernel.leBytes (k.file p1).fd 4)
        k'.storeBytes (Kernel.kernelFault frames depth) (fds + 4)
          (Kernel.leBytes (k'.file p2).fd 4)).All (fun k' => Keyed k' ∧ Steady k k') Keyed := by
  have spaces := (kernelFault_keyed frames depth).steady.touched
  apply Flow.All.bind (P := fun k' => Keyed k' ∧ Steady k k')
    ((Kernel.storeBytes_touches spaces keyed _ _).imp fun _ touched =>
      ⟨keyed.steady touched.spaced.steady, touched.spaced.steady⟩)
  rintro k' ⟨keyed', steady⟩
  exact (Kernel.storeBytes_touches spaces keyed' _ _).imp fun _ touched =>
    ⟨keyed'.steady touched.spaced.steady, steady.trans touched.spaced.steady⟩

theorem systemPipe_keyed (keyed : Keyed k) (few : k.fdCount.toNat + 2 < 2 ^ 31) (fds : Word) :
    (k.systemPipe (Kernel.kernelFault frames depth) fds).All Keyed Keyed := by
  rcases keyed with ⟨pipes, lists, distinct⟩
  cases running : k.currentTask with
  | none =>
      unfold Kernel.systemPipe
      rw [running]
      trivial
  | some task =>
      apply Kernel.systemPipe_adds lists running fds
      intro k' p1 p2 lists' relisted first second count _ _
      have keyed' := keyed_added lists distinct few lists' relisted first second count
      exact (storeFds_keyed keyed' fds p1 p2).imp fun _ stored => stored.1

theorem systemDup2_keyed {J : Kernel → Prop} (keyed : Keyed k) (dstfd srcfd : Word) :
    (k.systemDup2 dstfd srcfd).All Keyed J := by
  rcases keyed with ⟨pipes, lists, distinct⟩
  have redirected : ∀ (task : Word) (change : TaskStruct → TaskStruct),
      (∀ s, (change s).pipe = s.pipe) → Keyed (k.modTask task change) := by
    intro task change kept
    refine ⟨pipes, lists.congr (fun t => ?_) (fun _ _ => rfl) fun _ => id,
      fun t => (distinct t).kept fun _ _ => rfl⟩
    exact k.modTask_task_field TaskStruct.pipe task t (kept _)
  apply Flow.All.bind (P := fun _ => True) (.ofOption fun _ _ => trivial)
  intro task _
  split
  · exact redirected task _ fun _ => rfl
  · split
    · exact redirected task _ fun _ => rfl
    · exact ⟨pipes, lists, distinct⟩

/-! ## Copies of the pipes -/

/-- A task has copies of the pipes of another, in the same order, in new structures. -/
structure PipesCopied (k k' : Kernel) (parent child : Word) (nodes copied : List Word) : Prop where
  listed : Chain.Linked k.nextFile (k.task parent).pipe nodes
  stays : Chain.Linked k'.nextFile (k'.task parent).pipe nodes
  kept : ∀ p ∈ nodes, k'.pipeEntry p = k.pipeEntry p
  copies : Chain.Linked k'.nextFile (k'.task child).pipe copied
  entries : copied.map k'.pipeEntry = nodes.map k.pipeEntry
  fresh : ∀ q ∈ copied, q ∉ k.fileStructs

namespace PipesCopied

variable {copied : List Word}

/-- What happened before the pipes were copied kept those of the parent. -/
theorem since (copies : PipesCopied k' k'' parent child nodes copied) (file : k'.file = k.file)
    (structs : k'.fileStructs = k.fileStructs)
    (pipe : (k'.task parent).pipe = (k.task parent).pipe) :
    PipesCopied k k'' parent child nodes copied := by
  have next : k'.nextFile = k.nextFile := by
    funext p
    unfold Kernel.nextFile
    rw [file]
  have entry : k'.pipeEntry = k.pipeEntry := by
    funext p
    unfold Kernel.pipeEntry
    rw [file]
  rcases copies with ⟨listed, stays, kept, copies, entries, fresh⟩
  rw [next, pipe] at listed
  rw [entry] at kept entries
  rw [structs] at fresh
  exact ⟨listed, stays, kept, copies, entries, fresh⟩

theorem steady (copies : PipesCopied k k' parent child nodes copied) (steady : Steady k' k'') :
    PipesCopied k k'' parent child nodes copied := by
  have entry : k''.pipeEntry = k'.pipeEntry := by
    funext p
    unfold Kernel.pipeEntry
    rw [steady.file]
  have pipe : ∀ t, (k''.task t).pipe = (k'.task t).pipe := fun t =>
    congrArg Plumbing.pipe (steady.task t)
  rcases copies with ⟨listed, stays, kept, copies, entries, fresh⟩
  rw [← steady.nextFile, ← pipe] at stays copies
  rw [← entry] at kept entries
  exact ⟨listed, stays, kept, copies, entries, fresh⟩

end PipesCopied

/-- The pipes of a task are copied to one without pipes. -/
theorem Keyed.copies {rounds : Nat} (keyed : Keyed k) (dry : (k.task child).pipe = none)
    (copied : k.copyPipes child (k.task parent).pipe rounds = .next k') :
    Keyed k' ∧ (parent ≠ child → ∃ nodes copied, PipesCopied k k' parent child nodes copied) := by
  rcases keyed with ⟨pipes, lists, distinct⟩
  have none := lists.eq_nil dry
  have apart : ∀ p ∈ pipes parent, p ∉ pipes child := by simp [none]
  rcases (lists.copies (lists.linked parent) (lists.structs parent) apart).of_next copied with
    ⟨nodes, lists', relisted, copies⟩
  rw [none, List.nil_append] at lists'
  constructor
  · refine ⟨_, lists', fun t => ?_⟩
    rw [copies.fdCount]
    by_cases own : t = child
    · rw [own, Function.update_self]
      apply (distinct parent).of_map
      have fds := congrArg (List.map Prod.fst) copies.entries
      rw [List.map_map, List.map_map] at fds
      exact fds
    · rw [Function.update_of_ne own]
      exact (distinct t).kept fun p inside => relisted.fd p (lists.structs t p inside)
  · intro other
    have stays := lists'.linked parent
    rw [Function.update_of_ne other] at stays
    have given := lists'.linked child
    rw [Function.update_self] at given
    exact ⟨pipes parent, nodes, lists.linked parent, stays,
      fun p inside => copies.old p (lists.structs parent p inside), given, copies.entries,
      fun q inside => (copies.fresh q inside).1⟩

/-! ## New tasks -/

/-- A task named by the kernel has that name. -/
theorem createNewTask_name {J : Kernel → Prop} (fault : Fault) (k : Kernel) (text : List Byte)
    (ends : ∀ c ∈ text, c ≠ 0) (short : text.length < stringRounds) :
    (k.createNewTask fault (.text text)).All
      (fun result => (result.1.task result.2).name = text) J := by
  apply Flow.All.bind Kernel.getFreeTask_steadies
  rintro ⟨k₁, task⟩ _
  dsimp only
  rw [k₁.chars_text ends 0 stringRounds (Nat.zero_le _) (by omega), Flow.next_bind, List.drop_zero]
  apply Flow.All.bind (P := fun _ => True)
  · split
    · trivial
    · exact Flow.All.imp (Kernel.addToTaskList_steadies task) fun _ _ => trivial
  · intro k₂ _
    apply Flow.All.bind (P := fun _ => True) (.ofOption fun _ _ => trivial)
    rintro ⟨m, pml4e⟩ _
    rw [Flow.pure_eq_next, Flow.all_next]
    dsimp only
    rw [Kernel.modTask_task_self]
    show ((k₂.modTask task (Kernel.freshTask (k₂.pid.setWidth 32) text)).task task).name = text
    rw [Kernel.modTask_task_self]
    rfl

/-- A task that was not in the task list is in it, unless it is named `"idle"`. -/
structure Enters (k k' : Kernel) (child : Word) : Prop where
  before : ¬ Chain.Member k.nextTask k.taskList child
  after : Chain.Member k'.nextTask k'.taskList child ∨ (k'.task child).name = idleName

theorem View.enters {T : Table Word} {fault : Fault} {taskname : CString} (view : View k T)
    (answers : fault.Answers (fun _ => True) fun _ => True)
    (created : k.createNewTask fault taskname = .next (k', child)) : Enters k k' child := by
  rcases (view.createTask answers taskname fun _ _ => trivial).of_next created with
    ⟨rest, mid, listed, -, notLive, -, named, -, view'⟩
  refine ⟨fun member => notLive (view.live.member_iff.mp member), ?_⟩
  cases listed with
  | false => exact .inr (named.mp rfl)
  | true =>
      have live := view'.live
      exact .inl (live.member_iff.mpr (List.mem_append_right T.live List.mem_cons_self))

namespace Enters

theorem since (enters : Enters k' k'' child) (same : SameList k k') : Enters k k'' child :=
  ⟨same.member.not.mp enters.before, enters.after⟩

theorem andSame (enters : Enters k k' child) (same : SameList k' k'') : Enters k k'' child := by
  refine ⟨enters.before, ?_⟩
  rw [same.member, same.name]
  exact enters.after

end Enters

theorem adoptChild_sameList (k : Kernel) (parent child : Word) :
    SameList k (k.adoptChild parent child) := by
  have named : SameList k (k.modTask child fun s => { s with ppid := (k.task parent).pid }) :=
    .modTask k child rfl rfl
  have framed : SameList k ((k.modTask child fun s =>
      { s with ppid := (k.task parent).pid }).modTask child fun s => { s with
        r := { ((k.modTask child fun s => { s with ppid := (k.task parent).pid }).task parent).r with
          rax := 0 } }) :=
    named.andTask child rfl rfl
  exact framed.trans (.same rfl rfl)

theorem linkChild_sameList (k : Kernel) (parent child : Word) :
    SameList k (k.linkChild parent child) := by
  unfold Kernel.linkChild
  dsimp only
  exact ((SameList.modTask k child rfl rfl).andTask parent rfl rfl).andTask child rfl rfl

theorem takeIdentity_sameList (k : Kernel) (currTask task : Word) :
    SameList k (k.takeIdentity currTask task) := by
  unfold Kernel.takeIdentity
  dsimp only
  exact ((SameList.modTask k task rfl rfl).andTask currTask rfl rfl).andTask task rfl rfl

theorem tellParent_sameList (k : Kernel) (parent child : Word) :
    SameList k (k.tellParent parent child) := by
  have answered : SameList k (k.modTask parent fun s => { s with
      r := { s.r with rax := (k.task child).pid.setWidth 64 }, state := .runnable }) :=
    .modTask k parent rfl rfl
  exact answered.trans (.same rfl rfl)

theorem Aged.sameList (aged : Aged k k') : SameList k k' := by
  refine ⟨by rw [aged.same], fun t => ?_, fun t => ?_⟩
  · rcases aged.task t with ⟨state, sleepTime, same⟩
    rw [same]
  · rcases aged.task t with ⟨state, sleepTime, same⟩
    rw [same]

theorem dispatch_sameList (k : Kernel) (task : Word) : SameList k (k.preempt.dispatch task) := by
  have preempted : SameList k k.preempt := by
    unfold Kernel.preempt
    split
    · exact .refl k
    · exact .modTask k _ rfl rfl
  refine preempted.trans ⟨rfl, fun t => ?_, fun t => ?_⟩
  · by_cases here : t = task
    · rw [here, Kernel.dispatch_task_self]
    · rw [Kernel.dispatch_task_of_ne _ here]
  · by_cases here : t = task
    · rw [here, Kernel.dispatch_task_self]
    · rw [Kernel.dispatch_task_of_ne _ here]

/-- Giving up the processor keeps the task list. -/
theorem yield_sameList (k : Kernel) : k.yield.All (SameList k) (SameList k) := by
  have saved : SameList k (k.saveFrame default) := by
    unfold Kernel.saveFrame
    split
    · exact .refl k
    · exact .modTask k _ rfl rfl
  unfold Kernel.yield
  rw [Kernel.timerHandler_eq]
  apply Flow.All.bind (P := fun result => SameList k result.1)
  · apply Flow.All.bind (P := SameList k)
    · apply ((Kernel.countTick_aged (k.saveFrame default)).mono (fun _ aged => aged)
        fun _ => False.elim).bind
      intro k₁ aged
      have until₁ := saved.trans aged.sameList
      apply ((Kernel.scheduleProcess_cases k₁).mono _ fun _ => False.elim)
      rintro k₂ (rfl | ⟨task, _, rfl⟩)
      · exact until₁
      · exact until₁.trans (dispatch_sameList k₁ task)
    · intro k₂ same
      exact same
  · rintro ⟨k₂, r⟩ same
    dsimp only
    split
    · exact same
    · exact same

namespace Kernel.Forked

variable {fault : Fault} {k₁ k₃ k₅ : Kernel}

theorem set (forked : Forked fault k parent child k₁ k₃ k₅ k') : Steady k₁ k₃ :=
  (adoptChild_steady k₁ parent child).trans forked.spaced.steady

theorem told (forked : Forked fault k parent child k₁ k₃ k₅ k') : Steady k₅ k' := by
  have answered := Kernel.tellParent_steady k₅ parent child
  exact (Flow.All.ends ((Kernel.yield_steady (k := k₅.tellParent parent child)).mono
    (fun _ steady => answered.trans steady) fun _ steady => answered.trans steady)
    forked.yielded).elim id id

theorem sameList (forked : Forked fault k parent child k₁ k₃ k₅ k') : SameList k₁ k' := by
  have adopted := adoptChild_sameList k₁ parent child
  have linked := linkChild_sameList k₃ parent child
  have copied := (Kernel.copyPipes_quiet (J := fun _ => True) (k₃.linkChild parent child) child _
    _).of_next forked.copied
  have answered := tellParent_sameList k₅ parent child
  have yielded := (Flow.All.ends (yield_sameList _) forked.yielded).elim id id
  exact (adopted.trans forked.spaced.quiet.sameList).trans
    (linked.trans (copied.sameList.trans (answered.trans yielded)))

/-- Before the pipes are copied the child has none. -/
theorem dry (forked : Forked fault k parent child k₁ k₃ k₅ k') :
    ((k₃.linkChild parent child).task child).pipe = none := by
  rw [(Kernel.linkChild_inherits k₃ parent child).pipe child]
  exact congrArg Plumbing.pipe ((forked.set.task child).trans forked.begun.dry)

theorem keyed_linked (forked : Forked fault k parent child k₁ k₃ k₅ k') (keyed : Keyed k) :
    Keyed (k₃.linkChild parent child) :=
  ((keyed.begun forked.begun).steady forked.set).inherits
    (Kernel.linkChild_inherits k₃ parent child)

/-- A fork keeps the descriptors of each task different, and copies the pipes. -/
theorem keyed (forked : Forked fault k parent child k₁ k₃ k₅ k') (keyed : Keyed k) :
    Keyed k' ∧ (parent ≠ child → ∃ nodes copied, PipesCopied k k' parent child nodes copied) := by
  have links := Kernel.linkChild_inherits k₃ parent child
  rcases (forked.keyed_linked keyed).copies forked.dry forked.copied with ⟨keyed₅, copies⟩
  refine ⟨keyed₅.steady forked.told, fun other => ?_⟩
  rcases copies other with ⟨nodes, copied, copies⟩
  refine ⟨nodes, copied, (copies.since ?_ ?_ ?_).steady forked.told⟩
  · exact links.file.trans (forked.set.file.trans forked.begun.file)
  · exact links.fileStructs.trans (forked.set.fileStructs.trans forked.begun.fileStructs)
  · rw [links.pipe parent]
    exact congrArg Plumbing.pipe
      ((forked.set.task parent).trans (forked.begun.others parent other))

end Kernel.Forked

namespace Kernel.Executed

variable {fault : Fault} {filename : CString} {k₁ k₂ k₃ : Kernel} {currTask : Word}

theorem sameList (executed : Executed fault k currTask task filename k₁ k₂ k₃ k') :
    SameList k₂ k' := by
  have named := takeIdentity_sameList k₃ currTask task
  have copied := (Kernel.copyPipes_quiet (J := fun _ => True) (k₃.takeIdentity currTask task) task _
    _).of_next executed.copied
  exact executed.listed.trans (named.trans copied.sameList)

/-- Before the pipes are copied the new task has none. -/
theorem dry (executed : Executed fault k currTask task filename k₁ k₂ k₃ k') :
    ((k₃.takeIdentity currTask task).task task).pipe = none := by
  rw [(Kernel.takeIdentity_inherits k₃ currTask task).pipe task]
  exact congrArg Plumbing.pipe ((executed.loaded.task task).trans executed.begun.dry)

theorem keyed_taken (executed : Executed fault k currTask task filename k₁ k₂ k₃ k')
    (keyed : Keyed k) : Keyed (k₃.takeIdentity currTask task) :=
  (((keyed.steady executed.spaced.steady).begun executed.begun).steady executed.loaded).inherits
    (Kernel.takeIdentity_inherits k₃ currTask task)

/-- An execve keeps the descriptors of each task different, and copies the pipes. -/
theorem keyed (executed : Executed fault k currTask task filename k₁ k₂ k₃ k') (keyed : Keyed k) :
    Keyed k' ∧ (currTask ≠ task → ∃ nodes copied, PipesCopied k k' currTask task nodes copied) := by
  have takes := Kernel.takeIdentity_inherits k₃ currTask task
  have spaced := executed.spaced.steady
  have begun := executed.begun
  rcases (executed.keyed_taken keyed).copies executed.dry executed.copied with ⟨keyed', copies⟩
  refine ⟨keyed', fun other => ?_⟩
  rcases copies other with ⟨nodes, copied, copies⟩
  refine ⟨nodes, copied, copies.since ?_ ?_ ?_⟩
  · exact takes.file.trans (executed.loaded.file.trans (begun.file.trans spaced.file))
  · exact takes.fileStructs.trans
      (executed.loaded.fileStructs.trans (begun.fileStructs.trans spaced.fileStructs))
  · rw [takes.pipe currTask]
    exact congrArg Plumbing.pipe ((executed.loaded.task currTask).trans
      ((begun.others currTask other).trans (spaced.task currTask)))

end Kernel.Executed

theorem systemFork_keyed (keyed : Keyed k) :
    (k.systemFork (Kernel.kernelFault frames depth)).All (fun result => Keyed result.1) Keyed := by
  have answers := kernelFault_keyed frames depth
  have forks := Kernel.systemFork_forks
    (Kernel.createNewTask_begins answers keyed (.text Kernel.childName))
    fun parent k₁ child _ _ begun => Kernel.setupMemory_spaces answers.steady
      ((keyed.begun begun).steady (Kernel.adoptChild_steady k₁ parent child)) child parent
  apply forks.mono
  · rintro result ⟨parent, child, k₁, k₃, k₅, forked⟩
    exact (forked.keyed keyed).1
  · rintro k' (lost | ⟨parent, child, k₁, k₃, k₅, forked⟩)
    · exact lost
    · exact (forked.keyed keyed).1

theorem systemExecve_keyed (keyed : Keyed k) (filename argvAddr envpAddr : Word) :
    (k.systemExecve (Kernel.kernelFault frames depth) filename argvAddr envpAddr).All Keyed
      Keyed := by
  apply (Kernel.systemExecve_executes (kernelFault_keyed frames depth) Keyed.begun keyed filename
    argvAddr envpAddr).imp
  rintro k' ⟨currTask, task, k₁, k₂, k₃, executed⟩
  exact (executed.keyed keyed).1

/-! ## Closed pipes -/

/-- The pipe with a descriptor is gone from the list of a task, and the others stay there in
their order. -/
structure PipeClosed (k k' : Kernel) (task fd : Word) (nodes : List Word) : Prop where
  before : Chain.Linked k.nextFile (k.task task).pipe nodes
  after : Chain.Linked k'.nextFile (k'.task task).pipe (nodes.filter fun p => (k.file p).fd ≠ fd)
  kept : ∀ p ∈ nodes, (k.file p).fd ≠ fd → k'.pipeEntry p = k.pipeEntry p
  gone : k'.isFilePipe task fd = .next false

theorem closeRedirection_pipe (fd : Word) (s : TaskStruct) :
    (Kernel.closeRedirection fd s).pipe = s.pipe := by
  unfold Kernel.closeRedirection
  split
  · rfl
  · split <;> rfl

theorem systemClose_keyed {J : Kernel → Prop} (keyed : Keyed k) (fd : Word) :
    (k.systemClose fd).All (fun k' => Keyed k' ∧
      ∀ task, k.currentTask = some task → ∃ nodes, PipeClosed k k' task fd nodes) J := by
  rcases keyed with ⟨pipes, lists, distinct⟩
  apply Flow.All.bind (P := fun t => k.currentTask = some t) (.ofOption fun _ found => found)
  intro task running
  suffices closed : (do
      if ← k.isFilePipe task fd then
        let k ← k.removePipeFromTask task fd
        return k.modTask task (Kernel.closeRedirection fd)
      else k.fclose fd).All (fun k' => Keyed k' ∧ ∃ nodes, PipeClosed k k' task fd nodes) J by
    apply closed.imp
    rintro k' ⟨keyed', nodes, closed⟩
    refine ⟨keyed', fun t here => ?_⟩
    rw [running] at here
    cases here
    exact ⟨nodes, closed⟩
  have asked := lists.isFilePipe_eq task fd
  rcases Classical.em (∃ p ∈ pipes task, (k.file p).fd = fd) with listed | listed
  · rw [decide_eq_true listed] at asked
    rw [asked, Flow.next_bind, if_pos rfl]
    apply Flow.All.bind ((lists.remove task fd).mono (fun _ removed => removed) fun _ => False.elim)
    rintro k₁ ⟨nodes, lists₁, relisted, links, dropped⟩
    have rest := dropped.eq_filter (distinct task).once
    obtain ⟨k', closed⟩ : ∃ k', k' = k₁.modTask task (Kernel.closeRedirection fd) := ⟨_, rfl⟩
    have lists' : PipeLists k' (Function.update pipes task nodes) := by
      rw [closed]
      refine lists₁.congr (fun t => ?_) (fun _ _ => rfl) fun _ => id
      exact k₁.modTask_task_field TaskStruct.pipe task t (closeRedirection_pipe fd _)
    have entry : ∀ p, k'.pipeEntry p = k.pipeEntry p := by
      rw [closed]
      exact fun p => pipeEntry_entryAt (links.entry p)
    have named : ∀ p, (k'.file p).fd = (k.file p).fd := fun p => congrArg Prod.fst (entry p)
    have own := lists'.linked task
    rw [Function.update_self, rest] at own
    rw [Flow.pure_eq_next, Flow.all_next, ← closed]
    refine ⟨⟨_, lists', fun t => ?_⟩, pipes task, lists.linked task, own, fun p _ _ => entry p, ?_⟩
    · rw [show k'.fdCount = k.fdCount from by rw [closed]; exact links.fdCount]
      by_cases here : t = task
      · rw [here, Function.update_self, rest]
        exact ((distinct task).sublist List.filter_sublist).kept fun p _ => named p
      · rw [Function.update_of_ne here]
        exact (distinct t).kept fun p _ => named p
    · rw [lists'.isFilePipe_eq, Function.update_self, rest]
      simp [named]
  · rw [decide_eq_false listed] at asked
    rw [asked, Flow.next_bind, if_neg nofun]
    have others : ∀ p ∈ pipes task, (k.file p).fd ≠ fd := fun p inside same =>
      listed ⟨p, inside, same⟩
    have whole : (pipes task).filter (fun p => (k.file p).fd ≠ fd) = pipes task :=
      List.filter_eq_self.mpr fun p inside => decide_eq_true (others p inside)
    have closed : ∀ k' : Kernel, (∀ p, (k'.file p).fd = (k.file p).fd) → k'.nextFile = k.nextFile →
        k'.fileStructs = k.fileStructs → k'.fdCount = k.fdCount → k'.task = k.task →
        (∀ p ∈ pipes task, k'.pipeEntry p = k.pipeEntry p) →
        Keyed k' ∧ ∃ nodes, PipeClosed k k' task fd nodes := by
      intro k' named next structs count tasks entry
      have lists' : PipeLists k' pipes := lists.congr (fun t => by rw [tasks])
        (fun p _ => by rw [next]) fun p known => structs ▸ known
      refine ⟨⟨pipes, lists', fun t => ?_⟩, pipes task, lists.linked task, ?_,
        fun p inside _ => entry p inside, ?_⟩
      · rw [count]
        exact (distinct t).kept fun p _ => named p
      · rw [whole]
        exact lists'.linked task
      · rw [lists'.isFilePipe_eq, decide_eq_false]
        rintro ⟨p, inside, same⟩
        exact others p inside ((named p).symm.trans same)
    apply (Kernel.fclose_cases fd).imp
    rintro k' (rfl | ⟨q, found, rfl⟩)
    · exact closed k' (fun _ => rfl) rfl rfl rfl rfl fun _ _ => rfl
    · obtain ⟨k', rewound⟩ : ∃ k', k' = k.modFile q fun s => { s with offset := 0 } := ⟨_, rfl⟩
      have elsewhere : ∀ p, p ≠ q → k'.file p = k.file p := by
        intro p other
        rw [rewound]
        exact Function.update_of_ne other ..
      have here : k'.file q = { k.file q with offset := 0 } := by
        rw [rewound]
        exact Function.update_self ..
      rw [← rewound]
      refine closed k' (fun p => ?_) (funext fun p => ?_) (by rw [rewound]; rfl)
        (by rw [rewound]; rfl) (by rw [rewound]; rfl) fun p inside => ?_
      · by_cases own : p = q
        · rw [own, here]
        · rw [elsewhere p own]
      · unfold Kernel.nextFile
        by_cases own : p = q
        · rw [own, here]
        · rw [elsewhere p own]
      · unfold Kernel.pipeEntry
        rw [elsewhere p]
        rintro rfl
        exact others p inside found

/-! ## Runs -/

/-- A pipe is made only while descriptors are left. -/
def FewDescriptors (k : Kernel) (r : Regs) : Prop :=
  r.rax = 22 → k.fdCount.toNat + 2 < 2 ^ 31

theorem keyed_dry (dry : ∀ t, (k.task t).plumbing = .dry) : Keyed k :=
  ⟨fun _ => [], ⟨fun t => congrArg Plumbing.pipe (dry t), fun _ _ => nofun, fun _ _ _ => nofun⟩,
    fun _ => .nil⟩

theorem Step.keyed {interrupt : Interrupt} (stepped : Step frames depth k interrupt k')
    (keyed : Keyed k) (met : ∀ r, interrupt = .syscall r → PipeCall r ∧ FewDescriptors k r) :
    Keyed k' := by
  refine stepped.keepsPipes keyed (kernelFault_keyed frames depth) Keyed.begun
    (kernelFault_exits_keyed frames depth) fun r same => ?_
  rcases met r same with ⟨call, few⟩
  have saved := keyed.steady (Kernel.saveFrame_steady k r)
  have count := (Kernel.saveFrame_steady k r).fdCount
  exact ⟨call, fun pipe => systemPipe_keyed saved (count ▸ few pipe) _,
    fun _ => systemDup2_keyed saved _ _, fun _ => systemFork_keyed saved,
    fun _ => systemExecve_keyed saved _ _ _,
    fun _ => (systemClose_keyed saved _).imp fun _ closed => closed.1⟩

theorem PipeRun.keyed (run : PipeRun frames depth FewDescriptors k) : Keyed k := by
  induction run with
  | boot booted dry => exact keyed_dry dry
  | step before stepped met ih => exact stepped.keyed ih met

/-- In a run of calls about pipes the current task is in the task list. -/
theorem PipeRun.current {meets : Kernel → Regs → Prop} (run : PipeRun frames depth meets k) :
    ∃ T, View k T ∧ T.dying = false ∧ T.CurrentLive := by
  have reachable : Reachable frames depth NoSuicide k := by
    induction run with
    | boot booted _ => exact .boot booted
    | step _ stepped met ih =>
        refine .step ih stepped fun r same kill => ?_
        have call := (met r same).1
        unfold PipeCall at call
        rw [kill] at call
        exact absurd call (by decide)
  exact reachable.keeps
    (fun booted => ⟨fun _ _ => List.not_mem_nil, nofun, fun _ => nofun⟩)
    fun view alive inv stepped met => stepped.keeps .noSuicide view alive
      ⟨inv.disjoint, inv.notFree, inv.live⟩ trivial (fun _ => trivial)
      (fun inv moved allowed => moved.currentLive inv allowed) (met.admitted view)

/-- A new task of the task list has copies of the pipes of its parent. -/
def Begets (k k' : Kernel) (parent : Word) : Prop :=
  ∃ child nodes copied, ¬ Chain.Member k.nextTask k.taskList child ∧
    Chain.Member k'.nextTask k'.taskList child ∧ PipesCopied k k' parent child nodes copied

/-- A fork that does not end its caller gets through, with a child that was not in the task
list. -/
theorem systemFork_child {T : Table Word} (view : View k T) (busy : T.resumed = false)
    (running : k.currentTask = some parent)
    (listed : Chain.Member k.nextTask k.taskList parent)
    (ends : Ends (k.systemFork (Kernel.kernelFault frames depth)) k') :
    ¬ Chain.Member k'.nextTask k'.taskList parent ∨ ∃ child k₁ k₃ k₅,
      Kernel.Forked (Kernel.kernelFault frames depth) k parent child k₁ k₃ k₅ k' ∧
      parent ≠ child ∧ ¬ Chain.Member k.nextTask k.taskList child ∧
      Chain.Member k'.nextTask k'.taskList child := by
  have answers : (Kernel.kernelFault frames depth).Answers (Serving anything T)
      (Ended anything T) :=
    (kernelFault_serving (fun _ _ allowed => allowed) (fun _ => trivial) frames depth).1
  have touched := kernelFault_touched frames depth
  have here : T.current = some parent := view.current.trans running
  have created := view.createNewTask answers (fun serving => serving) .start rfl busy
    (.text Kernel.childName) fun _ _ => trivial
  have begins := Kernel.createNewTask_begins (J := fun _ => True) (I := fun _ => True)
    ⟨fun _ _ => trivial, touched.handles⟩ (k := k) trivial (.text Kernel.childName)
  have forks := Kernel.systemFork_forks
    ((created.and begins).mono (fun _ both => both.2) fun _ both => both.1) fun t k₁ child current
      made begun => by
        cases running.symm.trans current
        rcases created.of_next made with ⟨T₁, view₁, run₁, goes, newest₁, busy₁⟩
        have adopting : T₁.Move (.adopt child) (T₁.adopt child parent) :=
          .adopt (goes.current.trans here) newest₁
        exact Kernel.setupMemory_spaces answers.spaced
          ⟨_, Kernel.adoptChild_view view₁ parent child, run₁.move busy₁ adopting trivial,
            goes.current, busy₁⟩ child parent
  have begets : ∀ k', (∃ t child k₁ k₃ k₅,
      Kernel.Forked (Kernel.kernelFault frames depth) k t child k₁ k₃ k₅ k') →
      ∃ child k₁ k₃ k₅, Kernel.Forked (Kernel.kernelFault frames depth) k parent child k₁ k₃ k₅ k' ∧
        parent ≠ child ∧ ¬ Chain.Member k.nextTask k.taskList child ∧
        Chain.Member k'.nextTask k'.taskList child := by
    rintro k' ⟨t, child, k₁, k₃, k₅, forked⟩
    cases running.symm.trans forked.running
    have enters := view.enters touched forked.created
    have other : parent ≠ child := by
      rintro rfl
      exact enters.before listed
    have named := (createNewTask_name (J := fun _ => True) (Kernel.kernelFault frames depth) k
      Kernel.childName (by decide) (by decide)).of_next forked.created
    have after : Chain.Member k₁.nextTask k₁.taskList child := by
      rcases enters.after with member | idle
      · exact member
      · rw [named] at idle
        exact absurd idle (by decide)
    exact ⟨child, k₁, k₃, k₅, forked, other, enters.before, forked.sameList.member.mpr after⟩
  rcases Flow.All.ends (P := fun k' => ∃ child k₁ k₃ k₅,
    Kernel.Forked (Kernel.kernelFault frames depth) k parent child k₁ k₃ k₅ k' ∧ parent ≠ child ∧
      ¬ Chain.Member k.nextTask k.taskList child ∧ Chain.Member k'.nextTask k'.taskList child)
    (forks.imp fun result => begets result.1) ends with got | lost | got
  · exact .inr got
  · rcases lost with ⟨T', view', _, _, gone⟩
    exact .inl fun member => gone parent here (view'.live.member_iff.mp member)
  · exact .inr (begets k' got)

/-- A fork that does not end its caller makes a new task that has copies of the pipes. -/
theorem systemFork_copies {T : Table Word} (view : View k T) (busy : T.resumed = false)
    (keyed : Keyed k) (running : k.currentTask = some parent)
    (listed : Chain.Member k.nextTask k.taskList parent)
    (ends : Ends (k.systemFork (Kernel.kernelFault frames depth)) k') :
    ¬ Chain.Member k'.nextTask k'.taskList parent ∨ Begets k k' parent := by
  rcases systemFork_child view busy running listed ends with
    gone | ⟨child, _, _, _, forked, other, before, after⟩
  · exact .inl gone
  · rcases (forked.keyed keyed).2 other with ⟨nodes, copied, copies⟩
    exact .inr ⟨child, nodes, copied, before, after, copies⟩

/-- An execve that returns got through, with a new task. -/
theorem systemExecve_new {T : Table Word} (view : View k T)
    (running : k.currentTask = some task) (listed : Chain.Member k.nextTask k.taskList task)
    {filename argvAddr envpAddr : Word}
    (returns : k.systemExecve (Kernel.kernelFault frames depth) filename argvAddr envpAddr =
      .next k') :
    ∃ new k₁ k₂ k₃, Kernel.Executed (Kernel.kernelFault frames depth) k task new
      (.atAddr filename) k₁ k₂ k₃ k' ∧ task ≠ new ∧ Enters k k' new := by
  have touched := kernelFault_touched frames depth
  have executes := Kernel.systemExecve_executes (I := fun _ => True) (J := fun _ => True)
    ⟨fun _ _ => trivial, touched.handles⟩ (fun _ _ => trivial) (k := k) trivial filename argvAddr
    envpAddr
  rcases executes.of_next returns with ⟨t, new, k₁, k₂, k₃, executed⟩
  cases running.symm.trans executed.running
  have spaced := executed.spaced.quiet
  have enters := ((view.quiet spaced).enters touched executed.created).since spaced.sameList
  have other : task ≠ new := by
    rintro rfl
    exact enters.before listed
  exact ⟨new, k₁, k₂, k₃, executed, other, enters.andSame executed.sameList⟩

/-- An execve that returns makes a new task that has copies of the pipes. -/
theorem systemExecve_copies {T : Table Word} (view : View k T) (keyed : Keyed k)
    (running : k.currentTask = some task) (listed : Chain.Member k.nextTask k.taskList task)
    {filename argvAddr envpAddr : Word}
    (returns : k.systemExecve (Kernel.kernelFault frames depth) filename argvAddr envpAddr =
      .next k') :
    ∃ new nodes copied, Enters k k' new ∧ PipesCopied k k' task new nodes copied := by
  rcases systemExecve_new view running listed returns with ⟨new, _, _, _, executed, other, enters⟩
  rcases (executed.keyed keyed).2 other with ⟨nodes, copied, copies⟩
  exact ⟨new, nodes, copied, enters, copies⟩

theorem saveFrame_sameList (k : Kernel) (r : Regs) : SameList k (k.saveFrame r) := by
  unfold Kernel.saveFrame
  split
  · exact .refl k
  · exact .modTask k _ rfl rfl

/-- In every run in which pipes are made only while descriptors are left, the pipes of every
task have different descriptors below the next one.  A fork that does not end its caller and an
execve that returns make a new task with copies of the caller's pipes in new structures, in the
same order and with the same descriptors, addresses and offsets.  After a close the caller has
no pipe with the descriptor, and its other pipes are kept in their order. -/
theorem pipes_keyed (run : PipeRun frames depth FewDescriptors k) :
    (∀ t, ∃ nodes, Chain.Linked k.nextFile (k.task t).pipe nodes ∧
      DistinctFds k k.fdCount.toNat nodes) ∧
    ∀ task, k.currentTask = some task → ∀ r,
      (∀ k', Ends ((k.saveFrame r).systemFork (Kernel.kernelFault frames depth)) k' →
        ¬ Chain.Member k'.nextTask k'.taskList task ∨ Begets (k.saveFrame r) k' task) ∧
      (∀ filename argvAddr envpAddr k',
        (k.saveFrame r).systemExecve (Kernel.kernelFault frames depth) filename argvAddr envpAddr =
          .next k' →
        ∃ new nodes copied, Enters (k.saveFrame r) k' new ∧
          PipesCopied (k.saveFrame r) k' task new nodes copied) ∧
      ∀ fd k', (k.saveFrame r).systemClose fd = .next k' →
        ∃ nodes, PipeClosed (k.saveFrame r) k' task fd nodes := by
  have keyed := run.keyed
  constructor
  · intro t
    rcases keyed with ⟨pipes, lists, distinct⟩
    exact ⟨pipes t, lists.linked t, distinct t⟩
  · intro task running r
    rcases run.current with ⟨T, view, alive, inv⟩
    have same := saveFrame_sameList k r
    have listed : Chain.Member (k.saveFrame r).nextTask (k.saveFrame r).taskList task := by
      rw [same.member, view.live.member_iff]
      exact inv.live alive task (view.current.trans running)
    have entered := view.entered (.syscall r)
    have saved := keyed.steady (Kernel.saveFrame_steady k r)
    have current := (k.saveFrame_currentTask r).trans running
    have busy := ((Interrupt.syscall r).goes_entered T).resumed
    exact ⟨fun k' ends => systemFork_copies entered busy saved current listed ends,
      fun filename argvAddr envpAddr k' returns =>
        systemExecve_copies entered saved current listed returns,
      fun fd k' closed =>
        ((systemClose_keyed saved fd (J := fun _ => True)).of_next closed).2 task current⟩

set_option maxRecDepth 8000 in
theorem closing_checks : Flow.checks (calling firstRuns 22 0x8000 0) (fun k =>
    k.currentTask = some 0x1000 && (k.isFilePipe 0x1000 3).returns (fun own => own) &&
      ((k.saveFrame default).systemClose 3).returns fun _ => true) = true := by
  decide_cbv

/-- The first process has made a pipe. -/
theorem run_piped : PipeRun noFrames 0 FewDescriptors (called firstRuns 22 0x8000 0) ∧
    (called firstRuns 22 0x8000 0).currentTask = some 0x1000 := by
  rcases called_step firstRuns_current closing_checks with ⟨piped, facts⟩
  simp only [Bool.and_eq_true, decide_eq_true_eq] at facts
  refine ⟨run_firstRuns.step piped fun r same => ?_, facts.1.1⟩
  cases same
  exact ⟨by decide, fun _ => by decide⟩

/-- The first process makes two pipes and closes one of them. -/
theorem pipes_keyed_piped : ∃ k, PipeRun noFrames 0 FewDescriptors k ∧
    k.isFilePipe 0x1000 3 = .next true ∧
    (∃ nodes, Chain.Linked k.nextFile (k.task 0x1000).pipe nodes ∧
      DistinctFds k k.fdCount.toNat nodes) ∧
    ∃ k' nodes, PipeClosed (k.saveFrame default) k' 0x1000 3 nodes := by
  rcases called_step firstRuns_current closing_checks with ⟨_, facts⟩
  simp only [Bool.and_eq_true, decide_eq_true_eq] at facts
  rcases facts with ⟨⟨_, own⟩, closes⟩
  rcases Flow.returns_next own with ⟨found, own, pipe⟩
  rw [pipe] at own
  rcases Flow.returns_next closes with ⟨k', closed, _⟩
  rcases run_piped with ⟨run, current⟩
  have keyed := pipes_keyed run
  exact ⟨_, run, own, keyed.1 0x1000, k', (keyed.2 0x1000 current default).2.2 3 k' closed⟩

end Sbrocks.Process
