import Sbrocks.Mmu.KernelPages
import Sbrocks.Process.Devices
import Sbrocks.Process.Refinement

/-!
# Task structures

A task structure that was allocated once is from then on in the task list or in the free
list, whatever tasks are created, end and are killed; only a task named `"idle"` is put in
neither.
-/

namespace Sbrocks.Process

open Sbrocks.Mmu

variable {k k' : Kernel} {T : Table Word} {t : Word} {live free apart rest : List Word}
  {fault : Fault} {frames : Kernel → Word → Regs} {depth : Nat}

/-- Every task structure is in one of the lists, but for those that are kept apart, and the
current task is live. -/
structure Table.Tidy (T : Table Word) (apart : List Word) : Prop where
  known : ∀ t, t ∈ T.known ↔ t ∈ T.live ++ T.free ++ apart
  once : (T.live ++ T.free ++ apart).Nodup
  current : ∀ t ∈ T.current, t ∈ T.live

namespace Table.Tidy

theorem withTasks (tidy : T.Tidy apart) (k : Kernel) : (T.withTasks k).Tidy apart :=
  ⟨tidy.known, tidy.once, tidy.current⟩

/-- A task that is created, with a structure that was free or new. -/
theorem create (tidy : T.Tidy apart) (took : T.Takes t rest) (listed : Bool) (mid : Kernel) :
    (((T.reuse rest).withTasks mid).create t listed).Tidy (if listed then apart else t :: apart) := by
  have known := tidy.known
  have once := tidy.once
  have current := tidy.current
  have members : ∀ s, s ∈ T.known.insert t ↔
      s ∈ (if listed then T.live ++ [t] else T.live) ++ rest ++
        (if listed then apart else t :: apart) := by
    intro s
    rw [List.mem_insert_iff, known s]
    cases took with
    | reused first => cases listed <;> simp [first] <;> grind
    | allocated empty nothing fresh => cases listed <;> simp [empty, nothing] <;> grind
  have distinct : ((if listed then T.live ++ [t] else T.live) ++ rest ++
      (if listed then apart else t :: apart)).Nodup := by
    cases took with
    | reused first =>
        rw [first] at once
        cases listed <;> simp [List.nodup_append] at once ⊢ <;> grind
    | allocated empty nothing fresh =>
        rw [known t] at fresh
        rw [empty] at once fresh
        rw [nothing]
        cases listed <;> simp [List.nodup_append] at once fresh ⊢ <;> grind
  refine ⟨members, distinct, ?_⟩
  intro s member
  have here : s ∈ T.live := current s member
  show s ∈ if listed then T.live ++ [t] else T.live
  cases listed with
  | true => exact List.mem_append_left _ here
  | false => exact here

/-- A task whose structure is put on the free list. -/
theorem retire (tidy : T.Tidy apart) (member : t ∈ T.live) {T' : Table Word}
    (live : T'.live = T.live.erase t) (free : T'.free = T.free ++ [t]) (known : T'.known = T.known)
    (current : ∀ s ∈ T'.current, s ∈ T'.live) : T'.Tidy apart := by
  have once := tidy.once
  rcases List.append_of_mem member with ⟨front, back, split⟩
  rw [split] at once
  have outside : t ∉ front := by
    simp [List.nodup_append] at once
    grind
  have erased : T.live.erase t = front ++ back := by
    rw [split, List.erase_append_right _ outside, List.erase_cons_head]
  refine ⟨?_, ?_, current⟩
  · intro s
    rw [known, tidy.known s, live, free, erased, split]
    simp
    grind
  · rw [live, free, erased]
    simp [List.nodup_append] at once ⊢
    grind

end Table.Tidy

/-! ## The end of a task -/

/-- The lists of a table, in which the current task is live if it was. -/
def Lists (T : Table Word) (k : Kernel) : Prop :=
  ∃ T', View k T' ∧ T'.live = T.live ∧ T'.free = T.free ∧ T'.known = T.known ∧
    ((∀ s ∈ T.current, s ∈ T.live) → ∀ s ∈ T'.current, s ∈ T'.live)

theorem View.tick_lists (view : View k T) (alive : T.dying = false) :
    (k.countTick >>= Kernel.scheduleProcess).All (Lists T) fun _ => False := by
  apply (Kernel.countTick_aged k).bind
  intro mid aged
  apply ((view.aged aged).scheduleProcess alive).mono _ fun _ => id
  rintro k' (stays | ⟨task, moved, dispatched⟩)
  · exact ⟨_, stays, rfl, rfl, rfl, id⟩
  · have same := (T.withTasks mid).preempt_eq
    have live : ((T.withTasks mid).dispatch task).live = T.live := by
      show (T.withTasks mid).preempt.live = T.live
      rw [same]
      rfl
    refine ⟨_, dispatched, live, ?_, ?_, ?_⟩
    · show (T.withTasks mid).preempt.free = T.free
      rw [same]
      rfl
    · show (T.withTasks mid).preempt.known = T.known
      rw [same]
      rfl
    · intro current s member
      cases moved with
      | dispatch other listed alive =>
          rw [live]
          cases Option.some.inj member
          exact listed current

/-- Giving up the processor leaves the lists as they are. -/
theorem View.yield_lists (view : View k T) (alive : T.dying = false) (idle : k.currentTask = none) :
    k.yield.All (Lists T) (Lists T) := by
  have entry : k.saveFrame default = k := by rw [Kernel.saveFrame, idle]
  have ticked : (k.countTick >>= Kernel.scheduleProcess).All (Lists T) (Lists T) :=
    (view.tick_lists alive).mono (fun _ kept => kept) fun _ => False.elim
  unfold Kernel.yield
  rw [Kernel.timerHandler_eq, entry]
  apply Flow.All.bind (P := fun result => Lists T result.1)
  · apply ticked.bind
    intro k' kept
    exact kept
  · rintro ⟨k', r⟩ kept
    dsimp only
    cases k'.currentTask with
    | none => exact kept
    | some task => exact kept

/-- Telling the parent leaves the lists as they are. -/
theorem leaveParent_lists (k : Kernel) (t : Word) : (k.leaveParent t).All
    (fun k' => (∀ s, (k'.task s).next = (k.task s).next) ∧ k'.heads = k.heads) fun _ => False := by
  unfold Kernel.leaveParent
  split
  · apply Flow.All.bind (P := fun _ => True)
    · exact Flow.All.ofOption fun _ _ => trivial
    · intro parent _
      unfold Kernel.removeFromParent
      apply Flow.All.bind (P := fun _ => True)
      · exact Flow.All.ofOption fun _ _ => trivial
      · intro parent' _
        dsimp only
        split
        · refine ⟨fun s => ?_, rfl⟩
          rw [Kernel.modTask_task_field _ TaskStruct.next _ _ rfl,
            Kernel.modTask_task_field _ TaskStruct.next _ _ rfl,
            Kernel.modTask_task_field _ TaskStruct.next _ _ rfl]
        · refine ⟨fun s => ?_, rfl⟩
          rw [Kernel.modTask_task_field _ TaskStruct.next _ _ rfl,
            Kernel.modTask_task_field _ TaskStruct.next _ _ rfl]
  · exact ⟨fun _ => rfl, rfl⟩

/-- The lists without a task that is current and about to end, or ends already. -/
def Closing (t : Word) (live free known : List Word) (k : Kernel) : Prop :=
  ∃ T, View k T ∧ T.live.erase t = live ∧ T.free = free ∧ t ∉ free ∧ T.known = known ∧
    T.current = some t

/-- The lists after the end of a task. -/
def Closed (t : Word) (live free known : List Word) (k : Kernel) : Prop :=
  ∃ T, View k T ∧ T.live = live ∧ T.free = free ++ [t] ∧ T.known = known ∧
    ∀ s ∈ T.current, s ∈ T.live

theorem Closing.stable {known : List Word} (closing : Closing t live free known k)
    (quiet : Quiet k k') : Closing t live free known k' := by
  rcases closing with ⟨T, view, erased, same, notFree, knows, current⟩
  exact ⟨_, view.quiet quiet, erased, same, notFree, knows, current⟩

/-- The end of the current task puts its structure on the free list, through whatever page
faults it takes. -/
theorem closing_exits {known : List Word}
    (answers : fault.Answers (Closing t live free known) (Closed t live free known)) :
    fault.Exits (Closing t live free known) (Closed t live free known) := by
  intro α P k closing
  rcases closing with ⟨T, view, erased, same, notFree, knows, current⟩
  have running : k.currentTask = some t := view.current.symm.trans current
  unfold Kernel.systemExit
  rw [running]
  dsimp only [Flow.ofOption_some, Flow.next_bind]
  apply Flow.All.bind ((leaveParent_lists k t).mono (fun _ kept => kept) fun _ => False.elim)
  rintro k₁ ⟨next, heads⟩
  have view₁ := view.tasks next heads
  have gone : (T.live.erase t).erase t = live := by
    rw [List.erase_of_not_mem view.live.nodup.not_mem_erase, erased]
  apply Flow.All.bind (view₁.freeTaskStruct (t := t) answers fun viewed =>
    ⟨_, viewed, gone, same, notFree, knows, current⟩)
  rintro k₂ ⟨mid, free', -, view₂, -, whole⟩
  have appended : free' = free ++ [t] := by
    rw [← same]
    exact whole (same ▸ notFree)
  subst appended
  have stopped := (view₂.modTask t (fun s => { s with state := .stopped })
    (fun s => { s with state := .stopped }) rfl rfl).setCurrentTask none
  have yielded := (stopped.remark false false none none).yield_lists rfl rfl
  have closed : ∀ T₃ : Table Word, T₃.live = T.live.erase t → T₃.free = free ++ [t] →
      T₃.known = T.known → T₃.current = none → ∀ k', Lists T₃ k' → Closed t live free known k' := by
    rintro T₃ live₃ free₃ known₃ idle k' ⟨T', view', live', free', known', listed⟩
    have current' := listed (by rw [idle]; exact nofun)
    exact ⟨T', view', live'.trans (live₃.trans erased), free'.trans free₃,
      known'.trans (known₃.trans knows), current'⟩
  apply (yielded.mono (closed _ rfl rfl rfl rfl) (closed _ rfl rfl rfl rfl)).bind
  intro k' ended
  exact ended

theorem kernelFault_closes (frames : Kernel → Word → Regs) (depth : Nat) {known : List Word} :
    (Kernel.kernelFault frames depth).Exits (Closing t live free known)
      (Closed t live free known) :=
  closing_exits (kernelFault_answers Closing.stable frames
    (fun _ answers => closing_exits answers) depth)

/-! ## Other operations that come to their end -/

/-- A kill that comes to its end. -/
theorem View.killed (view : View k T) {pid answer : Word}
    (got : k.getTask pid = .next (some t))
    (killed : k.systemKill (Kernel.kernelFault frames depth) pid = .next (k', answer)) :
    t ∈ T.live ∧ ∃ T', View k' T' ∧ T'.live = T.live.erase t ∧ T'.free = T.free ++ [t] ∧
      T'.known = T.known ∧ T'.current = T.current := by
  have listed : t ∈ T.live := ((getTask_live view pid).of_next got t rfl).1
  refine ⟨listed, ?_⟩
  have freed : (k.systemKill (Kernel.kernelFault frames depth) pid).All (fun result => ∃ T',
      View result.1 T' ∧ T'.live = T.live.erase t ∧ T'.free = T.free ++ [t] ∧ T'.known = T.known ∧
        T'.current = T.current) fun _ => True := by
    unfold Kernel.systemKill
    rw [got]
    apply Flow.All.bind (view.freeTaskStruct (t := t) (kernelFault_touched frames depth)
      fun _ => trivial)
    rintro k₂ ⟨mid, free', -, view₂, -, whole⟩
    have appended : free' = T.free ++ [t] := whole (view.disjoint t listed)
    subst appended
    have stopped := view₂.modTask t (fun s => { s with state := .stopped })
      (fun s => { s with state := .stopped }) rfl rfl
    exact ⟨_, stopped, rfl, rfl, rfl, rfl⟩
  exact freed.of_next killed

/-- A kill that finds no task. -/
theorem Kernel.systemKill_none {pid answer : Word} (got : k.getTask pid = .next none)
    (killed : k.systemKill fault pid = .next (k', answer)) : k' = k := by
  unfold Kernel.systemKill at killed
  rw [got] at killed
  cases killed
  rfl

/-- A creation that comes to its end. -/
theorem View.created (view : View k T) {taskname : CString}
    (created : k.createNewTask (Kernel.kernelFault frames depth) taskname = .next (k', t)) :
    ∃ rest mid listed, T.Takes t rest ∧ (listed = false ↔ (k'.task t).name = idleName) ∧
      View k' (((T.reuse rest).withTasks mid).create t listed) := by
  have done := (view.createTask (kernelFault_touched frames depth) taskname
    fun _ _ => trivial).of_next created
  rcases done with ⟨rest, mid, listed, took, -, -, named, -, view'⟩
  exact ⟨rest, mid, listed, took, named, view'⟩

/-! ## Runs -/

/-- The kernels that are reached by creating tasks, ending the current one and killing others,
with the structures of the tasks named `"idle"`.  In between the kernel does whatever leaves the
lists alone and dispatches only live tasks. -/
inductive Managed (frames : Kernel → Word → Regs) (depth : Nat) : List Word → Kernel → Prop
  | boot {k : Kernel} (taskList : k.taskList = none) (freeTaskList : k.freeTaskList = none)
      (taskStructs : k.taskStructs = []) (currentTask : k.currentTask = none) :
      Managed frames depth [] k
  | create {apart : List Word} {k k' : Kernel} {t : Word} {taskname : CString}
      (managed : Managed frames depth apart k)
      (created : k.createNewTask (Kernel.kernelFault frames depth) taskname = .next (k', t)) :
      Managed frames depth (if (k'.task t).name = idleName then t :: apart else apart) k'
  | exit {apart : List Word} {k k' : Kernel} (managed : Managed frames depth apart k)
      (ended : (k.systemExit (Kernel.kernelFault frames depth) : Flow Kernel Unit) = .left k') :
      Managed frames depth apart k'
  | kill {apart : List Word} {k k' : Kernel} {pid answer : Word}
      (managed : Managed frames depth apart k)
      (another : ∀ t, k.getTask pid = .next (some t) → k.currentTask ≠ some t)
      (killed : k.systemKill (Kernel.kernelFault frames depth) pid = .next (k', answer)) :
      Managed frames depth apart k'
  | other {apart : List Word} {k k' : Kernel} (managed : Managed frames depth apart k)
      (next : ∀ t, (k'.task t).next = (k.task t).next) (taskList : k'.taskList = k.taskList)
      (freeTaskList : k'.freeTaskList = k.freeTaskList)
      (taskStructs : k'.taskStructs = k.taskStructs)
      (currentTask : ∀ t ∈ k'.currentTask, Chain.Member k'.nextTask k'.taskList t) :
      Managed frames depth apart k'

/-- A kernel whose task structures are accounted for. -/
def Accounted (apart : List Word) (k : Kernel) : Prop :=
  ∃ T : Table Word, View k T ∧ T.Tidy apart

theorem Accounted.create (accounted : Accounted apart k) {taskname : CString}
    (created : k.createNewTask (Kernel.kernelFault frames depth) taskname = .next (k', t)) :
    Accounted (if (k'.task t).name = idleName then t :: apart else apart) k' := by
  rcases accounted with ⟨T, view, tidy⟩
  rcases view.created created with ⟨rest, mid, listed, took, named, view'⟩
  refine ⟨_, view', ?_⟩
  have tidy' := tidy.create took listed mid
  cases listed with
  | false =>
      rw [if_pos (named.mp rfl)]
      exact tidy'
  | true =>
      rw [if_neg fun idle => absurd (named.mpr idle) (by decide)]
      exact tidy'

theorem Accounted.exit (accounted : Accounted apart k)
    (ended : (k.systemExit (Kernel.kernelFault frames depth) : Flow Kernel Unit) = .left k') :
    Accounted apart k' := by
  rcases accounted with ⟨T, view, tidy⟩
  cases current : k.currentTask with
  | none =>
      unfold Kernel.systemExit at ended
      rw [current] at ended
      cases ended
  | some t =>
      have here : T.current = some t := view.current.trans current
      have member : t ∈ T.live := tidy.current t here
      have closing : Closing t (T.live.erase t) T.free T.known k :=
        ⟨T, view, rfl, rfl, view.disjoint t member, rfl, here⟩
      have closed := (kernelFault_closes frames depth (P := fun _ => True) closing).of_left ended
      rcases closed with ⟨T', view', live, free, known, listed⟩
      exact ⟨T', view', tidy.retire member live free known listed⟩

theorem Accounted.kill (accounted : Accounted apart k) {pid answer : Word}
    (another : ∀ t, k.getTask pid = .next (some t) → k.currentTask ≠ some t)
    (killed : k.systemKill (Kernel.kernelFault frames depth) pid = .next (k', answer)) :
    Accounted apart k' := by
  rcases accounted with ⟨T, view, tidy⟩
  cases got : k.getTask pid with
  | stuck =>
      unfold Kernel.systemKill at killed
      rw [got] at killed
      cases killed
  | left state =>
      unfold Kernel.systemKill at killed
      rw [got] at killed
      cases killed
  | next found =>
      cases found with
      | none =>
          rw [Kernel.systemKill_none got killed]
          exact ⟨T, view, tidy⟩
      | some t =>
          rcases view.killed got killed with ⟨member, T', view', live, free, known, current⟩
          refine ⟨T', view', tidy.retire member live free known ?_⟩
          intro s running
          rw [current] at running
          have different : s ≠ t := by
            rintro rfl
            exact another s got (view.current.symm.trans running)
          rw [live]
          exact (List.mem_erase_of_ne different).mpr (tidy.current s running)

theorem Managed.accounted (managed : Managed frames depth apart k) : Accounted apart k := by
  induction managed with
  | @boot k taskList freeTaskList taskStructs currentTask =>
      let T : Table Word :=
        { live := [], free := [], known := [], current := none, pid := k.pid
          proc := fun t => (k.task t).proc, dying := false, forking := none, newest := none
          resumed := false, faults := k.kernelFaults }
      refine ⟨T, ⟨taskList, freeTaskList, nofun, taskStructs.symm, nofun, currentTask.symm, rfl, rfl,
        fun _ => rfl⟩, ⟨?_, List.nodup_nil, nofun⟩⟩
      exact fun t => Iff.rfl
  | create _ created ih => exact ih.create created
  | exit _ ended ih => exact ih.exit ended
  | kill _ another killed ih => exact ih.kill another killed
  | @other apart k k' _ next taskList freeTaskList taskStructs currentTask ih =>
      rcases ih with ⟨T, view, tidy⟩
      have live : Chain.Linked k'.nextTask k'.taskList T.live := by
        rw [taskList]
        exact view.live.congr fun s _ => next s
      have free : Chain.Linked k'.nextTask k'.freeTaskList T.free := by
        rw [freeTaskList]
        exact view.free.congr fun s _ => next s
      let T' : Table Word :=
        { T with
          current := k'.currentTask, pid := k'.pid, proc := fun t => (k'.task t).proc
          faults := k'.kernelFaults }
      refine ⟨T', ⟨live, free, view.disjoint, ?_, view.liveKnown, rfl, rfl, rfl, fun _ => rfl⟩,
        tidy.known, tidy.once, ?_⟩
      · rw [taskStructs]
        exact view.known
      · intro t running
        exact live.member_iff.mp (currentTask t running)

/-- No task structure is lost or shared: but for those of the tasks named `"idle"`, each that was
ever allocated is in exactly one of the two lists, which end.  A creation takes the first free
structure, or a new one, and appends it to the task list; the end of a task and a kill move its
structure to the end of the free list and keep the order of the others. -/
theorem structs_accounted (managed : Managed frames depth apart k) :
    ∃ live free : List Word,
      Chain.Linked k.nextTask k.taskList live ∧ Chain.Linked k.nextTask k.freeTaskList free ∧
      (live ++ free ++ apart).Nodup ∧
      (∀ t, t ∈ k.taskStructs ↔ t ∈ live ∨ t ∈ free ∨ t ∈ apart) ∧
      (∀ (taskname : CString) (k' : Kernel) (t : Word),
        k.createNewTask (Kernel.kernelFault frames depth) taskname = .next (k', t) →
        ∃ rest, (free = t :: rest ∨ free = [] ∧ rest = [] ∧ t ∉ k.taskStructs) ∧
          Chain.Linked k'.nextTask k'.taskList
            (if (k'.task t).name = idleName then live else live ++ [t]) ∧
          Chain.Linked k'.nextTask k'.freeTaskList rest) ∧
      (∀ (k' : Kernel) (t : Word), k.currentTask = some t →
        (k.systemExit (Kernel.kernelFault frames depth) : Flow Kernel Unit) = .left k' →
        Chain.Linked k'.nextTask k'.taskList (live.erase t) ∧
          Chain.Linked k'.nextTask k'.freeTaskList (free ++ [t])) ∧
      ∀ (pid answer : Word) (k' : Kernel) (t : Word), k.getTask pid = .next (some t) →
        k.currentTask ≠ some t →
        k.systemKill (Kernel.kernelFault frames depth) pid = .next (k', answer) →
        Chain.Linked k'.nextTask k'.taskList (live.erase t) ∧
          Chain.Linked k'.nextTask k'.freeTaskList (free ++ [t]) := by
  rcases managed.accounted with ⟨T, view, tidy⟩
  refine ⟨T.live, T.free, view.live, view.free, tidy.once, ?_, ?_, ?_, ?_⟩
  · intro t
    rw [← view.known, tidy.known t, List.mem_append, List.mem_append, or_assoc]
  · intro taskname k' t created
    rcases view.created created with ⟨rest, mid, listed, took, named, view'⟩
    refine ⟨rest, ?_, ?_, view'.free⟩
    · cases took with
      | reused first => exact .inl first
      | allocated empty nothing fresh => exact .inr ⟨empty, nothing, view.known ▸ fresh⟩
    · have live := view'.live
      cases listed with
      | false =>
          rw [if_pos (named.mp rfl)]
          exact live
      | true =>
          rw [if_neg fun idle => absurd (named.mpr idle) (by decide)]
          exact live
  · intro k' t running ended
    have here : T.current = some t := view.current.trans running
    have closing : Closing t (T.live.erase t) T.free T.known k :=
      ⟨T, view, rfl, rfl, view.disjoint t (tidy.current t here), rfl, here⟩
    have closed := (kernelFault_closes frames depth (P := fun _ => True) closing).of_left ended
    rcases closed with ⟨T', view', live, free, -, -⟩
    exact ⟨live ▸ view'.live, free ▸ view'.free⟩
  · intro pid answer k' t got _ killed
    rcases view.killed got killed with ⟨-, T', view', live, free, -, -⟩
    exact ⟨live ▸ view'.live, free ▸ view'.free⟩

/-! ## The first task -/

/-- The characters of a text of the kernel. -/
theorem Kernel.chars_text (k : Kernel) {text : List Byte} (ends : ∀ c ∈ text, c ≠ 0)
    (i rounds : Nat) (within : i ≤ text.length) (room : text.length < i + rounds) :
    k.chars fault (.text text) i rounds = .next (k, text.drop i) := by
  induction rounds generalizing i with
  | zero => omega
  | succ rounds ih =>
      unfold Kernel.chars Kernel.char
      dsimp only
      by_cases inside : i < text.length
      · have char : text.getD i 0 = text[i] := by simp [List.getD, inside]
        have plain : text[i] ≠ 0 := ends _ (List.getElem_mem inside)
        rw [if_pos inside, char]
        dsimp only [Flow.next_bind]
        rw [if_neg plain, ih (i + 1) inside (by omega), List.drop_eq_getElem_cons inside]
        rfl
      · have last : i = text.length := by omega
        rw [if_neg inside, if_pos last, last, List.drop_length]
        rfl

/-- A kernel with the boot page tables and without tasks. -/
def noStructs : Kernel :=
  Kernel.initial Machine.bootExample 0x100

/-- The first task can be created, whatever its name. -/
theorem createNewTask_noStructs (fault : Fault) {name : List Byte} (ends : ∀ c ∈ name, c ≠ 0)
    (short : name.length < 2 ^ 64) : ∃ k' t,
    noStructs.createNewTask fault (.text name) = .next (k', t) ∧ (k'.task t).name = name ∧
      k'.taskStructs = [t] := by
  have orderly := Machine.bootExample_bootSpace.spaceInv.orderly
  rcases orderly.kernelPages (n := 16) Machine.flagBits_kernel 2 Machine.bootExample_hasFrames with
    ⟨m₁, struct, orderly₁, frames₁⟩
  rcases orderly₁.kernelPages (n := 12) Machine.flagBits_kernel 1 frames₁ with
    ⟨m₂, memory, orderly₂, frames₂⟩
  rcases orderly₂.envSetupVm_eq (n := 8) frames₂ with ⟨m₃, space, -, -, -⟩
  have taken : noStructs.kmallocStruct 4520 noStructs.taskStructs =
      .next (noStructs.setMachine m₁, Machine.bootExample.virtualTop) := by
    have result : noStructs.m.kmalloc 4520 = some (m₁, Machine.bootExample.virtualTop) := struct
    unfold Kernel.kmallocStruct Kernel.kmalloc
    rw [result]
    rfl
  have equipped : (noStructs.setMachine m₁).kmallocStruct 96 [] =
      .next (noStructs.setMachine m₂, m₁.virtualTop) := by
    have result : (noStructs.setMachine m₁).m.kmalloc 96 = some (m₂, m₁.virtualTop) := memory
    unfold Kernel.kmallocStruct Kernel.kmalloc
    rw [result]
    rfl
  have got : ∃ k₁, noStructs.getFreeTask = .next (k₁, Machine.bootExample.virtualTop) ∧
      k₁.taskList = none ∧ k₁.taskStructs = [] ∧ k₁.m = m₂ := by
    unfold Kernel.getFreeTask Kernel.createNewMmstruct
    rw [show noStructs.freeTaskList = none from rfl]
    dsimp only
    rw [taken]
    dsimp only [Flow.next_bind]
    rw [show (noStructs.setMachine m₁).mmStructs = [] from rfl, equipped]
    exact ⟨_, rfl, rfl, rfl, rfl⟩
  rcases got with ⟨k₁, got, empty, structs, machine⟩
  have read : k₁.chars fault (.text name) 0 stringRounds = .next (k₁, name.drop 0) :=
    k₁.chars_text ends 0 stringRounds (Nat.zero_le _) (by rw [stringRounds]; omega)
  rw [List.drop_zero] at read
  have rooted : ∀ k : Kernel, k.m = m₂ →
      (Flow.ofOption k.m.envSetupVm : Flow Kernel _) = .next (m₃, m₂.virtualTop) := by
    intro k same
    rw [same, space]
    rfl
  unfold Kernel.createNewTask Kernel.addToTaskList
  rw [got]
  dsimp only [Flow.next_bind]
  rw [read]
  dsimp only [Flow.next_bind]
  rw [empty]
  split
  · dsimp only [Flow.next_bind]
    rw [rooted _ (by exact machine)]
    refine ⟨_, _, rfl, ?_, ?_⟩
    · simp [Kernel.modTask_task_self, Kernel.freshTask]
    · show k₁.taskStructs.insert _ = _
      rw [structs]
      rfl
  · dsimp only [Flow.next_bind]
    rw [rooted _ (by exact machine)]
    refine ⟨_, _, rfl, ?_, ?_⟩
    · simp [Kernel.modTask_task_self, Kernel.freshTask]
    · show k₁.taskStructs.insert _ = _
      rw [structs]
      rfl

/-- A task of another name is in the task list, as every structure that was allocated. -/
theorem structs_accounted_noStructs : ∃ k t, Managed (fun _ _ => default) 0 [] k ∧
    k.taskStructs = [t] ∧ ∃ live free : List Word, Chain.Linked k.nextTask k.taskList live ∧
      Chain.Linked k.nextTask k.freeTaskList free ∧ (t ∈ live ∨ t ∈ free) := by
  have ends : ∀ c ∈ ([0x73, 0x68] : List Byte), c ≠ 0 := by decide
  rcases createNewTask_noStructs (Kernel.kernelFault (fun _ _ => default) 0) ends (by decide) with
    ⟨k, t, created, name, structs⟩
  have managed : Managed (fun _ _ => default) 0 [] k := by
    have made := (Managed.boot rfl rfl rfl rfl : Managed _ 0 [] noStructs).create created
    rw [name] at made
    exact made
  obtain ⟨live, free, linked, linkedFree, -, members, -⟩ := structs_accounted managed
  refine ⟨k, t, managed, structs, live, free, linked, linkedFree, ?_⟩
  have member := (members t).mp (by rw [structs]; exact List.mem_singleton_self t)
  simpa using member

/-- The structure of a task named `"idle"` is in neither list. -/
theorem idle_unaccounted : ¬ ∀ (frames : Kernel → Word → Regs) (depth : Nat) (apart : List Word)
    (k : Kernel), Managed frames depth apart k → ∃ live free : List Word,
      Chain.Linked k.nextTask k.taskList live ∧ Chain.Linked k.nextTask k.freeTaskList free ∧
      ∀ t ∈ k.taskStructs, t ∈ live ∨ t ∈ free := by
  intro accounted
  have ends : ∀ c ∈ idleName, c ≠ 0 := by decide
  rcases createNewTask_noStructs (Kernel.kernelFault (fun _ _ => default) 0) ends (by decide) with
    ⟨k, t, created, name, structs⟩
  have managed := (Managed.boot rfl rfl rfl rfl : Managed _ 0 [] noStructs).create created
  rw [if_pos name] at managed
  rcases managed.accounted with ⟨T, view, tidy⟩
  rcases accounted _ _ _ _ managed with ⟨live, free, linked, linkedFree, members⟩
  have once := tidy.once
  rw [view.live.unique linked, view.free.unique linkedFree] at once
  have inside := members t (by rw [structs]; exact List.mem_singleton_self t)
  rw [List.nodup_append] at once
  rcases inside with here | here
  · exact once.2.2 t (List.mem_append_left _ here) t List.mem_cons_self rfl
  · exact once.2.2 t (List.mem_append_right _ here) t List.mem_cons_self rfl

end Sbrocks.Process
