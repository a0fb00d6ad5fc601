import Sbrocks.Process.ContextSwitch
import Sbrocks.Process.PageFault

/-!
# What memory accesses do to the kernel

An access to memory leaves the kernel as it is, except for the memory itself and
for the page faults it takes: a fault that is answered replaces the saved frame of
the current task by a frame of the kernel.  An access that is not answered ends in
the exit of the current task.

The lemmas are about any predicate `I` that quiet steps keep and any predicate `J`
that holds where control is lost to an unanswered fault in a state with `I`.
-/

namespace Sbrocks.Process

/-- Results that hold a state of the kernel. -/
class HasState (α : Type) where
  state : α → Kernel

instance : HasState Kernel := ⟨id⟩

instance {β : Type} : HasState (Kernel × β) := ⟨Prod.fst⟩

/-- The effect of memory accesses. -/
structure Touched (k k' : Kernel) : Prop where
  same : k' = { k with m := k'.m, kernelFaults := k'.kernelFaults, task := k'.task }
  task : ∀ t, ∃ r, k'.task t = { k.task t with r := r }
  others : ∀ t, k.currentTask ≠ some t → k'.task t = k.task t
  frame : (k'.kernelFaults = k.kernelFaults ∧ k'.task = k.task) ∨
    (k.kernelFaults < k'.kernelFaults ∧
      ∃ t, k.currentTask = some t ∧ (k'.task t).r.cs = 0x08)

namespace Touched

variable {k k' k'' : Kernel}

theorem refl (k : Kernel) : Touched k k :=
  ⟨rfl, fun _ => ⟨_, rfl⟩, fun _ _ => rfl, .inl ⟨rfl, rfl⟩⟩

theorem currentTask (touched : Touched k k') : k'.currentTask = k.currentTask := by
  rw [touched.same]

theorem trans (first : Touched k k') (second : Touched k' k'') : Touched k k'' where
  same := by
    have step := second.same
    rw [first.same] at step
    exact step
  task t := by
    rcases first.task t with ⟨r, here⟩
    rcases second.task t with ⟨r', there⟩
    exact ⟨r', by rw [there, here]⟩
  others t other := by
    rw [second.others t (first.currentTask ▸ other), first.others t other]
  frame := by
    rcases second.frame with ⟨faults, same⟩ | ⟨faults, t, running, kernel⟩
    · rcases first.frame with ⟨faults', same'⟩ | ⟨faults', t, running, kernel⟩
      · exact .inl ⟨faults.trans faults', same.trans same'⟩
      · exact .inr ⟨faults ▸ faults', t, running, same ▸ kernel⟩
    · rw [first.currentTask] at running
      rcases first.frame with ⟨faults', _⟩ | ⟨faults', _⟩
      · exact .inr ⟨faults' ▸ faults, t, running, kernel⟩
      · exact .inr ⟨Nat.lt_trans faults' faults, t, running, kernel⟩

theorem setMachine (k : Kernel) (m : Mmu.Machine) : Touched k (k.setMachine m) :=
  ⟨rfl, fun _ => ⟨_, rfl⟩, fun _ _ => rfl, .inl ⟨rfl, rfl⟩⟩

end Touched

/-- The lists of a kernel, its current task and the next pid. -/
structure Heads where
  taskList : Option Word
  freeTaskList : Option Word
  taskStructs : List Word
  currentTask : Option Word
  pid : Word

def Kernel.heads (k : Kernel) : Heads :=
  ⟨k.taskList, k.freeTaskList, k.taskStructs, k.currentTask, k.pid⟩

/-- What functions on behalf of a task do, apart from those that create, block or
end tasks: memory, areas and files change, tasks are woken, and page faults may
replace the frame of the current task. -/
structure Quiet (k k' : Kernel) : Prop where
  taskList : k'.taskList = k.taskList
  freeTaskList : k'.freeTaskList = k.freeTaskList
  currentTask : k'.currentTask = k.currentTask
  taskStructs : k'.taskStructs = k.taskStructs
  pid : k'.pid = k.pid
  task : ∀ t, k'.task t =
    { k.task t with
      state := (k'.task t).state, r := (k'.task t).r, pipe := (k'.task t).pipe,
      writeRedirectionFd := (k'.task t).writeRedirectionFd,
      readRedirectionFd := (k'.task t).readRedirectionFd }
  state : ∀ t, (k'.task t).state = (k.task t).state ∨ (k'.task t).state = .runnable
  others : ∀ t, k.currentTask ≠ some t → (k'.task t).r = (k.task t).r
  frame : (k'.kernelFaults = k.kernelFaults ∧ ∀ t, (k'.task t).r = (k.task t).r) ∨
    (k.kernelFaults < k'.kernelFaults ∧
      ∃ t, k.currentTask = some t ∧ (k'.task t).r.cs = 0x08)

namespace Quiet

variable {k k' k'' : Kernel}

theorem heads (quiet : Quiet k k') : k'.heads = k.heads := by
  unfold Kernel.heads
  rw [quiet.taskList, quiet.freeTaskList, quiet.taskStructs, quiet.currentTask, quiet.pid]

theorem refl (k : Kernel) : Quiet k k where
  taskList := rfl
  freeTaskList := rfl
  currentTask := rfl
  taskStructs := rfl
  pid := rfl
  task _ := rfl
  state _ := .inl rfl
  others _ _ := rfl
  frame := .inl ⟨rfl, fun _ => rfl⟩

theorem trans (first : Quiet k k') (second : Quiet k' k'') : Quiet k k'' where
  taskList := second.taskList.trans first.taskList
  freeTaskList := second.freeTaskList.trans first.freeTaskList
  currentTask := second.currentTask.trans first.currentTask
  taskStructs := second.taskStructs.trans first.taskStructs
  pid := second.pid.trans first.pid
  task t := by
    rw [second.task t, first.task t]
  state t := by
    rcases second.state t with kept | woken
    · rw [kept]
      exact first.state t
    · exact .inr woken
  others t other := by
    rw [second.others t (first.currentTask ▸ other), first.others t other]
  frame := by
    rcases second.frame with ⟨faults, same⟩ | ⟨faults, t, running, kernel⟩
    · rcases first.frame with ⟨faults', same'⟩ | ⟨faults', t, running, kernel⟩
      · exact .inl ⟨faults.trans faults', fun t => (same t).trans (same' t)⟩
      · exact .inr ⟨faults ▸ faults', t, running, by rw [same t]; exact kernel⟩
    · rw [first.currentTask] at running
      rcases first.frame with ⟨faults', _⟩ | ⟨faults', _⟩
      · exact .inr ⟨faults' ▸ faults, t, running, kernel⟩
      · exact .inr ⟨Nat.lt_trans faults' faults, t, running, kernel⟩

end Quiet

theorem Touched.quiet {k k' : Kernel} (touched : Touched k k') : Quiet k k' where
  taskList := by rw [touched.same]
  freeTaskList := by rw [touched.same]
  currentTask := touched.currentTask
  taskStructs := by rw [touched.same]
  pid := by rw [touched.same]
  task t := by
    rcases touched.task t with ⟨r, same⟩
    rw [same]
  state t := by
    rcases touched.task t with ⟨r, same⟩
    rw [same]
    exact .inl rfl
  others t other := by rw [touched.others t other]
  frame := by
    rcases touched.frame with ⟨faults, same⟩ | fault
    · exact .inl ⟨faults, fun t => by rw [same]⟩
    · exact .inr fault

/-- A way to answer page faults: it acts like a memory access, and where control is
lost to it the predicate `J` holds, in all states with `I`, which quiet steps keep. -/
structure Fault.Answers (fault : Fault) (I J : Kernel → Prop) : Prop where
  stable : ∀ {k k' : Kernel}, I k → Quiet k k' → I k'
  handles : ∀ {k : Kernel}, I k → ∀ virt : Word, (fault k virt).All (Touched k) J

/-- As `Fault.Answers`, for predicates that steps of one kind keep. -/
structure Fault.Heeds (Steps : Kernel → Kernel → Prop) (fault : Fault) (I J : Kernel → Prop) :
    Prop where
  stable : ∀ {k k' : Kernel}, I k → Steps k k' → I k'
  handles : ∀ {k : Kernel}, I k → ∀ virt : Word, (fault k virt).All (Touched k) J

theorem Fault.Answers.touched {fault : Fault} {I J : Kernel → Prop}
    (answers : fault.Answers I J) : fault.Heeds Touched I J :=
  ⟨fun inv touched => answers.stable inv touched.quiet, answers.handles⟩

/-- A computation that only accesses memory. -/
def Touches {α : Type} [HasState α] (J : Kernel → Prop) (k : Kernel) (flow : Flow Kernel α) : Prop :=
  flow.All (fun result => Touched k (HasState.state result)) J

variable {I J : Kernel → Prop} {fault : Fault}

/-- A step without memory accesses before a computation. -/
theorem Touches.after {α : Type} [HasState α] {k k' : Kernel} {flow : Flow Kernel α}
    (touched : Touched k k') (rest : Touches J k' flow) : Touches J k flow := by
  apply Flow.All.imp rest
  intro x touched'
  exact touched.trans touched'

theorem Touches.bind {α β : Type} [HasState α] [HasState β] (answers : fault.Heeds Touched I J)
    {k : Kernel} {flow : Flow Kernel α} {rest : α → Flow Kernel β} (inv : I k)
    (first : Touches J k flow)
    (second : ∀ x, I (HasState.state x) → Touches J (HasState.state x) (rest x)) :
    Touches J k (flow >>= rest) := by
  apply Flow.All.bind first
  intro x touched
  apply (second x (answers.stable inv touched)).imp
  intro y touched'
  exact touched.trans touched'

namespace Kernel

variable (answers : fault.Heeds Touched I J) {k : Kernel}

include answers

theorem touch_touches (inv : I k) (virt : Word) : Touches J k (k.touch fault virt) := by
  unfold touch
  split
  · split
    · exact Touched.refl k
    · apply Touches.bind answers inv (answers.handles inv virt)
      intro k₁ _
      split
      · exact Touched.refl k₁
      · trivial
  · trivial

theorem loadByte_touches (inv : I k) (virt : Word) : Touches J k (k.loadByte fault virt) := by
  apply Touches.bind answers inv (touch_touches answers inv virt)
  rintro ⟨k₁, frame⟩ _
  exact Touched.refl k₁

theorem storeByte_touches (inv : I k) (virt : Word) (byte : Byte) :
    Touches J k (k.storeByte fault virt byte) := by
  apply Touches.bind answers inv (touch_touches answers inv virt)
  rintro ⟨k₁, frame⟩ _
  exact Touched.setMachine k₁ _

theorem memcpy_touches (inv : I k) (s1 s2 : Word) (n : Nat) :
    Touches J k (k.memcpy fault s1 s2 n) := by
  induction n generalizing k s1 s2 with
  | zero => exact Touched.refl k
  | succ n ih =>
      apply Touches.bind answers inv (loadByte_touches answers inv s2)
      rintro ⟨k₁, byte⟩ inv₁
      apply Touches.bind answers inv₁ (storeByte_touches answers inv₁ s1 byte)
      intro k₂ inv₂
      exact ih inv₂ _ _

theorem memset_touches (inv : I k) (str : Word) (c : Byte) (n : Nat) :
    Touches J k (k.memset fault str c n) := by
  induction n generalizing k str with
  | zero => exact Touched.refl k
  | succ n ih =>
      apply Touches.bind answers inv (storeByte_touches answers inv str c)
      intro k₁ inv₁
      exact ih inv₁ _

theorem storeBytes_touches (inv : I k) (virt : Word) (bytes : List Byte) :
    Touches J k (k.storeBytes fault virt bytes) := by
  induction bytes generalizing k virt with
  | nil => exact Touched.refl k
  | cons byte bytes ih =>
      apply Touches.bind answers inv (storeByte_touches answers inv virt byte)
      intro k₁ inv₁
      exact ih inv₁ _

theorem loadLe_touches (inv : I k) (virt : Word) (n : Nat) :
    Touches J k (k.loadLe fault virt n) := by
  induction n generalizing k virt with
  | zero => exact Touched.refl k
  | succ n ih =>
      apply Touches.bind answers inv (loadByte_touches answers inv virt)
      rintro ⟨k₁, byte⟩ inv₁
      apply Touches.bind answers inv₁ (ih inv₁ _)
      rintro ⟨k₂, rest⟩ _
      exact Touched.refl k₂

theorem storeLe_touches (inv : I k) (virt value : Word) :
    Touches J k (k.storeLe fault virt value) :=
  storeBytes_touches answers inv virt _

theorem char_touches (inv : I k) (s : CString) (i : Nat) :
    Touches J k (k.char fault s i) := by
  cases s with
  | atAddr addr => exact loadByte_touches answers inv _
  | text chars =>
      unfold char
      dsimp only
      split
      · exact Touched.refl k
      · split
        · exact Touched.refl k
        · trivial

theorem chars_touches (inv : I k) (s : CString) (i rounds : Nat) :
    Touches J k (k.chars fault s i rounds) := by
  induction rounds generalizing k i with
  | zero => trivial
  | succ rounds ih =>
      apply Touches.bind answers inv (char_touches answers inv s i)
      rintro ⟨k₁, c⟩ inv₁
      dsimp only
      split
      · exact Touched.refl k₁
      · apply Touches.bind answers inv₁ (ih inv₁ _)
        rintro ⟨k₂, rest⟩ _
        exact Touched.refl k₂

theorem strlen_touches (inv : I k) (s : CString) : Touches J k (k.strlen fault s) := by
  apply Touches.bind answers inv (chars_touches answers inv s _ _)
  rintro ⟨k₁, text⟩ _
  exact Touched.refl k₁

theorem kstrcpyLoop_touches (inv : I k) (dest : Word) (src : CString) (i rounds : Nat) :
    Touches J k (k.kstrcpyLoop fault dest src i rounds) := by
  induction rounds generalizing k i with
  | zero => trivial
  | succ rounds ih =>
      apply Touches.bind answers inv (char_touches answers inv src i)
      rintro ⟨k₁, c⟩ inv₁
      apply Touches.bind answers inv₁ (storeByte_touches answers inv₁ _ c)
      intro k₂ inv₂
      split
      · exact Touched.refl k₂
      · exact ih inv₂ _

theorem kstrcpy_touches (inv : I k) (dest : Word) (src : CString) :
    Touches J k (k.kstrcpy fault dest src) :=
  kstrcpyLoop_touches answers inv dest src _ _

theorem kstrcmpLoop_touches (inv : I k) (cs ct : CString) (i rounds : Nat) :
    Touches J k (k.kstrcmpLoop fault cs ct i rounds) := by
  induction rounds generalizing k i with
  | zero => trivial
  | succ rounds ih =>
      apply Touches.bind answers inv (char_touches answers inv cs i)
      rintro ⟨k₁, c1⟩ inv₁
      apply Touches.bind answers inv₁ (char_touches answers inv₁ ct i)
      rintro ⟨k₂, c2⟩ inv₂
      dsimp only
      split
      · exact Touched.refl k₂
      · split
        · exact Touched.refl k₂
        · exact ih inv₂ _

theorem kstrcmp_touches (inv : I k) (cs ct : CString) :
    Touches J k (k.kstrcmp fault cs ct) :=
  kstrcmpLoop_touches answers inv cs ct _ _

end Kernel

end Sbrocks.Process
