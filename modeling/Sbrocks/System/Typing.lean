import Sbrocks.System.PipeQueue

/-!
# Readers of the keyboard

One reader of standard input is remembered at a time, and a completed line is copied
under its root.
-/

namespace Sbrocks.Process

open Sbrocks.Mmu Sbrocks.Radix

variable {fault : Fault} {k k' : Kernel}

/-! ## Reads and key presses -/

/-- A read of the keyboard that was put to sleep. -/
structure TypingRead where
  task : Word
  buf : Word
  count : Word

/-- The read is the one that the next line goes to. -/
structure Awaited (k : Kernel) (read : TypingRead) : Prop where
  flag : k.kb.flag = true
  waitingTask : k.kb.waitingTask = some read.task
  str : k.kb.str = read.buf
  count : k.kb.count = read.count

theorem Awaited.same {read : TypingRead} (awaited : Awaited k read) (same : k'.kb = k.kb) :
    Awaited k' read := by
  refine ⟨?_, ?_, ?_, ?_⟩
  · rw [same, awaited.flag]
  · rw [same, awaited.waitingTask]
  · rw [same, awaited.str]
  · rw [same, awaited.count]

/-- A key was pressed: which reads slept, and the states around it. -/
structure Press where
  sleeping : List TypingRead
  before : Kernel
  after : Kernel

/-- Only buffers of sleeping reads are written, in the address spaces of their tasks, and
only these tasks change their states. -/
structure Press.Proper (press : Press) : Prop where
  copied : ∀ place, press.after.m.byte place ≠ press.before.m.byte place →
    ∃ read ∈ press.sleeping, ∃ i < read.count.toNat,
      press.before.placeIn read.task (read.buf + BitVec.ofNat 64 i) = some place
  woken : ∀ t, (press.after.task t).state ≠ (press.before.task t).state →
    ∃ read ∈ press.sleeping, read.task = t

/-- What may be asked of the steps of a run, given the reads that sleep. -/
structure Typing.Conditions where
  reads : List TypingRead → Kernel → Word → Prop
  keys : List TypingRead → Kernel → Byte → Prop

/-- Tasks read the keyboard and kill each other, and keys are pressed: which reads sleep,
which presses there were, and the state reached. -/
inductive Typing (fault : Fault) (meets : Typing.Conditions) :
    List TypingRead → List Press → Kernel → Prop
  | start {k : Kernel} (quiet : k.kb.flag = false) : Typing fault meets [] [] k
  | read {k k' : Kernel} {sleeping : List TypingRead} {presses : List Press}
      {task buf nbytes : Word} (before : Typing fault meets sleeping presses k)
      (running : k.currentTask = some task) (stdin : k.isFilePipe task 0 = .next false)
      (direct : (k.task task).readRedirectionFd = 0)
      (called : Ends (k.systemRead fault 0 buf nbytes) k')
      (met : meets.reads sleeping k (ofInt (toInt nbytes))) :
      Typing fault meets (sleeping ++ [⟨task, buf, ofInt (toInt nbytes)⟩]) presses k'
  | key {k k' : Kernel} {sleeping : List TypingRead} {presses : List Press} {scancode : Byte}
      (before : Typing fault meets sleeping presses k)
      (pressed : Ends (k.kbHandler fault scancode) k') (met : meets.keys sleeping k scancode) :
      Typing fault meets
        (if k.completes scancode then sleeping.filter fun read => k.kb.waitingTask ≠ some read.task
         else sleeping) (presses ++ [⟨sleeping, k, k'⟩]) k'
  | kill {k k' : Kernel} {sleeping : List TypingRead} {presses : List Press} {pid t result : Word}
      (before : Typing fault meets sleeping presses k) (found : k.getTask pid = .next (some t))
      (killed : k.systemKill fault pid = .next (k', result)) :
      Typing fault meets (sleeping.filter fun read => read.task ≠ t) presses k'
  | other {k k' : Kernel} {sleeping : List TypingRead} {presses : List Press}
      (before : Typing fault meets sleeping presses k) (same : k'.kb = k.kb) :
      Typing fault meets sleeping presses k'

namespace Typing

/-- The buffer of the awaited read is mapped for its task. -/
def Ready (k : Kernel) : Prop :=
  ∃ roots t places, k.kb.waitingTask = some t ∧
    roots (k.m.writeCr3 (k.m.virtToPhy (k.task t).pml4e)).root ∧
    Span roots (k.m.writeCr3 (k.m.virtToPhy (k.task t).pml4e)) k.kb.str k.kb.count.toNat places

/-- No read goes to sleep while another one sleeps, each asks for more than the line holds,
and no line is completed but for a read that sleeps and whose buffer is mapped. -/
def alone : Conditions where
  reads sleeping k count := sleeping = [] ∧ k.kb.i < count.toNat
  keys sleeping k scancode := k.completes scancode = true → sleeping ≠ [] ∧ Ready k

end Typing

/-! ## What the handlers do -/

namespace Kernel

variable {frames : Kernel → Word → Regs} {depth : Nat} {scancode : Byte}

/-- A read of the keyboard gives up the processor. -/
theorem systemRead_asleep {task : Word} (buf nbytes : Word) (running : k.currentTask = some task)
    (stdin : k.isFilePipe task 0 = .next false) (direct : (k.task task).readRedirectionFd = 0) :
    ∃ asleep, asleep = ({
      (k.modTask task fun s => { s with state := .waiting }).setCurrentTask none with
      kb := { k.kb with flag := true, waitingTask := some task, str := buf,
                        count := ofInt (toInt nbytes) } } : Kernel) ∧
    k.systemRead fault 0 buf nbytes = (do
      let k' ← asleep.yield
      return (k', 0)) := by
  refine ⟨_, rfl, ?_⟩
  unfold systemRead
  rw [running, Flow.ofOption_some, Flow.next_bind, stdin, Flow.next_bind]
  dsimp only
  rw [if_neg Bool.false_ne_true, if_pos rfl, if_neg (not_not_intro direct)]
  rfl

/-- A read of the keyboard is remembered. -/
theorem systemRead_kb {task buf nbytes : Word} (running : k.currentTask = some task)
    (stdin : k.isFilePipe task 0 = .next false) (direct : (k.task task).readRedirectionFd = 0)
    (called : Ends (k.systemRead fault 0 buf nbytes) k') :
    k'.kb = { k.kb with flag := true, waitingTask := some task, str := buf,
                        count := ofInt (toInt nbytes) } := by
  obtain ⟨asleep, same, read⟩ := systemRead_asleep buf nbytes running stdin direct
  have kept : Keeps asleep.devices (k.systemRead fault 0 buf nbytes) := by
    rw [read]
    apply Keeps.bind (yield_keeps rfl)
    intro k₁ kept₁
    exact kept₁
  have final := Flow.All.ends (P := fun k => k.devices = asleep.devices) kept called
  have kb : k'.kb = asleep.kb := congrArg Devices.kb (final.elim id id)
  rw [kb, same]

theorem kbHandler_types (typing : types scancode = true) :
    k.kbHandler fault scancode = k.handlekey fault scancode := by
  simp only [types, Bool.and_eq_true, decide_eq_true_eq] at typing
  rcases typing with ⟨⟨⟨pressed, shift⟩, alt⟩, control⟩
  unfold kbHandler
  rw [if_neg (not_not_intro pressed), if_neg shift, if_neg alt, if_neg control]

variable (fault) in
theorem kbHandler_control (other : types scancode = false) : ∃ control, k.kbHandler fault scancode =
    .next { k with kb := { k.kb with curentControl := control } } := by
  unfold kbHandler
  by_cases released : scancode &&& 0x80 ≠ 0
  · exact ⟨k.kb.curentControl, if_pos released⟩
  · rw [if_neg released]
    by_cases shift : scancode = 42
    · exact ⟨.shiftKey, if_pos shift⟩
    · rw [if_neg shift]
      by_cases alt : scancode = 56
      · exact ⟨.altKey, if_pos alt⟩
      · rw [if_neg alt]
        by_cases control : scancode = 29
        · exact ⟨.controlKey, if_pos control⟩
        · have all : types scancode = true := by
            simp only [types, Bool.and_eq_true, decide_eq_true_eq]
            exact ⟨⟨⟨not_not.mp released, shift⟩, alt⟩, control⟩
          rw [other] at all
          cases all

theorem handlekey_eq (scancode : Byte) : k.handlekey fault scancode = (do
    let k ← (if k.kb.flag then k.editLine fault (k.charOf scancode) else .next k)
    return { k with kb := { k.kb with curentControl := .normalKey } }) :=
  rfl

variable (fault) in
/-- A character that completes no line. -/
theorem editLine_incomplete {c : Byte} (inside : c ≠ 0x0a)
    (short : c = 0x08 ∧ 0 < k.kb.i ∨ k.kb.i + 1 < k.kb.count.toNat) :
    ∃ kb, k.editLine fault c = .next { k with kb := kb } ∧ kb.flag = k.kb.flag ∧
      kb.waitingTask = k.kb.waitingTask ∧ kb.str = k.kb.str ∧ kb.count = k.kb.count ∧
      (k.kb.i < k.kb.count.toNat → kb.i < kb.count.toNat) := by
  unfold editLine
  rw [if_neg inside]
  by_cases back : c = 0x08 ∧ k.kb.i > 0
  · rw [if_pos back]
    exact ⟨_, rfl, rfl, rfl, rfl, rfl, fun room => Nat.lt_of_le_of_lt (Nat.sub_le _ _) room⟩
  · rw [if_neg back]
    have room := short.resolve_left back
    have longer : ¬ (k.putInLine c).kb.count.toNat ≤ (k.putInLine c).kb.i := by
      show ¬ k.kb.count.toNat ≤ k.kb.i + 1
      omega
    dsimp only
    rw [if_neg longer]
    exact ⟨_, rfl, rfl, rfl, rfl, rfl, fun _ => room⟩

variable (fault) in
/-- A key that completes no line changes the line at most. -/
theorem kbHandler_incomplete (incomplete : k.completes scancode = false) :
    ∃ kb, k.kbHandler fault scancode = .next { k with kb := kb } ∧ kb.flag = k.kb.flag ∧
      kb.waitingTask = k.kb.waitingTask ∧ kb.str = k.kb.str ∧ kb.count = k.kb.count ∧
      (k.kb.i < k.kb.count.toNat → kb.i < kb.count.toNat) := by
  cases typing : types scancode with
  | false =>
      rcases kbHandler_control fault (k := k) typing with ⟨control, handled⟩
      exact ⟨_, handled, rfl, rfl, rfl, rfl, id⟩
  | true =>
      rw [kbHandler_types typing, handlekey_eq]
      cases flag : k.kb.flag with
      | false => exact ⟨{ k.kb with curentControl := .normalKey }, rfl, flag, rfl, rfl, rfl, id⟩
      | true =>
          have incomplete' : k.charOf scancode ≠ 0x0a ∧
              (k.charOf scancode = 0x08 ∧ 0 < k.kb.i ∨ k.kb.i + 1 < k.kb.count.toNat) := by
            simp only [completes, typing, flag, Bool.true_and, Bool.or_eq_false_iff,
              Bool.and_eq_false_iff, Bool.not_eq_false', Bool.and_eq_true, decide_eq_true_eq,
              decide_eq_false_iff_not] at incomplete
            exact ⟨incomplete.1, incomplete.2.imp id Nat.lt_of_not_le⟩
          rcases editLine_incomplete fault incomplete'.1 incomplete'.2 with
            ⟨kb, edited, same, rest⟩
          rw [if_pos rfl, edited]
          exact ⟨{ kb with curentControl := .normalKey }, rfl, same.trans flag, rest⟩

/-- A line is copied under the root of the reader, and the reader is woken. -/
theorem deliverLine_eq {n : Nat} (ready : Typing.Ready k) (room : n ≤ k.kb.count.toNat) :
    ∃ k', k.deliverLine fault n = .next k' ∧ k'.kb.flag = false ∧
      (∀ place, k'.m.byte place ≠ k.m.byte place → ∃ t, k.kb.waitingTask = some t ∧
        ∃ i < k.kb.count.toNat, k.placeIn t (k.kb.str + BitVec.ofNat 64 i) = some place) ∧
      ∀ t, (k'.task t).state ≠ (k.task t).state → k.kb.waitingTask = some t := by
  rcases ready with ⟨roots, reader, places, waiting, loaded, span⟩
  obtain ⟨bytes, same⟩ : ∃ bytes, bytes = (List.range n).map k.kb.a := ⟨_, rfl⟩
  have length : bytes.length = n := by
    rw [same, List.length_map, List.length_range]
  let cr3 := k.m.virtToPhy (k.task reader).pml4e
  let k₁ : Kernel := ({ k with kb := { k.kb with flag := false } } : Kernel).writeCr3 cr3
  have target : Span roots k₁.m k.kb.str bytes.length places := span.take (length ▸ room)
  rcases storeBytes_eq fault target loaded with ⟨m', stored, wrote, _⟩
  let k₂ := (k₁.setMachine m').writeCr3 k.m.cr3
  let k₃ : Kernel := { k₂ with kb := { k₂.kb with i := 0, a := Function.update k₂.kb.a 0 0 } }
  refine ⟨k₃.modTask reader fun s => { s with state := .runnable }, ?_, rfl,
    fun place changed => ⟨reader, waiting, ?_⟩, fun t changed => ?_⟩
  · subst same
    refine (congrArg (· >>= _) (congrArg Flow.ofOption waiting)).trans ?_
    rw [Flow.ofOption_some, Flow.next_bind]
    refine (congrArg (· >>= _) stored).trans ?_
    rw [Flow.next_bind]
    exact congrArg (· >>= _) (congrArg Flow.ofOption waiting)
  · by_contra outside
    apply changed
    refine wrote.bytes place ?_
    rintro ⟨i, below, rfl⟩
    exact outside ⟨i, by omega, span.place i (by omega)⟩
  · by_contra other
    apply changed
    rw [modTask_task_of_ne k₃ (fun same => other (by rw [waiting, same])) _]
    rfl

variable (fault) in
/-- A key that completes a line copies it into the buffer and wakes the reader. -/
theorem kbHandler_complete (complete : k.completes scancode = true) (ready : Typing.Ready k)
    (room : k.kb.i < k.kb.count.toNat) :
    ∃ k', k.kbHandler fault scancode = .next k' ∧ k'.kb.flag = false ∧
      (∀ place, k'.m.byte place ≠ k.m.byte place → ∃ t, k.kb.waitingTask = some t ∧
        ∃ i < k.kb.count.toNat, k.placeIn t (k.kb.str + BitVec.ofNat 64 i) = some place) ∧
      ∀ t, (k'.task t).state ≠ (k.task t).state → k.kb.waitingTask = some t := by
  simp only [completes, Bool.and_eq_true, Bool.or_eq_true, Bool.not_eq_true', Bool.and_eq_false_iff,
    decide_eq_true_eq, decide_eq_false_iff_not] at complete
  rcases complete with ⟨⟨typing, flag⟩, line⟩
  have put : ∀ c n, n ≤ k.kb.count.toNat → ∃ k', (k.putInLine c).deliverLine fault n = .next k' ∧
      k'.kb.flag = false ∧
      (∀ place, k'.m.byte place ≠ k.m.byte place → ∃ t, k.kb.waitingTask = some t ∧
        ∃ i < k.kb.count.toNat, k.placeIn t (k.kb.str + BitVec.ofNat 64 i) = some place) ∧
      ∀ t, (k'.task t).state ≠ (k.task t).state → k.kb.waitingTask = some t :=
    fun c n bound => deliverLine_eq (k := k.putInLine c) ready bound
  have edited : ∃ k', k.editLine fault (k.charOf scancode) = .next k' ∧ k'.kb.flag = false ∧
      (∀ place, k'.m.byte place ≠ k.m.byte place → ∃ t, k.kb.waitingTask = some t ∧
        ∃ i < k.kb.count.toNat, k.placeIn t (k.kb.str + BitVec.ofNat 64 i) = some place) ∧
      ∀ t, (k'.task t).state ≠ (k.task t).state → k.kb.waitingTask = some t := by
    unfold editLine
    by_cases newline : k.charOf scancode = 0x0a
    · rw [if_pos newline]
      exact put 0x0a _ room
    · rw [if_neg newline]
      rcases line.resolve_left newline with ⟨noBack, full⟩
      rw [if_neg fun back => noBack.elim (· back.1) fun none => none back.2]
      dsimp only
      have full' : (k.putInLine (k.charOf scancode)).kb.count.toNat ≤
          (k.putInLine (k.charOf scancode)).kb.i := full
      rw [if_pos full']
      exact put _ 1 (by omega)
  rcases edited with ⟨k₁, edited, rest⟩
  rw [kbHandler_types typing, handlekey_eq, if_pos flag, edited]
  exact ⟨_, rfl, rest⟩

end Kernel

/-! ## Readers that sleep alone -/

namespace Typing

variable {frames : Kernel → Word → Regs} {depth : Nat} {sleeping : List TypingRead}
  {presses : List Press}

/-- The flat machine without a free frame. -/
def fullMachine : Machine :=
  { flatMachine with phy := ⟨fun _ => BitVec.allOnes 64, fun _ _ => 0, []⟩ }

/-- A task runs, and another one is ready. -/
def twoTypists : Kernel :=
  { Kernel.initial fullMachine 0x100 with
    task := fun t =>
      if t = 0x1000 then
        { (default : TaskStruct) with pid := 1, state := .running, pml4e := 0x1000 }
      else
        { (default : TaskStruct) with
          pid := 2, state := .runnable, next := some 0x1000, pml4e := 0x1000 }
    taskStructs := [0x1000, 0x2000]
    taskList := some 0x2000
    currentTask := some 0x1000 }

/-- A task reads two bytes, and the state reached passes a test. -/
def reads (k : Kernel) (task : Word) (test : Kernel → Bool) : Bool :=
  k.currentTask = some task && (k.isFilePipe task 0).returns (fun pipe => !pipe) &&
    (k.task task).readRedirectionFd = 0 &&
    Flow.checks (k.systemRead (Kernel.kernelFault noFrames 0) 0 0x8000 2) test

/-- The state after a task read two bytes. -/
def afterRead (k : Kernel) : Kernel :=
  Flow.reached (k.systemRead (Kernel.kernelFault noFrames 0) 0 0x8000 2) k

theorem reads_read {meets : Conditions} {task : Word} {test : Kernel → Bool}
    (typing : Typing (Kernel.kernelFault noFrames 0) meets sleeping presses k)
    (met : meets.reads sleeping k 2) (checked : reads k task test = true) :
    Typing (Kernel.kernelFault noFrames 0) meets (sleeping ++ [⟨task, 0x8000, 2⟩]) presses
      (afterRead k) ∧ test (afterRead k) = true := by
  simp only [reads, Bool.and_eq_true, decide_eq_true_eq] at checked
  rcases checked with ⟨⟨⟨running, stdin⟩, direct⟩, called⟩
  rcases Flow.returns_next stdin with ⟨pipe, stdin, notPipe⟩
  rw [(Bool.not_eq_true' pipe).mp notPipe] at stdin
  rcases Flow.checks_reached called k with ⟨ends, tested⟩
  exact ⟨typing.read running stdin direct ends met, tested⟩

theorem twoTypists_checks :
    reads twoTypists 0x1000 (fun k => reads k 0x2000 fun _ => true) = true := by
  decide_cbv

/-- The tables of the flat machine are its first four frames. -/
theorem flatMachine_isTable {frame : Word}
    (isTable : IsTable entryFrame flatMachine.mem (fun root => root = 1) 4 frame) : frame ≠ 5 := by
  rcases isTable with ⟨root, path, rfl, short, reached⟩
  have first : ∀ i, entryFrame (flatMachine.mem 1 i) = some 2 := by
    intro i
    rw [show flatMachine.mem 1 i = 0x2007 from rfl]
    decide
  have second : ∀ i, entryFrame (flatMachine.mem 2 i) = some 3 := by
    intro i
    rw [show flatMachine.mem 2 i = 0x3007 from rfl]
    decide
  have third : ∀ i, entryFrame (flatMachine.mem 3 i) = some 4 := by
    intro i
    rw [show flatMachine.mem 3 i = 0x4007 from rfl]
    decide
  rintro rfl
  match path, short, reached with
  | [], _, reached => cases reached
  | [_], _, reached =>
      rw [walk_cons, first] at reached
      cases reached
  | [_, _], _, reached =>
      rw [walk_cons, first, Option.bind_some, walk_cons, second] at reached
      cases reached
  | [_, _, _], _, reached =>
      rw [walk_cons, first, Option.bind_some, walk_cons, second, Option.bind_some, walk_cons,
        third] at reached
      cases reached

/-- The first reader's buffer is mapped. -/
theorem twoTypists_ready : Ready (afterRead twoTypists) := by
  refine ⟨fun root => root = 1, 0x1000, fun i => (5, BitVec.ofNat 12 i), by decide, by decide, ?_⟩
  constructor
  · intro i below
    change i < 2 at below
    interval_cases i <;> decide
  · intro i below
    change i < 2 at below
    interval_cases i <;> decide
  · intro i _ isTable
    exact flatMachine_isTable isTable rfl
  · intro i _
    show (afterRead twoTypists).m.phy.inUse 5 = true
    decide

/-- Nothing is asked of a run. -/
def unconditioned : Conditions where
  reads _ _ _ := True
  keys _ _ _ := True

end Typing

end Sbrocks.Process
