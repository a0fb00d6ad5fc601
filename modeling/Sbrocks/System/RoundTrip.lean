import Sbrocks.Libc.Decimal
import Sbrocks.Process.LineEditing
import Sbrocks.System.Typing

/-!
# Printing, typing and reading a number

A read of the keyboard gives up the processor, and the task goes on with the frame
that it had saved: the register that it takes for a count still holds the number of
the system call, which is zero.
-/

namespace Sbrocks.Process

open Sbrocks.Libc

variable {fault : Fault}

/-! ## A read of the keyboard -/

/-- A task reads from the keyboard while nothing is pending, waits while characters are typed, and
is dispatched: what was handed over first, and the register that the call returns. -/
inductive LineRead (fault : Fault) : List Byte → Answer → Prop
  | read {k₀ k₁ k₂ k₃ : Kernel} {t : Word} {r r₂ r₃ : Regs} {typed bytes : List Byte}
      (running : k₀.currentTask = some t) (stdin : k₀.isFilePipe t 0 = .next false)
      (direct : (k₀.task t).readRedirectionFd = 0) (idle : k₀.kb.i = 0)
      (number : r.rax = 0) (descriptor : r.rbx = 0) (room : r.rdx = BitVec.ofNat 64 maxSize)
      (called : k₀.syscallHandler fault r = .left k₁)
      (keys : LineTyped fault k₁ typed (some bytes)) (waits : Kernel.Waits t k₁ k₂)
      (tick : k₂.timerHandler r₂ = .next (k₃, r₃)) (dispatched : k₃.currentTask = some t) :
      LineRead fault typed ⟨bytes, r₃.rax⟩

theorem Kernel.Waits.starts_off {k k' : Kernel} {t : Word} (waits : Kernel.Waits t k k') :
    k.currentTask ≠ some t := by
  induction waits with
  | start off => exact off
  | tick _ _ _ ih => exact ih
  | other _ _ _ ih => exact ih

namespace Kernel

/-- What a read of the keyboard leaves when the processor goes to another task. -/
theorem syscallHandler_read {k k' : Kernel} {t : Word} {r : Regs} (running : k.currentTask = some t)
    (stdin : k.isFilePipe t 0 = .next false) (direct : (k.task t).readRedirectionFd = 0)
    (number : r.rax = 0) (descriptor : r.rbx = 0) (called : k.syscallHandler fault r = .left k')
    (off : k'.currentTask ≠ some t) :
    k'.kb = { k.kb with flag := true, waitingTask := some t, str := r.rcx,
                        count := ofInt (toInt r.rdx) } ∧ (k'.task t).r = r := by
  have running' : (k.saveFrame r).currentTask = some t := by rw [saveFrame_currentTask, running]
  have stdin' : (k.saveFrame r).isFilePipe t 0 = .next false := by
    rw [saveFrame_isFilePipe, stdin]
  have direct' : ((k.saveFrame r).task t).readRedirectionFd = 0 := by
    rw [saveFrame, running]
    exact (k.modTask_task_field TaskStruct.readRedirectionFd t t rfl).trans direct
  have frame := saveFrame_r_self k r running
  have kb : (k.saveFrame r).kb = k.kb := by
    unfold saveFrame
    split <;> rfl
  have read : (k.saveFrame r).systemRead fault 0 r.rcx r.rdx = .left k' := by
    unfold syscallHandler at called
    rw [running, Flow.ofOption_some, Flow.next_bind] at called
    dsimp only at called
    rw [frame, number, descriptor] at called
    cases result : (k.saveFrame r).systemRead fault 0 r.rcx r.rdx with
    | next value =>
        have handled : (k.saveFrame r).switchHandler fault 0 0 r.rcx r.rdx = .next value := result
        rw [handled] at called
        cases called
    | left state =>
        have handled : (k.saveFrame r).switchHandler fault 0 0 r.rcx r.rdx = .left state := result
        rw [handled] at called
        cases called
        rfl
    | stuck =>
        have handled : (k.saveFrame r).switchHandler fault 0 0 r.rcx r.rdx = .stuck := result
        rw [handled] at called
        cases called
  refine ⟨?_, ?_⟩
  · have ends : Ends ((k.saveFrame r).systemRead fault 0 r.rcx r.rdx) k' := by
      rw [read]
      rfl
    rw [systemRead_kb running' stdin' direct' ends, kb]
  · obtain ⟨asleep, same, yields⟩ := systemRead_asleep r.rcx r.rdx running' stdin' direct'
    have idle : asleep.currentTask ≠ some t := by simp [same, setCurrentTask]
    have kept : (asleep.task t).r = r := by
      rw [same]
      change (((k.saveFrame r).modTask t fun s => { s with state := .waiting }).task t).r = r
      rw [modTask_task_field _ TaskStruct.r t t rfl, frame]
    rw [yields] at read
    unfold yield at read
    cases ticked : asleep.timerHandler default with
    | next result =>
        rcases (timerHandler_ticked _ _).of_next ticked with ⟨mid, tick⟩
        obtain ⟨k₁, r₁⟩ := result
        rw [ticked, Flow.next_bind] at read
        dsimp only at read
        have state : k₁ = k' := by
          cases current : k₁.currentTask with
          | none =>
              rw [current] at read
              cases read
          | some task =>
              rw [current] at read
              cases read
              rfl
        subst state
        rw [← kept]
        exact tick.waited idle off
    | left state =>
        have never := timerHandler_ticked asleep default
        rw [ticked] at never
        exact absurd never id
    | stuck =>
        rw [ticked] at read
        cases read

end Kernel

/-- A line without a newline and a backspace is handed over as it is typed. -/
theorem edited_line {count : Nat} {pending line : List Byte}
    (plain : ∀ c ∈ line, c ≠ 0x0a ∧ c ≠ 0x08) (fits : pending.length + line.length < count) :
    edited count pending (line ++ [0x0a]) = some (pending ++ line ++ [0x0a]) ∧
      Intact count pending.length false (line ++ [0x0a]) := by
  induction line generalizing pending with
  | nil =>
      refine ⟨?_, ?_⟩
      · rw [List.nil_append, edited, if_neg (by decide), if_pos (.inl rfl), List.append_nil]
      · rw [List.nil_append, Intact, if_pos rfl]
  | cons c line ih =>
      have first := plain c List.mem_cons_self
      rw [List.length_cons] at fits
      have longer : (pending ++ [c]).length = pending.length + 1 := by simp
      obtain ⟨handed, intact⟩ := ih (fun c member => plain c (List.mem_cons_of_mem _ member))
        (show (pending ++ [c]).length + line.length < count by omega)
      refine ⟨?_, ?_⟩
      · rw [List.cons_append, edited, if_neg first.2,
          if_neg (by rintro (newline | full); exacts [first.1 newline, by omega]), handed]
        simp
      · rw [List.cons_append, Intact, if_neg first.1, if_neg first.2,
          if_neg (by simp; omega), ← longer]
        exact intact

/-- A plain line reaches the reader whole, and the call returns zero. -/
theorem LineRead.answer {line : List Byte} {answer : Answer}
    (read : LineRead fault (line ++ [0x0a]) answer) (plain : ∀ c ∈ line, c ≠ 0x0a ∧ c ≠ 0x08)
    (fits : line.length < maxSize) : answer = ⟨line ++ [0x0a], 0⟩ := by
  generalize typed_eq : line ++ [0x0a] = typed at read
  cases read with
  | @read k₀ k₁ k₂ k₃ t r r₂ r₃ typed bytes running stdin direct idle number descriptor room called
      keys waits tick dispatched =>
      have blocked := Kernel.syscallHandler_read running stdin direct number descriptor called
        waits.starts_off
      have count : k₁.kb.count.toNat = maxSize := by
        rw [blocked.1, room]
        rfl
      have pending : k₁.kb.i = 0 := by rw [blocked.1, idle]
      have reading : AwaitsLine k₁ :=
        ⟨by rw [blocked.1], by rw [pending, count]; decide, by rw [count]; decide⟩
      have nothing : k₁.pendingLine = shifted false [] := by
        rw [Kernel.pendingLine, pending]
        rfl
      obtain ⟨handed, intact⟩ := edited_line plain
        (show ([] : List Byte).length + line.length < maxSize by simpa)
      have whole := (keys.intact_iff false [] reading nothing).mpr (by
        rw [count, ← typed_eq]
        exact intact)
      rw [count, ← typed_eq, handed] at whole
      have result : r₃.rax = 0 := by
        rcases (Kernel.timerHandler_ticked _ _).of_next tick with ⟨mid, ticked⟩
        have frame : r₃ = Kernel.startFrame (k₂.task t).r := ticked.dispatched waits.off dispatched
        rw [frame, waits.frame, blocked.2]
        exact number
      rw [result, Option.some.inj whole, List.nil_append, typed_eq]

/-! ## The round trip -/

/-- The text of a number is a plain line. -/
theorem decimalText_plain (n : CInt) :
    ∀ c ∈ decimalText n, c ≠ 0 ∧ c ≠ 0x0a ∧ c ≠ 0x08 := by
  have digit : ∀ d < 10, digitText false d ≠ 0 ∧ digitText false d ≠ 0x0a ∧
      digitText false d ≠ 0x08 := by decide
  intro c member
  rcases List.mem_append.mp member with sign | rest
  · split at sign
    · rw [List.mem_singleton.mp sign]
      decide
    · exact absurd sign List.not_mem_nil
  · rcases List.mem_map.mp rest with ⟨d, inside, rfl⟩
    exact digit d (canonical_lt _ d inside)

theorem decimalText_length (n : CInt) : (decimalText n).length ≤ 12 := by
  have low := BitVec.le_toInt n
  have high := BitVec.toInt_lt (x := n)
  have digits : (canonical 10 n.toInt.natAbs).length ≤ 10 := by
    unfold canonical
    split
    · decide
    · rw [List.length_reverse, Nat.digits_length_le_iff (by decide)]
      omega
  unfold decimalText
  rw [List.length_append, List.length_map]
  split
  · rw [List.length_singleton]
    omega
  · rw [List.length_nil]
    omega

/-- What `scanf` stores of a number that was printed and typed. -/
theorem scanf_printed {n : CInt} {args : Arguments} (given : (args.word 0).setWidth 32 = n)
    {s : Scan} (printed : vsprintf decimalFormat args = some s) {answer : Answer}
    (read : LineRead fault (s.str ++ [0x0a]) answer) {reader : Reader} {rest : List Answer}
    (answers : reader.answers = answer :: rest) (data : Word) (dest : Nat → Word) :
    ∃ reader', reader.scanf data dest decimalFormat = some (reader', -1) ∧
      Bytes.load reader'.mem (dest 0) 8 = (ofInt (lineValue n)).toNat := by
  rw [vsprintf_decimal args given, Option.some.injEq] at printed
  subst printed
  replace read : LineRead fault (decimalText n ++ [0x0a]) answer := read
  have plain := decimalText_plain n
  have short := decimalText_length n
  have fits : (decimalText n).length + 1 < maxSize := by
    unfold maxSize
    omega
  rw [read.answer (fun c member => (plain c member).2) (by omega)] at answers
  have string : ∀ c ∈ decimalText n ++ [0x0a], c ≠ 0 := by
    intro c member
    rcases List.mem_append.mp member with inside | last
    · exact (plain c inside).1
    · rw [List.mem_singleton.mp last]
      decide
  obtain ⟨reader', scanned, mem, stored⟩ := scanf_decimal answers string
    (by rw [List.length_append]; exact fits) data dest
  refine ⟨reader', scanned, ?_⟩
  rw [stored, Bytes.load_store (by decide) (BitVec.isLt _)]
  rfl

/-- A number that `%d` prints and that is typed as a line is stored by `%d` only when it is the one
number that the newline, taken for a digit, leaves alone. -/
theorem decimal_scanned_iff {n : CInt} {args : Arguments} (given : (args.word 0).setWidth 32 = n)
    {s : Scan} (printed : vsprintf decimalFormat args = some s) {answer : Answer}
    (read : LineRead fault (s.str ++ [0x0a]) answer) {reader : Reader} {rest : List Answer}
    (answers : reader.answers = answer :: rest) (data : Word) (dest : Nat → Word) :
    (∃ reader' size, reader.scanf data dest decimalFormat = some (reader', size) ∧
      Bytes.load reader'.mem (dest 0) 8 = (ofInt n).toNat) ↔ n = 1908874358 := by
  obtain ⟨stored, scanned, loaded⟩ := scanf_printed given printed read answers data dest
  have wide : ∀ m : CInt, (ofInt m).toNat = (ofInt n).toNat ↔ m = n := by
    intro m
    rw [BitVec.toNat_inj, ← BitVec.toInt_inj, ofInt, ofInt,
      BitVec.toInt_signExtend_of_le (by decide), BitVec.toInt_signExtend_of_le (by decide),
      BitVec.toInt_inj]
  rw [← lineValue_eq_iff]
  constructor
  · rintro ⟨reader', size, again, same⟩
    rw [scanned] at again
    cases again
    rw [loaded] at same
    exact (wide _).mp same
  · intro same
    exact ⟨stored, -1, scanned, by rw [loaded, same]⟩

/-- The frame of a read from standard input. -/
def readFrame : Regs :=
  { (default : Regs) with rax := 0, rbx := 0, rcx := 0x8000, rdx := BitVec.ofNat 64 maxSize,
                          cs := 0x1b }

/-- Two tasks, the first of which reads and sleeps. -/
def firstSleeps : Kernel :=
  match Typing.twoTypists.syscallHandler (fun k _ => .left k) readFrame with
  | .left k => k
  | _ => Typing.twoTypists

/-- The first task is awake again. -/
def firstAwake : Kernel := firstSleeps.modTask 0x1000 fun s => { s with state := .runnable }

/-- The line `5` is typed for the first of two tasks. -/
theorem lineRead_five : ∃ answer, LineRead (fun k _ => .left k) [0x35, 0x0a] answer := by
  have called : Typing.twoTypists.syscallHandler (fun k _ => .left k) readFrame = .left firstSleeps :=
    rfl
  have keys : LineTyped (fun k _ => .left k) firstSleeps [0x35, 0x0a] (some [0x35, 0x0a]) :=
    .key 0x06 rfl rfl (.line 0x1c rfl)
  have waits : Kernel.Waits 0x1000 firstSleeps firstAwake :=
    .other (.start (by decide)) rfl (.inl rfl)
  obtain ⟨result, tick, dispatched⟩ : ∃ result, firstAwake.timerHandler default = .next result ∧
      result.1.currentTask = some 0x1000 := ⟨_, rfl, rfl⟩
  exact ⟨_, .read rfl rfl rfl rfl rfl rfl rfl called keys waits tick dispatched⟩

/-- Arguments with one number. -/
def oneArgument (value : Word) : Arguments := ⟨fun _ => value, fun _ => []⟩

/-- A program that reads once. -/
def oneRead (answer : Answer) : Reader := ⟨fun _ => 0, [answer]⟩

theorem decimal_scanned_iff_five : ∃ answer,
    ((∃ reader' size, (oneRead answer).scanf 0x600000 (fun _ => 0x500000) decimalFormat =
        some (reader', size) ∧ Bytes.load reader'.mem 0x500000 8 = (ofInt 5).toNat) ↔
      (5 : CInt) = 1908874358) := by
  obtain ⟨answer, read⟩ := lineRead_five
  have printed := vsprintf_decimal (oneArgument 5) (n := 5) rfl
  exact ⟨answer, decimal_scanned_iff rfl printed read rfl 0x600000 fun _ => 0x500000⟩

/-- The number five is printed, typed and read as twelve. -/
theorem decimal_lost_five : ¬ ∀ (fault : Fault) (n : CInt) (args : Arguments) (s : Scan)
    (answer : Answer) (reader : Reader) (rest : List Answer) (data : Word) (dest : Nat → Word),
    (args.word 0).setWidth 32 = n → vsprintf decimalFormat args = some s →
    LineRead fault (s.str ++ [0x0a]) answer → reader.answers = answer :: rest →
    ∃ reader' size, reader.scanf data dest decimalFormat = some (reader', size) ∧
      Bytes.load reader'.mem (dest 0) 8 = (ofInt n).toNat := by
  intro kept
  obtain ⟨answer, read⟩ := lineRead_five
  have printed := vsprintf_decimal (oneArgument 5) (n := 5) rfl
  obtain ⟨reader', size, scanned, same⟩ :=
    kept _ _ _ _ answer (oneRead answer) [] 0x600000 (fun _ => 0x500000) rfl printed read rfl
  obtain ⟨stored, again, loaded⟩ :=
    scanf_printed rfl printed read (rfl : (oneRead answer).answers = [answer]) 0x600000
      fun _ => 0x500000
  rw [again] at scanned
  cases scanned
  rw [loaded] at same
  exact absurd same (by decide)

end Sbrocks.Process
