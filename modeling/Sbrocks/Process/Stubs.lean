import Mathlib.Logic.Function.Iterate
import Sbrocks.Process.Task

/-!
# The interrupt stubs

The processor pushes its frame, a stub pushes the registers, and a handler sees
both as a `struct regs`.  The stubs take two words more from the stack than the
registers; whether two are there depends on the vector.
-/

namespace Sbrocks.Process.Stubs

/-! ## The machine -/

/-- The general registers, without the stack pointer. -/
inductive Gpr where
  | rax | rbx | rcx | rdx | rsi | rdi | rbp
  | r8 | r9 | r10 | r11 | r12 | r13 | r14 | r15
deriving DecidableEq

/-- The segment registers that are saved. -/
inductive Sreg where
  | ds | es | fs | gs
deriving DecidableEq

/-- A stack of words.  Its pointer moves by whole words. -/
structure Stack where
  mem : Word → Word
  rsp : Word

/-- The state of the processor. -/
structure Machine where
  gpr : Gpr → Word
  sreg : Sreg → BitVec 16
  stack : Stack
  interrupts : Bool

namespace Stack

def push (s : Stack) (value : Word) : Stack :=
  { mem := Function.update s.mem (s.rsp - 8) value, rsp := s.rsp - 8 }

def top (s : Stack) : Word := s.mem s.rsp

def pop (s : Stack) : Stack := { s with rsp := s.rsp + 8 }

/-- The words are pushed in their order. -/
def pushAll (s : Stack) (values : List Word) : Stack := values.foldl push s

/-- The words on top of a stack, the last pushed first. -/
def Shows (s : Stack) (words : List Word) : Prop :=
  ∀ i (inside : i < words.length), s.mem (s.rsp + BitVec.ofNat 64 (8 * i)) = words[i]

end Stack

/-- The instructions of the stubs, but for calls and returns. -/
inductive Instr where
  | cli
  | sti
  /-- `pushq $value` -/
  | pushImm (value : Word)
  /-- `pushq %r` -/
  | pushReg (r : Gpr)
  /-- `popq %r` -/
  | popReg (r : Gpr)
  /-- `movq %s, %rdx` -/
  | readSreg (s : Sreg)
  /-- `movq %rdx, %s` -/
  | writeSreg (s : Sreg)
  /-- `movq %rsp, %rdi` -/
  | movRsp
  /-- `add $value, %rsp` -/
  | addRsp (value : Word)

/-- What an instruction does. -/
def Instr.exec : Instr → Machine → Machine
  | cli, m => { m with interrupts := false }
  | sti, m => { m with interrupts := true }
  | pushImm value, m => { m with stack := m.stack.push value }
  | pushReg r, m => { m with stack := m.stack.push (m.gpr r) }
  | popReg r, m =>
      { m with gpr := Function.update m.gpr r m.stack.top, stack := m.stack.pop }
  | readSreg s, m => { m with gpr := Function.update m.gpr .rdx ((m.sreg s).setWidth 64) }
  | writeSreg s, m => { m with sreg := Function.update m.sreg s ((m.gpr .rdx).setWidth 16) }
  | movRsp, m => { m with gpr := Function.update m.gpr .rdi m.stack.rsp }
  | addRsp value, m => { m with stack := { m.stack with rsp := m.stack.rsp + value } }

/-- One instruction after the other. -/
def run (code : List Instr) (m : Machine) : Machine := code.foldl (fun m instr => instr.exec m) m

open Instr

/-- `PUSHA`. -/
def pusha : List Instr :=
  [pushReg .rdi, pushReg .rax, pushReg .rbx, pushReg .rcx, pushReg .rdx, pushReg .rbp,
    pushReg .rsi, pushReg .r8, pushReg .r9, pushReg .r10, pushReg .r11, pushReg .r12,
    pushReg .r13, pushReg .r14, pushReg .r15, readSreg .ds, pushReg .rdx, readSreg .es,
    pushReg .rdx, readSreg .fs, pushReg .rdx, readSreg .gs, pushReg .rdx]

/-- `POPA`. -/
def popa : List Instr :=
  [popReg .rdx, writeSreg .gs, popReg .rdx, writeSreg .fs, popReg .rdx, writeSreg .es,
    popReg .rdx, writeSreg .ds, popReg .r15, popReg .r14, popReg .r13, popReg .r12,
    popReg .r11, popReg .r10, popReg .r9, popReg .r8, popReg .rsi, popReg .rbp, popReg .rdx,
    popReg .rcx, popReg .rbx, popReg .rax, popReg .rdi]

/-! ## The stubs -/

/-- A stub: the words it pushes before the registers, and whether it passes the stack pointer
to the handler and takes two words off after the registers.  Its code ends with `iretq`. -/
structure Stub where
  pushes : List Word
  passes : Bool
  drops : Bool

/-- The code before the call of the handler. -/
def Stub.before (stub : Stub) : List Instr :=
  cli :: stub.pushes.map pushImm ++ pusha ++ if stub.passes then [movRsp] else []

/-- The code behind the call, up to `iretq`. -/
def Stub.after (stub : Stub) : List Instr :=
  popa ++ (if stub.drops then [addRsp 0x10] else []) ++ [sti]

/-- A stub that pushes the number of its vector. -/
def isr (number : Word) : Stub := { pushes := [number], passes := true, drops := true }

def isr0 : Stub := isr 0
def isr1 : Stub := isr 1
def isr2 : Stub := isr 2
def isr3 : Stub := isr 3
def isr4 : Stub := isr 4
def isr5 : Stub := isr 5
def isr6 : Stub := isr 6
def isr7 : Stub := isr 7
def isr8 : Stub := isr 8
def isr9 : Stub := isr 9
def isr10 : Stub := isr 10
def isr11 : Stub := isr 11
def isr12 : Stub := isr 12
def isr13 : Stub := isr 13
def isr14 : Stub := isr 14
def isr15 : Stub := isr 15
def isr16 : Stub := isr 16
def isr17 : Stub := isr 17
def isr18 : Stub := isr 18
def isr19 : Stub := isr 19
def isr20 : Stub := isr 20
def isr21 : Stub := isr 21
def isr22 : Stub := isr 22
def isr23 : Stub := isr 23
def isr24 : Stub := isr 24
def isr25 : Stub := isr 25
def isr26 : Stub := isr 26
def isr27 : Stub := isr 27
def isr28 : Stub := isr 28
def isr29 : Stub := isr 29
def isr30 : Stub := isr 30
def isr31 : Stub := isr 31
def isr128 : Stub := { pushes := [80, 80], passes := true, drops := true }
def irq0 : Stub := { pushes := [0, 32], passes := true, drops := true }
def irq1 : Stub := { pushes := [], passes := false, drops := false }

/-- The vectors and the stubs of `idt_install`. -/
def idtInstall : List (Nat × Stub) :=
  [(0, isr0), (1, isr1), (2, isr2), (3, isr3), (4, isr4), (5, isr5), (6, isr6), (7, isr7),
    (8, isr8), (9, isr9), (10, isr10), (11, isr11), (12, isr12), (13, isr13), (14, isr14),
    (15, isr15), (16, isr16), (17, isr17), (18, isr18), (19, isr19), (20, isr20), (21, isr21),
    (22, isr22), (23, isr23), (24, isr24), (25, isr25), (26, isr26), (27, isr27), (28, isr28),
    (29, isr29), (30, isr30), (31, isr31), (32, irq0), (0x80, isr128), (33, irq1)]

/-! ## Interrupts -/

/-- What the processor pushes of the state it leaves. -/
structure Frame where
  rip : Word
  cs : Word
  rflag : Word
  rsp : Word
  ss : Word

/-- The vectors for which the processor pushes an error code. -/
def HasErrorCode (vector : Nat) : Prop := vector ∈ [8, 10, 11, 12, 13, 14, 17]

instance (vector : Nat) : Decidable (HasErrorCode vector) := by unfold HasErrorCode; infer_instance

/-- The error code that the processor pushes, if it pushes one. -/
def errorWords (vector : Nat) (error : Word) : List Word :=
  if HasErrorCode vector then [error] else []

/-- The processor enters a stub. -/
def interrupt (m : Machine) (vector : Nat) (frame : Frame) (error : Word) : Machine :=
  let words := [frame.ss, frame.rsp, frame.rflag, frame.cs, frame.rip] ++ errorWords vector error
  { m with stack := m.stack.pushAll words }

/-- Where the processor pushed `rip`. -/
def ripSlot (m : Machine) : Word := m.stack.rsp - 40

/-- The registers as the stubs save them, the last pushed first. -/
def saved (m : Machine) : List Word :=
  [(m.sreg .gs).setWidth 64, (m.sreg .fs).setWidth 64, (m.sreg .es).setWidth 64,
    (m.sreg .ds).setWidth 64, m.gpr .r15, m.gpr .r14, m.gpr .r13, m.gpr .r12, m.gpr .r11,
    m.gpr .r10, m.gpr .r9, m.gpr .r8, m.gpr .rsi, m.gpr .rbp, m.gpr .rdx, m.gpr .rcx,
    m.gpr .rbx, m.gpr .rax, m.gpr .rdi]

/-- The `struct regs` at an address. -/
def loadRegs (mem : Word → Word) (addr : Word) : Regs :=
  let word := fun i => mem (addr + BitVec.ofNat 64 (8 * i))
  { gs := word 0, fs := word 1, es := word 2, ds := word 3, r15 := word 4, r14 := word 5
    r13 := word 6, r12 := word 7, r11 := word 8, r10 := word 9, r9 := word 10, r8 := word 11
    rsi := word 12, rbp := word 13, rdx := word 14, rcx := word 15, rbx := word 16
    rax := word 17, rdi := word 18, intNo := word 19, errCode := word 20, rip := word 21
    cs := word 22, rflag := word 23, rsp := word 24, ss := word 25 }

/-- The `struct regs` of what was interrupted. -/
def pushedRegs (m : Machine) (frame : Frame) (intNo errCode : Word) : Regs :=
  { gs := (m.sreg .gs).setWidth 64, fs := (m.sreg .fs).setWidth 64
    es := (m.sreg .es).setWidth 64, ds := (m.sreg .ds).setWidth 64, r15 := m.gpr .r15
    r14 := m.gpr .r14, r13 := m.gpr .r13, r12 := m.gpr .r12, r11 := m.gpr .r11
    r10 := m.gpr .r10, r9 := m.gpr .r9, r8 := m.gpr .r8, rsi := m.gpr .rsi, rbp := m.gpr .rbp
    rdx := m.gpr .rdx, rcx := m.gpr .rcx, rbx := m.gpr .rbx, rax := m.gpr .rax
    rdi := m.gpr .rdi, intNo := intNo, errCode := errCode, rip := frame.rip, cs := frame.cs
    rflag := frame.rflag, rsp := frame.rsp, ss := frame.ss }

/-- A handler returned without a change to the saved registers. -/
structure Kept (called returned : Stack) : Prop where
  rsp : returned.rsp = called.rsp
  slots : ∀ i < 19, returned.mem (called.rsp + BitVec.ofNat 64 (8 * i)) =
    called.mem (called.rsp + BitVec.ofNat 64 (8 * i))

/-- The processor after the code before the call. -/
def called (stub : Stub) (vector : Nat) (m : Machine) (frame : Frame) (error : Word) : Machine :=
  run stub.before (interrupt m vector frame error)

/-- An interrupt is balanced: when the stub has run, the stack pointer is where `rip` was pushed
and the registers are as before, and the handler saw every value in its field. -/
structure Balanced (stub : Stub) (vector : Nat) (m : Machine) (frame : Frame) (error : Word)
    (returned : Machine) : Prop where
  rsp : (run stub.after returned).stack.rsp = ripSlot m
  gpr : (run stub.after returned).gpr = m.gpr
  sreg : (run stub.after returned).sreg = m.sreg
  seen : stub.passes = true → ∃ intNo errCode,
    stub.pushes.reverse ++ errorWords vector error = [intNo, errCode] ∧
    loadRegs (called stub vector m frame error).stack.mem
        ((called stub vector m frame error).gpr .rdi) = pushedRegs m frame intNo errCode

/-! ## Words on a stack -/

namespace Stack

variable {s : Stack} {words : List Word}

theorem pushAll_rsp (values : List Word) :
    (s.pushAll values).rsp = s.rsp - BitVec.ofNat 64 (8 * values.length) := by
  induction values generalizing s with
  | nil => simp [pushAll]
  | cons value values ih =>
      have rest : (s.pushAll (value :: values)).rsp = ((s.push value).pushAll values).rsp := rfl
      rw [rest, ih, List.length_cons, Nat.mul_succ, Nat.add_comm, BitVec.ofNat_add,
        ← BitVec.sub_sub]
      rfl

/-- A word is put on top of those that are there. -/
theorem Shows.push (shows_ : s.Shows words) (value : Word) (short : words.length < 2 ^ 60) :
    (s.push value).Shows (value :: words) := by
  intro i inside
  have eight : (8 : Word).toNat = 8 := rfl
  cases i with
  | zero =>
      rw [Stack.push, Nat.mul_zero]
      exact (congrArg _ (BitVec.add_zero _)).trans (Function.update_self ..)
  | succ i =>
      have below : i < words.length := Nat.lt_of_succ_lt_succ inside
      have place : s.rsp - 8 + BitVec.ofNat 64 (8 * (i + 1)) = s.rsp + BitVec.ofNat 64 (8 * i) := by
        rw [Nat.mul_succ, Nat.add_comm, BitVec.ofNat_add, ← BitVec.add_assoc]
        exact congrArg (· + _) (BitVec.sub_add_cancel _ _)
      have apart : s.rsp + BitVec.ofNat 64 (8 * i) ≠ s.rsp - 8 := by
        intro same
        have values := congrArg BitVec.toNat same
        rw [BitVec.toNat_add, BitVec.toNat_sub, BitVec.toNat_ofNat, eight] at values
        omega
      rw [Stack.push]
      dsimp only
      rw [place, Function.update_of_ne apart]
      exact shows_ i below

theorem Shows.pushAll (shows_ : s.Shows words) (values : List Word)
    (short : words.length + values.length < 2 ^ 60) :
    (s.pushAll values).Shows (values.reverse ++ words) := by
  induction values generalizing s words with
  | nil => exact shows_
  | cons value values ih =>
      rw [List.length_cons] at short
      have pushed := ih (shows_.push value (by omega)) (by rw [List.length_cons]; omega)
      rw [List.reverse_cons, List.append_assoc]
      exact pushed

/-- What is popped after some words. -/
theorem pops_eq (s : Stack) (k : Nat) :
    pop^[k] s = { s with rsp := s.rsp + BitVec.ofNat 64 (8 * k) } := by
  induction k with
  | zero => simp
  | succ k ih =>
      rw [Function.iterate_succ_apply', ih, pop, Nat.mul_succ, BitVec.ofNat_add,
        ← BitVec.add_assoc]
      rfl

end Stack

/-! ## The code of the stubs -/

section

variable {stub : Stub} {vector : Nat} {m returned : Machine} {frame : Frame} {error : Word}

theorem run_append (first second : List Instr) (m : Machine) :
    run (first ++ second) m = run second (run first m) := List.foldl_append

theorem run_nil (m : Machine) : run [] m = m := rfl

theorem run_pushImm (values : List Word) (m : Machine) :
    run (values.map pushImm) m = { m with stack := m.stack.pushAll values } := by
  induction values generalizing m with
  | nil => rfl
  | cons value values ih => exact ih _

theorem run_pusha (m : Machine) : (run pusha m).stack = m.stack.pushAll (saved m).reverse := rfl

/-- `POPA` takes the registers off that `PUSHA` pushed. -/
theorem run_popa (shows_ : returned.stack.Shows (saved m)) :
    (run popa returned).gpr = m.gpr ∧ (run popa returned).sreg = m.sreg ∧
      (run popa returned).stack = Stack.pop^[19] returned.stack := by
  have word : ∀ k (inside : k < 19),
      (Stack.pop^[k] returned.stack).top = (saved m).get ⟨k, inside⟩ := by
    intro k inside
    rw [Stack.pops_eq]
    exact shows_ k inside
  have selector : ∀ x : BitVec 16, (x.setWidth 64).setWidth 16 = x := by
    intro x
    simp
  refine ⟨?_, ?_, rfl⟩
  · funext r
    cases r with
    | rax => exact word 17 (by decide)
    | rbx => exact word 16 (by decide)
    | rcx => exact word 15 (by decide)
    | rdx => exact word 14 (by decide)
    | rsi => exact word 12 (by decide)
    | rdi => exact word 18 (by decide)
    | rbp => exact word 13 (by decide)
    | r8 => exact word 11 (by decide)
    | r9 => exact word 10 (by decide)
    | r10 => exact word 9 (by decide)
    | r11 => exact word 8 (by decide)
    | r12 => exact word 7 (by decide)
    | r13 => exact word 6 (by decide)
    | r14 => exact word 5 (by decide)
    | r15 => exact word 4 (by decide)
  · funext r
    cases r with
    | ds => exact (congrArg (BitVec.setWidth 16) (word 3 (by decide))).trans (selector _)
    | es => exact (congrArg (BitVec.setWidth 16) (word 2 (by decide))).trans (selector _)
    | fs => exact (congrArg (BitVec.setWidth 16) (word 1 (by decide))).trans (selector _)
    | gs => exact (congrArg (BitVec.setWidth 16) (word 0 (by decide))).trans (selector _)

theorem run_movRsp (m : Machine) : (run [movRsp] m).stack = m.stack ∧
    (run [movRsp] m).gpr .rdi = (run [movRsp] m).stack.rsp := ⟨rfl, rfl⟩

theorem pushAll_append (s : Stack) (first second : List Word) :
    s.pushAll (first ++ second) = (s.pushAll first).pushAll second := List.foldl_append

/-- The code before the call pushes the words and the registers. -/
theorem run_before (stub : Stub) (m : Machine) :
    (run stub.before m).stack = m.stack.pushAll (stub.pushes ++ (saved m).reverse) ∧
      (stub.passes = true → (run stub.before m).gpr .rdi = (run stub.before m).stack.rsp) := by
  have words : run (cli :: stub.pushes.map pushImm) m =
      { m with interrupts := false, stack := m.stack.pushAll stub.pushes } :=
    run_pushImm stub.pushes { m with interrupts := false }
  have registers : (run pusha (run (cli :: stub.pushes.map pushImm) m)).stack =
      m.stack.pushAll (stub.pushes ++ (saved m).reverse) := by
    rw [run_pusha, words, pushAll_append]
    rfl
  rw [Stub.before, run_append, run_append]
  split
  · obtain ⟨stack, passed⟩ := run_movRsp (run pusha (run (cli :: stub.pushes.map pushImm) m))
    exact ⟨stack.trans registers, fun _ => passed⟩
  · rename_i passed
    rw [run_nil]
    exact ⟨registers, fun passes => absurd passes passed⟩

theorem errorWords_reverse : (errorWords vector error).reverse = errorWords vector error := by
  unfold errorWords
  split <;> rfl

theorem errorWords_length (vector : Nat) (error : Word) :
    (errorWords vector error).length = if HasErrorCode vector then 1 else 0 := by
  unfold errorWords
  split <;> rfl

/-- The words on the stack when the handler is called. -/
theorem called_shows (few : stub.pushes.length ≤ 2) (vector : Nat) (m : Machine) (frame : Frame)
    (error : Word) :
    (called stub vector m frame error).stack.rsp = m.stack.rsp -
      BitVec.ofNat 64 (8 * (24 + (errorWords vector error).length + stub.pushes.length)) ∧
    (called stub vector m frame error).stack.Shows (saved m ++ (stub.pushes.reverse ++
      errorWords vector error ++ [frame.rip, frame.cs, frame.rflag, frame.rsp, frame.ss])) := by
  have length := errorWords_length vector error
  have pushed : (called stub vector m frame error).stack = m.stack.pushAll
      ([frame.ss, frame.rsp, frame.rflag, frame.cs, frame.rip] ++ errorWords vector error ++
        (stub.pushes ++ (saved m).reverse)) := by
    have same : saved (interrupt m vector frame error) = saved m := rfl
    rw [called, (run_before stub _).1, same, pushAll_append _ (_ ++ _)]
    rfl
  have registers : (saved m).length = 19 := rfl
  constructor
  · rw [pushed, Stack.pushAll_rsp]
    congr 2
    simp only [List.length_append, List.length_cons, List.length_nil, List.length_reverse,
      registers]
    omega
  · have nothing : m.stack.Shows [] := fun i inside => absurd inside (Nat.not_lt_zero i)
    have shown := nothing.pushAll
      ([frame.ss, frame.rsp, frame.rflag, frame.cs, frame.rip] ++ errorWords vector error ++
        (stub.pushes ++ (saved m).reverse)) (by
      simp only [List.length_append, List.length_cons, List.length_nil, List.length_reverse,
        registers, length]
      split <;> omega)
    rw [← pushed] at shown
    simpa [errorWords_reverse] using shown

/-- What the stub leaves of the registers and the stack pointer. -/
theorem after_call (few : stub.pushes.length ≤ 2)
    (kept : Kept (called stub vector m frame error).stack returned.stack) :
    (run stub.after returned).gpr = m.gpr ∧ (run stub.after returned).sreg = m.sreg ∧
      (run stub.after returned).stack.rsp =
        (called stub vector m frame error).stack.rsp + 152 + (if stub.drops then 16 else 0) := by
  obtain ⟨_, shown⟩ := called_shows few vector m frame error
  have registers : returned.stack.Shows (saved m) := by
    intro i inside
    have slot := shown i (by rw [List.length_append]; omega)
    rw [List.getElem_append_left inside] at slot
    rw [kept.rsp, kept.slots i inside, slot]
  obtain ⟨gpr, sreg, stack⟩ := run_popa registers
  have restored : (run popa returned).stack.rsp =
      (called stub vector m frame error).stack.rsp + 152 := by
    rw [stack, Stack.pops_eq, kept.rsp]
    rfl
  rw [Stub.after, run_append, run_append]
  cases stub.drops with
  | true => exact ⟨gpr, sreg, congrArg (· + 16) restored⟩
  | false => exact ⟨gpr, sreg, restored.trans (BitVec.add_zero _).symm⟩

/-- Two words between the frame and the registers fill the fields that they are for. -/
theorem seen_of_two {intNo errCode : Word} (few : stub.pushes.length ≤ 2)
    (passes : stub.passes = true)
    (two : stub.pushes.reverse ++ errorWords vector error = [intNo, errCode]) :
    loadRegs (called stub vector m frame error).stack.mem
        ((called stub vector m frame error).gpr .rdi) = pushedRegs m frame intNo errCode := by
  obtain ⟨_, shown⟩ := called_shows few vector m frame error
  rw [two] at shown
  have pointer : (called stub vector m frame error).gpr .rdi =
      (called stub vector m frame error).stack.rsp := (run_before stub _).2 passes
  rw [pointer]
  generalize (called stub vector m frame error).stack = s at shown
  have word : ∀ i (inside : i < 26), s.mem (s.rsp + BitVec.ofNat 64 (8 * i)) =
      (saved m ++ ([intNo, errCode] ++
        [frame.rip, frame.cs, frame.rflag, frame.rsp, frame.ss])).get ⟨i, inside⟩ := shown
  rw [loadRegs, pushedRegs, Regs.mk.injEq]
  exact ⟨word 0 (by decide), word 1 (by decide), word 2 (by decide), word 3 (by decide),
    word 4 (by decide), word 5 (by decide), word 6 (by decide), word 7 (by decide),
    word 8 (by decide), word 9 (by decide), word 10 (by decide), word 11 (by decide),
    word 12 (by decide), word 13 (by decide), word 14 (by decide), word 15 (by decide),
    word 16 (by decide), word 17 (by decide), word 18 (by decide), word 19 (by decide),
    word 20 (by decide), word 21 (by decide), word 22 (by decide), word 23 (by decide),
    word 24 (by decide), word 25 (by decide)⟩

/-- The words that are on the stack between the frame and the registers. -/
def wordCount (vector : Nat) (stub : Stub) : Nat :=
  stub.pushes.length + if HasErrorCode vector then 1 else 0

/-- What each stub takes off is there for the vectors with an error code, for system calls and for
the devices. -/
theorem installed_cases (installed : (vector, stub) ∈ idtInstall) : stub.pushes.length ≤ 2 ∧
    ((HasErrorCode vector ∨ vector ∈ [32, 33, 0x80]) ∧
        (wordCount vector stub = 2 ∧ stub.drops = true ∧ stub.passes = true ∨
          wordCount vector stub = 0 ∧ stub.drops = false ∧ stub.passes = false) ∨
      ¬ (HasErrorCode vector ∨ vector ∈ [32, 33, 0x80]) ∧
        wordCount vector stub = 1 ∧ stub.drops = true) := by
  revert installed
  generalize entry : (vector, stub) = e
  have all : ∀ e ∈ idtInstall, e.2.pushes.length ≤ 2 ∧
      ((HasErrorCode e.1 ∨ e.1 ∈ [32, 33, 0x80]) ∧
          (wordCount e.1 e.2 = 2 ∧ e.2.drops = true ∧ e.2.passes = true ∨
            wordCount e.1 e.2 = 0 ∧ e.2.drops = false ∧ e.2.passes = false) ∨
        ¬ (HasErrorCode e.1 ∨ e.1 ∈ [32, 33, 0x80]) ∧
          wordCount e.1 e.2 = 1 ∧ e.2.drops = true) := by
    decide
  subst entry
  exact fun installed => all _ installed

/-- Where the stack pointer is at `iretq`. -/
theorem after_rsp (few : stub.pushes.length ≤ 2)
    (kept : Kept (called stub vector m frame error).stack returned.stack) :
    (run stub.after returned).stack.rsp =
      m.stack.rsp - BitVec.ofNat 64 (8 * (24 + wordCount vector stub)) + 152 +
        (if stub.drops then 16 else 0) := by
  have count : 24 + (errorWords vector error).length + stub.pushes.length =
      24 + wordCount vector stub := by
    rw [errorWords_length, wordCount]
    omega
  rw [(after_call few kept).2.2, (called_shows few _ _ _ _).1, count]

theorem back_of_two (x : Word) : x - BitVec.ofNat 64 208 + 152 + 16 = x - 40 := by bv_omega

theorem back_of_none (x : Word) : x - BitVec.ofNat 64 192 + 152 + 0 = x - 40 := by bv_omega

theorem back_of_one (x : Word) : x - BitVec.ofNat 64 200 + 152 + 16 ≠ x - 40 := by bv_omega

/-- A stub that takes off a word that is not its own is not balanced. -/
theorem not_balanced_of_one (few : stub.pushes.length ≤ 2) (one : wordCount vector stub = 1)
    (drops : stub.drops = true)
    (kept : Kept (called stub vector m frame error).stack returned.stack) :
    ¬ Balanced stub vector m frame error returned := by
  intro balanced
  have place := balanced.rsp
  rw [after_rsp few kept, one, drops, ripSlot] at place
  exact back_of_one m.stack.rsp place

/-- The stubs are balanced for the vectors with an error code, for system calls and for the
devices.  The other exceptions lose a word: at `iretq` the stack pointer is behind `rip`. -/
theorem stub_balanced_iff (installed : (vector, stub) ∈ idtInstall)
    (kept : Kept (called stub vector m frame error).stack returned.stack) :
    Balanced stub vector m frame error returned ↔
      HasErrorCode vector ∨ vector ∈ [32, 33, 0x80] := by
  obtain ⟨few, cases_⟩ := installed_cases installed
  obtain ⟨gpr, sreg, _⟩ := after_call few kept
  have left := after_rsp few kept
  obtain ⟨good, two | none⟩ | ⟨bad, one, drops⟩ := cases_
  · obtain ⟨two, drops, passes⟩ := two
    refine iff_of_true ⟨?_, gpr, sreg, ?_⟩ good
    · rw [left, two, drops, ripSlot]
      exact back_of_two m.stack.rsp
    · intro _
      have length : (stub.pushes.reverse ++ errorWords vector error).length = 2 := by
        rw [List.length_append, List.length_reverse, errorWords_length]
        exact two
      obtain ⟨intNo, errCode, words⟩ := List.length_eq_two.mp length
      exact ⟨intNo, errCode, words, seen_of_two few passes words⟩
  · obtain ⟨none, drops, passes⟩ := none
    refine iff_of_true ⟨?_, gpr, sreg, ?_⟩ good
    · rw [left, none, drops, ripSlot]
      exact back_of_none m.stack.rsp
    · intro passed
      rw [passes] at passed
      cases passed
  · exact iff_of_false (not_balanced_of_one few one drops kept) bad

/-- A machine to be interrupted, in user mode. -/
def idleMachine : Machine :=
  { gpr := fun _ => 0, sreg := fun _ => 0x10, stack := { mem := fun _ => 0, rsp := 0x1000 }
    interrupts := true }

/-- What the processor pushes of it. -/
def idleFrame : Frame := { rip := 0x400000, cs := 0x2B, rflag := 0x200, rsp := 0x2000, ss := 0x33 }

/-- A page fault whose handler returns at once is balanced. -/
theorem stub_balanced_pageFault :
    Balanced isr14 14 idleMachine idleFrame 4 (called isr14 14 idleMachine idleFrame 4) :=
  (stub_balanced_iff (by simp [idtInstall]) ⟨rfl, fun _ _ => rfl⟩).mpr (Or.inl (by decide))

/-- A division by zero is not. -/
theorem stub_unbalanced_division : ¬ ∀ (vector : Nat) (stub : Stub) (m : Machine) (frame : Frame)
    (error : Word) (returned : Machine), (vector, stub) ∈ idtInstall →
    Kept (called stub vector m frame error).stack returned.stack →
    Balanced stub vector m frame error returned := by
  intro always
  exact not_balanced_of_one (by decide) (by decide) rfl ⟨rfl, fun _ _ => rfl⟩
    (always 0 isr0 idleMachine idleFrame 0 _ (by simp [idtInstall]) ⟨rfl, fun _ _ => rfl⟩)

end

end Sbrocks.Process.Stubs
