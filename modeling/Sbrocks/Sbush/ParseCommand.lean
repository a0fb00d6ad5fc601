import Sbrocks.Libc.Heap

/-!
# The line parser of the shell

`parseCommand` cuts a line into commands and words.  It works in the buffer of the
line, copies each word to memory of its own, and leaves the copies in a table that
it never clears.
-/

namespace Sbrocks.Sbush

open Sbrocks.Libc Sbrocks.Process

/-- The bytes of a line buffer, from the start of the line on. -/
abbrev Line := Nat → Byte

/-- `MAX_LEN`. -/
def maxLen : Nat := 1024

/-- `MAX_CMD`. -/
def maxCmd : Nat := 5

/-- `MAX_ARG_COUNT`. -/
def maxArgCount : Nat := 64

/-- More than the bytes of a line. -/
def lineRounds : Nat := 2 ^ 64

/-- The blank. -/
def blank : Byte := 0x20

/-- The sign of a pipe. -/
def bar : Byte := 0x7C

/-- What the parser works on: the memory of the shell, a line buffer, and the table. -/
structure Shell where
  program : Program
  line : Line
  commands : Nat → Nat → Word
  cmdcount : Nat

/-! ## The buffer of the line -/

/-- `isSpace`. -/
def isSpace (c : Byte) : Bool := c = 0x20 || c = 0x09 || c = 0x0A

/-- The loop of `strlen`. -/
def strlenLoop (line : Line) (s : Nat) : Nat → Option Nat
  | 0 => none
  | n + 1 => if line s = 0 then some 0 else (strlenLoop line (s + 1) n).map (· + 1)

/-- `strlen`. -/
def strlen (line : Line) (str : Nat) : Option Nat := strlenLoop line str lineRounds

/-- `memset` with zero. -/
def clear (line : Line) (str : Nat) : Nat → Line
  | 0 => line
  | n + 1 => clear (Function.update line str 0) (str + 1) n

/-- The last word is erased when the next round begins. -/
def eraseLast (line : Line) : Option Nat → Option Line
  | none => some line
  | some str => (strlen line str).map (clear line str)

/-- The first loop of `trim`: where the text begins. -/
def trimStart (line : Line) (src : Nat) : Nat → Option Nat
  | 0 => none
  | n + 1 => if isSpace (line src) then trimStart line (src + 1) n else some src

/-- The second loop of `trim`, which cuts off what follows the text. -/
def trimEnd (line : Line) (src : Nat) : Nat → Line
  | 0 => line
  | last + 1 =>
      if last + 1 > src ∧ isSpace (line (last + 1)) then
        trimEnd (Function.update line (last + 1) 0) src last
      else line

/-- The third loop of `trim`, which moves the text to the front. -/
def trimMove (line : Line) (dst src : Nat) : Nat → Option Line
  | 0 => none
  | n + 1 =>
      let moved := Function.update line dst (line src)
      if line src = 0 then some moved else trimMove moved (dst + 1) (src + 1) n

/-- `trim`. -/
def trim (line : Line) (input : Nat) : Option Line := do
  let src ← trimStart line input lineRounds
  let length ← strlen line src
  let cut := trimEnd line src (src + length - 1)
  if src ≠ input then trimMove cut input src lineRounds else some cut

/-- The loop over a word: how far `i`, `count` and `srcPtr` advance, when `i` has `n` to go. -/
def wordLength (line : Line) (srcPtr : Nat) : Nat → Nat
  | 0 => 0
  | n + 1 =>
      if line srcPtr ≠ blank ∧ line srcPtr ≠ bar then wordLength line (srcPtr + 1) n + 1 else 0

/-- The loop over blanks, which are cleared: the line, and how far `i` and `srcPtr` advance. -/
def skipBlanks (line : Line) (srcPtr : Nat) : Nat → Line × Nat
  | 0 => (line, 0)
  | n + 1 =>
      if line srcPtr = blank then
        let (line, skipped) := skipBlanks (Function.update line srcPtr 0) (srcPtr + 1) n
        (line, skipped + 1)
      else (line, 0)

/-! ## The memory of the words -/

/-- The end of the page before an address. -/
def pageEnd (addr : Nat) : Nat := (addr + 4095) / 4096 * 4096

/-- Where the last page of the heap ends. -/
def heapEnd (p : Program) : Nat := pageEnd p.kernel.brkEnd.toNat

/-- Write a byte of the heap.  Behind its last page no area answers the fault, which ends the
shell. -/
def poke (p : Program) (addr : Word) (byte : Byte) : Flow Kernel Program :=
  if addr.toNat < heapEnd p then .next { p with mem := Function.update p.mem addr byte }
  else .stuck

/-- `memset` with zero, in the heap. -/
def memset (p : Program) (str : Word) : Nat → Flow Kernel Program
  | 0 => .next p
  | n + 1 => do
      let p ← poke p str 0
      memset p (str + 1) n

/-- `strncpy` from a line to the heap. -/
def strncpy (p : Program) (dest : Word) (line : Line) (src : Nat) : Nat → Flow Kernel Program
  | 0 => .next p
  | count + 1 => do
      let p ← poke p dest (line src)
      strncpy p (dest + 1) line (if line src ≠ 0 then src + 1 else src) count

/-! ## The parser -/

namespace Shell

/-- What each branch of `parseCommand` does with a word: the string is trimmed, and copied if
there is something of it. -/
def addWord (sh : Shell) (argcount str count : Nat) : Flow Kernel (Shell × Nat) := do
  let line ← Flow.ofOption (trim sh.line str)
  let sh := { sh with line := line }
  let len ← Flow.ofOption (strlen line str)
  if len > 0 ∧ count > 0 then
    let (p, word) ← sh.program.malloc (BitVec.ofNat 64 len)
    if sh.cmdcount < maxCmd ∧ argcount < maxArgCount then
      let row := Function.update (sh.commands sh.cmdcount) argcount word
      let commands := Function.update sh.commands sh.cmdcount row
      let p ← memset p word 1024
      let p ← strncpy p word line str count
      return ({ sh with program := p, commands := commands }, argcount + 1)
    else .stuck
  else return (sh, argcount)

end Shell

/-- The local variables of `parseCommand` that outlive a round. -/
structure Cursor where
  i : Nat
  srcPtr : Nat
  str : Option Nat
  argcount : Nat

namespace Shell

/-- One round of the loop. -/
def parseRound (sh : Shell) (len : Nat) (at' : Cursor) : Flow Kernel (Shell × Cursor) := do
  let line ← Flow.ofOption (eraseLast sh.line at'.str)
  let str := at'.srcPtr
  let count := wordLength line at'.srcPtr (len - at'.i)
  let i := at'.i + count
  let srcPtr := at'.srcPtr + count
  let piped := line srcPtr = bar
  let (sh, argcount) ← addWord { sh with line := line } at'.argcount str count
  let sh := if piped then { sh with cmdcount := sh.cmdcount + 1 } else sh
  let argcount := if piped then 0 else argcount
  let srcPtr := if piped then srcPtr + 1 else srcPtr
  let (line, skipped) := skipBlanks sh.line srcPtr (len - i)
  return ({ sh with line := line },
    { i := i + skipped, srcPtr := srcPtr + skipped, str := some str, argcount := argcount })

/-- The loop of `parseCommand`. -/
def parseLoop (sh : Shell) (len : Nat) (at' : Cursor) : Nat → Flow Kernel Shell
  | 0 => .stuck
  | n + 1 =>
      if at'.i < len then do
        let (sh, at') ← sh.parseRound len at'
        sh.parseLoop len at' n
      else .next sh

/-- `parseCommand`. -/
def parseCommand (sh : Shell) : Flow Kernel (Shell × Nat) := do
  let len ← Flow.ofOption (strlen sh.line 0)
  let sh ← parseLoop { sh with cmdcount := 0 } len ⟨0, 0, none, 0⟩ lineRounds
  return (sh, sh.cmdcount + 1)

end Shell

end Sbrocks.Sbush
