import Sbrocks.Fs.Tarfs
import Sbrocks.Libc.Printf
import Sbrocks.Memory.Bytes

/-!
# Formatted input

`scanf` reads a line for each of its conversions into a static buffer.  What the
kernel answers to its reads is given: the bytes that it puts into the buffer and the
register that the call returns.
-/

namespace Sbrocks.Libc

open Sbrocks.Process

/-- What the kernel does for a read. -/
structure Answer where
  bytes : List Byte
  rax : Word

/-- A program that reads: its memory, and what its next reads are answered. -/
structure Reader where
  mem : Bytes.Memory 64
  answers : List Answer

/-- `MAXSIZE`. -/
def maxSize : Nat := 1024

/-- More than a loop over a string takes. -/
def textRounds : Nat := 2 ^ 64

/-- Put bytes from an address on. -/
def putBytes (mem : Bytes.Memory 64) (addr : Word) : List Byte → Bytes.Memory 64
  | [] => mem
  | b :: bs => putBytes (Function.update mem addr b) (addr + 1) bs

/-- The string at an address. -/
def textAt (mem : Bytes.Memory 64) (addr : Word) : Nat → Option (List Byte)
  | 0 => none
  | rounds + 1 => if mem addr = 0 then some [] else (textAt mem (addr + 1) rounds).map (mem addr :: ·)

/-- The loop of `strcpy`. -/
def strcpyLoop (mem : Bytes.Memory 64) (dest src : Word) : Nat → Option (Bytes.Memory 64)
  | 0 => none
  | rounds + 1 =>
      let copied := Function.update mem dest (mem src)
      if mem src = 0 then some copied else strcpyLoop copied (dest + 1) (src + 1) rounds

namespace Reader

/-- Zeros, as `reset` and `memset` write them. -/
def clear (s : Reader) (str : Word) (len : Nat) : Reader :=
  { s with mem := putBytes s.mem str (List.replicate len 0) }

/-- `read` from standard input.  A result below zero as an `int` is an error. -/
def read (s : Reader) (buf : Word) (count : Nat) : Option (Reader × Word) :=
  match s.answers with
  | [] => none
  | answer :: answers =>
      let s := s.clear buf count
      let s := { mem := putBytes s.mem buf answer.bytes, answers }
      some (s, if (toInt answer.rax).slt 0 then -1 else answer.rax)

variable (data : Word) (args : Nat → Word)

/-- A conversion of `scanf`: the arguments it takes, its `size`, and whether it returns. -/
def scanConversion (s : Reader) (c : Byte) (arg : Nat) (size : CInt) :
    Option (Reader × Nat × CInt × Bool) :=
  if c = chr 's' then do
    let (s, res) ← s.read data maxSize
    let size := toInt res
    if size = -1 then return (s, arg, size, false)
    else
      let mem ← strcpyLoop s.mem (args arg) data textRounds
      return ({ s with mem }, arg + 1, size - 1, false)
  else if c = chr 'd' then do
    let (s, res) ← s.read data maxSize
    let size := toInt res
    if size = -1 then return (s, arg, size, true)
    else
      let size := size - 1
      let mem := Function.update s.mem (data + ofInt size) 0
      let text ← textAt mem data textRounds
      let mem := Bytes.store mem (args arg) (ofInt (atoi text)).toNat 8
      return ({ s with mem }, arg + 1, size, false)
  else if c = chr 'c' then do
    let (s, res) ← s.read data 1
    let size := toInt res
    if size = -1 then return (s, arg, size, true)
    else return ({ s with mem := Function.update s.mem (args arg) (s.mem data) }, arg + 1, size, false)
  else if c = chr 'x' then do
    let (s, res) ← s.read data 1
    return (s, arg, toInt res, false)
  else some (s, arg, size, false)

/-- The loop of `scanf`. -/
def scanLoop (format : List Byte) (s : Reader) (fmt arg : Nat) (size : CInt) :
    Nat → Option (Reader × CInt)
  | 0 => none
  | rounds + 1 => do
      let c ← charAt format fmt
      if c = 0 then return (s, size)
      else if c = chr '%' then
        let c ← charAt format (fmt + 1)
        let (s, arg, size, returns) ← s.scanConversion data args c arg size
        if returns then return (s, size)
        else scanLoop format s (fmt + 2) arg size rounds
      else scanLoop format s (fmt + 1) arg size rounds

/-- `scanf`, with its static buffer. -/
def scanf (s : Reader) (format : List Byte) : Option (Reader × CInt) :=
  (s.clear data maxSize).scanLoop data args format 0 0 (-1) (formatRounds format)

end Reader

end Sbrocks.Libc
