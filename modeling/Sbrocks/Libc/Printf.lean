import Sbrocks.Process.Task

/-!
# Formatted output

`vsprintf` scans a format and writes what its conversions ask for; `number` writes
the integers.  The kernel's `kvsprintf` has the same text.  The format is read with
a check: nothing stands behind its terminator.
-/

namespace Sbrocks.Libc

open Sbrocks.Process

/-- `int`. -/
abbrev CInt := BitVec 32

/-- The code of a character. -/
def chr (c : Char) : Byte := BitVec.ofNat 8 c.toNat

/-! ## The flags of `number` -/

namespace Flag

/-- `ZEROPAD`. -/
def zeropad : CInt := 1

/-- `SIGN`. -/
def sign : CInt := 2

/-- `PLUS`. -/
def plus : CInt := 4

/-- `SPACE`. -/
def space : CInt := 8

/-- `LEFT`. -/
def left : CInt := 16

/-- `SMALL`. -/
def small : CInt := 32

/-- `SPECIAL`. -/
def special : CInt := 64

end Flag

/-- Whether a flag is in `type`. -/
def has (type flag : CInt) : Bool := type &&& flag ≠ 0

/-! ## Integers -/

/-- `digits`. -/
def digits : List Byte := (List.map chr ("0123456789ABCDEF".toList))

/-- The room in `tmp`. -/
def tmpSize : Nat := 66

/-- What is above a bound can be counted down. -/
theorem toInt_pred {limit size : CInt} (more : limit.toInt < size.toInt) :
    (size - 1).toInt = size.toInt - 1 := by
  have := BitVec.le_toInt limit
  have := BitVec.toInt_lt (x := size)
  rw [BitVec.toInt_sub]
  exact Int.bmod_eq_of_le (by simp at *; omega) (by simp at *; omega)

/-- The loop `while (limit < size--) *str++ = c`: what it writes, and `size` behind it. -/
def padLoop (c : Byte) (limit size : CInt) : List Byte × CInt :=
  if limit.toInt < size.toInt then
    let (written, size) := padLoop c limit (size - 1)
    (c :: written, size)
  else ([], size - 1)
termination_by (size.toInt - limit.toInt).toNat
decreasing_by
  have := toInt_pred (show limit.toInt < size.toInt from ‹_›)
  omega

/-- The loop of `number` over its digits, the last one first, into what is left of `tmp`. -/
def digitLoop (base : CInt) (locase : Byte) (num : Word) : Nat → Option (List Byte)
  | 0 => if num = 0 then some [] else none
  | room + 1 =>
      if num = 0 then some []
      else do
        let digit ← digits[(num % base.setWidth 64).toNat]?
        let tmp ← digitLoop base locase (num / base.setWidth 64) room
        return (digit ||| locase) :: tmp

/-- The sign that `number` writes, if any, the number behind it, and `size` without it. -/
def takeSign (num : Word) (size type : CInt) : List Byte × Word × CInt :=
  if has type Flag.sign then
    if num.slt 0 then ([chr '-'], -num, size - 1)
    else if has type Flag.plus then ([chr '+'], num, size - 1)
    else if has type Flag.space then ([chr ' '], num, size - 1)
    else ([], num, size)
  else ([], num, size)

/-- The prefix that `number` writes, and `size` without it. -/
def takeSpecial (base size type : CInt) (locase : Byte) : List Byte × CInt :=
  if has type Flag.special then
    if base = 16 then ([chr '0', chr 'X' ||| locase], size - 2)
    else if base = 8 then ([chr '0'], size - 1)
    else ([], size)
  else ([], size)

/-- What `number` puts into `tmp`; zero has a digit. -/
def takeDigits (base : CInt) (locase : Byte) (num : Word) : Option (List Byte) :=
  if num = 0 then some [chr '0'] else digitLoop base locase num tmpSize

/-- `number`: what it writes.  There is nothing when it refuses the base and returns `NULL`. -/
def number (num : Word) (base size precision type : CInt) : Option (List Byte) := do
  let locase : Byte := (type &&& Flag.small).setWidth 8
  let type := if has type Flag.left then type &&& ~~~Flag.zeropad else type
  if base.slt 2 || BitVec.slt 16 base then none
  else
    let c := if has type Flag.zeropad then chr '0' else chr ' '
    let (sign, num, size) := takeSign num size type
    let (special, size) := takeSpecial base size type locase
    let tmp ← takeDigits base locase num
    let i : CInt := BitVec.ofNat 32 tmp.length
    let precision := if precision.slt i then i else precision
    let size := size - precision
    let (before, size) :=
      if has type (Flag.zeropad + Flag.left) then ([], size) else padLoop (chr ' ') 0 size
    let (inside, size) := if has type Flag.left then ([], size) else padLoop c 0 size
    let (zeros, _) := padLoop (chr '0') i precision
    let (behind, _) := padLoop (chr ' ') 0 size
    some (before ++ sign ++ special ++ inside ++ zeros ++ tmp.reverse ++ behind)

/-! ## Formats -/

/-- What `va_arg` finds: the arguments one after the other, and the string at an address. -/
structure Arguments where
  word : Nat → Word
  string : Word → List Byte

/-- What a `%n` stores. -/
inductive Store where
  | long (ip : Word) (value : Word)
  | int (ip : Word) (value : CInt)

/-- The state of `vsprintf`: where it reads the format, what it has written, how many arguments it
has taken, and what it has stored. -/
structure Scan where
  fmt : Nat
  str : List Byte
  args : Nat
  stores : List Store

/-- Go on in the format. -/
def Scan.skip (s : Scan) : Scan := { s with fmt := s.fmt + 1 }

/-- Write behind what has been written. -/
def Scan.put (s : Scan) (text : List Byte) : Scan := { s with str := s.str ++ text }

/-- `isdigit`; a byte above the digits is not one with a sign either. -/
def isdigit (ch : Byte) : Bool := chr '0' ≤ ch && ch ≤ chr '9'

/-- The loop `while (--size > 0) *str++ = ' '`, and `size` behind it. -/
def spaceLoop (size : CInt) : List Byte × CInt :=
  if 0 < (size - 1).toInt then
    let (written, size) := spaceLoop (size - 1)
    (chr ' ' :: written, size)
  else ([], size - 1)
termination_by (size - 1).toInt.toNat
decreasing_by
  have := toInt_pred (show (0 : CInt).toInt < (size - 1).toInt from ‹_›)
  omega

/-- The flag of a character. -/
def flagOf (c : Byte) : Option CInt :=
  if c = chr '-' then some Flag.left
  else if c = chr '+' then some Flag.plus
  else if c = chr ' ' then some Flag.space
  else if c = chr '#' then some Flag.special
  else if c = chr '0' then some Flag.zeropad
  else none

/-- The base of an integer conversion, and its flags. -/
def integerOf (c : Byte) (flags : CInt) : Option (CInt × CInt) :=
  if c = chr 'o' then some (8, flags)
  else if c = chr 'x' then some (16, flags ||| Flag.small)
  else if c = chr 'X' then some (16, flags)
  else if c = chr 'd' ∨ c = chr 'i' then some (10, flags ||| Flag.sign)
  else if c = chr 'u' then some (10, flags)
  else none

/-- The number that an integer conversion makes of an argument. -/
def integerArg (qualifier : Option Byte) (flags : CInt) (arg : Word) : Word :=
  if qualifier = some (chr 'l') then arg
  else if qualifier = some (chr 'h') then
    if has flags Flag.sign then (arg.setWidth 16).signExtend 64 else (arg.setWidth 16).setWidth 64
  else if has flags Flag.sign then (arg.setWidth 32).signExtend 64
  else (arg.setWidth 32).setWidth 64

section

variable (format : List Byte) (args : Arguments)

/-- `*fmt`: a character of the format, or its terminator. -/
def charAt (fmt : Nat) : Option Byte := (format ++ [0])[fmt]?

/-- More than a loop over the format takes. -/
def formatRounds : Nat := format.length + 2

/-- `va_arg`. -/
def Scan.vaArg (s : Scan) : Word × Scan := (args.word s.args, { s with args := s.args + 1 })

/-- The loop of `skip_atoi`, and where it leaves the format. -/
def skipAtoi (fmt : Nat) (i : CInt) : Nat → Option (CInt × Nat)
  | 0 => none
  | rounds + 1 => do
      let c ← charAt format fmt
      if isdigit c then
        skipAtoi (fmt + 1) (i * 10 + c.signExtend 32 - (chr '0').signExtend 32) rounds
      else return (i, fmt)

/-- The loop at `repeat`, and where it leaves the format. -/
def flagLoop (fmt : Nat) (flags : CInt) : Nat → Option (CInt × Nat)
  | 0 => none
  | rounds + 1 => do
      let fmt := fmt + 1
      let c ← charAt format fmt
      match flagOf c with
      | some flag => flagLoop fmt (flags ||| flag) rounds
      | none => return (flags, fmt)

/-- The field width, and the flags with it. -/
def getWidth (s : Scan) (flags : CInt) : Option (CInt × CInt × Scan) := do
  let c ← charAt format s.fmt
  if isdigit c then
    let (width, fmt) ← skipAtoi format s.fmt 0 (formatRounds format)
    return (width, flags, { s with fmt })
  else if c = chr '*' then
    let (arg, s) := s.skip.vaArg args
    let width : CInt := arg.setWidth 32
    if width.slt 0 then return (-width, flags ||| Flag.left, s)
    else return (width, flags, s)
  else return (-1, flags, s)

/-- A precision below zero counts as zero. -/
def atLeastZero (precision : CInt) : CInt := if precision.slt 0 then 0 else precision

/-- The precision. -/
def getPrecision (s : Scan) : Option (CInt × Scan) := do
  let c ← charAt format s.fmt
  if c = chr '.' then
    let s := s.skip
    let c ← charAt format s.fmt
    if isdigit c then
      let (precision, fmt) ← skipAtoi format s.fmt 0 (formatRounds format)
      return (atLeastZero precision, { s with fmt })
    else if c = chr '*' then
      let (arg, s) := s.skip.vaArg args
      return (atLeastZero (arg.setWidth 32), s)
    else return (atLeastZero (-1), s)
  else return (-1, s)

/-- The conversion qualifier. -/
def getQualifier (s : Scan) : Option (Option Byte × Scan) := do
  let c ← charAt format s.fmt
  if c = chr 'h' ∨ c = chr 'l' ∨ c = chr 'L' then return (some c, s.skip)
  else return (none, s)

/-- The case `c`. -/
def Scan.putChar (s : Scan) (flags width : CInt) : Scan :=
  let (before, width) := if has flags Flag.left then ([], width) else spaceLoop width
  let (arg, s) := s.vaArg args
  let (behind, _) := spaceLoop width
  s.put (before ++ [arg.setWidth 8] ++ behind)

/-- The case `s`. -/
def Scan.putString (s : Scan) (flags width : CInt) : Scan :=
  let (arg, s) := s.vaArg args
  let text := args.string arg
  let len : CInt := BitVec.ofNat 32 text.length
  let (before, width) :=
    if has flags Flag.left then ([], width) else padLoop (chr ' ') len width
  let (behind, _) := padLoop (chr ' ') len width
  s.put (before ++ text.take len.toInt.toNat ++ behind)

/-- The case `p`. -/
def Scan.putPointer (s : Scan) (flags width precision : CInt) : Option Scan := do
  let (width, flags) := if width = -1 then (16, flags ||| Flag.zeropad) else (width, flags)
  let (arg, s) := s.vaArg args
  let text ← number arg 16 width precision flags
  return s.put text

/-- The case `n`. -/
def Scan.storeCount (s : Scan) (qualifier : Option Byte) : Scan :=
  let (ip, s) := s.vaArg args
  let store :=
    if qualifier = some (chr 'l') then Store.long ip (BitVec.ofNat 64 s.str.length)
    else Store.int ip (BitVec.ofNat 32 s.str.length)
  { s with stores := s.stores ++ [store] }

/-- The cases of the integers. -/
def Scan.putInteger (s : Scan) (qualifier : Option Byte) (base flags width precision : CInt) :
    Option Scan := do
  let (arg, s) := s.vaArg args
  let text ← number (integerArg qualifier flags arg) base width precision flags
  return s.put text

/-- The conversion itself.  An unknown one is written, and a format that ends in it is left before
its terminator. -/
def convertTo (s : Scan) (qualifier : Option Byte) (flags width precision : CInt) :
    Option Scan := do
  let c ← charAt format s.fmt
  if c = chr 'c' then return s.putChar args flags width
  else if c = chr 's' then return s.putString args flags width
  else if c = chr 'p' then s.putPointer args flags width precision
  else if c = chr 'n' then return s.storeCount args qualifier
  else if c = chr '%' then return s.put [chr '%']
  else
    match integerOf c flags with
    | some (base, flags) => s.putInteger args qualifier base flags width precision
    | none =>
        let s := s.put [chr '%']
        if c ≠ 0 then return s.put [c] else return { s with fmt := s.fmt - 1 }

/-- A conversion specification, from its `%` to where the round ends. -/
def convert (s : Scan) : Option Scan := do
  let (flags, fmt) ← flagLoop format s.fmt 0 (formatRounds format)
  let (width, flags, s) ← getWidth format args { s with fmt } flags
  let (precision, s) ← getPrecision format args s
  let (qualifier, s) ← getQualifier format s
  convertTo format args s qualifier flags width precision

/-- A round of `vsprintf`, up to its `++fmt`. -/
def formatRound (s : Scan) (c : Byte) : Option Scan :=
  if c = chr '%' then convert format args s else some (s.put [c])

/-- The loop of `vsprintf`. -/
def formatLoop (s : Scan) : Nat → Option Scan
  | 0 => none
  | rounds + 1 => do
      let c ← charAt format s.fmt
      if c = 0 then return s
      else
        let s ← formatRound format args s c
        formatLoop s.skip rounds

/-- `vsprintf`: what it leaves in the buffer before the terminator, what it stores, and how many
arguments it takes. -/
def vsprintf : Option Scan := formatLoop format args ⟨0, [], 0, []⟩ (formatRounds format)

end

end Sbrocks.Libc
