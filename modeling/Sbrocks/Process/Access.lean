import Sbrocks.Process.Task

/-!
# Memory accesses of the kernel

The kernel reads and writes user buffers through their virtual addresses, under
the loaded root.  An access to a page that is not present raises a page fault;
what answers the fault is a parameter here.  The access is then made again, and
one that faults a second time faults forever.
-/

namespace Sbrocks.Process

open Sbrocks.Mmu

/-- What answers a page fault that the kernel takes at an address. -/
abbrev Fault := Kernel → Word → Flow Kernel Kernel

/-- A byte of a word. -/
def byteOf (word : Word) (lane : Nat) : Byte := (word >>> (8 * lane)).setWidth 8

/-- The word with one byte replaced. -/
def withByte (word : Word) (lane : Nat) (byte : Byte) : Word :=
  (word &&& ~~~((0xFF : Word) <<< (8 * lane))) ||| (byte.setWidth 64 <<< (8 * lane))

/-- The position of a byte in its word. -/
def laneOf (virt : Word) : Nat := virt.toNat % 8

/-- Addresses that the processor accepts: bits 47 to 63 agree. -/
def canonicalAddr (virt : Word) : Bool := virt == (virt.setWidth 48).signExtend 64

namespace Kernel

variable (fault : Fault)

/-- The frame that an access reaches.  An address that is not canonical raises a
general protection fault, whose handler only returns to it. -/
def touch (k : Kernel) (virt : Word) : Flow Kernel (Kernel × Word) :=
  if canonicalAddr virt then
    match k.m.translate virt with
    | some frame => .next (k, frame)
    | none => do
        let k ← fault k virt
        match k.m.translate virt with
        | some frame => .next (k, frame)
        | none => .stuck
  else .stuck

/-- Read a byte. -/
def loadByte (k : Kernel) (virt : Word) : Flow Kernel (Kernel × Byte) := do
  let (k, frame) ← k.touch fault virt
  return (k, byteOf (k.m.mem frame (Machine.wordOffset virt)) (laneOf virt))

/-- Write a byte. -/
def storeByte (k : Kernel) (virt : Word) (byte : Byte) : Flow Kernel Kernel := do
  let (k, frame) ← k.touch fault virt
  let word := k.m.mem frame (Machine.wordOffset virt)
  return k.setMachine
    (k.m.setEntry frame (Machine.wordOffset virt) (withByte word (laneOf virt) byte))

/-- `memcpy`. -/
def memcpy (k : Kernel) (s1 s2 : Word) : Nat → Flow Kernel Kernel
  | 0 => .next k
  | n + 1 => do
      let (k, byte) ← k.loadByte fault s2
      let k ← k.storeByte fault s1 byte
      k.memcpy (s1 + 1) (s2 + 1) n

/-- `memset`. -/
def memset (k : Kernel) (str : Word) (c : Byte) : Nat → Flow Kernel Kernel
  | 0 => .next k
  | n + 1 => do
      let k ← k.storeByte fault str c
      k.memset (str + 1) c n

/-- Write bytes that lie in a kernel structure. -/
def storeBytes (k : Kernel) (virt : Word) : List Byte → Flow Kernel Kernel
  | [] => .next k
  | byte :: bytes => do
      let k ← k.storeByte fault virt byte
      k.storeBytes (virt + 1) bytes

/-- Read a little-endian number of `n` bytes. -/
def loadLe (k : Kernel) (virt : Word) : Nat → Flow Kernel (Kernel × Word)
  | 0 => .next (k, 0)
  | n + 1 => do
      let (k, byte) ← k.loadByte fault virt
      let (k, rest) ← k.loadLe (virt + 1) n
      return (k, byte.setWidth 64 ||| rest <<< 8)

/-- The `n` low bytes of a word, lowest first. -/
def leBytes (value : Word) (n : Nat) : List Byte :=
  (List.range n).map (byteOf value)

/-- Write a word. -/
def storeLe (k : Kernel) (virt value : Word) : Flow Kernel Kernel :=
  k.storeBytes fault virt (leBytes value 8)

end Kernel

/-! ## Strings -/

/-- A string the kernel is given: at an address, or in a structure or constant of
its own. -/
inductive CString where
  | atAddr (addr : Word)
  | text (chars : List Byte)

/-- No string is longer than the address space. -/
def stringRounds : Nat := 2 ^ 64

namespace Kernel

variable (fault : Fault)

/-- The character at an index.  Nothing is known of what follows the final zero of
a kernel string. -/
def char (k : Kernel) (s : CString) (i : Nat) : Flow Kernel (Kernel × Byte) :=
  match s with
  | .atAddr addr => k.loadByte fault (addr + BitVec.ofNat 64 i)
  | .text chars =>
      if i < chars.length then .next (k, chars.getD i 0)
      else if i = chars.length then .next (k, 0)
      else .stuck

/-- The characters from an index up to the final zero. -/
def chars (k : Kernel) (s : CString) (i : Nat) : Nat → Flow Kernel (Kernel × List Byte)
  | 0 => .stuck
  | rounds + 1 => do
      let (k, c) ← k.char fault s i
      if c = 0 then return (k, [])
      let (k, rest) ← k.chars s (i + 1) rounds
      return (k, c :: rest)

/-- `strlen`. -/
def strlen (k : Kernel) (s : CString) : Flow Kernel (Kernel × Word) := do
  let (k, text) ← k.chars fault s 0 stringRounds
  return (k, BitVec.ofNat 64 text.length)

/-- The loop of `kstrcpy` to an address. -/
def kstrcpyLoop (k : Kernel) (dest : Word) (src : CString) (i : Nat) : Nat → Flow Kernel Kernel
  | 0 => .stuck
  | rounds + 1 => do
      let (k, c) ← k.char fault src i
      let k ← k.storeByte fault (dest + BitVec.ofNat 64 i) c
      if c = 0 then return k
      k.kstrcpyLoop dest src (i + 1) rounds

/-- `kstrcpy` to an address. -/
def kstrcpy (k : Kernel) (dest : Word) (src : CString) : Flow Kernel Kernel :=
  k.kstrcpyLoop fault dest src 0 stringRounds

/-- The loop of `kstrcmp`: whether the strings agree. -/
def kstrcmpLoop (k : Kernel) (cs ct : CString) (i : Nat) : Nat → Flow Kernel (Kernel × Bool)
  | 0 => .stuck
  | rounds + 1 => do
      let (k, c1) ← k.char fault cs i
      let (k, c2) ← k.char fault ct i
      if c1 ≠ c2 then return (k, false)
      if c1 = 0 then return (k, true)
      k.kstrcmpLoop cs ct (i + 1) rounds

/-- `kstrcmp(cs, ct) == 0`. -/
def kstrcmp (k : Kernel) (cs ct : CString) : Flow Kernel (Kernel × Bool) :=
  k.kstrcmpLoop fault cs ct 0 stringRounds

end Kernel

end Sbrocks.Process
