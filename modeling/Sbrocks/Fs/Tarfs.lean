import Sbrocks.Process.PageFault

/-!
# The file system

The archive lies in the kernel image and is read through its virtual addresses.
Its files are a linked list of `struct file`; every search stops before the last
one.
-/

namespace Sbrocks.Process

open Sbrocks.Mmu

/-- `TYPE_DIRECTORY`. -/
def typeDirectory : Word := 5

/-- `'/'`. -/
def slash : Byte := 0x2f

/-- `"rootfs/"`. -/
def rootfsName : List Byte := [0x72, 0x6f, 0x6f, 0x74, 0x66, 0x73, 0x2f]

/-- An `int` where a `uint64_t` is expected. -/
def ofInt (x : BitVec 32) : Word := x.signExtend 64

/-- A `uint64_t` where an `int` is expected. -/
def toInt (x : Word) : BitVec 32 := x.setWidth 32

/-- `atoi`: `k*10 + c - '0'` for each character. -/
def atoi (text : List Byte) : BitVec 32 :=
  text.foldl (fun k c => (k <<< 3) + (k <<< 1) + c.signExtend 32 - 0x30) 0

/-- The loop of `octal_to_decimal`, with the power of eight that it has reached. -/
def octalLoop (oct : BitVec 32) (power : Word) : Nat → Word
  | 0 => 0
  | rounds + 1 =>
      if oct = 0 then 0
      else ofInt (oct.srem 10) * power + octalLoop (oct.sdiv 10) (power * 8) rounds

/-- `octal_to_decimal`; an `int` has at most ten decimal digits. -/
def octalToDecimal (oct : BitVec 32) : Word := octalLoop oct 1 11

/-- The room of a member in the archive: its header and its content, in whole
blocks of 512 bytes. -/
def memberRoom (size : Word) : Word :=
  let align := if size = 0 then 0 else if size % 512 = 0 then size else size + (512 - size % 512)
  512 + align

/-- The size in the header of a member, with its offset in the header. -/
def sizeOffset : Word := 124

/-- The type flag in the header of a member. -/
def typeflagOffset : Word := 156

namespace Kernel

variable (fault : Fault)

/-- The index of the first slash of a name. -/
def findSlash (k : Kernel) (name : CString) (i : Nat) : Nat → Flow Kernel (Kernel × Nat)
  | 0 => .stuck
  | rounds + 1 => do
      let (k, c) ← k.char fault name i
      if c = slash then return (k, i)
      k.findSlash name (i + 1) rounds

/-- `change_name`: what follows the first slash. -/
def changeName (k : Kernel) (name : CString) : Flow Kernel (Kernel × List Byte) := do
  let (k, i) ← k.findSlash fault name 0 stringRounds
  k.chars fault name (i + 1) stringRounds

/-- `octal_to_decimal(atoi(ustart->size))`. -/
def memberSize (k : Kernel) (ustart : Word) : Flow Kernel (Kernel × Word) := do
  let (k, text) ← k.chars fault (.atAddr (ustart + sizeOffset)) 0 stringRounds
  return (k, octalToDecimal (atoi text))

/-- The loop of `find_offset_for_file`. -/
def findOffsetLoop (k : Kernel) (fname : List Byte) (offset : Word) :
    Nat → Flow Kernel (Kernel × Word)
  | 0 => .stuck
  | rounds + 1 => do
      let ustart := k.binaryTarfsStart + offset
      let (k, length) ← k.strlen fault (.atAddr ustart)
      if length = 0 then return (k, 0)
      let (k, size) ← k.memberSize fault ustart
      let (k, matched) ← k.kstrcmp fault (.atAddr ustart) (.text fname)
      if matched then return (k, offset + 512)
      k.findOffsetLoop fname (offset + memberRoom size) rounds

/-- `find_offset_for_file`. -/
def findOffsetForFile (k : Kernel) (name : CString) : Flow Kernel (Kernel × Word) := do
  let (k, fname) ← k.changeName fault name
  k.findOffsetLoop fault fname 0 stringRounds

/-- `add_to_filelist`. -/
def addToFilelist (k : Kernel) (f : Word) : Flow Kernel Kernel :=
  match k.filelist with
  | none => .next ({ k with filelist := some f }.modFile f fun s => { s with next := none })
  | some first => do
      let t ← k.lastFile first
      let k := k.modFile t fun s => { s with next := some f }
      return k.modFile f fun s => { s with next := none }

/-- `kmalloc(sizeof(struct file))`. -/
def newFile (k : Kernel) : Flow Kernel (Kernel × Word) := do
  let (k, f) ← k.kmallocStruct 1072 k.fileStructs
  return ({ k with fileStructs := f :: k.fileStructs }, f)

/-- The loop of `initialize_tarfs`; the name is put together in the buffer, which is
cleared again. -/
def initializeTarfsLoop (k : Kernel) (buf offset : Word) : Nat → Flow Kernel Kernel
  | 0 => .stuck
  | rounds + 1 => do
      let ustart := k.binaryTarfsStart + offset
      let (k, name) ← k.chars fault (.atAddr ustart) 0 stringRounds
      if name = [] then return k
      let (k, f) ← k.newFile
      let k ← k.kstrcpy fault buf (.text (rootfsName ++ name))
      let k ← k.memset fault buf 0 (rootfsName ++ name).length
      let (k, type) ← k.chars fault (.atAddr (ustart + typeflagOffset)) 0 stringRounds
      let (k, size) ← k.memberSize fault ustart
      let k := k.modFile f fun _ =>
        { name := rootfsName ++ name, addr := ustart, fd := ofInt k.fdCount,
          type := ofInt (atoi type), size := size, offset := 0, next := none }
      let k := { k with fdCount := k.fdCount + 1 }
      let k ← k.addToFilelist f
      k.initializeTarfsLoop buf (offset + memberRoom size) rounds

/-- `initialize_tarfs`. -/
def initializeTarfs (k : Kernel) : Flow Kernel Kernel := do
  let k := { k with cwd := rootfsName }
  let (k, f) ← k.newFile
  let k := k.modFile f fun s =>
    { s with fd := ofInt k.fdCount, type := typeDirectory, name := rootfsName }
  let k := { k with fdCount := k.fdCount + 1 }
  let k ← k.addToFilelist f
  let (k, buf) ← k.kmalloc 1024
  let k ← k.initializeTarfsLoop fault buf 0 stringRounds
  let (k, length) ← k.strlen fault (.atAddr buf)
  return k.setMachine (k.m.kfree buf length)

/-- The file with a descriptor, among all but the last one. -/
def fileWithFd (k : Kernel) (fd : Word) (test : File → Bool) : Flow Kernel (Option Word) := do
  let first ← Flow.ofOption k.filelist
  let found ← Flow.ofOption (Chain.scan k.nextFile
    (fun t => (k.nextFile t).isNone || (k.file t).fd == fd && test (k.file t)) k.fileRounds first)
  match found with
  | none => return none
  | some t => return if (k.nextFile t).isNone then none else some t

/-- The loop of `fopen`. -/
def fopenLoop (k : Kernel) (name : CString) (t : Word) : Nat → Flow Kernel (Kernel × BitVec 32)
  | 0 => .stuck
  | rounds + 1 =>
      match k.nextFile t with
      | none => .next (k, -1)
      | some following => do
          let (k, same) ← k.kstrcmp fault (.text (k.file t).name) name
          if same then return (k, toInt (k.file t).fd)
          k.fopenLoop name following rounds

/-- `fopen`. -/
def fopen (k : Kernel) (name : CString) : Flow Kernel (Kernel × BitVec 32) := do
  let first ← Flow.ofOption k.filelist
  k.fopenLoop fault name first k.fileRounds

/-- `fread`. -/
def fread (k : Kernel) (fd buf nbytes : Word) : Flow Kernel (Kernel × BitVec 32) := do
  match ← k.fileWithFd fd fun _ => true with
  | none => return (k, -1)
  | some t =>
      let (k, offset) ← k.findOffsetForFile fault (.text (k.file t).name)
      let start := k.binaryTarfsStart + offset
      let size := ofInt (toInt (k.file t).size)
      let left := size - (k.file t).offset
      let nbytes := if left < nbytes then left else nbytes
      let k ← k.memcpy fault buf (start + (k.file t).offset) nbytes.toNat
      return (k.modFile t fun s => { s with offset := s.offset + nbytes }, toInt nbytes)

/-- `fwrite`. -/
def fwrite (k : Kernel) (fd buf nbytes : Word) : Flow Kernel (Kernel × Word) := do
  match ← k.fileWithFd fd fun _ => true with
  | none => return (k, -1)
  | some t =>
      let addr := (k.file t).addr + (k.file t).offset
      let k ← k.memcpy fault addr buf nbytes.toNat
      return (k.modFile t fun s => { s with offset := s.offset + nbytes }, 0)

/-- `fclose`. -/
def fclose (k : Kernel) (fd : Word) : Flow Kernel Kernel := do
  match ← k.fileWithFd fd fun _ => true with
  | none => return k
  | some t => return k.modFile t fun s => { s with offset := 0 }

/-- `fseek`. -/
def fseek (k : Kernel) (fd offset whence : Word) : Flow Kernel (Kernel × Word) := do
  match ← k.fileWithFd fd fun _ => true with
  | none => return (k, -1)
  | some t =>
      let file := k.file t
      let offset :=
        if whence = 0 then offset
        else if whence = 1 then file.offset + offset
        else if whence = 2 then file.size + offset
        else -1
      return (k.modFile t fun s => { s with offset := offset }, offset)

/-- `kstrncmp(cs, ct, size) == 0` for kernel strings, whose characters after the
end read as zero here: the comparison has stopped there. -/
def kstrncmp (cs ct : List Byte) (size : Nat) : Bool :=
  (cs ++ [0]).take size = (ct ++ [0]).take size

/-- `dopen`: the first entry of a directory. -/
def dopen (k : Kernel) (fd : Word) : Flow Kernel (Option Word) := do
  match ← k.fileWithFd fd fun file => file.type == typeDirectory with
  | none => return none
  | some t =>
      let name := (k.file t).name
      match k.nextFile t with
      | none => return none
      | some following =>
          return if kstrncmp (k.file following).name name name.length then some following else none

/-- The name of the directory that holds an entry: everything up to the last slash
that is not the entry's last character. -/
def directoryLength (name : List Byte) : Nat → Option Nat
  | 0 => none
  | i + 1 => if name.getD i 0 = slash then some (i + 1) else directoryLength name i

/-- The inner loop of `dread`. -/
def dreadLoop (k : Kernel) (name directory : List Byte) (t : Word) :
    Nat → Flow Kernel (Option Word)
  | 0 => .stuck
  | rounds + 1 =>
      match k.nextFile t with
      | none => .next none
      | some following =>
          let entry := (k.file following).name
          if kstrncmp entry directory directory.length then
            if kstrncmp entry name name.length then k.dreadLoop name directory following rounds
            else .next (some following)
          else .next none

/-- `dread`: the entry that follows one of the same directory. -/
def dread (k : Kernel) (fd : Word) (name : List Byte) : Flow Kernel (Option Word) := do
  match ← k.fileWithFd fd fun _ => true with
  | none => return none
  | some t =>
      -- without an earlier slash the scan leaves the name
      let length ← Flow.ofOption (directoryLength name (name.length - 1))
      k.dreadLoop name (name.take length) t k.fileRounds

end Kernel

end Sbrocks.Process
