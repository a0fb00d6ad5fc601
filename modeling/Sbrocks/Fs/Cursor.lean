import Mathlib
import Sbrocks.Fs.Indexing
import Sbrocks.Fs.Listing
import Sbrocks.Process.Devices
import Sbrocks.Syscall.Effects
import Sbrocks.System.Run

/-!
# Reading files

A file has one cursor, which every process that opened the file moves and which no
open and no exit resets.
-/

namespace Sbrocks.Process

open Sbrocks.Mmu Sbrocks.Radix

variable {fault : Fault} {roots : Word → Prop} {places : Nat → Place} {k k' : Kernel}

/-! ## A file of the archive -/

namespace Member

variable (member : Member)

/-- A size that fits in an `int` when its digits are read as decimal ones does so as well
when they are read as octal ones. -/
theorem data_length_lt : member.data.length < 2 ^ 31 := by
  have less : numeral 8 member.sizeDigits ≤ numeral 10 member.sizeDigits :=
    Nat.ofDigits_monotone _ (by decide)
  rw [member.size]
  exact Nat.lt_of_le_of_lt less member.fits

theorem archive_length (before after : List Member) :
    (archive (before ++ member :: after)).length =
      offsetOf before + (512 + member.data.length + member.padding.length) +
        (archive after).length := by
  rw [archive, archive, offsetOf, List.flatMap_append, List.flatMap_cons, List.append_assoc,
    List.append_assoc, List.length_append, List.length_append, member.bytes_length]
  omega

/-- The data of a member follows its header. -/
theorem archive_data (before after : List Member) :
    ((archive (before ++ member :: after)).drop (offsetOf before + 512)).take member.data.length =
      member.data := by
  rw [member.archive_drop, bytes, List.append_assoc, List.append_assoc,
    List.drop_left' member.headerLength, List.take_left]

end Member

/-- A file that is listed before another one, with the member of the archive that it
stands for. -/
structure FileAt (roots : Word → Prop) (places : Nat → Place) (before : List Member)
    (member : Member) (after : List Member) (files : List Word) (f : Word) (k : Kernel) : Prop where
  archived : Archived roots k (before ++ member :: after) places
  loaded : roots k.m.root
  distinct : ∀ other ∈ before, other.name ≠ member.name
  few : before.length < stringRounds
  listed : Chain.Linked k.nextFile k.filelist files
  structs : ∀ p ∈ files, p ∈ k.fileStructs
  fds : (files.map fun p => (k.file p).fd).Nodup
  inside : f ∈ files
  more : (k.nextFile f).isSome = true
  name : (k.file f).name = rootfsName ++ member.name
  size : (k.file f).size = BitVec.ofNat 64 member.data.length

/-- Only the cursors of files differ. -/
structure SameFiles (k k' : Kernel) : Prop where
  filelist : k'.filelist = k.filelist
  fileStructs : k'.fileStructs = k.fileStructs
  binaryTarfsStart : k'.binaryTarfsStart = k.binaryTarfsStart
  file : ∀ p, k'.file p = { k.file p with offset := (k'.file p).offset }

theorem SameFiles.of_devices (same : k'.devices = k.devices) : SameFiles k k' where
  filelist := congrArg Devices.filelist same
  fileStructs := congrArg Devices.fileStructs same
  binaryTarfsStart := congrArg Devices.binaryTarfsStart same
  file p := by
    rw [show k'.file = k.file from congrArg Devices.file same]

theorem SameFiles.modFile (k : Kernel) (p : Word) (cursor : File → Word) :
    SameFiles k (k.modFile p fun s => { s with offset := cursor s }) where
  filelist := rfl
  fileStructs := rfl
  binaryTarfsStart := rfl
  file other := by
    by_cases here : other = p
    · subst here
      simp [Kernel.modFile]
    · simp [Kernel.modFile, here]

theorem SameFiles.trans {k'' : Kernel} (first : SameFiles k k') (second : SameFiles k' k'') :
    SameFiles k k'' where
  filelist := second.filelist.trans first.filelist
  fileStructs := second.fileStructs.trans first.fileStructs
  binaryTarfsStart := second.binaryTarfsStart.trans first.binaryTarfsStart
  file p := by
    rw [second.file p, first.file p]

namespace FileAt

variable {before after : List Member} {member : Member} {files : List Word} {f : Word}

/-- A file stays what it is while the list of files and the archive stay. -/
theorem same (fileAt : FileAt roots places before member after files f k) (same : SameFiles k k')
    (archived : Archived roots k' (before ++ member :: after) places) (loaded : roots k'.m.root) :
    FileAt roots places before member after files f k' where
  archived := archived
  loaded := loaded
  distinct := fileAt.distinct
  few := fileAt.few
  listed := by
    rw [same.filelist]
    exact fileAt.listed.congr fun p _ => by rw [Kernel.nextFile, same.file p]; rfl
  structs p inside := same.fileStructs ▸ fileAt.structs p inside
  fds := by
    rw [List.map_congr_left fun p _ => show (k'.file p).fd = (k.file p).fd by rw [same.file p]]
    exact fileAt.fds
  inside := fileAt.inside
  more := by
    rw [Kernel.nextFile, same.file f]
    exact fileAt.more
  name := by
    rw [same.file f]
    exact fileAt.name
  size := by
    rw [same.file f]
    exact fileAt.size

/-- The file is found by its descriptor. -/
theorem fileWithFd (fileAt : FileAt roots places before member after files f k) :
    k.fileWithFd (k.file f).fd (fun _ => true) = .next (some f) := by
  rcases List.append_of_mem fileAt.inside with ⟨front, back, rfl⟩
  have more := fileAt.more
  rw [fileWithFd_eq fileAt.listed fileAt.structs fileAt.fds rfl]
  cases next : k.nextFile f with
  | none =>
      rw [next] at more
      cases more
  | some following => rfl

variable (fault) in
/-- What `fread` copies, and how it moves the cursor. -/
theorem fread_eq (fileAt : FileAt roots places before member after files f k) {buf nbytes : Word}
    {target : Nat → Place} {cursor n : Nat} (buffer : Span roots k.m buf n target)
    (injective : ∀ i < n, ∀ j < n, target i = target j → i = j)
    (apart : ∀ i < (Member.archive (before ++ member :: after)).length, ∀ j < n,
      places i ≠ target j) (here : (k.file f).offset = BitVec.ofNat 64 cursor)
    (inside : cursor ≤ member.data.length) (count : n = min nbytes.toNat (member.data.length - cursor)) :
    ∃ m', k.fread fault (k.file f).fd buf nbytes =
        .next ((k.setMachine m').modFile f fun s => { s with offset := s.offset + BitVec.ofNat 64 n },
          BitVec.ofNat 32 n) ∧
      content m' target n = (member.data.drop cursor).take n ∧
      Wrote roots k.m m' (fun place => ∃ i < n, place = target i) := by
  have small := member.data_length_lt
  have size : ofInt (toInt (k.file f).size) = BitVec.ofNat 64 member.data.length := by
    rw [fileAt.size, toInt, BitVec.setWidth_ofNat_of_le (by decide)]
    exact ofInt_ofNat small
  have left : BitVec.ofNat 64 member.data.length - BitVec.ofNat 64 cursor =
      BitVec.ofNat 64 (member.data.length - cursor) := by
    apply BitVec.eq_of_toNat_eq
    simp only [BitVec.toNat_sub, BitVec.toNat_ofNat]
    omega
  have bytes : (if BitVec.ofNat 64 (member.data.length - cursor) < nbytes
      then BitVec.ofNat 64 (member.data.length - cursor) else nbytes) = BitVec.ofNat 64 n := by
    have bound := nbytes.isLt
    apply BitVec.eq_of_toNat_eq
    split
    · rename_i less
      rw [BitVec.lt_def, BitVec.toNat_ofNat] at less
      rw [BitVec.toNat_ofNat, BitVec.toNat_ofNat]
      omega
    · rename_i less
      rw [BitVec.lt_def, BitVec.toNat_ofNat] at less
      rw [BitVec.toNat_ofNat]
      omega
  obtain ⟨start, position⟩ : ∃ start, start = Member.offsetOf before + 512 + cursor := ⟨_, rfl⟩
  have data := member.archive_data before after
  have room : start + n ≤ (Member.archive (before ++ member :: after)).length := by
    rw [member.archive_length]
    omega
  have source := fileAt.archived.span.part start n room
  have stored : content k.m (fun i => places (start + i)) n =
      (member.data.drop cursor).take n := by
    have rest := congrArg (fun bytes => (bytes.drop start).take n) fileAt.archived.stored
    simp only [content_drop] at rest
    rw [content_take _ _ (by omega)] at rest
    rw [rest, ← data, List.drop_take, List.drop_drop, List.take_take, position,
      Nat.min_eq_left (by omega)]
  have copied : k.memcpy fault buf _ n = _ := Kernel.memcpy_eq buffer source
    fileAt.loaded fun i below j below' => apart _ (by omega) j below'
  have fits : (content k.m (fun i => places (start + i)) n).length = n := content_length _ _ _
  rcases Kernel.storeBytes_eq fault (fits.symm ▸ buffer) fileAt.loaded with
    ⟨m', written, wrote, back⟩
  rw [fits] at wrote back
  refine ⟨m', ?_, ?_, ?_⟩
  · have offset : k.findOffsetForFile fault (.text (k.file f).name) = _ :=
      fileAt.name ▸ fileAt.archived.findOffsetForFile_eq fileAt.distinct fileAt.few
    unfold Kernel.fread
    rw [fileAt.fileWithFd, Flow.next_bind]
    dsimp only
    rw [offset, Flow.next_bind]
    dsimp only
    have address : k.binaryTarfsStart + (BitVec.ofNat 64 (Member.offsetOf before) + 512) +
        BitVec.ofNat 64 cursor = k.binaryTarfsStart + BitVec.ofNat 64 start := by
      rw [position, BitVec.ofNat_add, BitVec.ofNat_add, BitVec.add_assoc]
      rfl
    have value : (BitVec.ofNat 64 n).toNat = n := by
      rw [BitVec.toNat_ofNat]
      exact Nat.mod_eq_of_lt (by omega)
    rw [size, here, left, bytes, address, value, copied, written, Flow.next_bind, toInt,
      BitVec.setWidth_ofNat_of_le (by decide)]
    rfl
  · rw [back injective, stored]
  · exact wrote

end FileAt

/-- `fopen` finds the first file with the name, if it is not the last of the list. -/
theorem Kernel.fopenLoop_eq {name : CString} {text : List Byte} {front back : List Word}
    {f : Word} {head : Option Word} {rounds : Nat} (spells : Spells fault k name text)
    (named : (k.file f).name = text) (others : ∀ p ∈ front, (k.file p).name ≠ text)
    (clean : ∀ p ∈ front ++ [f], (0 : Byte) ∉ (k.file p).name ∧
      (k.file p).name.length < stringRounds)
    (listed : Chain.Linked k.nextFile head (front ++ f :: back)) (more : (k.nextFile f).isSome = true)
    (room : front.length < rounds) :
    ∃ first, head = some first ∧
      k.fopenLoop fault name first rounds = .next (k, toInt (k.file f).fd) := by
  have zero : (0 : Byte) ∉ text := named ▸ (clean f (by simp)).1
  induction front generalizing head rounds with
  | nil =>
      refine ⟨f, listed.1, ?_⟩
      cases rounds with
      | zero => exact absurd room (Nat.not_lt_zero _)
      | succ rounds =>
          unfold fopenLoop
          cases next : k.nextFile f with
          | none =>
              rw [next] at more
              cases more
          | some following =>
              dsimp only
              rw [Kernel.kstrcmp_eq (Kernel.spells_text k _) spells (named.symm ▸ zero) zero
                (clean f (by simp)).2, Flow.next_bind, decide_eq_true named]
              rfl
  | cons p front ih =>
      refine ⟨p, listed.1, ?_⟩
      cases rounds with
      | zero => exact absurd room (Nat.not_lt_zero _)
      | succ rounds =>
          rcases ih (fun q inside => others q (List.mem_cons_of_mem _ inside))
            (fun q inside => clean q (List.mem_cons_of_mem _ inside)) listed.2
            (Nat.lt_of_succ_lt_succ room) with ⟨following, next, found⟩
          have here := clean p List.mem_cons_self
          unfold fopenLoop
          rw [show k.nextFile p = some following from next]
          dsimp only
          rw [Kernel.kstrcmp_eq (Kernel.spells_text k _) spells here.1 zero here.2, Flow.next_bind,
            decide_eq_false (others p List.mem_cons_self)]
          exact found

/-! ## Calls on files -/

/-- What a process asks of its files. -/
inductive FileCall where
  | fopen (filepath : Word)
  | fread (fd buf nbytes : Word)
  | fseek (fd offset whence : Word)
  | fclose (fd : Word)
  | exit

/-- The descriptor that a call names. -/
def FileCall.descriptor : FileCall → Option Word
  | .fopen _ => none
  | .fread fd _ _ => some fd
  | .fseek fd _ _ => some fd
  | .fclose fd => some fd
  | .exit => none

/-- A call of the current process, its result and the state after it. -/
inductive Called (fault : Fault) (k : Kernel) : FileCall → Word → Kernel → Prop
  | fopen {filepath fd : Word} {k' : Kernel} (opened : k.systemOpen fault filepath = .next (k', fd)) :
      Called fault k (.fopen filepath) fd k'
  | fread {fd buf nbytes : Word} {count : BitVec 32} {k' : Kernel}
      (read : k.fread fault fd buf nbytes = .next (k', count)) :
      Called fault k (.fread fd buf nbytes) (ofInt count) k'
  | fseek {fd offset whence result : Word} {k' : Kernel}
      (moved : k.fseek fd offset whence = .next (k', result)) :
      Called fault k (.fseek fd offset whence) result k'
  | fclose {fd : Word} {k' : Kernel} (closed : k.fclose fd = .next k') :
      Called fault k (.fclose fd) 0 k'
  | exit {k' : Kernel} (gone : Ends (k.systemExit fault : Flow Kernel Kernel) k') :
      Called fault k .exit 0 k'

theorem Kernel.fileWithFd_found {fd t : Word} {test : File → Bool}
    (found : k.fileWithFd fd test = .next (some t)) : (k.file t).fd = fd := by
  unfold Kernel.fileWithFd at found
  rcases Flow.bind_eq_next found with ⟨first, _, rest⟩
  rcases Flow.bind_eq_next rest with ⟨scanned, scan, last⟩
  cases scanned with
  | none => cases last
  | some p =>
      have passes := Chain.scan_found (Flow.ofOption_eq_next scan)
      dsimp only at last
      split at last
      · cases last
      · rename_i more
        cases last
        simp only [Bool.or_eq_true, Bool.and_eq_true, beq_iff_eq] at passes
        exact (passes.resolve_left more).1

/-- A call that does not name a file's descriptor leaves the file's cursor alone. -/
theorem Called.others {frames : Kernel → Word → Regs} {depth : Nat} {call : FileCall}
    {result f : Word} (called : Called (Kernel.kernelFault frames depth) k call result k')
    (other : call.descriptor ≠ some (k.file f).fd) :
    SameFiles k k' ∧ (k'.file f).offset = (k.file f).offset := by
  have answers := kernelFault_touched frames depth
  have unmoved : ∀ {k₁ : Kernel}, k₁.devices = k.devices →
      SameFiles k k₁ ∧ (k₁.file f).offset = (k.file f).offset := by
    intro k₁ same
    refine ⟨.of_devices same, ?_⟩
    rw [show k₁.file = k.file from congrArg Devices.file same]
  have moved : ∀ {k₁ : Kernel} {fd t : Word} {cursor : File → Word}, k₁.devices = k.devices →
      call.descriptor = some fd → k.fileWithFd fd (fun _ => true) = .next (some t) →
      SameFiles k (k₁.modFile t fun s => { s with offset := cursor s }) ∧
        ((k₁.modFile t fun s => { s with offset := cursor s }).file f).offset =
          (k.file f).offset := by
    intro k₁ fd t cursor same named found
    rcases unmoved same with ⟨files, offset⟩
    refine ⟨files.trans (.modFile k₁ t cursor), ?_⟩
    have different : f ≠ t := by
      rintro rfl
      rw [Kernel.fileWithFd_found found] at other
      exact other named
    rw [← offset]
    simp [Kernel.modFile, different]
  cases called with
  | @fopen filepath _ _ opened =>
      rcases Flow.bind_eq_next opened with ⟨⟨k₁, fd⟩, found, last⟩
      cases last
      have touched := Kernel.fopen_touches answers.touched (k := k) trivial (.atAddr filepath)
      exact unmoved (touched.of_next found).devices
  | @fread fd buf nbytes _ _ read =>
      rcases Flow.bind_eq_next read with ⟨found, scan, rest⟩
      cases found with
      | none =>
          cases rest
          exact unmoved rfl
      | some t =>
          rcases Flow.bind_eq_next rest with ⟨⟨k₁, start⟩, offset, rest⟩
          rcases Flow.bind_eq_next rest with ⟨k₂, copied, last⟩
          cases last
          have touched₁ : Touched k k₁ :=
            (Kernel.findOffsetForFile_touches answers.touched trivial _).of_next offset
          have touched₂ : Touched k₁ k₂ := (Kernel.memcpy_touches answers.touched trivial _ _ _).of_next copied
          exact moved (touched₁.trans touched₂).devices rfl scan
  | @fseek fd offset whence _ _ seek =>
      rcases Flow.bind_eq_next seek with ⟨found, scan, rest⟩
      cases found with
      | none =>
          cases rest
          exact unmoved rfl
      | some t =>
          cases rest
          exact moved rfl rfl scan
  | @fclose fd _ closed =>
      rcases Flow.bind_eq_next closed with ⟨found, scan, rest⟩
      cases found with
      | none =>
          cases rest
          exact unmoved rfl
      | some t =>
          cases rest
          exact moved rfl rfl scan
  | exit gone =>
      have kept : (k.systemExit (Kernel.kernelFault frames depth) : Flow Kernel Kernel).All
          (fun result => (HasState.state result).devices = k.devices)
          fun k' => k'.devices = k.devices :=
        Kernel.systemExit_keeps (kernelFault_keeps frames depth k.devices) rfl
      generalize (k.systemExit (Kernel.kernelFault frames depth) : Flow Kernel Kernel) = flow at *
      cases flow with
      | next result =>
          cases gone
          exact unmoved kept
      | left state =>
          cases gone
          exact unmoved kept
      | stuck => cases gone

/-! ## Reading a file to the end -/

/-- Memory that can be read into: distinct places of data, apart from the archive. -/
structure Buffer (roots : Word → Prop) (places : Nat → Place) (length : Nat) (k : Kernel)
    (buf : Word) (n : Nat) (target : Nat → Place) : Prop where
  span : Span roots k.m buf n target
  injective : ∀ i < n, ∀ j < n, target i = target j → i = j
  apart : ∀ i < length, ∀ j < n, places i ≠ target j

/-- What may be asked of the steps of a run: of the state in which the file is opened, of
the buffers of its reader, of the calls of others, and of everything else. -/
structure Conditions where
  opens : Kernel → Prop
  reads : Kernel → Word → Nat → (Nat → Place) → Prop
  others : Kernel → FileCall → Kernel → Prop
  switches : Kernel → Kernel → Prop

/-- A process opened a file and since then only read it: how many bytes it asked for, which
bytes it got, and the state reached. -/
inductive Reading (fault : Fault) (meets : Conditions) (p f : Word) :
    Nat → List Byte → Kernel → Prop
  | opened {k k' : Kernel} {filepath fd : Word} (running : k.currentTask = some p)
      (called : Called fault k (.fopen filepath) fd k') (found : fd = (k'.file f).fd)
      (met : meets.opens k) (stays : meets.others k (.fopen filepath) k') :
      Reading fault meets p f 0 [] k'
  | read {k k' : Kernel} {asked : Nat} {got : List Byte} {buf nbytes count : Word}
      {target : Nat → Place} (before : Reading fault meets p f asked got k)
      (running : k.currentTask = some p)
      (called : Called fault k (.fread (k.file f).fd buf nbytes) count k')
      (reached : ∀ i < nbytes.toNat, k.m.place (buf + BitVec.ofNat 64 i) = some (target i))
      (met : meets.reads k buf nbytes.toNat target) :
      Reading fault meets p f (asked + nbytes.toNat) (got ++ content k'.m target count.toNat) k'
  | other {k k' : Kernel} {asked : Nat} {got : List Byte} {call : FileCall} {result : Word}
      (before : Reading fault meets p f asked got k) (elsewhere : k.currentTask ≠ some p)
      (called : Called fault k call result k') (met : meets.others k call k') :
      Reading fault meets p f asked got k'
  | switch {k k' : Kernel} {asked : Nat} {got : List Byte}
      (before : Reading fault meets p f asked got k) (same : k'.devices = k.devices)
      (met : meets.switches k k') : Reading fault meets p f asked got k'

/-- The file was at its start when it was opened, and nobody else reads, moves or closes it
while the archive stays in memory. -/
def undisturbed (roots : Word → Prop) (places : Nat → Place) (before : List Member)
    (member : Member) (after : List Member) (files : List Word) (f : Word) : Conditions where
  opens k := FileAt roots places before member after files f k ∧ (k.file f).offset = 0
  reads := Buffer roots places (Member.archive (before ++ member :: after)).length
  others k call k' := call.descriptor ≠ some (k.file f).fd ∧
    Archived roots k' (before ++ member :: after) places ∧ roots k'.m.root
  switches _ k' := Archived roots k' (before ++ member :: after) places ∧ roots k'.m.root

/-- Less may be read into it. -/
theorem Buffer.take {length : Nat} {buf : Word} {more n : Nat} {target : Nat → Place}
    (buffer : Buffer roots places length k buf more target) (fewer : n ≤ more) :
    Buffer roots places length k buf n target where
  span := buffer.span.take fewer
  injective i below j below' := buffer.injective i (by omega) j (by omega)
  apart i inside j below := buffer.apart i inside j (by omega)

/-- The archive stays where it is when bytes of a buffer are written. -/
theorem Archived.buffered {members : List Member} {buf : Word} {n : Nat} {target : Nat → Place}
    {m' : Machine} (archived : Archived roots k members places) (loaded : roots k.m.root)
    (buffer : Buffer roots places (Member.archive members).length k buf n target)
    (wrote : Wrote roots k.m m' fun place => ∃ i < n, place = target i) :
    Archived roots (k.setMachine m') members places := by
  refine ⟨archived.span.wrote loaded wrote,
    (content_congr fun i inside => ?_).trans archived.stored⟩
  apply wrote.bytes
  rintro ⟨j, below, same⟩
  exact buffer.apart i inside j below same

section Undisturbed

variable {before after : List Member} {member : Member} {files : List Word} {f p : Word}
  {frames : Kernel → Word → Regs} {depth asked : Nat} {got : List Byte}

/-- One read gets the bytes that follow those read before. -/
theorem FileAt.read (fileAt : FileAt roots places before member after files f k)
    {buf nbytes count : Word} {target : Nat → Place}
    (buffer : Buffer roots places (Member.archive (before ++ member :: after)).length k buf
      nbytes.toNat target)
    (cursor : (k.file f).offset = BitVec.ofNat 64 (member.data.take asked).length)
    (called : Called fault k (.fread (k.file f).fd buf nbytes) count k') :
    FileAt roots places before member after files f k' ∧
      member.data.take asked ++ content k'.m target count.toNat =
        member.data.take (asked + nbytes.toNat) ∧
      (k'.file f).offset = BitVec.ofNat 64 (member.data.take (asked + nbytes.toNat)).length := by
  have small := member.data_length_lt
  have inside : (member.data.take asked).length ≤ member.data.length := by
    rw [List.length_take]
    exact Nat.min_le_right _ _
  obtain ⟨n, least⟩ : ∃ n, n = min nbytes.toNat
    (member.data.length - (member.data.take asked).length) := ⟨_, rfl⟩
  have buffer := buffer.take (n := n) (by omega)
  rcases fileAt.fread_eq fault buffer.span buffer.injective buffer.apart cursor inside
    least with ⟨m', read, stored, wrote⟩
  have taken : member.data.take asked ++ (member.data.drop (member.data.take asked).length).take n =
      member.data.take (asked + nbytes.toNat) := by
    rw [List.take_add]
    congr 1
    by_cases whole : asked ≤ member.data.length
    · rw [List.length_take, Nat.min_eq_left whole] at least ⊢
      rw [least, ← List.length_drop]
      exact List.take_eq_take_min.symm
    · rw [List.length_take, Nat.min_eq_right (by omega), List.drop_length,
        List.drop_eq_nil_of_le (by omega), List.take_nil, List.take_nil]
  have length := congrArg List.length taken
  rw [List.length_append, List.length_take_of_le (i := n) (by rw [List.length_drop]; omega)] at length
  have bound : n < 2 ^ 31 := by omega
  have value : (ofInt (BitVec.ofNat 32 n)).toNat = n := by
    rw [ofInt_ofNat bound, BitVec.toNat_ofNat]
    exact Nat.mod_eq_of_lt (by omega)
  cases called with
  | fread returned =>
      rw [read] at returned
      cases returned
      have archived := fileAt.archived.buffered fileAt.loaded buffer wrote
      have files : SameFiles k (k.setMachine m') := .of_devices rfl
      refine ⟨fileAt.same (files.trans (.modFile _ f _)) ⟨archived.span, archived.stored⟩
        (wrote.root ▸ fileAt.loaded), ?_, ?_⟩
      · rw [value]
        exact (congrArg _ stored).trans taken
      · rw [← length, BitVec.ofNat_add, ← cursor]
        simp [Kernel.modFile, Kernel.setMachine]

/-- A process that opened an undisturbed file and reads it gets its bytes in order. -/
theorem reads_in_order (reading : Reading (Kernel.kernelFault frames depth)
      (undisturbed roots places before member after files f) p f asked got k) :
    got = member.data.take asked := by
  have all : FileAt roots places before member after files f k ∧
      got = member.data.take asked ∧
      (k.file f).offset = BitVec.ofNat 64 (member.data.take asked).length := by
    induction reading with
    | opened running called found met stays =>
        rcases met with ⟨fileAt, start⟩
        rcases stays with ⟨other, archived, loaded⟩
        rcases called.others other with ⟨same, cursor⟩
        exact ⟨fileAt.same same archived loaded, rfl, cursor.trans start⟩
    | read earlier running called reached met ih =>
        rcases ih with ⟨fileAt, rfl, cursor⟩
        exact fileAt.read met cursor called
    | other earlier elsewhere called met ih =>
        rcases ih with ⟨fileAt, same, cursor⟩
        rcases met with ⟨other, archived, loaded⟩
        rcases called.others other with ⟨files, unmoved⟩
        exact ⟨fileAt.same files archived loaded, same, unmoved.trans cursor⟩
    | switch earlier same met ih =>
        rcases ih with ⟨fileAt, order, cursor⟩
        refine ⟨fileAt.same (.of_devices same) met.1 met.2, order, ?_⟩
        rw [← cursor, show Kernel.file _ = Kernel.file _ from congrArg Devices.file same]
  exact all.2.1

end Undisturbed

/-! ## Two files -/

/-- The files `a` and `b` with one byte each. -/
def fileA : Member := oneByteFile 0x61 (by decide)

def fileB : Member := oneByteFile 0x62 (by decide)

/-- A kernel that has listed the two files, with one task or two. -/
def twoReaders (m : Machine) (start : Word) : Kernel :=
  { Kernel.initial m start with
    file := fun f =>
      if f = 1 then
        { (default : File) with name := rootfsName, fd := 2, type := typeDirectory, next := some 2 }
      else if f = 2 then { fileA.entry start 0 3 with next := some 3 }
      else fileB.entry start 1024 4
    fileStructs := [3, 2, 1]
    filelist := some 1
    task := fun t => { (default : TaskStruct) with
      pml4e := 0x1000, next := if t = 0x1000 then some 0x2000 else none }
    taskStructs := [0x2000, 0x1000]
    taskList := some 0x1000
    currentTask := some 0x1000 }

/-- The two files are in memory, with the path of the first one and a byte to read into. -/
theorem twoReaders_fileAt : ∃ roots places m start, ∃ target : Nat → Place,
    FileAt roots places [] fileA [fileB] [1, 2, 3] 2 (twoReaders m start) ∧
    Kernel.Spells (Kernel.kernelFault noFrames 0) (twoReaders m start) (.atAddr (start + 2560#64))
      (rootfsName ++ [0x61]) ∧
    Buffer roots places (Member.archive [fileA, fileB]).length (twoReaders m start)
      (start + 3000#64) 1 target := by
  let start := Machine.bootExample.virtualTop
  have length : (Member.archive [fileA, fileB]).length = 2560 := by
    rw [Member.archive, List.flatMap_cons, List.flatMap_singleton, List.length_append,
      List.length_append, List.length_replicate, fileA, fileB, oneByteFile_bytes_length,
      oneByteFile_bytes_length]
  obtain ⟨bytes, layout⟩ : ∃ bytes, bytes = Member.archive [fileA, fileB] ++
    ((rootfsName ++ [0x61]) ++ 0 :: []) := ⟨_, rfl⟩
  have size : bytes.length = 2569 := by
    rw [layout, List.length_append, length]
    rfl
  rcases exists_page bytes (by rw [size]; decide) with
    ⟨roots, m, frame, orderly, _, _, span, stored, _⟩
  rw [size, layout] at stored
  let k := twoReaders m start
  have archived : Archived roots k [fileA, fileB] (pagePlaces frame) := by
    refine ⟨span.take (by rw [length]; decide), ?_⟩
    have first := congrArg (List.take 2560) stored
    rw [content_take _ _ (by decide), List.take_left' length] at first
    rw [length]
    exact first
  have path : Kernel.Spells (Kernel.kernelFault noFrames 0) k (.atAddr (start + 2560#64))
      (rootfsName ++ [0x61]) := by
    apply Kernel.spells_atAddr [] (span.part 2560 9 (by decide))
    have second := congrArg (List.drop 2560) stored
    rwa [content_drop, List.drop_left' length] at second
  have fileAt : FileAt roots (pagePlaces frame) [] fileA [fileB] [1, 2, 3] 2 k := {
    archived := archived
    loaded := orderly.loaded
    distinct := List.forall_mem_nil _
    few := by decide
    listed := ⟨rfl, rfl, rfl, rfl⟩
    structs := by
      intro p inside
      show p ∈ ([3, 2, 1] : List Word)
      simp only [List.mem_cons, List.not_mem_nil, or_false] at inside ⊢
      rcases inside with rfl | rfl | rfl <;> simp
    fds := show ([2, 3, 4] : List Word).Nodup by decide
    inside := by decide
    more := rfl
    name := rfl
    size := rfl }
  have buffer : Buffer roots (pagePlaces frame) (Member.archive [fileA, fileB]).length k
      (start + 3000#64) 1 fun i => pagePlaces frame (3000 + i) := {
    span := span.part 3000 1 (by decide)
    injective := fun i inside j inside' _ => by omega
    apart := by
      intro i inside j inside' same
      rw [length] at inside
      have := pagePlaces_inj (Nat.le_refl 4096) (by omega) (by omega) same
      omega }
  exact ⟨roots, pagePlaces frame, m, start, _, fileAt, path, buffer⟩

/-- The first task opens the first file and gets its byte. -/
theorem reads_in_order_twoReaders : ∃ roots places k got,
    Reading (Kernel.kernelFault noFrames 0) (undisturbed roots places [] fileA [fileB] [1, 2, 3] 2)
      0x1000 2 1 got k ∧ got = [0x62] := by
  rcases twoReaders_fileAt with ⟨roots, places, m, start, target, fileAt, path, buffer⟩
  have clean : ∀ p ∈ [(1 : Word)] ++ [2], (0 : Byte) ∉ ((twoReaders m start).file p).name ∧
      ((twoReaders m start).file p).name.length < stringRounds := by
    intro p inside
    rcases List.mem_pair.mp inside with rfl | rfl
    · exact ⟨show (0 : Byte) ∉ rootfsName by decide, show 7 < stringRounds by decide⟩
    · exact ⟨show (0 : Byte) ∉ rootfsName ++ [0x61] by decide, show 8 < stringRounds by decide⟩
  have first : ∀ p ∈ [(1 : Word)], ((twoReaders m start).file p).name ≠ rootfsName ++ [0x61] := by
    intro p inside
    rw [List.mem_singleton.mp inside]
    show rootfsName ≠ rootfsName ++ [0x61]
    decide
  rcases Kernel.fopenLoop_eq path rfl first clean fileAt.listed rfl (show 1 < 4 by decide) with
    ⟨head, same, found⟩
  cases same
  have opened : Called (Kernel.kernelFault noFrames 0) (twoReaders m start)
      (.fopen (start + 2560#64)) 3 (twoReaders m start) := by
    apply Called.fopen
    unfold Kernel.systemOpen Kernel.fopen
    rw [show (twoReaders m start).filelist = some 1 from rfl, Flow.ofOption_some, Flow.next_bind]
    refine (congrArg (· >>= _) found).trans ?_
    rfl
  have cursor : ((twoReaders m start).file 2).offset = BitVec.ofNat 64 0 := rfl
  rcases fileAt.fread_eq (Kernel.kernelFault noFrames 0) buffer.span buffer.injective buffer.apart
    cursor (Nat.zero_le _)
    (show 1 = min (1 : Word).toNat (fileA.data.length - 0) from rfl) with ⟨m', read, _, _⟩
  have opening : Reading (Kernel.kernelFault noFrames 0)
      (undisturbed roots places [] fileA [fileB] [1, 2, 3] 2) 0x1000 2 0 [] (twoReaders m start) :=
    .opened rfl opened rfl ⟨fileAt, rfl⟩ ⟨nofun, fileAt.archived, fileAt.loaded⟩
  have run := opening.read rfl (.fread read) buffer.span.place buffer
  exact ⟨roots, places, _, _, run, reads_in_order run⟩

/-! ## One cursor for two processes -/

/-- A machine that maps its first pages to the frames with their numbers: a path is in the
seventh, and the archive of the first file in the ninth. -/
def pathMachine : Machine where
  phy := ⟨fun _ => 0, fun _ _ => 0, []⟩
  mem frame i :=
    if frame = 1 then 0x2007
    else if frame = 2 then 0x3007
    else if frame = 3 then 0x4007
    else if frame = 4 then BitVec.ofNat 64 (i.toNat * 0x1000 + 7)
    else if frame = 6 then if i = 0 then 0x612f7366746f6f72 else 0
    else if frame = 8 then
      if i = 0 then 0x61
      else if i = 15 then 0x3030303000000000
      else if i = 16 then 0x0031303030303030
      else if i = 64 then 0x62
      else 0
    else 0
  cr3 := 0x1000
  kCr3 := 0x1000
  virtualTop := 0x10000

def sharedFile : Kernel := twoReaders pathMachine 0x8000

/-- Nothing is asked of a run. -/
def unconditioned : Conditions where
  opens _ := True
  reads _ _ _ _ := True
  others _ _ _ := True
  switches _ _ := True

set_option maxRecDepth 8000 in
/-- The first task moves the cursor and exits, and the second task reads nothing. -/
theorem sharedFile_checks :
    (sharedFile.systemOpen (Kernel.kernelFault noFrames 0) 0x6000).returns (fun (k, fd) =>
      fd = 3 && (k.fseek 3 1 0).returns fun (k, result) => result = 1 &&
      Flow.checks (k.systemExit (Kernel.kernelFault noFrames 0) : Flow Kernel Kernel) fun k =>
      k.currentTask = some 0x2000 &&
      (k.systemOpen (Kernel.kernelFault noFrames 0) 0x6000).returns fun (k, fd) =>
      fd = 3 && k.currentTask = some 0x2000 && (k.file 2).fd = 3 &&
      k.m.place 0x7000 = some (7, 0) &&
      (k.fread (Kernel.kernelFault noFrames 0) 3 0x7000 1).returns fun (_, count) =>
      count = 0) = true := by
  decide_cbv

/-- A process opens a file whose data is one byte, reads one byte and gets none: another
process had moved the cursor to the end of the file before it exited. -/
theorem sharedFile_reads_nothing :
    (sharedFile.file 2).name = rootfsName ++ fileA.name ∧ fileA.data = [0x62] ∧
      (sharedFile.m.place (0x8000 + 512)).map sharedFile.m.byte = some 0x62 ∧
      ∃ k₁ k₂ k₃ k₄,
        Called (Kernel.kernelFault noFrames 0) sharedFile (.fopen 0x6000) 3 k₁ ∧
        Called (Kernel.kernelFault noFrames 0) k₁ (.fseek 3 1 0) 1 k₂ ∧
        Called (Kernel.kernelFault noFrames 0) k₂ .exit 0 k₃ ∧
        Called (Kernel.kernelFault noFrames 0) k₃ (.fopen 0x6000) 3 k₄ ∧
        ∃ k₅, Reading (Kernel.kernelFault noFrames 0) unconditioned 0x2000 2 1 [] k₅ := by
  rcases Flow.returns_next sharedFile_checks with ⟨⟨k₁, _⟩, opened, facts⟩
  simp only [Bool.and_eq_true, decide_eq_true_eq] at facts
  rcases facts with ⟨rfl, sought⟩
  rcases Flow.returns_next sought with ⟨⟨k₂, _⟩, moved, facts⟩
  simp only [Bool.and_eq_true, decide_eq_true_eq] at facts
  rcases facts with ⟨rfl, left⟩
  rcases Flow.checks_reached left k₂ with ⟨gone, facts⟩
  simp only [Bool.and_eq_true, decide_eq_true_eq] at facts
  rcases facts with ⟨running, again⟩
  rcases Flow.returns_next again with ⟨⟨k₄, _⟩, reopened, facts⟩
  simp only [Bool.and_eq_true, decide_eq_true_eq] at facts
  rcases facts with ⟨⟨⟨⟨rfl, current⟩, descriptor⟩, page⟩, last⟩
  rcases Flow.returns_next last with ⟨⟨k₅, _⟩, read, none⟩
  cases of_decide_eq_true none
  have start : Reading (Kernel.kernelFault noFrames 0) unconditioned 0x2000 2 0 [] k₄ :=
    .opened running (.fopen reopened) descriptor.symm trivial trivial
  have called : Called (Kernel.kernelFault noFrames 0) k₄ (.fread (k₄.file 2).fd 0x7000 1) 0 k₅ :=
    descriptor.symm ▸ .fread read
  have reached : ∀ i < (1 : Word).toNat, k₄.m.place (0x7000 + BitVec.ofNat 64 i) = some (7, 0) := by
    intro i below
    cases Nat.lt_one_iff.mp below
    exact page
  exact ⟨rfl, rfl, rfl, k₁, k₂, _, k₄, .fopen opened, .fseek moved, .exit gone, .fopen reopened,
    k₅, start.read current called reached trivial⟩

end Sbrocks.Process
