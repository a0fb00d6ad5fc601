import Sbrocks.Fs.Cursor

/-!
# Reading at the end of a file

`fread` bounds what it copies by the unsigned difference of size and cursor.  A cursor
behind the end makes that difference huge, and the bytes that follow the file are read.
-/

namespace Sbrocks.Process

open Sbrocks.Mmu Sbrocks.Radix

/-- A file of the list, with the member of the archive that it stands for. -/
structure FileIn (roots : Word → Prop) (places : Nat → Place) (before : List Member)
    (member : Member) (after : List Member) (files : List Word) (f : Word) (k : Kernel) : Prop where
  archived : Archived roots k (before ++ member :: after) places
  loaded : roots k.m.root
  distinct : ∀ other ∈ before, other.name ≠ member.name
  few : before.length < stringRounds
  listed : Chain.Linked k.nextFile k.filelist files
  structs : ∀ p ∈ files, p ∈ k.fileStructs
  fds : (files.map fun p => (k.file p).fd).Nodup
  inside : f ∈ files
  name : (k.file f).name = rootfsName ++ member.name
  size : (k.file f).size = BitVec.ofNat 64 member.data.length

/-- How many bytes a read should get. -/
def readCount (member : Member) (k : Kernel) (f nbytes : Word) : Nat :=
  min nbytes.toNat (member.data.length - (k.file f).offset.toNat)

/-- A read copies exactly what is left of the file, as far as it was asked for, moves the cursor
by that much and returns it. -/
def ReadsRight (fault : Fault) (roots : Word → Prop) (member : Member) (k : Kernel)
    (f buf nbytes : Word) (target : Nat → Place) : Prop :=
  ∃ m', k.fread fault (k.file f).fd buf nbytes =
      .next ((k.setMachine m').modFile f fun s =>
        { s with offset := s.offset + BitVec.ofNat 64 (readCount member k f nbytes) },
      BitVec.ofNat 32 (readCount member k f nbytes)) ∧
    content m' target (readCount member k f nbytes) =
      (member.data.drop (k.file f).offset.toNat).take (readCount member k f nbytes) ∧
    Wrote roots k.m m' fun place => ∃ i < readCount member k f nbytes, place = target i

/-- The file is not the last one, and its cursor is not behind its end, or nothing is asked for. -/
def Readable (member : Member) (k : Kernel) (f nbytes : Word) : Prop :=
  (k.nextFile f).isSome = true ∧
    ((k.file f).offset.toNat ≤ member.data.length ∨ nbytes = 0)

section

variable {fault : Fault} {roots : Word → Prop} {places : Nat → Place} {k k' : Kernel}
  {before after : List Member} {member : Member} {files : List Word} {f buf nbytes : Word}
  {target : Nat → Place} {frames : Kernel → Word → Regs} {depth rounds : Nat}

theorem FileIn.fileAt (fileIn : FileIn roots places before member after files f k)
    (more : (k.nextFile f).isSome = true) : FileAt roots places before member after files f k where
  archived := fileIn.archived
  loaded := fileIn.loaded
  distinct := fileIn.distinct
  few := fileIn.few
  listed := fileIn.listed
  structs := fileIn.structs
  fds := fileIn.fds
  inside := fileIn.inside
  more := more
  name := fileIn.name
  size := fileIn.size

theorem FileAt.fileIn (fileAt : FileAt roots places before member after files f k) :
    FileIn roots places before member after files f k where
  archived := fileAt.archived
  loaded := fileAt.loaded
  distinct := fileAt.distinct
  few := fileAt.few
  listed := fileAt.listed
  structs := fileAt.structs
  fds := fileAt.fds
  inside := fileAt.inside
  name := fileAt.name
  size := fileAt.size

theorem FileIn.same (fileIn : FileIn roots places before member after files f k)
    (same : SameFiles k k') (archived : Archived roots k' (before ++ member :: after) places)
    (loaded : roots k'.m.root) : FileIn roots places before member after files f k' where
  archived := archived
  loaded := loaded
  distinct := fileIn.distinct
  few := fileIn.few
  listed := by
    rw [same.filelist]
    exact fileIn.listed.congr fun p _ => by rw [Kernel.nextFile, same.file p]; rfl
  structs p inside := same.fileStructs ▸ fileIn.structs p inside
  fds := by
    rw [List.map_congr_left fun p _ => show (k'.file p).fd = (k.file p).fd by rw [same.file p]]
    exact fileIn.fds
  inside := fileIn.inside
  name := by
    rw [same.file f]
    exact fileIn.name
  size := by
    rw [same.file f]
    exact fileIn.size

/-- The last file is never found. -/
theorem FileIn.fileWithFd_last (fileIn : FileIn roots places before member after files f k)
    (last : k.nextFile f = none) : k.fileWithFd (k.file f).fd (fun _ => true) = .next none := by
  rcases List.append_of_mem fileIn.inside with ⟨front, back, rfl⟩
  rw [fileWithFd_eq fileIn.listed fileIn.structs fileIn.fds rfl, last]
  rfl

/-- What a read counts fits in an `int`. -/
theorem readCount_lt (member : Member) (k : Kernel) (f nbytes : Word) :
    readCount member k f nbytes < 2 ^ 31 := by
  have small := member.data_length_lt
  unfold readCount
  omega

/-- The size of the file as an `int`. -/
theorem FileIn.ofInt_size (fileIn : FileIn roots places before member after files f k) :
    ofInt (toInt (k.file f).size) = BitVec.ofNat 64 member.data.length := by
  rw [fileIn.size, toInt, BitVec.setWidth_ofNat_of_le (by decide)]
  exact ofInt_ofNat member.data_length_lt

/-- A read from inside the file is right. -/
theorem FileIn.readsRight (fileIn : FileIn roots places before member after files f k)
    (buffer : Buffer roots places (Member.archive (before ++ member :: after)).length k buf
      (readCount member k f nbytes) target) (readable : Readable member k f nbytes) :
    ReadsRight fault roots member k f buf nbytes target := by
  rcases readable with ⟨more, inside | rfl⟩
  · have here : (k.file f).offset = BitVec.ofNat 64 (k.file f).offset.toNat :=
      BitVec.eq_of_toNat_eq (by simp)
    exact (fileIn.fileAt more).fread_eq fault buffer.span buffer.injective buffer.apart here inside
      rfl
  · have none : readCount member k f 0 = 0 := Nat.zero_min _
    have found := (fileIn.fileAt more).fileWithFd
    have offset : k.findOffsetForFile fault (.text (k.file f).name) = _ :=
      fileIn.name ▸ fileIn.archived.findOffsetForFile_eq fileIn.distinct fileIn.few
    refine ⟨k.m, ?_, ?_, .refl k.m⟩
    · unfold Kernel.fread
      rw [found, Flow.next_bind]
      dsimp only
      rw [offset, Flow.next_bind, none]
      dsimp only
      have least : (if ofInt (toInt (k.file f).size) - (k.file f).offset < 0 then
          ofInt (toInt (k.file f).size) - (k.file f).offset else 0) = 0 :=
        if_neg (BitVec.not_lt_zero)
      rw [least]
      rfl
    · rw [none, List.take_zero]
      rfl

/-- Behind the end of the file, bytes are read that are not the file's. -/
theorem FileIn.not_readsRight (fileIn : FileIn roots places before member after files f k)
    (behind : ¬Readable member k f nbytes) :
    ¬ReadsRight (Kernel.kernelFault frames depth) roots member k f buf nbytes target := by
  rintro ⟨m', read, _⟩
  unfold Kernel.fread at read
  cases next : k.nextFile f with
  | none =>
      rw [fileIn.fileWithFd_last next, Flow.next_bind] at read
      have returned := (Prod.ext_iff.mp (Flow.next.inj read)).2
      have value := congrArg BitVec.toNat returned
      have small := readCount_lt member k f nbytes
      rw [BitVec.toNat_ofNat, Nat.mod_eq_of_lt (by omega)] at value
      change 4294967295 = _ at value
      omega
  | some following =>
      have more : (k.nextFile f).isSome = true := by
        rw [next]
        rfl
      have found := (fileIn.fileAt more).fileWithFd
      have offset : k.findOffsetForFile (Kernel.kernelFault frames depth)
          (.text (k.file f).name) = _ :=
        fileIn.name ▸ fileIn.archived.findOffsetForFile_eq fileIn.distinct fileIn.few
      rw [found, Flow.next_bind] at read
      dsimp only at read
      rw [offset, Flow.next_bind] at read
      rcases Flow.bind_eq_next read with ⟨k₂, copied, last⟩
      have touched : Touched k k₂ :=
        (Kernel.memcpy_touches (kernelFault_touched frames depth).touched trivial _ _ _).of_next copied
      have same : k₂.file = k.file := congrArg Devices.file touched.devices
      have state := (Prod.ext_iff.mp (Flow.next.inj last)).1
      have moved := congrArg (fun k => (k.file f).offset) state
      simp only [Kernel.modFile, Kernel.setMachine, Function.update_self, same] at moved
      rw [fileIn.ofInt_size] at moved
      have outside : member.data.length < (k.file f).offset.toNat ∧ nbytes ≠ 0 := by
        refine ⟨?_, fun none => behind ⟨more, .inr none⟩⟩
        by_contra inside
        exact behind ⟨more, .inl (Nat.le_of_not_lt inside)⟩
      have none : readCount member k f nbytes = 0 := by
        unfold readCount
        omega
      rw [none, BitVec.add_right_inj] at moved
      split at moved
      · have size := congrArg BitVec.toNat moved
        have small := member.data_length_lt
        have bound := (k.file f).offset.isLt
        rw [BitVec.toNat_sub, BitVec.toNat_ofNat] at size
        change _ = 0 at size
        omega
      · exact outside.2 moved

/-- The states that seeks and reads of a file reach.  Its reads meet the condition, and have room
for what they should get; others only use other files, and the archive stays in memory. -/
inductive Accessed (fault : Fault) (roots : Word → Prop) (places : Nat → Place)
    (before : List Member) (member : Member) (after : List Member) (files : List Word) (f : Word) :
    Kernel → Prop
  | start {k : Kernel} (fileIn : FileIn roots places before member after files f k) :
      Accessed fault roots places before member after files f k
  | seek {k k' : Kernel} {offset whence result : Word}
      (earlier : Accessed fault roots places before member after files f k)
      (called : Called fault k (.fseek (k.file f).fd offset whence) result k') :
      Accessed fault roots places before member after files f k'
  | read {k k' : Kernel} {buf nbytes count : Word} {target : Nat → Place}
      (earlier : Accessed fault roots places before member after files f k)
      (buffer : Buffer roots places (Member.archive (before ++ member :: after)).length k buf
        (readCount member k f nbytes) target)
      (met : Readable member k f nbytes)
      (called : Called fault k (.fread (k.file f).fd buf nbytes) count k') :
      Accessed fault roots places before member after files f k'
  | other {k k' : Kernel} {call : FileCall} {result : Word}
      (earlier : Accessed fault roots places before member after files f k)
      (called : Called fault k call result k') (other : call.descriptor ≠ some (k.file f).fd)
      (archived : Archived roots k' (before ++ member :: after) places)
      (loaded : roots k'.m.root) : Accessed fault roots places before member after files f k'
  | switch {k k' : Kernel} (earlier : Accessed fault roots places before member after files f k)
      (same : k'.devices = k.devices)
      (archived : Archived roots k' (before ++ member :: after) places)
      (loaded : roots k'.m.root) : Accessed fault roots places before member after files f k'

/-- Reads one after the other, each of which got something. -/
inductive Looping (fault : Fault) (roots : Word → Prop) (places : Nat → Place) (length : Nat)
    (member : Member) (f : Word) : Kernel → Nat → Kernel → Prop
  | done {k : Kernel} : Looping fault roots places length member f k 0 k
  | read {k k₁ k' : Kernel} {buf nbytes count : Word} {target : Nat → Place} {rounds : Nat}
      (buffer : Buffer roots places length k buf (readCount member k f nbytes) target)
      (called : Called fault k (.fread (k.file f).fd buf nbytes) count k₁) (some : count ≠ 0)
      (later : Looping fault roots places length member f k₁ rounds k') :
      Looping fault roots places length member f k (rounds + 1) k'

/-- A read that is right keeps the file. -/
theorem FileIn.read (fileIn : FileIn roots places before member after files f k)
    (buffer : Buffer roots places (Member.archive (before ++ member :: after)).length k buf
      (readCount member k f nbytes) target) (readable : Readable member k f nbytes) {count : Word}
    (called : Called fault k (.fread (k.file f).fd buf nbytes) count k') :
    FileIn roots places before member after files f k' ∧
      count = BitVec.ofNat 64 (readCount member k f nbytes) ∧
      (k'.file f).offset = (k.file f).offset + count ∧ k'.nextFile f = k.nextFile f := by
  have right : ReadsRight fault roots member k f buf nbytes target :=
    fileIn.readsRight buffer readable
  rcases right with ⟨m', read, _, wrote⟩
  cases called with
  | fread returned =>
      rw [read] at returned
      cases returned
      have archived := fileIn.archived.buffered fileIn.loaded buffer wrote
      have files : SameFiles k (k.setMachine m') := .of_devices rfl
      have returned := ofInt_ofNat (readCount_lt member k f nbytes)
      refine ⟨fileIn.same (files.trans (.modFile _ f _)) ⟨archived.span, archived.stored⟩
        (wrote.root ▸ fileIn.loaded), returned, ?_, ?_⟩
      · rw [returned]
        simp [Kernel.modFile, Kernel.setMachine]
      · simp [Kernel.nextFile, Kernel.modFile, Kernel.setMachine]

/-- The file stays a file of the archive. -/
theorem Accessed.fileIn
    (accessed : Accessed (Kernel.kernelFault frames depth) roots places before member after files f
      k) : FileIn roots places before member after files f k := by
  induction accessed with
  | start fileIn => exact fileIn
  | seek earlier called ih =>
      cases called with
      | fseek moved =>
          rcases Flow.bind_eq_next moved with ⟨found, scan, rest⟩
          cases found with
          | none =>
              cases rest
              exact ih
          | some t =>
              cases rest
              exact ih.same (.modFile _ t _) ⟨ih.archived.span, ih.archived.stored⟩ ih.loaded
  | read earlier buffer met called ih => exact (ih.read buffer met called).1
  | other earlier called other archived loaded ih =>
      exact ih.same (called.others other).1 archived loaded
  | switch earlier same archived loaded ih => exact ih.same (.of_devices same) archived loaded

/-- Each round of a read loop gets closer to the end. -/
theorem FileIn.looping (fileIn : FileIn roots places before member after files f k)
    (more : (k.nextFile f).isSome = true) (inside : (k.file f).offset.toNat ≤ member.data.length)
    (looping : Looping fault roots places (Member.archive (before ++ member :: after)).length member
      f k rounds k') : rounds ≤ member.data.length - (k.file f).offset.toNat := by
  induction looping with
  | done => exact Nat.zero_le _
  | @read k k₁ k' buf nbytes count target rounds buffer called some later ih =>
      rcases fileIn.read buffer ⟨more, .inl inside⟩ called with ⟨fileIn₁, rfl, cursor, next⟩
      have small := readCount_lt member k f nbytes
      have counted : (BitVec.ofNat 64 (readCount member k f nbytes)).toNat =
          readCount member k f nbytes := by
        rw [BitVec.toNat_ofNat]
        exact Nat.mod_eq_of_lt (by omega)
      have positive : 0 < readCount member k f nbytes := by
        apply Nat.pos_of_ne_zero
        intro none
        rw [none] at some
        exact some rfl
      have bound : readCount member k f nbytes ≤
          member.data.length - (k.file f).offset.toNat := Nat.min_le_right _ _
      have length := member.data_length_lt
      have position : (k₁.file f).offset.toNat =
          (k.file f).offset.toNat + readCount member k f nbytes := by
        rw [cursor, BitVec.toNat_add, counted]
        exact Nat.mod_eq_of_lt (by omega)
      have left := ih fileIn₁ (next ▸ more) (by omega)
      omega

/-- In every run of seeks and reads of a file, a read is right exactly if the file is not the last
one and its cursor is not behind its end, or nothing is asked for; and a read loop ends. -/
theorem readsRight_iff
    (accessed : Accessed (Kernel.kernelFault frames depth) roots places before member after files f
      k)
    (buffer : Buffer roots places (Member.archive (before ++ member :: after)).length k buf
      (readCount member k f nbytes) target) :
    (ReadsRight (Kernel.kernelFault frames depth) roots member k f buf nbytes target ↔
      Readable member k f nbytes) ∧
    ((k.nextFile f).isSome = true → (k.file f).offset.toNat ≤ member.data.length →
      ∀ rounds k', Looping (Kernel.kernelFault frames depth) roots places
        (Member.archive (before ++ member :: after)).length member f k rounds k' →
        rounds ≤ member.data.length - (k.file f).offset.toNat) := by
  have fileIn := accessed.fileIn
  refine ⟨⟨fun right => ?_, fileIn.readsRight buffer⟩, ?_⟩
  · by_contra behind
    exact fileIn.not_readsRight behind right
  · intro more inside rounds k' looping
    exact fileIn.looping more inside looping

end

/-- The byte of the first file can be read. -/
theorem readsRight_twoReaders : ∃ roots places m start target,
    Accessed (Kernel.kernelFault noFrames 0) roots places [] fileA [fileB] [1, 2, 3] 2
      (twoReaders m start) ∧
    ReadsRight (Kernel.kernelFault noFrames 0) roots fileA (twoReaders m start) 2 (start + 3000#64)
      1 target := by
  rcases twoReaders_fileAt with ⟨roots, places, m, start, target, fileAt, _, buffer⟩
  have accessed : Accessed (Kernel.kernelFault noFrames 0) roots places [] fileA [fileB] [1, 2, 3] 2
      (twoReaders m start) := .start fileAt.fileIn
  have room : Buffer roots places (Member.archive ([] ++ fileA :: [fileB])).length
      (twoReaders m start) (start + 3000#64) (readCount fileA (twoReaders m start) 2 1) target :=
    buffer
  exact ⟨roots, places, m, start, target, accessed,
    (readsRight_iff accessed room).1.mpr ⟨rfl, .inl (Nat.zero_le _)⟩⟩

set_option maxRecDepth 8000 in
/-- A byte is read that lies behind the end of the first file. -/
theorem sharedFile_readsBehind :
    (sharedFile.fseek 3 2 0).returns (fun (k, result) => result = 2 && (k.file 2).offset = 2 &&
      (k.file 2).fd = 3 &&
      (k.fread (Kernel.kernelFault noFrames 0) 3 0x7000 1).returns fun (_, count) =>
      count = 1) = true := by
  decide_cbv

/-- After a seek behind the end of a file of one byte, a read gets a byte that is not the file's. -/
theorem sharedFile_not_readsRight : ∃ k, sharedFile.fseek 3 2 0 = .next (k, 2) ∧
    (sharedFile.file 2).name = rootfsName ++ fileA.name ∧ fileA.data.length = 1 ∧
    ∀ roots target,
      ¬ReadsRight (Kernel.kernelFault noFrames 0) roots fileA k 2 0x7000 1 target := by
  rcases Flow.returns_next sharedFile_readsBehind with ⟨⟨k, _⟩, moved, facts⟩
  simp only [Bool.and_eq_true, decide_eq_true_eq] at facts
  rcases facts with ⟨⟨⟨rfl, cursor⟩, descriptor⟩, read⟩
  rcases Flow.returns_next read with ⟨⟨k', _⟩, returned, one⟩
  cases of_decide_eq_true one
  refine ⟨k, moved, rfl, rfl, ?_⟩
  rintro roots target ⟨m', right, _⟩
  have none : readCount fileA k 2 1 = 0 := by
    rw [readCount, cursor]
    rfl
  rw [descriptor, returned, none] at right
  cases (Prod.ext_iff.mp (Flow.next.inj right)).2

end Sbrocks.Process
