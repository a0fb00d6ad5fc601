import Sbrocks.Fs.EndOfFile

/-!
# Which files are reached

Every function of the file system walks the list of files and stops before the last one.  What
it does with the file it finds is stated here apart from the search.
-/

namespace Sbrocks.Process

open Sbrocks.Mmu

namespace Kernel

variable (fault : Fault)

/-- What `fread` does with the file it found. -/
def freadOn (k : Kernel) (t buf nbytes : Word) : Flow Kernel (Kernel × BitVec 32) := do
  let (k, offset) ← k.findOffsetForFile fault (.text (k.file t).name)
  let start := k.binaryTarfsStart + offset
  let size := ofInt (toInt (k.file t).size)
  let left := size - (k.file t).offset
  let nbytes := if left < nbytes then left else nbytes
  let k ← k.memcpy fault buf (start + (k.file t).offset) nbytes.toNat
  return (k.modFile t fun s => { s with offset := s.offset + nbytes }, toInt nbytes)

/-- What `fwrite` does with the file it found. -/
def fwriteOn (k : Kernel) (t buf nbytes : Word) : Flow Kernel (Kernel × Word) := do
  let addr := (k.file t).addr + (k.file t).offset
  let k ← k.memcpy fault addr buf nbytes.toNat
  return (k.modFile t fun s => { s with offset := s.offset + nbytes }, 0)

/-- The cursor that `fseek` sets. -/
def seekOffset (file : File) (offset whence : Word) : Word :=
  if whence = 0 then offset
  else if whence = 1 then file.offset + offset
  else if whence = 2 then file.size + offset
  else -1

/-- What `fseek` does with the file it found. -/
def fseekOn (k : Kernel) (t offset whence : Word) : Kernel × Word :=
  (k.modFile t fun s => { s with offset := seekOffset (k.file t) offset whence },
    seekOffset (k.file t) offset whence)

/-- What `fclose` does with the file it found. -/
def fcloseOn (k : Kernel) (t : Word) : Kernel :=
  k.modFile t fun s => { s with offset := 0 }

/-- What `dopen` finds behind a directory. -/
def dopenOn (k : Kernel) (t : Word) : Option Word :=
  let name := (k.file t).name
  match k.nextFile t with
  | none => none
  | some following =>
      if kstrncmp (k.file following).name name name.length then some following else none

/-- What `dread` does from the entry it found. -/
def dreadOn (k : Kernel) (t : Word) (name : List Byte) : Flow Kernel (Option Word) := do
  let length ← Flow.ofOption (directoryLength name (name.length - 1))
  k.dreadLoop name (name.take length) t k.fileRounds

end Kernel

/-- The descriptor of a file leads each function to it. -/
structure ActsOn (fault : Fault) (k : Kernel) (f : Word) : Prop where
  fread : ∀ buf nbytes, k.fread fault (k.file f).fd buf nbytes = k.freadOn fault f buf nbytes
  fwrite : ∀ buf nbytes, k.fwrite fault (k.file f).fd buf nbytes = k.fwriteOn fault f buf nbytes
  fseek : ∀ offset whence, k.fseek (k.file f).fd offset whence = .next (k.fseekOn f offset whence)
  fclose : k.fclose (k.file f).fd = .next (k.fcloseOn f)
  dopen : k.dopen (k.file f).fd =
    .next (if (k.file f).type = typeDirectory then k.dopenOn f else none)
  dread : ∀ name, k.dread (k.file f).fd name = k.dreadOn f name

/-- The first file of a list with a name. -/
def firstNamed (k : Kernel) (files : List Word) (text : List Byte) : Option Word :=
  files.find? fun f => (k.file f).name == text

/-- A file is opened by its name, and reached by its descriptor. -/
structure EntryReached (fault : Fault) (k : Kernel) (files : List Word) (f : Word) : Prop where
  opens : ∀ name, Kernel.Spells fault k name (k.file f).name →
    ∃ first, firstNamed k files (k.file f).name = some first ∧
      k.fopen fault name = .next (k, toInt (k.file first).fd)
  acts : ActsOn fault k f

/-- The list of files, with names that end and with a descriptor for each. -/
structure FileList (k : Kernel) (files : List Word) : Prop where
  listed : Chain.Linked k.nextFile k.filelist files
  structs : ∀ p ∈ files, p ∈ k.fileStructs
  fds : (files.map fun p => (k.file p).fd).Nodup
  clean : ∀ p ∈ files, (0 : Byte) ∉ (k.file p).name ∧ (k.file p).name.length < stringRounds

section

variable {fault : Fault} {k : Kernel} {files front back : List Word} {f fd last : Word}
  {name : CString} {text : List Byte} {test : File → Bool}

/-- The search ends before the last file. -/
theorem fileWithFd_miss (listed : Chain.Linked k.nextFile k.filelist (front ++ [last]))
    (structs : ∀ p ∈ front ++ [last], p ∈ k.fileStructs)
    (others : ∀ p ∈ front, ¬((k.file p).fd = fd ∧ test (k.file p) = true)) :
    k.fileWithFd fd test = .next none := by
  have room := rounds_suffice listed.nodup structs
  rw [List.length_append] at room
  have ends : (k.nextFile last).isNone = true := by
    rw [listed.last_none]
    rfl
  have misses : ∀ p ∈ front,
      ((k.nextFile p).isNone || (k.file p).fd == fd && test (k.file p)) = false := by
    intro p member
    have more := listed.next_isSome member
    have other := others p member
    simp only [Bool.or_eq_false_iff, Bool.and_eq_false_iff, beq_eq_false_iff_ne]
    refine ⟨?_, ?_⟩
    · cases next : k.nextFile p with
      | none =>
          rw [next] at more
          cases more
      | some _ => rfl
    · by_cases same : (k.file p).fd = fd
      · exact .inr (Bool.eq_false_iff.mpr fun passes => other ⟨same, passes⟩)
      · exact .inl same
  have found := listed.scan_eq misses (by rw [ends]; rfl) (by omega : front.length < k.fileRounds)
  unfold Kernel.fileWithFd
  cases head : k.filelist with
  | none =>
      rw [head] at listed
      have := listed.eq_nil
      simp at this
  | some first =>
      rw [head] at found
      dsimp only [Flow.ofOption_some, Flow.next_bind]
      rw [found]
      show Flow.next (if (k.nextFile last).isNone then none else some last) = _
      rw [if_pos ends]

/-- A file that does not pass the test is not found, and no other has its descriptor. -/
theorem FileList.fileWithFd_other (list : FileList k files) (member : f ∈ files)
    (fails : ¬test (k.file f) = true) : k.fileWithFd (k.file f).fd test = .next none := by
  rcases List.eq_nil_or_concat files with rfl | ⟨front, last, rfl⟩
  · cases member
  · rw [List.concat_eq_append] at *
    apply fileWithFd_miss list.listed list.structs
    rintro p inside ⟨same, passes⟩
    have equal := List.inj_on_of_nodup_map list.fds (List.mem_append_left _ inside) member same
    exact fails (equal ▸ passes)

/-- A file that is not the last one is acted on. -/
theorem FileList.actsOn (list : FileList k files) (member : f ∈ files)
    (more : (k.nextFile f).isSome = true) : ActsOn fault k f := by
  have found : ∀ test : File → Bool, test (k.file f) = true →
      k.fileWithFd (k.file f).fd test = .next (some f) := by
    intro test passes
    rcases List.append_of_mem member with ⟨front, back, rfl⟩
    rw [fileWithFd_eq list.listed list.structs list.fds passes]
    cases next : k.nextFile f with
    | none =>
        rw [next] at more
        cases more
    | some following => rfl
  have here := found (fun _ => true) rfl
  constructor
  · intro buf nbytes
    unfold Kernel.fread
    rw [here]
    rfl
  · intro buf nbytes
    unfold Kernel.fwrite
    rw [here]
    rfl
  · intro offset whence
    unfold Kernel.fseek
    rw [here]
    rfl
  · unfold Kernel.fclose
    rw [here]
    rfl
  · unfold Kernel.dopen
    by_cases directory : (k.file f).type = typeDirectory
    · have first := found (fun file => file.type == typeDirectory) (beq_iff_eq.mpr directory)
      rw [first, if_pos directory, Flow.next_bind, Kernel.dopenOn]
      dsimp only
      cases k.nextFile f with
      | none => rfl
      | some following => rfl
    · rw [list.fileWithFd_other member fun passes => directory (beq_iff_eq.mp passes),
        if_neg directory]
      rfl
  · intro name
    unfold Kernel.dread
    rw [here]
    rfl

/-- The last file is not acted on. -/
theorem FileList.not_actsOn (list : FileList k files) (member : f ∈ files)
    (ends : k.nextFile f = none) : ¬ActsOn fault k f := by
  intro acts
  rcases List.append_of_mem member with ⟨front, back, rfl⟩
  have missed : k.fileWithFd (k.file f).fd (fun _ => true) = _ :=
    fileWithFd_eq list.listed list.structs list.fds rfl
  rw [ends] at missed
  have sought := acts.fseek 0 0
  unfold Kernel.fseek at sought
  rw [missed] at sought
  have result := (Prod.ext_iff.mp (Flow.next.inj sought)).2
  cases result

/-- `fopen` comes to the last file. -/
theorem fopenLoop_last {head : Option Word} {rounds : Nat}
    (spells : Kernel.Spells fault k name text)
    (zero : (0 : Byte) ∉ text) (others : ∀ p ∈ front, (k.file p).name ≠ text)
    (clean : ∀ p ∈ front, (0 : Byte) ∉ (k.file p).name ∧ (k.file p).name.length < stringRounds)
    (listed : Chain.Linked k.nextFile head (front ++ [last])) (room : front.length < rounds) :
    ∃ first, head = some first ∧ k.fopenLoop fault name first rounds = .next (k, -1) := by
  induction front generalizing head rounds with
  | nil =>
      refine ⟨last, listed.1, ?_⟩
      cases rounds with
      | zero => exact absurd room (Nat.not_lt_zero _)
      | succ rounds =>
          unfold Kernel.fopenLoop
          rw [show k.nextFile last = none from listed.2]
  | cons p front ih =>
      refine ⟨p, listed.1, ?_⟩
      cases rounds with
      | zero => exact absurd room (Nat.not_lt_zero _)
      | succ rounds =>
          rcases ih (fun q inside => others q (List.mem_cons_of_mem _ inside))
            (fun q inside => clean q (List.mem_cons_of_mem _ inside)) listed.2
            (Nat.lt_of_succ_lt_succ room) with ⟨following, next, missed⟩
          have here := clean p List.mem_cons_self
          unfold Kernel.fopenLoop
          rw [show k.nextFile p = some following from next]
          dsimp only
          rw [Kernel.kstrcmp_eq (Kernel.spells_text k _) spells here.1 zero here.2, Flow.next_bind,
            decide_eq_false (others p List.mem_cons_self)]
          exact missed

/-- A search from the first file on that comes to a result. -/
theorem fopen_of_loop {result : BitVec 32}
    (loop : ∃ first, k.filelist = some first ∧
      k.fopenLoop fault name first k.fileRounds = .next (k, result)) :
    k.fopen fault name = .next (k, result) := by
  rcases loop with ⟨first, head, found⟩
  unfold Kernel.fopen
  rw [head]
  exact found

/-- `fopen` finds the first file with a name, unless that is the last file. -/
theorem FileList.fopen_eq (list : FileList k files) (nonempty : files ≠ [])
    (spells : Kernel.Spells fault k name text) (zero : (0 : Byte) ∉ text) :
    k.fopen fault name = .next (k, match firstNamed k files text with
      | none => -1
      | some first => if (k.nextFile first).isSome then toInt (k.file first).fd else -1) := by
  have room := rounds_suffice list.listed.nodup list.structs
  cases found : firstNamed k files text with
  | none =>
      rcases List.eq_nil_or_concat files with none | ⟨front, last, rfl⟩
      · exact absurd none nonempty
      · rw [List.concat_eq_append] at *
        apply fopen_of_loop
        rw [List.length_append, List.length_singleton] at room
        apply fopenLoop_last spells zero ?_ ?_ list.listed (by omega : front.length < k.fileRounds)
        · intro p inside same
          have passes := List.find?_eq_none.mp found p (List.mem_append_left _ inside)
          exact passes (beq_iff_eq.mpr same)
        · exact fun p inside => list.clean p (List.mem_append_left _ inside)
  | some first =>
      rcases List.find?_eq_some_iff_append.mp found with ⟨named, front, back, rfl, others⟩
      rw [List.length_append] at room
      have different : ∀ p ∈ front, (k.file p).name ≠ text := by
        intro p inside same
        have fails := others p inside
        rw [beq_iff_eq.mpr same] at fails
        cases fails
      apply fopen_of_loop
      dsimp only
      cases next : k.nextFile first with
      | none =>
          have behind := list.listed.after
          rw [next] at behind
          have ends := behind.eq_nil
          subst ends
          exact fopenLoop_last spells zero different
            (fun p inside => list.clean p (List.mem_append_left _ inside)) list.listed (by omega)
      | some following =>
          have more : (k.nextFile first).isSome = true := by
            rw [next]
            rfl
          apply Kernel.fopenLoop_eq spells (beq_iff_eq.mp named) different ?_ list.listed more
            (by omega)
          intro p inside
          apply list.clean p
          rcases List.mem_append.mp inside with before | here
          · exact List.mem_append_left _ before
          · exact List.mem_append_right _ (List.mem_singleton.mp here ▸ List.mem_cons_self)

/-- A file before another one is not the last. -/
theorem FileList.earlier_more (list : FileList k files) (found : firstNamed k files text = some fd)
    (member : f ∈ files) (named : (k.file f).name = text) (more : (k.nextFile f).isSome = true) :
    (k.nextFile fd).isSome = true := by
  rcases List.find?_eq_some_iff_append.mp found with ⟨_, front, back, rfl, others⟩
  cases back with
  | cons following back =>
      have behind := list.listed.after
      rw [behind.1]
      rfl
  | nil =>
      rcases List.mem_append.mp member with before | here
      · have fails := others f before
        rw [beq_iff_eq.mpr named] at fails
        cases fails
      · rw [← List.mem_singleton.mp here]
        exact more

/-- Every file but the last one is opened by its name and reached by its descriptor, and `fopen`
says of exactly the names that are not in the list that there is no such file, but for the name
of the last one. -/
theorem entryReached_iff (list : FileList k files) :
    (∀ f ∈ files, EntryReached fault k files f ↔ (k.nextFile f).isSome = true) ∧
    ∀ name text, Kernel.Spells fault k name text → (0 : Byte) ∉ text →
      ((∃ result, k.fopen fault name = .next (k, result) ∧
          (result = -1 ↔ ∀ f ∈ files, (k.file f).name ≠ text)) ↔
        files ≠ [] ∧ ∀ first, firstNamed k files text = some first →
          (k.nextFile first).isSome = true ∧ toInt (k.file first).fd ≠ -1) := by
  constructor
  · intro f member
    constructor
    · intro reached
      cases next : k.nextFile f with
      | none => exact absurd reached.acts (list.not_actsOn member next)
      | some following => rfl
    · intro more
      refine ⟨fun name spells => ?_, list.actsOn member more⟩
      have opened := list.fopen_eq (List.ne_nil_of_mem member) spells (list.clean f member).1
      cases found : firstNamed k files (k.file f).name with
      | none =>
          have passes := List.find?_eq_none.mp found f member
          exact absurd (beq_self_eq_true _) passes
      | some first =>
          refine ⟨first, rfl, ?_⟩
          rw [found] at opened
          dsimp only at opened
          rwa [if_pos (list.earlier_more found member rfl more)] at opened
  · intro name text spells zero
    by_cases empty : files = []
    · subst empty
      have head : k.filelist = none := list.listed
      constructor
      · rintro ⟨result, opened, _⟩
        unfold Kernel.fopen at opened
        rw [head] at opened
        cases opened
      · rintro ⟨nonempty, _⟩
        exact absurd rfl nonempty
    · rw [list.fopen_eq empty spells zero]
      cases found : firstNamed k files text with
      | none =>
          have missing : ∀ f ∈ files, (k.file f).name ≠ text := by
            intro f member named
            exact List.find?_eq_none.mp found f member (beq_iff_eq.mpr named)
          constructor
          · exact fun _ => ⟨empty, fun first impossible => by cases impossible⟩
          · exact fun _ => ⟨-1, rfl, fun _ => missing, fun _ => rfl⟩
      | some first =>
          have member := List.mem_of_find?_eq_some found
          have passes : ((k.file first).name == text) = true :=
            List.find?_some (p := fun f => (k.file f).name == text) found
          have named := beq_iff_eq.mp passes
          dsimp only
          constructor
          · rintro ⟨result, opened, right⟩
            refine ⟨empty, fun other same => ?_⟩
            cases same
            have value := (Prod.ext_iff.mp (Flow.next.inj opened)).2
            dsimp only at value
            have listed : result ≠ -1 := fun miss => right.mp miss first member named
            split at value
            · rename_i more
              exact ⟨more, value ▸ listed⟩
            · exact absurd value.symm listed
          · rintro ⟨_, right⟩
            rcases right first rfl with ⟨more, descriptor⟩
            refine ⟨_, rfl, ?_⟩
            rw [if_pos more]
            constructor
            · exact fun miss => absurd miss descriptor
            · exact fun missing => absurd named (missing first member)

end

theorem sharedFile_fileList : FileList sharedFile [1, 2, 3] where
  listed := ⟨rfl, rfl, rfl, rfl⟩
  structs := by
    intro p inside
    show p ∈ ([3, 2, 1] : List Word)
    simp only [List.mem_cons, List.not_mem_nil, or_false] at inside ⊢
    rcases inside with rfl | rfl | rfl <;> simp
  fds := show ([2, 3, 4] : List Word).Nodup by decide
  clean := by
    intro p inside
    simp only [List.mem_cons, List.not_mem_nil, or_false] at inside
    rcases inside with rfl | rfl | rfl
    · exact ⟨show (0 : Byte) ∉ rootfsName by decide, show 7 < stringRounds by decide⟩
    · exact ⟨show (0 : Byte) ∉ rootfsName ++ [0x61] by decide, show 8 < stringRounds by decide⟩
    · exact ⟨show (0 : Byte) ∉ rootfsName ++ [0x62] by decide, show 8 < stringRounds by decide⟩

/-- The first of the two files is reached. -/
theorem entryReached_sharedFile :
    EntryReached (Kernel.kernelFault noFrames 0) sharedFile [1, 2, 3] 2 :=
  ((entryReached_iff sharedFile_fileList).1 2 (by decide)).mpr rfl

/-- The last one is not found by its name, and a seek on its descriptor fails. -/
theorem lastFile_not_reached : (3 : Word) ∈ [(1 : Word), 2, 3] ∧
    (sharedFile.file 3).name = rootfsName ++ [0x62] ∧
    sharedFile.fopen (Kernel.kernelFault noFrames 0) (.text (rootfsName ++ [0x62])) =
      .next (sharedFile, -1) ∧
    sharedFile.fseek (sharedFile.file 3).fd 0 0 = .next (sharedFile, -1) ∧
    ¬EntryReached (Kernel.kernelFault noFrames 0) sharedFile [1, 2, 3] 3 := by
  have zero : (0 : Byte) ∉ rootfsName ++ [0x62] := by decide
  have spells : Kernel.Spells (Kernel.kernelFault noFrames 0) sharedFile
      (.text (rootfsName ++ [0x62])) (rootfsName ++ [0x62]) := Kernel.spells_text _ _
  have opened := sharedFile_fileList.fopen_eq (List.cons_ne_nil _ _) spells zero
  refine ⟨by decide, rfl, opened, rfl, ?_⟩
  intro reached
  exact sharedFile_fileList.not_actsOn (by decide) rfl reached.acts

end Sbrocks.Process
