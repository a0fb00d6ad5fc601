import Sbrocks.Fs.Archive
import Sbrocks.Chain.Linked

/-!
# Indexing an archive

`initialize_tarfs` lists the root directory and one entry for each member of the
archive.  Every entry is a kernel page of its own above the archive, and the name is
put together in a buffer that holds an empty string between two members.
-/

namespace Sbrocks.Process

open Sbrocks.Mmu Sbrocks.Radix

variable {fault : Fault} {roots : Word → Prop} {k : Kernel}

/-! ## The list of files -/

namespace Kernel

/-- The structure of a new file is the page at the top of the kernel's memory. -/
theorem newFile_eq {n : Nat} (orderly : Machine.Orderly roots k.m)
    (frames : k.m.phy.HasFrames (n + 4)) (old : k.m.virtualTop ∉ k.fileStructs) :
    ∃ m' frame, k.newFile =
        .next ({ k.setMachine m' with fileStructs := k.m.virtualTop :: k.fileStructs },
          k.m.virtualTop) ∧
      Machine.KernelPage roots frame k.m m' ∧ m'.phy.HasFrames n := by
  have one : Machine.pagesOf 1072 = 1 := by decide
  rcases orderly.kmalloc one frames with ⟨m', frame, taken, page, rest⟩
  refine ⟨m', frame, ?_, page, rest⟩
  unfold newFile kmallocStruct kmalloc
  rw [taken]
  dsimp only [Flow.ofOption_some, Flow.next_bind]
  show (if k.m.virtualTop ∈ k.fileStructs then _ else _) >>= _ = _
  rw [if_neg old]
  rfl

theorem nextFile_modFile (k : Kernel) (p : Word) (change : File → File) :
    (k.modFile p change).nextFile = Function.update k.nextFile p (change (k.file p)).next := by
  funext t
  by_cases same : t = p
  · subst same
    simp [nextFile, modFile]
  · simp [nextFile, modFile, same]

/-- The entry of a file, apart from its link. -/
def entryAt (k : Kernel) (f : Word) : File := { k.file f with next := none }

theorem entryAt_modFile_next (k : Kernel) (p f : Word) (next : Option Word) :
    (k.modFile p fun s => { s with next := next }).entryAt f = k.entryAt f := by
  by_cases same : f = p
  · subst same
    simp [entryAt, modFile]
  · simp [entryAt, modFile, same]

/-- The last file of a list that is not empty. -/
theorem lastFile_eq {earlier : List Word} {head : Option Word} {t : Word}
    (linked : Chain.Linked k.nextFile head (earlier ++ [t])) (room : earlier.length < k.fileRounds) :
    ∃ first, head = some first ∧ k.lastFile first = .next t := by
  cases head with
  | none => exact absurd linked.eq_nil (by simp)
  | some first =>
      refine ⟨first, rfl, ?_⟩
      unfold lastFile
      rw [linked.last_some room]
      rfl

/-- A file at the end of the list: only links change. -/
theorem addToFilelist_eq {files : List Word} {f : Word}
    (listed : Chain.Linked k.nextFile k.filelist files) (nonempty : files ≠ []) (fresh : f ∉ files)
    (room : files.length ≤ k.fileRounds) :
    ∃ k', k.addToFilelist f = .next k' ∧ k' = { k with file := k'.file } ∧
      Chain.Linked k'.nextFile k'.filelist (files ++ [f]) ∧ ∀ p, k'.entryAt p = k.entryAt p := by
  obtain ⟨earlier, t, rfl⟩ : ∃ earlier t, files = earlier ++ [t] :=
    ⟨_, _, (List.dropLast_append_getLast nonempty).symm⟩
  rw [List.length_append, List.length_singleton] at room
  rcases lastFile_eq listed room with ⟨first, head, last⟩
  refine ⟨(k.modFile t fun s => { s with next := some f }).modFile f fun s =>
    { s with next := none }, ?_, rfl, ?_, fun p => ?_⟩
  · unfold addToFilelist
    rw [head]
    dsimp only
    rw [last]
    rfl
  · rw [nextFile_modFile, nextFile_modFile]
    exact listed.push fresh
  · rw [entryAt_modFile_next, entryAt_modFile_next]

end Kernel

namespace Member

/-- The entries of members that begin at an offset. -/
def entries (start : Word) : List Member → Nat → Nat → List File
  | [], _, _ => []
  | member :: members, offset, fd =>
      member.entry start offset fd ::
        entries start members (offset + member.bytes.length) (fd + 1)

theorem entries_append (start : Word) (before : List Member) (member : Member) (offset fd : Nat) :
    entries start (before ++ [member]) offset fd = entries start before offset fd ++
      [member.entry start (offset + offsetOf before) (fd + before.length)] := by
  induction before generalizing offset fd with
  | nil => simp [entries, offsetOf]
  | cons first before ih =>
      simp only [List.cons_append, entries, ih]
      simp [offsetOf, Nat.add_assoc, Nat.add_comm 1]

end Member

/-! ## The buffer and the archive in memory -/

/-- Kernel pages below the top of the kernel's memory are others than the next one. -/
theorem vpn_ne_of_below {virt top : Word} (aligned : top.toNat % 4096 = 0)
    (half : 2 ^ 64 - 2 ^ 39 ≤ virt.toNat) (below : virt.toNat < top.toNat) : vpn virt ≠ vpn top := by
  intro same
  have equal := congrArg BitVec.toNat same
  have bound := top.isLt
  rw [vpn_toNat, vpn_toNat] at equal
  omega

/-- An area of the kernel below the top of its memory. -/
structure Below (m : Machine) (virt : Word) (n : Nat) : Prop where
  half : 2 ^ 64 - 2 ^ 39 ≤ virt.toNat
  top : virt.toNat + n ≤ m.virtualTop.toNat

namespace Below

variable {m m' : Machine} {virt frame : Word} {n : Nat}

theorem vpn_ne (area : Below m virt n) (orderly : Machine.Orderly roots m) {i : Nat}
    (inside : i < n) : vpn (virt + BitVec.ofNat 64 i) ≠ vpn m.virtualTop := by
  have half := area.half
  have top := area.top
  have bound := m.virtualTop.isLt
  have value : (virt + BitVec.ofNat 64 i).toNat = virt.toNat + i := by
    rw [BitVec.toNat_add, BitVec.toNat_ofNat]
    omega
  exact vpn_ne_of_below orderly.top.aligned (by omega) (by omega)

theorem kernelPage (area : Below m virt n) (orderly : Machine.Orderly roots m)
    (page : Machine.KernelPage roots frame m m') : Below m' virt n := by
  refine ⟨area.half, Nat.le_trans area.top ?_⟩
  rw [page.virtualTop_toNat orderly]
  exact Nat.le_add_right _ _

end Below

/-- The archive and the buffer lie apart in memory, below its top. -/
structure Buffered (roots : Word → Prop) (members : List Member) (places : Nat → Place)
    (buf frame : Word) (k : Kernel) : Prop where
  orderly : Machine.Orderly roots k.m
  archived : Archived roots k members places
  archiveBelow : Below k.m k.binaryTarfsStart (Member.archive members).length
  buffer : Span roots k.m buf 4096 (pagePlaces frame)
  bufferBelow : Below k.m buf 4096
  apart : ∀ i < (Member.archive members).length, (places i).1 ≠ frame
  clear : k.m.byte (pagePlaces frame 0) = 0

namespace Buffered

variable {members : List Member} {places : Nat → Place} {buf frame : Word}

/-- A new kernel page leaves both as they are. -/
theorem kernelPage (buffered : Buffered roots members places buf frame k) {frame' : Word}
    {m' : Machine} (page : Machine.KernelPage roots frame' k.m m') :
    Buffered roots members places buf frame (k.setMachine m') := by
  have orderly := buffered.orderly
  rcases buffered.archived.span.kernelPage orderly page fun _ inside =>
    buffered.archiveBelow.vpn_ne orderly inside with ⟨span, kept⟩
  rcases buffered.buffer.kernelPage orderly page fun _ inside =>
    buffered.bufferBelow.vpn_ne orderly inside with ⟨buffer, unchanged⟩
  exact {
    orderly := page.page.extended.orderly
    archived := ⟨span, (content_congr kept).trans buffered.archived.stored⟩
    archiveBelow := buffered.archiveBelow.kernelPage orderly page
    buffer := buffer
    bufferBelow := buffered.bufferBelow.kernelPage orderly page
    apart := buffered.apart
    clear := (unchanged 0 (by decide)).trans buffered.clear }

variable (fault) in
/-- A string is put into the buffer and cleared again. -/
theorem cleared (buffered : Buffered roots members places buf frame k) {text : List Byte}
    (nonzero : (0 : Byte) ∉ text) (nonempty : text ≠ []) (short : text.length < 4096) :
    ∃ k₁ m', k.kstrcpy fault buf (.text text) = .next k₁ ∧
      k₁.memset fault buf 0 text.length = .next (k.setMachine m') ∧
      m' = { k.m with mem := m'.mem } ∧ Buffered roots members places buf frame (k.setMachine m') := by
  have loaded := buffered.orderly.loaded
  have fits : (text ++ [0]).length ≤ 4096 := by
    rw [List.length_append]
    exact short
  rcases Kernel.storeBytes_eq fault (buffered.buffer.take fits) loaded with
    ⟨m₁, stored, wrote₁, _⟩
  have room : (List.replicate text.length (0 : Byte)).length ≤ 4096 := by
    rw [List.length_replicate]
    omega
  have buffer₁ := buffered.buffer.wrote loaded wrote₁
  have loaded₁ : roots (k.setMachine m₁).m.root := wrote₁.root ▸ loaded
  rcases Kernel.storeBytes_eq fault (k := k.setMachine m₁) (buffer₁.take room) loaded₁
    with ⟨m₂, reset, wrote₂, back⟩
  have wrote : Wrote roots k.m m₂ fun place => ∃ i < 4096, place = pagePlaces frame i := by
    apply (wrote₁.mono _).trans (wrote₂.mono _)
    · rintro place ⟨i, inside, same⟩
      exact ⟨i, Nat.lt_of_lt_of_le inside fits, same⟩
    · rintro place ⟨i, inside, same⟩
      exact ⟨i, Nat.lt_of_lt_of_le inside room, same⟩
  have zeros := back fun i inside j inside' => pagePlaces_inj room inside inside'
  refine ⟨k.setMachine m₁, m₂, ?_, ?_, wrote.rest, ?_⟩
  · rw [Kernel.kstrcpy_eq k buf nonzero (Nat.lt_trans short (by decide)), stored]
  · rw [Kernel.memset_eq]
    exact reset
  · exact {
      orderly := wrote.orderly buffered.orderly fun place inside => by
        rcases inside with ⟨i, below, rfl⟩
        exact buffered.buffer.inUse i below
      archived := by
        refine ⟨buffered.archived.span.wrote loaded wrote,
          (content_congr fun i inside => ?_).trans buffered.archived.stored⟩
        apply wrote.bytes
        rintro ⟨j, _, same⟩
        exact buffered.apart i inside (congrArg Prod.fst same)
      archiveBelow := by
        have below := buffered.archiveBelow
        rw [wrote.rest] 
        exact ⟨below.half, below.top⟩
      buffer := buffered.buffer.wrote loaded wrote
      bufferBelow := by
        have below := buffered.bufferBelow
        rw [wrote.rest]
        exact ⟨below.half, below.top⟩
      apart := buffered.apart
      clear := by
        have positive : 0 < text.length := List.length_pos_iff.mpr nonempty
        have first := congrArg (fun bytes => bytes.getD 0 0) zeros
        rw [content_getD _ _ (by rwa [List.length_replicate])] at first
        rw [show (k.setMachine m₂).m = m₂ from rfl, first]
        simp }

/-- Only the memory matters. -/
theorem congr (buffered : Buffered roots members places buf frame k) {k' : Kernel}
    (m : k'.m = k.m) (start : k'.binaryTarfsStart = k.binaryTarfsStart) :
    Buffered roots members places buf frame k' := by
  rcases buffered with ⟨orderly, ⟨span, stored⟩, archiveBelow, buffer, bufferBelow, apart, clear⟩
  refine ⟨?_, ⟨?_, ?_⟩, ?_, ?_, ?_, apart, ?_⟩
  all_goals first | rw [m, start] | rw [m]
  all_goals assumption

/-- An archive in the kernel has less than `2 ^ 30` members. -/
theorem few (buffered : Buffered roots members places buf frame k) :
    members.length + 1 ≤ 2 ^ 30 := by
  have blocks : ∀ members : List Member,
      512 * (members.length + 1) ≤ (Member.archive members).length := by
    intro members
    induction members with
    | nil =>
        rw [Member.archive, List.length_append, List.length_replicate]
        exact Nat.le_add_left _ _
    | cons member members ih =>
        rw [Member.archive, List.flatMap_cons, List.append_assoc, List.length_append,
          member.bytes_length]
        rw [Member.archive] at ih
        rw [List.length_cons]
        omega
  have bound := blocks members
  have half := buffered.archiveBelow.half
  have top := buffered.archiveBelow.top
  have high := k.m.virtualTop.isLt
  omega

end Buffered

/-! ## The loop -/

/-- The state of `initialize_tarfs` when it has listed some members of the archive. -/
structure Indexing (roots : Word → Prop) (places : Nat → Place) (buf frame root : Word)
    (before after : List Member) (files : List Word) (k : Kernel) : Prop where
  buffered : Buffered roots (before ++ after) places buf frame k
  frames : k.m.phy.HasFrames (4 * after.length)
  listed : Chain.Linked k.nextFile k.filelist (root :: files)
  old : ∀ f ∈ k.fileStructs, f.toNat < k.m.virtualTop.toNat
  inside : ∀ f ∈ root :: files, f ∈ k.fileStructs
  room : files.length < k.fileStructs.length
  count : k.fdCount = BitVec.ofNat 32 (3 + before.length)
  rootName : (k.file root).name = rootfsName
  rootFd : (k.file root).fd = 2
  rootType : (k.file root).type = typeDirectory
  entries : files.map k.entryAt = Member.entries k.binaryTarfsStart before 0 3

theorem ofInt_ofNat {n : Nat} (small : n < 2 ^ 31) : ofInt (BitVec.ofNat 32 n) = BitVec.ofNat 64 n := by
  have value : (BitVec.ofNat 32 n).toNat = n := by
    rw [BitVec.toNat_ofNat]
    exact Nat.mod_eq_of_lt (by omega)
  have sign : (BitVec.ofNat 32 n).msb = false := by
    rw [BitVec.msb_eq_decide, value]
    exact decide_eq_false (by omega)
  rw [ofInt, BitVec.signExtend_eq_setWidth_of_msb_false sign]
  apply BitVec.eq_of_toNat_eq
  rw [BitVec.toNat_setWidth, value, BitVec.toNat_ofNat]

namespace Indexing

open Member

variable {places : Nat → Place} {buf frame root : Word} {before after : List Member}
  {member : Member} {files : List Word}

variable (fault) in
/-- One round of the loop lists one member. -/
theorem step (indexing : Indexing roots places buf frame root before (member :: after) files k) :
    ∃ k' f, (∀ rounds, k.initializeTarfsLoop fault buf (BitVec.ofNat 64 (offsetOf before))
        (rounds + 1) = k'.initializeTarfsLoop fault buf
          (BitVec.ofNat 64 (offsetOf (before ++ [member]))) rounds) ∧
      k'.binaryTarfsStart = k.binaryTarfsStart ∧
      Indexing roots places buf frame root (before ++ [member]) after (files ++ [f]) k' := by
  have archived := indexing.buffered.archived
  have named : k.chars fault (.atAddr (k.binaryTarfsStart + BitVec.ofNat 64 (offsetOf before))) 0
      stringRounds = .next (k, member.name) :=
    Kernel.chars_eq archived.spells_name member.nameText (Nat.zero_le _)
      (Nat.lt_trans member.nameShort (by decide))
  have unused : k.m.virtualTop ∉ k.fileStructs :=
    fun used => Nat.lt_irrefl _ (indexing.old _ used)
  have frames : k.m.phy.HasFrames (4 * after.length + 4) := indexing.frames
  rcases Kernel.newFile_eq indexing.buffered.orderly frames unused with
    ⟨m₁, frame', created, page, frames₁⟩
  have nonzero : (0 : Byte) ∉ rootfsName ++ member.name := by
    rw [List.mem_append, not_or]
    exact ⟨by decide, member.nameText⟩
  have short : (rootfsName ++ member.name).length < 4096 := by
    have := member.nameShort
    rw [List.length_append]
    exact Nat.lt_trans (show 7 + _ < 107 by omega) (by decide)
  let k₁ : Kernel :=
    { k.setMachine m₁ with fileStructs := k.m.virtualTop :: k.fileStructs }
  have buffered₁ : Buffered roots (before ++ member :: after) places buf frame k₁ :=
    (indexing.buffered.kernelPage page).congr rfl rfl
  rcases buffered₁.cleared fault nonzero (by simp [rootfsName]) short with
    ⟨kc, m₂, copied, cleared, rest, buffered₂⟩
  let k₂ : Kernel := k₁.setMachine m₂
  let f := k.m.virtualTop
  let entry := member.entry k.binaryTarfsStart (offsetOf before) (3 + before.length)
  let k₃ : Kernel := { k₂.modFile f fun _ => entry with fdCount := k.fdCount + 1 }
  have fresh : f ∉ root :: files := fun inside => unused (indexing.inside f inside)
  have elsewhere : ∀ p ∈ root :: files, k₃.file p = k.file p := by
    intro p inside
    apply Function.update_of_ne
    rintro rfl
    exact fresh inside
  have listed₃ : Chain.Linked k₃.nextFile k₃.filelist (root :: files) :=
    indexing.listed.congr fun p inside => congrArg File.next (elsewhere p inside)
  have room : (root :: files).length ≤ k₃.fileRounds := by
    have := indexing.room
    show files.length + 1 ≤ (k.m.virtualTop :: k.fileStructs).length + 1
    rw [List.length_cons]
    omega
  rcases Kernel.addToFilelist_eq listed₃ (List.cons_ne_nil _ _) fresh room with
    ⟨k', added, same, listed, entries⟩
  have few := indexing.buffered.few
  rw [List.length_append] at few
  have memory : k'.m = m₂ := congrArg Kernel.m same
  have start : k'.binaryTarfsStart = k.binaryTarfsStart := by
    rw [same]
    rfl
  have structs : k'.fileStructs = f :: k.fileStructs := congrArg Kernel.fileStructs same
  have kept : ∀ p ∈ root :: files, k'.entryAt p = k.entryAt p := by
    intro p inside
    rw [entries]
    exact congrArg (fun file : File => { file with next := none }) (elsewhere p inside)
  have rootKept := kept root List.mem_cons_self
  refine ⟨k', f, ?_, start, ?_⟩
  · intro rounds
    have written : entry = {
        name := rootfsName ++ member.name
        addr := k.binaryTarfsStart + BitVec.ofNat 64 (offsetOf before)
        fd := ofInt k.fdCount
        type := ofInt (atoi [digitChar member.typeflag])
        size := BitVec.ofNat 64 member.data.length
        offset := 0
        next := none } := by
      rw [indexing.count, ofInt_ofNat (by omega), member.ofInt_typeflag]
      rfl
    have type : (k₁.setMachine m₂).chars fault (.atAddr (k.binaryTarfsStart +
        BitVec.ofNat 64 (offsetOf before) + typeflagOffset)) 0 stringRounds =
          .next (k₁.setMachine m₂, [digitChar member.typeflag]) :=
      buffered₂.archived.chars_typeflag
    have size : (k₁.setMachine m₂).memberSize fault (k.binaryTarfsStart +
        BitVec.ofNat 64 (offsetOf before)) =
          .next (k₁.setMachine m₂, BitVec.ofNat 64 member.data.length) :=
      buffered₂.archived.memberSize_eq
    conv => lhs; unfold Kernel.initializeTarfsLoop
    dsimp only
    rw [named, Flow.next_bind]
    dsimp only
    rw [if_neg member.nameNonempty, created, Flow.next_bind]
    dsimp only
    rw [copied, Flow.next_bind, cleared, Flow.next_bind, type, Flow.next_bind]
    dsimp only
    rw [size, Flow.next_bind]
    dsimp only
    have listing : k₃ = { k₂.modFile f fun _ => _ with fdCount := k.fdCount + 1 } :=
      congrArg (fun entry => { k₂.modFile f fun _ => entry with fdCount := k.fdCount + 1 }) written
    rw [listing] at added
    refine (congrArg (· >>= _) added).trans ?_
    rw [Flow.next_bind, member.memberRoom_eq, member.offsetOf_append, BitVec.ofNat_add]
  · have top : k'.m.virtualTop.toNat = k.m.virtualTop.toNat + 4096 := by
      rw [memory, rest]
      exact page.virtualTop_toNat indexing.buffered.orderly
    exact {
      buffered := by
        rw [← List.append_cons]
        exact buffered₂.congr memory start
      frames := by
        rw [memory, rest]
        exact frames₁
      listed := listed
      old := by
        intro p used
        rw [structs] at used
        rcases List.mem_cons.mp used with rfl | earlier
        · rw [top]
          exact Nat.lt_add_of_pos_right (by decide)
        · have := indexing.old p earlier
          omega
      inside := by
        intro p listed
        rw [structs]
        rcases List.mem_append.mp (show p ∈ (root :: files) ++ [f] from listed) with earlier | last
        · exact List.mem_cons_of_mem _ (indexing.inside p earlier)
        · exact List.eq_of_mem_singleton last ▸ List.mem_cons_self
      room := by
        rw [structs, List.length_append, List.length_singleton, List.length_cons]
        exact Nat.succ_lt_succ indexing.room
      count := by
        have count : k'.fdCount = k.fdCount + 1 := by
          rw [same]
        rw [count, indexing.count, List.length_append, List.length_singleton, ← Nat.add_assoc,
          BitVec.ofNat_add _ 1]
        rfl
      rootName := (congrArg File.name rootKept).trans indexing.rootName
      rootFd := (congrArg File.fd rootKept).trans indexing.rootFd
      rootType := (congrArg File.type rootKept).trans indexing.rootType
      entries := by
        have last : k'.entryAt f = entry := by
          rw [entries]
          exact congrArg (fun file : File => { file with next := none })
            (Function.update_self f entry k.file)
        have earlier : files.map k'.entryAt = files.map k.entryAt :=
          List.map_congr_left fun p inside => kept p (List.mem_cons_of_mem _ inside)
        rw [start, List.map_append, earlier, indexing.entries, entries_append, Nat.zero_add,
          List.map_singleton, last] }

variable (fault) in
/-- The loop lists every member and stops at the block of zeros. -/
theorem run (indexing : Indexing roots places buf frame root before after files k) {rounds : Nat}
    (enough : after.length < rounds) :
    ∃ k' files', k.initializeTarfsLoop fault buf (BitVec.ofNat 64 (offsetOf before)) rounds =
        .next k' ∧ k'.binaryTarfsStart = k.binaryTarfsStart ∧
      Indexing roots places buf frame root (before ++ after) [] files' k' := by
  induction after generalizing before files k rounds with
  | nil =>
      cases rounds with
      | zero => exact absurd enough (Nat.not_lt_zero _)
      | succ rounds =>
          have archived := indexing.buffered.archived
          rw [List.append_nil] at archived
          refine ⟨k, files, ?_, rfl, by rwa [List.append_nil]⟩
          unfold Kernel.initializeTarfsLoop
          dsimp only
          rw [Kernel.chars_eq archived.spells_end List.not_mem_nil (Nat.zero_le _) (by decide),
            Flow.next_bind]
          rfl
  | cons member after ih =>
      cases rounds with
      | zero => exact absurd enough (Nat.not_lt_zero _)
      | succ rounds =>
          rcases indexing.step fault with ⟨k₁, f, round, start₁, indexing₁⟩
          rcases ih indexing₁ (Nat.lt_of_succ_lt_succ enough) with
            ⟨k', files', rest, start, indexing'⟩
          refine ⟨k', files', (round rounds).trans rest, start.trans start₁, ?_⟩
          rwa [List.append_assoc] at indexing'

variable (fault) in
/-- The buffer is empty in the end, and freeing it frees no page. -/
theorem kfree_buffer (indexing : Indexing roots places buf frame root before after files k) :
    k.strlen fault (.atAddr buf) = .next (k, 0) ∧ k.m.kfree buf 0 = k.m := by
  have empty : Kernel.Spells fault k (.atAddr buf) [] := by
    apply Kernel.spells_atAddr _ indexing.buffered.buffer
    rw [show 4096 = 4095 + 1 from rfl, content_succ, indexing.buffered.clear]
    rfl
  exact ⟨Kernel.strlen_eq empty List.not_mem_nil (by decide), rfl⟩

end Indexing

namespace Member

variable (fault) in
/-- Every listed entry is found again by its name. -/
theorem findOffsetForFile_of_mem_entries {members before after : List Member} {places : Nat → Place}
    (archived : Archived roots k members places) (distinct : (members.map name).Nodup)
    (few : members.length < stringRounds) (split : members = before ++ after) {entry : File}
    {fd : Nat} (listed : entry ∈ entries k.binaryTarfsStart after (offsetOf before) fd) :
    k.findOffsetForFile fault (.text entry.name) =
      .next (k, entry.addr - k.binaryTarfsStart + 512) := by
  induction after generalizing before fd with
  | nil => exact absurd listed List.not_mem_nil
  | cons member after ih =>
      rcases List.mem_cons.mp listed with rfl | later
      · subst split
        rw [List.map_append, List.nodup_append] at distinct
        have others : ∀ other ∈ before, other.name ≠ member.name := fun other inside =>
          distinct.2.2 _ (List.mem_map_of_mem inside) _ (List.mem_map_of_mem List.mem_cons_self)
        rw [List.length_append] at few
        refine (archived.findOffsetForFile_eq others (by omega)).trans ?_
        rw [entry, BitVec.add_comm k.binaryTarfsStart, BitVec.add_sub_cancel]
      · rw [← offsetOf_append] at later
        exact ih (by rw [split, List.append_cons]) later

end Member

/-! ## The whole index -/

variable (fault) in
/-- The root directory is listed, and the buffer is taken. -/
theorem initializeTarfs_start {members : List Member} {places : Nat → Place}
    (orderly : Machine.Orderly roots k.m) (blank : k.m.Blank) (noList : k.filelist = none)
    (noFiles : k.fileStructs = []) (two : k.fdCount = 2)
    (archived : Archived roots k members places)
    (below : Below k.m k.binaryTarfsStart (Member.archive members).length)
    (frames : k.m.phy.HasFrames (4 * (members.length + 2))) :
    ∃ k' buf frame root, k.initializeTarfs fault = (do
        let k ← k'.initializeTarfsLoop fault buf 0 stringRounds
        let (k, length) ← k.strlen fault (.atAddr buf)
        return k.setMachine (k.m.kfree buf length)) ∧
      k'.binaryTarfsStart = k.binaryTarfsStart ∧
      Indexing roots places buf frame root [] members [] k' := by
  let k₀ : Kernel := { k with cwd := rootfsName }
  have enough : k₀.m.phy.HasFrames (4 * members.length + 4 + 4) := frames
  have fresh : k₀.m.virtualTop ∉ k₀.fileStructs := by
    rw [show k₀.fileStructs = [] from noFiles]
    exact List.not_mem_nil
  rcases Kernel.newFile_eq (k := k₀) orderly enough fresh with
    ⟨m₁, frame₁, created, page₁, frames₁⟩
  have orderly₁ := page₁.page.extended.orderly
  have one : Machine.pagesOf 1024 = 1 := by decide
  rcases orderly₁.kmalloc one frames₁ with ⟨m₂, frame, taken, page₂, frames₂⟩
  rcases archived.span.kernelPage orderly page₁ fun _ inside => below.vpn_ne orderly inside with
    ⟨span₁, kept₁⟩
  have below₁ := below.kernelPage orderly page₁
  rcases span₁.kernelPage orderly₁ page₂ fun _ inside => below₁.vpn_ne orderly₁ inside with
    ⟨span₂, kept₂⟩
  have stored : content m₂ places (Member.archive members).length = Member.archive members :=
    (content_congr kept₂).trans ((content_congr kept₁).trans archived.stored)
  have top₂ := page₂.virtualTop_toNat orderly₁
  have top₁ : m₁.virtualTop.toNat = k.m.virtualTop.toNat + 4096 := page₁.virtualTop_toNat orderly
  let root := k.m.virtualTop
  let k₁ : Kernel := { k₀.setMachine m₁ with fileStructs := root :: k₀.fileStructs }
  let k₂ : Kernel := { k₁.modFile root fun s =>
    { s with fd := ofInt k₁.fdCount, type := typeDirectory, name := rootfsName } with
    fdCount := k₁.fdCount + 1 }
  let k₃ : Kernel := { k₂ with filelist := some root }.modFile root fun s => { s with next := none }
  refine ⟨k₃.setMachine m₂, m₁.virtualTop, frame, root, ?_, rfl, ?_⟩
  · have alloc : k₃.kmalloc 1024 = .next (k₃.setMachine m₂, m₁.virtualTop) := by
      unfold Kernel.kmalloc
      rw [show k₃.m = m₁ from rfl, taken]
      rfl
    have added : k₂.addToFilelist root = .next k₃ := by
      unfold Kernel.addToFilelist
      rw [show k₂.filelist = none from noList]
    unfold Kernel.initializeTarfs
    dsimp only
    rw [created, Flow.next_bind]
    dsimp only
    refine (congrArg (· >>= _) added).trans ?_
    rw [Flow.next_bind, alloc, Flow.next_bind]
  · exact {
      buffered := {
        orderly := page₂.page.extended.orderly
        archived := ⟨span₂, stored⟩
        archiveBelow := below₁.kernelPage orderly₁ page₂
        buffer := .of_kernelPage orderly₁ page₂
        bufferBelow := ⟨orderly₁.top.half, Nat.le_of_eq top₂.symm⟩
        apart := by
          rintro i inside rfl
          have free := page₂.page.available.free
          rw [span₁.inUse i inside] at free
          cases free
        clear := by
          have zero := (page₁.blank blank) frame page₂.page.available
          show byteOf (m₂.mem frame (Machine.wordIn (BitVec.ofNat 12 0))) _ = 0
          rw [page₂.content page₂.page.notTable, zero]
          rfl }
      frames := frames₂
      listed := ⟨rfl, by simp [k₃, Kernel.setMachine, Kernel.nextFile, Kernel.modFile]⟩
      old := by
        intro f used
        have only : f = root := by
          change f ∈ root :: k.fileStructs at used
          rw [noFiles] at used
          exact List.mem_singleton.mp used
        rw [only]
        show k.m.virtualTop.toNat < m₂.virtualTop.toNat
        omega
      inside := by
        intro f listed
        rw [List.mem_singleton.mp listed]
        exact List.mem_cons_self
      room := Nat.succ_pos _
      count := by
        show k.fdCount + 1 = 3
        rw [two]
        rfl
      rootName := by simp [k₃, k₂, Kernel.setMachine, Kernel.modFile]
      rootFd := by
        have counted : (k₃.file root).fd = ofInt k.fdCount := by
          simp [k₃, k₂, k₁, k₀, Kernel.setMachine, Kernel.modFile]
        exact counted.trans (by rw [two]; rfl)
      rootType := by simp [k₃, k₂, Kernel.setMachine, Kernel.modFile]
      entries := rfl }

/-- A file with one byte and a name of one letter. -/
def oneByteFile (letter : Byte) (text : letter ≠ 0) : Member where
  name := [letter]
  sizeDigits := List.replicate 10 0 ++ [1]
  typeflag := 0
  header := letter :: (List.replicate 123 0 ++ List.replicate 10 0x30 ++ [0x31] ++
    List.replicate 21 0 ++ [0x30] ++ List.replicate 355 0)
  data := [0x62]
  padding := List.replicate 511 0
  nameNonempty := List.cons_ne_nil _ _
  nameShort := show 1 < 100 by decide
  nameText := by
    rw [List.mem_singleton]
    exact text.symm
  headerLength := by
    simp only [List.length_append, List.length_replicate, List.length_cons, List.length_nil]
  headerName := rfl
  headerSize := rfl
  headerType := rfl
  elevenDigits := by decide
  octal := by decide
  decimal := by decide
  fits := by decide
  size := by decide
  blocks := by
    rw [List.length_replicate]
    rfl
  lastBlock := by
    rw [List.length_replicate]
    decide

theorem oneByteFile_bytes_length (letter : Byte) (text : letter ≠ 0) :
    (oneByteFile letter text).bytes.length = 1024 := by
  have padding : (oneByteFile letter text).padding.length = 511 := List.length_replicate
  rw [Member.bytes_length, padding, show (oneByteFile letter text).data.length = 1 from rfl]

end Sbrocks.Process
