import Sbrocks.Queue.Fifo
import Sbrocks.Fs.Indexing
import Sbrocks.Fs.Listing
import Sbrocks.System.Tasks

/-!
# Pipes

The ends of a pipe are nodes with counters of their own over one page.
-/

namespace Sbrocks.Process

open Sbrocks.Mmu Sbrocks.Radix

variable {fault : Fault} {roots : Word → Prop} {k k' : Kernel} {f task : Word} {nodes : List Word}

theorem content_add (m : Machine) (places : Nat → Place) (n n' : Nat) :
    content m places (n + n') = content m places n ++ content m (fun i => places (n + i)) n' := by
  have parts := List.take_append_drop n (content m places (n + n'))
  rw [content_take m places (Nat.le_add_right n n'), content_drop, Nat.add_sub_cancel_left] at parts
  exact parts.symm

/-! ## The pipes of a task -/

/-- The pipes of a task, with distinct descriptors. -/
structure Pipes (k : Kernel) (task : Word) (nodes : List Word) : Prop where
  linked : Chain.Linked k.nextFile (k.task task).pipe nodes
  structs : ∀ p ∈ nodes, p ∈ k.fileStructs
  fds : (nodes.map fun p => (k.file p).fd).Nodup

namespace Kernel

variable {act : Kernel → Word → Flow Kernel Kernel} {fd : Word} {head : Option Word} {rounds : Nat}

/-- Without a pipe that has the descriptor, nothing is done. -/
theorem eachPipe_none (linked : Chain.Linked k.nextFile head nodes)
    (others : ∀ p ∈ nodes, (k.file p).fd ≠ fd) (room : nodes.length < rounds) :
    k.eachPipe act fd head rounds = .next k := by
  induction nodes generalizing head rounds with
  | nil =>
      cases linked
      cases rounds with
      | zero => cases room
      | succ rounds => rfl
  | cons p nodes ih =>
      rcases linked with ⟨rfl, linked⟩
      cases rounds with
      | zero => cases room
      | succ rounds =>
          unfold eachPipe
          dsimp only
          rw [if_neg (others p List.mem_cons_self), Flow.next_bind]
          exact ih linked (fun q inside => others q (List.mem_cons_of_mem _ inside))
            (Nat.lt_of_succ_lt_succ room)

/-- Only the pipe with the descriptor is used. -/
theorem eachPipe_eq (linked : Chain.Linked k.nextFile head nodes)
    (fds : (nodes.map fun p => (k.file p).fd).Nodup) (inside : f ∈ nodes)
    (acts : act k f = .next k') (same : ∀ p, (k'.file p).fd = (k.file p).fd ∧
      k'.nextFile p = k.nextFile p) (room : nodes.length < rounds) :
    k.eachPipe act (k.file f).fd head rounds = .next k' := by
  induction nodes generalizing head rounds with
  | nil => cases inside
  | cons p nodes ih =>
      rcases linked with ⟨rfl, linked⟩
      rw [List.map_cons, List.nodup_cons] at fds
      rcases fds with ⟨different, fds⟩
      cases rounds with
      | zero => cases room
      | succ rounds =>
          have fewer := Nat.lt_of_succ_lt_succ room
          unfold eachPipe
          dsimp only
          rcases List.mem_cons.mp inside with rfl | later
          · rw [if_pos rfl, acts, Flow.next_bind, (same f).2]
            apply eachPipe_none (linked.congr fun q _ => (same q).2) _ fewer
            intro q behind again
            rw [(same q).1] at again
            exact different (List.mem_map.mpr ⟨q, behind, again⟩)
          · rw [if_neg, Flow.next_bind]
            · exact ih linked fds later fewer
            · intro again
              exact different (List.mem_map.mpr ⟨f, later, again.symm⟩)

variable {nbytes : BitVec 32} {buf : Word} {places target source : Nat → Place} {n : Nat}

variable (fault) in
/-- Copying between spans. -/
theorem memcpy_copies {s1 s2 : Word} (copy : Span roots k.m s1 n target)
    (original : Span roots k.m s2 n source) (loaded : roots k.m.root)
    (apart : ∀ i < n, ∀ j < n, source i ≠ target j)
    (injective : ∀ i < n, ∀ j < n, target i = target j → i = j) :
    ∃ m', k.memcpy fault s1 s2 n = .next (k.setMachine m') ∧
      Wrote roots k.m m' (fun place => ∃ i < n, place = target i) ∧
      content m' target n = content k.m source n := by
  have length := content_length k.m source n
  have copy' : Span roots k.m s1 (content k.m source n).length target := by rwa [length]
  rcases storeBytes_eq fault copy' loaded with ⟨m', stored, wrote, back⟩
  rw [length] at wrote back
  exact ⟨m', (memcpy_eq copy original loaded apart).trans stored, wrote, back injective⟩

theorem modFile_same (m : Machine) (p : Word) (change : File → File)
    (fd : ∀ s, (change s).fd = s.fd) (next : ∀ s, (change s).next = s.next) (q : Word) :
    ((((k.setMachine m).modFile p change).file q).fd = (k.file q).fd) ∧
      ((k.setMachine m).modFile p change).nextFile q = k.nextFile q := by
  by_cases here : q = p
  · subst here
    simp [modFile, nextFile, setMachine, fd, next]
  · simp [modFile, nextFile, setMachine, here]

variable (fault) in
/-- What a write through an end of a pipe does. -/
theorem writeToPipe_eq (pipes : Pipes k task nodes) (inside : f ∈ nodes)
    (count : (ofInt nbytes).toNat = n)
    (page : Span roots k.m ((k.file f).addr + (k.file f).offset) n target)
    (buffer : Span roots k.m buf n source) (loaded : roots k.m.root)
    (apart : ∀ i < n, ∀ j < n, source i ≠ target j)
    (injective : ∀ i < n, ∀ j < n, target i = target j → i = j) :
    ∃ m', k.writeToPipe fault task (k.file f).fd buf nbytes = .next ((k.setMachine m').modFile f
        fun s => { s with offset := s.offset + ofInt nbytes }) ∧
      Wrote roots k.m m' (fun place => ∃ i < n, place = target i) ∧
      content m' target n = content k.m source n := by
  rcases memcpy_copies fault page buffer loaded apart injective with ⟨m', copied, wrote, stored⟩
  refine ⟨m', ?_, wrote, stored⟩
  apply eachPipe_eq pipes.linked pipes.fds inside
  · dsimp only
    rw [count, copied]
    rfl
  · exact modFile_same m' f _ (fun _ => rfl) fun _ => rfl
  · exact rounds_suffice pipes.linked.nodup pipes.structs

variable (fault) in
/-- What a read through an end of a pipe does. -/
theorem readFromPipe_eq (pipes : Pipes k task nodes) (inside : f ∈ nodes)
    (count : (ofInt nbytes).toNat = n)
    (page : Span roots k.m ((k.file f).addr + (k.file f).offset) n source)
    (buffer : Span roots k.m buf n target) (loaded : roots k.m.root)
    (apart : ∀ i < n, ∀ j < n, source i ≠ target j)
    (injective : ∀ i < n, ∀ j < n, target i = target j → i = j) :
    ∃ m', k.readFromPipe fault task (k.file f).fd buf nbytes = .next ((k.setMachine m').modFile f
        fun s => { s with offset := s.offset + ofInt nbytes }) ∧
      Wrote roots k.m m' (fun place => ∃ i < n, place = target i) ∧
      content m' target n = content k.m source n := by
  rcases memcpy_copies fault buffer page loaded apart injective with ⟨m', copied, wrote, stored⟩
  refine ⟨m', ?_, wrote, stored⟩
  apply eachPipe_eq pipes.linked pipes.fds inside
  · dsimp only
    rw [count, copied]
    rfl
  · exact modFile_same m' f _ (fun _ => rfl) fun _ => rfl
  · exact rounds_suffice pipes.linked.nodup pipes.structs

/-! ### System calls on an end -/

theorem isFilePipe_eq (pipes : Pipes k task nodes) (inside : f ∈ nodes) :
    k.isFilePipe task (k.file f).fd = .next true := by
  rcases List.append_of_mem inside with ⟨front, back, rfl⟩
  have fds := pipes.fds
  have room := rounds_suffice pipes.linked.nodup pipes.structs
  rw [List.map_append, List.nodup_append] at fds
  rw [List.length_append] at room
  have others : ∀ p ∈ front, ((k.file p).fd == (k.file f).fd) = false := by
    intro p earlier
    exact beq_false_of_ne (fds.2.2 _ (List.mem_map_of_mem earlier) _ (by simp))
  unfold isFilePipe
  rw [pipes.linked.scan_eq others (beq_self_eq_true _) (by omega)]
  rfl

/-- `system_write` to an end of a pipe. -/
theorem systemWrite_pipe (pipes : Pipes k task nodes) (inside : f ∈ nodes)
    (running : k.currentTask = some task) (nbytes : Word) :
    k.systemWrite fault (k.file f).fd buf nbytes =
      (k.writeToPipe fault task (k.file f).fd buf (toInt nbytes) >>= fun k' =>
        .next (k', nbytes)) := by
  unfold systemWrite
  rw [running, Flow.ofOption_some, Flow.next_bind, isFilePipe_eq pipes inside, Flow.next_bind]
  rfl

/-- `system_read` from an end of a pipe. -/
theorem systemRead_pipe (pipes : Pipes k task nodes) (inside : f ∈ nodes)
    (running : k.currentTask = some task) (nbytes : Word) :
    k.systemRead fault (k.file f).fd buf nbytes =
      (k.readFromPipe fault task (k.file f).fd buf (toInt nbytes) >>= fun k' => .next (k', 0)) := by
  unfold systemRead
  rw [running, Flow.ofOption_some, Flow.next_bind, isFilePipe_eq pipes inside, Flow.next_bind]
  rfl

/-! ### A new pipe -/

/-- A pipe at the end of the list of a task: only links change. -/
theorem addPipeToTask_eq {p : Word} (linked : Chain.Linked k.nextFile (k.task task).pipe nodes)
    (structs : ∀ q ∈ nodes, q ∈ k.fileStructs) (fresh : p ∉ nodes) :
    ∃ k', k.addPipeToTask task p = .next k' ∧ k' = { k with file := k'.file, task := k'.task } ∧
      Chain.Linked k'.nextFile (k'.task task).pipe (nodes ++ [p]) ∧
      ∀ q, k'.entryAt q = k.entryAt q := by
  rcases List.eq_nil_or_concat nodes with rfl | ⟨earlier, t, rfl⟩
  · have empty : (k.task task).pipe = none := linked
    refine ⟨(k.modTask task fun s => { s with pipe := some p }).modFile p
      fun s => { s with next := none }, ?_, rfl, ?_, fun q => ?_⟩
    · unfold addPipeToTask
      rw [empty]
    · refine ⟨?_, ?_⟩
      · simp [modFile, modTask]
      · rw [nextFile_modFile, Function.update_self]
        rfl
    · rw [entryAt_modFile_next]
      rfl
  · rw [List.concat_eq_append] at *
    have room := rounds_suffice linked.nodup structs
    rw [List.length_append, List.length_singleton] at room
    rcases lastFile_eq linked (by omega) with ⟨first, head, last⟩
    refine ⟨(k.modFile t fun s => { s with next := some p }).modFile p fun s =>
      { s with next := none }, ?_, rfl, ?_, fun q => ?_⟩
    · unfold addPipeToTask
      rw [head]
      dsimp only
      rw [last]
      rfl
    · rw [nextFile_modFile, nextFile_modFile]
      exact linked.push fresh
    · rw [entryAt_modFile_next, entryAt_modFile_next]

theorem allocPages_eq {n : Nat} {flags addr : Word} {m' : Machine}
    (taken : k.m.allocPages n flags = some (m', addr)) :
    k.allocPages n flags = .next (k.setMachine m', addr) := by
  unfold allocPages
  rw [taken]
  rfl

variable (fault) in
/-- A new pipe: two ends at the end of the list of the task, over the frame that the
allocator hands out, as it is. -/
theorem systemPipe_eq {n : Nat} {fds : Word} {places : Nat → Place}
    (orderly : Machine.Orderly roots k.m) (frames : k.m.phy.HasFrames (n + 12))
    (running : k.currentTask = some task)
    (linked : Chain.Linked k.nextFile (k.task task).pipe nodes)
    (structs : ∀ p ∈ nodes, p ∈ k.fileStructs)
    (below : ∀ p ∈ k.fileStructs, p.toNat < k.m.virtualTop.toNat)
    (span : Span roots k.m fds 8 places)
    (elsewhere : ∀ i < 8, ∀ page ∈ [k.m.virtualTop, k.m.virtualTop + 4096, k.m.virtualTop + 8192],
      vpn (fds + BitVec.ofNat 64 i) ≠ vpn page) :
    ∃ k' frame, k.systemPipe fault fds = .next k' ∧ Machine.Orderly roots k'.m ∧
      k.m.phy.Available frame ∧ k'.m.mem frame = k.m.mem frame ∧
      Span roots k'.m (k.m.virtualTop + 8192) 4096 (pagePlaces frame) ∧
      Chain.Linked k'.nextFile (k'.task task).pipe
        (nodes ++ [k.m.virtualTop, k.m.virtualTop + 4096]) ∧
      (∀ {virt : Word} {length : Nat} {places : Nat → Place}, Span roots k.m virt length places →
        (∀ i < length, ∀ page ∈ [k.m.virtualTop, k.m.virtualTop + 4096, k.m.virtualTop + 8192],
          vpn (virt + BitVec.ofNat 64 i) ≠ vpn page) → Span roots k'.m virt length places) ∧
      k'.fileStructs = (k.m.virtualTop + 4096) :: k.m.virtualTop :: k.fileStructs ∧
      k'.entryAt k.m.virtualTop = { k.file k.m.virtualTop with
        name := [0x70, 0x69, 0x70, 0x65, 0x31], addr := k.m.virtualTop + 8192,
        fd := ofInt k.fdCount, size := pageSize, offset := 0, next := none } ∧
      k'.entryAt (k.m.virtualTop + 4096) = { k.file (k.m.virtualTop + 4096) with
        name := [0x70, 0x69, 0x70, 0x65, 0x32], addr := k.m.virtualTop + 8192,
        fd := ofInt (toInt (ofInt k.fdCount + 1)), size := pageSize, offset := 0,
        next := none } := by
  have old : k.m.virtualTop ∉ k.fileStructs := by
    intro inside
    have := below _ inside
    omega
  rcases newFile_eq (n := n + 8) orderly frames old with ⟨m₁, frame₁, new₁, page₁, frames₁⟩
  have orderly₁ := page₁.page.extended.orderly
  have top₁ := page₁.virtualTop_toNat orderly
  let k₁ := { k.setMachine m₁ with fileStructs := k.m.virtualTop :: k.fileStructs }
  have old₁ : m₁.virtualTop ∉ k.m.virtualTop :: k.fileStructs := by
    intro inside
    rcases List.mem_cons.mp inside with same | inside
    · have := congrArg BitVec.toNat same
      omega
    · have := below _ inside
      omega
  rcases newFile_eq (k := k₁) (n := n + 4) orderly₁ frames₁ old₁ with
    ⟨m₂, frame₂, new₂, page₂, frames₂⟩
  have orderly₂ := page₂.page.extended.orderly
  rcases orderly₂.kernelPage Machine.flagBits_user frames₂ with ⟨m₃, frame, taken, page₃, _⟩
  have orderly₃ := page₃.page.extended.orderly
  have at₁ : m₁.virtualTop = k.m.virtualTop + 4096 := page₁.virtualTop
  have at₂ : m₂.virtualTop = k.m.virtualTop + 8192 := by
    rw [page₂.virtualTop, show k₁.m.virtualTop = m₁.virtualTop from rfl, at₁, BitVec.add_assoc]
    rfl
  have kept : ∀ {virt : Word} {length : Nat} {places : Nat → Place},
      Span roots k.m virt length places →
      (∀ i < length, ∀ page ∈ [k.m.virtualTop, k.m.virtualTop + 4096, k.m.virtualTop + 8192],
        vpn (virt + BitVec.ofNat 64 i) ≠ vpn page) → Span roots m₃ virt length places := by
    intro virt length places span elsewhere
    have span₁ := span.kernelPage orderly page₁ fun i inside => elsewhere i inside _ (by simp)
    have span₂ := span₁.1.kernelPage orderly₁ page₂ fun i inside =>
      elsewhere i inside m₁.virtualTop (by simp [at₁])
    have span₃ := span₂.1.kernelPage orderly₂ page₃ fun i inside =>
      elsewhere i inside m₂.virtualTop (by simp [at₂])
    exact span₃.1
  have span₃ := kept span elsewhere
  let fd₁ := ofInt k.fdCount
  let fd₂ := ofInt (toInt (fd₁ + 1))
  let k₃ : Kernel :=
    { k₁.setMachine m₃ with
      fileStructs := m₁.virtualTop :: k.m.virtualTop :: k.fileStructs, fdCount := toInt (fd₂ + 1) }
  let k₄ := (k₃.modFile k.m.virtualTop fun s =>
    { s with name := [0x70, 0x69, 0x70, 0x65, 0x31], addr := m₂.virtualTop, fd := fd₁,
             size := pageSize, offset := 0, next := none }).modFile m₁.virtualTop fun s =>
    { s with name := [0x70, 0x69, 0x70, 0x65, 0x32], addr := m₂.virtualTop, fd := fd₂,
             size := pageSize, offset := 0, next := none }
  have begun : k.systemPipe fault fds = (do
      let k' ← k₄.addPipeToTask task k.m.virtualTop
      let k' ← k'.addPipeToTask task m₁.virtualTop
      let k' ← k'.storeBytes fault fds (leBytes (k'.file k.m.virtualTop).fd 4)
      k'.storeBytes fault (fds + 4) (leBytes (k'.file m₁.virtualTop).fd 4)) := by
    unfold systemPipe
    rw [running, Flow.ofOption_some, Flow.next_bind, new₁, Flow.next_bind]
    dsimp only
    rw [new₂, Flow.next_bind]
    dsimp only
    exact (congrArg (· >>= _) (allocPages_eq taken)).trans rfl
  have new : ∀ p ∈ nodes, p ≠ k.m.virtualTop ∧ p ≠ m₁.virtualTop := by
    refine fun p inside => ⟨?_, ?_⟩
    · rintro rfl
      exact old (structs _ inside)
    · rintro rfl
      exact old₁ (List.mem_cons_of_mem _ (structs _ inside))
  have linked₄ : Chain.Linked k₄.nextFile (k₄.task task).pipe nodes := by
    refine linked.congr fun p inside => ?_
    rw [nextFile_modFile, nextFile_modFile, Function.update_of_ne (new p inside).2,
      Function.update_of_ne (new p inside).1]
    rfl
  have structs₄ : ∀ p ∈ nodes ++ [k.m.virtualTop], p ∈ k₄.fileStructs := by
    intro p inside
    rcases List.mem_append.mp inside with earlier | last
    · exact List.mem_cons_of_mem _ (List.mem_cons_of_mem _ (structs p earlier))
    · rw [List.mem_singleton.mp last]
      exact List.mem_cons_of_mem _ List.mem_cons_self
  rcases addPipeToTask_eq linked₄ (fun p inside => structs₄ p (List.mem_append_left _ inside))
    (fun inside => (new _ inside).1 rfl) with ⟨k₅, added₅, same₅, linked₅, entries₅⟩
  have structs₅ : ∀ p ∈ nodes ++ [k.m.virtualTop], p ∈ k₅.fileStructs := by
    rw [same₅]
    exact structs₄
  have fresh₅ : m₁.virtualTop ∉ nodes ++ [k.m.virtualTop] := by
    intro inside
    rcases List.mem_append.mp inside with earlier | last
    · exact (new _ earlier).2 rfl
    · exact old₁ (List.mem_singleton.mp last ▸ List.mem_cons_self)
  rcases addPipeToTask_eq linked₅ structs₅ fresh₅ with ⟨k₆, added₆, same₆, linked₆, entries₆⟩
  have machine : k₆.m = m₃ := by
    rw [same₆]
    exact congrArg Kernel.m same₅
  have span₆ : Span roots k₆.m fds 8 places := machine.symm ▸ span₃
  have loaded : roots k₆.m.root := machine.symm ▸ orderly₃.loaded
  have word₄ : Span roots k₆.m fds (leBytes (k₆.file k.m.virtualTop).fd 4).length places :=
    span₆.take (show 4 ≤ 8 by decide)
  rcases storeBytes_eq fault word₄ loaded with ⟨m₄, stored₄, wrote₄, _⟩
  have word₅ : Span roots m₄ (fds + 4) (leBytes (k₆.file m₁.virtualTop).fd 4).length
      fun i => places (4 + i) := (span₆.wrote loaded wrote₄).part 4 4 (Nat.le_refl 8)
  have loaded₄ : roots m₄.root := wrote₄.root ▸ loaded
  rcases storeBytes_eq fault (k := k₆.setMachine m₄) word₅ loaded₄ with ⟨m₅, stored₅, wrote₅, _⟩
  have wrote : Wrote roots m₃ m₅ fun place => ∃ i < 8, place = places i := by
    rw [← machine]
    apply (wrote₄.mono _).trans (wrote₅.mono _)
    · rintro place ⟨i, inside, same⟩
      exact ⟨i, Nat.lt_of_lt_of_le inside (show 4 ≤ 8 by decide), same⟩
    · rintro place ⟨i, inside, same⟩
      change i < 4 at inside
      exact ⟨4 + i, by omega, same⟩
  have available₁ : m₁.phy.Available frame := page₃.page.available.mono page₂.page.extended.used
  have available : k.m.phy.Available frame := available₁.mono page₁.page.extended.used
  have outside : ∀ offset, ¬ ∃ i < 8, (frame, offset) = places i := by
    rintro offset ⟨i, inside, same⟩
    have used := span.inUse i inside
    rw [← same] at used
    exact absurd (available.free.symm.trans used) (by decide)
  have untouched : m₅.mem frame = k.m.mem frame := by
    rw [wrote.frames frame outside, page₃.content page₃.page.notTable,
      page₂.content (Machine.not_isTable_of_available orderly₂.spaces.tables page₃.page.available)]
    exact page₁.content (Machine.not_isTable_of_available orderly₁.spaces.tables available₁)
  have page := (Span.of_kernelPage orderly₂ page₃).wrote orderly₃.loaded wrote
  rw [at₂] at page
  have entries : ∀ p, k₆.entryAt p = k₄.entryAt p := fun p => (entries₆ p).trans (entries₅ p)
  have chain : Chain.Linked k₆.nextFile (k₆.task task).pipe
      (nodes ++ [k.m.virtualTop, k.m.virtualTop + 4096]) := by
    rw [List.append_assoc, at₁] at linked₆
    exact linked₆
  have ordered := wrote.orderly orderly₃ fun place ⟨i, inside, same⟩ => by
    rw [same]
    exact span₃.inUse i inside
  refine ⟨(k₆.setMachine m₄).setMachine m₅, frame, ?_, ordered, available, untouched, page, chain,
    fun span elsewhere => (kept span elsewhere).wrote orderly₃.loaded wrote, ?_, ?_, ?_⟩
  · rw [begun, added₅, Flow.next_bind, added₆, Flow.next_bind, stored₄, Flow.next_bind]
    exact stored₅
  · show k₆.fileStructs = _
    rw [show k₆.fileStructs = k₅.fileStructs by rw [same₆],
      show k₅.fileStructs = k₄.fileStructs by rw [same₅], ← at₁]
    rfl
  · refine (entries k.m.virtualTop).trans ?_
    have different : k.m.virtualTop ≠ m₁.virtualTop := fun same => old₁ (same ▸ List.mem_cons_self)
    rw [← at₂]
    simp [entryAt, k₄, modFile, k₃, k₁, setMachine, different, fd₁]
  · refine (entries (k.m.virtualTop + 4096)).trans ?_
    have different : m₁.virtualTop ≠ k.m.virtualTop := fun same => old₁ (same ▸ List.mem_cons_self)
    rw [← at₁, ← at₂]
    simp [entryAt, k₄, modFile, k₃, k₁, setMachine, different, fd₁, fd₂]

end Kernel

/-- Only a counter of a pipe changes. -/
theorem Pipes.count (pipes : Pipes k task nodes) (m : Machine) (f offset : Word) :
    Pipes ((k.setMachine m).modFile f fun s => { s with offset := s.offset + offset }) task
      nodes := by
  have same := Kernel.modFile_same (k := k) m f (fun s => { s with offset := s.offset + offset })
    (fun _ => rfl) fun _ => rfl
  refine ⟨pipes.linked.congr fun p _ => (same p).2, pipes.structs, ?_⟩
  rw [List.map_congr_left fun p _ => (same p).1]
  exact pipes.fds

/-! ## Interleavings of writes and reads -/

/-- What may be asked of the steps of a run: of its writes and reads, given what was
written and read before, and of everything else. -/
structure Piping.Conditions where
  writes : List Byte → Kernel → Word → Word → Nat → (Nat → Place) → Prop
  reads : List Byte → List Byte → Kernel → Word → Word → Nat → (Nat → Place) → Prop
  others : Kernel → Kernel → Prop

/-- A pipe was created, and since then written and read by tasks that hold copies of its
ends: which bytes were written, which were read, where writes changed the memory, and the
state reached. -/
inductive Piping (fault : Fault) (meets : Piping.Conditions) (addr : Word) :
    List Byte → List Byte → (Place → Prop) → Kernel → Prop
  | created {k k' : Kernel} {fds f : Word} (called : k.systemPipe fault fds = .next k')
      (old : f ∉ k.fileStructs) (new : f ∈ k'.fileStructs) (page : (k'.file f).addr = addr) :
      Piping fault meets addr [] [] (fun _ => False) k'
  | write {k k' : Kernel} {put got : List Byte} {stored : Place → Prop} {task f buf : Word}
      {nodes : List Word} {nbytes : BitVec 32} {source : Nat → Place}
      (before : Piping fault meets addr put got stored k) (pipes : Pipes k task nodes)
      (inside : f ∈ nodes) (page : (k.file f).addr = addr)
      (called : k.writeToPipe fault task (k.file f).fd buf nbytes = .next k')
      (reached : ∀ i < (ofInt nbytes).toNat, k.m.place (buf + BitVec.ofNat 64 i) = some (source i))
      (met : meets.writes put k f buf (ofInt nbytes).toNat source) :
      Piping fault meets addr (put ++ content k.m source (ofInt nbytes).toNat) got
        (fun place => stored place ∨ k'.m.byte place ≠ k.m.byte place) k'
  | read {k k' : Kernel} {put got : List Byte} {stored : Place → Prop} {task f buf : Word}
      {nodes : List Word} {nbytes : BitVec 32} {target : Nat → Place}
      (before : Piping fault meets addr put got stored k) (pipes : Pipes k task nodes)
      (inside : f ∈ nodes) (page : (k.file f).addr = addr)
      (called : k.readFromPipe fault task (k.file f).fd buf nbytes = .next k')
      (reached : ∀ i < (ofInt nbytes).toNat, k.m.place (buf + BitVec.ofNat 64 i) = some (target i))
      (met : meets.reads put got k f buf (ofInt nbytes).toNat target) :
      Piping fault meets addr put (got ++ content k'.m target (ofInt nbytes).toNat) stored k'
  | other {k k' : Kernel} {put got : List Byte} {stored : Place → Prop}
      (before : Piping fault meets addr put got stored k) (met : meets.others k k') :
      Piping fault meets addr put got stored k'

namespace Piping

/-- Memory that is written from or read into: apart from the page of the pipe, which is
mapped. -/
structure Buffer (addr frame : Word) (k : Kernel) (buf : Word) (n : Nat) (places : Nat → Place) :
    Prop where
  spans : ∃ roots, roots k.m.root ∧ Span roots k.m addr 4096 (pagePlaces frame) ∧
    Span roots k.m buf n places
  injective : ∀ i < n, ∀ j < n, places i = places j → i = j
  apart : ∀ i < n, ∀ j < 4096, places i ≠ pagePlaces frame j

/-- Every end that is used has counted all bytes that were written or read before, no read
asks for more than was written, the writes fit in the page, and nothing else stores
there. -/
def counted (addr frame : Word) : Conditions where
  writes put k f buf n source := (k.file f).offset = BitVec.ofNat 64 put.length ∧
    put.length + n ≤ 4096 ∧ Buffer addr frame k buf n source
  reads put got k f buf n target := (k.file f).offset = BitVec.ofNat 64 got.length ∧
    got.length + n ≤ put.length ∧ Buffer addr frame k buf n target
  others k k' := ∀ i < 4096, k'.m.byte (pagePlaces frame i) = k.m.byte (pagePlaces frame i)

section Counted

variable {addr frame task buf : Word} {nbytes : BitVec 32} {put got : List Byte}
  {places : Nat → Place} {stored : Place → Prop}

/-- The page holds what was written. -/
structure Holds (frame : Word) (put : List Byte) (k : Kernel) : Prop where
  fits : put.length ≤ 4096
  content : content k.m (pagePlaces frame) put.length = put

/-- One write appends to what the page holds. -/
theorem Holds.write (holds : Holds frame put k) (pipes : Pipes k task nodes) (inside : f ∈ nodes)
    (page : (k.file f).addr = addr)
    (called : k.writeToPipe fault task (k.file f).fd buf nbytes = .next k')
    (met : (counted addr frame).writes put k f buf (ofInt nbytes).toNat places) :
    Holds frame (put ++ Process.content k.m places (ofInt nbytes).toNat) k' ∧
      ∀ place, k'.m.byte place ≠ k.m.byte place → ∃ i < 4096, place = pagePlaces frame i := by
  obtain ⟨n, count⟩ : ∃ n, n = (ofInt nbytes).toNat := ⟨_, rfl⟩
  rw [← count] at met ⊢
  rcases met with ⟨counter, room, ⟨roots, loaded, mapped, buffer⟩, injective, apart⟩
  have target := mapped.part put.length n room
  rw [← counter, ← page] at target
  rcases Kernel.writeToPipe_eq fault pipes inside count.symm target buffer loaded
    (fun i below j below' => apart i below _ (by omega)) fun i below j below' same => by
      have := pagePlaces_inj (Nat.le_refl 4096) (by omega) (by omega) same
      omega with ⟨m', written, wrote, stored⟩
  rw [written] at called
  cases called
  refine ⟨⟨?_, ?_⟩, fun place changed => ?_⟩
  · rw [List.length_append, content_length]
    exact room
  · rw [List.length_append, content_length]
    refine (content_add m' _ _ _).trans ?_
    rw [stored]
    congr 1
    refine (content_congr fun i below => ?_).trans holds.content
    apply wrote.bytes
    rintro ⟨j, below', same⟩
    have := pagePlaces_inj (Nat.le_refl 4096) (by omega) (by omega) same
    omega
  · by_contra outside
    refine changed (wrote.bytes place ?_)
    rintro ⟨i, below, rfl⟩
    exact outside ⟨_, by omega, rfl⟩

/-- One read takes what the page holds from its place on. -/
theorem Holds.read (holds : Holds frame put k) (pipes : Pipes k task nodes) (inside : f ∈ nodes)
    (page : (k.file f).addr = addr)
    (called : k.readFromPipe fault task (k.file f).fd buf nbytes = .next k')
    (met : (counted addr frame).reads put got k f buf (ofInt nbytes).toNat places) :
    Holds frame put k' ∧ Process.content k'.m places (ofInt nbytes).toNat =
      (put.drop got.length).take (ofInt nbytes).toNat := by
  obtain ⟨n, count⟩ : ∃ n, n = (ofInt nbytes).toNat := ⟨_, rfl⟩
  rw [← count] at met ⊢
  rcases met with ⟨counter, available, ⟨roots, loaded, mapped, buffer⟩, injective, apart⟩
  have fits := holds.fits
  have source := mapped.part got.length n (by omega)
  rw [← counter, ← page] at source
  rcases Kernel.readFromPipe_eq fault pipes inside count.symm source buffer loaded
    (fun i below j below' same => apart j below' _ (by omega) same.symm) injective with
    ⟨m', read, wrote, stored⟩
  rw [read] at called
  cases called
  refine ⟨⟨fits, ?_⟩, ?_⟩
  · refine (content_congr fun i below => ?_).trans holds.content
    apply wrote.bytes
    rintro ⟨j, below', same⟩
    exact apart j below' i (by omega) same.symm
  · have rest := congrArg (fun bytes => (bytes.drop got.length).take n) holds.content
    simp only [content_drop] at rest
    rw [content_take _ _ (by omega)] at rest
    exact stored.trans rest

/-- The bytes pass through the pipe as through a queue. -/
theorem fifo (piping : Piping fault (counted addr frame) addr put got stored k) :
    Holds frame put k ∧ Queue.Fifo put got (put.drop got.length) ∧
      ∀ place, stored place → ∃ i < 4096, place = pagePlaces frame i := by
  induction piping with
  | created called old new page => exact ⟨⟨Nat.zero_le _, rfl⟩, .empty, nofun⟩
  | @write k k' put got stored task f buf nodes nbytes source before pipes inside page called
      reached met ih =>
      rcases ih with ⟨holds, fifo, kept⟩
      rcases holds.write pipes inside page called met with ⟨holds', changed⟩
      refine ⟨holds', ?_, ?_⟩
      · have length := fifo.length
        have next := fifo.put (content k.m source (ofInt nbytes).toNat)
        rwa [← List.drop_append_of_le_length (by omega)] at next
      · rintro place (earlier | now)
        · exact kept place earlier
        · exact changed place now
  | @read k k' put got stored task f buf nodes nbytes target before pipes inside page called
      reached met ih =>
      rcases ih with ⟨holds, fifo, kept⟩
      rcases holds.read pipes inside page called met with ⟨holds', same⟩
      refine ⟨holds', ?_, kept⟩
      have next := fifo.take (ofInt nbytes).toNat
      rw [← same, List.drop_drop] at next
      rwa [List.length_append, content_length]
  | other before met ih =>
      rcases ih with ⟨holds, fifo, kept⟩
      refine ⟨⟨holds.fits, ?_⟩, fifo, kept⟩
      rw [content_congr fun i below => met i (by have := holds.fits; omega)]
      exact holds.content

/-- What is read is the beginning of what was written, and writes change nothing outside
the page. -/
theorem piped_in_order (piping : Piping fault (counted addr frame) addr put got stored k) :
    got <+: put ∧ ∀ place, stored place → ∃ i < 4096, place = pagePlaces frame i := by
  rcases fifo piping with ⟨_, queue, kept⟩
  exact ⟨queue.isPrefix, kept⟩

end Counted

/-! ### A byte that goes through a pipe -/

/-- A kernel whose only task runs and has no pipe. -/
def soleTask (m : Machine) : Kernel :=
  { Kernel.initial m 0 with
    task := fun _ => { (default : TaskStruct) with pid := 1, state := .running, pml4e := 0x1000 }
    taskStructs := [0x1000]
    taskList := some 0x1000
    currentTask := some 0x1000 }

/-- A byte is written and read. -/
theorem piped_in_order_soleTask : ∃ addr frame put got stored k,
    Piping (Kernel.kernelFault noFrames 0) (counted addr frame) addr put got stored k ∧
      got.length = 1 ∧ got <+: put ∧
      ∀ place, stored place → ∃ i < 4096, place = pagePlaces frame i := by
  rcases exists_page [] (by decide) with ⟨roots, m, frame₀, orderly, _, frames, span, _, top⟩
  obtain ⟨start, begins⟩ : ∃ start, start = Machine.bootExample.virtualTop := ⟨_, rfl⟩
  have value : start.toNat = 0xFFFFFFFF80201000 := by
    rw [begins]
    rfl
  rw [← begins] at span top
  have frames : m.phy.HasFrames (8 + 12) := frames
  have linked : Chain.Linked (soleTask m).nextFile ((soleTask m).task 0x1000).pipe [] := rfl
  have at' : m.virtualTop = 0xFFFFFFFF80202000 := by
    apply BitVec.eq_of_toNat_eq
    rw [top, value]
    rfl
  have elsewhere : ∀ i < 4096, ∀ page ∈ [m.virtualTop, m.virtualTop + 4096, m.virtualTop + 8192],
      vpn (start + BitVec.ofNat 64 i) ≠ vpn page := by
    intro i inside page member
    have here : (start + BitVec.ofNat 64 i).toNat = start.toNat + i := by
      rw [BitVec.toNat_add, BitVec.toNat_ofNat]
      omega
    have above : page.toNat % 4096 = 0 ∧ 0xFFFFFFFF80202000 ≤ page.toNat := by
      rw [at'] at member
      simp only [List.mem_cons, List.not_mem_nil, or_false] at member
      rcases member with rfl | rfl | rfl <;> decide
    exact vpn_ne_of_below above.1 (by omega) (by omega)
  rcases Kernel.systemPipe_eq (Kernel.kernelFault noFrames 0) (k := soleTask m) orderly frames rfl
    linked nofun nofun (span.take (by decide)) fun i inside => elsewhere i (by omega) with
    ⟨k, frame, created, orderly', available, _, page, chain, kept, structs, first, second⟩
  let k₀ := soleTask m
  obtain ⟨p₁, same₁⟩ : ∃ p, p = k₀.m.virtualTop := ⟨_, rfl⟩
  obtain ⟨p₂, same₂⟩ : ∃ p, p = k₀.m.virtualTop + 4096 := ⟨_, rfl⟩
  obtain ⟨addr, same⟩ : ∃ addr, addr = k₀.m.virtualTop + 8192 := ⟨_, rfl⟩
  rw [← same] at page first second
  rw [← same₂] at chain structs second
  rw [← same₁] at chain structs first
  have memory : Span roots k.m start 4096 (pagePlaces frame₀) := kept span elsewhere
  have apart : ∀ i j, pagePlaces frame₀ i ≠ pagePlaces frame j := by
    intro i j same
    have used := span.inUse 0 (by decide)
    rw [show (pagePlaces frame₀ 0).1 = frame from (Prod.mk.inj same).1] at used
    exact absurd (available.free.symm.trans used) (by decide)
  have pipes : Pipes k 0x1000 [p₁, p₂] := {
    linked := chain
    structs := by
      rw [structs]
      intro p inside
      simp only [List.mem_cons, List.not_mem_nil, or_false] at inside
      rcases inside with rfl | rfl <;> simp
    fds := by
      have fd₁ := congrArg File.fd first
      have fd₂ := congrArg File.fd second
      show [(k.entryAt p₁).fd, (k.entryAt p₂).fd].Nodup
      rw [fd₁, fd₂]
      show ([2, 3] : List Word).Nodup
      decide }
  have buffer : ∀ (k' : Kernel) (offset : Nat), roots k'.m.root →
      Span roots k'.m addr 4096 (pagePlaces frame) →
      Span roots k'.m start 4096 (pagePlaces frame₀) →
      offset + 1 ≤ 4096 →
      Buffer addr frame k' (start + BitVec.ofNat 64 offset) (ofInt (1 : BitVec 32)).toNat
        fun i => pagePlaces frame₀ (offset + i) := by
    intro k' offset loaded page memory room
    refine ⟨⟨roots, loaded, page, memory.part offset 1 room⟩, ?_, fun i _ j _ => apart _ _⟩
    intro i inside j inside' _
    change i < 1 at inside
    change j < 1 at inside'
    omega
  have opened : Piping (Kernel.kernelFault noFrames 0) (counted addr frame) addr [] []
      (fun _ => False) k :=
    .created created (show p₁ ∉ ([] : List Word) from List.not_mem_nil) (by rw [structs]; simp)
      (congrArg File.addr first)
  have room : (0 : Nat) + (ofInt (1 : BitVec 32)).toNat ≤ 4096 := by decide
  have loaded := orderly'.loaded
  have addr₂ : (k.file p₂).addr = addr := congrArg File.addr second
  have offset₂ : (k.file p₂).offset = BitVec.ofNat 64 0 := congrArg File.offset second
  have target := page.part 0 _ room
  rw [← addr₂, ← offset₂] at target
  have source := buffer k 100 loaded page memory (by decide)
  rcases Kernel.writeToPipe_eq (Kernel.kernelFault noFrames 0) pipes (f := p₂) (by simp) rfl target
    (memory.part 100 1 (by decide)) loaded (fun _ _ _ _ => apart _ _)
    (fun i inside j inside' _ => by
      change i < 1 at inside
      change j < 1 at inside'
      omega) with ⟨m', written, wrote, _⟩
  have full := opened.write pipes (by simp) addr₂ written (memory.part 100 1 (by decide)).place
    ⟨offset₂, room, source⟩
  let k₁ := (k.setMachine m').modFile p₂ fun s => { s with offset := s.offset + ofInt 1 }
  have different : p₁ ≠ p₂ := by
    have nodup := chain.nodup
    simp only [List.nil_append, List.nodup_cons, List.mem_singleton] at nodup
    exact nodup.1
  have same' : k₁.file p₁ = k.file p₁ := Function.update_of_ne different _ _
  have pipes₁ : Pipes k₁ 0x1000 [p₁, p₂] := pipes.count m' p₂ _
  have loaded₁ : roots k₁.m.root := wrote.root ▸ loaded
  have page₁ : Span roots k₁.m addr 4096 (pagePlaces frame) := page.wrote loaded wrote
  have memory₁ : Span roots k₁.m start 4096 (pagePlaces frame₀) := memory.wrote loaded wrote
  have addr₁ : (k₁.file p₁).addr = addr := same' ▸ congrArg File.addr first
  have offset₁ : (k₁.file p₁).offset = BitVec.ofNat 64 0 := same' ▸ congrArg File.offset first
  have origin := page₁.part 0 _ room
  rw [← addr₁, ← offset₁] at origin
  rcases Kernel.readFromPipe_eq (Kernel.kernelFault noFrames 0) pipes₁ (f := p₁) (by simp) rfl
    origin (memory₁.part 200 1 (by decide)) loaded₁ (fun _ _ _ _ => (apart _ _).symm)
    (fun i inside j inside' _ => by
      change i < 1 at inside
      change j < 1 at inside'
      omega) with ⟨m'', read, _, _⟩
  have run := full.read pipes₁ (by simp) addr₁ read (memory₁.part 200 1 (by decide)).place
    ⟨offset₁, by rw [List.nil_append, content_length]; decide,
      buffer k₁ 200 loaded₁ page₁ memory₁ (by decide)⟩
  refine ⟨addr, frame, _, _, _, _, run, ?_, piped_in_order run⟩
  rw [List.nil_append, content_length]
  decide

/-- Nothing is asked of a run. -/
def unconditioned : Conditions where
  writes _ _ _ _ _ _ := True
  reads _ _ _ _ _ _ _ := True
  others _ _ := True

set_option maxRecDepth 8000 in
theorem soleTask_checks :
    ((soleTask flatMachine).systemPipe (Kernel.kernelFault noFrames 0) 0x8000).returns (fun k =>
      (k.task 0x1000).pipe = some 0x10000 && k.nextFile 0x10000 = some 0x11000 &&
      k.nextFile 0x11000 = none && k.fileStructs = [0x11000, 0x10000] &&
      (k.file 0x10000).fd = 2 && (k.file 0x11000).fd = 3 && (k.file 0x10000).addr = 0x12000 &&
      k.m.place 0x8000 = some (5, 0) && k.currentTask = some 0x1000 &&
      (k.systemRead (Kernel.kernelFault noFrames 0) 2 0x8000 1).returns fun _ => true) = true := by
  decide_cbv

/-- A read that comes before every write gets a byte. -/
theorem soleTask_reads_unwritten : ∃ put got stored k,
    Piping (Kernel.kernelFault noFrames 0) unconditioned 0x12000 put got stored k ∧
      ¬ got <+: put := by
  rcases Flow.returns_next soleTask_checks with ⟨k, created, facts⟩
  simp only [Bool.and_eq_true, decide_eq_true_eq] at facts
  rcases facts with
    ⟨⟨⟨⟨⟨⟨⟨⟨⟨head, second⟩, last⟩, structs⟩, fd₁⟩, fd₂⟩, page⟩, place⟩, running⟩, called⟩
  have pipes : Pipes k 0x1000 [0x10000, 0x11000] := {
    linked := ⟨head, second, last⟩
    structs := by
      rw [structs]
      intro p inside
      simpa [or_comm] using inside
    fds := by
      simp only [List.map_cons, List.map_nil, fd₁, fd₂]
      decide }
  rcases Flow.returns_next called with ⟨_, returned, _⟩
  rw [← fd₁, Kernel.systemRead_pipe pipes (by decide) running] at returned
  rcases Flow.bind_eq_next returned with ⟨k', read, _⟩
  have start : Piping (Kernel.kernelFault noFrames 0) unconditioned 0x12000 [] []
      (fun _ => False) k := .created created (show (0x10000 : Word) ∉ ([] : List Word) by decide)
    (by rw [structs]; simp) page
  have reached : ∀ i < (ofInt (1 : BitVec 32)).toNat,
      k.m.place (0x8000 + BitVec.ofNat 64 i) = some (5, 0) := by
    intro i below
    cases Nat.lt_one_iff.mp below
    exact place
  refine ⟨_, _, _, k', start.read pipes (by decide) page read reached trivial, ?_⟩
  intro isPrefix
  cases List.prefix_nil.mp isPrefix

end Piping

end Sbrocks.Process
