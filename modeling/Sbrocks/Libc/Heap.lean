import Mathlib.Data.List.TakeWhile
import Sbrocks.Chain.Linked
import Sbrocks.Libc.Malloc
import Sbrocks.Memory.Tiling

/-!
# The blocks of the heap

The blocks tile what lies between the first break and the current one, in the order
of the list; the payloads of the blocks in use are what `malloc` handed out.
-/

namespace Sbrocks.Process.Kernel

/-- `brk_end` of the running process. -/
def brkEnd (k : Kernel) : Word :=
  match k.currentTask with
  | none => 0
  | some task => (k.mm (k.task task).mm).brkEnd

/-- A process is running, its list of areas ends, and this is its break. -/
def BreakAt (k : Kernel) (stop : Word) : Prop :=
  ∃ task areas, k.currentTask = some task ∧ (k.mm (k.task task).mm).brkEnd = stop ∧
    Chain.Linked k.nextVma (k.mm (k.task task).mm).vmaList areas ∧ areas.length < k.vmaRounds

variable {k : Kernel} {stop next : Word}

theorem BreakAt.brkEnd_eq (at' : k.BreakAt stop) : k.brkEnd = stop := by
  rcases at' with ⟨task, areas, running, here, _⟩
  rw [brkEnd, running]
  exact here

/-- Asking for the break changes nothing. -/
theorem BreakAt.systemBrk_zero (at' : k.BreakAt stop) : k.systemBrk 0 = .next (k, stop) := by
  rcases at' with ⟨task, areas, running, here, _⟩
  simp only [systemBrk, running, Flow.ofOption_some, Flow.next_bind, if_true, here]
  rfl

/-- A request for another break sets it, and the end of the first heap area with it. -/
theorem systemBrk_eq {task : Word} {found : Option Word} (running : k.currentTask = some task)
    (nonzero : next ≠ 0)
    (scanned : Chain.scan k.nextVma (fun p => (k.vma p).vmaType == .heap) k.vmaRounds
      (k.mm (k.task task).mm).vmaList = some found) :
    let moved := k.modMm (k.task task).mm fun s => { s with brkEnd := next }
    k.systemBrk next =
      .next (found.elim moved fun heap => moved.modVma heap fun s => { s with vmEnd := next }, next) := by
  intro moved
  have mm : moved.mm (k.task task).mm = { k.mm (k.task task).mm with brkEnd := next } :=
    Function.update_self ..
  unfold systemBrk
  rw [running, Flow.ofOption_some, Flow.next_bind, if_neg nonzero]
  change Flow.ofOption (Chain.scan k.nextVma (fun p => (k.vma p).vmaType == .heap) k.vmaRounds
    (moved.mm (k.task task).mm).vmaList) >>= _ = _
  rw [mm, scanned, Flow.ofOption_some, Flow.next_bind]
  cases found with
  | none => exact congrArg (fun s : MmStruct => Flow.next (moved, s.brkEnd)) mm
  | some heap =>
      exact congrArg (fun s : MmStruct =>
        Flow.next (moved.modVma heap fun s => { s with vmEnd := next }, s.brkEnd)) mm

/-- The break moves to where the process asked for. -/
theorem BreakAt.systemBrk_move (at' : k.BreakAt stop) (nonzero : next ≠ 0) :
    ∃ k', k.systemBrk next = .next (k', next) ∧ k'.BreakAt next := by
  rcases at' with ⟨task, areas, running, here, linked, room⟩
  rcases linked.scan_some (fun p => (k.vma p).vmaType == .heap) room with ⟨found, scanned⟩
  let moved := k.modMm (k.task task).mm fun s => { s with brkEnd := next }
  have mm : moved.mm (k.task task).mm = { k.mm (k.task task).mm with brkEnd := next } :=
    Function.update_self ..
  have listed : Chain.Linked k.nextVma (moved.mm (k.task task).mm).vmaList areas := by
    rw [mm]
    exact linked
  refine ⟨_, systemBrk_eq running nonzero scanned, task, areas, ?_⟩
  cases found with
  | none => exact ⟨running, congrArg MmStruct.brkEnd mm, listed, room⟩
  | some heap =>
      refine ⟨running, congrArg MmStruct.brkEnd mm, listed.congr ?_, room⟩
      intro p _
      exact modVma_nextVma moved heap p (fun s => { s with vmEnd := next }) rfl

end Sbrocks.Process.Kernel

namespace Sbrocks.Libc

open Sbrocks.Process

namespace Program

variable {p : Program} {stop increment size : Word}

theorem sbrk_zero (at' : p.kernel.BreakAt stop) : p.sbrk 0 = .next (p, stop) := by
  simp only [sbrk, brk, at'.systemBrk_zero, Flow.next_bind, Flow.pure_eq_next, if_true]

/-- The break moves by the increment, and the old one is returned. -/
theorem sbrk_move (at' : p.kernel.BreakAt stop) (positive : increment ≠ 0)
    (nonzero : stop + increment ≠ 0) :
    ∃ k, p.sbrk increment = .next ({ p with kernel := k }, stop) ∧ k.BreakAt (stop + increment) := by
  rcases at'.systemBrk_move nonzero with ⟨k, moved, after⟩
  refine ⟨k, ?_, after⟩
  simp only [sbrk, brk, at'.systemBrk_zero, Flow.next_bind, Flow.pure_eq_next, if_neg positive, moved]

theorem blockEnd_toNat (room : stop.toNat + 24 + size.toNat < 2 ^ 64) :
    (stop + (size + memBlockSize)).toNat = stop.toNat + (24 + size.toNat) := by
  have header : memBlockSize.toNat = 24 := rfl
  rw [BitVec.toNat_add, BitVec.toNat_add, header]
  omega

/-- A new block begins at the break, which moves behind it. -/
theorem allocateMemory_eq (at' : p.kernel.BreakAt stop)
    (room : stop.toNat + 24 + size.toNat < 2 ^ 64) :
    ∃ p', p.allocateMemory size = .next (p', stop) ∧
      p'.kernel.BreakAt (stop + (size + memBlockSize)) ∧ p'.head = p.head ∧
      p'.memBlock stop = { size := size, free := used, next := 0 } ∧
      ∀ x : Word, x.toNat < stop.toNat ∨ stop.toNat + 24 ≤ x.toNat → p'.mem x = p.mem x := by
  have behind := blockEnd_toNat room
  have header : memBlockSize.toNat = 24 := rfl
  have positive : size + memBlockSize ≠ 0 := by
    intro zero
    have : (size + memBlockSize).toNat = 0 := congrArg BitVec.toNat zero
    rw [BitVec.toNat_add, header] at this
    omega
  have nonzero : stop + (size + memBlockSize) ≠ 0 := by
    intro zero
    have : (stop + (size + memBlockSize)).toNat = 0 := congrArg BitVec.toNat zero
    omega
  have valid : stop ≠ -1 := by
    intro last
    have : stop.toNat = 2 ^ 64 - 1 := congrArg BitVec.toNat last
    omega
  have within : stop.toNat + 24 < 2 ^ 64 := by omega
  rcases sbrk_move at' positive nonzero with ⟨k, moved, after⟩
  refine ⟨((({ p with kernel := k } : Program).setSize stop size).setNext stop 0).setFree stop used,
    ?_, after, rfl, ?_, ?_⟩
  · simp only [allocateMemory, sbrk_zero at', Flow.next_bind, moved, if_neg valid, Flow.pure_eq_next]
  · rw [memBlock_setFree within, memBlock_setNext within, memBlock_setSize within]
  · intro x outside
    rw [setFree_outside within _ outside, setNext_outside within _ outside,
      setSize_outside within _ outside]

end Program

/-! ## The blocks -/

/-- The block that a link points to. -/
def link (block : Word) : Option Word :=
  if block = 0 then none else some block

namespace Program

/-- The block behind a block. -/
def nextBlock (p : Program) (block : Word) : Option Word := link (p.memBlock block).next

/-- The bytes of a block, its header included. -/
def extent (p : Program) (block : Word) : Nat := 24 + (p.memBlock block).size.toNat

/-- The bytes of the block behind a pointer that was handed out. -/
def payload (p : Program) (ptr : Word) : Nat := (p.memBlock (ptr - memBlockSize)).size.toNat

variable {p : Program} {size last temp : Word} {blocks : List Word} {n : Nat}

/-- The search stops at the first block that fits, or behind the last one. -/
theorem findFreeMemBlockLoop_eq (linked : Chain.Linked p.nextBlock (link temp) blocks)
    (room : blocks.length < n) :
    p.findFreeMemBlockLoop size last temp n =
      some ((blocks.takeWhile fun b => !p.fits size b).getLastD last,
        (blocks.find? (p.fits size)).getD 0) := by
  induction blocks generalizing temp last n with
  | nil =>
      cases n with
      | zero => omega
      | succ n =>
          have ends : temp = 0 := by
            by_contra more
            rw [link, if_neg more] at linked
            cases linked
          simp [findFreeMemBlockLoop, ends]
  | cons b blocks ih =>
      cases n with
      | zero => omega
      | succ n =>
          have more : temp ≠ 0 := by
            intro ends
            rw [link, if_pos ends] at linked
            cases linked.1
          rw [link, if_neg more] at linked
          rcases linked with ⟨same, linked⟩
          cases same
          have rest := @ih b _ n linked (Nat.lt_of_succ_lt_succ room)
          rw [findFreeMemBlockLoop]
          by_cases here : p.fits size b
          · simp [here]
          · rw [if_pos ⟨more, here⟩, rest, List.takeWhile_cons_of_pos (by simp [here]),
              List.getLastD_cons, List.find?_cons_of_neg here]

/-- The invariant of the heap: the listed blocks tile it, and those in use are the ones handed
out, as a list of payloads with the sizes that were asked for. -/
structure HeapInv (start : Word) (p : Program) (live : List (Word × Word)) (blocks : List Word) :
    Prop where
  nonzero : start ≠ 0
  breakAt : p.kernel.BreakAt p.kernel.brkEnd
  linked : Chain.Linked p.nextBlock (link p.head) blocks
  tiles : Tiling.Tiles BitVec.toNat p.extent start.toNat blocks p.kernel.brkEnd.toNat
  granted : ∀ a ∈ live, ∃ b ∈ blocks, a.1 = b + memBlockSize ∧ (p.memBlock b).free = used ∧
    a.2 ≤ (p.memBlock b).size
  idle : ∀ b ∈ blocks, (p.memBlock b).free = freed ∨ ∃ n, (b + memBlockSize, n) ∈ live
  once : live.Pairwise fun a b => a.1 ≠ b.1

namespace HeapInv

variable {start b c : Word} {p' : Program} {live : List (Word × Word)}

/-- A block lies in the heap. -/
theorem inside (inv : HeapInv start p live blocks) (member : b ∈ blocks) :
    start.toNat ≤ b.toNat ∧ b.toNat + 24 + (p.memBlock b).size.toNat ≤ p.kernel.brkEnd.toNat := by
  have inside := inv.tiles.inside member
  unfold extent at inside
  omega

theorem room (inv : HeapInv start p live blocks) (member : b ∈ blocks) :
    b.toNat + 24 < 2 ^ 64 := by
  have := inv.inside member
  have := p.kernel.brkEnd.isLt
  omega

theorem ne_zero (inv : HeapInv start p live blocks) (member : b ∈ blocks) : b ≠ 0 := by
  rintro rfl
  have inside : start.toNat ≤ 0 := (inv.inside member).1
  exact inv.nonzero (BitVec.eq_of_toNat_eq (Nat.le_zero.mp inside))

/-- Two headers are one or lie apart. -/
theorem apart (inv : HeapInv start p live blocks) (first : b ∈ blocks) (second : c ∈ blocks)
    (distinct : b ≠ c) : b.toNat + p.extent b ≤ c.toNat ∨ c.toNat + p.extent c ≤ b.toNat :=
  (inv.tiles.apart first second).resolve_left distinct

/-- There are fewer blocks than rounds. -/
theorem length_lt (inv : HeapInv start p live blocks) : blocks.length < blockRounds := by
  have filled : ∀ b ∈ blocks, 0 < p.extent b := by
    intro b _
    unfold extent
    omega
  have := inv.tiles.length_le filled
  have := p.kernel.brkEnd.isLt
  unfold blockRounds
  omega

/-- The search finds the first block that fits, if there is one. -/
theorem findFreeMemBlock_eq (inv : HeapInv start p live blocks) (last size : Word) :
    p.findFreeMemBlock last size =
      some ((blocks.takeWhile fun b => !p.fits size b).getLastD last,
        (blocks.find? (p.fits size)).getD 0) :=
  findFreeMemBlockLoop_eq inv.linked inv.length_lt

/-- A change outside the headers, or in the kernel, that leaves the break alone. -/
theorem frame (inv : HeapInv start p live blocks) (head : p'.head = p.head)
    (breakAt : p'.kernel.BreakAt p.kernel.brkEnd)
    (same : ∀ b ∈ blocks, p'.memBlock b = p.memBlock b) : HeapInv start p' live blocks where
  nonzero := inv.nonzero
  breakAt := by
    rw [breakAt.brkEnd_eq]
    exact breakAt
  linked := by
    rw [head]
    refine inv.linked.congr fun b member => ?_
    rw [nextBlock, nextBlock, same b member]
  tiles := by
    rw [breakAt.brkEnd_eq]
    refine inv.tiles.congr fun b member => ?_
    rw [extent, extent, same b member]
  granted a member := by
    rcases inv.granted a member with ⟨b, listed, place, inUse, long⟩
    exact ⟨b, listed, place, by rw [same b listed]; exact inUse, by rw [same b listed]; exact long⟩
  idle b member := by
    rw [same b member]
    exact inv.idle b member
  once := inv.once

/-- A change to one header leaves the others alone. -/
theorem memBlock_of_ne (inv : HeapInv start p live blocks) (first : b ∈ blocks) (second : c ∈ blocks)
    (distinct : b ≠ c) {p₁ : Program}
    (outside : ∀ x : Word, x.toNat < c.toNat ∨ c.toNat + 24 ≤ x.toNat → p'.mem x = p₁.mem x) :
    p'.memBlock b = p₁.memBlock b := by
  apply memBlock_congr (inv.room first)
  intro x low high
  apply outside
  have := inv.apart first second distinct
  unfold extent at this
  omega

/-! ### Marking a block -/

theorem memBlock_setFree (inv : HeapInv start p live blocks) (first : b ∈ blocks)
    (second : c ∈ blocks) (free : BitVec 32) :
    (p.setFree c free).memBlock b =
      if b = c then { p.memBlock b with free } else p.memBlock b := by
  split
  · rename_i same
    rw [same, Program.memBlock_setFree (inv.room second)]
  · rename_i distinct
    exact inv.memBlock_of_ne first second distinct fun x => setFree_outside (inv.room second) free

/-- Marking a block changes neither its size nor its link. -/
theorem marked (inv : HeapInv start p live blocks) (member : c ∈ blocks) (free : BitVec 32) :
    Chain.Linked (p.setFree c free).nextBlock (link p.head) blocks ∧
      Tiling.Tiles BitVec.toNat (p.setFree c free).extent start.toNat blocks
        p.kernel.brkEnd.toNat := by
  constructor
  · refine inv.linked.congr fun b listed => ?_
    rw [nextBlock, inv.memBlock_setFree listed member, nextBlock]
    split <;> rfl
  · refine inv.tiles.congr fun b listed => ?_
    rw [extent, inv.memBlock_setFree listed member, extent]
    split <;> rfl

/-- The block of what was handed out. -/
theorem block_of_live (inv : HeapInv start p live blocks) {ptr n : Word}
    (given : (ptr, n) ∈ live) :
    ptr - memBlockSize ∈ blocks ∧ ptr - memBlockSize + memBlockSize = ptr ∧
      (p.memBlock (ptr - memBlockSize)).free = used ∧
      n ≤ (p.memBlock (ptr - memBlockSize)).size := by
  rcases inv.granted _ given with ⟨b, listed, rfl, inUse, long⟩
  rw [BitVec.add_sub_cancel]
  exact ⟨listed, rfl, inUse, long⟩

theorem ptr_ne_zero (inv : HeapInv start p live blocks) {ptr n : Word}
    (given : (ptr, n) ∈ live) : ptr ≠ 0 := by
  rcases inv.block_of_live given with ⟨listed, place, _, _⟩
  have payload := payload_toNat (inv.room listed)
  rw [place] at payload
  intro zero
  have : ptr.toNat = 0 := congrArg BitVec.toNat zero
  omega

/-- `free` of what was handed out takes it back. -/
theorem free (inv : HeapInv start p live blocks) {ptr n : Word} (given : (ptr, n) ∈ live) :
    HeapInv start (p.free ptr) (live.filter fun a => a.1 ≠ ptr) blocks := by
  rcases inv.block_of_live given with ⟨listed, place, _, _⟩
  have kept := inv.marked listed freed
  rw [Program.free, if_neg (inv.ptr_ne_zero given)]
  refine ⟨inv.nonzero, inv.breakAt, kept.1, kept.2, ?_, ?_, inv.once.filter _⟩
  · intro a member
    rcases List.mem_filter.mp member with ⟨stays, other⟩
    rcases inv.granted a stays with ⟨b, here, at', inUse, long⟩
    have distinct : b ≠ ptr - memBlockSize := by
      rintro rfl
      simp [at', place] at other
    refine ⟨b, here, at', ?_⟩
    rw [inv.memBlock_setFree here listed, if_neg distinct]
    exact ⟨inUse, long⟩
  · intro b here
    rw [inv.memBlock_setFree here listed]
    split
    · exact .inl rfl
    · rename_i distinct
      refine (inv.idle b here).imp id fun ⟨m, stays⟩ => ⟨m, ?_⟩
      refine List.mem_filter.mpr ⟨stays, decide_eq_true fun same => distinct ?_⟩
      exact (BitVec.add_sub_cancel b memBlockSize).symm.trans (congrArg (· - memBlockSize) same)

/-! ### Requests -/

theorem head_ne_zero (inv : HeapInv start p live blocks) (member : b ∈ blocks) : p.head ≠ 0 := by
  intro empty
  have linked := inv.linked
  rw [empty, link, if_pos rfl] at linked
  rw [linked.eq_nil] at member
  cases member

/-- A block that fits is marked and handed out. -/
theorem malloc_reuse (inv : HeapInv start p live blocks) (positive : size ≠ 0)
    (found : blocks.find? (p.fits size) = some b) :
    p.malloc size = .next (p.setFree b used, b + memBlockSize) ∧
      HeapInv start (p.setFree b used) ((b + memBlockSize, size) :: live) blocks := by
  have listed := List.mem_of_find?_eq_some found
  have fits : (p.memBlock b).free = freed ∧ size ≤ (p.memBlock b).size := by
    simpa [fits] using List.find?_some found
  have kept := inv.marked listed used
  constructor
  · rw [malloc, if_neg positive, if_neg (inv.head_ne_zero listed), inv.findFreeMemBlock_eq, found,
      Flow.ofOption_some, Flow.next_bind, Option.getD_some]
    exact if_neg (inv.ne_zero listed)
  · have idle : ∀ n, (b + memBlockSize, n) ∉ live := by
      intro n given
      have inUse := (inv.block_of_live given).2.2.1
      rw [BitVec.add_sub_cancel, fits.1] at inUse
      cases inUse
    refine ⟨inv.nonzero, inv.breakAt, kept.1, kept.2, ?_, ?_, ?_⟩
    · intro a member
      rcases List.mem_cons.mp member with rfl | old
      · refine ⟨b, listed, rfl, ?_⟩
        rw [inv.memBlock_setFree listed listed, if_pos rfl]
        exact ⟨rfl, fits.2⟩
      · rcases inv.granted a old with ⟨c, here, at', inUse, long⟩
        refine ⟨c, here, at', ?_⟩
        rw [inv.memBlock_setFree here listed]
        split
        · exact ⟨rfl, long⟩
        · exact ⟨inUse, long⟩
    · intro c here
      rw [inv.memBlock_setFree here listed]
      split
      · rename_i same
        exact .inr ⟨size, by rw [same]; exact List.mem_cons_self⟩
      · exact (inv.idle c here).imp id fun ⟨n, given⟩ => ⟨n, List.mem_cons_of_mem _ given⟩
    · refine List.pairwise_cons.mpr ⟨?_, inv.once⟩
      rintro ⟨ptr, n⟩ old rfl
      exact idle n old

/-- What remains to be shown of an extended heap: the new block is linked, and the old ones
keep their sizes and marks. -/
theorem extend (inv : HeapInv start p live blocks)
    (room : p.kernel.brkEnd.toNat + 24 + size.toNat < 2 ^ 64)
    (breakAt : p'.kernel.BreakAt (p.kernel.brkEnd + (size + memBlockSize)))
    (header : p'.memBlock p.kernel.brkEnd = { size := size, free := used, next := 0 })
    (linked : Chain.Linked p'.nextBlock (link p'.head) (blocks ++ [p.kernel.brkEnd]))
    (same : ∀ b ∈ blocks, (p'.memBlock b).size = (p.memBlock b).size ∧
      (p'.memBlock b).free = (p.memBlock b).free) :
    HeapInv start p' ((p.kernel.brkEnd + memBlockSize, size) :: live)
      (blocks ++ [p.kernel.brkEnd]) where
  nonzero := inv.nonzero
  breakAt := by
    rw [breakAt.brkEnd_eq]
    exact breakAt
  linked := linked
  tiles := by
    rw [breakAt.brkEnd_eq, blockEnd_toNat room]
    have extent : p'.extent p.kernel.brkEnd = 24 + size.toNat := by rw [extent, header]
    rw [← extent]
    refine (inv.tiles.congr fun b member => ?_).snoc rfl
    rw [Program.extent, Program.extent, (same b member).1]
  granted a member := by
    rcases List.mem_cons.mp member with rfl | old
    · refine ⟨_, List.mem_append_right _ List.mem_cons_self, rfl, ?_⟩
      rw [header]
      exact ⟨rfl, BitVec.le_refl size⟩
    · rcases inv.granted a old with ⟨b, listed, place, inUse, long⟩
      refine ⟨b, List.mem_append_left _ listed, place, ?_⟩
      rw [(same b listed).1, (same b listed).2]
      exact ⟨inUse, long⟩
  idle b member := by
    rcases List.mem_append.mp member with listed | new
    · rw [(same b listed).2]
      exact (inv.idle b listed).imp id fun ⟨n, given⟩ => ⟨n, List.mem_cons_of_mem _ given⟩
    · rw [List.mem_singleton.mp new]
      exact .inr ⟨size, List.mem_cons_self⟩
  once := by
    refine List.pairwise_cons.mpr ⟨?_, inv.once⟩
    rintro ⟨ptr, n⟩ old rfl
    have listed := (inv.block_of_live old).1
    rw [BitVec.add_sub_cancel] at listed
    have := (inv.inside listed).2
    omega

/-- A request that no block fits extends the heap, and writes headers only. -/
theorem malloc_extend (inv : HeapInv start p live blocks) (positive : size ≠ 0)
    (none : blocks.find? (p.fits size) = none)
    (room : p.kernel.brkEnd.toNat + 24 + size.toNat < 2 ^ 64) :
    ∃ p', p.malloc size = .next (p', p.kernel.brkEnd + memBlockSize) ∧
      p'.kernel.BreakAt (p.kernel.brkEnd + (size + memBlockSize)) ∧
      HeapInv start p' ((p.kernel.brkEnd + memBlockSize, size) :: live)
        (blocks ++ [p.kernel.brkEnd]) ∧
      ∀ x : Word, (∀ b ∈ blocks ++ [p.kernel.brkEnd],
        x.toNat < b.toNat ∨ b.toNat + 24 ≤ x.toNat) → p'.mem x = p.mem x := by
  rcases allocateMemory_eq inv.breakAt room with ⟨p₁, allocated, breakAt, head, header, outside⟩
  have stop : start.toNat ≤ p.kernel.brkEnd.toNat := inv.tiles.le
  have valid : p.kernel.brkEnd ≠ 0 := by
    intro zero
    rw [zero] at stop
    exact inv.nonzero (BitVec.eq_of_toNat_eq (Nat.le_zero.mp stop))
  have within : p.kernel.brkEnd.toNat + 24 < 2 ^ 64 := by omega
  have old : ∀ b ∈ blocks, p₁.memBlock b = p.memBlock b := by
    intro b listed
    have inside := (inv.inside listed).2
    apply memBlock_congr (inv.room listed)
    intro x low high
    exact outside x (by omega)
  rcases List.eq_nil_or_concat' blocks with rfl | ⟨front, last, rfl⟩
  · have empty : p.head = 0 := by
      by_contra more
      have linked := inv.linked
      rw [link, if_neg more] at linked
      cases linked
    let p' : Program := { p₁ with head := p.kernel.brkEnd }
    have breakAt' : p'.kernel.BreakAt (p.kernel.brkEnd + (size + memBlockSize)) := breakAt
    have header' : p'.memBlock p.kernel.brkEnd = { size := size, free := used, next := 0 } := header
    refine ⟨p', ?_, breakAt', ?_, fun x apart => outside x (apart _ List.mem_cons_self)⟩
    · rw [malloc, if_neg positive, if_pos empty, allocated, Flow.next_bind]
      exact if_neg valid
    · apply inv.extend room breakAt' header'
      · have ends : p'.nextBlock p.kernel.brkEnd = Option.none := by
          rw [nextBlock, header']
          exact if_pos rfl
        exact ⟨if_neg valid, ends⟩
      · intro b listed
        cases listed
  · have listed : last ∈ front ++ [last] := List.mem_append_right _ List.mem_cons_self
    have searched : p.findFreeMemBlock p.head size = some (last, 0) := by
      have passed : ∀ b ∈ front ++ [last], (!p.fits size b) = true := by
        intro b member
        simpa using List.find?_eq_none.mp none b member
      rw [inv.findFreeMemBlock_eq, none, List.takeWhile_eq_self_iff.mpr passed, List.getLastD_concat]
      rfl
    have linkedLast : ∀ b ∈ front ++ [last], (p₁.setNext last p.kernel.brkEnd).memBlock b =
        if b = last then { p.memBlock b with next := p.kernel.brkEnd } else p.memBlock b := by
      intro b member
      split
      · rename_i same
        rw [same, memBlock_setNext (inv.room listed), old last listed]
      · rename_i distinct
        rw [inv.memBlock_of_ne member listed distinct fun x => setNext_outside (inv.room listed) _,
          old b member]
    have header' : (p₁.setNext last p.kernel.brkEnd).memBlock p.kernel.brkEnd =
        { size := size, free := used, next := 0 } := by
      rw [← header]
      have inside := (inv.inside listed).2
      apply memBlock_congr within
      intro x low high
      exact setNext_outside (inv.room listed) _ (by omega)
    have breakAt' : (p₁.setNext last p.kernel.brkEnd).kernel.BreakAt
        (p.kernel.brkEnd + (size + memBlockSize)) := breakAt
    have frame : ∀ x : Word, (∀ b ∈ front ++ [last] ++ [p.kernel.brkEnd],
        x.toNat < b.toNat ∨ b.toNat + 24 ≤ x.toNat) →
        (p₁.setNext last p.kernel.brkEnd).mem x = p.mem x := by
      intro x apart
      rw [setNext_outside (inv.room listed) _ (apart last (List.mem_append_left _ listed)),
        outside x (apart _ (List.mem_append_right _ List.mem_cons_self))]
    refine ⟨p₁.setNext last p.kernel.brkEnd, ?_, breakAt', ?_, frame⟩
    · rw [malloc, if_neg positive, if_neg (inv.head_ne_zero listed), searched, Flow.ofOption_some,
        Flow.next_bind]
      dsimp only
      rw [if_pos rfl, allocated, Flow.next_bind]
      exact if_neg valid
    · apply inv.extend room breakAt' header'
      · have distinct := inv.linked.nodup
        rw [List.append_assoc]
        change Chain.Linked _ (link p₁.head) _
        rw [head]
        apply inv.linked.splice
        · intro b member
          have other : b ≠ last := by grind
          rw [nextBlock, linkedLast b (List.mem_append_left _ member), if_neg other, nextBlock]
        · have ends : (p₁.setNext last p.kernel.brkEnd).nextBlock p.kernel.brkEnd = Option.none := by
            rw [nextBlock, header']
            exact if_pos rfl
          rw [nextBlock, linkedLast last listed, if_pos rfl]
          exact ⟨if_neg valid, ends⟩
      · intro b member
        rw [linkedLast b member]
        split <;> exact ⟨rfl, rfl⟩

/-! ### What the invariant says of payloads -/

theorem payload_room (inv : HeapInv start p live blocks) {a : Word × Word} (given : a ∈ live) :
    ∃ b ∈ blocks, a.1 - memBlockSize = b ∧ a.1.toNat = b.toNat + 24 ∧
      a.1.toNat + p.payload a.1 = b.toNat + p.extent b := by
  rcases inv.block_of_live given with ⟨listed, place, _, _⟩
  have start := payload_toNat (inv.room listed)
  rw [place] at start
  refine ⟨_, listed, rfl, start, ?_⟩
  rw [start, payload, extent]
  omega

end HeapInv

/-! ## Runs -/

/-- The heap has room for a request: a block fits, or the addresses do not wrap. -/
def Room (p : Program) (size : Word) : Prop :=
  (∃ last block, p.findFreeMemBlock p.head size = some (last, block) ∧ block ≠ 0) ∨
    p.kernel.brkEnd.toNat + 24 + size.toNat < 2 ^ 64

/-- What a process may write: what it was handed out, and what is not in the heap. -/
def Writable (p : Program) (start : Word) (live : List (Word × Word)) (addr : Word) : Prop :=
  (∃ a ∈ live, a.1.toNat ≤ addr.toNat ∧ addr.toNat < a.1.toNat + a.2.toNat) ∨
    addr.toNat < start.toNat ∨ p.kernel.brkEnd.toNat ≤ addr.toNat

/-- The runs of a process from its first break on, with the payloads it was handed out and has
not given back.  Between its calls the kernel may do anything but move its break. -/
inductive HeapRun (start : Word) : Program → List (Word × Word) → Prop
  | start {p : Program} (nonzero : start ≠ 0) (breakAt : p.kernel.BreakAt start)
      (empty : p.head = 0) : HeapRun start p []
  | malloc {p p' : Program} {live : List (Word × Word)} {size ptr : Word}
      (run : HeapRun start p live) (room : p.Room size)
      (returned : p.malloc size = .next (p', ptr)) :
      HeapRun start p' (if size = 0 then live else (ptr, size) :: live)
  | free {p : Program} {live : List (Word × Word)} {ptr size : Word} (run : HeapRun start p live)
      (given : (ptr, size) ∈ live) :
      HeapRun start (p.free ptr) (live.filter fun a => a.1 ≠ ptr)
  | write {p : Program} {live : List (Word × Word)} {addr : Word} (run : HeapRun start p live)
      (own : p.Writable start live addr) (byte : Byte) :
      HeapRun start { p with mem := Function.update p.mem addr byte } live
  | system {p : Program} {live : List (Word × Word)} {k : Kernel} (run : HeapRun start p live)
      (same : k.BreakAt p.kernel.brkEnd) : HeapRun start { p with kernel := k } live

variable {start b c : Word} {live : List (Word × Word)}

theorem HeapInv.write (inv : HeapInv start p live blocks) {addr : Word}
    (own : p.Writable start live addr) (byte : Byte) :
    HeapInv start { p with mem := Function.update p.mem addr byte } live blocks := by
  refine inv.frame rfl inv.breakAt fun b listed => ?_
  apply memBlock_congr (inv.room listed)
  intro x low high
  apply Function.update_of_ne
  rintro rfl
  have inside := inv.inside listed
  rcases own with ⟨a, given, from', below⟩ | below | above
  · rcases inv.payload_room given with ⟨c, here, block, place, stop⟩
    have long := (inv.block_of_live given).2.2.2
    have asked : a.2.toNat ≤ p.payload a.1 := long
    by_cases same : b = c
    · subst same
      omega
    · have apart := inv.apart listed here same
      unfold extent at apart stop
      omega
  · omega
  · omega

/-- When no block fits, only the addresses can make room. -/
theorem HeapInv.room_of_none (inv : HeapInv start p live blocks)
    (none : blocks.find? (p.fits size) = none) (room : p.Room size) :
    p.kernel.brkEnd.toNat + 24 + size.toNat < 2 ^ 64 := by
  rcases room with ⟨last, block, searched, found⟩ | room
  · rw [inv.findFreeMemBlock_eq, none] at searched
    cases searched
    exact absurd rfl found
  · exact room

theorem HeapInv.malloc (inv : HeapInv start p live blocks) (room : p.Room size) {p' : Program}
    {ptr : Word} (returned : p.malloc size = .next (p', ptr)) :
    ∃ blocks', HeapInv start p' (if size = 0 then live else (ptr, size) :: live) blocks' := by
  by_cases nothing : size = 0
  · rw [Program.malloc, if_pos nothing] at returned
    cases returned
    rw [if_pos nothing]
    exact ⟨blocks, inv⟩
  · rw [if_neg nothing]
    cases search : blocks.find? (p.fits size) with
    | some b =>
        have reuse := inv.malloc_reuse nothing search
        rw [reuse.1] at returned
        cases returned
        exact ⟨blocks, reuse.2⟩
    | none =>
        rcases inv.malloc_extend nothing search (inv.room_of_none search room) with
          ⟨p'', extended, _, after, _⟩
        rw [extended] at returned
        cases returned
        exact ⟨_, after⟩

/-- The run lemma: the invariant holds in every state of a run. -/
theorem HeapRun.inv (run : HeapRun start p live) : ∃ blocks, HeapInv start p live blocks := by
  induction run with
  | start nonzero breakAt empty =>
      refine ⟨[], nonzero, ?_, ?_, ?_, ?_, ?_, List.Pairwise.nil⟩
      · rw [breakAt.brkEnd_eq]
        exact breakAt
      · exact (congrArg link empty).trans (if_pos rfl)
      · exact congrArg BitVec.toNat breakAt.brkEnd_eq.symm
      · intro a given
        cases given
      · intro b listed
        cases listed
  | malloc run room returned ih =>
      rcases ih with ⟨blocks, inv⟩
      exact inv.malloc room returned
  | free run given ih =>
      rcases ih with ⟨blocks, inv⟩
      exact ⟨blocks, inv.free given⟩
  | write run own byte ih =>
      rcases ih with ⟨blocks, inv⟩
      exact ⟨blocks, inv.write own byte⟩
  | system run same ih =>
      rcases ih with ⟨blocks, inv⟩
      exact ⟨blocks, inv.frame rfl same fun _ _ => rfl⟩

/-- A heap whose payloads are disjoint, and what a request gives. -/
structure Allocates (start : Word) (p : Program) (live : List (Word × Word)) (blocks : List Word) :
    Prop where
  listed : Chain.Linked p.nextBlock (link p.head) blocks
  covers : Tiling.Tiles BitVec.toNat p.extent start.toNat blocks p.kernel.brkEnd.toNat
  disjoint : live.Pairwise fun a b =>
    a.1.toNat + p.payload a.1 ≤ b.1.toNat ∨ b.1.toNat + p.payload b.1 ≤ a.1.toNat
  long : ∀ a ∈ live, a.2.toNat ≤ p.payload a.1
  headers : ∀ a ∈ live, ∀ b ∈ blocks,
    b.toNat + 24 ≤ a.1.toNat ∨ a.1.toNat + p.payload a.1 ≤ b.toNat
  inside : ∀ a ∈ live,
    start.toNat ≤ a.1.toNat ∧ a.1.toNat + p.payload a.1 ≤ p.kernel.brkEnd.toNat
  given : ∀ b ∈ blocks, (p.memBlock b).free = freed ∨ ∃ n, (b + memBlockSize, n) ∈ live
  reuses : ∀ size : Word, size ≠ 0 → (∃ b ∈ blocks, p.fits size b) →
    ∃ b ∈ blocks, p.fits size b ∧ (∀ c ∈ blocks, p.fits size c → b.toNat ≤ c.toNat) ∧
      p.malloc size = .next (p.setFree b used, b + memBlockSize)
  grows : ∀ size : Word, size ≠ 0 → (∀ b ∈ blocks, ¬p.fits size b) → p.Room size →
    ∃ p', p.malloc size = .next (p', p.kernel.brkEnd + memBlockSize) ∧
      p'.kernel.BreakAt (p.kernel.brkEnd + (size + memBlockSize))

/-- The first block that fits is the lowest one. -/
theorem HeapInv.first_lowest (inv : HeapInv start p live blocks)
    (found : blocks.find? (p.fits size) = some b) (listed : c ∈ blocks) (fits : p.fits size c) :
    b.toNat ≤ c.toNat := by
  rcases List.find?_eq_some_iff_append.mp found with ⟨_, front, back, rfl, others⟩
  rcases List.mem_append.mp listed with before | behind
  · have := others c before
    simp [fits] at this
  · rcases List.mem_cons.mp behind with rfl | later
    · exact Nat.le_refl _
    · have ordered := (List.pairwise_cons.mp (List.pairwise_append.mp inv.tiles.ordered).2.1).1
      have := ordered c later
      omega

theorem HeapInv.allocates (inv : HeapInv start p live blocks) : Allocates start p live blocks where
  listed := inv.linked
  covers := inv.tiles
  disjoint := by
    refine inv.once.imp_of_mem fun {a b} first second distinct => ?_
    rcases inv.payload_room first with ⟨c, here, place, low, high⟩
    rcases inv.payload_room second with ⟨d, there, place', low', high'⟩
    have apart : c ≠ d := by
      rintro rfl
      exact distinct (BitVec.eq_of_toNat_eq (low.trans low'.symm))
    have := inv.apart here there apart
    omega
  long a given := (inv.block_of_live given).2.2.2
  headers a given b listed := by
    rcases inv.payload_room given with ⟨c, here, _, low, high⟩
    by_cases same : b = c
    · subst same
      omega
    · have apart := inv.apart listed here same
      unfold extent at apart high
      omega
  inside a given := by
    rcases inv.payload_room given with ⟨c, here, _, low, high⟩
    have := inv.tiles.inside here
    omega
  given := inv.idle
  reuses size positive some := by
    rcases Option.isSome_iff_exists.mp (List.find?_isSome.mpr some) with ⟨b, found⟩
    exact ⟨b, List.mem_of_find?_eq_some found, List.find?_some found,
      fun c listed fits => inv.first_lowest found listed fits, (inv.malloc_reuse positive found).1⟩
  grows size positive none room := by
    have search := List.find?_eq_none.mpr none
    rcases inv.malloc_extend positive search (inv.room_of_none search room) with
      ⟨p', extended, breakAt, _, _⟩
    exact ⟨p', extended, breakAt⟩

/-- In every run, what `malloc` handed out is disjoint and lies in the heap; the blocks cover it
in order; and a request takes the lowest free block that fits, or extends the heap. -/
theorem heapRun_allocates (run : HeapRun start p live) : ∃ blocks, Allocates start p live blocks := by
  rcases run.inv with ⟨blocks, inv⟩
  exact ⟨blocks, inv.allocates⟩

/-- A kernel with one running task, whose break is where the loader puts it. -/
def freshKernel : Kernel :=
  let m : Mmu.Machine := ⟨⟨fun _ => 0, fun _ _ => 0, []⟩, fun _ _ => 0, 0, 0, 0⟩
  { Kernel.initial m 0 with
    currentTask := some 1
    mm := fun _ => { (default : MmStruct) with brkEnd := userHeap } }

/-- A process before its first request. -/
def fresh : Program := ⟨fun _ => 0, 0, freshKernel⟩

theorem heapRun_allocates_fresh : ∃ p ptr,
    HeapRun userHeap p [(ptr, 10)] ∧ ∃ blocks, Allocates userHeap p [(ptr, 10)] blocks := by
  have breakAt : fresh.kernel.BreakAt userHeap := ⟨1, [], rfl, rfl, rfl, Nat.zero_lt_one⟩
  have start : HeapRun userHeap fresh [] := .start (by decide) breakAt rfl
  have room : fresh.Room 10 := .inr (by rw [breakAt.brkEnd_eq]; decide)
  rcases start.inv with ⟨blocks, inv⟩
  have empty : blocks = [] := inv.linked.eq_nil
  subst empty
  rcases inv.malloc_extend (by decide) rfl (inv.room_of_none rfl room) with ⟨p, returned, _⟩
  have run : HeapRun userHeap p [_] := start.malloc room returned
  exact ⟨p, _, run, heapRun_allocates run⟩

end Program

end Sbrocks.Libc
