import Sbrocks.Mmu.KernelPages
import Sbrocks.Mmu.SetupPaging

/-!
# The kernel heap

`kmalloc` takes its pages from the top of the kernel's virtual memory, which only grows,
and maps them to frames of the allocator; `kfree` gives the frames back and leaves the
mappings.  A frame may so be mapped many times, but at most one live block owns it.
-/

namespace Sbrocks.Mmu

open Sbrocks.Radix

/-- A range that `kmalloc` returned. -/
structure Block where
  base : Word
  size : Word
  deriving DecidableEq

namespace Block

/-- The end of the pages of a block. -/
def stop (b : Block) : Nat := b.base.toNat + 4096 * Machine.pagesOf b.size

/-- The addresses at which pages of a block begin. -/
def Page (b : Block) (addr : Word) : Prop :=
  Machine.RangePage b.base (Machine.pagesOf b.size) addr

/-- Two blocks without a page in common. -/
def Apart (b c : Block) : Prop := b.stop ≤ c.base.toNat ∨ c.stop ≤ b.base.toNat

theorem Apart.symm {b c : Block} (apart : b.Apart c) : c.Apart b := Or.symm apart

end Block

namespace Machine

variable {m m' m₁ m₂ : Machine} {roots : Word → Prop} {pages : Word → Prop} {flags : Word} {n : Nat}

/-- The frames that the next kernel pages take for missing tables hold no present entry. -/
def CleanTop (m : Machine) (flags : Word) : Nat → Prop
  | 0 => True
  | n + 1 => ∀ m₁ page, m.mmPhyAllocPage = some (m₁, page) →
      m₁.CleanNext (m₁.missingTables m₁.root (tablePath m₁.virtualTop)) ∧
      ∀ m₂, m₁.mapVirtToPhy m₁.virtualTop (mmPageToPhy page) flags = some m₂ →
        (m₂.setCurrentVmTop (m₂.virtualTop + pageSize)).CleanTop flags n

/-- The kernel owns pages below the top of its virtual memory, each with a frame of its own
that is in use and holds no table. -/
structure Owned (roots : Word → Prop) (pages : Word → Prop) (m : Machine) : Prop where
  spaces : Spaces roots m
  loaded : roots m.root
  aligned : m.virtualTop.toNat % 4096 = 0
  half : 2 ^ 64 - 2 ^ 39 ≤ m.virtualTop.toNat
  below : ∀ addr, pages addr → addr.toNat % 4096 = 0 ∧ 2 ^ 64 - 2 ^ 39 ≤ addr.toNat ∧
    addr.toNat < m.virtualTop.toNat
  mapped : ∀ addr, pages addr → ∃ frame, m.translate addr = some frame ∧
    m.phy.inUse frame = true ∧ ¬ IsTable entryFrame m.mem roots 4 frame
  apart : ∀ first second, pages first → pages second → m.translate first = m.translate second →
    first = second

namespace Owned

theorem mono {fewer : Word → Prop} (owned : Owned roots pages m)
    (within : ∀ addr, fewer addr → pages addr) : Owned roots fewer m :=
  { owned with
    below := fun addr here => owned.below addr (within addr here)
    mapped := fun addr here => owned.mapped addr (within addr here)
    apart := fun first second here there =>
      owned.apart first second (within first here) (within second there) }

/-- Loading another root. -/
theorem writeCr3 (owned : Owned roots pages m) {cr3 : Word} (isRoot : roots (mmPhyToPage cr3)) :
    Owned roots pages (m.writeCr3 cr3) := by
  have same : ∀ addr, pages addr → (m.writeCr3 cr3).translate addr = m.translate addr := by
    intro addr here
    have kernel : SharedPath kernelHalf (path addr) :=
      pml4eOffset_kernel (owned.below addr here).2.1
    rw [translate_eq_walk, translate_eq_walk]
    exact owned.spaces.tables.forest.walk_eq_of_shared isRoot owned.loaded kernel
  refine ⟨⟨⟨owned.spaces.tables.forest, owned.spaces.tables.inUse⟩, owned.spaces.kernel,
    owned.spaces.kernelEntry, owned.spaces.kernelOnly⟩, isRoot, owned.aligned, owned.half,
    owned.below, ?_, ?_⟩
  · intro addr here
    rw [same addr here]
    exact owned.mapped addr here
  · intro first second here there
    rw [same first here, same second there]
    exact owned.apart first second here there

/-- Writing to the frames of the pages. -/
theorem write {mem : Word → BitVec 9 → Word} (owned : Owned roots pages m)
    (outside : ∀ frame, (∀ addr, pages addr → m.translate addr ≠ some frame) →
      mem frame = m.mem frame) : Owned roots pages { m with mem := mem } := by
  have tables : ∀ frame, IsTable entryFrame m.mem roots 4 frame → mem frame = m.mem frame := by
    intro frame isTable
    apply outside
    intro addr here found
    rcases owned.mapped addr here with ⟨other, translated, _, notTable⟩
    rw [translated] at found
    cases found
    exact notTable isTable
  have agree : ∀ node i, IsTable entryFrame m.mem roots 4 node →
      entryFrame (mem node i) = entryFrame (m.mem node i) :=
    fun node i isTable => by rw [tables node isTable]
  have translated : ∀ addr, ({ m with mem := mem } : Machine).translate addr = m.translate addr := by
    intro addr
    rw [translate_eq_walk, translate_eq_walk]
    exact Forest.walk_eq_of_agree agree owned.loaded (Nat.le_of_eq (path_length addr))
  refine ⟨⟨⟨owned.spaces.tables.forest.of_agree (by decide) agree, ?_⟩, owned.spaces.kernel, ?_, ?_⟩,
    owned.loaded, owned.aligned, owned.half, owned.below, ?_, ?_⟩
  · intro table isTable
    exact owned.spaces.tables.inUse ((Forest.isTable_iff_of_agree agree table).mp isTable)
  · have isTable : IsTable entryFrame m.mem roots 4 m.kernelRoot :=
      ⟨_, [], owned.spaces.kernel, by simp, rfl⟩
    show entryFrame (mem m.kernelRoot 511) ≠ none
    rw [tables _ isTable]
    exact owned.spaces.kernelEntry
  · intro i user
    have isTable : IsTable entryFrame m.mem roots 4 m.kernelRoot :=
      ⟨_, [], owned.spaces.kernel, by simp, rfl⟩
    show entryFrame (mem m.kernelRoot i) = none
    rw [tables _ isTable]
    exact owned.spaces.kernelOnly i user
  · intro addr here
    rw [translated]
    rcases owned.mapped addr here with ⟨frame, found, used, notTable⟩
    exact ⟨frame, found, used,
      fun isTable => notTable ((Forest.isTable_iff_of_agree agree frame).mp isTable)⟩
  · intro first second here there
    rw [translated, translated]
    exact owned.apart first second here there

theorem translate_small {addr frame : Word} (found : m.translate addr = some frame) :
    frame.toNat < 2 ^ 52 := by
  unfold Machine.translate at found
  split at found
  · cases found
  · split at found
    · cases found
    · cases found
      have bound := (m.mem ‹_› (pteOffset addr)).isLt
      rw [tableOf_toNat]
      omega

/-- One page more: a frame, tables for it, and the mapping at the top. -/
theorem page {frame : Word} (owned : Owned roots pages m) (flagBits : FlagBits flags)
    (found : m.mmPhyAllocPage = some (m₁, frame))
    (clean : m₁.CleanNext (m₁.missingTables m₁.root (tablePath m₁.virtualTop)))
    (result : m₁.mapVirtToPhy m₁.virtualTop (mmPageToPhy frame) flags = some m₂)
    (room : m.virtualTop.toNat + 4096 < 2 ^ 64) :
    Owned roots (fun addr => pages addr ∨ addr = m.virtualTop)
        (m₂.setCurrentVmTop (m₂.virtualTop + pageSize)) ∧
      (m₂.setCurrentVmTop (m₂.virtualTop + pageSize)).virtualTop.toNat =
        m.virtualTop.toNat + 4096 := by
  have alloc : Grown roots kernelHalf m.root [] m m₁ ∧ _ := Grown.alloc owned.spaces.tables found
  obtain ⟨grown, available, inUse, mem⟩ := alloc
  have spaces₁ := owned.spaces.alloc found
  have root₁ : m₁.root = m.root := congrArg mmPhyToPage grown.cr3
  have loaded₁ : roots m₁.root := root₁ ▸ owned.loaded
  have top₁ : m₁.virtualTop = m.virtualTop := grown.virtualTop
  have kernel : pml4eOffset m₁.virtualTop = 511 := by
    rw [top₁]
    exact pml4eOffset_kernel owned.half
  have mapped : Mapped roots kernelHalf m₁.root m₁.virtualTop (mmPhyToPage (mmPageToPhy frame))
      m₁ m₂ := by
    apply mapVirtToPhy_mapped spaces₁.tables flagBits loaded₁ _ clean result
    intro _
    rw [kernel]
    exact spaces₁.entry loaded₁
  rw [mmPhyToPage_mmPageToPhy (PhyAlloc.Available.small available)] at mapped
  have root₂ : m₂.root = m.root := (congrArg mmPhyToPage mapped.cr3).trans root₁
  have top₂ : m₂.virtualTop = m.virtualTop := mapped.virtualTop.trans top₁
  have raised : (m₂.virtualTop + pageSize).toNat = m.virtualTop.toNat + 4096 := by
    rw [top₂, BitVec.toNat_add, pageSize_toNat]
    omega
  have translated : ∀ addr, (m₂.setCurrentVmTop (m₂.virtualTop + pageSize)).translate addr =
      if path addr = path m.virtualTop then some frame else m.translate addr := by
    intro addr
    rw [translate_eq_walk, setCurrentVmTop_mem, setCurrentVmTop_root]
    by_cases here : path addr = path m.virtualTop
    · rw [if_pos here, here, ← top₁]
      exact mapped.hit (root₂ ▸ owned.loaded) (.inl (root₂.trans root₁.symm))
    · rw [if_neg here, mapped.walks (root₂ ▸ owned.loaded) (path_length addr), mem, root₂,
        translate_eq_walk]
      rintro ⟨same, _⟩
      exact here (same.trans (congrArg path top₁))
  -- a frame that was in use and held no table has not become one
  have data : ∀ {other : Word}, m₁.phy.inUse other = true →
      ¬ IsTable entryFrame m.mem roots 4 other → ¬ IsTable entryFrame m₂.mem roots 4 other := by
    intro other used notTable isTable
    rcases mapped.fresh isTable with older | freeAgain
    · exact notTable (mem ▸ older)
    · exact absurd (freeAgain.free.symm.trans used) (by decide)
  have old : ∀ addr, pages addr → path addr ≠ path m.virtualTop := by
    intro addr here same
    have bounds := owned.below addr here
    have equal := path_inj bounds.1 owned.aligned bounds.2.1 owned.half same
    have last := bounds.2.2
    rw [equal] at last
    omega
  have fresh : ∀ addr, pages addr → m.translate addr ≠ some frame := by
    intro addr here same
    rcases owned.mapped addr here with ⟨other, found', used, _⟩
    rw [same] at found'
    cases found'
    exact absurd (available.free.symm.trans used) (by decide)
  generalize m₂.virtualTop + pageSize = top at raised translated ⊢
  refine ⟨⟨?_, ?_, ?_, ?_, ?_, ?_, ?_⟩, raised⟩
  · have spaces₂ := spaces₁.mapped mapped (.inl kernel)
    exact ⟨⟨spaces₂.tables.forest, spaces₂.tables.inUse⟩, spaces₂.kernel, spaces₂.kernelEntry,
      spaces₂.kernelOnly⟩
  · rw [setCurrentVmTop_root, root₂]
    exact owned.loaded
  · rw [setCurrentVmTop_virtualTop, raised]
    have aligned := owned.aligned
    omega
  · rw [setCurrentVmTop_virtualTop, raised]
    have half := owned.half
    omega
  · rw [setCurrentVmTop_virtualTop, raised]
    rintro addr (here | rfl)
    · have bounds := owned.below addr here
      omega
    · have aligned := owned.aligned
      have half := owned.half
      omega
  · rintro addr (here | rfl)
    · rcases owned.mapped addr here with ⟨other, found', used, notTable⟩
      rw [translated, if_neg (old addr here)]
      exact ⟨other, found', mapped.used other (grown.used other used),
        data (grown.used other used) notTable⟩
    · rw [translated, if_pos rfl]
      exact ⟨frame, rfl, mapped.used frame inUse,
        data inUse (not_isTable_of_available owned.spaces.tables available)⟩
  · rintro first second (here | rfl) (there | rfl) same
    · rw [translated, translated, if_neg (old first here), if_neg (old second there)] at same
      exact owned.apart first second here there same
    · rw [translated, translated, if_neg (old first here), if_pos rfl] at same
      exact absurd same (fresh first here)
    · rw [translated, translated, if_pos rfl, if_neg (old second there)] at same
      exact absurd same.symm (fresh second there)
    · rfl

/-- The loop of `alloc_pages`. -/
theorem allocTopLoop (owned : Owned roots pages m) (flagBits : FlagBits flags)
    (clean : m.CleanTop flags n) (result : m.allocTopLoop flags n = some m')
    (room : m.virtualTop.toNat + 4096 * n < 2 ^ 64) :
    Owned roots (fun addr => pages addr ∨
        ∃ i < n, addr = m.virtualTop + BitVec.ofNat 64 (4096 * i)) m' ∧
      m'.virtualTop.toNat = m.virtualTop.toNat + 4096 * n := by
  induction n generalizing m pages with
  | zero =>
      cases result
      refine ⟨owned.mono ?_, rfl⟩
      rintro addr (here | ⟨i, impossible, _⟩)
      · exact here
      · exact absurd impossible (Nat.not_lt_zero i)
  | succ n ih =>
      have one : m.virtualTop.toNat + 4096 < 2 ^ 64 :=
        Nat.lt_of_le_of_lt (Nat.add_le_add_left (Nat.le_mul_of_pos_right 4096 n.succ_pos) _) room
      simp only [Machine.allocTopLoop, Option.bind_eq_bind] at result
      rcases Option.bind_eq_some_iff.mp result with ⟨⟨m₁, frame⟩, found, rest⟩
      rcases Option.bind_eq_some_iff.mp rest with ⟨m₂, mapped, last⟩
      rcases clean m₁ frame found with ⟨tables, later⟩
      rcases owned.page flagBits found tables mapped one with ⟨owned₂, top₂⟩
      rcases ih owned₂ (later m₂ mapped) last (by omega) with ⟨owned', top'⟩
      refine ⟨owned'.mono ?_, by omega⟩
      have next : (m₂.setCurrentVmTop (m₂.virtualTop + pageSize)).virtualTop =
          m.virtualTop + BitVec.ofNat 64 4096 := by
        apply BitVec.eq_of_toNat_eq
        rw [top₂, BitVec.toNat_add, BitVec.toNat_ofNat]
        omega
      rintro addr (here | ⟨i, below, rfl⟩)
      · exact .inl (.inl here)
      · cases i with
        | zero => exact .inl (.inr (by simp))
        | succ i =>
            refine .inr ⟨i, by omega, ?_⟩
            rw [next, BitVec.add_assoc, ← BitVec.ofNat_add, show 4096 * (i + 1) = 4096 + 4096 * i by omega]

/-- One page less: its frame is given back. -/
theorem free {addr : Word} (owned : Owned roots pages m) (here : pages addr) :
    Owned roots (fun other => pages other ∧ other ≠ addr) (m.kfreeLoop 1 addr) := by
  rcases owned.mapped addr here with ⟨frame, found, _, notTable⟩
  have phyaddr := virtToPhy_of_translate found
  have small : frame.toNat < 2 ^ 52 := translate_small found
  have away : ∀ other, pages other ∧ other ≠ addr → m.translate other ≠ some frame := by
    rintro other ⟨there, different⟩ same
    exact different (owned.apart other addr there here (same.trans found.symm))
  unfold kfreeLoop kfreeLoop
  dsimp only
  rw [phyaddr]
  split
  · rw [mmPhyToPage_mmPageToPhy small]
    have kept : ∀ other, other ≠ frame → m.phy.inUse other = true →
        (m.phy.mmPhyFreePage frame).inUse other = true := by
      intro other different used
      rw [PhyAlloc.inUse_mmPhyFreePage, used, decide_eq_false different]
      rfl
    refine ⟨⟨⟨owned.spaces.tables.forest, ?_⟩, owned.spaces.kernel, owned.spaces.kernelEntry,
      owned.spaces.kernelOnly⟩, owned.loaded, owned.aligned, owned.half,
      fun other there => owned.below other there.1, ?_,
      fun first second there there' => owned.apart first second there.1 there'.1⟩
    · intro table isTable
      apply kept table _ (owned.spaces.tables.inUse isTable)
      rintro rfl
      exact notTable isTable
    · intro other there
      rcases owned.mapped other there.1 with ⟨frame', found', used, notTable'⟩
      refine ⟨frame', found', kept frame' ?_ used, notTable'⟩
      rintro rfl
      exact away other there found'
  · exact owned.mono fun _ there => there.1

/-- The loop of `kfree`. -/
theorem kfreeLoop {vaddr : Word} (owned : Owned roots pages m) (room : vaddr.toNat + 4096 * n < 2 ^ 64)
    (all : ∀ i < n, pages (vaddr + BitVec.ofNat 64 (4096 * i))) :
    Owned roots (fun addr => pages addr ∧ ∀ i < n, addr ≠ vaddr + BitVec.ofNat 64 (4096 * i))
        (m.kfreeLoop n vaddr) ∧ (m.kfreeLoop n vaddr).virtualTop = m.virtualTop := by
  induction n generalizing m vaddr pages with
  | zero => exact ⟨owned.mono fun _ there => there.1, rfl⟩
  | succ n ih =>
      have first : pages vaddr := by
        have zero := all 0 n.succ_pos
        rwa [rangePage_zero] at zero
      have freed := owned.free first
      have step : m.kfreeLoop (n + 1) vaddr = (m.kfreeLoop 1 vaddr).kfreeLoop n (vaddr + pageSize) :=
        rfl
      have top : (m.kfreeLoop 1 vaddr).virtualTop = m.virtualTop := by
        unfold Machine.kfreeLoop Machine.kfreeLoop
        dsimp only
        split <;> rfl
      have next := rangePage_succ vaddr
      have later : (vaddr + pageSize).toNat = vaddr.toNat + 4096 := by
        rw [BitVec.toNat_add, pageSize_toNat]
        omega
      have rest : ∀ i < n, pages (vaddr + pageSize + BitVec.ofNat 64 (4096 * i)) ∧
          vaddr + pageSize + BitVec.ofNat 64 (4096 * i) ≠ vaddr := by
        intro i below
        constructor
        · rw [next]
          exact all (i + 1) (Nat.succ_lt_succ below)
        · intro same
          have values := congrArg BitVec.toNat same
          rw [BitVec.toNat_add, later, BitVec.toNat_ofNat] at values
          omega
      rcases ih freed (by omega) rest with ⟨owned', top'⟩
      rw [step]
      refine ⟨owned'.mono ?_, top'.trans top⟩
      rintro addr ⟨there, elsewhere⟩
      refine ⟨⟨there, ?_⟩, fun i below => ?_⟩
      · have zero := elsewhere 0 n.succ_pos
        rwa [rangePage_zero] at zero
      · rw [next]
        exact elsewhere (i + 1) (Nat.succ_lt_succ below)

end Owned

end Machine

/-! ## Runs -/

open Machine

/-- A sequence of `kmalloc` and `kfree` calls, each on a live block with its own size, with
all blocks ever returned and those that are live, newest first.  Between the calls the
kernel writes to its blocks and loads other roots. -/
inductive HeapRun (roots : Word → Prop) (start : Machine) :
    Machine → List Block → List Block → Prop where
  | start : HeapRun roots start start [] []
  | kmalloc {m m' : Machine} {all live : List Block} {size addr : Word}
      (run : HeapRun roots start m all live)
      (clean : m.CleanTop (ptPresentFlag ||| ptWritableFlag) (pagesOf size))
      (room : m.virtualTop.toNat + 4096 * pagesOf size < 2 ^ 64)
      (result : m.kmalloc size = some (m', addr)) :
      HeapRun roots start m' (⟨addr, size⟩ :: all) (⟨addr, size⟩ :: live)
  | kfree {m : Machine} {all live : List Block} {b : Block} (run : HeapRun roots start m all live)
      (member : b ∈ live) : HeapRun roots start (m.kfree b.base b.size) all (live.erase b)
  | write {m : Machine} {all live : List Block} {mem : Word → BitVec 9 → Word}
      (run : HeapRun roots start m all live)
      (outside : ∀ frame, (∀ b ∈ live, ∀ addr, b.Page addr → m.translate addr ≠ some frame) →
        mem frame = m.mem frame) : HeapRun roots start { m with mem := mem } all live
  | load {m : Machine} {all live : List Block} {cr3 : Word} (run : HeapRun roots start m all live)
      (isRoot : roots (mmPhyToPage cr3)) : HeapRun roots start (m.writeCr3 cr3) all live

/-- The pages of live blocks. -/
def LivePage (live : List Block) (addr : Word) : Prop := ∃ b ∈ live, b.Page addr

/-- What holds along a run: the live pages are owned, and the blocks lie one after another
between the top at the start and the top now. -/
structure HeapInv (roots : Word → Prop) (start m : Machine) (all live : List Block) : Prop where
  owned : Owned roots (LivePage live) m
  grown : start.virtualTop.toNat ≤ m.virtualTop.toNat
  between : ∀ b ∈ all, start.virtualTop.toNat ≤ b.base.toNat ∧ b.stop ≤ m.virtualTop.toNat
  apart : all.Pairwise Block.Apart
  live : live.Sublist all

namespace HeapInv

variable {roots : Word → Prop} {start m m' : Machine} {all live : List Block} {b : Block}
  {size addr : Word}

theorem room (inv : HeapInv roots start m all live) (member : b ∈ all) : b.stop < 2 ^ 64 :=
  Nat.lt_of_le_of_lt (inv.between b member).2 m.virtualTop.isLt

theorem kmalloc (inv : HeapInv roots start m all live)
    (clean : m.CleanTop (ptPresentFlag ||| ptWritableFlag) (pagesOf size))
    (room : m.virtualTop.toNat + 4096 * pagesOf size < 2 ^ 64)
    (result : m.kmalloc size = some (m', addr)) :
    HeapInv roots start m' (⟨addr, size⟩ :: all) (⟨addr, size⟩ :: live) := by
  simp only [Machine.kmalloc, allocPages, Option.bind_eq_bind] at result
  rcases Option.bind_eq_some_iff.mp result with ⟨m₁, looped, last⟩
  cases last
  rcases inv.owned.allocTopLoop flagBits_kernel clean looped room with ⟨owned, top⟩
  refine ⟨owned.mono ?_, ?_, ?_, ?_, inv.live.cons_cons _⟩
  · rintro page ⟨c, member, inside⟩
    rcases List.mem_cons.mp member with rfl | older
    · exact .inr inside
    · exact .inl ⟨c, older, inside⟩
  · have grown := inv.grown
    omega
  · intro c member
    rcases List.mem_cons.mp member with rfl | older
    · exact ⟨inv.grown, Nat.le_of_eq top.symm⟩
    · have bounds := inv.between c older
      omega
  · refine List.pairwise_cons.mpr ⟨fun c older => ?_, inv.apart⟩
    exact .inr (inv.between c older).2

/-- Pages of blocks that lie apart are different. -/
theorem page_ne {c : Block} (apart : b.Apart c) (room : b.stop ≤ 2 ^ 64) (room' : c.stop ≤ 2 ^ 64)
    {page page' : Word} (inside : b.Page page) (inside' : c.Page page') : page ≠ page' := by
  rintro rfl
  rcases RangePage.toNat inside room with ⟨i, below, value⟩
  rcases RangePage.toNat inside' room' with ⟨j, below', value'⟩
  unfold Block.Apart Block.stop at apart
  omega

theorem livePairwise (inv : HeapInv roots start m all live) : live.Pairwise Block.Apart :=
  inv.apart.sublist inv.live

theorem kfree (inv : HeapInv roots start m all live) (member : b ∈ live) :
    HeapInv roots start (m.kfree b.base b.size) all (live.erase b) := by
  have known := inv.live.subset member
  have room := inv.room known
  rcases inv.owned.kfreeLoop room fun i below => ⟨b, member, i, below, rfl⟩ with ⟨owned, top⟩
  refine ⟨owned.mono ?_, ?_, ?_, inv.apart, List.erase_sublist.trans inv.live⟩
  · rintro page ⟨c, remaining, inside⟩
    have still := List.mem_of_mem_erase remaining
    refine ⟨⟨c, still, inside⟩, fun i below => ?_⟩
    have others : (b :: live.erase b).Pairwise Block.Apart :=
      ((List.perm_cons_erase member).pairwise_iff Block.Apart.symm).mp inv.livePairwise
    have apart := (List.pairwise_cons.mp others).1 c remaining
    exact (page_ne apart (Nat.le_of_lt room) (Nat.le_of_lt (inv.room (inv.live.subset still)))
      ⟨i, below, rfl⟩ inside).symm
  · exact (congrArg BitVec.toNat top).symm ▸ inv.grown
  · intro c member'
    exact (congrArg BitVec.toNat top).symm ▸ inv.between c member'

end HeapInv

theorem HeapRun.inv {roots : Word → Prop} {start m : Machine} {all live : List Block}
    (owned : Owned roots (LivePage []) start) (run : HeapRun roots start m all live) :
    HeapInv roots start m all live := by
  induction run with
  | start => exact ⟨owned, Nat.le_refl _, nofun, .nil, .slnil⟩
  | kmalloc _ clean room result ih => exact ih.kmalloc clean room result
  | kfree _ member ih => exact ih.kfree member
  | write _ outside ih =>
      refine ⟨ih.owned.write fun frame away => ?_, ih.grown, ih.between, ih.apart, ih.live⟩
      exact outside frame fun b member addr inside => away addr ⟨b, member, inside⟩
  | load _ isRoot ih => exact ⟨ih.owned.writeCr3 isRoot, ih.grown, ih.between, ih.apart, ih.live⟩

/-- The blocks that `kmalloc` ever returned share no page with one another nor with what
`setup_paging` mapped; the pages of the live ones are mapped, each to a frame that no other
live block and no table has. -/
theorem heapRun_disjoint {roots : Word → Prop} {phybase physfree : Word} {start m : Machine}
    {all live : List Block} (started : Started roots phybase physfree start)
    (run : HeapRun roots start m all live) :
    all.Pairwise Block.Apart ∧
      (∀ b ∈ all, ∀ page, SetupPage phybase physfree page → page.toNat + 4096 ≤ b.base.toNat) ∧
      (∀ b ∈ live, ∀ page, b.Page page → m.translate page ≠ none) ∧
      live.Pairwise (fun b c => ∀ page page', b.Page page → c.Page page' →
        m.translate page ≠ m.translate page') ∧
      ∀ b ∈ live, ∀ page frame, b.Page page → m.translate page = some frame →
        ¬ IsTable entryFrame m.mem roots 4 frame := by
  have owned : Owned roots (LivePage []) start := by
    have top := started.virtualTop_toNat
    have value := started.placed.imageEnd_toNat
    have base := started.placed.base_toNat
    have aligned := started.placed.aligned
    have none : ∀ page, ¬ LivePage [] page := by
      rintro page ⟨b, member, _⟩
      cases member
    exact ⟨started.spaces, started.loaded, by omega, by omega, fun page here => (none page here).elim,
      fun page here => (none page here).elim, fun page _ here => (none page here).elim⟩
  have inv := run.inv owned
  refine ⟨inv.apart, ?_, ?_, ?_, ?_⟩
  · intro b member page mapped
    exact Nat.le_trans (started.above mapped) (inv.between b member).1
  · intro b member page inside
    rcases inv.owned.mapped page ⟨b, member, inside⟩ with ⟨frame, found, _⟩
    rw [found]
    exact Option.some_ne_none frame
  · refine inv.livePairwise.imp_of_mem ?_
    intro b c member member' apart page page' inside inside' same
    have room := Nat.le_of_lt (inv.room (inv.live.subset member))
    have room' := Nat.le_of_lt (inv.room (inv.live.subset member'))
    exact HeapInv.page_ne apart room room' inside inside'
      (inv.owned.apart page page' ⟨b, member, inside⟩ ⟨c, member', inside'⟩ same)
  · intro b member page frame inside found
    rcases inv.owned.mapped page ⟨b, member, inside⟩ with ⟨other, found', _, notTable⟩
    rw [found] at found'
    cases found'
    exact notTable

/-- Clean frames are clean for a kernel page. -/
theorem Machine.CleanFrames.cleanTop {m : Machine} {flags : Word} (clean : m.CleanFrames) :
    m.CleanTop flags 1 :=
  fun _ _ found => ⟨(clean.alloc found).cleanNext _, fun _ _ => trivial⟩

/-- Two blocks of a page each, allocated after the machine booted. -/
theorem heapRun_disjoint_bootExample : ∃ m b c,
    HeapRun (fun r => r ∈ [bootExample.kCr3].map mmPhyToPage) bootExample m [c, b] [c, b] ∧
      (∃ page, b.Page page) ∧ (∃ page, c.Page page) ∧ c.Apart b ∧
      ∀ page page', c.Page page → b.Page page' → m.translate page ≠ m.translate page' := by
  have orderly := bootExample_bootSpace.spaceInv.orderly
  have one : pagesOf 8 = 1 := by decide
  rcases orderly.kmalloc one (n := 20) bootExample_hasFrames with ⟨m₁, _, result₁, page₁, frames₁⟩
  have orderly₁ := page₁.page.extended.orderly
  rcases orderly₁.kmalloc one (n := 16) frames₁ with ⟨m₂, _, result₂, _, _⟩
  have started : Started (fun r => r ∈ [bootExample.kCr3].map mmPhyToPage) 0x200000 0x200000
      bootExample :=
    ⟨orderly.spaces, orderly.loaded, ⟨by decide, by decide, by decide, by decide⟩, by decide⟩
  have room₁ := page₁.virtualTop_toNat orderly
  have top : bootExample.virtualTop.toNat = 0xFFFFFFFF80201000 := rfl
  have run₁ : HeapRun (fun r => r ∈ [bootExample.kCr3].map mmPhyToPage) bootExample m₁
      [⟨bootExample.virtualTop, 8⟩] [⟨bootExample.virtualTop, 8⟩] :=
    .kmalloc .start (one ▸ orderly.clean.cleanTop) (by rw [one]; omega) result₁
  have run₂ : HeapRun (fun r => r ∈ [bootExample.kCr3].map mmPhyToPage) bootExample m₂
      [⟨m₁.virtualTop, 8⟩, ⟨bootExample.virtualTop, 8⟩]
      [⟨m₁.virtualTop, 8⟩, ⟨bootExample.virtualTop, 8⟩] :=
    run₁.kmalloc (one ▸ orderly₁.clean.cleanTop) (by rw [one]; omega) result₂
  have disjoint := heapRun_disjoint started run₂
  refine ⟨m₂, _, _, run₂, ⟨_, 0, by rw [one]; decide, rfl⟩, ⟨_, 0, by rw [one]; decide, rfl⟩, ?_, ?_⟩
  · exact (List.pairwise_cons.mp disjoint.1).1 _ (List.mem_singleton_self _)
  · exact (List.pairwise_cons.mp disjoint.2.2.2.1).1 _ (List.mem_singleton_self _)

end Sbrocks.Mmu
