import Mathlib.Data.Finset.Card
import Mathlib.Data.Finset.Range
import Sbrocks.Mmu.PageMap

/-!
# Address spaces

Every process has a root table of its own, which took over the kernel's entries
when it was created.  As long as the kernel's root has entry 511 and no other,
all roots share the tables below that entry, wherever a kernel page is mapped,
and nothing else.
-/

namespace Sbrocks.Mmu

open Sbrocks.Radix

/-- The index that all address spaces share. -/
def kernelHalf (i : BitVec 9) : Prop := i = 511

namespace PhyAlloc

/-- The number of frames the allocator may still return. -/
def availableCount (phy : PhyAlloc) : Nat :=
  ((Finset.range (bitmapGroups * pagesPerGroup)).filter fun n =>
    phy.Available (BitVec.ofNat 64 n)).card

theorem availableCount_mono {before after : PhyAlloc}
    (used : ∀ page, before.inUse page = true → after.inUse page = true) :
    after.availableCount ≤ before.availableCount := by
  apply Finset.card_le_card
  intro n member
  rw [Finset.mem_filter] at member ⊢
  exact ⟨member.1, member.2.mono used⟩

/-- An allocation leaves fewer frames. -/
theorem Allocated.availableCount_lt {before after : PhyAlloc} {page : Word}
    (allocated : Allocated before after page) :
    after.availableCount < before.availableCount := by
  apply Finset.card_lt_card
  rw [Finset.ssubset_iff_of_subset]
  · refine ⟨page.toNat, ?_, ?_⟩
    · rw [Finset.mem_filter, Finset.mem_range, BitVec.ofNat_toNat, BitVec.setWidth_eq]
      exact ⟨allocated.below, allocated.available⟩
    · rw [Finset.mem_filter, BitVec.ofNat_toNat, BitVec.setWidth_eq]
      rintro ⟨_, available⟩
      exact absurd (available.free.symm.trans allocated.isUsed) (by simp)
  · intro n member
    rw [Finset.mem_filter] at member ⊢
    exact ⟨member.1, member.2.mono allocated.keeps⟩

end PhyAlloc

namespace Machine

variable {m m' : Machine} {roots : Word → Prop}

/-- The frame of the kernel's root table. -/
def kernelRoot (m : Machine) : Word := mmPhyToPage m.kCr3

/-- The roots make a forest that shares the kernel half; the kernel's root has
the shared entry and no other. -/
structure Spaces (roots : Word → Prop) (m : Machine) : Prop where
  tables : Tables m roots kernelHalf
  kernel : roots m.kernelRoot
  kernelEntry : entryFrame (m.mem m.kernelRoot 511) ≠ none
  kernelOnly : ∀ i, i ≠ 511 → entryFrame (m.mem m.kernelRoot i) = none

/-- No frame that the allocator may return holds a present entry. -/
def CleanFrames (m : Machine) : Prop :=
  ∀ page, m.phy.Available page → ∀ offset, entryFrame (m.mem page offset) = none

/-- The top of the kernel's virtual memory is a page boundary of the kernel half,
with room above it for all the frames that are left. -/
structure TopRoom (m : Machine) : Prop where
  aligned : m.virtualTop.toNat % 4096 = 0
  half : 2 ^ 64 - 2 ^ 39 ≤ m.virtualTop.toNat
  room : m.virtualTop.toNat + 4096 * m.phy.availableCount < 2 ^ 64

theorem CleanFrames.cleanNext (clean : m.CleanFrames) (n : Nat) : m.CleanNext n :=
  fun page member offset => clean page (PhyAlloc.available_of_mem_handedOut member) offset

theorem TopRoom.pml4eOffset (top : m.TopRoom) : pml4eOffset m.virtualTop = 511 := by
  have half := top.half
  have bound := m.virtualTop.isLt
  rw [← BitVec.toNat_inj, pml4eOffset_toNat]
  change m.virtualTop.toNat / 2 ^ 39 % 512 = 511
  omega

/-- Every root has the shared entry. -/
theorem Spaces.entry (spaces : Spaces roots m) {r : Word} (isRoot : roots r) :
    entryFrame (m.mem r 511) ≠ none := by
  have same := spaces.tables.forest.coherent isRoot spaces.kernel (show kernelHalf 511 from rfl)
  rw [same]
  exact spaces.kernelEntry

/-! ## One frame, one mapping -/

theorem Spaces.alloc (spaces : Spaces roots m) {page : Word}
    (found : m.mmPhyAllocPage = some (m', page)) : Spaces roots m' := by
  have grown : Grown roots kernelHalf m.root [] m m' ∧ _ := Grown.alloc spaces.tables found
  obtain ⟨phy, -, rfl⟩ := mmPhyAllocPage_eq_some found
  exact ⟨grown.1.tables, spaces.kernel, spaces.kernelEntry, spaces.kernelOnly⟩

theorem CleanFrames.alloc (clean : m.CleanFrames) {page : Word}
    (found : m.mmPhyAllocPage = some (m', page)) : m'.CleanFrames := by
  obtain ⟨phy, scan, rfl⟩ := mmPhyAllocPage_eq_some found
  intro other available
  exact clean other (available.mono (PhyAlloc.mmPhyAllocPage_eq_some scan).keeps)

theorem CleanFrames.mapped (clean : m.CleanFrames) {shared : BitVec 9 → Prop} {r virt frame : Word}
    (mapped : Mapped roots shared r virt frame m m') : m'.CleanFrames := by
  intro page available offset
  rw [mapped.data (not_isTable_of_available mapped.tables available)]
  exact clean page (available.mono mapped.used) offset

/-- A mapping in the kernel half, or under another root than the kernel's, keeps
the address spaces in order. -/
theorem Spaces.mapped (spaces : Spaces roots m) {r virt frame : Word}
    (mapped : Mapped roots kernelHalf r virt frame m m')
    (place : pml4eOffset virt = 511 ∨ r ≠ m.kernelRoot) : Spaces roots m' := by
  have same : m'.kernelRoot = m.kernelRoot := congrArg mmPhyToPage mapped.kCr3
  have entry : ∀ (after : Machine) (i : BitVec 9), walk entryFrame after.mem m.kernelRoot [i] =
      entryFrame (after.mem m.kernelRoot i) := fun after i => by simp [walk_cons]
  refine ⟨mapped.tables, same ▸ spaces.kernel, ?_, ?_⟩
  · rw [same]
    obtain ⟨table, found⟩ := Option.ne_none_iff_exists'.mp spaces.kernelEntry
    rw [← entry m' 511, mapped.kept spaces.kernel (by simp) ((entry m 511).trans found)]
    simp
  · intro i user
    rw [same]
    by_contra present
    obtain ⟨table, found⟩ := Option.ne_none_iff_exists'.mp present
    rcases mapped.short spaces.kernel (by simp) ((entry m' i).trans found) with
      older | ⟨onPath, here⟩
    · rw [entry m i, spaces.kernelOnly i user] at older
      contradiction
    · have index : i = pml4eOffset virt := by
        simpa [tablePath] using onPath
      rcases place with kernelPage | otherRoot
      · exact user (index.trans kernelPage)
      · rcases here with isKernel | held
        · exact otherRoot isKernel.symm
        · exact user held

theorem Spaces.setCurrentVmTop (spaces : Spaces roots m) (newTop : Word) :
    Spaces roots (m.setCurrentVmTop newTop) :=
  ⟨⟨spaces.tables.forest, spaces.tables.inUse⟩, spaces.kernel, spaces.kernelEntry,
    spaces.kernelOnly⟩

theorem CleanFrames.setCurrentVmTop (clean : m.CleanFrames) (newTop : Word) :
    (m.setCurrentVmTop newTop).CleanFrames :=
  fun page available => clean page available

/-- The specification of `map_virt_to_phy` among address spaces. -/
theorem Spaces.mapVirtToPhy (spaces : Spaces roots m) {virt phy flags : Word}
    (flagBits : FlagBits flags) (isRoot : roots m.root) (clean : m.CleanFrames)
    (result : m.mapVirtToPhy virt phy flags = some m') :
    Mapped roots kernelHalf m.root virt (mmPhyToPage phy) m m' := by
  apply mapVirtToPhy_mapped spaces.tables flagBits isRoot _ (clean.cleanNext _) result
  intro held
  rw [show pml4eOffset virt = 511 from held]
  exact spaces.entry isRoot

/-! ## The top of the kernel's virtual memory -/

/-- The state keeps its address spaces, its clean frames and its room. -/
structure Orderly (roots : Word → Prop) (m : Machine) : Prop where
  spaces : Spaces roots m
  loaded : roots m.root
  clean : m.CleanFrames
  top : m.TopRoom

/-- What allocating kernel pages does: the user half is translated as before,
and frames in use that hold no table keep their content. -/
structure Extended (roots : Word → Prop) (m m' : Machine) : Prop where
  orderly : Orderly roots m'
  user : ∀ {other : Word} {ρ : List (BitVec 9)}, roots other → ρ.length = 4 →
    ¬ SharedPath kernelHalf ρ → walk entryFrame m'.mem other ρ = walk entryFrame m.mem other ρ
  data : ∀ {frame : Word}, m.phy.inUse frame = true → ¬ IsTable entryFrame m.mem roots 4 frame →
    ¬ IsTable entryFrame m'.mem roots 4 frame ∧ m'.mem frame = m.mem frame
  used : ∀ frame, m.phy.inUse frame = true → m'.phy.inUse frame = true
  cr3 : m'.cr3 = m.cr3
  kCr3 : m'.kCr3 = m.kCr3

theorem Extended.refl (orderly : Orderly roots m) : Extended roots m m :=
  ⟨orderly, fun _ _ _ => rfl, fun _ notTable => ⟨notTable, rfl⟩, fun _ => id, rfl, rfl⟩

theorem Extended.trans {m'' : Machine} (first : Extended roots m m')
    (second : Extended roots m' m'') : Extended roots m m'' where
  orderly := second.orderly
  user isRoot full user := (second.user isRoot full user).trans (first.user isRoot full user)
  data inUse notTable := by
    obtain ⟨notTable', same⟩ := first.data inUse notTable
    obtain ⟨notTable'', same'⟩ := second.data (first.used _ inUse) notTable'
    exact ⟨notTable'', same'.trans same⟩
  used frame inUse := second.used frame (first.used frame inUse)
  cr3 := second.cr3.trans first.cr3
  kCr3 := second.kCr3.trans first.kCr3

/-- One round of `alloc_pages`: a frame is taken and mapped at the top, for every
root. -/
structure TopPage (roots : Word → Prop) (frame : Word) (m m' : Machine) : Prop where
  extended : Extended roots m m'
  available : m.phy.Available frame
  inUse : m'.phy.inUse frame = true
  notTable : ¬ IsTable entryFrame m'.mem roots 4 frame
  hit : ∀ {other : Word}, roots other →
    walk entryFrame m'.mem other (path m.virtualTop) = some frame

theorem TopRoom.next (top : m.TopRoom) {phy : PhyAlloc}
    (fewer : phy.availableCount < m.phy.availableCount) (same : m'.phy.availableCount ≤
      phy.availableCount) (bump : m'.virtualTop = m.virtualTop + pageSize) : m'.TopRoom := by
  have aligned := top.aligned
  have half := top.half
  have room := top.room
  have next : m'.virtualTop.toNat = m.virtualTop.toNat + 4096 := by
    rw [bump, BitVec.toNat_add, pageSize_toNat]
    omega
  exact ⟨by omega, by omega, by omega⟩

theorem Orderly.topPage (orderly : Orderly roots m) {flags page : Word} {m₁ m₂ : Machine}
    (flagBits : FlagBits flags) (found : m.mmPhyAllocPage = some (m₁, page))
    (result : m₁.mapVirtToPhy m₁.virtualTop (mmPageToPhy page) flags = some m₂) :
    TopPage roots page m (m₂.setCurrentVmTop (m₂.virtualTop + pageSize)) := by
  have alloc : Grown roots kernelHalf m.root [] m m₁ ∧ _ := Grown.alloc orderly.spaces.tables found
  obtain ⟨grown, available, inUse, mem⟩ := alloc
  obtain ⟨phy, scan, same⟩ := mmPhyAllocPage_eq_some found
  have spaces₁ := orderly.spaces.alloc found
  have clean₁ := orderly.clean.alloc found
  have root₁ : m₁.root = m.root := congrArg mmPhyToPage grown.cr3
  have loaded₁ : roots m₁.root := root₁ ▸ orderly.loaded
  have top₁ : pml4eOffset m₁.virtualTop = 511 := grown.virtualTop ▸ orderly.top.pml4eOffset
  have mapped := spaces₁.mapVirtToPhy flagBits loaded₁ clean₁ result
  rw [mmPhyToPage_mmPageToPhy (PhyAlloc.Available.small available)] at mapped
  have notTable : ¬ IsTable entryFrame m₂.mem roots 4 page := by
    intro isTable
    rcases mapped.fresh isTable with older | freeAgain
    · rw [mem] at older
      exact not_isTable_of_available orderly.spaces.tables available older
    · exact absurd (freeAgain.free.symm.trans inUse) (by simp)
  have inUse₂ := mapped.used page inUse
  have spaces₂ := spaces₁.mapped mapped (.inl top₁)
  have hit : ∀ {other : Word}, roots other →
      walk entryFrame m₂.mem other (path m.virtualTop) = some page := by
    intro other isRoot
    rw [← grown.virtualTop]
    exact mapped.hit isRoot (.inr top₁)
  have root₂ : m₂.root = m.root := (congrArg mmPhyToPage mapped.cr3).trans root₁
  obtain ⟨newTop, bump⟩ : ∃ newTop, newTop = m₂.virtualTop + pageSize := ⟨_, rfl⟩
  rw [← bump]
  have loaded₂ : roots (m₂.setCurrentVmTop newTop).root := by
    rw [setCurrentVmTop_root, root₂]
    exact orderly.loaded
  have clean₂ := clean₁.mapped mapped
  refine ⟨⟨⟨spaces₂.setCurrentVmTop _, loaded₂, clean₂.setCurrentVmTop _, ?_⟩, ?_, ?_, ?_, ?_, ?_⟩,
    available, inUse₂, notTable, hit⟩
  · apply orderly.top.next (PhyAlloc.mmPhyAllocPage_eq_some scan).availableCount_lt
    · have phy₁ : m₁.phy = phy := by rw [same]
      rw [← phy₁, setCurrentVmTop_phy]
      exact PhyAlloc.availableCount_mono mapped.used
    · rw [setCurrentVmTop_virtualTop, bump, mapped.virtualTop, grown.virtualTop]
  · intro other ρ isRoot full user
    rw [← mem]
    apply mapped.walks isRoot full
    rintro ⟨rfl, _⟩
    exact user top₁
  · intro frame frameUsed frameData
    have notTable₂ : ¬ IsTable entryFrame m₂.mem roots 4 frame := by
      intro isTable
      rcases mapped.fresh isTable with older | free
      · exact frameData (mem ▸ older)
      · exact absurd (free.free.symm.trans (grown.used frame frameUsed)) (by simp)
    refine ⟨notTable₂, ?_⟩
    rw [← mem]
    exact mapped.data notTable₂
  · exact fun frame frameUsed => mapped.used frame (grown.used frame frameUsed)
  · exact mapped.cr3.trans grown.cr3
  · exact mapped.kCr3.trans grown.kCr3

theorem Orderly.allocTopLoop (orderly : Orderly roots m) {flags : Word} (flagBits : FlagBits flags)
    {n : Nat} (result : m.allocTopLoop flags n = some m') : Extended roots m m' := by
  induction n generalizing m with
  | zero =>
      obtain rfl := Option.some.inj result
      exact Extended.refl orderly
  | succ n ih =>
      simp only [Machine.allocTopLoop, Option.bind_eq_bind] at result
      obtain ⟨⟨m₁, page⟩, found, rest⟩ := Option.bind_eq_some_iff.mp result
      obtain ⟨m₂, mapped, rest⟩ := Option.bind_eq_some_iff.mp rest
      have page := orderly.topPage flagBits found mapped
      exact page.extended.trans (ih page.extended.orderly rest)

/-- The specification of `alloc_pages`. -/
theorem Orderly.allocPages (orderly : Orderly roots m) {flags retaddr : Word}
    (flagBits : FlagBits flags) {n : Nat}
    (result : m.allocPages n flags = some (m', retaddr)) :
    Extended roots m m' ∧ retaddr = m.virtualTop := by
  simp only [Machine.allocPages, Option.bind_eq_bind] at result
  obtain ⟨m₁, loop, rest⟩ := Option.bind_eq_some_iff.mp result
  obtain ⟨rfl, rfl⟩ := Prod.mk.inj (Option.some.inj rest)
  exact ⟨orderly.allocTopLoop flagBits loop, rfl⟩

/-- The specification of `alloc_pages` for one page. -/
theorem Orderly.allocPage (orderly : Orderly roots m) {flags retaddr : Word}
    (flagBits : FlagBits flags) (result : m.allocPages 1 flags = some (m', retaddr)) :
    retaddr = m.virtualTop ∧ ∃ frame, TopPage roots frame m m' := by
  simp only [Machine.allocPages, Machine.allocTopLoop, Option.bind_eq_bind] at result
  obtain ⟨m₃, loop, rest⟩ := Option.bind_eq_some_iff.mp result
  obtain ⟨⟨m₁, page⟩, found, loop⟩ := Option.bind_eq_some_iff.mp loop
  obtain ⟨m₂, mapped, last⟩ := Option.bind_eq_some_iff.mp loop
  obtain rfl := Option.some.inj last
  obtain ⟨rfl, rfl⟩ := Prod.mk.inj (Option.some.inj rest)
  exact ⟨rfl, page, orderly.topPage flagBits found mapped⟩

/-! ## A new root table -/

/-- The memory after the first `n` entries of a table were copied to a frame. -/
def copied (m : Machine) (source frame : Word) (n : Nat) : Machine :=
  { m with mem := fun page i =>
      if page = frame ∧ i.toNat < n then m.mem source i else m.mem page i }

private theorem path_word {ptr : Word} (aligned : ptr.toNat % 4096 = 0) {n : Nat} (bound : n < 512) :
    path (ptr + BitVec.ofNat 64 (8 * n)) = path ptr ∧
      wordOffset (ptr + BitVec.ofNat 64 (8 * n)) = BitVec.ofNat 9 n := by
  have ptrBound := ptr.isLt
  have sum : (ptr + BitVec.ofNat 64 (8 * n)).toNat = ptr.toNat + 8 * n := by
    rw [BitVec.toNat_add, BitVec.toNat_ofNat]
    omega
  constructor
  · rw [path_eq_iff, ← BitVec.toNat_inj, vpn_toNat, vpn_toNat, sum]
    omega
  · rw [← BitVec.toNat_inj, wordOffset, BitVec.toNat_setWidth, BitVec.toNat_ushiftRight,
      Nat.shiftRight_eq_div_pow, sum, BitVec.toNat_ofNat]
    omega

/-- The copy loop of `env_setup_vm` into a frame that its own pointer is not
translated through: it never faults, and the frame ends up with the entries of the
kernel's root. -/
theorem copyEntries_eq {ptr frame : Word} (aligned : ptr.toNat % 4096 = 0)
    (reached : walk entryFrame m.mem m.root (path ptr) = some frame)
    (unread : ∀ node i, Reads entryFrame m.mem m.root (path ptr) node i → node ≠ frame)
    (different : m.kernelRoot ≠ frame) {n : Nat} (bound : n ≤ 512) :
    m.copyEntries ptr n = some (m.copied m.kernelRoot frame n) := by
  induction n with
  | zero => simp [copyEntries, copied]
  | succ n ih =>
      obtain ⟨place, position⟩ := path_word aligned bound
      -- The pointer is not translated through the entries copied so far.
      have agree : ∀ node i, Reads entryFrame m.mem m.root (path ptr) node i →
          entryFrame ((m.copied m.kernelRoot frame n).mem node i) = entryFrame (m.mem node i) := by
        intro node i reads
        simp [copied, unread node i reads]
      have target : (m.copied m.kernelRoot frame n).translate (ptr + BitVec.ofNat 64 (8 * n)) =
          some frame := by
        rw [translate_eq_walk, place]
        exact (walk_eq_of_reads_eq agree).trans reached
      have value : (m.copied m.kernelRoot frame n).mem
          (mmPhyToPage (m.copied m.kernelRoot frame n).kCr3) (BitVec.ofNat 9 n) =
            m.mem m.kernelRoot (BitVec.ofNat 9 n) := by
        have kernel : mmPhyToPage (m.copied m.kernelRoot frame n).kCr3 = m.kernelRoot := rfl
        rw [kernel]
        simp [copied, different]
      have index : (BitVec.ofNat 9 n).toNat = n := by
        rw [BitVec.toNat_ofNat]
        omega
      simp only [copyEntries, ih (Nat.le_of_succ_le bound), storeWord, target, value, position,
        Option.bind_eq_bind, Option.bind_some, Option.some.injEq]
      simp only [setEntry, copied, Machine.mk.injEq, true_and, and_true]
      funext page i
      rw [put_apply]
      by_cases here : page = frame ∧ i = BitVec.ofNat 9 n
      · rw [if_pos here, if_pos ⟨here.1, by rw [here.2, index]; omega⟩, here.2]
      · rw [if_neg here]
        have same : (page = frame ∧ i.toNat < n) ↔ (page = frame ∧ i.toNat < n + 1) := by
          constructor
          · rintro ⟨inFrame, below⟩
            exact ⟨inFrame, Nat.lt_succ_of_lt below⟩
          · rintro ⟨inFrame, below⟩
            refine ⟨inFrame, ?_⟩
            have notIndex : i.toNat ≠ n := by
              intro equal
              exact here ⟨inFrame, BitVec.eq_of_toNat_eq (equal.trans index.symm)⟩
            omega
        rw [if_congr same rfl rfl]

/-- The frame at an aligned address, if it is not the kernel's root and the address is
not translated through it. -/
def copyTarget (m : Machine) (ptr : Word) : Option Word :=
  match walk entryFrame m.mem m.root (path ptr) with
  | none => none
  | some frame =>
      if ptr.toNat % 4096 = 0 ∧ m.kernelRoot ≠ frame ∧
          frame ∉ visited entryFrame m.mem m.root (path ptr) then some frame
      else none

/-- `env_setup_vm` without its loop, where the loop does not change what it reads. -/
theorem envSetupVm_eq (m : Machine) : m.envSetupVm = (do
    let (m, pml4e) ← m.allocPages 1 (ptPresentFlag ||| ptWritableFlag ||| ptUser)
    match m.copyTarget pml4e with
    | some frame => some (m.copied m.kernelRoot frame 512, pml4e)
    | none => do
        let m ← m.copyEntries pml4e 512
        some (m, pml4e)) := by
  unfold envSetupVm
  apply bind_congr
  rintro ⟨m₁, pml4e⟩
  dsimp only
  cases target : m₁.copyTarget pml4e with
  | none => rfl
  | some frame =>
      unfold copyTarget at target
      cases reached : walk entryFrame m₁.mem m₁.root (path pml4e) with
      | none =>
          rw [reached] at target
          cases target
      | some page =>
          rw [reached] at target
          dsimp only at target
          split at target
          · rename_i fits
            obtain rfl := Option.some.inj target
            have unread : ∀ node i, Reads entryFrame m₁.mem m₁.root (path pml4e) node i →
                node ≠ page := by
              rintro node i reads rfl
              exact fits.2.2 reads.mem_visited
            rw [copyEntries_eq fits.1 reached unread fits.2.1 (Nat.le_refl 512)]
            rfl
          · cases target

/-- What `env_setup_vm` does: a fresh frame is a further root, reached at the
returned address from every root. -/
structure NewSpace (roots : Word → Prop) (pml4e frame : Word) (m m' : Machine) : Prop where
  orderly : Orderly (fun r => r = frame ∨ roots r) m'
  available : m.phy.Available frame
  reached : ∀ {other : Word}, other = frame ∨ roots other →
    walk entryFrame m'.mem other (path pml4e) = some frame
  address : pml4e = m.virtualTop
  user : ∀ {other : Word} {ρ : List (BitVec 9)}, roots other → ρ.length = 4 →
    ¬ SharedPath kernelHalf ρ → walk entryFrame m'.mem other ρ = walk entryFrame m.mem other ρ
  empty : ∀ {ρ : List (BitVec 9)}, ρ.length = 4 → ¬ SharedPath kernelHalf ρ →
    walk entryFrame m'.mem frame ρ = none
  data : ∀ {other : Word}, m.phy.inUse other = true → ¬ IsTable entryFrame m.mem roots 4 other →
    ¬ IsTable entryFrame m'.mem (fun r => r = frame ∨ roots r) 4 other ∧
      m'.mem other = m.mem other
  used : ∀ other, m.phy.inUse other = true → m'.phy.inUse other = true
  cr3 : m'.cr3 = m.cr3
  kCr3 : m'.kCr3 = m.kCr3

theorem TopPage.kernelRoot_ne {frame : Word} (page : TopPage roots frame m m') :
    m'.kernelRoot ≠ frame := by
  intro same
  have spaces := page.extended.orderly.spaces
  exact page.notTable (same ▸ ⟨m'.kernelRoot, [], spaces.kernel, by simp, rfl⟩)

/-- No address is translated through a frame that holds no table. -/
theorem TopPage.unread {frame : Word} (page : TopPage roots frame m m') (loaded : roots m'.root)
    (ptr node : Word) (i : BitVec 9) (reads : Reads entryFrame m'.mem m'.root (path ptr) node i) :
    node ≠ frame := by
  rintro rfl
  exact page.notTable (Forest.isTable_of_reads loaded (Nat.le_of_eq (path_length ptr)) reads)

/-- Where a page can be allocated, a process root can be set up. -/
theorem Orderly.envSetupVm_isSome (orderly : Orderly roots m)
    (frames : (m.allocPages 1 (ptPresentFlag ||| ptWritableFlag ||| ptUser)).isSome = true) :
    m.envSetupVm.isSome = true := by
  obtain ⟨⟨m₁, retaddr⟩, allocated⟩ := Option.isSome_iff_exists.mp frames
  obtain ⟨rfl, frame, page⟩ := orderly.allocPage flagBits_user allocated
  have loaded := page.extended.orderly.loaded
  have copies := copyEntries_eq orderly.top.aligned (page.hit loaded) (page.unread loaded _)
    page.kernelRoot_ne (Nat.le_refl 512)
  simp [Machine.envSetupVm, allocated, copies]

/-- The specification of `env_setup_vm`. -/
theorem Orderly.envSetupVm (orderly : Orderly roots m) {pml4e : Word}
    (result : m.envSetupVm = some (m', pml4e)) : ∃ frame, NewSpace roots pml4e frame m m' := by
  simp only [Machine.envSetupVm, Option.bind_eq_bind] at result
  obtain ⟨⟨m₁, retaddr⟩, allocated, rest⟩ := Option.bind_eq_some_iff.mp result
  obtain ⟨m₂, loop, last⟩ := Option.bind_eq_some_iff.mp rest
  obtain ⟨rfl, rfl⟩ := Prod.mk.inj (Option.some.inj last)
  obtain ⟨rfl, frame, page⟩ := orderly.allocPage flagBits_user allocated
  have orderly₁ := page.extended.orderly
  have spaces₁ := orderly₁.spaces
  have forest₁ := spaces₁.tables.forest
  have different := page.kernelRoot_ne
  have copies := copyEntries_eq orderly.top.aligned (page.hit orderly₁.loaded)
    (page.unread orderly₁.loaded _) different (Nat.le_refl 512)
  obtain rfl : m₁.copied m₁.kernelRoot frame 512 = m₂ := Option.some.inj (copies.symm.trans loop)
  have elsewhere : ∀ other, other ≠ frame →
      (m₁.copied m₁.kernelRoot frame 512).mem other = m₁.mem other := by
    intro other apart
    funext i
    simp [copied, apart]
  have copy : ∀ i, (m₁.copied m₁.kernelRoot frame 512).mem frame i = m₁.mem m₁.kernelRoot i := by
    intro i
    simp [copied, i.isLt]
  have agree : ∀ node i, IsTable entryFrame m₁.mem roots 4 node →
      entryFrame ((m₁.copied m₁.kernelRoot frame 512).mem node i) = entryFrame (m₁.mem node i) := by
    intro node i isTable
    rw [elsewhere node]
    rintro rfl
    exact page.notTable isTable
  have taken : ∀ i, kernelHalf i →
      entryFrame ((m₁.copied m₁.kernelRoot frame 512).mem frame i) =
        entryFrame (m₁.mem m₁.kernelRoot i) := fun i _ => by rw [copy]
  have clean : ∀ i, ¬ kernelHalf i →
      entryFrame ((m₁.copied m₁.kernelRoot frame 512).mem frame i) = none := by
    intro i user
    rw [copy]
    exact spaces₁.kernelOnly i user
  have forest := forest₁.addRoot (Nat.succ_pos 3) spaces₁.kernel page.notTable agree taken clean
  have isTable_or : ∀ {node : Word}, IsTable entryFrame (m₁.copied m₁.kernelRoot frame 512).mem
      (fun r => r = frame ∨ roots r) 4 node → node = frame ∨ IsTable entryFrame m₁.mem roots 4 node :=
    fun isTable => Forest.isTable_addRoot (Nat.succ_pos 3) spaces₁.kernel agree taken clean isTable
  have oldWalk : ∀ {other : Word} {ρ : List (BitVec 9)}, roots other → ρ.length ≤ 4 →
      walk entryFrame (m₁.copied m₁.kernelRoot frame 512).mem other ρ =
        walk entryFrame m₁.mem other ρ :=
    fun isRoot bound => Forest.walk_eq_of_agree agree isRoot bound
  have inUse : ∀ {node : Word}, node = frame ∨ IsTable entryFrame m₁.mem roots 4 node →
      m₁.phy.inUse node = true := by
    rintro node (rfl | isTable)
    · exact page.inUse
    · exact spaces₁.tables.inUse isTable
  have kernelSame := elsewhere m₁.kernelRoot different
  have shared : SharedPath kernelHalf (path m.virtualTop) := orderly.top.pml4eOffset
  refine ⟨frame, ⟨⟨⟨⟨forest, fun isTable => inUse (isTable_or isTable)⟩, .inr spaces₁.kernel,
    ?_, ?_⟩, .inr orderly₁.loaded, ?_, ?_⟩, page.available, ?_, rfl, ?_, ?_, ?_,
    page.extended.used, page.extended.cr3, page.extended.kCr3⟩⟩
  · rw [show (m₁.copied m₁.kernelRoot frame 512).kernelRoot = m₁.kernelRoot from rfl, kernelSame]
    exact spaces₁.kernelEntry
  · rw [show (m₁.copied m₁.kernelRoot frame 512).kernelRoot = m₁.kernelRoot from rfl, kernelSame]
    exact spaces₁.kernelOnly
  · intro other available offset
    have apart : other ≠ frame := by
      rintro rfl
      exact absurd (available.free.symm.trans page.inUse) (by simp)
    rw [elsewhere other apart]
    exact orderly₁.clean other available offset
  · exact ⟨orderly₁.top.aligned, orderly₁.top.half, orderly₁.top.room⟩
  · intro other isRoot
    rw [forest.walk_eq_of_shared isRoot (.inr spaces₁.kernel) shared,
      oldWalk spaces₁.kernel (Nat.le_of_eq (path_length _))]
    exact page.hit spaces₁.kernel
  · intro other ρ isRoot full user
    rw [oldWalk isRoot (Nat.le_of_eq full)]
    exact page.extended.user isRoot full user
  · intro ρ full user
    cases ρ with
    | nil => simp at full
    | cons i ρ =>
        rw [walk_cons, clean i user]
        rfl
  · intro other used data
    have apart : other ≠ frame := by
      rintro rfl
      exact absurd (page.available.free.symm.trans used) (by simp)
    obtain ⟨notTable₁, same⟩ := page.extended.data used data
    refine ⟨fun isTable => ?_, (elsewhere other apart).trans same⟩
    rcases isTable_or isTable with equal | older
    · exact apart equal
    · exact notTable₁ older

/-! ## Runs -/

/-- The state in which the first process is created: the kernel's root is loaded,
its tables are in use, it has entry 511 and no other, the frames that the
allocator may return read as zero, and the top of the kernel's virtual memory
has room. -/
structure BootSpace (boot : Machine) : Prop where
  tables : Tables boot (fun r => r = boot.kernelRoot) kernelHalf
  kernelEntry : entryFrame (boot.mem boot.kernelRoot 511) ≠ none
  kernelOnly : ∀ i, i ≠ 511 → entryFrame (boot.mem boot.kernelRoot i) = none
  address : mmPageToPhy boot.kernelRoot = boot.kCr3
  loaded : boot.cr3 = boot.kCr3
  zero : ∀ page, boot.phy.Available page → ∀ offset, boot.mem page offset = 0
  top : boot.TopRoom

/-- The states reached from `boot` by loading roots, setting up processes,
allocating kernel pages under any loaded root and mapping user pages under the
root of a process, with the roots of the processes. -/
inductive SpaceRun (boot : Machine) : List Word → Machine → Prop where
  | boot : SpaceRun boot [] boot
  | load {processes : List Word} {m : Machine} {cr3 : Word} :
      SpaceRun boot processes m → cr3 ∈ m.kCr3 :: processes →
      SpaceRun boot processes (m.writeCr3 cr3)
  | create {processes : List Word} {m m' : Machine} {pml4e : Word} :
      SpaceRun boot processes m → m.envSetupVm = some (m', pml4e) →
      SpaceRun boot (m'.virtToPhy pml4e :: processes) m'
  | pages {processes : List Word} {m m' : Machine} {n : Nat} {flags retaddr : Word} :
      SpaceRun boot processes m → FlagBits flags → m.allocPages n flags = some (m', retaddr) →
      SpaceRun boot processes m'
  | map {processes : List Word} {m m' : Machine} {virt phy flags : Word} :
      SpaceRun boot processes m → m.cr3 ∈ processes → pml4eOffset virt ≠ 511 → FlagBits flags →
      m.mapVirtToPhy virt phy flags = some m' → SpaceRun boot processes m'

/-- What holds along a run: the roots are the distinct frames of the kernel's and
the processes' root tables. -/
structure SpaceInv (processes : List Word) (m : Machine) : Prop where
  orderly : Orderly (fun r => r ∈ (m.kCr3 :: processes).map mmPhyToPage) m
  distinct : ((m.kCr3 :: processes).map mmPhyToPage).Nodup
  address : ∀ cr3 ∈ m.kCr3 :: processes, mmPageToPhy (mmPhyToPage cr3) = cr3
  loaded : m.cr3 ∈ m.kCr3 :: processes

theorem BootSpace.spaceInv {boot : Machine} (start : BootSpace boot) : SpaceInv [] boot := by
  have roots : (fun r => r ∈ [boot.kCr3].map mmPhyToPage) = fun r => r = boot.kernelRoot := by
    funext r
    simp [kernelRoot]
  have root : boot.root = boot.kernelRoot := congrArg mmPhyToPage start.loaded
  refine ⟨?_, by simp, ?_, ?_⟩
  · rw [roots]
    exact ⟨⟨start.tables, rfl, start.kernelEntry, start.kernelOnly⟩, root,
      fun page available offset => by rw [start.zero page available offset, entryFrame_zero],
      start.top⟩
  · intro cr3 member
    obtain rfl := List.mem_singleton.mp member
    exact start.address
  · exact List.mem_singleton.mpr start.loaded

theorem Orderly.writeCr3 (orderly : Orderly roots m) {cr3 : Word} (isRoot : roots (mmPhyToPage cr3)) :
    Orderly roots (m.writeCr3 cr3) :=
  ⟨⟨⟨orderly.spaces.tables.forest, orderly.spaces.tables.inUse⟩, orderly.spaces.kernel,
    orderly.spaces.kernelEntry, orderly.spaces.kernelOnly⟩, isRoot, orderly.clean,
    ⟨orderly.top.aligned, orderly.top.half, orderly.top.room⟩⟩

/-- A user mapping under a root other than the kernel's. -/
theorem Orderly.mapUser (orderly : Orderly roots m) {virt phy flags : Word}
    (flagBits : FlagBits flags) (place : m.root ≠ m.kernelRoot)
    (result : m.mapVirtToPhy virt phy flags = some m') :
    Orderly roots m' ∧ Mapped roots kernelHalf m.root virt (mmPhyToPage phy) m m' := by
  have mapped := orderly.spaces.mapVirtToPhy flagBits orderly.loaded orderly.clean result
  have root : m'.root = m.root := congrArg mmPhyToPage mapped.cr3
  refine ⟨⟨orderly.spaces.mapped mapped (.inr place), ?_, orderly.clean.mapped mapped, ?_⟩, mapped⟩
  · rw [root]
    exact orderly.loaded
  · have fewer := PhyAlloc.availableCount_mono mapped.used
    have room := orderly.top.room
    have top := congrArg BitVec.toNat mapped.virtualTop
    have aligned := orderly.top.aligned
    have half := orderly.top.half
    exact ⟨by omega, by omega, by omega⟩

theorem SpaceInv.root_ne {processes : List Word} (inv : SpaceInv processes m)
    (process : m.cr3 ∈ processes) : m.root ≠ m.kernelRoot := by
  have apart := (List.nodup_cons.mp inv.distinct).1
  have member : m.root ∈ processes.map mmPhyToPage := List.mem_map_of_mem process
  intro same
  rw [same] at member
  exact apart member

theorem SpaceRun.spaceInv {boot : Machine} (start : BootSpace boot) {processes : List Word}
    (run : SpaceRun boot processes m) : SpaceInv processes m := by
  induction run with
  | boot => exact start.spaceInv
  | @load processes m cr3 _ member ih =>
      exact ⟨ih.orderly.writeCr3 (List.mem_map_of_mem member), ih.distinct, ih.address, member⟩
  | @create processes m m' pml4e _ result ih =>
      obtain ⟨frame, space⟩ := ih.orderly.envSetupVm result
      have kCr3 := space.kCr3
      have reached : m'.translate pml4e = some frame := by
        rw [translate_eq_walk]
        exact space.reached space.orderly.loaded
      have small := PhyAlloc.Available.small space.available
      have root : mmPhyToPage (m'.virtToPhy pml4e) = frame := by
        rw [virtToPhy_of_translate reached, mmPhyToPage_mmPageToPhy small]
      have fresh : frame ∉ (m.kCr3 :: processes).map mmPhyToPage := by
        intro isRoot
        apply not_isTable_of_available ih.orderly.spaces.tables space.available
        exact ⟨frame, [], isRoot, by simp, rfl⟩
      have roots : (fun r => r ∈ (m'.kCr3 :: m'.virtToPhy pml4e :: processes).map mmPhyToPage) =
          fun r => r = frame ∨ r ∈ (m.kCr3 :: processes).map mmPhyToPage := by
        funext r
        simp only [List.map_cons, List.mem_cons, root, kCr3]
        apply propext
        tauto
      refine ⟨?_, ?_, ?_, ?_⟩
      · rw [roots]
        exact space.orderly
      · simp only [List.map_cons, List.nodup_cons, List.mem_cons, root, kCr3, not_or] at fresh ⊢
        have older := ih.distinct
        simp only [List.map_cons, List.nodup_cons] at older
        exact ⟨⟨Ne.symm fresh.1, older.1⟩, fresh.2, older.2⟩
      · intro cr3 member
        simp only [List.mem_cons, kCr3] at member
        rcases member with isKernel | isNew | isOld
        · exact ih.address cr3 (List.mem_cons.mpr (.inl isKernel))
        · rw [isNew, root, virtToPhy_of_translate reached]
        · exact ih.address cr3 (List.mem_cons_of_mem _ isOld)
      · have loaded := ih.loaded
        simp only [List.mem_cons, kCr3, space.cr3] at loaded ⊢
        tauto
  | @pages processes m m' n flags retaddr _ flagBits result ih =>
      have extended := (ih.orderly.allocPages flagBits result).1
      have kCr3 := extended.kCr3
      have cr3 := extended.cr3
      refine ⟨?_, ?_, ?_, ?_⟩
      · rw [kCr3]
        exact extended.orderly
      · rw [kCr3]
        exact ih.distinct
      · rw [kCr3]
        exact ih.address
      · rw [kCr3, cr3]
        exact ih.loaded
  | @map processes m m' virt phy flags _ process user flagBits result ih =>
      obtain ⟨orderly, mapped⟩ := ih.orderly.mapUser flagBits (ih.root_ne process) result
      have kCr3 := mapped.kCr3
      have cr3 := mapped.cr3
      refine ⟨?_, ?_, ?_, ?_⟩
      · rw [kCr3]
        exact orderly
      · rw [kCr3]
        exact ih.distinct
      · rw [kCr3]
        exact ih.address
      · rw [kCr3, cr3]
        exact ih.loaded

theorem virtToPhy_writeCr3_congr {before after : Machine} {cr3 cr3' virt : Word}
    (same : walk entryFrame after.mem (mmPhyToPage cr3') (path virt) =
      walk entryFrame before.mem (mmPhyToPage cr3) (path virt)) :
    (after.writeCr3 cr3').virtToPhy virt = (before.writeCr3 cr3).virtToPhy virt := by
  apply virtToPhy_congr
  rw [translate_eq_walk, translate_eq_walk]
  exact same

/-- Address spaces are coherent above and isolated below: in every state of a run,
an address of the kernel half has one translation in all of them, and mapping a
user page in one process changes no translation in another or in the kernel's. -/
theorem SpaceRun.coherent_and_isolated {boot : Machine} (start : BootSpace boot)
    {processes : List Word} (run : SpaceRun boot processes m) :
    (m.kCr3 :: processes).Nodup ∧
    (∀ cr3 ∈ processes, ∀ virt, pml4eOffset virt = 511 →
      (m.writeCr3 cr3).virtToPhy virt = (m.writeCr3 m.kCr3).virtToPhy virt) ∧
    ∀ virt phy flags m', m.cr3 ∈ processes → pml4eOffset virt ≠ 511 → FlagBits flags →
      m.mapVirtToPhy virt phy flags = some m' →
      ∀ cr3 ∈ m.kCr3 :: processes, cr3 ≠ m.cr3 → ∀ other,
        (m'.writeCr3 cr3).virtToPhy other = (m.writeCr3 cr3).virtToPhy other := by
  have inv := run.spaceInv start
  have forest := inv.orderly.spaces.tables.forest
  refine ⟨inv.distinct.of_map, ?_, ?_⟩
  · intro cr3 process virt half
    apply virtToPhy_writeCr3_congr
    apply forest.walk_eq_of_shared
    · exact List.mem_map_of_mem (List.mem_cons_of_mem _ process)
    · exact inv.orderly.spaces.kernel
    · exact half
  · intro virt phy flags m' process user flagBits result cr3 member different other
    have mapped := (inv.orderly.mapUser flagBits (inv.root_ne process) result).2
    apply virtToPhy_writeCr3_congr
    apply mapped.walks (List.mem_map_of_mem member) (path_length other)
    rintro ⟨_, same | shared⟩
    · apply different
      rw [← inv.address cr3 member, same, ← inv.address m.cr3 inv.loaded]
      rfl
    · exact user shared

/-- A kernel's root in frame 1 with entry 511 leading to an empty table in frame 2;
frames 3 to 31 are available. -/
def bootExample : Machine where
  phy := ⟨fun group => if group = 0 then 7 else BitVec.allOnes 64, fun _ _ => 0, []⟩
  mem := fun page offset => if page = 1 ∧ offset = 511 then 0x2007 else 0
  cr3 := 0x1000
  kCr3 := 0x1000
  virtualTop := 0xFFFFFFFF80201000

theorem bootExample_bootSpace : BootSpace bootExample := by
  have zero : ∀ page offset, ¬ (page = 1 ∧ offset = 511) → bootExample.mem page offset = 0 :=
    fun _ _ elsewhere => if_neg elsewhere
  have entry : entryFrame (bootExample.mem 1 511) = some 2 := by decide
  have tables : ∀ {ρ : List (BitVec 9)} {table : Word},
      walk entryFrame bootExample.mem 1 ρ = some table →
      (ρ = [] ∧ table = 1) ∨ (ρ = [511] ∧ table = 2) := by
    intro ρ table found
    cases ρ with
    | nil => exact .inl ⟨rfl, (Option.some.inj found).symm⟩
    | cons i ρ =>
        rw [walk_cons] at found
        by_cases half : i = 511
        · subst half
          rw [entry, Option.bind_some] at found
          cases ρ with
          | nil => exact .inr ⟨rfl, (Option.some.inj found).symm⟩
          | cons j ρ =>
              rw [walk_cons, zero 2 j fun here => absurd here.1 (by decide), entryFrame_zero] at found
              exact absurd found (Option.some_ne_none table).symm
        · rw [zero 1 i fun here => half here.2, entryFrame_zero] at found
          exact absurd found (Option.some_ne_none table).symm
  refine ⟨⟨⟨?_, ?_⟩, ?_⟩, by decide, ?_, by decide, rfl, ?_, ?_⟩
  · rintro first second ρ ρ' table rfl rfl _ _ found found'
    rcases tables found with ⟨rfl, rfl⟩ | ⟨rfl, rfl⟩
    · rcases tables found' with ⟨rfl, _⟩ | ⟨_, impossible⟩
      · exact ⟨rfl, .inl rfl⟩
      · exact absurd impossible (by decide)
    · rcases tables found' with ⟨_, impossible⟩ | ⟨rfl, _⟩
      · exact absurd impossible (by decide)
      · exact ⟨rfl, .inl rfl⟩
  · rintro first second i rfl rfl _
    rfl
  · rintro table ⟨r, ρ, rfl, _, found⟩
    rcases tables found with ⟨_, rfl⟩ | ⟨_, rfl⟩
    · decide
    · decide
  · intro i user
    rw [zero _ i fun here => user here.2, entryFrame_zero]
  · intro page available offset
    have notRoot : page ≠ 1 := by
      rintro rfl
      exact absurd available (by decide)
    exact zero page offset fun here => notRoot here.1
  · refine ⟨by decide, by decide, ?_⟩
    have few : bootExample.phy.availableCount ≤ (Finset.range (bitmapGroups * pagesPerGroup)).card :=
      Finset.card_filter_le _ _
    rw [Finset.card_range] at few
    have top : bootExample.virtualTop.toNat = 0xFFFFFFFF80201000 := rfl
    simp only [bitmapGroups, pagesPerGroup, pageMax] at few
    omega

/-- The first process sees the kernel half as the kernel does. -/
theorem coherent_and_isolated_first_process :
    ∃ m pml4e, bootExample.envSetupVm = some (m, pml4e) ∧
      ∀ virt, pml4eOffset virt = 511 →
        (m.writeCr3 (m.virtToPhy pml4e)).virtToPhy virt = (m.writeCr3 m.kCr3).virtToPhy virt := by
  have orderly := bootExample_bootSpace.spaceInv.orderly
  obtain ⟨⟨m, pml4e⟩, result⟩ := Option.isSome_iff_exists.mp
    (orderly.envSetupVm_isSome (by decide +kernel))
  have run := SpaceRun.coherent_and_isolated bootExample_bootSpace (.create .boot result)
  exact ⟨m, pml4e, result, run.2.1 _ List.mem_cons_self⟩

end Machine

end Sbrocks.Mmu
