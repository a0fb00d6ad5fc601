import Sbrocks.Mmu.AddressSpaces

/-!
# The kernel's own page table

`setup_paging` maps the image of the kernel, the video page and the first gigabyte of
physical memory, and sets the top of the kernel's virtual memory one page above the image.
-/

namespace Sbrocks.Mmu

open Sbrocks.Radix

/-- `ONE_ON_ONE_MAPPING`. -/
def oneOnOneMapping : Word := 0xFFFFFFFF00000000

/-- The virtual address of the video page. -/
def videoPage : Word := 0xFFFFFFFF800B8000

namespace Machine

/-- The loops around `kernmem_mapping`. -/
def mapPages (m : Machine) (vaddr start : Word) : Nat → Option Machine
  | 0 => some m
  | n + 1 => do
      let m ← m.kernmemMapping vaddr start m.kCr3
      m.mapPages (vaddr + pageSize) (start + pageSize) n

/-- The pages that `map_all_phy` maps. -/
def allPhyPages : Nat := ((alignDown 0x40000000 - 0) / pageSize).toNat

/-- `map_all_phy`. -/
def mapAllPhy (m : Machine) : Option Machine :=
  m.mapPages (alignUp oneOnOneMapping) 0 allPhyPages

/-- The pages of the kernel's image. -/
def imagePages (phybase physfree : Word) : Nat := pagesOf (alignUp physfree - alignDown phybase)

/-- The address after the kernel's image. -/
def imageEnd (phybase physfree : Word) : Word :=
  virtKernelBase + phybase + BitVec.ofNat 64 (4096 * imagePages phybase physfree)

/-- `setup_paging`. -/
def setupPaging (m : Machine) (phybase physfree : Word) : Option Machine := do
  let (m, phyPage) ← m.mmPhyAllocPage
  let m := { m with kCr3 := mmPageToPhy phyPage }
  let m ← m.mapPages (virtKernelBase + phybase) (alignDown phybase) (imagePages phybase physfree)
  let m ← m.kernmemMapping videoPage 0xB8000 m.kCr3
  let m ← m.mapAllPhy
  let m := m.setCurrentVmTop (imageEnd phybase physfree + pageSize)
  some (m.writeCr3 m.kCr3)

variable {m m' : Machine} {r vaddr start : Word} {n : Nat}

/-- The pages of a range of virtual addresses. -/
def RangePage (vaddr : Word) (n : Nat) (addr : Word) : Prop :=
  ∃ i < n, addr = vaddr + BitVec.ofNat 64 (4096 * i)

/-- A table of the kernel under construction: its entries all stand in the kernel half. -/
structure Building (r : Word) (m : Machine) : Prop where
  tables : Tables m (fun other => other = r) (fun _ => False)
  clean : m.CleanFrames
  kernelOnly : ∀ i, i ≠ 511 → entryFrame (m.mem r i) = none
  address : mmPhyToPage m.kCr3 = r

/-- One page more of the kernel half. -/
theorem Building.kernmemMapping {pbase : Word} (building : Building r m)
    (kernel : pml4eOffset vaddr = 511) (result : m.kernmemMapping vaddr pbase m.kCr3 = some m') :
    Building r m' ∧ m'.kCr3 = m.kCr3 ∧ entryFrame (m'.mem r 511) ≠ none ∧
      walk entryFrame m'.mem r (path vaddr) = some (mmPhyToPage pbase) ∧
      ∀ ρ, ρ.length = 4 → ρ ≠ path vaddr → walk entryFrame m'.mem r ρ = walk entryFrame m.mem r ρ := by
  have mapped := kernmemMapping_mapped building.tables building.address (fun held => held.elim)
    (building.clean.cleanNext _) result
  rw [building.address] at mapped
  have hit := mapped.hit rfl (.inl rfl)
  have entry : ∀ (after : Machine) (i : BitVec 9), walk entryFrame after.mem r [i] =
      entryFrame (after.mem r i) := fun after i => by simp [walk_cons]
  refine ⟨⟨mapped.tables, building.clean.mapped mapped, ?_, mapped.kCr3 ▸ building.address⟩,
    mapped.kCr3, ?_, hit, fun ρ full elsewhere => mapped.walks rfl full fun same => elsewhere same.1⟩
  · intro i user
    by_contra present
    obtain ⟨table, found⟩ := Option.ne_none_iff_exists'.mp present
    rcases mapped.short rfl (by simp) ((entry m' i).trans found) with older | ⟨onPath, _⟩
    · rw [entry m i, building.kernelOnly i user] at older
      cases older
    · have index : i = pml4eOffset vaddr := by
        simpa [tablePath] using onPath
      exact user (index.trans kernel)
  · intro absent
    rw [path, tablePath, kernel, List.cons_append, walk_cons, absent] at hit
    cases hit

theorem RangePage.toNat {addr : Word} (page : RangePage vaddr n addr)
    (room : vaddr.toNat + 4096 * n ≤ 2 ^ 64) :
    ∃ i < n, addr.toNat = vaddr.toNat + 4096 * i := by
  rcases page with ⟨i, below, rfl⟩
  refine ⟨i, below, ?_⟩
  rw [BitVec.toNat_add, BitVec.toNat_ofNat]
  omega

/-- Addresses of the kernel half that begin different pages take different paths. -/
theorem path_inj {first second : Word} (aligned : first.toNat % 4096 = 0)
    (aligned' : second.toNat % 4096 = 0) (half : 2 ^ 64 - 2 ^ 39 ≤ first.toNat)
    (half' : 2 ^ 64 - 2 ^ 39 ≤ second.toNat) (same : path first = path second) :
    first = second := by
  have pages := (vpn_eq_iff_of_canonical (Or.inr (by omega)) (Or.inr (by omega))).mp
    ((path_eq_iff first second).mp same)
  apply BitVec.eq_of_toNat_eq
  omega

theorem path_ne {first second : Word} (aligned : first.toNat % 4096 = 0)
    (aligned' : second.toNat % 4096 = 0) (half : 2 ^ 64 - 2 ^ 39 ≤ first.toNat)
    (less : first.toNat < second.toNat) : path first ≠ path second := by
  intro same
  have half' : 2 ^ 64 - 2 ^ 39 ≤ second.toNat := Nat.le_of_lt (Nat.lt_of_le_of_lt half less)
  rw [path_inj aligned aligned' half half' same] at less
  exact absurd less (Nat.lt_irrefl _)

theorem pml4eOffset_kernel {addr : Word} (half : 2 ^ 64 - 2 ^ 39 ≤ addr.toNat) :
    pml4eOffset addr = 511 := by
  have bound := addr.isLt
  apply BitVec.eq_of_toNat_eq
  rw [pml4eOffset_toNat]
  change addr.toNat / 2 ^ 39 % 512 = 511
  omega

/-- The address of a later page of a range. -/
theorem rangePage_succ (vaddr : Word) (i : Nat) :
    vaddr + pageSize + BitVec.ofNat 64 (4096 * i) = vaddr + BitVec.ofNat 64 (4096 * (i + 1)) := by
  rw [BitVec.add_assoc, show (pageSize : Word) = BitVec.ofNat 64 4096 from rfl,
    ← BitVec.ofNat_add, show 4096 + 4096 * i = 4096 * (i + 1) by omega]

theorem rangePage_zero (vaddr : Word) : vaddr + BitVec.ofNat 64 (4096 * 0) = vaddr := by simp

/-- What a loop of mappings leaves behind. -/
structure Built (r vaddr start : Word) (n : Nat) (m m' : Machine) : Prop where
  building : Building r m'
  kCr3 : m'.kCr3 = m.kCr3
  entry : entryFrame (m.mem r 511) ≠ none → entryFrame (m'.mem r 511) ≠ none
  hit : ∀ i < n, walk entryFrame m'.mem r (path (vaddr + BitVec.ofNat 64 (4096 * i))) =
    some (mmPhyToPage (start + BitVec.ofNat 64 (4096 * i)))
  walks : ∀ ρ, ρ.length = 4 → (∀ addr, RangePage vaddr n addr → ρ ≠ path addr) →
    walk entryFrame m'.mem r ρ = walk entryFrame m.mem r ρ

theorem Building.mapPages (building : Building r m) (aligned : vaddr.toNat % 4096 = 0)
    (half : 2 ^ 64 - 2 ^ 39 ≤ vaddr.toNat) (room : vaddr.toNat + 4096 * n < 2 ^ 64)
    (result : m.mapPages vaddr start n = some m') : Built r vaddr start n m m' := by
  induction n generalizing m vaddr start with
  | zero =>
      cases result
      exact ⟨building, rfl, id, fun _ below => absurd below (Nat.not_lt_zero _), fun _ _ _ => rfl⟩
  | succ n ih =>
      have next : (vaddr + pageSize).toNat = vaddr.toNat + 4096 := by
        rw [BitVec.toNat_add, pageSize_toNat]
        omega
      simp only [Machine.mapPages, Option.bind_eq_bind] at result
      rcases Option.bind_eq_some_iff.mp result with ⟨m₁, first, rest⟩
      rcases building.kernmemMapping (pml4eOffset_kernel half) first with
        ⟨building₁, kCr3₁, entry₁, hit₁, walks₁⟩
      have built := ih building₁ (by omega) (by omega) (by omega) rest
      have member : ∀ {addr}, RangePage (vaddr + pageSize) n addr → RangePage vaddr (n + 1) addr := by
        rintro addr ⟨i, below, rfl⟩
        exact ⟨i + 1, Nat.succ_lt_succ below, rangePage_succ vaddr i⟩
      have zeroth : RangePage vaddr (n + 1) vaddr := ⟨0, n.succ_pos, (rangePage_zero vaddr).symm⟩
      refine ⟨built.building, built.kCr3.trans kCr3₁, fun _ => built.entry entry₁, ?_, ?_⟩
      · intro i below
        cases i with
        | zero =>
            rw [rangePage_zero, rangePage_zero, built.walks _ (path_length vaddr)]
            · exact hit₁
            · intro addr page same
              rcases page.toNat (by omega) with ⟨i, _, value⟩
              have equal := congrArg BitVec.toNat (path_inj aligned (by omega) half (by omega) same)
              omega
        | succ i =>
            rw [← rangePage_succ, ← rangePage_succ]
            exact built.hit i (Nat.lt_of_succ_lt_succ below)
      · intro ρ full elsewhere
        rw [built.walks ρ full fun addr page => elsewhere addr (member page)]
        exact walks₁ ρ full (elsewhere vaddr zeroth)

/-- Where the kernel is loaded: on a page boundary above the video page, with its end and
one more page below the end of the addresses. -/
structure Placed (phybase physfree : Word) : Prop where
  aligned : phybase.toNat % 4096 = 0
  above : 0xB9000 ≤ phybase.toNat
  ordered : phybase.toNat ≤ physfree.toNat
  room : physfree.toNat + 8192 ≤ 2 ^ 31

variable {phybase physfree : Word}

theorem Placed.imagePages (placed : Placed phybase physfree) :
    imagePages phybase physfree = (physfree.toNat + 4095) / 4096 - phybase.toNat / 4096 := by
  have aligned := placed.aligned
  have ordered := placed.ordered
  have room := placed.room
  have up := alignUp_toNat (x := physfree) (by omega)
  have size : (alignUp physfree - alignDown phybase).toNat =
      (physfree.toNat + 4095) / 4096 * 4096 - phybase.toNat := by
    rw [BitVec.toNat_sub, up, alignDown_toNat]
    omega
  have rest : ((alignUp physfree - alignDown phybase) % 4096).toNat = 0 := by
    rw [BitVec.toNat_umod, size]
    change _ % 4096 = 0
    omega
  unfold Machine.imagePages pagesOf
  rw [if_neg (not_not_intro (BitVec.eq_of_toNat_eq rest)), BitVec.toNat_udiv, size]
  change (_ - _) / 4096 + 0 = _
  omega

theorem Placed.base_toNat (placed : Placed phybase physfree) :
    (virtKernelBase + phybase).toNat = 0xFFFFFFFF80000000 + phybase.toNat := by
  have ordered := placed.ordered
  have room := placed.room
  rw [BitVec.toNat_add]
  change (0xFFFFFFFF80000000 + phybase.toNat) % 2 ^ 64 = _
  omega

theorem Placed.imageEnd_toNat (placed : Placed phybase physfree) :
    (imageEnd phybase physfree).toNat =
      (virtKernelBase + phybase).toNat + 4096 * Machine.imagePages phybase physfree := by
  have ordered := placed.ordered
  have room := placed.room
  rw [imageEnd, BitVec.toNat_add, BitVec.toNat_ofNat, placed.base_toNat, placed.imagePages]
  omega

/-- The pages of the kernel's image, of the video memory and of the one-to-one window. -/
def SetupPage (phybase physfree addr : Word) : Prop :=
  RangePage (virtKernelBase + phybase) (Machine.imagePages phybase physfree) addr ∨
    addr = videoPage ∨ RangePage oneOnOneMapping allPhyPages addr

/-- What `setup_paging` leaves behind. -/
structure SetUp (phybase physfree : Word) (m : Machine) : Prop where
  spaces : Spaces (fun r => r = m.kernelRoot) m
  loaded : m.cr3 = m.kCr3
  clean : m.CleanFrames
  virtualTop : m.virtualTop = imageEnd phybase physfree + pageSize
  image : ∀ i < Machine.imagePages phybase physfree,
    m.translate (virtKernelBase + phybase + BitVec.ofNat 64 (4096 * i)) =
      some (mmPhyToPage (alignDown phybase + BitVec.ofNat 64 (4096 * i)))
  video : m.translate videoPage = some 0xB8
  window : ∀ i < allPhyPages, m.translate (oneOnOneMapping + BitVec.ofNat 64 (4096 * i)) =
    some (BitVec.ofNat 64 i)
  only : ∀ addr, m.translate addr ≠ none → ∃ page, SetupPage phybase physfree page ∧
    path addr = path page

theorem allPhyPages_eq : allPhyPages = 262144 := by decide

/-- The window shows each frame at its own place. -/
theorem window_frame {i : Nat} (below : i < 262144) :
    mmPhyToPage (0 + BitVec.ofNat 64 (4096 * i)) = BitVec.ofNat 64 i := by
  refine (congrArg mmPhyToPage (BitVec.zero_add _)).trans ?_
  apply BitVec.eq_of_toNat_eq
  rw [mmPhyToPage_toNat, BitVec.toNat_ofNat, BitVec.toNat_ofNat]
  omega

/-- The three parts lie apart. -/
theorem Placed.parts (placed : Placed phybase physfree) {addr : Word} :
    (RangePage (virtKernelBase + phybase) (Machine.imagePages phybase physfree) addr →
      videoPage.toNat < addr.toNat ∧ addr.toNat % 4096 = 0) ∧
    (RangePage oneOnOneMapping allPhyPages addr →
      2 ^ 64 - 2 ^ 39 ≤ addr.toNat ∧ addr.toNat < videoPage.toNat ∧ addr.toNat % 4096 = 0) := by
  have video : videoPage.toNat = 0xFFFFFFFF800B8000 := by decide
  have window : oneOnOneMapping.toNat = 0xFFFFFFFF00000000 := by decide
  have above := placed.above
  have aligned := placed.aligned
  have ordered := placed.ordered
  have room := placed.room
  have base := placed.base_toNat
  have count := placed.imagePages
  constructor
  · intro page
    rcases page.toNat (by omega) with ⟨i, below, value⟩
    omega
  · intro page
    rw [allPhyPages_eq] at page
    rcases page.toNat (by omega) with ⟨i, below, value⟩
    omega

/-- A root without entries. -/
theorem building_root {root : Word} (clean : m.CleanFrames)
    (found : m.mmPhyAllocPage = some (m', root)) :
    Building root { m' with kCr3 := mmPageToPhy root } := by
  have cleared := clean.alloc found
  rcases mmPhyAllocPage_eq_some found with ⟨phy, scan, rfl⟩
  have allocated := PhyAlloc.mmPhyAllocPage_eq_some scan
  have empty : ∀ i, entryFrame (m.mem root i) = none := clean root allocated.available
  exact ⟨tables_of_empty empty allocated.isUsed, cleared, fun i _ => empty i,
    mmPhyToPage_mmPageToPhy (PhyAlloc.Available.small allocated.available)⟩

/-- The specification of `setup_paging`. -/
theorem setupPaging_setUp (clean : m.CleanFrames) (placed : Placed phybase physfree)
    (result : m.setupPaging phybase physfree = some m') : SetUp phybase physfree m' := by
  simp only [setupPaging, mapAllPhy, Option.bind_eq_bind] at result
  rcases Option.bind_eq_some_iff.mp result with ⟨⟨m₁, root⟩, found, rest₁⟩
  rcases Option.bind_eq_some_iff.mp rest₁ with ⟨m₂, image, rest₂⟩
  rcases Option.bind_eq_some_iff.mp rest₂ with ⟨m₃, video, rest₃⟩
  rcases Option.bind_eq_some_iff.mp rest₃ with ⟨m₄, window, last⟩
  cases last
  clear result rest₁ rest₂ rest₃
  rcases mmPhyAllocPage_eq_some found with ⟨phy, scan, rfl⟩
  rw [show alignUp oneOnOneMapping = oneOnOneMapping by decide] at window
  have base := placed.base_toNat
  have aligned := placed.aligned
  have above := placed.above
  have room := placed.imageEnd_toNat
  have parts := fun addr : Word => @Placed.parts _ _ placed addr
  have half : 2 ^ 64 - 2 ^ 39 ≤ videoPage.toNat := by decide
  have page : videoPage.toNat % 4096 = 0 := by decide
  have begun := building_root clean found
  have empty : ∀ ρ, ρ.length = 4 → walk entryFrame m.mem root ρ = none := by
    intro ρ full
    cases ρ with
    | nil => cases full
    | cons i ρ =>
        have blank := clean root (PhyAlloc.mmPhyAllocPage_eq_some scan).available i
        rw [walk_cons, blank, Option.bind_none]
  have first := begun.mapPages (by omega) (by omega) ?_ image
  · rcases first.building.kernmemMapping (pml4eOffset_kernel half) video with
      ⟨building₃, kCr3₃, entry₃, hit₃, walks₃⟩
    have third := building₃.mapPages (by decide) (by decide) (by rw [allPhyPages_eq]; decide) window
    have kernelRoot : mmPhyToPage m₄.kCr3 = root := third.building.address
    generalize top : imageEnd phybase physfree + pageSize = vmTop
    have translated : ∀ addr, ((m₄.setCurrentVmTop vmTop).writeCr3
        (m₄.setCurrentVmTop vmTop).kCr3).translate addr =
          walk entryFrame m₄.mem root (path addr) := by
      intro addr
      rw [translate_eq_walk, ← kernelRoot]
      rfl
    -- the window lies below the video page, and the video page below the image
    have outside : ∀ addr, videoPage.toNat ≤ addr.toNat → addr.toNat % 4096 = 0 →
        walk entryFrame m₄.mem root (path addr) = walk entryFrame m₃.mem root (path addr) := by
      intro addr later start
      apply third.walks _ (path_length addr)
      intro other inWindow same
      have bounds := (parts other).2 inWindow
      exact path_ne bounds.2.2 start bounds.1 (Nat.lt_of_lt_of_le bounds.2.1 later) same.symm
    have imagePage : ∀ i < Machine.imagePages phybase physfree,
        RangePage (virtKernelBase + phybase) (Machine.imagePages phybase physfree)
          (virtKernelBase + phybase + BitVec.ofNat 64 (4096 * i)) := fun i below => ⟨i, below, rfl⟩
    have tables := third.building.tables
    refine ⟨⟨⟨⟨?_, ?_⟩, ?_⟩, rfl, ?_, ?_⟩, rfl, third.building.clean, top.symm, ?_, ?_, ?_, ?_⟩
    · intro other other' ρ ρ' table isRoot isRoot' bound bound' reached reached'
      have same := tables.forest.unique (isRoot.trans kernelRoot) (isRoot'.trans kernelRoot) bound
        bound' reached reached'
      exact ⟨same.1, .inl (isRoot.trans isRoot'.symm)⟩
    · rintro other other' i rfl rfl _
      rfl
    · rintro table ⟨other, ρ, isRoot, bound, reached⟩
      exact tables.inUse ⟨other, ρ, isRoot.trans kernelRoot, bound, reached⟩
    · show entryFrame (m₄.mem (mmPhyToPage m₄.kCr3) 511) ≠ none
      rw [kernelRoot]
      exact third.entry entry₃
    · intro i user
      show entryFrame (m₄.mem (mmPhyToPage m₄.kCr3) i) = none
      rw [kernelRoot]
      exact third.building.kernelOnly i user
    · intro i below
      have bounds := (parts _).1 (imagePage i below)
      rw [translated, outside _ (Nat.le_of_lt bounds.1) bounds.2, walks₃ _ (path_length _),
        first.hit i below]
      exact (path_ne page bounds.2 half bounds.1).symm
    · rw [translated, outside _ (Nat.le_refl _) page, hit₃]
      decide
    · intro i below
      rw [translated, third.hit i below, window_frame (allPhyPages_eq ▸ below)]
    · intro addr mapped
      by_contra none
      have elsewhere : ∀ other, SetupPage phybase physfree other → path addr ≠ path other :=
        fun other page same => none ⟨other, page, same⟩
      apply mapped
      rw [translated, third.walks _ (path_length addr) fun other inWindow =>
          elsewhere other (.inr (.inr inWindow)),
        walks₃ _ (path_length addr) (elsewhere videoPage (.inr (.inl rfl))),
        first.walks _ (path_length addr) fun other inImage => elsewhere other (.inl inImage)]
      exact empty (path addr) (path_length addr)
  · rw [← placed.imageEnd_toNat]
    exact (imageEnd phybase physfree).isLt

/-- The address spaces are in order, and the top of the kernel's virtual memory is where
`setup_paging` puts it. -/
structure Started (roots : Word → Prop) (phybase physfree : Word) (m : Machine) : Prop where
  spaces : Spaces roots m
  loaded : roots m.root
  placed : Placed phybase physfree
  virtualTop : m.virtualTop = imageEnd phybase physfree + pageSize

theorem SetUp.started (setUp : SetUp phybase physfree m) (placed : Placed phybase physfree) :
    Started (fun r => r = m.kernelRoot) phybase physfree m :=
  ⟨setUp.spaces, congrArg mmPhyToPage setUp.loaded, placed, setUp.virtualTop⟩

theorem Started.virtualTop_toNat {roots : Word → Prop} (started : Started roots phybase physfree m) :
    m.virtualTop.toNat = (imageEnd phybase physfree).toNat + 4096 := by
  have placed := started.placed
  have room := placed.room
  have ordered := placed.ordered
  have value := placed.imageEnd_toNat
  rw [placed.base_toNat, placed.imagePages] at value
  rw [started.virtualTop, BitVec.toNat_add, pageSize_toNat]
  omega

/-- All that `setup_paging` maps lies below the top. -/
theorem Started.above {roots : Word → Prop} (started : Started roots phybase physfree m)
    {addr : Word} (page : SetupPage phybase physfree addr) :
    addr.toNat + 4096 ≤ m.virtualTop.toNat := by
  have placed := started.placed
  have top := started.virtualTop_toNat
  have value := placed.imageEnd_toNat
  have bound := (imageEnd phybase physfree).isLt
  have base := placed.base_toNat
  have above := placed.above
  have video : videoPage.toNat = 0xFFFFFFFF800B8000 := by decide
  rcases page with image | rfl | window
  · rcases image.toNat (by omega) with ⟨i, below, here⟩
    omega
  · omega
  · have bounds := placed.parts.2 window
    omega

end Machine

end Sbrocks.Mmu
