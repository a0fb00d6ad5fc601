import Sbrocks.Mmu.KernelPages
import Sbrocks.Mmu.SetupPaging

/-!
# The direct map

After `setup_paging` the kernel reaches every frame that the allocator can return at
`KADDR` of its address.  The loops come to their end as long as the allocator has a
frame for each table: three for the first page of a table, none for the others.
-/

namespace Sbrocks.Mmu

open Sbrocks.Radix

/-- `KADDR`. -/
def kaddr (paddr : Word) : Word := paddr + oneOnOneMapping

namespace Machine

variable {m m' : Machine} {r vaddr start phybase physfree : Word} {k n : Nat}

/-- The mappings that `setup_paging` makes: a page, and the address that it is mapped to. -/
inductive Mapping (phybase physfree : Word) : Word → Word → Prop
  | image (i : Nat) (below : i < imagePages phybase physfree) :
      Mapping phybase physfree (virtKernelBase + phybase + BitVec.ofNat 64 (4096 * i))
        (alignDown phybase + BitVec.ofNat 64 (4096 * i))
  | video : Mapping phybase physfree videoPage 0xB8000
  | window (i : Nat) (below : i < allPhyPages) :
      Mapping phybase physfree (oneOnOneMapping + BitVec.ofNat 64 (4096 * i))
        (BitVec.ofNat 64 (4096 * i))

/-- All of the first gigabyte is mapped, next to the image of the kernel and the video page. -/
structure DirectMap (phybase physfree : Word) (m : Machine) : Prop where
  loaded : m.cr3 = m.kCr3
  direct : ∀ a : Word, a.toNat < 0x40000000 → m.translate (kaddr a) = some (mmPhyToPage a)
  image : ∀ a : Word, phybase.toNat ≤ a.toNat → a.toNat < physfree.toNat →
    m.translate (virtKernelBase + a) = some (mmPhyToPage a)
  video : m.translate videoPage = some (mmPhyToPage 0xB8000)
  kept : ∀ page phy, Mapping phybase physfree page phy → m.translate page = some (mmPhyToPage phy)
  apart : ∀ page phy page' phy', Mapping phybase physfree page phy →
    Mapping phybase physfree page' phy' → path page = path page' → page = page' ∧ phy = phy'
  frames : ∀ (before after : PhyAlloc) (page offset : Word),
    before.mmPhyAllocPage = (after, some page) → offset.toNat < 4096 →
      m.translate (kaddr (mmPageToPhy page + offset)) = some page

/-- Two addresses of the kernel half in one page are translated alike. -/
theorem translate_samePage {first second : Word} (half : 2 ^ 64 - 2 ^ 39 ≤ first.toNat)
    (page : first.toNat / 4096 = second.toNat / 4096) : m.translate first = m.translate second := by
  have same : vpn first = vpn second := by
    rw [vpn_eq_iff_of_canonical (.inr (by omega)) (.inr (by omega))]
    exact page
  rw [translate_eq_walk, translate_eq_walk, (path_eq_iff first second).mpr same]

/-- The page of the direct map that holds an address. -/
theorem SetUp.direct (setUp : SetUp phybase physfree m) {a : Word} (below : a.toNat < 0x40000000) :
    m.translate (kaddr a) = some (mmPhyToPage a) := by
  have base : oneOnOneMapping.toNat = 0xFFFFFFFF00000000 := by decide
  have place : (kaddr a).toNat = a.toNat + 0xFFFFFFFF00000000 := by
    rw [kaddr, BitVec.toNat_add, base]
    omega
  have start : (oneOnOneMapping + BitVec.ofNat 64 (4096 * (a.toNat / 4096))).toNat =
      0xFFFFFFFF00000000 + 4096 * (a.toNat / 4096) := by
    rw [BitVec.toNat_add, BitVec.toNat_ofNat, base]
    omega
  have frame : BitVec.ofNat 64 (a.toNat / 4096) = mmPhyToPage a := by
    apply BitVec.eq_of_toNat_eq
    rw [mmPhyToPage_toNat, BitVec.toNat_ofNat]
    omega
  have page : (kaddr a).toNat / 4096 =
      (oneOnOneMapping + BitVec.ofNat 64 (4096 * (a.toNat / 4096))).toNat / 4096 := by
    rw [place, start]
    omega
  rw [translate_samePage (by omega) page,
    setUp.window (a.toNat / 4096) (by rw [allPhyPages_eq]; omega), frame]

/-- The page of the image that holds an address. -/
theorem SetUp.imageAt (setUp : SetUp phybase physfree m) (placed : Placed phybase physfree)
    {a : Word} (above : phybase.toNat ≤ a.toNat) (below : a.toNat < physfree.toNat) :
    m.translate (virtKernelBase + a) = some (mmPhyToPage a) := by
  have aligned := placed.aligned
  have room := placed.room
  have base := placed.base_toNat
  have count := placed.imagePages
  let i := (a.toNat - phybase.toNat) / 4096
  have inImage : i < Machine.imagePages phybase physfree := by omega
  have place : (virtKernelBase + a).toNat = 0xFFFFFFFF80000000 + a.toNat := by
    rw [BitVec.toNat_add]
    change (0xFFFFFFFF80000000 + a.toNat) % 2 ^ 64 = _
    omega
  have start : (virtKernelBase + phybase + BitVec.ofNat 64 (4096 * i)).toNat =
      0xFFFFFFFF80000000 + phybase.toNat + 4096 * i := by
    rw [BitVec.toNat_add, BitVec.toNat_ofNat, base]
    omega
  have frame : mmPhyToPage (alignDown phybase + BitVec.ofNat 64 (4096 * i)) = mmPhyToPage a := by
    apply BitVec.eq_of_toNat_eq
    rw [mmPhyToPage_toNat, mmPhyToPage_toNat, BitVec.toNat_add, BitVec.toNat_ofNat, alignDown_toNat]
    omega
  have page : (virtKernelBase + a).toNat / 4096 =
      (virtKernelBase + phybase + BitVec.ofNat 64 (4096 * i)).toNat / 4096 := by
    rw [place, start]
    omega
  rw [translate_samePage (by omega) page,
    setUp.image i inImage, frame]

/-- Where the mappings lie. -/
theorem Mapping.page {page phy : Word} (mapping : Mapping phybase physfree page phy) :
    SetupPage phybase physfree page := by
  cases mapping with
  | image i below => exact .inl ⟨i, below, rfl⟩
  | video => exact .inr (.inl rfl)
  | window i below => exact .inr (.inr ⟨i, below, rfl⟩)

theorem Placed.page (placed : Placed phybase physfree) {page : Word}
    (mapped : SetupPage phybase physfree page) :
    2 ^ 64 - 2 ^ 39 ≤ page.toNat ∧ page.toNat % 4096 = 0 := by
  have video : videoPage.toNat = 0xFFFFFFFF800B8000 := by decide
  rcases mapped with image | rfl | window
  · have bounds := placed.parts.1 image
    omega
  · omega
  · have bounds := placed.parts.2 window
    omega

/-- The address that a page is mapped to, by the part that the page lies in. -/
theorem Placed.mapping_toNat (placed : Placed phybase physfree) {page phy : Word}
    (mapping : Mapping phybase physfree page phy) :
    phy.toNat = if 0xFFFFFFFF80000000 ≤ page.toNat then page.toNat - 0xFFFFFFFF80000000
      else page.toNat - 0xFFFFFFFF00000000 := by
  have aligned := placed.aligned
  have base := placed.base_toNat
  have ordered := placed.ordered
  have room := placed.room
  have count := placed.imagePages
  cases mapping with
  | image i below =>
      have place : (virtKernelBase + phybase + BitVec.ofNat 64 (4096 * i)).toNat =
          0xFFFFFFFF80000000 + phybase.toNat + 4096 * i := by
        rw [BitVec.toNat_add, BitVec.toNat_ofNat, base]
        omega
      rw [place, if_pos (by omega), BitVec.toNat_add, BitVec.toNat_ofNat, alignDown_toNat]
      omega
  | video => decide
  | window i below =>
      rw [allPhyPages_eq] at below
      have window : oneOnOneMapping.toNat = 0xFFFFFFFF00000000 := by decide
      have place : (oneOnOneMapping + BitVec.ofNat 64 (4096 * i)).toNat =
          0xFFFFFFFF00000000 + 4096 * i := by
        rw [BitVec.toNat_add, BitVec.toNat_ofNat, window]
        omega
      rw [place, if_neg (by omega), BitVec.toNat_ofNat]
      omega

/-- A page is mapped once only. -/
theorem Placed.mapping_unique (placed : Placed phybase physfree) {page phy phy' : Word}
    (mapping : Mapping phybase physfree page phy) (mapping' : Mapping phybase physfree page phy') :
    phy = phy' := by
  apply BitVec.eq_of_toNat_eq
  rw [placed.mapping_toNat mapping, placed.mapping_toNat mapping']

/-- What `setup_paging` leaves behind is a direct map. -/
theorem SetUp.directMap (setUp : SetUp phybase physfree m) (placed : Placed phybase physfree) :
    DirectMap phybase physfree m where
  loaded := setUp.loaded
  direct _ below := setUp.direct below
  image _ above below := setUp.imageAt placed above below
  video := setUp.video
  kept page phy mapping := by
    cases mapping with
    | image i below => exact setUp.image i below
    | video => exact setUp.video
    | window i below =>
        rw [setUp.window i below, ← window_frame (allPhyPages_eq ▸ below)]
        exact congrArg (fun phy => some (mmPhyToPage phy)) (BitVec.zero_add _)
  apart page phy page' phy' mapping mapping' same := by
    have bounds := placed.page mapping.page
    have bounds' := placed.page mapping'.page
    have equal := path_inj bounds.2 bounds'.2 bounds.1 bounds'.1 same
    subst equal
    exact ⟨rfl, placed.mapping_unique mapping mapping'⟩
  frames before after page offset found inPage := by
    have below := (PhyAlloc.mmPhyAllocPage_eq_some found).below
    have limit : page.toNat < 32512 := below
    have place : (mmPageToPhy page + offset).toNat = page.toNat * 4096 + offset.toNat := by
      rw [BitVec.toNat_add, mmPageToPhy, BitVec.toNat_mul]
      change (page.toNat * 4096 % 2 ^ 64 + offset.toNat) % 2 ^ 64 = _
      omega
    rw [setUp.direct (by omega)]
    apply congrArg some
    apply BitVec.eq_of_toNat_eq
    rw [mmPhyToPage_toNat, place]
    omega

/-! ## The frames that it takes -/

theorem kernmemMapping_isSome (frames : m.phy.HasFrames (n + 3)) (virt pbase pml4e : Word) :
    ∃ m', m.kernmemMapping virt pbase pml4e = some m' ∧ m'.phy.HasFrames n := by
  unfold kernmemMapping
  rcases tableAt_isSome frames (mmPhyToPage pml4e) (pml4eOffset virt)
    (ptPresentFlag ||| ptWritableFlag) false with ⟨m₁, pdpetable, first, frames₁⟩
  rcases tableAt_isSome frames₁ pdpetable (pdpeOffset virt) (ptPresentFlag ||| ptWritableFlag) false
    with ⟨m₂, pdetable, second, frames₂⟩
  rcases tableAt_isSome frames₂ pdetable (pdeOffset virt) (ptPresentFlag ||| ptWritableFlag) false
    with ⟨m₃, pttable, third, frames₃⟩
  simp only [Option.bind_eq_bind, first, second, third, Option.bind_some]
  exact ⟨_, rfl, frames₃⟩

/-- A table that is there is taken as it is. -/
theorem tableAt_present {table next flags : Word} {offset : BitVec 9}
    (present : entryFrame (m.mem table offset) = some next) :
    m.tableAt table offset flags false = some (m, next) := by
  unfold entryFrame at present
  split at present
  · rename_i here
    cases present
    rw [tableAt, here]
    rfl
  · cases present

/-- Where the last table is there, no frame is taken. -/
theorem kernmemMapping_present {virt pbase pml4e pttable : Word}
    (present : walk entryFrame m.mem (mmPhyToPage pml4e) (tablePath virt) = some pttable) :
    ∃ m', m.kernmemMapping virt pbase pml4e = some m' ∧ m'.phy = m.phy := by
  simp only [tablePath, walk_cons, walk_nil] at present
  rcases Option.bind_eq_some_iff.mp present with ⟨pdpetable, first, rest₁⟩
  rcases Option.bind_eq_some_iff.mp rest₁ with ⟨pdetable, second, rest₂⟩
  rcases Option.bind_eq_some_iff.mp rest₂ with ⟨found, third, last⟩
  refine ⟨m.setEntry found (pteOffset virt) (pbase ||| (ptPresentFlag ||| ptWritableFlag)), ?_, rfl⟩
  simp only [kernmemMapping, Option.bind_eq_bind, tableAt_present first, tableAt_present second,
    tableAt_present third, Option.bind_some]

/-- How many of the pages of a range are the first ones of a table. -/
def tablesOf (vaddr : Word) (n : Nat) : Nat :=
  (vaddr.toNat / 4096 + n + 511) / 512 - (vaddr.toNat / 4096 + 511) / 512

/-- A page that is not the first one of a table has the table of the page before. -/
theorem tablePath_next (next : (vaddr + pageSize).toNat = vaddr.toNat + 4096)
    (inside : (vaddr.toNat / 4096 + 1) % 512 ≠ 0) :
    tablePath (vaddr + pageSize) = tablePath vaddr := by
  simp only [tablePath, List.cons.injEq, and_true, ← BitVec.toNat_inj, pml4eOffset_toNat,
    pdpeOffset_toNat, pdeOffset_toNat, next]
  omega

/-- After a page is mapped, the page after it has a table, unless a new one begins there. -/
theorem Building.begun (building : Building r m) (half : 2 ^ 64 - 2 ^ 39 ≤ vaddr.toNat)
    (next : (vaddr + pageSize).toNat = vaddr.toNat + 4096)
    (mapped : m.kernmemMapping vaddr start m.kCr3 = some m')
    (inside : (vaddr + pageSize).toNat / 4096 % 512 ≠ 0) :
    walk entryFrame m'.mem r (tablePath (vaddr + pageSize)) ≠ none := by
  rcases building.kernmemMapping (pml4eOffset_kernel half) mapped with ⟨_, _, _, hit, _⟩
  rw [next] at inside
  rw [tablePath_next next (by omega)]
  rw [path] at hit
  rcases exists_walk_of_append hit with ⟨pttable, reached, _⟩
  rw [reached]
  exact Option.some_ne_none _

/-- The loop of mappings takes at most three frames for each table. -/
theorem Building.mapPages_isSome (building : Building r m) (half : 2 ^ 64 - 2 ^ 39 ≤ vaddr.toNat)
    (room : vaddr.toNat + 4096 * n < 2 ^ 64)
    (begun : vaddr.toNat / 4096 % 512 ≠ 0 → n ≠ 0 → walk entryFrame m.mem r (tablePath vaddr) ≠ none)
    (frames : m.phy.HasFrames (k + 3 * tablesOf vaddr n)) :
    ∃ m', m.mapPages vaddr start n = some m' ∧ m'.phy.HasFrames k := by
  induction n generalizing m vaddr start with
  | zero =>
      rw [tablesOf, Nat.add_zero, Nat.sub_self] at frames
      exact ⟨m, rfl, frames⟩
  | succ n ih =>
      have next : (vaddr + pageSize).toNat = vaddr.toNat + 4096 := by
        rw [BitVec.toNat_add, pageSize_toNat]
        omega
      have first : ∃ m₁, m.kernmemMapping vaddr start m.kCr3 = some m₁ ∧
          m₁.phy.HasFrames (k + 3 * tablesOf (vaddr + pageSize) n) := by
        unfold tablesOf at frames ⊢
        rw [next]
        by_cases begins : vaddr.toNat / 4096 % 512 = 0
        · apply kernmemMapping_isSome
          refine frames.mono ?_
          omega
        · obtain ⟨pttable, present⟩ := Option.ne_none_iff_exists'.mp (begun begins (Nat.succ_ne_zero n))
          rcases @kernmemMapping_present m vaddr start m.kCr3 pttable
            (by rw [building.address]; exact present) with ⟨m₁, mapped, phy⟩
          refine ⟨m₁, mapped, ?_⟩
          rw [phy]
          refine frames.mono ?_
          omega
      rcases first with ⟨m₁, mapped, frames₁⟩
      have building₁ := (building.kernmemMapping (pml4eOffset_kernel half) mapped).1
      have rest : ∃ m', m₁.mapPages (vaddr + pageSize) (start + pageSize) n = some m' ∧
          m'.phy.HasFrames k :=
        ih building₁ (by omega) (by omega) (fun inside _ => building.begun half next mapped inside)
          frames₁
      rcases rest with ⟨m', rest, frames'⟩
      refine ⟨m', ?_, frames'⟩
      rw [Machine.mapPages, mapped]
      exact rest

/-- Three frames more when the first page need not be the first one of a table. -/
theorem Building.mapPages_isSome_anywhere (building : Building r m)
    (half : 2 ^ 64 - 2 ^ 39 ≤ vaddr.toNat) (room : vaddr.toNat + 4096 * n < 2 ^ 64)
    (frames : m.phy.HasFrames (k + 3 * (n / 512 + 2))) :
    ∃ m', m.mapPages vaddr start n = some m' ∧ m'.phy.HasFrames k := by
  cases n with
  | zero => exact ⟨m, rfl, frames.mono (Nat.le_add_right ..)⟩
  | succ n =>
      have next : (vaddr + pageSize).toNat = vaddr.toNat + 4096 := by
        rw [BitVec.toNat_add, pageSize_toNat]
        omega
      have enough : k + 3 * tablesOf (vaddr + pageSize) n + 3 ≤ k + 3 * ((n + 1) / 512 + 2) := by
        unfold tablesOf
        omega
      rcases kernmemMapping_isSome (frames.mono enough) vaddr start m.kCr3 with
        ⟨m₁, mapped, frames₁⟩
      have building₁ := (building.kernmemMapping (pml4eOffset_kernel half) mapped).1
      have rest : ∃ m', m₁.mapPages (vaddr + pageSize) (start + pageSize) n = some m' ∧
          m'.phy.HasFrames k :=
        building₁.mapPages_isSome (by omega) (by omega)
          (fun inside _ => building.begun half next mapped inside) frames₁
      rcases rest with ⟨m', rest, frames'⟩
      refine ⟨m', ?_, frames'⟩
      rw [Machine.mapPages, mapped]
      exact rest

/-- Frames that suffice for `setup_paging`. -/
def setupFrames (phybase physfree : Word) : Nat :=
  3 * 512 + 3 + 3 * (imagePages phybase physfree / 512 + 2) + 1

/-- `setup_paging` comes to its end if the allocator has enough frames. -/
theorem setupPaging_isSome (clean : m.CleanFrames) (placed : Placed phybase physfree)
    (frames : m.phy.HasFrames (setupFrames phybase physfree)) :
    ∃ m', m.setupPaging phybase physfree = some m' := by
  have base := placed.base_toNat
  have top := placed.imageEnd_toNat
  have bound := (imageEnd phybase physfree).isLt
  have window : oneOnOneMapping.toNat = 0xFFFFFFFF00000000 := by decide
  have begins : alignUp oneOnOneMapping = oneOnOneMapping := by decide
  have tables : tablesOf oneOnOneMapping allPhyPages = 512 := by
    rw [tablesOf, window, allPhyPages_eq]
  rcases mmPhyAllocPage_isSome frames with ⟨m₁, root, found, frames₁⟩
  have building := building_root clean found
  have image : ∃ m₂, Machine.mapPages { m₁ with kCr3 := mmPageToPhy root } (virtKernelBase + phybase)
      (alignDown phybase) (imagePages phybase physfree) = some m₂ ∧ m₂.phy.HasFrames (3 * 512 + 3) :=
    building.mapPages_isSome_anywhere (by omega) (by omega) frames₁
  rcases image with ⟨m₂, image, frames₂⟩
  have built := building.mapPages (by rw [base]; have := placed.aligned; omega) (by omega) (by omega)
    image
  rcases kernmemMapping_isSome frames₂ videoPage 0xB8000 m₂.kCr3 with ⟨m₃, video, frames₃⟩
  have building₃ := (built.building.kernmemMapping (by decide) video).1
  have last : ∃ m₄, m₃.mapPages oneOnOneMapping 0 allPhyPages = some m₄ ∧ m₄.phy.HasFrames 0 := by
    apply building₃.mapPages_isSome (by rw [window]; decide) (by rw [window, allPhyPages_eq]; decide)
    · intro inside
      rw [window] at inside
      exact absurd rfl inside
    · rw [tables, Nat.zero_add]
      exact frames₃
  rcases last with ⟨m₄, last, _⟩
  simp only [setupPaging, mapAllPhy, Option.bind_eq_bind, found, Option.bind_some, image, video, begins,
    last]
  exact ⟨_, rfl⟩

/-- The direct map covers all physical memory that the allocator hands out, and `setup_paging`
comes to its end if the allocator has enough frames. -/
theorem setupPaging_directMap (clean : m.CleanFrames) (aligned : phybase.toNat % 4096 = 0)
    (above : 0xB8000 < phybase.toNat) (ordered : phybase.toNat ≤ physfree.toNat)
    (below : physfree.toNat < 0x40000000) :
    (∀ m', m.setupPaging phybase physfree = some m' → DirectMap phybase physfree m') ∧
      (m.phy.HasFrames (setupFrames phybase physfree) →
        ∃ m', m.setupPaging phybase physfree = some m') := by
  have placed : Placed phybase physfree := ⟨aligned, by omega, ordered, by omega⟩
  exact ⟨fun m' result => (setupPaging_setUp clean placed result).directMap placed,
    setupPaging_isSome clean placed⟩

/-- A machine at boot, with all frames of all groups but the first one free and blank. -/
def blankMachine : Machine where
  phy :=
    { phyBitmap := fun group => if group = 0 then BitVec.allOnes 64 else 0
      refcount := fun _ _ => 0
      accesses := [] }
  mem _ _ := 0
  cr3 := 0
  kCr3 := 0
  virtualTop := 0

theorem blankMachine_hasFrames : blankMachine.phy.HasFrames 1549 := by
  apply PhyAlloc.hasFrames_of_groups (Function.update (fun _ => 32) 0 0)
  · intro g below
    by_cases first : g = 0
    · subst first
      rw [Function.update_self]
      rfl
    · have other : (BitVec.ofNat 64 g : Word) ≠ 0 := by
        intro zero
        have value := congrArg BitVec.toNat zero
        have bound : bitmapGroups < 2 ^ 64 := by decide
        rw [BitVec.toNat_ofNat, Nat.mod_eq_of_lt (Nat.lt_trans below bound)] at value
        exact first value
      rw [Function.update_of_ne first]
      change PhyAlloc.groupHas (if _ then _ else _) 32 = true
      rw [if_neg other]
      decide
  · have member : 0 ∈ Finset.range bitmapGroups := Finset.mem_range.mpr (by decide)
    rw [Finset.sum_update_of_mem member, ← Finset.erase_eq, Finset.sum_const,
      Finset.card_erase_of_mem member, Finset.card_range]
    decide

/-- A kernel of one page is mapped. -/
theorem setupPaging_directMap_onePage : ∃ m', blankMachine.setupPaging 0x200000 0x201000 = some m' ∧
    DirectMap 0x200000 0x201000 m' := by
  have clean : blankMachine.CleanFrames := fun _ _ _ => entryFrame_zero
  have frames : blankMachine.phy.HasFrames (setupFrames 0x200000 0x201000) :=
    blankMachine_hasFrames.mono (by decide)
  have spec := @setupPaging_directMap blankMachine 0x200000 0x201000 clean (by decide) (by decide)
    (by decide) (by decide)
  rcases spec.2 frames with ⟨m', result⟩
  exact ⟨m', result, spec.1 m' result⟩

end Machine

end Sbrocks.Mmu
