import Sbrocks.Mmu.KernelPages

/-!
# Granted pages

A page is mapped at an address that the caller chooses, for the loaded root alone or,
in the shared part of the address spaces, for all of them.
-/

namespace Sbrocks.Mmu

open Sbrocks.Radix

namespace Machine

variable {m m' m₁ m₂ : Machine} {roots : Word → Prop} {virt flags page : Word} {n : Nat}

/-- What a page at a chosen address changes: it is mapped to a frame that was available,
all other pages are translated as before, and frames that hold no table keep their
content. -/
structure Granted (roots : Word → Prop) (virt frame : Word) (m m' : Machine) : Prop where
  orderly : Orderly roots m'
  available : m.phy.Available frame
  inUse : m'.phy.inUse frame = true
  notTable : ¬ IsTable entryFrame m'.mem roots 4 frame
  hit : ∀ {other : Word}, roots other → other = m.root ∨ pml4eOffset virt = 511 →
    walk entryFrame m'.mem other (path virt) = some frame
  walks : ∀ {other : Word} {ρ : List (BitVec 9)}, roots other → ρ.length = 4 →
    ¬ (ρ = path virt ∧ (other = m.root ∨ pml4eOffset virt = 511)) →
    walk entryFrame m'.mem other ρ = walk entryFrame m.mem other ρ
  data : ∀ {other : Word}, m.phy.inUse other = true → ¬ IsTable entryFrame m.mem roots 4 other →
    ¬ IsTable entryFrame m'.mem roots 4 other
  content : ∀ {other : Word}, ¬ IsTable entryFrame m'.mem roots 4 other → m'.mem other = m.mem other
  used : ∀ other, m.phy.inUse other = true → m'.phy.inUse other = true
  cr3 : m'.cr3 = m.cr3
  kCr3 : m'.kCr3 = m.kCr3
  virtualTop : m'.virtualTop = m.virtualTop

theorem Granted.root {frame : Word} (granted : Granted roots virt frame m m') : m'.root = m.root :=
  congrArg mmPhyToPage granted.cr3

theorem Granted.translate {frame : Word} (granted : Granted roots virt frame m m') :
    m'.translate virt = some frame := by
  rw [translate_eq_walk]
  exact granted.hit granted.orderly.loaded (.inl granted.root)

/-- A frame and a mapping for it. -/
theorem Orderly.granted (orderly : Orderly roots m) (flagBits : FlagBits flags)
    (process : m.root ≠ m.kernelRoot) (found : m.mmPhyAllocPage = some (m₁, page))
    (result : m₁.mapVirtToPhy virt (mmPageToPhy page) flags = some m₂) :
    Granted roots virt page m m₂ := by
  have alloc : Grown roots kernelHalf m.root [] m m₁ ∧ _ := Grown.alloc orderly.spaces.tables found
  obtain ⟨grown, available, inUse, mem⟩ := alloc
  have root₁ : m₁.root = m.root := congrArg mmPhyToPage grown.cr3
  have kernel₁ : m₁.kernelRoot = m.kernelRoot := congrArg mmPhyToPage grown.kCr3
  have fewer := PhyAlloc.availableCount_mono grown.used
  have room := orderly.top.room
  have top := congrArg BitVec.toNat grown.virtualTop
  have aligned := orderly.top.aligned
  have half := orderly.top.half
  have orderly₁ : Orderly roots m₁ :=
    ⟨orderly.spaces.alloc found, root₁ ▸ orderly.loaded, orderly.clean.alloc found,
      ⟨by omega, by omega, by omega⟩⟩
  have place : m₁.root ≠ m₁.kernelRoot := by rwa [root₁, kernel₁]
  rcases orderly₁.mapUser flagBits place result with ⟨orderly₂, mapped⟩
  rw [mmPhyToPage_mmPageToPhy (PhyAlloc.Available.small available), root₁] at mapped
  have notTable : ∀ {frame : Word}, m₁.phy.inUse frame = true →
      ¬ IsTable entryFrame m.mem roots 4 frame → ¬ IsTable entryFrame m₂.mem roots 4 frame := by
    intro frame used data isTable
    rcases mapped.fresh isTable with older | freeAgain
    · exact data (mem ▸ older)
    · exact absurd (freeAgain.free.symm.trans used) (by decide)
  exact {
    orderly := orderly₂
    available := available
    inUse := mapped.used page inUse
    notTable := notTable inUse (not_isTable_of_available orderly.spaces.tables available)
    hit := mapped.hit
    walks := by
      intro other ρ isRoot full elsewhere
      rw [← mem]
      exact mapped.walks isRoot full elsewhere
    data := fun used data => notTable (grown.used _ used) data
    content := fun data => (mapped.data data).trans (congrFun mem _)
    used := fun other used => mapped.used other (grown.used other used)
    cr3 := mapped.cr3.trans grown.cr3
    kCr3 := mapped.kCr3.trans grown.kCr3
    virtualTop := mapped.virtualTop.trans grown.virtualTop }

/-- `alloc_pages_at_virt` for one page. -/
theorem allocPagesAtVirt_page (result : m.allocPagesAtVirt virt pageSize flags = some m') :
    ∃ m₁ page, m.mmPhyAllocPage = some (m₁, page) ∧
      m₁.mapVirtToPhy virt (mmPageToPhy page) flags = some m' := by
  have one : pagesOf pageSize = 1 := by decide
  unfold allocPagesAtVirt at result
  rw [one] at result
  simp only [allocPagesLoop, Option.bind_eq_bind] at result
  rcases Option.bind_eq_some_iff.mp result with ⟨⟨m₁, page⟩, found, rest⟩
  rcases Option.bind_eq_some_iff.mp rest with ⟨m₂, mapped, last⟩
  cases last
  exact ⟨m₁, page, found, mapped⟩

theorem Orderly.allocPagesAtVirt (orderly : Orderly roots m) (flagBits : FlagBits flags)
    (process : m.root ≠ m.kernelRoot) (result : m.allocPagesAtVirt virt pageSize flags = some m') :
    ∃ page, Granted roots virt page m m' := by
  rcases allocPagesAtVirt_page result with ⟨m₁, page, found, mapped⟩
  exact ⟨page, orderly.granted flagBits process found mapped⟩

/-- With frames left, a page is granted. -/
theorem allocPagesAtVirt_isSome (frames : m.phy.HasFrames (n + 4)) (virt flags : Word) :
    ∃ m', m.allocPagesAtVirt virt pageSize flags = some m' ∧ m'.phy.HasFrames n := by
  have one : pagesOf pageSize = 1 := by decide
  rcases mmPhyAllocPage_isSome (n := n + 3) frames with ⟨m₁, page, found, frames₁⟩
  rcases mapVirtToPhy_isSome frames₁ virt (mmPageToPhy page) flags with ⟨m₂, mapped, frames₂⟩
  refine ⟨m₂, ?_, frames₂⟩
  unfold Machine.allocPagesAtVirt
  rw [one]
  simp only [allocPagesLoop, Option.bind_eq_bind, found, mapped, Option.bind_some]

end Machine

end Sbrocks.Mmu
