import Mathlib.Algebra.BigOperators.Group.Finset.Piecewise
import Sbrocks.Mmu.AddressSpaces

/-!
# Kernel pages

As long as the allocator has frames, a page can be mapped and the kernel's virtual
memory can grow.  A kernel page is mapped to a frame of its own, and every other page
keeps its translation.
-/

namespace Sbrocks.Mmu

open Sbrocks.Radix

namespace PhyAlloc

variable {phy after : PhyAlloc} {n : Nat}

/-- The allocator can return at least so many frames. -/
def HasFrames (phy : PhyAlloc) (n : Nat) : Prop := (phy.handedOut n).length = n

instance : Decidable (phy.HasFrames n) := inferInstanceAs (Decidable (_ = n))

theorem handedOut_length_le (phy : PhyAlloc) (n : Nat) : (phy.handedOut n).length ≤ n := by
  induction n generalizing phy with
  | zero => exact Nat.le_refl _
  | succ n ih =>
      unfold handedOut
      split
      · exact Nat.succ_le_succ (ih _)
      · exact Nat.zero_le _

theorem HasFrames.alloc (frames : phy.HasFrames (n + 1)) :
    ∃ after page, phy.mmPhyAllocPage = (after, some page) ∧ after.HasFrames n := by
  unfold HasFrames handedOut at frames
  split at frames
  · rename_i after page found
    exact ⟨after, page, found, Nat.succ.inj frames⟩
  · exact absurd frames (Nat.succ_ne_zero n).symm

theorem HasFrames.pred (frames : phy.HasFrames (n + 1)) : phy.HasFrames n := by
  induction n generalizing phy with
  | zero => rfl
  | succ n ih =>
      rcases frames.alloc with ⟨after, page, found, rest⟩
      have fewer := ih rest
      unfold HasFrames handedOut
      rw [found]
      exact congrArg Nat.succ fewer

theorem HasFrames.mono {k : Nat} (frames : phy.HasFrames n) (fewer : k ≤ n) : phy.HasFrames k := by
  induction n with
  | zero =>
      rw [Nat.le_zero.mp fewer]
      rfl
  | succ n ih =>
      rcases Nat.lt_or_eq_of_le fewer with below | rfl
      · exact ih frames.pred (Nat.le_of_lt_succ below)
      · exact frames

/-- A group of frames whose word has room for so many more frames. -/
def groupHas (group : Word) : Nat → Bool
  | 0 => true
  | n + 1 =>
      match freeSlot group with
      | none => false
      | some p => groupHas (group ||| intBit p) n

/-- The allocator finds a frame when some group has room. -/
theorem allocBelow_finds {groups : Nat} (few : groups ≤ bitmapGroups)
    (room : ∃ g < groups, freeSlot (phy.phyBitmap (BitVec.ofNat 64 g)) ≠ none) :
    ∃ after g p, g < groups ∧ freeSlot (phy.phyBitmap (BitVec.ofNat 64 g)) = some p ∧
      phy.allocBelow groups = (after, some (pageAt g p)) ∧
      after.phyBitmap = Function.update phy.phyBitmap (BitVec.ofNat 64 g)
        (phy.phyBitmap (BitVec.ofNat 64 g) ||| intBit p) := by
  induction groups generalizing phy with
  | zero =>
      rcases room with ⟨g, below, _⟩
      exact absurd below (Nat.not_lt_zero g)
  | succ groups ih =>
      unfold allocBelow
      dsimp only
      cases found : freeSlot (phy.phyBitmap (BitVec.ofNat 64 groups)) with
      | some p =>
          refine ⟨_, groups, p, Nat.lt_succ_self _, found, rfl, ?_⟩
          unfold incRefCount
          dsimp only
          split <;> rfl
      | none =>
          rcases room with ⟨g, below, free⟩
          have lower : g < groups := by
            rcases Nat.lt_or_eq_of_le (Nat.le_of_lt_succ below) with less | rfl
            · exact less
            · exact absurd found free
          rcases @ih (phy.touch (.bitmap (BitVec.ofNat 64 groups))) (Nat.le_of_succ_le few)
            ⟨g, lower, free⟩ with ⟨after, g', p, lower', found', result, bitmap⟩
          exact ⟨after, g', p, Nat.lt_succ_of_lt lower', found', result, bitmap⟩

/-- The groups have together at least as many frames as each of them has room for. -/
theorem hasFrames_of_groups {n : Nat} (room : Nat → Nat)
    (groups : ∀ g < bitmapGroups, groupHas (phy.phyBitmap (BitVec.ofNat 64 g)) (room g) = true)
    (enough : n ≤ ∑ g ∈ Finset.range bitmapGroups, room g) : phy.HasFrames n := by
  induction n generalizing phy room with
  | zero => rfl
  | succ n ih =>
      have some : ∃ g < bitmapGroups, freeSlot (phy.phyBitmap (BitVec.ofNat 64 g)) ≠ none := by
        have positive : ∑ g ∈ Finset.range bitmapGroups, room g ≠ 0 := by omega
        rcases Finset.exists_ne_zero_of_sum_ne_zero positive with ⟨g, inRange, nonzero⟩
        have below := Finset.mem_range.mp inRange
        refine ⟨g, below, fun none => ?_⟩
        have has := groups g below
        rw [← Nat.succ_pred_eq_of_ne_zero nonzero, groupHas, none] at has
        cases has
      rcases allocBelow_finds (Nat.le_refl _) some with ⟨after, g, p, below, found, result, bitmap⟩
      have rest : after.HasFrames n := by
        apply ih (Function.update room g (room g - 1))
        · intro other inRange
          rw [bitmap]
          by_cases same : other = g
          · subst same
            rw [Function.update_self, Function.update_self]
            cases count : room other with
            | zero => rfl
            | succ left =>
                have has := groups other inRange
                rw [count, groupHas, found] at has
                exact has
          · have apart : (BitVec.ofNat 64 other : Word) ≠ BitVec.ofNat 64 g := by
              intro equal
              have values := congrArg BitVec.toNat equal
              have bound : bitmapGroups < 2 ^ 64 := by decide
              rw [BitVec.toNat_ofNat, BitVec.toNat_ofNat, Nat.mod_eq_of_lt (Nat.lt_trans inRange bound),
                Nat.mod_eq_of_lt (Nat.lt_trans below bound)] at values
              exact same values
            rw [Function.update_of_ne apart, Function.update_of_ne same]
            exact groups other inRange
        · have member := Finset.mem_range.mpr below
          rw [Finset.sum_update_of_mem member, ← Finset.erase_eq]
          have total := Finset.add_sum_erase _ room member
          omega
      unfold HasFrames handedOut mmPhyAllocPage
      rw [result]
      exact congrArg Nat.succ rest

theorem hasFrames_of_groupHas {n : Nat} (room : groupHas (phy.phyBitmap 0) n = true) :
    phy.HasFrames n := by
  apply hasFrames_of_groups (Function.update (fun _ => 0) 0 n)
  · intro g below
    by_cases first : g = 0
    · subst first
      rw [Function.update_self]
      exact room
    · rw [Function.update_of_ne first]
      rfl
  · have member : 0 ∈ Finset.range bitmapGroups := Finset.mem_range.mpr (by decide)
    rw [Finset.sum_update_of_mem member]
    exact Nat.le_add_right ..

end PhyAlloc

namespace Machine

variable {m m' : Machine} {roots : Word → Prop} {n : Nat}

theorem mmPhyAllocPage_isSome (frames : m.phy.HasFrames (n + 1)) :
    ∃ m' page, m.mmPhyAllocPage = some (m', page) ∧ m'.phy.HasFrames n := by
  rcases frames.alloc with ⟨after, page, found, rest⟩
  refine ⟨{ m with phy := after }, page, ?_, rest⟩
  unfold mmPhyAllocPage
  rw [found]

theorem tableAt_isSome (frames : m.phy.HasFrames (n + 1)) (table : Word) (offset : BitVec 9)
    (flags : Word) (refresh : Bool) :
    ∃ m' next, m.tableAt table offset flags refresh = some (m', next) ∧ m'.phy.HasFrames n := by
  unfold tableAt
  split
  · rcases mmPhyAllocPage_isSome frames with ⟨m₁, page, found, rest⟩
    rw [found]
    exact ⟨_, _, rfl, rest⟩
  · refine ⟨_, _, rfl, ?_⟩
    cases refresh with
    | false => exact frames.pred
    | true => exact frames.pred

theorem mapVirtToPhy_isSome (frames : m.phy.HasFrames (n + 3)) (virt phy flags : Word) :
    ∃ m', m.mapVirtToPhy virt phy flags = some m' ∧ m'.phy.HasFrames n := by
  unfold mapVirtToPhy
  rcases tableAt_isSome frames m.root (pml4eOffset virt) flags false with
    ⟨m₁, pdpetable, first, frames₁⟩
  rcases tableAt_isSome frames₁ pdpetable (pdpeOffset virt) flags true with
    ⟨m₂, pdetable, second, frames₂⟩
  rcases tableAt_isSome frames₂ pdetable (pdeOffset virt) flags true with
    ⟨m₃, pttable, third, frames₃⟩
  simp only [Option.bind_eq_bind, first, second, third, Option.bind_some]
  exact ⟨_, rfl, frames₃⟩

/-! ## One kernel page -/

/-- What a new kernel page changes: it is mapped to a frame that was available, all
other pages are translated as before, and frames that hold no table keep their
content. -/
structure KernelPage (roots : Word → Prop) (frame : Word) (m m' : Machine) : Prop where
  page : TopPage roots frame m m'
  virtualTop : m'.virtualTop = m.virtualTop + pageSize
  walks : ∀ {other : Word} {ρ : List (BitVec 9)}, roots other → ρ.length = 4 →
    ρ ≠ path m.virtualTop → walk entryFrame m'.mem other ρ = walk entryFrame m.mem other ρ
  content : ∀ {other : Word}, ¬ IsTable entryFrame m'.mem roots 4 other → m'.mem other = m.mem other

/-- A frame mapped at the top of the kernel's memory is a kernel page. -/
theorem Orderly.kernelPage_of_mapped (orderly : Orderly roots m) {flags page : Word}
    (flagBits : FlagBits flags) (found : m.mmPhyAllocPage = some (m₁, page))
    (mapped : m₁.mapVirtToPhy m₁.virtualTop (mmPageToPhy page) flags = some m₂) :
    KernelPage roots page m (m₂.setCurrentVmTop (m₂.virtualTop + pageSize)) := by
  have alloc : Grown roots kernelHalf m.root [] m m₁ ∧ _ := Grown.alloc orderly.spaces.tables found
  rcases alloc with ⟨grown, available, _, mem⟩
  have root₁ : m₁.root = m.root := congrArg mmPhyToPage grown.cr3
  have mapping := (orderly.spaces.alloc found).mapVirtToPhy flagBits (root₁ ▸ orderly.loaded)
    (orderly.clean.alloc found) mapped
  have top : m₂.virtualTop = m.virtualTop := mapping.virtualTop.trans grown.virtualTop
  refine ⟨orderly.topPage flagBits found mapped, ?_, ?_, ?_⟩
  · rw [setCurrentVmTop_virtualTop, top]
  · intro other ρ isRoot full elsewhere
    rw [setCurrentVmTop_mem, mapping.walks isRoot full, grown.walks isRoot full]
    rintro ⟨same, _⟩
    exact elsewhere (same.trans (congrArg path grown.virtualTop))
  · intro other notTable
    rw [setCurrentVmTop_mem] at notTable ⊢
    rw [mapping.data notTable, mem]

theorem Orderly.kernelPage (orderly : Orderly roots m) {flags : Word} (flagBits : FlagBits flags)
    (frames : m.phy.HasFrames (n + 4)) : ∃ m' frame, m.allocPages 1 flags = some (m', m.virtualTop) ∧
      KernelPage roots frame m m' ∧ m'.phy.HasFrames n := by
  rcases mmPhyAllocPage_isSome (n := n + 3) frames with ⟨m₁, page, found, frames₁⟩
  rcases mapVirtToPhy_isSome frames₁ m₁.virtualTop (mmPageToPhy page) flags with
    ⟨m₂, mapped, frames₂⟩
  refine ⟨m₂.setCurrentVmTop (m₂.virtualTop + pageSize), page, ?_,
    orderly.kernelPage_of_mapped flagBits found mapped, ?_⟩
  · simp only [Machine.allocPages, Machine.allocTopLoop, Option.bind_eq_bind, found, mapped,
      Option.bind_some]
  · rwa [setCurrentVmTop_phy]

/-- What `alloc_pages` of one page returned is a kernel page. -/
theorem Orderly.kernelPage_of_result (orderly : Orderly roots m) {flags retaddr : Word}
    (flagBits : FlagBits flags) (result : m.allocPages 1 flags = some (m', retaddr)) :
    retaddr = m.virtualTop ∧ ∃ frame, KernelPage roots frame m m' := by
  simp only [Machine.allocPages, Machine.allocTopLoop, Option.bind_eq_bind] at result
  rcases Option.bind_eq_some_iff.mp result with ⟨m₃, loop, rest⟩
  rcases Option.bind_eq_some_iff.mp loop with ⟨⟨m₁, page⟩, found, loop⟩
  rcases Option.bind_eq_some_iff.mp loop with ⟨m₂, mapped, last⟩
  cases last
  cases rest
  exact ⟨rfl, page, orderly.kernelPage_of_mapped flagBits found mapped⟩

/-- The frames that are available hold zeros. -/
def Blank (m : Machine) : Prop := ∀ page, m.phy.Available page → ∀ offset, m.mem page offset = 0

theorem KernelPage.blank {frame : Word} (taken : KernelPage roots frame m m') (blank : m.Blank) :
    m'.Blank := by
  intro page available offset
  have notTable := not_isTable_of_available taken.page.extended.orderly.spaces.tables available
  rw [taken.content notTable]
  exact blank page (available.mono taken.page.extended.used) offset

theorem KernelPage.virtualTop_toNat {frame : Word} (taken : KernelPage roots frame m m')
    (orderly : Orderly roots m) : m'.virtualTop.toNat = m.virtualTop.toNat + 4096 := by
  have aligned := orderly.top.aligned
  have half := taken.page.extended.orderly.top.half
  have bound := m.virtualTop.isLt
  rw [taken.virtualTop, BitVec.toNat_add, pageSize_toNat] at half ⊢
  omega

/-- `kmalloc` of less than a page. -/
theorem Orderly.kmalloc (orderly : Orderly roots m) {size : Word} (one : pagesOf size = 1)
    (frames : m.phy.HasFrames (n + 4)) : ∃ m' frame, m.kmalloc size = some (m', m.virtualTop) ∧
      KernelPage roots frame m m' ∧ m'.phy.HasFrames n := by
  unfold Machine.kmalloc
  rw [one]
  exact orderly.kernelPage flagBits_kernel frames

/-- Several kernel pages. -/
theorem Orderly.kernelPages {flags : Word} (flagBits : FlagBits flags) (count : Nat)
    (orderly : Orderly roots m) (frames : m.phy.HasFrames (n + 4 * count)) :
    ∃ m', m.allocPages count flags = some (m', m.virtualTop) ∧ Orderly roots m' ∧
      m'.phy.HasFrames n := by
  have looped : ∃ m', m.allocTopLoop flags count = some m' ∧ Orderly roots m' ∧
      m'.phy.HasFrames n := by
    induction count generalizing m with
    | zero => exact ⟨m, rfl, orderly, frames⟩
    | succ count ih =>
        rcases orderly.kernelPage (n := n + 4 * count) flagBits frames with
          ⟨m₁, frame, allocated, taken, frames₁⟩
        have first : m.allocTopLoop flags 1 = some m₁ := by
          rcases Option.bind_eq_some_iff.mp allocated with ⟨m₂, looped, same⟩
          cases same
          exact looped
        have unfolded : m.allocTopLoop flags (count + 1) =
            (m.allocTopLoop flags 1).bind fun m => m.allocTopLoop flags count := by
          simp only [Machine.allocTopLoop, Option.bind_eq_bind, Option.bind_assoc, Option.bind_some]
        rcases ih taken.page.extended.orderly frames₁ with ⟨m', later, orderly', frames'⟩
        exact ⟨m', by rw [unfolded, first, Option.bind_some, later], orderly', frames'⟩
  rcases looped with ⟨m', result, orderly', frames'⟩
  refine ⟨m', ?_, orderly', frames'⟩
  unfold Machine.allocPages
  rw [result]
  rfl

/-- Setting up a process root changes one translation, that of the root's own page. -/
theorem Orderly.envSetupVm_eq (orderly : Orderly roots m) (frames : m.phy.HasFrames (n + 4)) :
    ∃ m', m.envSetupVm = some (m', m.virtualTop) ∧ m'.phy.HasFrames n ∧
      m'.virtualTop = m.virtualTop + pageSize ∧
      ∀ {other : Word} {ρ : List (BitVec 9)}, roots other → ρ.length = 4 →
        ρ ≠ path m.virtualTop → walk entryFrame m'.mem other ρ = walk entryFrame m.mem other ρ := by
  rcases orderly.kernelPage flagBits_user frames with ⟨m₁, frame, allocated, taken, frames₁⟩
  have orderly₁ := taken.page.extended.orderly
  have copies : m₁.copyEntries m.virtualTop 512 = some (m₁.copied m₁.kernelRoot frame 512) :=
    copyEntries_eq orderly.top.aligned (taken.page.hit orderly₁.loaded)
      (taken.page.unread orderly₁.loaded _) taken.page.kernelRoot_ne (Nat.le_refl 512)
  refine ⟨m₁.copied m₁.kernelRoot frame 512, ?_, frames₁, taken.virtualTop, ?_⟩
  · simp only [Machine.envSetupVm, Option.bind_eq_bind, allocated, Option.bind_some, copies]
  · intro other ρ isRoot full elsewhere
    rw [← taken.walks isRoot full elsewhere]
    apply Forest.walk_eq_of_agree _ isRoot (Nat.le_of_eq full)
    intro node i isTable
    have apart : node ≠ frame := by
      rintro rfl
      exact taken.page.notTable isTable
    simp [copied, apart]

/-- The machine that booted has frames left. -/
theorem bootExample_hasFrames : bootExample.phy.HasFrames 24 :=
  PhyAlloc.hasFrames_of_groupHas (by decide)

end Machine

end Sbrocks.Mmu
