import Sbrocks.Process.Contents
import Sbrocks.Process.PageFault

/-!
# Copy on write

The handler answers a fault on a page that is marked copy-on-write with a page of its own:
it copies the frame and maps the copy in its place.  It then marks the new entry, which
takes the page no further than it was: `reset_cow_bit`, which would make it a normal page,
is called nowhere.
-/

namespace Sbrocks.Process

open Sbrocks.Mmu Sbrocks.Radix

/-- A page that is marked copy-on-write and not writable, on a frame with `n` references. -/
structure CopyOnWrite (m : Machine) (vaddr frame : Word) (n : Nat) : Prop where
  entry : ∃ table offset, m.getPteEntry vaddr = some (table, offset) ∧
    isCowSet (m.mem table offset) = true ∧ isWritablePage (m.mem table offset) = false ∧
    mmPhyToPage (m.mem table offset &&& 0x000FFFFFFFFFF000) = frame
  count : (m.phy.refcount (groupOf frame) (slotOf frame)).toNat = n
  positive : 1 ≤ n

/-- The page has become a normal page of its own: it is writable and not marked, and its
frame, which was available, holds what the old one held; the old frame has one reference
less and is free if that was the last. -/
structure PrivatePage (m m' : Machine) (vaddr frame : Word) (n : Nat) : Prop where
  entry : ∃ table offset, m'.getPteEntry vaddr = some (table, offset) ∧
    isWritablePage (m'.mem table offset) = true ∧ isCowSet (m'.mem table offset) = false
  copy : ∃ page, m.phy.Available page ∧ m'.virtToPhy vaddr = mmPageToPhy page ∧
    m'.mem page = m.mem frame
  count : (m'.phy.refcount (groupOf frame) (slotOf frame)).toNat = n - 1
  free : m'.phy.inUse frame = false ↔ n = 1

/-- An entry that is marked copy-on-write. -/
def Marked (m : Machine) (vaddr : Word) : Prop :=
  ∃ table offset, m.getPteEntry vaddr = some (table, offset) ∧ isCowSet (m.mem table offset) = true

theorem Marked.not_private {m m' : Machine} {vaddr frame : Word} {n : Nat} (marked : Marked m' vaddr) :
    ¬ PrivatePage m m' vaddr frame n := by
  intro own
  rcases own.entry with ⟨table, offset, found, _, unmarked⟩
  rcases marked with ⟨table', offset', found', marked⟩
  cases found.symm.trans found'
  rw [unmarked] at marked
  cases marked

theorem isCowSet_or (entry : Word) : isCowSet (entry ||| cowBit) = true := by
  have bit : ((entry ||| cowBit) &&& cowBit).getLsbD 62 = true := by
    rw [BitVec.getLsbD_and, BitVec.getLsbD_or]
    simp [cowBit]
  unfold isCowSet
  rw [bne_iff_ne]
  intro zero
  rw [zero] at bit
  simp at bit

theorem isPresent_or_cowBit {entry : Word} (present : isPresent entry = true) :
    isPresent (entry ||| cowBit) = true := by
  rw [isPresent_eq_getLsbD] at present ⊢
  rw [BitVec.getLsbD_or, present, Bool.true_or]

theorem flagBits_userFlags : FlagBits userFlags := ⟨by decide, by decide⟩

theorem path_alignDown_add (virt : Word) {i : Nat} (below : i < 4096) :
    path (alignDown virt + BitVec.ofNat 64 i) = path virt := by
  have aligned : (alignDown virt).toNat % 4096 = 0 := by
    rw [alignDown_toNat]
    omega
  rw [path_eq_iff, vpn_add_ofNat aligned below, ← BitVec.toNat_inj, vpn_toNat, vpn_toNat,
    alignDown_toNat]
  omega

theorem path_alignDown (virt : Word) : path (alignDown virt) = path virt := by
  have first := path_alignDown_add virt (i := 0) (by decide)
  rwa [BitVec.add_zero] at first

namespace Kernel

variable {fault : Fault} {k : Kernel} {roots : Word → Prop} {n : Nat} {places : Nat → Place}

/-! ## The copy -/

theorem loadByte_mapped {virt : Word} (canonical : canonicalAddr virt = true)
    (mapped : k.m.translate virt ≠ none) :
    ∃ value, k.loadByte fault virt = .next (k, value) := by
  rcases Option.ne_none_iff_exists'.mp mapped with ⟨frame, found⟩
  have reached : k.m.place virt = some (frame, virt.setWidth 12) := by
    rw [Machine.place, found]
    rfl
  exact ⟨_, loadByte_eq canonical reached⟩

variable (fault) in
/-- Copying from mapped pages to a span only changes the span. -/
theorem memcpy_wrote {s1 s2 : Word} (target : Span roots k.m s1 n places) (loaded : roots k.m.root)
    (canonical : ∀ i < n, canonicalAddr (s2 + BitVec.ofNat 64 i) = true)
    (mapped : ∀ i < n, k.m.translate (s2 + BitVec.ofNat 64 i) ≠ none) :
    ∃ m', k.memcpy fault s1 s2 n = .next (k.setMachine m') ∧
      Wrote roots k.m m' fun place => ∃ i < n, place = places i := by
  induction n generalizing k s1 s2 places with
  | zero => exact ⟨k.m, rfl, .refl _⟩
  | succ n ih =>
      have canonical₀ := canonical 0 (Nat.succ_pos n)
      have mapped₀ := mapped 0 (Nat.succ_pos n)
      rw [BitVec.add_zero] at canonical₀ mapped₀
      rcases loadByte_mapped canonical₀ mapped₀ with ⟨value, loads⟩
      have wrote₁ : Wrote roots k.m (k.m.setByte (places 0) value)
          fun place => ∃ i < n + 1, place = places i :=
        .setByte (target.data 0 (Nat.succ_pos n)) ⟨0, Nat.succ_pos n, rfl⟩ value
      have next : ∀ i, s2 + 1 + BitVec.ofNat 64 i = s2 + BitVec.ofNat 64 (i + 1) := fun i => by
        rw [show s2 + 1 = s2 + BitVec.ofNat 64 1 from rfl, add_ofNat, Nat.add_comm]
      have copied := ih (k := k.setMachine (k.m.setByte (places 0) value))
        (target.wrote loaded wrote₁).tail loaded
        (fun i below => by
          rw [next]
          exact canonical _ (Nat.succ_lt_succ below))
        fun i below => by
          rw [next]
          show (k.m.setByte (places 0) value).translate _ ≠ none
          rw [wrote₁.translate loaded]
          exact mapped _ (Nat.succ_lt_succ below)
      rcases copied with ⟨m', copies, wrote₂⟩
      refine ⟨m', ?_, ?_⟩
      · unfold memcpy
        rw [loads]
        dsimp only [Flow.next_bind]
        rw [storeByte_eq target.firstCanonical target.first]
        exact copies
      · apply wrote₁.trans
        apply wrote₂.mono
        rintro place ⟨i, below, rfl⟩
        exact ⟨i + 1, Nat.succ_lt_succ below, rfl⟩

/-- An address of which the page is canonical. -/
theorem canonicalAddr_page {vaddr : Word} (canonical : canonicalAddr (alignDown vaddr) = true) {i : Nat}
    (below : i < 4096) : canonicalAddr (alignDown vaddr + BitVec.ofNat 64 i) = true := by
  have aligned : (alignDown vaddr).toNat % 4096 = 0 := by
    rw [alignDown_toNat]
    omega
  rw [canonicalAddr_iff] at canonical ⊢
  unfold Canonical at canonical ⊢
  rw [add_ofNat_toNat aligned below]
  omega

/-- A new kernel page leaves every page mapped. -/
theorem translate_kernelPage {m m' : Machine} {frame virt : Word}
    (taken : Machine.KernelPage roots frame m m') (loaded : roots m.root)
    (mapped : m.translate virt ≠ none) : m'.translate virt ≠ none := by
  have root : m'.root = m.root := congrArg mmPhyToPage taken.page.extended.cr3
  rw [Machine.translate_eq_walk] at mapped ⊢
  rw [root]
  by_cases top : path virt = path m.virtualTop
  · rw [top, taken.page.hit loaded]
    exact Option.some_ne_none _
  · rwa [taken.walks loaded (path_length virt) top]

variable (fault) in
/-- The copy of the page to the new kernel page. -/
theorem memcpy_page {m₁ : Machine} {vaddr page : Word} (orderly : Machine.Orderly roots k.m)
    (taken : Machine.KernelPage roots page k.m m₁) (mapped : k.m.translate vaddr ≠ none)
    (canonical : canonicalAddr (alignDown vaddr) = true) :
    ∃ m₂, (k.setMachine m₁).memcpy fault k.m.virtualTop (alignDown vaddr) 4096 =
      .next (k.setMachine m₂) ∧ Machine.Orderly roots m₂ ∧ m₂.phy = m₁.phy := by
  have orderly₁ := taken.page.extended.orderly
  have source : ∀ i < 4096, m₁.translate (alignDown vaddr + BitVec.ofNat 64 i) ≠ none := by
    intro i below
    have same : m₁.translate (alignDown vaddr + BitVec.ofNat 64 i) = m₁.translate vaddr := by
      rw [Machine.translate_eq_walk, Machine.translate_eq_walk, path_alignDown_add vaddr below]
    rw [same]
    exact translate_kernelPage taken orderly.loaded mapped
  rcases memcpy_wrote fault (k := k.setMachine m₁) (.of_kernelPage orderly taken)
    orderly₁.loaded (fun i below => canonicalAddr_page canonical below) source with
    ⟨m₂, copied, wrote⟩
  refine ⟨m₂, copied, wrote.orderly orderly₁ ?_, ?_⟩
  · rintro place ⟨i, _, rfl⟩
    exact taken.page.inUse
  · rw [wrote.rest]
    rfl

/-! ## The mark -/

/-- Marking the entry of a page that was just mapped. -/
theorem marked_setEntry {m m' : Machine} {vaddr phy : Word} (orderly : Machine.Orderly roots m)
    (mapped : m.mapVirtToPhy (alignDown vaddr) phy userFlags = some m') (frames : PhyAlloc) :
    ∃ table offset, ({ m' with phy := frames } : Machine).getPteEntry (alignDown vaddr) =
        some (table, offset) ∧
      Marked (({ m' with phy := frames } : Machine).setEntry table offset
        (m'.mem table offset ||| cowBit)) vaddr := by
  have mapping := orderly.spaces.mapVirtToPhy flagBits_userFlags orderly.loaded orderly.clean mapped
  have root : m'.root = m.root := congrArg mmPhyToPage mapping.cr3
  have loaded : roots m'.root := root ▸ orderly.loaded
  have hit := mapping.hit orderly.loaded (.inl rfl)
  rw [← root, ← Machine.translate_eq_walk] at hit
  have entry : ({ m' with phy := frames } : Machine).getPteEntry (alignDown vaddr) ≠ none := by
    apply mt Machine.getPteEntry_eq_none_iff.mp
    show m'.translate (alignDown vaddr) ≠ none
    rw [hit]
    exact Option.some_ne_none _
  rcases Option.ne_none_iff_exists'.mp entry with ⟨⟨table, offset⟩, found⟩
  refine ⟨table, offset, found, table, offset, ?_, ?_⟩
  · rw [Machine.getPteEntry_congr (path_alignDown vaddr).symm]
    have present := (Machine.getPteEntry_eq_some_iff.mp found).2
    rw [← present.2] at present
    exact Machine.getPteEntry_setEntry mapping.tables.forest loaded found
      (isPresent_or_cowBit present.1)
  · rw [Machine.setEntry_mem, put_self]
    exact isCowSet_or _

/-- A copy-on-write fault leaves the page marked, wherever it comes back from. -/
theorem protectionFault_marks {vaddr frame : Word} (orderly : Machine.Orderly roots k.m)
    (shared : CopyOnWrite k.m vaddr frame n) {k' : Kernel}
    (returned : k.protectionFault fault vaddr = .next k') : Marked k'.m vaddr := by
  rcases shared.entry with ⟨table, offset, found, cow, readonly, _⟩
  have mapped : k.m.translate vaddr ≠ none := by
    rw [ne_eq, ← Machine.getPteEntry_eq_none_iff, found]
    exact Option.some_ne_none _
  unfold protectionFault at returned
  rcases Flow.bind_eq_next returned with ⟨place, first, returned⟩
  cases (Flow.ofOption_eq_next first).symm.trans found
  dsimp only at returned
  rw [if_pos (by rw [cow, readonly]; rfl)] at returned
  rcases Flow.bind_eq_next returned with ⟨⟨k₁, dummy⟩, allocated, returned⟩
  rcases Flow.bind_eq_next allocated with ⟨⟨m₁, addr⟩, result, same⟩
  cases same
  rcases orderly.kernelPage_of_result flagBits_userFlags (Flow.ofOption_eq_next result) with
    ⟨rfl, page, taken⟩
  rcases Flow.bind_eq_next returned with ⟨k₂, copied, returned⟩
  cases canonical : canonicalAddr (alignDown vaddr) with
  | false =>
      -- the first byte of the page is out of reach
      unfold memcpy loadByte touch at copied
      rw [canonical] at copied
      cases copied
  | true =>
      rcases memcpy_page fault orderly taken mapped canonical with ⟨m₂, copies, orderly₂, _⟩
      cases copied.symm.trans copies
      rcases Flow.bind_eq_next returned with ⟨k₃, remapped, returned⟩
      rcases Flow.bind_eq_next remapped with ⟨m₃, result, same⟩
      cases same
      rcases marked_setEntry orderly₂ (Flow.ofOption_eq_next result)
        (m₃.phy.decRefCount (k.m.mem table offset &&& 0x000FFFFFFFFFF000)) with
        ⟨table', offset', found', marked⟩
      rcases Flow.bind_eq_next returned with ⟨⟨table₄, offset₄⟩, found₄, returned⟩
      cases (Flow.ofOption_eq_next found₄).symm.trans found'
      cases returned
      exact marked

variable (fault) in
/-- With frames left, the fault is answered. -/
theorem protectionFault_returns {vaddr frame : Word} (orderly : Machine.Orderly roots k.m)
    (shared : CopyOnWrite k.m vaddr frame n) (canonical : canonicalAddr (alignDown vaddr) = true)
    (frames : k.m.phy.HasFrames 7) : ∃ k', k.protectionFault fault vaddr = .next k' := by
  rcases shared.entry with ⟨table, offset, found, cow, readonly, _⟩
  have mapped : k.m.translate vaddr ≠ none := by
    rw [ne_eq, ← Machine.getPteEntry_eq_none_iff, found]
    exact Option.some_ne_none _
  rcases orderly.kernelPage flagBits_userFlags (n := 3) frames with ⟨m₁, page, allocated, taken, left⟩
  rcases memcpy_page fault orderly taken mapped canonical with ⟨m₂, copies, orderly₂, phy⟩
  rcases Machine.mapVirtToPhy_isSome (n := 0) (phy ▸ left) (alignDown vaddr)
    (m₁.virtToPhy k.m.virtualTop) userFlags with ⟨m₃, remapped, _⟩
  rcases marked_setEntry orderly₂ remapped
    (m₃.phy.decRefCount (k.m.mem table offset &&& 0x000FFFFFFFFFF000)) with ⟨table', offset', found', _⟩
  unfold protectionFault
  rw [found]
  dsimp only [Flow.ofOption_some, Flow.next_bind]
  rw [if_pos (by rw [cow, readonly]; rfl)]
  unfold allocPages
  rw [allocated]
  dsimp only [Flow.ofOption_some, Flow.next_bind, Flow.pure_eq_next]
  rw [copies]
  dsimp only [Flow.next_bind]
  unfold mapVirtToPhy
  rw [show (k.setMachine m₂).m.mapVirtToPhy (alignDown vaddr)
    ((k.setMachine m₁).m.virtToPhy k.m.virtualTop) userFlags = some m₃ from remapped]
  dsimp only [Flow.ofOption_some, Flow.next_bind, Flow.pure_eq_next, setMachine]
  rw [found']
  exact ⟨_, rfl⟩

/-- The task that ends does not come back. -/
theorem systemExit_ne_next {α : Type} (value : α) : k.systemExit fault ≠ .next value := by
  intro returned
  rcases Flow.bind_eq_next returned with ⟨_, _, returned⟩
  rcases Flow.bind_eq_next returned with ⟨_, _, returned⟩
  rcases Flow.bind_eq_next returned with ⟨_, _, returned⟩
  rcases Flow.bind_eq_next returned with ⟨_, _, returned⟩
  cases returned

theorem saveFrame_m (r : Regs) : (k.saveFrame r).m = k.m := by
  unfold saveFrame
  split <;> rfl

/-- The handler for a page that is present leaves a copy-on-write page marked. -/
theorem pageFaultHandler_marks {vaddr frame : Word} {r : Regs} (orderly : Machine.Orderly roots k.m)
    (shared : CopyOnWrite k.m vaddr frame n) (present : r.errCode &&& 1 ≠ 0)
    {result : Kernel × Regs} (returned : k.pageFaultHandler fault vaddr r = .next result) :
    Marked result.1.m vaddr := by
  unfold pageFaultHandler at returned
  dsimp only at returned
  by_cases kernel : virtKernelBase ≤ vaddr
  · rw [if_pos kernel] at returned
    exact absurd returned (systemExit_ne_next result)
  · rw [if_neg kernel, if_pos present] at returned
    rcases Flow.bind_eq_next returned with ⟨k', answered, returned⟩
    cases returned
    rw [← saveFrame_m r] at orderly shared
    exact protectionFault_marks orderly shared answered

/-- A copy-on-write fault never yields a normal private page. -/
theorem pageFaultHandler_not_privatePage {vaddr frame : Word} {r : Regs}
    (orderly : Machine.Orderly roots k.m) (shared : CopyOnWrite k.m vaddr frame n)
    (present : r.errCode &&& 1 ≠ 0) {result : Kernel × Regs}
    (returned : k.pageFaultHandler fault vaddr r = .next result) :
    ¬ PrivatePage k.m result.1.m vaddr frame n :=
  (pageFaultHandler_marks orderly shared present returned).not_private

/-! ## A shared page -/

/-- The tables of a process beside those of the kernel: the page at `0x400000` shares
frame 7 with another one. -/
def sharedPage : Machine where
  phy := ⟨fun group => if group = 0 then 0xFF else BitVec.allOnes 64,
    fun _ slot => if slot = 7 then 2 else 1, []⟩
  mem := fun page offset =>
    if (page = 1 ∨ page = 3) ∧ offset = 511 then 0x2007
    else if page = 3 ∧ offset = 0 then 0x4007
    else if page = 4 ∧ offset = 0 then 0x5007
    else if page = 5 ∧ offset = 2 then 0x6007
    else if page = 6 ∧ offset = 0 then 0x4000000000007005
    else 0
  cr3 := 0x3000
  kCr3 := 0x1000
  virtualTop := 0xFFFFFFFF80201000

/-- Its roots. -/
def sharedRoots (r : Word) : Prop := r = 1 ∨ r = 3

theorem sharedPage_entry {page next : Word} {offset : BitVec 9}
    (points : entryFrame (sharedPage.mem page offset) = some next) :
    ((page = 1 ∨ page = 3) ∧ offset = 511 ∧ next = 2) ∨ (page = 3 ∧ offset = 0 ∧ next = 4) ∨
      (page = 4 ∧ offset = 0 ∧ next = 5) ∨ (page = 5 ∧ offset = 2 ∧ next = 6) ∨ page = 6 := by
  unfold sharedPage at points
  dsimp only at points
  split at points
  · rename_i here
    cases points
    exact .inl ⟨here.1, here.2, rfl⟩
  · split at points
    · rename_i here
      cases points
      exact .inr (.inl ⟨here.1, here.2, rfl⟩)
    · split at points
      · rename_i here
        cases points
        exact .inr (.inr (.inl ⟨here.1, here.2, rfl⟩))
      · split at points
        · rename_i here
          cases points
          exact .inr (.inr (.inr (.inl ⟨here.1, here.2, rfl⟩)))
        · split at points
          · rename_i here
            exact .inr (.inr (.inr (.inr here.1)))
          · cases points

/-- The tables of the two address spaces and the paths to them. -/
def sharedTables : List (Word × List (BitVec 9) × Word) :=
  [(1, [], 1), (1, [511], 2), (3, [], 3), (3, [511], 2), (3, [0], 4), (3, [0, 0], 5), (3, [0, 0, 2], 6)]

theorem sharedPage_walk {root node : Word} {ρ : List (BitVec 9)} (isRoot : sharedRoots root)
    (bound : ρ.length < 4) (found : walk entryFrame sharedPage.mem root ρ = some node) :
    (root, ρ, node) ∈ sharedTables := by
  have step : ∀ {page : Word} {i : BitVec 9} {σ : List (BitVec 9)},
      walk entryFrame sharedPage.mem page (i :: σ) = some node → ∃ next,
        entryFrame (sharedPage.mem page i) = some next ∧
          walk entryFrame sharedPage.mem next σ = some node := by
    intro page i σ walked
    rw [walk_cons] at walked
    exact Option.bind_eq_some_iff.mp walked
  have two : ∀ {σ : List (BitVec 9)}, walk entryFrame sharedPage.mem 2 σ = some node →
      σ = [] ∧ node = 2 := by
    intro σ walked
    cases σ with
    | nil => exact ⟨rfl, (Option.some.inj walked).symm⟩
    | cons i σ =>
        rcases step walked with ⟨next, points, _⟩
        have edges := sharedPage_entry points
        revert edges
        simp
  have five : ∀ {σ : List (BitVec 9)}, σ.length < 2 → walk entryFrame sharedPage.mem 5 σ = some node →
      (σ = [] ∧ node = 5) ∨ (σ = [2] ∧ node = 6) := by
    intro σ short walked
    cases σ with
    | nil => exact .inl ⟨rfl, (Option.some.inj walked).symm⟩
    | cons i σ =>
        rw [List.length_cons] at short
        obtain rfl : σ = [] := List.eq_nil_of_length_eq_zero (by omega)
        rcases step walked with ⟨next, points, walked⟩
        have edges := sharedPage_entry points
        have last : next = node := Option.some.inj walked
        revert edges
        simp [last]
  have four : ∀ {σ : List (BitVec 9)}, σ.length < 3 → walk entryFrame sharedPage.mem 4 σ = some node →
      (σ = [] ∧ node = 4) ∨ (σ = [0] ∧ node = 5) ∨ (σ = [0, 2] ∧ node = 6) := by
    intro σ short walked
    cases σ with
    | nil => exact .inl ⟨rfl, (Option.some.inj walked).symm⟩
    | cons i σ =>
        rcases step walked with ⟨next, points, walked⟩
        rcases sharedPage_entry points with edge | edge | ⟨_, rfl, rfl⟩ | edge | edge
        · exact absurd edge.1 (by decide)
        · exact absurd edge.1 (by decide)
        · rcases five (Nat.lt_of_succ_lt_succ short) walked with ⟨rfl, rfl⟩ | ⟨rfl, rfl⟩ <;> simp
        · exact absurd edge.1 (by decide)
        · exact absurd edge (by decide)
  cases ρ with
  | nil =>
      cases found
      rcases isRoot with rfl | rfl <;> simp [sharedTables]
  | cons i ρ =>
      rcases step found with ⟨next, points, walked⟩
      rcases sharedPage_entry points with ⟨_, rfl, rfl⟩ | ⟨rfl, rfl, rfl⟩ | edge | edge | edge
      · rcases two walked with ⟨rfl, rfl⟩
        rcases isRoot with rfl | rfl <;> simp [sharedTables]
      · rcases four (Nat.lt_of_succ_lt_succ bound) walked with ⟨rfl, rfl⟩ | ⟨rfl, rfl⟩ | ⟨rfl, rfl⟩ <;>
          simp [sharedTables]
      · rcases isRoot with rfl | rfl <;> exact absurd edge.1 (by decide)
      · rcases isRoot with rfl | rfl <;> exact absurd edge.1 (by decide)
      · rcases isRoot with rfl | rfl <;> exact absurd edge (by decide)

theorem sharedPage_orderly : Machine.Orderly sharedRoots sharedPage := by
  have apart : ∀ first ∈ sharedTables, ∀ second ∈ sharedTables, first.2.2 = second.2.2 →
      first.2.1 = second.2.1 ∧ (first.1 = second.1 ∨ first.2.1.head? = some 511) := by
    decide
  refine ⟨⟨⟨⟨?_, ?_⟩, ?_⟩, .inl rfl, by decide, ?_⟩, .inr rfl, ?_, ?_⟩
  · intro first second ρ ρ' node firstRoot secondRoot bound bound' found found'
    rcases apart _ (sharedPage_walk firstRoot bound found) _ (sharedPage_walk secondRoot bound' found')
      rfl with ⟨same, root | half⟩
    · exact ⟨same, .inl root⟩
    · refine ⟨same, .inr ?_⟩
      cases ρ with
      | nil => cases half
      | cons i ρ => exact Option.some.inj half
  · rintro first second i firstRoot secondRoot rfl
    rcases firstRoot with rfl | rfl <;> rcases secondRoot with rfl | rfl <;> rfl
  · rintro table ⟨root, ρ, isRoot, bound, found⟩
    have used : ∀ entry ∈ sharedTables, sharedPage.phy.inUse entry.2.2 = true := by decide
    exact used _ (sharedPage_walk isRoot bound found)
  · intro i user
    by_contra present
    rcases Option.ne_none_iff_exists'.mp present with ⟨next, points⟩
    rcases sharedPage_entry points with edge | edge | edge | edge | edge
    · exact user edge.2.1
    · exact absurd edge.1 (by decide)
    · exact absurd edge.1 (by decide)
    · exact absurd edge.1 (by decide)
    · exact absurd edge (by decide)
  · intro page available offset
    by_contra present
    rcases Option.ne_none_iff_exists'.mp present with ⟨next, points⟩
    have used : ¬ (page = 1 ∨ page = 3 ∨ page = 4 ∨ page = 5 ∨ page = 6) := by
      rintro (rfl | rfl | rfl | rfl | rfl) <;> exact absurd available (by decide)
    have edges := sharedPage_entry points
    tauto
  · refine ⟨by decide, by decide, ?_⟩
    have few : sharedPage.phy.availableCount ≤ (Finset.range (bitmapGroups * pagesPerGroup)).card :=
      Finset.card_filter_le _ _
    rw [Finset.card_range] at few
    have top : sharedPage.virtualTop.toNat = 0xFFFFFFFF80201000 := rfl
    simp only [bitmapGroups, pagesPerGroup, pageMax] at few
    omega

theorem sharedPage_copyOnWrite : CopyOnWrite sharedPage 0x400000 7 2 :=
  ⟨⟨6, 0, by decide, by decide, by decide, by decide⟩, by decide, by decide⟩

/-- A task of that process. -/
def sharedKernel : Kernel := { Kernel.initial sharedPage 0 with currentTask := some 0x8000 }

/-- The frame of a write to a page that is present. -/
def writeFault : Regs := { (default : Regs) with errCode := 7 }

/-- The task writes to the page. -/
def sharedFault : Flow Kernel (Kernel × Regs) :=
  sharedKernel.pageFaultHandler (kernelFault (fun _ _ => default) 1) 0x400000 writeFault

theorem sharedKernel_orderly : Machine.Orderly sharedRoots sharedKernel.m := sharedPage_orderly

theorem sharedKernel_copyOnWrite : CopyOnWrite sharedKernel.m 0x400000 7 2 := sharedPage_copyOnWrite

theorem writeFault_present : writeFault.errCode &&& 1 ≠ 0 := by decide

theorem sharedFault_returns : ∃ result, sharedFault = .next result := by
  have frames : sharedKernel.m.phy.HasFrames 7 := by decide +kernel
  have orderly := sharedKernel_orderly
  have shared := sharedKernel_copyOnWrite
  rw [← saveFrame_m writeFault] at orderly shared frames
  rcases protectionFault_returns (kernelFault (fun _ _ => default) 1) orderly shared (by decide)
    frames with ⟨k', answered⟩
  unfold sharedFault pageFaultHandler
  dsimp only
  rw [if_neg (by decide), if_pos writeFault_present, answered]
  exact ⟨_, rfl⟩

/-- The page of two owners is still marked after the fault. -/
theorem sharedPage_stays_shared : CopyOnWrite sharedKernel.m 0x400000 7 2 ∧
    ∃ result, sharedFault = .next result ∧
      ¬ PrivatePage sharedKernel.m result.1.m 0x400000 7 2 := by
  rcases sharedFault_returns with ⟨result, returned⟩
  have marked := pageFaultHandler_marks sharedKernel_orderly sharedKernel_copyOnWrite
    writeFault_present returned
  exact ⟨sharedKernel_copyOnWrite, result, returned, marked.not_private⟩

theorem pageFaultHandler_not_privatePage_shared : ∃ result, sharedFault = .next result ∧
    ¬ PrivatePage sharedKernel.m result.1.m 0x400000 7 2 := by
  rcases sharedFault_returns with ⟨result, returned⟩
  exact ⟨result, returned, pageFaultHandler_not_privatePage sharedKernel_orderly
    sharedKernel_copyOnWrite writeFault_present returned⟩

end Kernel

end Sbrocks.Process
