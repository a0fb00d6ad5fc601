import Mathlib.Data.List.GetD
import Sbrocks.Mmu.KernelPages
import Sbrocks.Process.Access

/-!
# What is stored in memory

A virtual address reaches a place: a frame and an offset in it.  An area of memory is
described by the places that its addresses reach and by the bytes that are stored
there.  The areas here lie in frames that are in use and hold no table, so writing to
them changes no translation, and mapping other pages changes neither their places nor
their content.
-/

namespace Sbrocks.Process

open Sbrocks.Mmu Sbrocks.Radix

/-! ## Bytes of words -/

theorem byteOf_getLsbD (word : Word) (lane : Nat) {i : Nat} (bound : i < 8) :
    (byteOf word lane).getLsbD i = word.getLsbD (8 * lane + i) := by
  rw [byteOf, BitVec.getLsbD_setWidth, BitVec.getLsbD_ushiftRight, decide_eq_true bound,
    Bool.true_and]

theorem byteMask_getLsbD (i : Nat) : (0xFF : Word).getLsbD i = decide (i < 8) := by
  by_cases bound : i < 64
  · revert bound
    revert i
    decide
  · rw [BitVec.getLsbD_of_ge _ _ (Nat.le_of_not_lt bound)]
    exact (decide_eq_false (by omega)).symm

theorem withByte_getLsbD (word : Word) (lane : Nat) (byte : Byte) {i : Nat} (bound : i < 64) :
    (withByte word lane byte).getLsbD i =
      if 8 * lane ≤ i ∧ i < 8 * lane + 8 then byte.getLsbD (i - 8 * lane)
      else word.getLsbD i := by
  simp only [withByte, BitVec.getLsbD_or, BitVec.getLsbD_and, BitVec.getLsbD_not,
    BitVec.getLsbD_shiftLeft, BitVec.getLsbD_setWidth, byteMask_getLsbD, bound, decide_true,
    Bool.true_and]
  by_cases below : i < 8 * lane
  · simp [below, Nat.not_le_of_lt below]
  · by_cases inside : i - 8 * lane < 8
    · rw [if_pos ⟨by omega, by omega⟩]
      simp [below, inside]
      omega
    · rw [if_neg (by omega)]
      simp [below, inside, BitVec.getLsbD_of_ge byte _ (Nat.le_of_not_lt inside)]

theorem byteOf_withByte (word : Word) {lane other : Nat} (byte : Byte) (bound : other < 8) :
    byteOf (withByte word lane byte) other = if other = lane then byte else byteOf word other := by
  apply BitVec.eq_of_getLsbD_eq
  intro i small
  rw [byteOf_getLsbD _ _ small, withByte_getLsbD _ _ _ (by omega)]
  by_cases same : other = lane
  · subst same
    rw [if_pos rfl, if_pos ⟨by omega, by omega⟩]
    congr 1
    omega
  · rw [if_neg same, if_neg (by omega), byteOf_getLsbD _ _ small]

/-! ## Places of memory -/

/-- A byte of physical memory: a frame and an offset in it. -/
abbrev Place := Word × BitVec 12

end Sbrocks.Process

namespace Sbrocks.Mmu.Machine

open Sbrocks.Process Sbrocks.Radix

variable {m m' : Machine}

/-- The word of a place in its frame. -/
def wordIn (offset : BitVec 12) : BitVec 9 := (offset >>> 3).setWidth 9

/-- The content of a place. -/
def byte (m : Machine) (place : Place) : Byte :=
  byteOf (m.mem place.1 (wordIn place.2)) (place.2.toNat % 8)

/-- Change the content of a place. -/
def setByte (m : Machine) (place : Place) (value : Byte) : Machine :=
  m.setEntry place.1 (wordIn place.2)
    (withByte (m.mem place.1 (wordIn place.2)) (place.2.toNat % 8) value)

/-- The place that a virtual address reaches. -/
def place (m : Machine) (virt : Word) : Option Place :=
  (m.translate virt).map fun frame => (frame, virt.setWidth 12)

theorem wordIn_toNat (offset : BitVec 12) : (wordIn offset).toNat = offset.toNat / 8 := by
  have bound := offset.isLt
  rw [wordIn, BitVec.toNat_setWidth, BitVec.toNat_ushiftRight, Nat.shiftRight_eq_div_pow]
  omega

theorem wordOffset_eq (virt : Word) : wordOffset virt = wordIn (virt.setWidth 12) := by
  apply BitVec.eq_of_toNat_eq
  rw [wordIn_toNat, wordOffset, BitVec.toNat_setWidth, BitVec.toNat_ushiftRight,
    Nat.shiftRight_eq_div_pow, BitVec.toNat_setWidth]
  omega

theorem laneOf_eq (virt : Word) : laneOf virt = (virt.setWidth 12).toNat % 8 := by
  rw [laneOf, BitVec.toNat_setWidth]
  omega

theorem byte_setByte (m : Machine) (place other : Place) (value : Byte) :
    (m.setByte place value).byte other = if other = place then value else m.byte other := by
  rcases place with ⟨frame, offset⟩
  rcases other with ⟨frame', offset'⟩
  unfold byte setByte
  rw [setEntry_mem, put_apply]
  dsimp only
  split
  · rename_i here
    rcases here with ⟨rfl, word⟩
    have words := congrArg BitVec.toNat word
    rw [wordIn_toNat, wordIn_toNat] at words
    rw [byteOf_withByte _ _ (Nat.mod_lt _ (by decide)), word]
    by_cases lane : offset'.toNat % 8 = offset.toNat % 8
    · have same : offset' = offset := BitVec.eq_of_toNat_eq (by omega)
      rw [if_pos lane, if_pos (by rw [same])]
    · have different : offset' ≠ offset := fun same => lane (by rw [same])
      rw [if_neg lane, if_neg fun same => different (Prod.mk.inj same).2]
  · rename_i elsewhere
    rw [if_neg]
    rintro ⟨⟩
    exact elsewhere ⟨rfl, rfl⟩

end Sbrocks.Mmu.Machine

namespace Sbrocks.Process

open Sbrocks.Mmu Sbrocks.Radix

/-! ## Writing -/

/-- Writing places of data frames: nothing else changes, and no translation. -/
structure Wrote (roots : Word → Prop) (m m' : Machine) (written : Place → Prop) : Prop where
  rest : m' = { m with mem := m'.mem }
  bytes : ∀ place, ¬ written place → m'.byte place = m.byte place
  frames : ∀ frame, (∀ offset, ¬ written (frame, offset)) → m'.mem frame = m.mem frame
  tables : ∀ frame, IsTable entryFrame m.mem roots 4 frame → m'.mem frame = m.mem frame

namespace Wrote

variable {roots : Word → Prop} {m m' m'' : Machine} {written more : Place → Prop}

theorem refl (m : Machine) : Wrote roots m m written :=
  ⟨rfl, fun _ _ => rfl, fun _ _ => rfl, fun _ _ => rfl⟩

theorem agree (wrote : Wrote roots m m' written) (frame : Word) (i : BitVec 9)
    (isTable : IsTable entryFrame m.mem roots 4 frame) :
    entryFrame (m'.mem frame i) = entryFrame (m.mem frame i) := by
  rw [wrote.tables frame isTable]

theorem isTable_iff (wrote : Wrote roots m m' written) (frame : Word) :
    IsTable entryFrame m'.mem roots 4 frame ↔ IsTable entryFrame m.mem roots 4 frame :=
  Forest.isTable_iff_of_agree wrote.agree frame

theorem walk (wrote : Wrote roots m m' written) {root : Word} (isRoot : roots root)
    {ρ : List (BitVec 9)} (bound : ρ.length ≤ 4) :
    Radix.walk entryFrame m'.mem root ρ = Radix.walk entryFrame m.mem root ρ :=
  Forest.walk_eq_of_agree wrote.agree isRoot bound

theorem root (wrote : Wrote roots m m' written) : m'.root = m.root := by
  rw [wrote.rest]
  rfl

theorem translate (wrote : Wrote roots m m' written) (loaded : roots m.root) (virt : Word) :
    m'.translate virt = m.translate virt := by
  rw [Machine.translate_eq_walk, Machine.translate_eq_walk, wrote.root]
  exact wrote.walk loaded (Nat.le_of_eq (path_length virt))

theorem place (wrote : Wrote roots m m' written) (loaded : roots m.root) (virt : Word) :
    m'.place virt = m.place virt := by
  rw [Machine.place, Machine.place, wrote.translate loaded]

theorem trans (first : Wrote roots m m' written) (second : Wrote roots m' m'' written) :
    Wrote roots m m'' written where
  rest := by
    have step := second.rest
    rw [first.rest] at step
    exact step
  bytes place outside := (second.bytes place outside).trans (first.bytes place outside)
  frames frame outside := (second.frames frame outside).trans (first.frames frame outside)
  tables frame isTable := by
    rw [second.tables frame ((first.isTable_iff frame).mpr isTable), first.tables frame isTable]

theorem mono (wrote : Wrote roots m m' written) (more' : ∀ place, written place → more place) :
    Wrote roots m m' more :=
  ⟨wrote.rest, fun place outside => wrote.bytes place fun inside => outside (more' place inside),
    fun frame outside => wrote.frames frame fun offset inside => outside offset (more' _ inside),
    wrote.tables⟩

/-- One byte of a frame that holds no table. -/
theorem setByte {place : Place} (data : ¬ IsTable entryFrame m.mem roots 4 place.1)
    (inside : written place) (value : Byte) : Wrote roots m (m.setByte place value) written where
  rest := rfl
  bytes other outside := by
    rw [Machine.byte_setByte, if_neg]
    rintro rfl
    exact outside inside
  frames frame outside := by
    funext i
    apply put_of_node_ne
    rintro rfl
    exact outside place.2 inside
  tables frame isTable := by
    funext i
    apply put_of_node_ne
    rintro rfl
    exact data isTable

/-- Writing to frames in use keeps the address spaces in order. -/
theorem orderly (wrote : Wrote roots m m' written) (before : Machine.Orderly roots m)
    (used : ∀ place, written place → m.phy.inUse place.1 = true) : Machine.Orderly roots m' := by
  rcases m' with ⟨phy', mem', cr3', kCr3', virtualTop'⟩
  have rest := wrote.rest
  injection rest with phySame memSame cr3Same kCr3Same topSame
  subst phySame cr3Same kCr3Same topSame
  have root : IsTable entryFrame m.mem roots 4 m.kernelRoot :=
    ⟨_, [], before.spaces.kernel, by decide, rfl⟩
  have kernel : mem' m.kernelRoot = m.mem m.kernelRoot := wrote.tables _ root
  refine ⟨⟨⟨before.spaces.tables.forest.of_agree (by decide) wrote.agree, ?_⟩,
    before.spaces.kernel, ?_, ?_⟩, before.loaded, ?_, ⟨before.top.aligned, before.top.half,
    before.top.room⟩⟩
  · intro table isTable
    exact before.spaces.tables.inUse ((wrote.isTable_iff table).mp isTable)
  · show entryFrame (mem' m.kernelRoot 511) ≠ none
    rw [kernel]
    exact before.spaces.kernelEntry
  · intro i user
    show entryFrame (mem' m.kernelRoot i) = none
    rw [kernel]
    exact before.spaces.kernelOnly i user
  · intro page available offset
    have same : mem' page = m.mem page := by
      apply wrote.frames page
      intro other inside
      have inUse := used _ inside
      rw [available.free] at inUse
      cases inUse
    show entryFrame (mem' page offset) = none
    rw [same]
    exact before.clean page available offset

end Wrote

/-! ## Spans -/

/-- Addresses that reach the given places, in frames that are in use and hold no table. -/
structure Span (roots : Word → Prop) (m : Machine) (virt : Word) (n : Nat) (places : Nat → Place) :
    Prop where
  canonical : ∀ i < n, canonicalAddr (virt + BitVec.ofNat 64 i) = true
  place : ∀ i < n, m.place (virt + BitVec.ofNat 64 i) = some (places i)
  data : ∀ i < n, ¬ IsTable entryFrame m.mem roots 4 (places i).1
  inUse : ∀ i < n, m.phy.inUse (places i).1 = true

/-- What is stored at the first `n` of the places. -/
def content (m : Machine) (places : Nat → Place) (n : Nat) : List Byte :=
  (List.range n).map fun i => m.byte (places i)

theorem content_length (m : Machine) (places : Nat → Place) (n : Nat) :
    (content m places n).length = n := by
  simp [content]

theorem content_succ (m : Machine) (places : Nat → Place) (n : Nat) :
    content m places (n + 1) = m.byte (places 0) :: content m (fun i => places (i + 1)) n := by
  simp [content, List.range_succ_eq_map, Function.comp_def]

theorem content_getD (m : Machine) (places : Nat → Place) {n i : Nat} (below : i < n) :
    (content m places n).getD i 0 = m.byte (places i) := by
  rw [List.getD_eq_getElem _ _ (by rwa [content_length])]
  simp [content]

theorem content_congr {m m' : Machine} {places : Nat → Place} {n : Nat}
    (same : ∀ i < n, m'.byte (places i) = m.byte (places i)) :
    content m' places n = content m places n := by
  apply List.map_congr_left
  intro i member
  exact same i (List.mem_range.mp member)

theorem content_drop (m : Machine) (places : Nat → Place) (n i : Nat) :
    (content m places n).drop i = content m (fun j => places (i + j)) (n - i) := by
  induction i generalizing n places with
  | zero => simp
  | succ i ih =>
      cases n with
      | zero => simp [content]
      | succ n =>
          rw [content_succ, List.drop_succ_cons, ih, Nat.succ_sub_succ]
          congr 1
          funext j
          rw [Nat.add_right_comm]

theorem content_take (m : Machine) (places : Nat → Place) {n i : Nat} (bound : i ≤ n) :
    (content m places n).take i = content m places i := by
  rw [content, ← List.map_take, List.take_range, Nat.min_eq_left bound]
  rfl

/-- Addresses add up. -/
theorem add_ofNat (virt : Word) (i j : Nat) :
    virt + BitVec.ofNat 64 i + BitVec.ofNat 64 j = virt + BitVec.ofNat 64 (i + j) := by
  rw [BitVec.ofNat_add, BitVec.add_assoc]

theorem canonicalAddr_iff (virt : Word) : canonicalAddr virt = true ↔ Canonical virt := by
  have bound := virt.isLt
  unfold canonicalAddr Canonical
  rw [beq_iff_eq, ← BitVec.toNat_inj, BitVec.toNat_signExtend]
  simp only [BitVec.toNat_setWidth, BitVec.msb_eq_decide, BitVec.toNat_setWidth]
  by_cases high : 2 ^ 47 ≤ virt.toNat % 2 ^ 48
  · simp only [high, decide_true, if_true]
    omega
  · simp only [high, decide_false, Bool.false_eq_true, if_false]
    omega

/-- The addresses of a page. -/
theorem add_ofNat_toNat {virt : Word} (aligned : virt.toNat % 4096 = 0) {i : Nat} (below : i < 4096) :
    (virt + BitVec.ofNat 64 i).toNat = virt.toNat + i := by
  have bound := virt.isLt
  rw [BitVec.toNat_add, BitVec.toNat_ofNat]
  omega

theorem vpn_add_ofNat {virt : Word} (aligned : virt.toNat % 4096 = 0) {i : Nat} (below : i < 4096) :
    vpn (virt + BitVec.ofNat 64 i) = vpn virt := by
  rw [← BitVec.toNat_inj, vpn_toNat, vpn_toNat, add_ofNat_toNat aligned below]
  omega

namespace Span

variable {roots : Word → Prop} {m m' : Machine} {virt : Word} {n : Nat} {places : Nat → Place}
  {written : Place → Prop}

theorem first (span : Span roots m virt (n + 1) places) : m.place virt = some (places 0) := by
  have here := span.place 0 (Nat.succ_pos n)
  rwa [BitVec.add_zero] at here

theorem firstCanonical (span : Span roots m virt (n + 1) places) : canonicalAddr virt = true := by
  have here := span.canonical 0 (Nat.succ_pos n)
  rwa [BitVec.add_zero] at here

/-- A part of a span. -/
theorem part (span : Span roots m virt n places) (start length : Nat) (bound : start + length ≤ n) :
    Span roots m (virt + BitVec.ofNat 64 start) length fun i => places (start + i) where
  canonical i below := by
    rw [add_ofNat]
    exact span.canonical _ (by omega)
  place i below := by
    rw [add_ofNat]
    exact span.place _ (by omega)
  data i below := span.data _ (by omega)
  inUse i below := span.inUse _ (by omega)

theorem take (span : Span roots m virt n places) {length : Nat} (bound : length ≤ n) :
    Span roots m virt length places where
  canonical i below := span.canonical i (by omega)
  place i below := span.place i (by omega)
  data i below := span.data i (by omega)
  inUse i below := span.inUse i (by omega)

theorem tail (span : Span roots m virt (n + 1) places) :
    Span roots m (virt + 1) n fun i => places (i + 1) := by
  have rest := span.part 1 n (by omega)
  simp only [Nat.add_comm 1] at rest
  exact rest

theorem wrote (span : Span roots m virt n places) (loaded : roots m.root)
    (changed : Wrote roots m m' written) : Span roots m' virt n places where
  canonical := span.canonical
  place i below := (changed.place loaded _).trans (span.place i below)
  data i below isTable := span.data i below ((changed.isTable_iff _).mp isTable)
  inUse i below := by
    rw [changed.rest]
    exact span.inUse i below

/-- A mapped page. -/
theorem page {frame : Word} (aligned : virt.toNat % 4096 = 0) (canonical : Canonical virt)
    (hit : m.translate virt = some frame) (data : ¬ IsTable entryFrame m.mem roots 4 frame)
    (inUse : m.phy.inUse frame = true) :
    Span roots m virt 4096 fun i => (frame, BitVec.ofNat 12 i) where
  canonical i below := by
    rw [canonicalAddr_iff]
    unfold Canonical at canonical ⊢
    rw [add_ofNat_toNat aligned below]
    omega
  place i below := by
    have same : m.translate (virt + BitVec.ofNat 64 i) = some frame := by
      rw [← hit, Machine.translate_eq_walk, Machine.translate_eq_walk,
        (path_eq_iff _ _).mpr (vpn_add_ofNat aligned below)]
    rw [Machine.place, same]
    refine congrArg (fun offset => some (frame, offset)) ?_
    apply BitVec.eq_of_toNat_eq
    rw [BitVec.toNat_setWidth, add_ofNat_toNat aligned below, BitVec.toNat_ofNat]
    omega
  data _ _ := data
  inUse _ _ := inUse

/-- A new kernel page can be written. -/
theorem of_kernelPage {frame : Word} (orderly : Machine.Orderly roots m)
    (taken : Machine.KernelPage roots frame m m') :
    Span roots m' m.virtualTop 4096 fun i => (frame, BitVec.ofNat 12 i) := by
  have half := orderly.top.half
  apply Span.page orderly.top.aligned (.inr (by omega)) _ taken.page.notTable taken.page.inUse
  rw [Machine.translate_eq_walk]
  exact taken.page.hit taken.page.extended.orderly.loaded

/-- A new kernel page leaves a span elsewhere and what is stored there. -/
theorem kernelPage {frame : Word} (span : Span roots m virt n places)
    (orderly : Machine.Orderly roots m) (page : Machine.KernelPage roots frame m m')
    (elsewhere : ∀ i < n, vpn (virt + BitVec.ofNat 64 i) ≠ vpn m.virtualTop) :
    Span roots m' virt n places ∧ ∀ i < n, m'.byte (places i) = m.byte (places i) := by
  have root' : m'.root = m.root := congrArg mmPhyToPage page.page.extended.cr3
  have data : ∀ i < n, ¬ IsTable entryFrame m'.mem roots 4 (places i).1 ∧
      m'.mem (places i).1 = m.mem (places i).1 :=
    fun i below => page.page.extended.data (span.inUse i below) (span.data i below)
  refine ⟨⟨span.canonical, ?_, fun i below => (data i below).1,
    fun i below => page.page.extended.used _ (span.inUse i below)⟩, ?_⟩
  · intro i below
    rw [← span.place i below, Machine.place, Machine.place, Machine.translate_eq_walk,
      Machine.translate_eq_walk, root', page.walks orderly.loaded (path_length _)]
    intro same
    exact elsewhere i below ((path_eq_iff _ _).mp same)
  · intro i below
    unfold Machine.byte
    rw [(data i below).2]

end Span

/-- The places of a page. -/
def pagePlaces (frame : Word) (i : Nat) : Place := (frame, BitVec.ofNat 12 i)

theorem pagePlaces_inj {frame : Word} {i j n : Nat} (bound : n ≤ 4096) (below : i < n)
    (below' : j < n) (same : pagePlaces frame i = pagePlaces frame j) : i = j := by
  have offsets := congrArg BitVec.toNat (Prod.mk.inj same).2
  rw [BitVec.toNat_ofNat, BitVec.toNat_ofNat] at offsets
  omega

end Sbrocks.Process

namespace Sbrocks.Process.Kernel

open Sbrocks.Mmu Sbrocks.Radix

variable {fault : Fault} {k : Kernel} {roots : Word → Prop} {virt : Word} {n : Nat}
  {places : Nat → Place}

/-! ## Accesses -/

theorem loadByte_eq {place : Place} (canonical : canonicalAddr virt = true)
    (reached : k.m.place virt = some place) :
    k.loadByte fault virt = .next (k, k.m.byte place) := by
  rcases Option.map_eq_some_iff.mp reached with ⟨frame, found, rfl⟩
  unfold loadByte touch
  rw [if_pos canonical, found]
  show Flow.next (k, byteOf (k.m.mem frame (Machine.wordOffset virt)) (laneOf virt)) = _
  rw [Machine.wordOffset_eq, Machine.laneOf_eq]
  rfl

theorem storeByte_eq {place : Place} (canonical : canonicalAddr virt = true)
    (reached : k.m.place virt = some place) (value : Byte) :
    k.storeByte fault virt value = .next (k.setMachine (k.m.setByte place value)) := by
  rcases Option.map_eq_some_iff.mp reached with ⟨frame, found, rfl⟩
  unfold storeByte touch
  rw [if_pos canonical, found]
  show Flow.next (k.setMachine (k.m.setEntry frame (Machine.wordOffset virt)
    (withByte (k.m.mem frame (Machine.wordOffset virt)) (laneOf virt) value))) = _
  rw [Machine.wordOffset_eq, Machine.laneOf_eq]
  rfl

variable (fault) in
/-- Writing bytes. -/
theorem storeBytes_eq {bytes : List Byte} (span : Span roots k.m virt bytes.length places)
    (loaded : roots k.m.root) : ∃ m', k.storeBytes fault virt bytes = .next (k.setMachine m') ∧
      Wrote roots k.m m' (fun place => ∃ i < bytes.length, place = places i) ∧
      ((∀ i < bytes.length, ∀ j < bytes.length, places i = places j → i = j) →
        content m' places bytes.length = bytes) := by
  induction bytes generalizing k virt places with
  | nil => exact ⟨k.m, rfl, .refl _, fun _ => rfl⟩
  | cons value bytes ih =>
      have wrote₁ : Wrote roots k.m (k.m.setByte (places 0) value)
          (fun place => ∃ i < (value :: bytes).length, place = places i) :=
        .setByte (span.data 0 (Nat.succ_pos _)) ⟨0, Nat.succ_pos _, rfl⟩ value
      have span₁ := (span.wrote loaded wrote₁).tail
      have loaded₁ : roots (k.setMachine (k.m.setByte (places 0) value)).m.root := loaded
      rcases ih (k := k.setMachine (k.m.setByte (places 0) value)) span₁ loaded₁ with
        ⟨m', stored, wrote₂, back⟩
      refine ⟨m', ?_, ?_, ?_⟩
      · unfold storeBytes
        rw [storeByte_eq span.firstCanonical span.first]
        exact stored
      · apply wrote₁.trans
        apply wrote₂.mono
        rintro place ⟨i, below, rfl⟩
        exact ⟨i + 1, Nat.succ_lt_succ below, rfl⟩
      · intro apart
        have kept : m'.byte (places 0) = value := by
          rw [wrote₂.bytes]
          · show (k.m.setByte (places 0) value).byte (places 0) = value
            rw [Machine.byte_setByte, if_pos rfl]
          · rintro ⟨i, below, same⟩
            exact absurd (apart 0 (Nat.succ_pos _) (i + 1) (Nat.succ_lt_succ below) same) (by omega)
        have rest := back fun i below j below' same => Nat.succ.inj
          (apart (i + 1) (Nat.succ_lt_succ below) (j + 1) (Nat.succ_lt_succ below') same)
        rw [List.length_cons, content_succ, kept, rest]

theorem memset_eq (k : Kernel) (str : Word) (c : Byte) (n : Nat) :
    k.memset fault str c n = k.storeBytes fault str (List.replicate n c) := by
  induction n generalizing k str with
  | zero => rfl
  | succ n ih =>
      unfold memset
      rw [List.replicate_succ, storeBytes]
      simp only [ih]

/-- Copying is writing what was there, where the areas do not overlap. -/
theorem memcpy_eq {s1 s2 : Word} {sources : Nat → Place} (target : Span roots k.m s1 n places)
    (source : Span roots k.m s2 n sources) (loaded : roots k.m.root)
    (apart : ∀ i < n, ∀ j < n, sources i ≠ places j) :
    k.memcpy fault s1 s2 n = k.storeBytes fault s1 (content k.m sources n) := by
  induction n generalizing k s1 s2 places sources with
  | zero => rfl
  | succ n ih =>
      have wrote : Wrote roots k.m (k.m.setByte (places 0) (k.m.byte (sources 0)))
          (fun place => place = places 0) := by
        apply Wrote.setByte (target.data 0 (Nat.succ_pos _))
        rfl
      rw [content_succ, storeBytes]
      unfold memcpy
      rw [loadByte_eq source.firstCanonical source.first]
      dsimp only [Flow.next_bind]
      rw [storeByte_eq target.firstCanonical target.first]
      dsimp only [Flow.next_bind]
      have copied := ih (k := k.setMachine (k.m.setByte (places 0) (k.m.byte (sources 0))))
        (target.wrote loaded wrote).tail (source.wrote loaded wrote).tail loaded
        fun i below j below' => apart _ (Nat.succ_lt_succ below) _ (Nat.succ_lt_succ below')
      rw [copied]
      congr 1
      apply content_congr
      intro i below
      exact wrote.bytes _ (apart _ (Nat.succ_lt_succ below) 0 (Nat.succ_pos _))

/-! ## Strings -/

/-- The string reads as the given text. -/
def Spells (fault : Fault) (k : Kernel) (s : CString) (text : List Byte) : Prop :=
  ∀ i ≤ text.length, k.char fault s i = .next (k, (text ++ [0]).getD i 0)

theorem spells_text (k : Kernel) (text : List Byte) : Spells fault k (.text text) text := by
  intro i bound
  unfold char
  dsimp only
  by_cases inside : i < text.length
  · rw [if_pos inside, List.getD_append _ _ _ _ inside]
  · rw [if_neg inside, if_pos (by omega), List.getD_append_right _ _ _ _ (by omega),
      show i - text.length = 0 from by omega]
    rfl

theorem spells_atAddr {text : List Byte} (rest : List Byte) (span : Span roots k.m virt n places)
    (stored : content k.m places n = text ++ 0 :: rest) : Spells fault k (.atAddr virt) text := by
  intro i bound
  have size := congrArg List.length stored
  rw [content_length, List.length_append, List.length_cons] at size
  have below : i < n := by omega
  have here : (content k.m places n).getD i 0 = (text ++ [0]).getD i 0 := by
    rw [stored, List.append_cons, List.getD_append _ _ _ _ (by simp; omega)]
  rw [content_getD _ _ below] at here
  unfold char
  dsimp only
  rw [loadByte_eq (span.canonical i below) (span.place i below), here]

theorem Spells.zero {s : CString} {text : List Byte} (spells : Spells fault k s text) :
    k.char fault s text.length = .next (k, 0) := by
  rw [spells _ (Nat.le_refl _), List.getD_append_right _ _ _ _ (Nat.le_refl _), Nat.sub_self]
  rfl

theorem Spells.char {s : CString} {text : List Byte} (spells : Spells fault k s text) {i : Nat}
    (inside : i < text.length) : k.char fault s i = .next (k, text[i]) := by
  rw [spells i (Nat.le_of_lt inside), List.getD_append _ _ _ _ inside,
    List.getD_eq_getElem _ _ inside]

/-- Reading a string up to its final zero. -/
theorem chars_eq {s : CString} {text : List Byte} (spells : Spells fault k s text)
    (nonzero : (0 : Byte) ∉ text) {i rounds : Nat} (bound : i ≤ text.length)
    (enough : text.length - i < rounds) :
    k.chars fault s i rounds = .next (k, text.drop i) := by
  induction rounds generalizing i with
  | zero => exact absurd enough (Nat.not_lt_zero _)
  | succ rounds ih =>
      unfold chars
      by_cases inside : i < text.length
      · have different : text[i] ≠ 0 := fun zero => nonzero (zero ▸ List.getElem_mem inside)
        rw [spells.char inside]
        dsimp only [Flow.next_bind]
        rw [if_neg different, ih inside (by omega), List.drop_eq_getElem_cons inside]
        rfl
      · obtain rfl : i = text.length := by omega
        rw [spells.zero, List.drop_length]
        rfl

/-- Comparing two strings. -/
theorem kstrcmpLoop_eq {s s' : CString} {text text' : List Byte} (spells : Spells fault k s text)
    (spells' : Spells fault k s' text') (nonzero : (0 : Byte) ∉ text) (nonzero' : (0 : Byte) ∉ text')
    {i rounds : Nat} (bound : i ≤ text.length) (bound' : i ≤ text'.length)
    (same : text.take i = text'.take i) (enough : text.length - i < rounds) :
    k.kstrcmpLoop fault s s' i rounds = .next (k, decide (text = text')) := by
  induction rounds generalizing i with
  | zero => exact absurd enough (Nat.not_lt_zero _)
  | succ rounds ih =>
      unfold kstrcmpLoop
      by_cases inside : i < text.length
      · have different : text[i] ≠ 0 := fun zero => nonzero (zero ▸ List.getElem_mem inside)
        by_cases inside' : i < text'.length
        · rw [spells.char inside, Flow.next_bind]
          dsimp only
          rw [spells'.char inside', Flow.next_bind]
          dsimp only
          by_cases agree : text[i] = text'[i]
          · rw [if_neg (not_not_intro agree), if_neg different]
            apply ih inside inside' _ (by omega)
            rw [List.take_succ_eq_append_getElem inside, List.take_succ_eq_append_getElem inside',
              same, agree]
          · rw [if_pos agree, decide_eq_false]
            · rfl
            · rintro rfl
              exact agree rfl
        · obtain rfl : i = text'.length := by omega
          rw [spells.char inside, Flow.next_bind]
          dsimp only
          rw [spells'.zero, Flow.next_bind]
          dsimp only
          rw [if_pos different, decide_eq_false]
          · rfl
          · rintro rfl
            exact absurd inside (Nat.lt_irrefl _)
      · obtain rfl : i = text.length := by omega
        rw [spells.zero, Flow.next_bind]
        dsimp only
        by_cases inside' : text.length < text'.length
        · have different : text'[text.length] ≠ 0 :=
            fun zero => nonzero' (zero ▸ List.getElem_mem inside')
          rw [spells'.char inside', Flow.next_bind]
          dsimp only
          rw [if_pos (Ne.symm different), decide_eq_false]
          · rfl
          · rintro rfl
            exact absurd inside' (Nat.lt_irrefl _)
        · have length : text.length = text'.length := by omega
          have equal : text = text' := by
            rwa [List.take_length, length, List.take_length] at same
          have zero := spells'.zero
          rw [← length] at zero
          rw [zero, Flow.next_bind]
          dsimp only
          rw [if_neg (not_not_intro rfl), if_pos rfl, decide_eq_true equal]
          rfl

theorem strlen_eq {s : CString} {text : List Byte} (spells : Spells fault k s text)
    (nonzero : (0 : Byte) ∉ text) (short : text.length < stringRounds) :
    k.strlen fault s = .next (k, BitVec.ofNat 64 text.length) := by
  unfold strlen
  rw [chars_eq spells nonzero (Nat.zero_le _) (by omega)]
  rfl

theorem kstrcmp_eq {s s' : CString} {text text' : List Byte} (spells : Spells fault k s text)
    (spells' : Spells fault k s' text') (nonzero : (0 : Byte) ∉ text) (nonzero' : (0 : Byte) ∉ text')
    (short : text.length < stringRounds) :
    k.kstrcmp fault s s' = .next (k, decide (text = text')) :=
  kstrcmpLoop_eq spells spells' nonzero nonzero' (Nat.zero_le _) (Nat.zero_le _) rfl (by omega)

/-- Copying a string of the kernel is writing its characters. -/
theorem kstrcpyLoop_eq (k : Kernel) (dest : Word) {text : List Byte} (nonzero : (0 : Byte) ∉ text)
    {i rounds : Nat} (bound : i ≤ text.length) (enough : text.length - i < rounds) :
    k.kstrcpyLoop fault dest (.text text) i rounds =
      k.storeBytes fault (dest + BitVec.ofNat 64 i) ((text ++ [0]).drop i) := by
  induction rounds generalizing k i with
  | zero => exact absurd enough (Nat.not_lt_zero _)
  | succ rounds ih =>
      unfold kstrcpyLoop
      by_cases inside : i < text.length
      · have different : text[i] ≠ 0 := fun zero => nonzero (zero ▸ List.getElem_mem inside)
        have left : (text ++ [0]).drop i = text[i] :: (text ++ [0]).drop (i + 1) := by
          rw [List.drop_eq_getElem_cons (by simp; omega), List.getElem_append_left inside]
        rw [(spells_text k text).char inside, left, storeBytes]
        dsimp only [Flow.next_bind]
        cases k.storeByte fault (dest + BitVec.ofNat 64 i) text[i] with
        | stuck => rfl
        | left state => rfl
        | next k₁ =>
            dsimp only [Flow.next_bind]
            rw [if_neg different, ih k₁ inside (by omega)]
            exact congrArg (fun virt => k₁.storeBytes fault virt ((text ++ [0]).drop (i + 1)))
              (add_ofNat dest i 1).symm
      · obtain rfl : i = text.length := by omega
        rw [(spells_text k text).zero, List.drop_left]
        dsimp only [Flow.next_bind, storeBytes]
        cases k.storeByte fault (dest + BitVec.ofNat 64 text.length) 0 with
        | stuck => rfl
        | left state => rfl
        | next k₁ => rfl

theorem kstrcpy_eq (k : Kernel) (dest : Word) {text : List Byte} (nonzero : (0 : Byte) ∉ text)
    (short : text.length < stringRounds) :
    k.kstrcpy fault dest (.text text) = k.storeBytes fault dest (text ++ [0]) := by
  unfold kstrcpy
  rw [kstrcpyLoop_eq k dest nonzero (Nat.zero_le _) (by omega), BitVec.add_zero]
  rfl

end Sbrocks.Process.Kernel

namespace Sbrocks.Process

open Sbrocks.Mmu Sbrocks.Radix

/-- A machine that booted can have a page with any bytes. -/
theorem exists_page (bytes : List Byte) (fits : bytes.length ≤ 4096) : ∃ roots m frame,
    Machine.Orderly roots m ∧ m.Blank ∧ m.phy.HasFrames 20 ∧
      Span roots m Machine.bootExample.virtualTop 4096 (pagePlaces frame) ∧
      content m (pagePlaces frame) bytes.length = bytes ∧
      m.virtualTop.toNat = Machine.bootExample.virtualTop.toNat + 4096 := by
  have orderly := Machine.bootExample_bootSpace.spaceInv.orderly
  have frames : Machine.bootExample.phy.HasFrames (20 + 4) := Machine.bootExample_hasFrames
  rcases orderly.kernelPage Machine.flagBits_kernel frames with ⟨m₁, frame, _, page, frames₁⟩
  have orderly₁ := page.page.extended.orderly
  have span := Span.of_kernelPage orderly page
  rcases Kernel.storeBytes_eq (fun _ _ => .stuck) (k := .initial m₁ 0) (span.take fits)
    orderly₁.loaded with ⟨m₂, _, wrote, back⟩
  have used : ∀ place, (∃ i < bytes.length, place = (frame, BitVec.ofNat 12 i)) →
      m₁.phy.inUse place.1 = true := by
    rintro place ⟨i, inside, rfl⟩
    exact page.page.inUse
  have top := page.virtualTop_toNat orderly
  refine ⟨_, m₂, frame, wrote.orderly orderly₁ used, ?_, ?_, span.wrote orderly₁.loaded wrote,
    back fun i inside j inside' => pagePlaces_inj fits inside inside', ?_⟩
  · intro free available offset
    rw [wrote.rest] at available
    rw [wrote.frames]
    · exact page.blank Machine.bootExample_bootSpace.zero free available offset
    · rintro other ⟨i, inside, same⟩
      have inUse := page.page.inUse
      rw [← (Prod.mk.inj same).1] at inUse
      exact absurd (available.free.symm.trans inUse) (by decide)
  · rw [wrote.rest]
    exact frames₁
  · rw [wrote.rest]
    exact top

end Sbrocks.Process
