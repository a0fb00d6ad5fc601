import Sbrocks.Chain.Linked
import Sbrocks.Process.Devices
import Sbrocks.Process.Elf

/-!
# The areas of an address space are released

`free_task_mm_struct` clears and frees each area of its list and puts it on the free
list.  That cuts the link the loop goes on with, so that only the first area is ever
released; and of a stack, whose bounds stand the other way around, it clears all the
address space but the stack.
-/

namespace Sbrocks.Process

open Sbrocks.Mmu

/-! ## Ranges -/

/-- The lower bound of an area: a stack grows down from its start. -/
def VmAreaStruct.lower (s : VmAreaStruct) : Word :=
  if s.vmaType = .stack then s.vmEnd else s.vmStart

/-- The upper bound of an area. -/
def VmAreaStruct.upper (s : VmAreaStruct) : Word :=
  if s.vmaType = .stack then s.vmStart else s.vmEnd

/-- An address and a length. -/
structure Range where
  addr : Word
  length : Word

/-- The bytes of a range. -/
def Range.Holds (range : Range) (x : Word) : Prop :=
  ∃ j < range.length.toNat, x = range.addr + BitVec.ofNat 64 j

/-- The ranges that `free_task_mm_struct` passes to `memset` and to `kfree` for an area, if it
releases its memory; `orphan` says that the task has no parent. -/
def released (orphan : Bool) (s : VmAreaStruct) : Option (Range × Range) :=
  if s.vmaType = .stack then
    some (⟨s.vmStart, s.vmEnd - s.vmStart⟩, ⟨s.vmEnd, s.vmStart - s.vmEnd⟩)
  else if orphan then
    some (⟨s.vmStart, s.vmEnd - s.vmStart⟩, ⟨s.vmStart, s.vmEnd - s.vmStart⟩)
  else none

/-- A range has the bytes between the bounds of an area, and its length is the difference of the
bounds. -/
def Range.Matches (range : Range) (s : VmAreaStruct) : Prop :=
  (range.length.toNat : Int) = s.upper.toNat - s.lower.toNat ∧
    ∀ x, range.Holds x ↔ s.lower.toNat ≤ x.toNat ∧ x.toNat < s.upper.toNat

/-- What is cleared and what is freed for an area are the bytes between its bounds. -/
def ReleasesExactly (orphan : Bool) (s : VmAreaStruct) : Prop :=
  ∀ ranges, released orphan s = some ranges → ranges.1.Matches s ∧ ranges.2.Matches s

variable {fault : Fault} {k k' : Kernel} {mm task vma : Word} {areas frees : List Word}
  {s : VmAreaStruct} {low high : Word}

/-- A task without a parent. -/
def Kernel.isOrphan (k : Kernel) (task : Word) : Bool := decide ((k.task task).parent = none)

/-- `memset` and `kfree` with the given ranges. -/
def Kernel.release (k : Kernel) (fault : Fault) (cleared freed : Range) : Flow Kernel Kernel := do
  let k ← k.memset fault cleared.addr 0 cleared.length.toNat
  return k.setMachine (k.m.kfree freed.addr freed.length)

/-- The ranges are the ones that the loop passes on. -/
theorem freeArea_eq (fault : Fault) (k : Kernel) (task vma : Word) :
    k.freeArea fault task vma = match released (k.isOrphan task) (k.vma vma) with
      | none => .next k
      | some (cleared, freed) => k.release fault cleared freed := by
  unfold Kernel.freeArea released Kernel.isOrphan
  dsimp only
  by_cases stack : (k.vma vma).vmaType = .stack
  · rw [if_pos stack, if_pos stack]
    rfl
  · rw [if_neg stack, if_neg stack]
    by_cases orphan : (k.task task).parent = none
    · rw [if_pos orphan, if_pos (decide_eq_true orphan)]
      rfl
    · rw [if_neg orphan, if_neg (by simpa using orphan)]

/-- The range from the lower bound up, if the bounds are in order. -/
theorem length_iff (low high : Word) :
    ((⟨low, high - low⟩ : Range).length.toNat : Int) = high.toNat - low.toNat ↔
      low.toNat ≤ high.toNat := by
  have bound := low.isLt
  have bound' := high.isLt
  rw [BitVec.toNat_sub]
  omega

theorem holds_iff (ordered : low.toNat ≤ high.toNat) (x : Word) :
    (⟨low, high - low⟩ : Range).Holds x ↔ low.toNat ≤ x.toNat ∧ x.toNat < high.toNat := by
  have length : (high - low).toNat = high.toNat - low.toNat := by
    have bound := low.isLt
    have bound' := high.isLt
    rw [BitVec.toNat_sub]
    omega
  have bound := high.isLt
  unfold Range.Holds
  dsimp only
  rw [length]
  constructor
  · rintro ⟨j, below, rfl⟩
    rw [BitVec.toNat_add, BitVec.toNat_ofNat]
    omega
  · rintro ⟨above, below⟩
    refine ⟨x.toNat - low.toNat, by omega, BitVec.eq_of_toNat_eq ?_⟩
    rw [BitVec.toNat_add, BitVec.toNat_ofNat]
    omega

/-- A range from a lower bound up matches the area if the bounds are in order. -/
theorem matches_ordered_iff (lower : s.lower = low) (upper : s.upper = high) :
    (⟨low, high - low⟩ : Range).Matches s ↔ low.toNat ≤ high.toNat := by
  rw [Range.Matches, lower, upper, length_iff]
  exact ⟨And.left, fun ordered => ⟨ordered, holds_iff ordered⟩⟩

/-- What is cleared of a stack begins where the stack ends. -/
theorem stack_not_matches (upper : s.upper = high) (apart : high ≠ low) :
    ¬(⟨high, low - high⟩ : Range).Matches s := by
  rintro ⟨_, bytes⟩
  have positive : 0 < (low - high).toNat := by
    apply Nat.pos_of_ne_zero
    intro zero
    apply apart
    apply BitVec.eq_of_toNat_eq
    have bound := low.isLt
    have bound' := high.isLt
    rw [BitVec.toNat_sub] at zero
    omega
  have first := (bytes high).mp ⟨0, positive, (BitVec.add_zero high).symm⟩
  rw [upper] at first
  exact Nat.lt_irrefl _ first.2

/-- The memory of an area is released exactly, if at all, when its bounds are in order and it is
no stack, unless the stack is empty. -/
theorem releasesExactly_iff (orphan : Bool) (s : VmAreaStruct) :
    ReleasesExactly orphan s ↔
      (s.vmaType = .stack → s.vmStart = s.vmEnd) ∧
        (s.vmaType ≠ .stack → orphan = true → s.vmStart.toNat ≤ s.vmEnd.toNat) := by
  by_cases stack : s.vmaType = .stack
  · have lower : s.lower = s.vmEnd := if_pos stack
    have upper : s.upper = s.vmStart := if_pos stack
    have ranges : released orphan s =
        some (⟨s.vmStart, s.vmEnd - s.vmStart⟩, ⟨s.vmEnd, s.vmStart - s.vmEnd⟩) := if_pos stack
    constructor
    · intro exactly
      refine ⟨fun _ => ?_, fun other => absurd stack other⟩
      by_contra apart
      exact stack_not_matches upper apart (exactly _ ranges).1
    · rintro ⟨empty, _⟩ found some
      rw [ranges] at some
      cases some
      have same : s.vmEnd.toNat ≤ s.vmStart.toNat := Nat.le_of_eq (by rw [empty stack])
      have freed := (matches_ordered_iff lower upper).mpr same
      have cleared : (⟨s.vmStart, s.vmEnd - s.vmStart⟩ : Range) =
          ⟨s.vmEnd, s.vmStart - s.vmEnd⟩ := by
        rw [empty stack]
      exact ⟨cleared ▸ freed, freed⟩
  · have lower : s.lower = s.vmStart := if_neg stack
    have upper : s.upper = s.vmEnd := if_neg stack
    cases orphan with
    | false =>
        have ranges : released false s = none := by
          rw [released, if_neg stack]
          rfl
        constructor
        · intro _
          exact ⟨fun here => absurd here stack, fun _ impossible => by cases impossible⟩
        · intro _ found some
          rw [ranges] at some
          cases some
    | true =>
        have ranges : released true s =
            some (⟨s.vmStart, s.vmEnd - s.vmStart⟩, ⟨s.vmStart, s.vmEnd - s.vmStart⟩) := by
          rw [released, if_neg stack]
          rfl
        constructor
        · intro exactly
          refine ⟨fun here => absurd here stack, fun _ _ => ?_⟩
          exact (matches_ordered_iff lower upper).mp (exactly _ ranges).1
        · rintro ⟨_, ordered⟩ found some
          rw [ranges] at some
          cases some
          have fits := (matches_ordered_iff lower upper).mpr (ordered stack rfl)
          exact ⟨fits, fits⟩

/-- The ranges that the release of an area is passed are exactly its bytes in these cases. -/
theorem freeArea_releasesExactly_iff (fault : Fault) (k : Kernel) (task vma : Word) :
    (k.freeArea fault task vma = match released (k.isOrphan task) (k.vma vma) with
      | none => .next k
      | some (cleared, freed) => k.release fault cleared freed) ∧
    (ReleasesExactly (k.isOrphan task) (k.vma vma) ↔
      ((k.vma vma).vmaType = .stack → (k.vma vma).vmStart = (k.vma vma).vmEnd) ∧
        ((k.vma vma).vmaType ≠ .stack → k.isOrphan task = true →
          (k.vma vma).vmStart.toNat ≤ (k.vma vma).vmEnd.toNat)) :=
  ⟨freeArea_eq fault k task vma, releasesExactly_iff _ _⟩

/-- The stack area that `readElf` creates. -/
def stackArea (mm : Word) : VmAreaStruct where
  vmMm := some mm
  vmStart := userStack
  vmEnd := userStack - userStackSize
  vmFlags := vmRw
  vmFileDescp := 0
  vmaType := .stack
  next := none

/-- Of that area all the address space but the stack is cleared. -/
theorem stackArea_not_releasesExactly : ¬ReleasesExactly true (stackArea 1) := by
  intro exactly
  have ranges : released true (stackArea 1) =
      some (⟨userStack, userStack - userStackSize - userStack⟩,
        ⟨userStack - userStackSize, userStack - (userStack - userStackSize)⟩) := rfl
  have upper : (stackArea 1).upper = userStack := if_pos rfl
  have apart : userStack ≠ userStack - userStackSize := by decide
  exact stack_not_matches upper apart (exactly _ ranges).1

/-! ## The list -/

/-- The fields that are cleared before an area is put on the free list. -/
def clearedArea (s : VmAreaStruct) : VmAreaStruct :=
  { s with vmMm := none, vmStart := 0, vmEnd := 0, vmFlags := 0, vmFileDescp := 0 }

/-- Each of some areas is released, one after the other: its memory is cleared and freed where that
is due, its fields are cleared, and it is put on the free list. -/
inductive ReleasesEach (fault : Fault) (task : Word) : Kernel → List Word → Kernel → Prop
  | nil {k : Kernel} : ReleasesEach fault task k [] k
  | cons {k k₁ k₂ k' : Kernel} {vma : Word} {rest : List Word}
      (memory : k.freeArea fault task vma = .next k₁)
      (listed : (k₁.modVma vma clearedArea).addToFreeVmList vma = .next k₂)
      (others : ReleasesEach fault task k₂ rest k') : ReleasesEach fault task k (vma :: rest) k'

/-- All areas of a memory structure are released: they follow the free list, in order, its own list
is empty, and nothing else was done than releasing each of them. -/
structure ReleasesAll (fault : Fault) (mm task : Word) (areas frees : List Word) (k k' : Kernel) :
    Prop where
  freed : Chain.Linked k'.nextVma k'.freeVmList (frees ++ areas)
  once : (frees ++ areas).Nodup
  empty : (k'.mm mm).vmaList = none
  each : ∃ k₁, ReleasesEach fault task
      (k.modMm mm fun s => { s with totalVmSize := 0, stackVm := 0 }) areas k₁ ∧
    k' = k₁.modMm mm fun s => { s with vmaList := none, totalVmSize := 0, stackVm := 0 }

/-- The lists of the areas of a memory structure and of the free areas. -/
structure AreaLists (k : Kernel) (mm : Word) (areas frees : List Word) : Prop where
  own : Chain.Linked k.nextVma (k.mm mm).vmaList areas
  free : Chain.Linked k.nextVma k.freeVmList frees
  apart : ∀ vma ∈ areas, vma ∉ frees

/-- Releasing the memory of an area leaves the lists alone. -/
theorem freeArea_touched (answers : fault.Answers (fun _ => True) fun _ => True)
    (result : k.freeArea fault task vma = .next k') : Touched k k' := by
  have cleared : ∀ (start : Word) (n : Nat) (m : Kernel → Machine),
      (do let k ← k.memset fault start 0 n
          return k.setMachine (m k)).All (Touched k) fun _ : Kernel => True := by
    intro start n m
    apply Touches.bind answers.touched trivial (Kernel.memset_touches answers.touched trivial start 0 n)
    intro k₁ _
    exact Touched.setMachine k₁ _
  have all : (k.freeArea fault task vma).All (Touched k) fun _ => True := by
    unfold Kernel.freeArea
    dsimp only
    split
    · exact cleared _ _ _
    · split
      · exact cleared _ _ _
      · exact Touched.refl k
  exact all.of_next result

/-- An area is put at the end of the free list. -/
theorem addToFreeVmList_linked (linked : Chain.Linked k.nextVma k.freeVmList frees)
    (fresh : vma ∉ frees) (result : k.addToFreeVmList vma = .next k') :
    Chain.Linked k'.nextVma k'.freeVmList (frees ++ [vma]) ∧ k'.nextVma vma = none ∧
      k'.mm = k.mm := by
  unfold Kernel.addToFreeVmList at result
  cases first : k.freeVmList with
  | none =>
      rw [first] at result linked
      cases result
      have ends : ({ k with freeVmList := some vma }.modVma vma
          fun s => { s with next := none }).nextVma vma = none := by
        unfold Kernel.nextVma Kernel.modVma
        simp
      rw [linked.eq_nil]
      exact ⟨⟨rfl, ends⟩, ends, rfl⟩
  | some first =>
      rw [first] at result linked
      rcases Flow.bind_eq_next result with ⟨p, found, rest⟩
      cases rest
      rcases linked.last_eq (Flow.ofOption_eq_next found) with ⟨front, rfl⟩
      have links : ((k.modVma p fun s => { s with next := some vma }).modVma vma
          fun s => { s with next := none }).nextVma =
            Function.update (Function.update k.nextVma p (some vma)) vma none := by
        funext x
        unfold Kernel.nextVma Kernel.modVma
        by_cases here : x = vma
        · subst here
          simp
        · by_cases there : x = p
          · subst there
            simp [here]
          · simp [here, there]
      refine ⟨?_, ?_, rfl⟩
      · rw [links]
        have head : ((k.modVma p fun s => { s with next := some vma }).modVma vma
            fun s => { s with next := none }).freeVmList = k.freeVmList := rfl
        rw [head, first]
        exact linked.push fresh
      · rw [links]
        exact Function.update_self ..

/-- An area whose memory was released is put on the free list, and its link is cut. -/
theorem released_linked (free : Chain.Linked k.nextVma k.freeVmList frees) (fresh : vma ∉ frees)
    (touched : Touched k k') {k₂ : Kernel}
    (listed : (k'.modVma vma clearedArea).addToFreeVmList vma = .next k₂) :
    Chain.Linked k₂.nextVma k₂.freeVmList (frees ++ [vma]) ∧ k₂.nextVma vma = none := by
  have vmas : k'.nextVma = k.nextVma := by
    rw [touched.same]
    rfl
  have links : (k'.modVma vma clearedArea).nextVma = k.nextVma := by
    rw [← vmas]
    funext x
    exact k'.modVma_nextVma vma x clearedArea rfl
  have head : (k'.modVma vma clearedArea).freeVmList = k.freeVmList := by
    rw [touched.same]
    rfl
  have linked : Chain.Linked (k'.modVma vma clearedArea).nextVma
      (k'.modVma vma clearedArea).freeVmList frees := by
    rw [links, head]
    exact free
  have done := addToFreeVmList_linked linked fresh listed
  exact ⟨done.1, done.2.1⟩

/-- `free_task_mm_struct` releases all areas exactly if there is at most one. -/
theorem freeTaskMmStruct_releasesAll_iff (frames : Kernel → Word → Regs) (depth : Nat)
    (lists : AreaLists k mm areas frees)
    (result : k.freeTaskMmStruct (Kernel.kernelFault frames depth) mm task = .next k') :
    ReleasesAll (Kernel.kernelFault frames depth) mm task areas frees k k' ↔ areas.length ≤ 1 := by
  let k₀ := k.modMm mm fun s => { s with totalVmSize := 0, stackVm := 0 }
  have lists₀ : Chain.Linked k₀.nextVma k₀.freeVmList frees := lists.free
  have once : (frees ++ areas).Nodup := by
    apply List.Nodup.append lists.free.nodup lists.own.nodup
    intro vma free own
    exact lists.apart vma own free
  have empty : ∀ k₁ : Kernel, ((k₁.modMm mm fun s =>
      { s with vmaList := none, totalVmSize := 0, stackVm := 0 }).mm mm).vmaList = none := by
    intro k₁
    unfold Kernel.modMm
    simp
  unfold Kernel.freeTaskMmStruct at result
  rcases Flow.bind_eq_next result with ⟨k₁, looped, last⟩
  cases last
  change k₀.freeAreas (Kernel.kernelFault frames depth) task (k.mm mm).vmaList
    (k.vmaStructs.length + 1) = .next k₁ at looped
  cases areas with
  | nil =>
      rw [show (k.mm mm).vmaList = none from lists.own, Kernel.freeAreas] at looped
      cases looped
      refine ⟨fun _ => Nat.zero_le _, fun _ => ⟨?_, once, empty _, _, .nil, rfl⟩⟩
      rw [List.append_nil]
      exact lists₀
  | cons first rest =>
      rw [lists.own.1, Kernel.freeAreas] at looped
      rcases Flow.bind_eq_next looped with ⟨k₂, memory, looped₂⟩
      rcases Flow.bind_eq_next looped₂ with ⟨k₃, listed, looped₃⟩
      have touched := freeArea_touched (kernelFault_touched frames depth) memory
      have fresh := lists.apart first List.mem_cons_self
      rcases released_linked lists₀ fresh touched listed with ⟨free, ends⟩
      rw [ends] at looped₃
      have same : k₃ = k₁ := by
        cases structs : k.vmaStructs.length with
        | zero =>
            rw [structs] at looped₃
            cases looped₃
        | succ n =>
            rw [structs] at looped₃
            cases looped₃
            rfl
      subst same
      constructor
      · intro all
        have equal := free.unique all.freed
        have behind := List.append_cancel_left equal
        cases rest with
        | nil => exact Nat.le_refl 1
        | cons second rest => cases behind
      · intro few
        cases rest with
        | nil => exact ⟨free, once, empty _, _, .cons memory listed .nil, rfl⟩
        | cons second rest =>
            simp only [List.length_cons] at few
            omega

/-- A memory that was never written. -/
def unwritten : Machine where
  phy := ⟨fun _ => 0, fun _ _ => 0, []⟩
  mem _ _ := 0
  cr3 := 0
  kCr3 := 0
  virtualTop := 0

/-- A task without a parent, whose address space has a heap of no bytes, linked as given. -/
def withAreas (link : Word → Option Word) : Kernel :=
  { Kernel.initial unwritten 0 with
    task := fun _ => { (default : TaskStruct) with mm := 0x2000 }
    mm := fun _ => { (default : MmStruct) with vmaList := some 0x4000 }
    vma := fun p =>
      { (default : VmAreaStruct) with
        vmStart := userHeap, vmEnd := userHeap, vmaType := .heap, next := link p }
    vmaStructs := [0x5000, 0x4000] }

/-- The kernel when the areas were released. -/
def afterRelease (k : Kernel) : Kernel :=
  match k.freeTaskMmStruct (Kernel.kernelFault (fun _ _ => default) 0) 0x2000 0x1000 with
  | .next k' => k'
  | _ => k

/-- One area. -/
def oneArea : Kernel := withAreas fun _ => none

theorem oneArea_lists : AreaLists oneArea 0x2000 [0x4000] [] where
  own := ⟨rfl, rfl⟩
  free := rfl
  apart _ _ := List.not_mem_nil

/-- The only area is released. -/
theorem oneArea_releasesAll :
    ReleasesAll (Kernel.kernelFault (fun _ _ => default) 0) 0x2000 0x1000 [0x4000] []
      oneArea (afterRelease oneArea) :=
  (freeTaskMmStruct_releasesAll_iff _ _ oneArea_lists rfl).mpr (Nat.le_refl 1)

/-- Two areas. -/
def twoAreas : Kernel := withAreas fun p => if p = 0x4000 then some 0x5000 else none

/-- Of two areas only the first gets on the free list. -/
theorem twoAreas_not_releasesAll :
    Chain.Linked twoAreas.nextVma (twoAreas.mm 0x2000).vmaList [0x4000, 0x5000] ∧
      Chain.Linked twoAreas.nextVma twoAreas.freeVmList [] ∧
      twoAreas.freeTaskMmStruct (Kernel.kernelFault (fun _ _ => default) 0) 0x2000 0x1000 =
        .next (afterRelease twoAreas) ∧
      ¬ReleasesAll (Kernel.kernelFault (fun _ _ => default) 0) 0x2000 0x1000 [0x4000, 0x5000] []
        twoAreas (afterRelease twoAreas) := by
  refine ⟨⟨rfl, rfl, rfl⟩, rfl, rfl, ?_⟩
  intro all
  have free : Chain.Linked (afterRelease twoAreas).nextVma (afterRelease twoAreas).freeVmList
      [0x4000] := ⟨rfl, rfl⟩
  cases free.unique all.freed

end Sbrocks.Process
