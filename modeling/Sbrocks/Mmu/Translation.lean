import Sbrocks.Mmu.FrameBitmap
import Sbrocks.Mmu.PageTable
import Sbrocks.Radix.Forest

/-!
# What the page tables translate

The table functions are described over any set of roots whose trees form a
forest.  Descending one level keeps every translation of every root, whether the
next table was there or had to be linked, as long as a fresh table holds no
present entry; the last store then changes the translation of one page.
-/

namespace Sbrocks.Mmu

open Sbrocks.Radix

/-! ## Entries -/

/-- The frame that an entry points at, if it is present. -/
def entryFrame (entry : Word) : Option Word :=
  if isPresent entry then some (tableOf entry) else none

/-- Flag words as the callers pass them: the present bit, and no bit that belongs
to a frame address. -/
structure FlagBits (flags : Word) : Prop where
  low : flags.toNat < 4096
  present : isPresent flags = true

theorem isPresent_eq_getLsbD (entry : Word) : isPresent entry = entry.getLsbD 0 := by
  have bit : (entry &&& ptPresentFlag).toNat = entry.toNat % 2 := by
    rw [BitVec.toNat_and]
    exact Nat.and_one_is_mod _
  have zero : (entry &&& ptPresentFlag = 0) ↔ entry.toNat % 2 = 0 := by
    rw [← bit]
    exact BitVec.toNat_inj.symm
  rw [isPresent, BitVec.getLsbD, Nat.testBit_zero, bne, beq_eq_decide, Bool.not_eq_eq_eq_not,
    ← decide_not, decide_eq_decide, zero]
  omega

theorem isPresent_or {flags : Word} (present : isPresent flags = true) (entry : Word) :
    isPresent (entry ||| flags) = true := by
  rw [isPresent_eq_getLsbD] at present ⊢
  rw [BitVec.getLsbD_or, present, Bool.or_true]

theorem tableOf_toNat (entry : Word) : (tableOf entry).toNat = entry.toNat / 4096 := by
  rw [tableOf, mmPhyToPage_toNat, alignDown_toNat]
  omega

theorem tableOf_eq_mmPhyToPage (entry : Word) : tableOf entry = mmPhyToPage entry := by
  apply BitVec.eq_of_toNat_eq
  rw [tableOf_toNat, mmPhyToPage_toNat]

theorem mmPageToPhy_tableOf (entry : Word) : mmPageToPhy (tableOf entry) = alignDown entry := by
  apply BitVec.eq_of_toNat_eq
  have bound := entry.isLt
  rw [mmPageToPhy, BitVec.toNat_mul, tableOf_toNat, alignDown_toNat]
  exact Nat.mod_eq_of_lt (by simp; omega)

theorem tableOf_or {flags : Word} (low : flags.toNat < 4096) (entry : Word) :
    tableOf (entry ||| flags) = tableOf entry := by
  have shift : ∀ x : Word, tableOf x = x >>> 12 := by
    intro x
    apply BitVec.eq_of_toNat_eq
    rw [tableOf_toNat, BitVec.toNat_ushiftRight, Nat.shiftRight_eq_div_pow]
  have none : flags >>> 12 = 0 := by
    apply BitVec.eq_of_toNat_eq
    rw [BitVec.toNat_ushiftRight, Nat.shiftRight_eq_div_pow]
    exact Nat.div_eq_of_lt low
  rw [shift, shift, BitVec.ushiftRight_or_distrib, none]
  simp

theorem tableOf_alignDown (entry : Word) : tableOf (alignDown entry) = tableOf entry := by
  apply BitVec.eq_of_toNat_eq
  rw [tableOf_toNat, tableOf_toNat, alignDown_toNat]
  omega

/-- A frame address with flag bits is an entry for that frame. -/
theorem entryFrame_or {flags : Word} (flagBits : FlagBits flags) (phy : Word) :
    entryFrame (phy ||| flags) = some (mmPhyToPage phy) := by
  rw [entryFrame, isPresent_or flagBits.present, if_pos rfl, tableOf_or flagBits.low,
    tableOf_eq_mmPhyToPage]

@[simp]
theorem entryFrame_zero : entryFrame 0 = none := by decide

theorem entryFrame_eq_none_iff (entry : Word) : entryFrame entry = none ↔ isPresent entry = false := by
  rw [entryFrame]
  cases isPresent entry <;> simp

/-! ## Paths -/

/-- The indices of the three upper levels. -/
def tablePath (virt : Word) : List (BitVec 9) :=
  [pml4eOffset virt, pdpeOffset virt, pdeOffset virt]

/-- The indices of all four levels. -/
def path (virt : Word) : List (BitVec 9) :=
  tablePath virt ++ [pteOffset virt]

/-- The page of a virtual address: the 36 bits that the tables look at. -/
def vpn (virt : Word) : BitVec 36 := (virt >>> 12).setWidth 36

/-- A canonical address: bits 47 to 63 agree. -/
def Canonical (virt : Word) : Prop :=
  virt.toNat < 2 ^ 47 ∨ 2 ^ 64 - 2 ^ 47 ≤ virt.toNat

theorem pml4eOffset_toNat (virt : Word) :
    (pml4eOffset virt).toNat = virt.toNat / 2 ^ 39 % 512 := by
  rw [pml4eOffset, BitVec.toNat_setWidth, BitVec.toNat_ushiftRight, Nat.shiftRight_eq_div_pow]

theorem pdpeOffset_toNat (virt : Word) :
    (pdpeOffset virt).toNat = virt.toNat / 2 ^ 30 % 512 := by
  rw [pdpeOffset, BitVec.toNat_setWidth, BitVec.toNat_ushiftRight, Nat.shiftRight_eq_div_pow]

theorem pdeOffset_toNat (virt : Word) :
    (pdeOffset virt).toNat = virt.toNat / 2 ^ 21 % 512 := by
  rw [pdeOffset, BitVec.toNat_setWidth, BitVec.toNat_ushiftRight, Nat.shiftRight_eq_div_pow]

theorem pteOffset_toNat (virt : Word) :
    (pteOffset virt).toNat = virt.toNat / 2 ^ 12 % 512 := by
  rw [pteOffset, BitVec.toNat_setWidth, BitVec.toNat_ushiftRight, Nat.shiftRight_eq_div_pow]

theorem vpn_toNat (virt : Word) : (vpn virt).toNat = virt.toNat / 2 ^ 12 % 2 ^ 36 := by
  rw [vpn, BitVec.toNat_setWidth, BitVec.toNat_ushiftRight, Nat.shiftRight_eq_div_pow]

theorem path_length (virt : Word) : (path virt).length = 4 := rfl

/-- Two addresses take the same path exactly when they are in the same page. -/
theorem path_eq_iff (first second : Word) : path first = path second ↔ vpn first = vpn second := by
  rw [← BitVec.toNat_inj, vpn_toNat, vpn_toNat]
  simp only [path, tablePath, List.cons_append, List.nil_append, List.cons.injEq, and_true,
    ← BitVec.toNat_inj, pml4eOffset_toNat, pdpeOffset_toNat, pdeOffset_toNat, pteOffset_toNat]
  omega

/-- For canonical addresses the page is the address without its low bits. -/
theorem vpn_eq_iff_of_canonical {first second : Word} (canonical : Canonical first)
    (canonical' : Canonical second) :
    vpn first = vpn second ↔ first.toNat / 4096 = second.toNat / 4096 := by
  have bound := first.isLt
  have bound' := second.isLt
  rw [← BitVec.toNat_inj, vpn_toNat, vpn_toNat]
  rcases canonical with low | high <;> rcases canonical' with low' | high' <;> omega

namespace Machine

theorem pttable_eq_walk (m : Machine) (virt : Word) :
    m.pttable virt = walk entryFrame m.mem m.root (tablePath virt) := by
  simp only [pttable, tablePath, walk_cons, walk_nil, entryFrame]
  cases isPresent (m.mem m.root (pml4eOffset virt)) with
  | false => rfl
  | true =>
      simp only [Bool.not_true, Bool.false_eq_true, if_false, if_true, Option.bind_some]
      cases isPresent (m.mem (tableOf (m.mem m.root (pml4eOffset virt))) (pdpeOffset virt)) with
      | false => rfl
      | true =>
          simp only [Bool.not_true, Bool.false_eq_true, if_false, if_true, Option.bind_some]
          split
          · rename_i absent
            rw [if_neg (by simpa using absent)]
            rfl
          · rename_i present
            rw [if_pos (by simpa using present)]
            rfl

theorem translate_eq_walk (m : Machine) (virt : Word) :
    m.translate virt = walk entryFrame m.mem m.root (path virt) := by
  rw [path, walk_append, ← pttable_eq_walk, translate]
  cases m.pttable virt with
  | none => rfl
  | some pttable =>
      simp only [Option.bind_some, walk_cons, walk_nil, entryFrame]
      cases isPresent (m.mem pttable (pteOffset virt)) <;> rfl

/-- `virt_to_phy` is the translation with 0 for an unmapped page. -/
theorem virtToPhy_eq (m : Machine) (virt : Word) :
    m.virtToPhy virt = ((m.translate virt).map mmPageToPhy).getD 0 := by
  rw [virtToPhy, translate]
  cases m.pttable virt with
  | none => rfl
  | some pttable =>
      dsimp only
      cases isPresent (m.mem pttable (pteOffset virt)) with
      | false => rfl
      | true => exact (mmPageToPhy_tableOf _).symm

/-! ## The entry of a page -/

variable {m : Machine} {virt table : Word} {offset : BitVec 9}

theorem getPteEntry_eq_some_iff : m.getPteEntry virt = some (table, offset) ↔
    m.pttable virt = some table ∧ isPresent (m.mem table (pteOffset virt)) = true ∧
      offset = pteOffset virt := by
  unfold getPteEntry
  cases m.pttable virt with
  | none => simp
  | some pttable =>
      dsimp only
      cases present : isPresent (m.mem pttable (pteOffset virt)) with
      | false =>
          simp only [Bool.not_false, if_true, reduceCtorEq, false_iff]
          rintro ⟨found, here, _⟩
          cases found
          rw [present] at here
          cases here
      | true =>
          simp only [Bool.not_true, Bool.false_eq_true, if_false, Option.some.injEq,
            Prod.mk.injEq]
          constructor
          · rintro ⟨rfl, rfl⟩
            exact ⟨rfl, present, rfl⟩
          · rintro ⟨rfl, _, rfl⟩
            exact ⟨rfl, rfl⟩

/-- The pages that are mapped are those that have an entry. -/
theorem getPteEntry_eq_none_iff : m.getPteEntry virt = none ↔ m.translate virt = none := by
  unfold translate getPteEntry
  cases m.pttable virt with
  | none => simp
  | some pttable =>
      dsimp only
      split <;> simp

/-- The walk to an entry goes by the page alone. -/
theorem pttable_congr {other : Word} (same : path other = path virt) :
    m.pttable other = m.pttable virt := by
  rw [pttable_eq_walk, pttable_eq_walk]
  exact congrArg _ (List.append_inj_left' same rfl)

theorem getPteEntry_congr {other : Word} (same : path other = path virt) :
    m.getPteEntry other = m.getPteEntry virt := by
  have last : pteOffset other = pteOffset virt :=
    List.head_eq_of_cons_eq (List.append_inj_right' same rfl)
  unfold getPteEntry
  rw [pttable_congr same, last]

/-- An entry that is stored again is found in the same place. -/
theorem getPteEntry_setEntry {roots : Word → Prop} {shared : BitVec 9 → Prop}
    (forest : Forest entryFrame m.mem roots shared 4) (loaded : roots m.root)
    (found : m.getPteEntry virt = some (table, offset)) {entry : Word}
    (present : isPresent entry = true) :
    (m.setEntry table offset entry).getPteEntry virt = some (table, offset) := by
  rcases getPteEntry_eq_some_iff.mp found with ⟨reached, _, rfl⟩
  rw [pttable_eq_walk] at reached
  have kept := forest.walk_put_leaf (i := pteOffset virt) loaded
    (show (tablePath virt).length + 1 = 4 from rfl) reached entry loaded
    (show (tablePath virt).length ≤ 4 from Nat.le_succ 3)
  rw [if_neg, reached] at kept
  · refine getPteEntry_eq_some_iff.mpr ⟨?_, ?_, rfl⟩
    · rw [pttable_eq_walk]
      exact kept
    · rw [setEntry_mem, put_self]
      exact present
  · rintro ⟨longer, _⟩
    have lengths := congrArg List.length longer
    simp at lengths

end Machine

end Sbrocks.Mmu
