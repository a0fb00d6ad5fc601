import Mathlib.Algebra.Group.Nat.Defs
import Mathlib.Logic.Function.Basic
import Mathlib.Tactic.Common

/-!
# Machine words and page arithmetic

The kernel computes with `uint64_t`, so addresses, page numbers and table
entries are 64-bit words.  This module holds the page-size arithmetic that the
allocator and the page tables share, and the two single-bit masks of the
source: the unsigned 64-bit one and the signed 32-bit one.
-/

namespace Sbrocks

/-- `uint64_t`. -/
abbrev Word := BitVec 64

-- named, so that no definition that looks for a word in a list carries a proof of its own
instance : LawfulBEq Word := inferInstance

/-- Bytes in a page. -/
def pageSize : Word := 4096

/-- The macro `ALIGN_DOWN(x)`. -/
def alignDown (x : Word) : Word := (x >>> 12) <<< 12

/-- The macro `ALIGN_UP(x)`; the addition wraps as in C. -/
def alignUp (x : Word) : Word :=
  if x &&& (pageSize - 1) ≠ 0 then alignDown (x + pageSize) else x

/-- The page number of a physical address. -/
def mmPhyToPage (phy : Word) : Word := phy / 4096

/-- The physical address of a page number. -/
def mmPageToPhy (page : Word) : Word := page * 4096

/-- `1 << k` on an `int`, as compiled on x86: the count is taken modulo 32 and
the 32-bit result is sign-extended when it meets a `uint64_t`. -/
def intBit (k : Nat) : Word := ((1 : BitVec 32) <<< (k % 32)).signExtend 64

/-- `i << k` for a `uint64_t` holding one. -/
def wordBit (k : Nat) : Word := (1 : Word) <<< k

theorem pageSize_toNat : pageSize.toNat = 4096 := rfl

theorem alignDown_toNat (x : Word) : (alignDown x).toNat = x.toNat / 4096 * 4096 := by
  have bound : x.toNat < 2 ^ 64 := x.isLt
  simp only [alignDown, BitVec.toNat_shiftLeft, BitVec.toNat_ushiftRight,
    Nat.shiftRight_eq_div_pow, Nat.shiftLeft_eq]
  omega

theorem and_pageMask_toNat (x : Word) : (x &&& (pageSize - 1)).toNat = x.toNat % 4096 := by
  have mask : (pageSize - 1 : Word).toNat = 2 ^ 12 - 1 := rfl
  rw [BitVec.toNat_and, mask, Nat.and_two_pow_sub_one_eq_mod]

/-- Rounding up to a page, for every address in the last but one page or below. -/
theorem alignUp_toNat {x : Word} (room : x.toNat + 4096 ≤ 2 ^ 64) :
    (alignUp x).toNat = (x.toNat + 4095) / 4096 * 4096 := by
  have rest := and_pageMask_toNat x
  unfold alignUp
  split
  · rename_i unaligned
    have nonzero : x.toNat % 4096 ≠ 0 := by
      intro zero
      exact unaligned (BitVec.eq_of_toNat_eq (rest.trans zero))
    have noWrap : (x + pageSize).toNat = x.toNat + 4096 := by
      rw [BitVec.toNat_add, pageSize_toNat]
      omega
    rw [alignDown_toNat, noWrap]
    omega
  · rename_i aligned
    have zero : x.toNat % 4096 = 0 := by
      rw [← rest, not_not.mp aligned]
      rfl
    omega

theorem alignUp_multiple (x : Word) :
    (alignUp x).toNat = 4096 * ((alignUp x).toNat / 4096) := by
  have rest := and_pageMask_toNat x
  unfold alignUp
  split
  · rw [alignDown_toNat]
    omega
  · rename_i aligned
    have zero : x.toNat % 4096 = 0 := by
      rw [← rest, not_not.mp aligned]
      rfl
    omega

theorem alignDown_multiple (x : Word) :
    (alignDown x).toNat = 4096 * ((alignDown x).toNat / 4096) := by
  rw [alignDown_toNat]
  omega

theorem mmPhyToPage_toNat (phy : Word) : (mmPhyToPage phy).toNat = phy.toNat / 4096 := rfl

theorem mmPhyToPage_mmPageToPhy {page : Word} (small : page.toNat < 2 ^ 52) :
    mmPhyToPage (mmPageToPhy page) = page := by
  apply BitVec.eq_of_toNat_eq
  have product : (mmPageToPhy page).toNat = page.toNat * 4096 := by
    rw [mmPageToPhy, BitVec.toNat_mul]
    exact Nat.mod_eq_of_lt (by simp; omega)
  rw [mmPhyToPage_toNat, product]
  omega

/-- The signed mask has the single bit `k % 32`, except that bit 31 is smeared
over the whole upper half. -/
theorem intBit_getLsbD {k j : Nat} (bound : j < 64) :
    (intBit k).getLsbD j = if k % 32 = 31 then decide (31 ≤ j) else decide (j = k % 32) := by
  have small : k % 32 < 32 := Nat.mod_lt _ (by decide)
  unfold intBit
  generalize k % 32 = i at small
  revert j
  revert i
  decide +kernel

theorem wordBit_getLsbD {k j : Nat} (bound : j < 64) :
    (wordBit k).getLsbD j = decide (j = k) := by
  simp only [wordBit, BitVec.getLsbD_shiftLeft, bound, decide_true, Bool.true_and]
  by_cases below : j < k
  · simp [below, Nat.ne_of_lt below]
  · have shifted : (1 : Word).getLsbD (j - k) = decide (j - k = 0) := by simp
    rw [shifted]
    by_cases equal : j = k
    · simp [equal]
    · have positive : j - k ≠ 0 := by omega
      simp [below, equal, positive]

/-! ## Signed division -/

/-- A signed quotient of small numbers. -/
theorem toNat_sdiv {x y : BitVec 32} (x_small : x.toNat < 2 ^ 31) (y_small : y.toNat < 2 ^ 31) :
    (x.sdiv y).toNat = x.toNat / y.toNat := by
  have x_sign : x.msb = false := by
    rw [BitVec.msb_eq_decide]
    exact decide_eq_false (by omega)
  have y_sign : y.msb = false := by
    rw [BitVec.msb_eq_decide]
    exact decide_eq_false (by omega)
  rw [BitVec.sdiv_eq, x_sign, y_sign]
  exact BitVec.toNat_udiv

/-- A signed remainder of small numbers. -/
theorem toNat_srem {x y : BitVec 32} (x_small : x.toNat < 2 ^ 31) (y_small : y.toNat < 2 ^ 31) :
    (x.srem y).toNat = x.toNat % y.toNat := by
  have x_sign : x.msb = false := by
    rw [BitVec.msb_eq_decide]
    exact decide_eq_false (by omega)
  have y_sign : y.msb = false := by
    rw [BitVec.msb_eq_decide]
    exact decide_eq_false (by omega)
  rw [BitVec.srem_eq, x_sign, y_sign]
  exact BitVec.toNat_umod

end Sbrocks
