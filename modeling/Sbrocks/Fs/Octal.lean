import Mathlib.Data.BitVec
import Sbrocks.Fs.Archive

/-!
# Octal numbers

The size of a file stands in its header in octal digits.  `atoi` takes them for decimal
ones, and `octal_to_decimal` takes the number apart again, with powers of eight from a
function that halves its exponent.
-/

namespace Sbrocks.Process

namespace Kstring

/-- `power`. -/
def power (x y : Word) : Word :=
  if y = 0 then 1
  else if y % 2 = 0 then power x (y / 2) * power x (y / 2)
  else x * power x (y / 2) * power x (y / 2)
termination_by y.toNat
decreasing_by
  all_goals
    have nonzero : y.toNat ≠ 0 := fun zero => ‹¬y = 0› (BitVec.eq_of_toNat_eq zero)
    have half : (y / 2).toNat = y.toNat / 2 := BitVec.toNat_udiv
    omega

/-- The loop of `octal_to_decimal`. -/
def octalLoop (oct : BitVec 32) (res : Word) (i : BitVec 32) : Nat → Option Word
  | 0 => none
  | rounds + 1 =>
      if oct = 0 then some res
      else
        let digit := oct.srem 10
        octalLoop (oct.sdiv 10) (res + ofInt digit * power 8 (ofInt i)) (i + 1) rounds

/-- `octal_to_decimal`; an `int` has at most ten decimal digits. -/
def octalToDecimal (oct : BitVec 32) : Option Word := octalLoop oct 0 0 11

/-! ## Powers -/

/-- Halving the exponent and squaring is a power. -/
theorem power_eq (x y : Word) : power x y = x ^ y.toNat := by
  have half : ∀ y : Word, (y / 2).toNat = y.toNat / 2 := fun y => BitVec.toNat_udiv
  have parity : ∀ y : Word, y % 2 = 0 ↔ y.toNat % 2 = 0 := by
    intro y
    rw [← BitVec.toNat_inj, BitVec.toNat_umod]
    rfl
  fun_induction power x y with
  | case1 => rfl
  | case2 y nonzero even ih =>
      have whole : y.toNat = y.toNat / 2 + y.toNat / 2 := by
        have := (parity y).mp even
        omega
      rw [ih, half, ← pow_add, ← whole]
  | case3 y nonzero odd ih =>
      have whole : y.toNat = 1 + y.toNat / 2 + y.toNat / 2 := by
        have := mt (parity y).mpr odd
        omega
      rw [ih, half, ← pow_succ', ← pow_add, Nat.add_comm _ 1, ← whole]

theorem ofInt_ofNat {i : Nat} (few : i < 2 ^ 31) : ofInt (BitVec.ofNat 32 i) = BitVec.ofNat 64 i := by
  have value := toNat_ofNat_int few
  have sign : (BitVec.ofNat 32 i).msb = false := by
    rw [BitVec.msb_eq_decide, value]
    exact decide_eq_false (by omega)
  rw [ofInt, BitVec.signExtend_eq_setWidth_of_msb_false sign, ← BitVec.ofNat_toNat, value]

/-- The loop with the power of eight that it has reached. -/
theorem octalLoop_some {n i rounds : Nat} (positive : n < 2 ^ 31) (enough : n < 10 ^ rounds)
    (few : i + rounds < 2 ^ 31) (res : Word) :
    octalLoop (BitVec.ofNat 32 n) res (BitVec.ofNat 32 i) (rounds + 1) =
      some (res + Process.octalLoop (BitVec.ofNat 32 n) (8 ^ i) (rounds + 1)) := by
  induction rounds generalizing n i res with
  | zero =>
      obtain rfl : n = 0 := by omega
      have zero : BitVec.ofNat 32 0 = 0 := rfl
      rw [octalLoop, if_pos zero, Process.octalLoop, if_pos zero, add_zero]
  | succ rounds ih =>
      unfold octalLoop Process.octalLoop
      split
      · rw [add_zero]
      · have next : BitVec.ofNat 32 i + 1 = BitVec.ofNat 32 (i + 1) := (BitVec.ofNat_add i 1).symm
        have shorter : n / 10 < 10 ^ rounds := by
          rw [Nat.pow_succ] at enough
          omega
        have power : power 8 (ofInt (BitVec.ofNat 32 i)) = 8 ^ i := by
          rw [power_eq, ofInt_ofNat (by omega), BitVec.toNat_ofNat, Nat.mod_eq_of_lt (by omega)]
        rw [ofNat_sdiv_ten positive, next, ih (by omega) shorter (by omega), power, pow_succ,
          BitVec.add_assoc]

/-- What `octal_to_decimal` makes of the decimal reading of octal digits is the number that they
denote. -/
theorem octalToDecimal_atoi {digits : List Nat} (octal : ∀ d ∈ digits, d < 8)
    (fits : numeral 10 digits < 2 ^ 31) :
    ∃ size, octalToDecimal (atoi (digits.map digitChar)) = some size ∧
      size.toNat = numeral 8 digits := by
  have decimal : ∀ d ∈ digits, d < 10 := fun d member => (octal d member).trans (by decide)
  have enough : numeral 10 digits < 10 ^ 10 := fits.trans (by decide)
  have read := octalToDecimal_eq decimal fits
  refine ⟨BitVec.ofNat 64 (numeral 8 digits), ?_, ?_⟩
  · rw [atoi_eq decimal, octalToDecimal, show (0 : BitVec 32) = BitVec.ofNat 32 0 from rfl,
      octalLoop_some fits enough (by decide), ← read, pow_zero, zero_add]
    rfl
  · rw [BitVec.toNat_ofNat]
    apply Nat.mod_eq_of_lt
    have less : numeral 8 digits ≤ numeral 10 digits :=
      Nat.ofDigits_monotone digits.reverse (by decide)
    omega

/-- The digits of the size 8186 in a header. -/
theorem octalToDecimal_atoi_size :
    ∃ size, octalToDecimal (atoi ([0, 0, 0, 0, 0, 0, 1, 7, 7, 7, 2].map digitChar)) = some size ∧
      size.toNat = 8186 :=
  octalToDecimal_atoi (by decide) (by decide)

end Kstring

end Sbrocks.Process
