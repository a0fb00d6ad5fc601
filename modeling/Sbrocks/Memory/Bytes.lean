import Mathlib.Algebra.Group.Nat.Defs
import Mathlib.Logic.Function.Basic
import Mathlib.Tactic.Common

/-!
# Numbers in byte memory

A flat memory of bytes, and the little-endian numbers stored in it.  What a store
leaves alone is said once, for any number of bytes.
-/

namespace Sbrocks.Bytes

/-- A byte at each address of `w` bits. -/
abbrev Memory (w : Nat) := BitVec w → BitVec 8

variable {w : Nat}

/-- The number in the `n` bytes from an address on, lowest first. -/
def load (mem : Memory w) (addr : BitVec w) : Nat → Nat
  | 0 => 0
  | n + 1 => (mem addr).toNat + 256 * load mem (addr + 1) n

/-- Put the `n` low bytes of a number from an address on, lowest first. -/
def store (mem : Memory w) (addr : BitVec w) (value : Nat) : Nat → Memory w
  | 0 => mem
  | n + 1 => store (Function.update mem addr (BitVec.ofNat 8 value)) (addr + 1) (value / 256) n

variable {mem mem' : Memory w} {addr x : BitVec w} {value n : Nat}

theorem toNat_add_one (room : addr.toNat + (n + 1) < 2 ^ w) : (addr + 1).toNat = addr.toNat + 1 := by
  have one : (1 : BitVec w).toNat = 1 % 2 ^ w := BitVec.toNat_ofNat 1 w
  rw [BitVec.toNat_add, one, Nat.add_mod_mod, Nat.mod_eq_of_lt (by omega)]

/-- A store leaves the bytes outside its range alone. -/
theorem store_outside (room : addr.toNat + n < 2 ^ w)
    (outside : x.toNat < addr.toNat ∨ addr.toNat + n ≤ x.toNat) :
    store mem addr value n x = mem x := by
  induction n generalizing mem addr value with
  | zero => rfl
  | succ n ih =>
      have following := toNat_add_one room
      rw [store, ih (by omega) (by omega), Function.update_of_ne]
      rintro rfl
      omega

/-- A number depends on the bytes of its range only. -/
theorem load_congr (room : addr.toNat + n < 2 ^ w)
    (same : ∀ x, addr.toNat ≤ x.toNat → x.toNat < addr.toNat + n → mem' x = mem x) :
    load mem' addr n = load mem addr n := by
  induction n generalizing addr with
  | zero => rfl
  | succ n ih =>
      have following := toNat_add_one room
      have here := same addr (Nat.le_refl _) (by omega)
      have rest : load mem' (addr + 1) n = load mem (addr + 1) n :=
        ih (by omega) fun x low high => same x (by omega) (by omega)
      rw [load, load, here, rest]

theorem add_one_add (addr : BitVec w) (i : Nat) :
    addr + 1 + BitVec.ofNat w i = addr + BitVec.ofNat w (i + 1) := by
  rw [BitVec.add_assoc, BitVec.add_comm 1, BitVec.ofNat_add]
  rfl

/-- A store leaves the bytes that it does not reach alone. -/
theorem store_of_ne (apart : ∀ i < n, addr + BitVec.ofNat w i ≠ x) :
    store mem addr value n x = mem x := by
  induction n generalizing mem addr value with
  | zero => rfl
  | succ n ih =>
      have here : x ≠ addr := by
        have first := apart 0 (Nat.succ_pos n)
        rw [BitVec.add_zero] at first
        exact first.symm
      rw [store, ih, Function.update_of_ne here]
      intro i inside
      rw [add_one_add]
      exact apart (i + 1) (by omega)

/-- What was stored is read back, also where the addresses wrap around. -/
theorem load_store (short : n ≤ 2 ^ w) (small : value < 256 ^ n) :
    load (store mem addr value n) addr n = value := by
  induction n generalizing mem addr value with
  | zero =>
      rw [Nat.pow_zero] at small
      rw [load]
      omega
  | succ n ih =>
      have rest : value / 256 < 256 ^ n := by
        rw [Nat.div_lt_iff_lt_mul (by omega), ← Nat.pow_succ]
        exact small
      have apart : ∀ i < n, addr + 1 + BitVec.ofNat w i ≠ addr := by
        intro i inside around
        rw [add_one_add] at around
        have zero := congrArg BitVec.toNat (BitVec.add_right_eq_self.mp around)
        rw [BitVec.toNat_ofNat, Nat.mod_eq_of_lt (by omega)] at zero
        exact absurd zero (Nat.succ_ne_zero i)
      have lowest : store (Function.update mem addr (BitVec.ofNat 8 value)) (addr + 1) (value / 256) n
          addr = BitVec.ofNat 8 value := by
        rw [store_of_ne apart, Function.update_self]
      rw [store, load, lowest, ih (by omega) rest, BitVec.toNat_ofNat]
      omega

/-- A store leaves the numbers outside its range alone. -/
theorem load_store_apart {other : BitVec w} {k : Nat} (room : addr.toNat + n < 2 ^ w)
    (roomOther : other.toNat + k < 2 ^ w)
    (apart : other.toNat + k ≤ addr.toNat ∨ addr.toNat + n ≤ other.toNat) :
    load (store mem addr value n) other k = load mem other k := by
  apply load_congr roomOther
  intro x low high
  exact store_outside room (by omega)

end Sbrocks.Bytes
