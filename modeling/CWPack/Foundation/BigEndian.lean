/-
  Foundation/BigEndian.lean --- fixed-width big-endian numerals.

  A `k`-byte numeral is the list of its bytes, most significant first.  Writing
  truncates modulo `256 ^ k`, the way a cast to a fixed-width unsigned type does,
  and reading back is exact on what was written.
-/
import Mathlib.Algebra.Ring.Int.Defs
import Mathlib.Algebra.Ring.Nat

set_option autoImplicit false

namespace CWPack.Foundation

/-! ## Writing and reading -/

/-- The `k` low-order bytes of `n`, most significant first. -/
def bigEndian : Nat → Nat → List UInt8
  | 0, _ => []
  | k + 1, n => UInt8.ofNat (n / 256 ^ k) :: bigEndian k n

/-- The number a list of bytes denotes, most significant first. -/
def ofBigEndian : List UInt8 → Nat
  | [] => 0
  | b :: bs => b.toNat * 256 ^ bs.length + ofBigEndian bs

@[simp] theorem bigEndian_length (k n : Nat) : (bigEndian k n).length = k := by
  induction k with
  | zero => rfl
  | succ k ih => simp [bigEndian, ih]

theorem ofBigEndian_lt (bs : List UInt8) : ofBigEndian bs < 256 ^ bs.length := by
  induction bs with
  | nil => simp [ofBigEndian]
  | cons b bs ih =>
      have hb : b.toNat < 256 := b.toNat_lt
      have hmul : (b.toNat + 1) * 256 ^ bs.length ≤ 256 * 256 ^ bs.length :=
        Nat.mul_le_mul_right _ hb
      have hsucc : (b.toNat + 1) * 256 ^ bs.length =
          b.toNat * 256 ^ bs.length + 256 ^ bs.length := Nat.succ_mul _ _
      have hpow : 256 ^ (b :: bs).length = 256 * 256 ^ bs.length := by
        rw [List.length_cons, Nat.pow_succ, Nat.mul_comm]
      rw [ofBigEndian, hpow]
      omega

/-- Writing truncates, reading back is exact. -/
theorem ofBigEndian_bigEndian (k n : Nat) : ofBigEndian (bigEndian k n) = n % 256 ^ k := by
  induction k with
  | zero => simp [bigEndian, ofBigEndian, Nat.mod_one]
  | succ k ih =>
      have hbyte : (UInt8.ofNat (n / 256 ^ k)).toNat = n / 256 ^ k % 256 :=
        UInt8.toNat_ofNat'
      have hsplit : n % 256 ^ (k + 1) = n % 256 ^ k + 256 ^ k * (n / 256 ^ k % 256) := by
        rw [Nat.pow_succ, Nat.mod_mul]
      rw [bigEndian, ofBigEndian, bigEndian_length, hbyte, ih, hsplit, Nat.mul_comm]
      omega

theorem ofBigEndian_bigEndian_of_lt {k n : Nat} (h : n < 256 ^ k) :
    ofBigEndian (bigEndian k n) = n := by
  rw [ofBigEndian_bigEndian, Nat.mod_eq_of_lt h]

/-- Only the low-order bytes of the operand are written. -/
theorem bigEndian_mod (k n : Nat) : ∀ w, k ≤ w → bigEndian k (n % 256 ^ w) = bigEndian k n := by
  induction k with
  | zero => intro w _; rfl
  | succ k ih =>
      intro w hw
      rw [bigEndian, bigEndian, ih w (by omega)]
      congr 1
      apply UInt8.toNat_inj.mp
      rw [UInt8.toNat_ofNat', UInt8.toNat_ofNat']
      have hpow : 256 ^ w = 256 ^ k * (256 * 256 ^ (w - k - 1)) := by
        rw [← Nat.mul_assoc, ← Nat.pow_succ, ← Nat.pow_add]
        congr 1
        omega
      rw [hpow, Nat.mod_mul_right_div_self, Nat.mod_mul_right_mod]

/-- What was read is written back. -/
theorem bigEndian_ofBigEndian (bs : List UInt8) : bigEndian bs.length (ofBigEndian bs) = bs := by
  induction bs with
  | nil => rfl
  | cons b bs ih =>
      have hlt := ofBigEndian_lt bs
      have hpos : 0 < 256 ^ bs.length := Nat.pow_pos (by decide)
      have hdiv : (b.toNat * 256 ^ bs.length + ofBigEndian bs) / 256 ^ bs.length = b.toNat := by
        rw [Nat.mul_comm, Nat.mul_add_div hpos, Nat.div_eq_of_lt hlt, Nat.add_zero]
      have hmod : (b.toNat * 256 ^ bs.length + ofBigEndian bs) % 256 ^ bs.length =
          ofBigEndian bs := by
        rw [Nat.mul_comm, Nat.mul_add_mod, Nat.mod_eq_of_lt hlt]
      rw [ofBigEndian, List.length_cons, bigEndian, hdiv, UInt8.ofNat_toNat,
        ← bigEndian_mod bs.length _ bs.length (Nat.le_refl _), hmod, ih]

/-- Reading one byte more. -/
theorem ofBigEndian_append (bs : List UInt8) (b : UInt8) :
    ofBigEndian (bs ++ [b]) = ofBigEndian bs <<< 8 ||| b.toNat := by
  have hb : b.toNat < 2 ^ 8 := b.toNat_lt
  rw [← Nat.shiftLeft_add_eq_or_of_lt hb, Nat.shiftLeft_eq]
  induction bs with
  | nil => simp [ofBigEndian]
  | cons a bs ih =>
      have hpow : 256 ^ (bs.length + 1) = 256 ^ bs.length * 2 ^ 8 := rfl
      rw [List.cons_append, ofBigEndian, ofBigEndian, ih, List.length_append, List.length_singleton,
        hpow, ← Nat.mul_assoc, Nat.add_mul, Nat.add_assoc]

/-! ## Two's complement -/

/-- The signed reading of a `w`-bit pattern. -/
def twosComplement (w n : Nat) : Int :=
  if 2 * n < 2 ^ w then n else (n : Int) - 2 ^ w

/-- The `w`-bit pattern of an integer. -/
def toPattern (w : Nat) (v : Int) : Nat := (v % 2 ^ w).toNat

theorem toPattern_lt (w : Nat) (v : Int) : toPattern w v < 2 ^ w := by
  have hpos : (0 : Int) < 2 ^ w := Int.pow_pos (by decide)
  have hlt := Int.emod_lt_of_pos v hpos
  have hge := Int.emod_nonneg v (Int.ne_of_gt hpos)
  unfold toPattern
  have hcast : ((2 ^ w : Nat) : Int) = 2 ^ w := by simp
  omega

theorem toPattern_natCast (w n : Nat) : toPattern w (n : Nat) = n % 2 ^ w := by
  have hcast : ((2 ^ w : Nat) : Int) = 2 ^ w := by simp
  unfold toPattern
  rw [← hcast, ← Int.natCast_emod, Int.toNat_natCast]

/-- An integer in range is the signed reading of its own pattern. -/
theorem twosComplement_toPattern {w : Nat} {v : Int} (hlo : -(2 ^ w) ≤ 2 * v)
    (hhi : 2 * v < 2 ^ w) : twosComplement w (toPattern w v) = v := by
  have hcast : ((2 ^ w : Nat) : Int) = 2 ^ w := by simp
  unfold twosComplement toPattern
  by_cases hv : 0 ≤ v
  · have hmod : v % 2 ^ w = v := Int.emod_eq_of_lt hv (by omega)
    rw [hmod]
    split <;> omega
  · have hmod : v % 2 ^ w = v + 2 ^ w := by
      rw [← Int.add_emod_right]
      exact Int.emod_eq_of_lt (by omega) (by omega)
    rw [hmod]
    split <;> omega

end CWPack.Foundation
