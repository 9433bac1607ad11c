/-
  Core/Builds.lean --- the loads and stores of every build.

  `src/cwpack_internals.h` has the macros that store and load numbers once for
  machines that keep the most significant byte first, once for those that keep it
  last, and once for machines of which nothing is known; the first two have a
  version of the 64-bit macros for machines that want them aligned.  A build has
  native access of its own byte order.

  All of them store the big-endian numeral, whatever type the operand has, and load
  the number that the numeral stands for.
-/
import Mathlib.Tactic.IntervalCases
import CWPack.Foundation.ByteOrder
import CWPack.Core.Encoding
import CWPack.Core.Reading

set_option autoImplicit false

namespace CWPack.Core

open CWPack.Foundation

/-- The builds, by the symbols of `cwpack_config.h` that are defined:
`COMPILE_FOR_BIG_ENDIAN`, `COMPILE_FOR_LITTLE_ENDIAN` or neither, the first two with or
without `FORCE_ALIGNMENT_64BIT`. -/
inductive Build where
  | bigEndian (forceAlignment64Bit : Bool)
  | littleEndian (forceAlignment64Bit : Bool)
  | undetermined
  deriving DecidableEq, Repr

/-! ## Operands -/

/-- An operand of an integer type of `w` bits. -/
structure Operand (w : Nat) where
  signed : Bool
  bits : BitVec w

namespace Operand

variable {w : Nat} (x : Operand w)

/-- `x >> n`, which copies the sign of a signed operand -/
def shiftRight (n : Nat) : BitVec w :=
  if x.signed then x.bits.sshiftRight n else x.bits >>> n

/-- `(uint8_t)(x >> n)` -/
def byte (n : Nat) : UInt8 := UInt8.ofBitVec ((x.shiftRight n).setWidth 8)

/-- Inside the operand the sign does not matter. -/
theorem shiftRight_getLsbD {n i : Nat} (h : n + i < w) :
    (x.shiftRight n).getLsbD i = x.bits.getLsbD (n + i) := by
  unfold shiftRight
  split
  · rw [BitVec.getLsbD_sshiftRight]
    simp [h, show ¬ w ≤ i by omega]
  · rw [BitVec.getLsbD_ushiftRight]

theorem byte_eq {n : Nat} (h : n + 8 ≤ w) : x.byte n = UInt8.ofNat (x.bits.toNat >>> n) := by
  apply UInt8.toBitVec_inj.mp
  apply BitVec.eq_of_getLsbD_eq
  intro j hj
  show ((x.shiftRight n).setWidth 8).getLsbD j = (BitVec.ofNat 8 _).getLsbD j
  rw [BitVec.getLsbD_setWidth, BitVec.getLsbD_ofNat, Nat.testBit_shiftRight,
    shiftRight_getLsbD x (by omega)]
  rfl

end Operand

/-! ## Stores -/

namespace Build

variable {w : Nat}

/-- The swap of the 32-bit store. -/
def swapStore32 (x : BitVec 32) : BitVec 32 :=
  (x >>> 24) ||| ((x &&& 0x00ff0000) >>> 8) ||| ((x &&& 0x0000ff00) <<< 8) ||| (x <<< 24)

/-- The swap of the 64-bit store and of the 64-bit load. -/
def swap64 (x : BitVec 64) : BitVec 64 :=
  (((x >>> 40) ||| (x <<< 24)) &&& 0x0000ff000000ff00) |||
  (((x >>> 24) ||| (x <<< 40)) &&& 0x00ff000000ff0000) |||
  ((x &&& 0x000000ff00000000) >>> 8) |||
  ((x &&& 0x00000000ff000000) <<< 8) |||
  (x >>> 56) ||| (x <<< 56)

/-- `cw_store16(d)`: the bytes it leaves at `p` -/
def cwStore16 (d : Operand w) : Build → List UInt8
  | bigEndian _ => ByteOrder.big.bytes 2 (d.bits.setWidth 16).toNat
  | littleEndian _ =>
      ByteOrder.little.bytes 2 (((d.shiftRight 8 &&& 0x0ff#w) ||| d.bits <<< 8).setWidth 16).toNat
  | undetermined => [d.byte 8, d.byte 0]

/-- `cw_store32(d)` -/
def cwStore32 (d : Operand w) : Build → List UInt8
  | bigEndian _ => ByteOrder.big.bytes 4 (d.bits.setWidth 32).toNat
  | littleEndian _ => ByteOrder.little.bytes 4 (swapStore32 (d.bits.setWidth 32)).toNat
  | undetermined => [d.byte 24, d.byte 16, d.byte 8, d.byte 0]

/-- `cw_store64(z)`; with `FORCE_ALIGNMENT_64BIT` a big-endian build copies the first eight
bytes of the operand itself. -/
def cwStore64 (z : Operand w) : Build → List UInt8
  | bigEndian false => ByteOrder.big.bytes 8 (z.bits.setWidth 64).toNat
  | bigEndian true => (ByteOrder.big.bytes (w / 8) z.bits.toNat).take 8
  | littleEndian false => ByteOrder.little.bytes 8 (swap64 (z.bits.setWidth 64)).toNat
  | littleEndian true | undetermined =>
      [z.byte 56, z.byte 48, z.byte 40, z.byte 32, z.byte 24, z.byte 16, z.byte 8, z.byte 0]

/-! ## Loads -/

/-- The swap of the 32-bit load. -/
def swapLoad32 (x : BitVec 32) : BitVec 32 :=
  (x <<< 24) ||| ((x &&& 0xff00) <<< 8) ||| ((x &&& 0xff0000) >>> 8) ||| (x >>> 24)

/-- `*ptr`, promoted to `w` bits -/
def promoted (w : Nat) (m : Memory) (ptr : Nat) : BitVec w := (m ptr).toBitVec.setWidth w

/-- `cw_load16(ptr)`: what `tmpu16` is then, and the pointer, which one build moves -/
def cwLoad16 (m : Memory) (ptr : Nat) : Build → BitVec 16 × Nat
  | bigEndian _ => (.ofNat 16 (ByteOrder.big.word (m.bytes ptr 2)), ptr)
  | littleEndian _ =>
      let tmpu16 : BitVec 16 := .ofNat 16 (ByteOrder.little.word (m.bytes ptr 2))
      (((tmpu16.setWidth 32 <<< 8) ||| (tmpu16.setWidth 32 >>> 8)).setWidth 16, ptr)
  | undetermined =>
      let tmpu16 : BitVec 16 := (promoted 32 m ptr <<< 8).setWidth 16
      (tmpu16 ||| promoted 16 m (ptr + 1), ptr + 2)

/-- `cw_load32(ptr)` -/
def cwLoad32 (m : Memory) (ptr : Nat) : Build → BitVec 32 × Nat
  | bigEndian _ => (.ofNat 32 (ByteOrder.big.word (m.bytes ptr 4)), ptr)
  | littleEndian _ => (swapLoad32 (.ofNat 32 (ByteOrder.little.word (m.bytes ptr 4))), ptr)
  | undetermined =>
      (promoted 32 m ptr <<< 24 ||| promoted 32 m (ptr + 1) <<< 16 |||
        promoted 32 m (ptr + 2) <<< 8 ||| promoted 32 m (ptr + 3), ptr + 4)

/-- `cw_load64(ptr,dest)`: what `dest` is then, and the pointer -/
def cwLoad64 (m : Memory) (ptr : Nat) : Build → BitVec 64 × Nat
  | bigEndian _ => (.ofNat 64 (ByteOrder.big.word (m.bytes ptr 8)), ptr)
  | littleEndian false => (swap64 (.ofNat 64 (ByteOrder.little.word (m.bytes ptr 8))), ptr)
  | littleEndian true | undetermined =>
      (promoted 64 m ptr <<< 56 ||| promoted 64 m (ptr + 1) <<< 48 |||
        promoted 64 m (ptr + 2) <<< 40 ||| promoted 64 m (ptr + 3) <<< 32 |||
        promoted 64 m (ptr + 4) <<< 24 ||| promoted 64 m (ptr + 5) <<< 16 |||
        promoted 64 m (ptr + 6) <<< 8 ||| promoted 64 m (ptr + 7), ptr + 8)

/-! ## The swaps reverse the bytes -/

/-- What the 16-bit macros do, on the 16 bits that remain. -/
def swap16 (x : BitVec 16) : BitVec 16 := (x >>> 8) ||| (x <<< 8)

theorem swap16_reverses : ReversesBytes 2 swap16 := by
  intro x i j hi hj
  unfold swap16
  simp only [BitVec.getLsbD_or, BitVec.getLsbD_ushiftRight, BitVec.getLsbD_shiftLeft]
  interval_cases i <;> interval_cases j <;> simp

theorem swapStore32_reverses : ReversesBytes 4 swapStore32 := by
  intro x i j hi hj
  unfold swapStore32
  simp only [BitVec.getLsbD_or, BitVec.getLsbD_and, BitVec.getLsbD_ushiftRight,
    BitVec.getLsbD_shiftLeft]
  interval_cases i <;> interval_cases j <;> simp

theorem swapLoad32_eq (x : BitVec 32) : swapLoad32 x = swapStore32 x := by
  unfold swapLoad32 swapStore32
  ext i
  simp only [BitVec.getElem_or, BitVec.getElem_and, BitVec.getElem_ushiftRight,
    BitVec.getElem_shiftLeft]
  interval_cases i <;> simp

theorem swapLoad32_reverses : ReversesBytes 4 swapLoad32 := by
  intro x i j hi hj
  rw [swapLoad32_eq]
  exact swapStore32_reverses x i j hi hj

theorem swap64_reverses : ReversesBytes 8 swap64 := by
  intro x i j hi hj
  unfold swap64
  simp only [BitVec.getLsbD_or, BitVec.getLsbD_and, BitVec.getLsbD_ushiftRight,
    BitVec.getLsbD_shiftLeft]
  interval_cases i <;> interval_cases j <;> simp

/-- The mask keeps a sign out, so that the store swaps the low-order bytes of the operand. -/
theorem swap16_of_operand (d : Operand w) (hw : 16 ≤ w) :
    ((d.shiftRight 8 &&& 0x0ff#w) ||| d.bits <<< 8).setWidth 16 =
      swap16 (d.bits.setWidth 16) := by
  unfold swap16
  apply BitVec.eq_of_getLsbD_eq
  intro i hi
  have hword : i < w := by omega
  have hmask : (0x0ff#w).getLsbD i = decide (i < 8) := by
    show (BitVec.ofNat w (2 ^ 8 - 1)).getLsbD i = _
    rw [BitVec.getLsbD_ofNat, Nat.testBit_two_pow_sub_one, decide_eq_true hword, Bool.true_and]
  rw [BitVec.getLsbD_setWidth, BitVec.getLsbD_or, BitVec.getLsbD_and, BitVec.getLsbD_shiftLeft,
    BitVec.getLsbD_or, BitVec.getLsbD_ushiftRight, BitVec.getLsbD_shiftLeft,
    BitVec.getLsbD_setWidth, BitVec.getLsbD_setWidth, hmask]
  rcases Nat.lt_or_ge i 8 with hlow | hhigh
  · have hin : 8 + i < 16 := by omega
    have hsign := d.shiftRight_getLsbD (n := 8) (i := i) (by omega)
    simp [hsign, hlow, hi, hin]
  · have hout : ¬ 8 + i < 16 := by omega
    have hback : i - 8 < 16 := by omega
    simp [Nat.not_lt.mpr hhigh, hi, hword, hout, hback]

/-- The load computes in 32 bits and keeps 16. -/
theorem swap16_of_promoted (x : BitVec 16) :
    ((x.setWidth 32 <<< 8) ||| (x.setWidth 32 >>> 8)).setWidth 16 = swap16 x := by
  unfold swap16
  ext i
  simp only [BitVec.getElem_setWidth, BitVec.getElem_or, BitVec.getElem_ushiftRight,
    BitVec.getElem_shiftLeft, BitVec.getLsbD_or, BitVec.getLsbD_shiftLeft,
    BitVec.getLsbD_ushiftRight, BitVec.getLsbD_setWidth]
  interval_cases i <;> simp

/-! ## Every build stores the big-endian numeral -/

/-- Only as many bits of the operand count as are stored. -/
theorem bigEndian_setWidth (k : Nat) (b : BitVec w) :
    Foundation.bigEndian k (b.setWidth (8 * k)).toNat = Foundation.bigEndian k b.toNat := by
  have hpow : 2 ^ (8 * k) = 256 ^ k := by rw [Nat.pow_mul]
  rw [BitVec.toNat_setWidth, hpow, bigEndian_mod k _ k (Nat.le_refl k)]

theorem cwStore16_eq (B : Build) (d : Operand w) (hw : 16 ≤ w) :
    B.cwStore16 d = Core.cwStore16 d.bits.toNat := by
  rw [Core.cwStore16_eq, ← bigEndian_setWidth 2 d.bits]
  cases B with
  | bigEndian force => rfl
  | littleEndian force =>
      rw [cwStore16, swap16_of_operand d hw]
      exact swap16_reverses.store _
  | undetermined =>
      rw [bigEndian_setWidth 2 d.bits, ← Core.cwStore16_eq]
      simp only [cwStore16, Core.cwStore16, d.byte_eq (n := 8) (by omega),
        d.byte_eq (n := 0) (by omega), Nat.shiftRight_zero]

theorem cwStore32_eq (B : Build) (d : Operand w) (hw : 32 ≤ w) :
    B.cwStore32 d = Core.cwStore32 d.bits.toNat := by
  rw [Core.cwStore32_eq, ← bigEndian_setWidth 4 d.bits]
  cases B with
  | bigEndian force => rfl
  | littleEndian force => exact swapStore32_reverses.store _
  | undetermined =>
      have hbyte : ∀ n, n ≤ 24 → d.byte n = UInt8.ofNat (d.bits.toNat >>> n) :=
        fun n hn => d.byte_eq (by omega)
      rw [bigEndian_setWidth 4 d.bits, ← Core.cwStore32_eq]
      simp only [cwStore32, Core.cwStore32, hbyte, Nat.reduceLeDiff, Nat.shiftRight_zero]

theorem cwStore64_eq (B : Build) (z : Operand 64) : B.cwStore64 z = Core.cwStore64 z.bits.toNat := by
  have hbytes : [z.byte 56, z.byte 48, z.byte 40, z.byte 32, z.byte 24, z.byte 16, z.byte 8,
      z.byte 0] = Core.cwStore64 z.bits.toNat := by
    have hbyte : ∀ n, n ≤ 56 → z.byte n = UInt8.ofNat (z.bits.toNat >>> n) :=
      fun n hn => z.byte_eq (by omega)
    simp only [Core.cwStore64, hbyte, Nat.reduceLeDiff, Nat.shiftRight_zero]
  cases B with
  | bigEndian force =>
      rw [Core.cwStore64_eq, ← bigEndian_setWidth 8 z.bits]
      cases force with
      | false => rfl
      | true => exact List.take_of_length_le (by simp [ByteOrder.bytes])
  | littleEndian force =>
      cases force with
      | false =>
          rw [Core.cwStore64_eq, ← bigEndian_setWidth 8 z.bits]
          exact swap64_reverses.store _
      | true => exact hbytes
  | undetermined => exact hbytes

/-! ## Every build loads what the numeral stands for -/

/-- Shifted inside the word, a byte stays what it is. -/
theorem toNat_promoted_shiftLeft (m : Memory) (ptr : Nat) {n : Nat} (h : n + 8 ≤ w) :
    (promoted w m ptr <<< n).toNat = (m ptr).toNat <<< n := by
  have hlt := (m ptr).toNat_lt
  have hpow : 2 ^ (n + 8) ≤ 2 ^ w := Nat.pow_le_pow_right (by omega) h
  have hsmall : 2 ^ 8 ≤ 2 ^ w := Nat.pow_le_pow_right (by omega) (by omega)
  have hshift : (m ptr).toNat <<< n < 2 ^ (n + 8) := by
    rw [Nat.shiftLeft_eq, Nat.pow_add, Nat.mul_comm]
    exact Nat.mul_lt_mul_of_pos_left hlt (Nat.two_pow_pos n)
  have hbyte : (promoted w m ptr).toNat = (m ptr).toNat := by
    rw [promoted, BitVec.toNat_setWidth, UInt8.toNat_toBitVec]
    exact Nat.mod_eq_of_lt (by omega)
  rw [BitVec.toNat_shiftLeft, hbyte, Nat.mod_eq_of_lt (by omega)]

theorem toNat_promoted (m : Memory) (ptr : Nat) (h : 8 ≤ w) :
    (promoted w m ptr).toNat = (m ptr).toNat := by
  have hshift := toNat_promoted_shiftLeft m ptr (n := 0) (by omega : 0 + 8 ≤ w)
  rwa [BitVec.shiftLeft_zero, Nat.shiftLeft_zero] at hshift

/-- A native load keeps the number that the bytes stand for. -/
theorem toNat_native_load (m : Memory) (ptr k : Nat) :
    (BitVec.ofNat (8 * k) (ByteOrder.big.word (m.bytes ptr k))).toNat =
      ofBigEndian (m.bytes ptr k) := by
  have hlt := ofBigEndian_lt (m.bytes ptr k)
  have hpow : 256 ^ k = 2 ^ (8 * k) := by rw [Nat.pow_mul]
  rw [Memory.bytes_length, hpow] at hlt
  rw [BitVec.toNat_ofNat]
  exact Nat.mod_eq_of_lt hlt

theorem cwLoad16_eq (B : Build) (m : Memory) (ptr : Nat) :
    (B.cwLoad16 m ptr).1.toNat = Core.cwLoad16 m ptr := by
  cases B with
  | bigEndian force =>
      rw [Core.cwLoad16_eq]
      exact toNat_native_load m ptr 2
  | littleEndian force =>
      rw [Core.cwLoad16_eq, cwLoad16, swap16_of_promoted]
      exact swap16_reverses.load rfl (m.bytes_length ptr 2)
  | undetermined =>
      have hhigh : (m ptr).toNat <<< 8 < 2 ^ 16 := by
        have hlt := (m ptr).toNat_lt
        rw [Nat.shiftLeft_eq]
        omega
      simp only [cwLoad16, Core.cwLoad16, BitVec.toNat_or, BitVec.toNat_setWidth,
        toNat_promoted_shiftLeft, toNat_promoted, Nat.reduceLeDiff, Nat.reduceAdd,
        Nat.mod_eq_of_lt hhigh]

theorem cwLoad32_eq (B : Build) (m : Memory) (ptr : Nat) :
    (B.cwLoad32 m ptr).1.toNat = Core.cwLoad32 m ptr := by
  cases B with
  | bigEndian force =>
      rw [Core.cwLoad32_eq]
      exact toNat_native_load m ptr 4
  | littleEndian force =>
      rw [Core.cwLoad32_eq]
      exact swapLoad32_reverses.load rfl (m.bytes_length ptr 4)
  | undetermined =>
      simp only [cwLoad32, Core.cwLoad32, BitVec.toNat_or, toNat_promoted_shiftLeft,
        toNat_promoted, Nat.reduceLeDiff, Nat.reduceAdd]

theorem cwLoad64_eq (B : Build) (m : Memory) (ptr : Nat) :
    (B.cwLoad64 m ptr).1.toNat = Core.cwLoad64 m ptr := by
  have hbytes : (undetermined.cwLoad64 m ptr).1.toNat = Core.cwLoad64 m ptr := by
    simp only [cwLoad64, Core.cwLoad64, BitVec.toNat_or, toNat_promoted_shiftLeft,
      toNat_promoted, Nat.reduceLeDiff, Nat.reduceAdd]
  cases B with
  | bigEndian force =>
      rw [Core.cwLoad64_eq]
      exact toNat_native_load m ptr 8
  | littleEndian force =>
      cases force with
      | false =>
          rw [Core.cwLoad64_eq]
          exact swap64_reverses.load rfl (m.bytes_length ptr 8)
      | true => exact hbytes
  | undetermined => exact hbytes

/-- Reading back the numeral of a word. -/
theorem ofBigEndian_bytes_write (m : Memory) (p k : Nat) (x : BitVec (8 * k)) :
    ofBigEndian ((m.write p (Foundation.bigEndian k x.toNat)).bytes p k) = x.toNat := by
  have hpow : 256 ^ k = 2 ^ (8 * k) := by rw [Nat.pow_mul]
  have hread := m.bytes_write_self p (Foundation.bigEndian k x.toNat)
  rw [bigEndian_length] at hread
  rw [hread]
  exact ofBigEndian_bigEndian_of_lt (by rw [hpow]; exact x.isLt)

theorem cwLoad16_stored (B : Build) (m : Memory) (p : Nat) (x : BitVec 16) :
    (B.cwLoad16 (m.write p (Foundation.bigEndian 2 x.toNat)) p).1 = x := by
  apply BitVec.eq_of_toNat_eq
  rw [cwLoad16_eq, Core.cwLoad16_eq]
  exact ofBigEndian_bytes_write m p 2 x

theorem cwLoad32_stored (B : Build) (m : Memory) (p : Nat) (x : BitVec 32) :
    (B.cwLoad32 (m.write p (Foundation.bigEndian 4 x.toNat)) p).1 = x := by
  apply BitVec.eq_of_toNat_eq
  rw [cwLoad32_eq, Core.cwLoad32_eq]
  exact ofBigEndian_bytes_write m p 4 x

theorem cwLoad64_stored (B : Build) (m : Memory) (p : Nat) (x : BitVec 64) :
    (B.cwLoad64 (m.write p (Foundation.bigEndian 8 x.toNat)) p).1 = x := by
  apply BitVec.eq_of_toNat_eq
  rw [cwLoad64_eq, Core.cwLoad64_eq]
  exact ofBigEndian_bytes_write m p 8 x

end Build

end CWPack.Core
