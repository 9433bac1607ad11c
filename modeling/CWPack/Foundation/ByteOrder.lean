/-
  Foundation/ByteOrder.lean --- words in the memory of a machine.

  A machine keeps the bytes of a word in one of two orders.  `ReversesBytes k` is
  what an expression of masks and shifts must satisfy to turn one order into the
  other: bit by bit, byte `i` of the result is byte `k - 1 - i` of the word.
-/
import CWPack.Foundation.BigEndian

set_option autoImplicit false

namespace CWPack.Foundation

/-- The order in which a machine keeps the bytes of a word. -/
inductive ByteOrder where
  | big
  | little
  deriving DecidableEq, Repr

namespace ByteOrder

/-- The bytes of a word of `k` bytes, as they lie in memory. -/
def bytes : ByteOrder → Nat → Nat → List UInt8
  | big, k, n => bigEndian k n
  | little, k, n => (bigEndian k n).reverse

/-- The word whose bytes lie in memory. -/
def word : ByteOrder → List UInt8 → Nat
  | big, bs => ofBigEndian bs
  | little, bs => ofBigEndian bs.reverse

end ByteOrder

/-! ## Reversing the bytes -/

/-- `f` reverses the `k` bytes of a word. -/
def ReversesBytes {w : Nat} (k : Nat) (f : BitVec w → BitVec w) : Prop :=
  ∀ (x : BitVec w) (i j : Nat), i < k → j < 8 →
    (f x).getLsbD (8 * i + j) = x.getLsbD (8 * (k - 1 - i) + j)

theorem bigEndian_getElem? (n : Nat) {k i : Nat} (hi : i < k) :
    (bigEndian k n)[i]? = some (UInt8.ofNat (n / 256 ^ (k - 1 - i))) := by
  induction k generalizing i with
  | zero => omega
  | succ k ih =>
      cases i with
      | zero => rfl
      | succ i =>
          have hsub : k + 1 - 1 - (i + 1) = k - 1 - i := by omega
          rw [bigEndian, List.getElem?_cons_succ, ih (by omega), hsub]

/-- Bytes of two numbers are equal if their bits are. -/
theorem byte_eq_of_testBit {n m a b : Nat}
    (h : ∀ j, j < 8 → n.testBit (8 * a + j) = m.testBit (8 * b + j)) :
    UInt8.ofNat (n / 256 ^ a) = UInt8.ofNat (m / 256 ^ b) := by
  have hpow : ∀ c : Nat, 256 ^ c = 2 ^ (8 * c) := fun c => by rw [Nat.pow_mul]
  apply UInt8.toNat_inj.mp
  rw [UInt8.toNat_ofNat', UInt8.toNat_ofNat', hpow, hpow]
  apply Nat.eq_of_testBit_eq
  intro j
  rw [Nat.testBit_mod_two_pow, Nat.testBit_mod_two_pow, Nat.testBit_div_two_pow,
    Nat.testBit_div_two_pow]
  by_cases hj : j < 8
  · rw [Nat.add_comm j, Nat.add_comm j, h j hj]
  · simp [hj]

section Reversal

variable {w k : Nat} {f : BitVec w → BitVec w}

theorem ReversesBytes.bigEndian (h : ReversesBytes k f) (x : BitVec w) :
    bigEndian k (f x).toNat = (bigEndian k x.toNat).reverse := by
  apply List.ext_getElem?
  intro i
  by_cases hi : i < k
  · have hback : k - 1 - (k - 1 - i) = i := by omega
    rw [List.getElem?_reverse (by rw [bigEndian_length]; exact hi), bigEndian_length,
      bigEndian_getElem? _ hi, bigEndian_getElem? _ (by omega), hback]
    refine congrArg some (byte_eq_of_testBit fun j hj => ?_)
    have hbit := h x (k - 1 - i) j (by omega) hj
    rw [hback] at hbit
    exact hbit
  · rw [List.getElem?_eq_none (by rw [bigEndian_length]; omega),
      List.getElem?_eq_none (by rw [List.length_reverse, bigEndian_length]; omega)]

/-- Stored least significant byte first, the reversed word is the big-endian numeral. -/
theorem ReversesBytes.store (h : ReversesBytes k f) (x : BitVec w) :
    ByteOrder.little.bytes k (f x).toNat = Foundation.bigEndian k x.toNat := by
  rw [ByteOrder.bytes, h.bigEndian, List.reverse_reverse]

/-- Loaded least significant byte first and reversed, the word is the number of the big-endian
numeral. -/
theorem ReversesBytes.load (h : ReversesBytes k f) (hw : w = 8 * k) {bs : List UInt8}
    (hlen : bs.length = k) :
    (f (BitVec.ofNat w (ByteOrder.little.word bs))).toNat = ofBigEndian bs := by
  have hpow : 256 ^ k = 2 ^ w := by rw [hw, Nat.pow_mul]
  have hlt := ofBigEndian_lt bs.reverse
  rw [List.length_reverse, hlen, hpow] at hlt
  have hbytes := h.bigEndian (BitVec.ofNat w (ByteOrder.little.word bs))
  have hrev : Foundation.bigEndian k (ofBigEndian bs.reverse) = bs.reverse := by
    have hself := bigEndian_ofBigEndian bs.reverse
    rwa [List.length_reverse, hlen] at hself
  rw [BitVec.toNat_ofNat, ByteOrder.word, Nat.mod_eq_of_lt hlt, hrev, List.reverse_reverse]
    at hbytes
  have hresult := congrArg ofBigEndian hbytes
  rwa [ofBigEndian_bigEndian, hpow, Nat.mod_eq_of_lt (BitVec.isLt _)] at hresult

end Reversal

end CWPack.Foundation
