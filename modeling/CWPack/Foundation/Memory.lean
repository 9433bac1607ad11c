/-
  Foundation/Memory.lean --- flat byte memory.

  Addresses are natural numbers and every address holds a byte.  A block write
  changes exactly the addresses it covers; reading a block returns its bytes in
  address order.
-/

set_option autoImplicit false

namespace CWPack.Foundation

/-- The content of every address. -/
abbrev Memory : Type := Nat → UInt8

namespace Memory

variable (m : Memory)

/-- The `n` bytes from address `p` on. -/
def bytes (p : Nat) : Nat → List UInt8
  | 0 => []
  | n + 1 => m p :: bytes (p + 1) n

/-- Write `bs` to the addresses from `p` on. -/
def write (p : Nat) (bs : List UInt8) : Memory := fun a =>
  if a < p then m a else (bs[a - p]?).getD (m a)

/-- Copy `n` bytes from `src` to `dst`; the ranges may overlap. -/
def move (dst src n : Nat) : Memory := m.write dst (m.bytes src n)

/-! ## Reading -/

@[simp] theorem bytes_zero (p : Nat) : m.bytes p 0 = [] := rfl

theorem bytes_succ (p n : Nat) : m.bytes p (n + 1) = m p :: m.bytes (p + 1) n := rfl

@[simp] theorem bytes_length (p n : Nat) : (m.bytes p n).length = n := by
  induction n generalizing p with
  | zero => rfl
  | succ n ih => simp [bytes, ih]

theorem bytes_add (p a b : Nat) : m.bytes p (a + b) = m.bytes p a ++ m.bytes (p + a) b := by
  induction a generalizing p with
  | zero => simp
  | succ a ih =>
      rw [Nat.add_right_comm, bytes_succ, ih, bytes_succ, List.cons_append]
      congr 3
      omega

/-- Two memories that agree on a range hold the same bytes there. -/
theorem bytes_congr {m m' : Memory} {p n : Nat} (h : ∀ a, p ≤ a → a < p + n → m a = m' a) :
    m.bytes p n = m'.bytes p n := by
  induction n generalizing p with
  | zero => rfl
  | succ n ih =>
      rw [bytes_succ, bytes_succ, h p (by omega) (by omega)]
      congr 1
      exact ih fun a hlo hhi => h a (by omega) (by omega)

theorem bytes_take {p n k : Nat} (h : k ≤ n) : (m.bytes p n).take k = m.bytes p k := by
  obtain ⟨d, rfl⟩ := Nat.le.dest h
  rw [bytes_add]
  exact List.take_left' (m.bytes_length p k)

theorem bytes_drop {p n k : Nat} (h : k ≤ n) :
    (m.bytes p n).drop k = m.bytes (p + k) (n - k) := by
  obtain ⟨d, rfl⟩ := Nat.le.dest h
  rw [bytes_add, Nat.add_sub_cancel_left]
  exact List.drop_left' (m.bytes_length p k)

/-- A list read at `p` can be read off byte by byte. -/
theorem bytes_getElem? {p n i : Nat} (h : i < n) : (m.bytes p n)[i]? = some (m (p + i)) := by
  induction n generalizing p i with
  | zero => omega
  | succ n ih =>
      cases i with
      | zero => rfl
      | succ i =>
          rw [bytes_succ, List.getElem?_cons_succ, ih (by omega)]
          congr 2
          omega

/-! ## Writing -/

theorem write_of_lt {p a : Nat} (bs : List UInt8) (h : a < p) : m.write p bs a = m a := by
  simp [write, h]

theorem write_of_ge {p a : Nat} {bs : List UInt8} (h : p + bs.length ≤ a) :
    m.write p bs a = m a := by
  have hlt : ¬ a < p := by omega
  have hnone : bs[a - p]? = none := List.getElem?_eq_none (by omega)
  simp [write, hlt, hnone]

@[simp] theorem write_nil (p : Nat) : m.write p [] = m := by
  funext a
  simp [write]

/-- What was written is read back. -/
@[simp] theorem bytes_write_self (p : Nat) (bs : List UInt8) :
    (m.write p bs).bytes p bs.length = bs := by
  apply List.ext_getElem?
  intro i
  by_cases hi : i < bs.length
  · have hnot : ¬ p + i < p := by omega
    rw [bytes_getElem? _ hi, List.getElem?_eq_getElem hi]
    simp [write, hnot, hi]
  · rw [List.getElem?_eq_none (by simp; omega), List.getElem?_eq_none (by omega)]

/-- A write does not reach a disjoint range. -/
theorem bytes_write_of_disjoint {p q n : Nat} {bs : List UInt8}
    (h : q + n ≤ p ∨ p + bs.length ≤ q) : (m.write p bs).bytes q n = m.bytes q n := by
  apply bytes_congr
  intro a hlo hhi
  rcases h with h | h
  · exact m.write_of_lt bs (by omega)
  · exact m.write_of_ge (by omega)

/-- Appending at the end of a range extends what the range holds. -/
theorem bytes_write_append {q p : Nat} (bs : List UInt8) (h : q ≤ p) :
    (m.write p bs).bytes q (p + bs.length - q) = m.bytes q (p - q) ++ bs := by
  have hlen : p + bs.length - q = (p - q) + bs.length := by omega
  have hp : q + (p - q) = p := by omega
  rw [hlen, bytes_add, hp, bytes_write_self, bytes_write_of_disjoint m (Or.inl (by omega))]

/-- Two writes, one right behind the other, are one write. -/
theorem write_append (p : Nat) (as bs : List UInt8) :
    (m.write p as).write (p + as.length) bs = m.write p (as ++ bs) := by
  funext a
  by_cases hlt : a < p + as.length
  · rw [write_of_lt _ bs hlt]
    by_cases hp : a < p
    · rw [m.write_of_lt _ hp, m.write_of_lt _ hp]
    · have hin : a - p < as.length := by omega
      simp only [write, if_neg hp, List.getElem?_append_left hin]
  · have hp : ¬ a < p := by omega
    have hout : as.length ≤ a - p := by omega
    have hsub : a - (p + as.length) = a - p - as.length := by omega
    simp only [write, if_neg hlt, if_neg hp, List.getElem?_append_right hout, hsub,
      List.getElem?_eq_none hout, Option.getD_none]

theorem bytes_move (dst src n : Nat) : (m.move dst src n).bytes dst n = m.bytes src n := by
  have h := m.bytes_write_self dst (m.bytes src n)
  rwa [bytes_length] at h

/-- Copying a block copies its first part. -/
theorem bytes_move_of_le (dst src : Nat) {k n : Nat} (h : k ≤ n) :
    (m.move dst src n).bytes dst k = m.bytes src k := by
  rw [← bytes_take _ h, bytes_move, bytes_take _ h]

theorem move_of_lt {dst a : Nat} (src n : Nat) (h : a < dst) : m.move dst src n a = m a :=
  m.write_of_lt _ h

theorem move_of_ge {dst src n a : Nat} (h : dst + n ≤ a) : m.move dst src n a = m a :=
  m.write_of_ge (by rw [bytes_length]; exact h)

end Memory

end CWPack.Foundation
