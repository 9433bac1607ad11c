/-
  Foundation/Numeral.lean --- numbers as text, in a base of at most sixteen.

  A numeral is written without leading zeros, with digits above nine in lower case.
  It is read from the left, in either case, whatever zeros stand in front.
-/
import Mathlib.Data.Nat.Digits.Lemmas

set_option autoImplicit false

namespace CWPack.Foundation

/-! ## Digits -/

/-- The character for a digit. -/
def digitChar (d : Nat) : UInt8 := .ofNat (if d < 10 then 0x30 + d else 0x57 + d)

/-- The digit a character stands for. -/
def digitOf (c : UInt8) : Option Nat :=
  if 0x30 ≤ c ∧ c ≤ 0x39 then some (c.toNat - 0x30)
  else if 0x61 ≤ c ∧ c ≤ 0x66 then some (c.toNat - 0x57)
  else if 0x41 ≤ c ∧ c ≤ 0x46 then some (c.toNat - 0x37)
  else none

/-- Whether a character stands for a digit in the base. -/
def isDigit (base : Nat) (c : UInt8) : Bool :=
  match digitOf c with
  | some d => d < base
  | none => false

theorem digitOf_digitChar {d : Nat} (h : d < 16) : digitOf (digitChar d) = some d := by
  revert d
  decide

theorem isDigit_digitChar {base d : Nat} (hbase : base ≤ 16) (h : d < base) :
    isDigit base (digitChar d) = true := by
  rw [isDigit, digitOf_digitChar (by omega)]
  exact decide_eq_true h

/-- The ranges of the digits. -/
theorem isDigit_iff {base : Nat} {c : UInt8} : isDigit base c = true ↔
    (0x30 ≤ c.toNat ∧ c.toNat ≤ 0x39 ∧ c.toNat < 0x30 + base) ∨
      (0x61 ≤ c.toNat ∧ c.toNat ≤ 0x66 ∧ c.toNat < 0x57 + base) ∨
      (0x41 ≤ c.toNat ∧ c.toNat ≤ 0x46 ∧ c.toNat < 0x37 + base) := by
  simp only [isDigit, digitOf, UInt8.le_iff_toNat_le, UInt8.reduceToNat]
  by_cases hdecimal : 0x30 ≤ c.toNat ∧ c.toNat ≤ 0x39
  · simp only [if_pos hdecimal, decide_eq_true_eq]
    omega
  · by_cases hlower : 0x61 ≤ c.toNat ∧ c.toNat ≤ 0x66
    · simp only [if_neg hdecimal, if_pos hlower, decide_eq_true_eq]
      omega
    · by_cases hupper : 0x41 ≤ c.toNat ∧ c.toNat ≤ 0x46
      · simp only [if_neg hdecimal, if_neg hlower, if_pos hupper, decide_eq_true_eq]
        omega
      · simp only [if_neg hdecimal, if_neg hlower, if_neg hupper]
        exact ⟨fun h => absurd h Bool.false_ne_true, by omega⟩

/-! ## Numerals -/

/-- The number a text stands for. -/
def numeralValue (base : Nat) (text : List UInt8) : Nat :=
  text.foldl (fun n c => n * base + (digitOf c).getD 0) 0

/-- The shortest numeral for a number. -/
def numeral (base n : Nat) : List UInt8 :=
  if n = 0 then [digitChar 0] else (Nat.digits base n).reverse.map digitChar

/-- The numeral with zeros in front, in `width` characters at least. -/
def paddedNumeral (base width n : Nat) : List UInt8 :=
  List.replicate (width - (numeral base n).length) (digitChar 0) ++ numeral base n

section

variable {base : Nat}

/-- Digits written from the last one on have their value. -/
theorem numeralValue_digits (ds : List Nat) (h : ∀ d ∈ ds, d < 16) :
    numeralValue base (ds.reverse.map digitChar) = Nat.ofDigits base ds := by
  rw [numeralValue, List.foldl_map, List.foldl_reverse, Nat.ofDigits_eq_foldr]
  induction ds with
  | nil => rfl
  | cons d ds ih =>
      rw [List.foldr_cons, List.foldr_cons, ih fun d hd => h d (List.mem_cons_of_mem _ hd),
        digitOf_digitChar (h d List.mem_cons_self), Option.getD_some, Nat.cast_id, Nat.mul_comm,
        Nat.add_comm]

/-- A numeral is less than the power of the base for its length. -/
theorem numeralValue_lt {text : List UInt8} (h : ∀ c ∈ text, isDigit base c = true) :
    numeralValue base text < base ^ text.length := by
  have hfold : ∀ (text : List UInt8), (∀ c ∈ text, isDigit base c = true) → ∀ n,
      text.foldl (fun n c => n * base + (digitOf c).getD 0) n < (n + 1) * base ^ text.length := by
    intro text
    induction text with
    | nil => intro _ n; simp
    | cons c text ih =>
        intro h n
        have hdigit : (digitOf c).getD 0 < base := by
          have hc := h c List.mem_cons_self
          rw [isDigit] at hc
          cases hd : digitOf c with
          | none => simp [hd] at hc
          | some d => simpa [hd] using hc
        calc text.foldl (fun n c => n * base + (digitOf c).getD 0)
              (n * base + (digitOf c).getD 0)
            < (n * base + (digitOf c).getD 0 + 1) * base ^ text.length :=
              ih (fun c hc => h c (List.mem_cons_of_mem _ hc)) _
          _ ≤ ((n + 1) * base) * base ^ text.length := by
              refine Nat.mul_le_mul_right _ ?_
              rw [Nat.succ_mul]
              omega
          _ = (n + 1) * base ^ (c :: text).length := by
              rw [List.length_cons, Nat.pow_succ, Nat.mul_assoc, Nat.mul_comm base]
  have hzero := hfold text h 0
  rwa [Nat.zero_add, Nat.one_mul] at hzero

theorem numeralValue_numeral (hone : 1 < base) (hbase : base ≤ 16) (n : Nat) :
    numeralValue base (numeral base n) = n := by
  rw [numeral]
  split
  · rename_i hn
    rw [hn]
    simp [numeralValue, digitOf_digitChar]
  · rw [numeralValue_digits _ fun d hd => Nat.lt_of_lt_of_le (Nat.digits_lt_base hone hd) hbase,
      Nat.ofDigits_digits]

theorem isDigit_of_mem_numeral (hone : 1 < base) (hbase : base ≤ 16) {n : Nat} {c : UInt8}
    (h : c ∈ numeral base n) : isDigit base c = true := by
  rw [numeral] at h
  split at h
  · obtain rfl := List.mem_singleton.mp h
    exact isDigit_digitChar hbase (by omega)
  · obtain ⟨d, hd, rfl⟩ := List.mem_map.mp h
    exact isDigit_digitChar hbase (Nat.digits_lt_base hone (List.mem_reverse.mp hd))

theorem numeral_ne_nil (n : Nat) : numeral base n ≠ [] := by
  rw [numeral]
  split
  · exact List.cons_ne_nil _ _
  · rename_i hn
    rw [Ne, List.map_eq_nil_iff, List.reverse_eq_nil_iff]
    exact Nat.digits_ne_nil_iff_ne_zero.mpr hn

theorem numeral_length_le (hone : 1 < base) {n width : Nat} (hwidth : 0 < width)
    (hn : n < base ^ width) : (numeral base n).length ≤ width := by
  rw [numeral]
  split
  · exact hwidth
  · rw [List.length_map, List.length_reverse]
    exact (Nat.digits_length_le_iff hone n).mpr hn

theorem numeralValue_paddedNumeral (hone : 1 < base) (hbase : base ≤ 16) (width n : Nat) :
    numeralValue base (paddedNumeral base width n) = n := by
  have hzeros : ∀ k text, numeralValue base (List.replicate k (digitChar 0) ++ text) =
      numeralValue base text := by
    intro k text
    induction k with
    | zero => rfl
    | succ k ih =>
        rw [← ih, List.replicate_succ, List.cons_append, numeralValue, List.foldl_cons]
        simp [numeralValue, digitOf_digitChar]
  rw [paddedNumeral, hzeros, numeralValue_numeral hone hbase]

theorem isDigit_of_mem_paddedNumeral (hone : 1 < base) (hbase : base ≤ 16) {width n : Nat}
    {c : UInt8} (h : c ∈ paddedNumeral base width n) : isDigit base c = true := by
  rcases List.mem_append.mp h with h | h
  · rw [(List.mem_replicate.mp h).2]
    exact isDigit_digitChar hbase (by omega)
  · exact isDigit_of_mem_numeral hone hbase h

theorem paddedNumeral_length (hone : 1 < base) {width n : Nat} (hwidth : 0 < width)
    (hn : n < base ^ width) : (paddedNumeral base width n).length = width := by
  rw [paddedNumeral, List.length_append, List.length_replicate]
  exact Nat.sub_add_cancel (numeral_length_le hone hwidth hn)

end

end CWPack.Foundation
