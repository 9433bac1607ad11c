/-
  Foundation/Loops.lean --- counting loops with a 32-bit counter.

  `forLoop` is the loop `for (; i < dim; i++)` of C with a counter of type `int`
  and a bound of a wider type.  An `int` that is incremented past its largest value
  goes on at its least, so the test never fails once the bound is out of its range:
  such a loop does not end, whatever its body does.
-/
import Mathlib.Algebra.Ring.Int.Defs
import Mathlib.Algebra.Ring.Nat
import CWPack.Foundation.Outcome

set_option autoImplicit false

namespace CWPack.Foundation

variable {α : Type}

/-- `for (; i < dim; i++)`, with `fuel` tests at most. -/
def forLoop (body : Int32 → α → Option α) (dim : Int) : Nat → Int32 → α → Option α
  | 0, _, _ => none
  | fuel + 1, i, a =>
      if i.toInt < dim then (body i a).bind (forLoop body dim fuel (i + 1)) else some a

section Rules

variable {body : Int32 → α → Option α}

/-- Every `int` is below a bound of 32 bits. -/
theorem forLoop_endless {dim : Int} (h : 2 ^ 31 ≤ dim) :
    ∀ (fuel : Nat) (i : Int32) (a : α), forLoop body dim fuel i a = none := by
  intro fuel
  induction fuel with
  | zero =>
      intro i a
      rfl
  | succ fuel ih =>
      intro i a
      have hlt := i.toInt_lt
      rw [forLoop, if_pos (by omega)]
      cases body i a with
      | none => rfl
      | some a' => exact ih (i + 1) a'

/-- The rule for a loop whose bound is an `int`: what a turn of the body takes from `k` to
`k + 1`, the loop takes to its bound. -/
theorem forLoop_ends {stuck : Prop} {n : Nat} (hn : n < 2 ^ 31) (inv : Nat → α → Prop)
    (hstep : ∀ k a, k < n → inv k a → Ends stuck (inv (k + 1)) (body (Int32.ofNat k) a)) :
    ∀ (fuel k : Nat) (a : α), k ≤ n → inv k a →
      Ends (stuck ∨ fuel + k ≤ n) (inv n) (forLoop body n fuel (Int32.ofNat k) a) := by
  intro fuel
  induction fuel with
  | zero =>
      intro k a hk _
      exact Or.inr (by omega)
  | succ fuel ih =>
      intro k a hk h
      have hcount : (Int32.ofNat k).toInt = k := Int32.toInt_ofNat_of_lt (by omega)
      rw [forLoop, hcount]
      by_cases hlt : k < n
      · rw [if_pos (Int.ofNat_lt.mpr hlt)]
        have hnext : Int32.ofNat k + 1 = Int32.ofNat (k + 1) := (Int32.ofNat_add k 1).symm
        rw [hnext]
        refine ((hstep k a hlt h).excuse Or.inl).bind fun a' ha' => ?_
        exact (ih (k + 1) a' hlt ha').excuse fun hstuck =>
          hstuck.imp_right fun hfuel => by omega
      · obtain rfl : k = n := by omega
        rw [if_neg (by omega)]
        exact h

/-- A turn of a loop whose bound is an `int`. -/
theorem forLoop_of_lt {k n : Nat} (hn : n < 2 ^ 31) (hk : k < n) (fuel : Nat) (a : α) :
    forLoop body n (fuel + 1) (Int32.ofNat k) a =
      (body (Int32.ofNat k) a).bind (forLoop body n fuel (Int32.ofNat (k + 1))) := by
  have hcount : (Int32.ofNat k).toInt = k := Int32.toInt_ofNat_of_lt (by omega)
  have hnext : Int32.ofNat k + 1 = Int32.ofNat (k + 1) := (Int32.ofNat_add k 1).symm
  rw [forLoop, hcount, if_pos (Int.ofNat_lt.mpr hk), hnext]

/-- The last test of it. -/
theorem forLoop_self {n : Nat} (hn : n < 2 ^ 31) (fuel : Nat) (a : α) :
    forLoop body n (fuel + 1) (Int32.ofNat n) a = some a := by
  have hcount : (Int32.ofNat n).toInt = n := Int32.toInt_ofNat_of_lt (by omega)
  rw [forLoop, hcount, if_neg (Int.lt_irrefl _)]

end Rules

end CWPack.Foundation
