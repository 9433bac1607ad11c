/-
  Goodies/Buffer.lean --- the heap and the buffer sizes of
  `src/goodies/basic-contexts/basic_contexts.c`.

  Sizes are of type `unsigned long`, which has `w` bits.  The handlers double a
  buffer length until it covers what is asked for.  The loop of the source is
  here with a bound on its turns: after `w` turns the length is zero modulo
  `2 ^ w`, so a loop that has not ended by then never ends.
-/
import CWPack.Core.Types

set_option autoImplicit false

namespace CWPack.Goodies

open CWPack.Foundation
open CWPack.Core

variable {σ : Type}

/-! ## The heap -/

/-- The address the heap gives to the `i`-th request, which is for `n` bytes; `none`
is a null pointer. -/
abbrev Allocator : Type := Nat → Nat → Option Nat

/-- A heap whose blocks all lie at one address. -/
def fixedHeap (data : Nat) : Allocator := fun _ _ => some data

/-- Set the three pointers of a packing buffer. -/
def setBuffer (s : PackState σ) (start current end_ : Nat) : PackState σ :=
  { s with pc.start := start, pc.current := current, pc.end_ := end_ }

/-! ## Lengths -/

/-- `(unsigned long)(a - b)` for two pointers -/
def ulongDiff (w a b : Nat) : Nat := toPattern w ((a : Int) - b)

theorem ulongDiff_of_le {w a b : Nat} (hle : b ≤ a) (hlt : a - b < 2 ^ w) :
    ulongDiff w a b = a - b := by
  have hcast : ((2 ^ w : Nat) : Int) = 2 ^ w := by simp
  have hmod : ((a : Int) - b) % 2 ^ w = (a : Int) - b := by
    refine Int.emod_eq_of_lt (by omega) ?_
    rw [← hcast]
    omega
  unfold ulongDiff toPattern
  rw [hmod]
  omega

/-- A buffer length that is given, or the default where it is 0. -/
theorem initialLength_bounds {n w : Nat} (default : Nat) (hdefault : 0 < default ∧ default < 2 ^ w)
    (hn : n < 2 ^ w) :
    0 < (if n > 0 then n else default) ∧ (if n > 0 then n else default) < 2 ^ w := by
  split
  · exact ⟨by assumption, hn⟩
  · exact hdefault

/-! ## Doubling -/

/-- `while (buffer_length < target) buffer_length = 2 * buffer_length;` with `fuel`
tests at most -/
def growLoop (w target : Nat) : Nat → Nat → Option Nat
  | 0, _ => none
  | fuel + 1, bufferLength =>
      if bufferLength < target then growLoop w target fuel (2 * bufferLength % 2 ^ w)
      else some bufferLength

/-- The buffer length at the end of the loop. -/
def growBuffer (w target bufferLength : Nat) : Option Nat := growLoop w target (w + 1) bufferLength

/-- Where the operands leave room to double, the loop ends with room for the target. -/
theorem growLoop_spec {w target : Nat} (hroom : 2 * target ≤ 2 ^ w) :
    ∀ (turns bufferLength : Nat), 0 < bufferLength → bufferLength < 2 ^ w →
      target ≤ bufferLength * 2 ^ turns →
      ∃ n, growLoop w target (turns + 1) bufferLength = some n ∧ target ≤ n ∧
        bufferLength ≤ n ∧ n < 2 ^ w := by
  intro turns
  induction turns with
  | zero =>
      intro bufferLength _ hlt htarget
      have hge : ¬ bufferLength < target := by omega
      exact ⟨bufferLength, by rw [growLoop, if_neg hge], by omega, Nat.le_refl _, hlt⟩
  | succ turns ih =>
      intro bufferLength hpos hlt htarget
      by_cases hless : bufferLength < target
      · have hmod : 2 * bufferLength % 2 ^ w = 2 * bufferLength := Nat.mod_eq_of_lt (by omega)
        have hpow : bufferLength * 2 ^ (turns + 1) = 2 * bufferLength * 2 ^ turns := by
          rw [Nat.pow_succ, Nat.mul_comm 2 bufferLength, Nat.mul_assoc bufferLength 2,
            Nat.mul_comm 2 (2 ^ turns)]
        obtain ⟨n, hgrow, hn, hle, hltn⟩ :=
          ih (2 * bufferLength) (by omega) (by omega) (by rw [← hpow]; exact htarget)
        refine ⟨n, ?_, hn, by omega, hltn⟩
        rw [growLoop, if_pos hless, hmod]
        exact hgrow
      · exact ⟨bufferLength, by rw [growLoop, if_neg hless], by omega, Nat.le_refl _, hlt⟩

theorem growBuffer_spec (w target bufferLength : Nat) (hroom : 2 * target ≤ 2 ^ w)
    (hpos : 0 < bufferLength) (hlt : bufferLength < 2 ^ w) :
    ∃ n, growBuffer w target bufferLength = some n ∧ target ≤ n ∧ bufferLength ≤ n ∧
      n < 2 ^ w := by
  refine growLoop_spec hroom w bufferLength hpos hlt ?_
  have hmul : 1 * 2 ^ w ≤ bufferLength * 2 ^ w := Nat.mul_le_mul_right _ hpos
  omega

/-- Where the loop ends, it has reached the target. -/
theorem growLoop_of_eq_some {w target : Nat} :
    ∀ (fuel : Nat) {bufferLength n : Nat}, bufferLength < 2 ^ w →
      growLoop w target fuel bufferLength = some n → target ≤ n ∧ n < 2 ^ w := by
  intro fuel
  induction fuel with
  | zero =>
      intro _ _ _ h
      simp [growLoop] at h
  | succ fuel ih =>
      intro bufferLength n hlt h
      rw [growLoop] at h
      by_cases hless : bufferLength < target
      · rw [if_pos hless] at h
        exact ih (Nat.mod_lt _ (Nat.two_pow_pos w)) h
      · rw [if_neg hless] at h
        obtain rfl := Option.some.inj h
        exact ⟨Nat.not_lt.mp hless, hlt⟩

theorem growBuffer_of_eq_some {w target bufferLength n : Nat} (hlt : bufferLength < 2 ^ w)
    (h : growBuffer w target bufferLength = some n) : target ≤ n ∧ n < 2 ^ w :=
  growLoop_of_eq_some (w + 1) hlt h

/-- One turn is enough where the target is at most twice the length. -/
theorem growBuffer_of_le_twice (w target bufferLength : Nat) (hw : 0 < w)
    (htarget : target ≤ 2 * bufferLength) (hlt : 2 * bufferLength < 2 ^ w) :
    ∃ n, growBuffer w target bufferLength = some n ∧ target ≤ n ∧ bufferLength ≤ n ∧
      n < 2 ^ w := by
  obtain ⟨w, rfl⟩ := Nat.exists_eq_succ_of_ne_zero (Nat.ne_of_gt hw)
  have hmod : 2 * bufferLength % 2 ^ (w + 1) = 2 * bufferLength := Nat.mod_eq_of_lt hlt
  have hstop : ¬ 2 * bufferLength < target := by omega
  by_cases hless : bufferLength < target
  · refine ⟨2 * bufferLength, ?_, htarget, by omega, hlt⟩
    rw [growBuffer, growLoop, if_pos hless, growLoop, hmod, if_neg hstop]
  · refine ⟨bufferLength, ?_, by omega, Nat.le_refl _, by omega⟩
    rw [growBuffer, growLoop, if_neg hless]

/-- The length after `k` turns is the first one shifted by `k`. -/
theorem growLoop_eq_none_iff {w target : Nat} :
    ∀ (fuel bufferLength : Nat), bufferLength < 2 ^ w →
      (growLoop w target fuel bufferLength = none ↔
        ∀ k < fuel, 2 ^ k * bufferLength % 2 ^ w < target) := by
  intro fuel
  induction fuel with
  | zero =>
      intro bufferLength _
      exact ⟨fun _ k hk => absurd hk (Nat.not_lt_zero k), fun _ => rfl⟩
  | succ fuel ih =>
      intro bufferLength hlt
      have hzero : 2 ^ 0 * bufferLength % 2 ^ w = bufferLength := by
        rw [Nat.pow_zero, Nat.one_mul, Nat.mod_eq_of_lt hlt]
      have hsucc : ∀ k, 2 ^ (k + 1) * bufferLength % 2 ^ w =
          2 ^ k * (2 * bufferLength % 2 ^ w) % 2 ^ w := by
        intro k
        rw [Nat.mul_mod_mod, ← Nat.mul_assoc, ← Nat.pow_succ]
      rw [growLoop]
      by_cases hless : bufferLength < target
      · rw [if_pos hless, ih _ (Nat.mod_lt _ (Nat.two_pow_pos w))]
        constructor
        · intro h k hk
          cases k with
          | zero =>
              rw [hzero]
              exact hless
          | succ k =>
              rw [hsucc]
              exact h k (by omega)
        · intro h k hk
          rw [← hsucc]
          exact h (k + 1) (by omega)
      · rw [if_neg hless]
        constructor
        · intro h
          simp at h
        · intro h
          have hfirst := h 0 (Nat.succ_pos fuel)
          rw [hzero] at hfirst
          exact absurd hfirst hless

/-- The bounded loop gives up exactly where the loop of the source goes on for ever. -/
theorem growBuffer_eq_none_iff {w target bufferLength : Nat} (hlt : bufferLength < 2 ^ w) :
    growBuffer w target bufferLength = none ↔
      ∀ k, 2 ^ k * bufferLength % 2 ^ w < target := by
  rw [growBuffer, growLoop_eq_none_iff _ _ hlt]
  refine ⟨fun h k => ?_, fun h k _ => h k⟩
  by_cases hk : k < w + 1
  · exact h k hk
  · -- from `w` turns on the length is zero
    have hdvd : ∀ j, w ≤ j → 2 ^ j * bufferLength % 2 ^ w = 0 := fun j hj =>
      Nat.mod_eq_zero_of_dvd (Nat.dvd_mul_right_of_dvd (Nat.pow_dvd_pow 2 hj) bufferLength)
    have hlast := h w (Nat.lt_succ_self w)
    rw [hdvd w (Nat.le_refl w)] at hlast
    rw [hdvd k (by omega)]
    exact hlast

end CWPack.Goodies
