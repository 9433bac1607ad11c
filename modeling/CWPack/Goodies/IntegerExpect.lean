/-
  Goodies/IntegerExpect.lean --- the routines of `src/goodies/utils/cwpack_utils.c`
  that expect an integer.

  There are ten formats of an integer and eight routines.  A routine looks at the
  type of the item and at one of the two 64-bit readings of its union; what it
  returns depends on the number alone, and not on the format.
-/
import CWPack.Core.Accepted
import CWPack.Core.Canonical
import CWPack.Goodies.Utils

set_option autoImplicit false

namespace CWPack.Goodies

open CWPack.Foundation
open CWPack.Core
open CWPack.MessagePack

variable {σ : Type}

/-! ## The routines -/

/-- What is returned for an item of a value, with the numbers from `lo` to `hi` in range, and the
code that is left. -/
def expectedIn (lo hi : Int) (outOfRange : Int → Int) : Value → Int × Int
  | .int v => if lo ≤ v ∧ v ≤ hi then (v, cwpRcOk) else (0, outOfRange v)
  | _ => (0, cwpRcTypeError)

/-- The routines, by the type of their result. -/
inductive IntegerRoutine where
  | signed64
  | signed32
  | signed16
  | signed8
  | unsigned64
  | unsigned32
  | unsigned16
  | unsigned8

namespace IntegerRoutine

/-- Call the routine. -/
def perform (H : Option (UnpackUnderflowHandler σ)) :
    IntegerRoutine → UnpackState σ → Option (Int × UnpackState σ)
  | signed64 => cwUnpackNextSigned64 H
  | signed32 => cwUnpackNextSigned32 H
  | signed16 => cwUnpackNextSigned16 H
  | signed8 => cwUnpackNextSigned8 H
  | unsigned64 => cwUnpackNextUnsigned64 H
  | unsigned32 => cwUnpackNextUnsigned32 H
  | unsigned16 => cwUnpackNextUnsigned16 H
  | unsigned8 => cwUnpackNextUnsigned8 H

/-- The least number of the result type. -/
def least : IntegerRoutine → Int
  | signed64 => -2 ^ 63
  | signed32 => -2 ^ 31
  | signed16 => -2 ^ 15
  | signed8 => -2 ^ 7
  | _ => 0

/-- The greatest number of the result type. -/
def greatest : IntegerRoutine → Int
  | signed64 => 2 ^ 63 - 1
  | signed32 => 2 ^ 31 - 1
  | signed16 => 2 ^ 15 - 1
  | signed8 => 2 ^ 7 - 1
  | unsigned64 => 2 ^ 64 - 1
  | unsigned32 => 2 ^ 32 - 1
  | unsigned16 => 2 ^ 16 - 1
  | unsigned8 => 2 ^ 8 - 1

/-- The code for a number out of range: an unsigned result takes a negative number for one of
another type. -/
def outOfRange (r : IntegerRoutine) (v : Int) : Int :=
  if r.least = 0 ∧ v < 0 then cwpRcTypeError else cwpRcValueError

/-- What the routine returns for an item of this value, and the code it leaves. -/
def expected (r : IntegerRoutine) : Value → Int × Int :=
  expectedIn r.least r.greatest r.outOfRange

end IntegerRoutine

/-! ## Their results -/

section Results

variable {s : UnpackState σ}

/-- A 64-bit pattern that is small enough is its own signed reading. -/
theorem i64_of_front_lt {as : ItemAs} (h : as.front < 2 ^ 63) : as.i64 = as.front :=
  if_pos (by omega)

theorem twosComplement_toPattern_of_mem {w : Nat} {v : Int} (hw : 0 < w)
    (hlo : -2 ^ (w - 1) ≤ v) (hhi : v ≤ 2 ^ (w - 1) - 1) :
    twosComplement w (toPattern w v) = v := by
  obtain ⟨w, rfl⟩ := Nat.exists_eq_succ_of_ne_zero (Nat.ne_of_gt hw)
  have hpow : (2 : Int) ^ (w + 1) = 2 * 2 ^ w := by rw [pow_succ, mul_comm]
  simp only [Nat.succ_eq_add_one, Nat.add_sub_cancel] at hlo hhi ⊢
  exact twosComplement_toPattern (by omega) (by omega)

/-- The item that a routine finds: a number with its type and its two readings, or an item of
another type. -/
inductive Found (s : UnpackState σ) : Value → Prop where
  | positive {v : Int} (hv : 0 ≤ v) (htype : s.uc.item.type = .positiveInteger)
      (hfront : (s.uc.item.as.front : Int) = v) : Found s (.int v)
  | negative {v : Int} (hv : v < 0) (htype : s.uc.item.type = .negativeInteger)
      (hi64 : s.uc.item.as.i64 = v) : Found s (.int v)
  | other {x : Value} (hx : ∀ v, x ≠ .int v) (hpositive : s.uc.item.type ≠ .positiveInteger)
      (hnegative : s.uc.item.type ≠ .negativeInteger) : Found s x

/-- An item denotes no integer unless its type is that of one. -/
theorem found_of_denotes {x : Value} (h : s.Denotes x) : Found s x := by
  cases x with
  | int v =>
      by_cases hv : 0 ≤ v
      · obtain ⟨htype, hfront⟩ := denotes_nonneg hv h
        exact .positive hv htype hfront
      · obtain ⟨htype, hi64⟩ := denotes_negative (Int.not_le.mp hv) h
        exact .negative (Int.not_le.mp hv) htype hi64
  | _ =>
      refine .other (fun v heq => by simp at heq) ?_ ?_
      all_goals
        rw [h.1]
        simp [itemType]

/-- What is read of an extension item is no integer either way. -/
theorem found_of_denotes_asRead {bs : List UInt8} {x : Value} (h : s.Denotes (asRead bs x)) :
    Found s x := by
  cases x with
  | ext type payload =>
      have htype : ∃ t, s.uc.item.type = .ext t := by
        rw [h.1]
        by_cases hlayout : type = -1 ∧ TimestampLayout bs payload
        · obtain ⟨sec, nsec, hvalue⟩ := timestampValue_is_timestamp payload
          have hread : asRead bs (.ext type payload) = .timestamp sec nsec :=
            (if_pos hlayout).trans hvalue
          rw [hread]
          exact ⟨-1, rfl⟩
        · have hread : asRead bs (.ext type payload) = .ext type payload := if_neg hlayout
          rw [hread]
          exact ⟨type, rfl⟩
      obtain ⟨t, htype⟩ := htype
      exact .other (fun v heq => by simp at heq) (by simp [htype]) (by simp [htype])
  | _ => exact found_of_denotes h

variable {H : Option (UnpackUnderflowHandler σ)} {s' : UnpackState σ} {x : Value}

/-- The routine has returned what is expected, and has set its code behind the item. -/
def Returns (r : Option (Int × UnpackState σ)) (s' : UnpackState σ) (result : Int × Int) : Prop :=
  r = some (result.1, s'.setReturnCode result.2)

theorem expectNext_of_ok {ρ : Type} {zero : ρ} {k : UnpackState σ → ρ × UnpackState σ}
    (hnext : cwUnpackNext H s = some s') (hok : s'.uc.returnCode = cwpRcOk) :
    expectNext H zero k s = some (k s') := by
  unfold expectNext
  rw [hnext]
  exact if_neg (not_not_intro hok)

theorem expectedIn_of_other {lo hi : Int} {out : Int → Int} (hx : ∀ v, x ≠ .int v) :
    expectedIn lo hi out x = (0, cwpRcTypeError) := by
  cases x with
  | int v => exact absurd rfl (hx v)
  | _ => rfl

theorem expectedIn_of_mem {lo hi v : Int} {out : Int → Int} (hlo : lo ≤ v) (hhi : v ≤ hi) :
    expectedIn lo hi out (.int v) = (v, cwpRcOk) := if_pos ⟨hlo, hhi⟩

theorem expectedIn_of_not_mem {lo hi v : Int} {out : Int → Int} (h : ¬ (lo ≤ v ∧ v ≤ hi)) :
    expectedIn lo hi out (.int v) = (0, out v) := if_neg h

/-- A signed result of `w` bits, where the item has been found. -/
theorem unpackNextSigned_returns {w : Nat} (hw : 0 < w) (hw64 : w ≤ 64)
    (hnext : cwUnpackNext H s = some s') (hok : s'.uc.returnCode = cwpRcOk) (h : Found s' x) :
    Returns (unpackNextSigned w H s) s'
      (expectedIn (-2 ^ (w - 1)) (2 ^ (w - 1) - 1) (fun _ => cwpRcValueError) x) := by
  have hcast : ((2 ^ (w - 1) : Nat) : Int) = 2 ^ (w - 1) := by simp
  have hpow : (2 : Nat) ^ (w - 1) ≤ 2 ^ 63 := Nat.pow_le_pow_right (by decide) (by omega)
  have hpos := Nat.two_pow_pos (w - 1)
  have hself := setReturnCode_of_eq hok
  unfold Returns unpackNextSigned
  rw [expectNext_of_ok hnext hok]
  cases h with
  | @positive v hv htype hfront =>
      simp only [if_pos htype]
      by_cases hle : s'.uc.item.as.front ≤ 2 ^ (w - 1) - 1
      · have hi64 : s'.uc.item.as.i64 = v := (i64_of_front_lt (by omega)).trans hfront
        rw [if_pos hle, hi64, twosComplement_toPattern_of_mem hw (by omega) (by omega),
          expectedIn_of_mem (by omega) (by omega), hself]
      · rw [if_neg hle, expectedIn_of_not_mem (by omega)]
  | @negative v hv htype hi64 =>
      have hother : ¬ s'.uc.item.type = .positiveInteger := by simp [htype]
      simp only [if_neg hother, if_pos htype, hi64]
      by_cases hge : v ≥ -2 ^ (w - 1)
      · rw [if_pos hge, twosComplement_toPattern_of_mem hw hge (by omega),
          expectedIn_of_mem hge (by omega), hself]
      · rw [if_neg hge, expectedIn_of_not_mem (by omega)]
  | other hx hpositive hnegative =>
      simp only [if_neg hpositive, if_neg hnegative]
      rw [expectedIn_of_other hx]

/-- An unsigned result of `w` bits. -/
theorem unpackNextUnsigned_returns (w : Nat) (hnext : cwUnpackNext H s = some s')
    (hok : s'.uc.returnCode = cwpRcOk) (h : Found s' x) :
    Returns (unpackNextUnsigned w H s) s'
      (expectedIn 0 (2 ^ w - 1) (fun v => if v < 0 then cwpRcTypeError else cwpRcValueError) x) := by
  have hcast : ((2 ^ w : Nat) : Int) = 2 ^ w := by simp
  have hpos := Nat.two_pow_pos w
  have hself := setReturnCode_of_eq hok
  unfold Returns unpackNextUnsigned
  rw [expectNext_of_ok hnext hok]
  cases h with
  | @positive v hv htype hfront =>
      simp only [if_pos htype]
      by_cases hle : s'.uc.item.as.front ≤ 2 ^ w - 1
      · rw [if_pos hle, Nat.mod_eq_of_lt (by omega), hfront, expectedIn_of_mem hv (by omega), hself]
      · rw [if_neg hle, expectedIn_of_not_mem (by omega), if_neg (by omega)]
  | @negative v hv htype hi64 =>
      have hother : ¬ s'.uc.item.type = .positiveInteger := by simp [htype]
      simp only [if_neg hother]
      rw [expectedIn_of_not_mem (by omega), if_pos hv]
  | other hx hpositive hnegative =>
      simp only [if_neg hpositive]
      rw [expectedIn_of_other hx]

/-- The results of 64 bits have room for every number of their sign. -/
theorem cwUnpackNextSigned64_returns (hnext : cwUnpackNext H s = some s')
    (hok : s'.uc.returnCode = cwpRcOk) (h : Found s' x) (hx : x.Encodable) :
    Returns (cwUnpackNextSigned64 H s) s'
      (expectedIn (-2 ^ 63) (2 ^ 63 - 1) (fun _ => cwpRcValueError) x) := by
  have hself := setReturnCode_of_eq hok
  unfold Returns cwUnpackNextSigned64
  rw [expectNext_of_ok hnext hok]
  cases h with
  | @positive v hv htype hfront =>
      simp only [if_pos htype]
      by_cases hle : s'.uc.item.as.front ≤ 2 ^ 63 - 1
      · have hi64 : s'.uc.item.as.i64 = v := (i64_of_front_lt (by omega)).trans hfront
        rw [if_pos hle, hi64, expectedIn_of_mem (by omega) (by omega), hself]
      · rw [if_neg hle, expectedIn_of_not_mem (by omega)]
  | @negative v hv htype hi64 =>
      have hother : ¬ s'.uc.item.type = .positiveInteger := by simp [htype]
      simp only [if_neg hother, if_pos htype, hi64]
      rw [expectedIn_of_mem hx.1 (by omega), hself]
  | other hx hpositive hnegative =>
      simp only [if_neg hpositive, if_neg hnegative]
      rw [expectedIn_of_other hx]

theorem cwUnpackNextUnsigned64_returns (hnext : cwUnpackNext H s = some s')
    (hok : s'.uc.returnCode = cwpRcOk) (h : Found s' x) (hx : x.Encodable) :
    Returns (cwUnpackNextUnsigned64 H s) s'
      (expectedIn 0 (2 ^ 64 - 1)
        (fun v => if v < 0 then cwpRcTypeError else cwpRcValueError) x) := by
  have hself := setReturnCode_of_eq hok
  unfold Returns cwUnpackNextUnsigned64
  rw [expectNext_of_ok hnext hok]
  cases h with
  | @positive v hv htype hfront =>
      have hhi := hx.2
      simp only [if_pos htype, hfront]
      rw [expectedIn_of_mem hv (by omega), hself]
  | @negative v hv htype hi64 =>
      have hother : ¬ s'.uc.item.type = .positiveInteger := by simp [htype]
      simp only [if_neg hother]
      rw [expectedIn_of_not_mem (by omega), if_pos hv]
  | other hx hpositive hnegative =>
      simp only [if_neg hpositive]
      rw [expectedIn_of_other hx]

/-- Each routine, where the item has been found. -/
theorem IntegerRoutine.perform_returns (r : IntegerRoutine) (hnext : cwUnpackNext H s = some s')
    (hok : s'.uc.returnCode = cwpRcOk) (h : Found s' x) (hx : x.Encodable) :
    Returns (r.perform H s) s' (r.expected x) := by
  have hsigned : ∀ {r : IntegerRoutine}, r.least ≠ 0 →
      r.outOfRange = fun _ => cwpRcValueError := by
    intro r hr
    funext v
    exact if_neg fun hboth => hr hboth.1
  have hunsigned : ∀ {r : IntegerRoutine}, r.least = 0 →
      r.outOfRange = fun v => if v < 0 then cwpRcTypeError else cwpRcValueError := by
    intro r hr
    funext v
    unfold outOfRange
    simp only [hr, true_and]
  unfold expected
  cases r with
  | signed64 =>
      rw [hsigned (by decide)]
      exact cwUnpackNextSigned64_returns hnext hok h hx
  | signed32 =>
      rw [hsigned (by decide)]
      exact unpackNextSigned_returns (by decide) (by decide) hnext hok h
  | signed16 =>
      rw [hsigned (by decide)]
      exact unpackNextSigned_returns (by decide) (by decide) hnext hok h
  | signed8 =>
      rw [hsigned (by decide)]
      exact unpackNextSigned_returns (by decide) (by decide) hnext hok h
  | unsigned64 =>
      rw [hunsigned rfl]
      exact cwUnpackNextUnsigned64_returns hnext hok h hx
  | unsigned32 =>
      rw [hunsigned rfl]
      exact unpackNextUnsigned_returns 32 hnext hok h
  | unsigned16 =>
      rw [hunsigned rfl]
      exact unpackNextUnsigned_returns 16 hnext hok h
  | unsigned8 =>
      rw [hunsigned rfl]
      exact unpackNextUnsigned_returns 8 hnext hok h

end Results

/-! ## Accepted items -/

/-- Where `cw_unpack_next` accepts an item, a routine returns what is expected of its value: the
state is the one behind the item, but for the code. -/
theorem integer_routines_expect_value {s s' : UnpackState σ} (hrc : s.uc.returnCode = cwpRcOk)
    (hle : s.uc.current ≤ s.uc.end_) (hnext : cwUnpackNext none s = some s')
    (hok : s'.uc.returnCode = cwpRcOk) :
    ∃ bs x rest, Item bs x ∧ s.ahead = bs ++ rest ∧
      ∀ r : IntegerRoutine, Returns (r.perform none s) s' (r.expected x) := by
  obtain ⟨bs, x, rest, hitem, hahead⟩ := accepted_item hrc hle hnext hok
  obtain ⟨hden, -⟩ := denotes_asRead hrc hle hnext hok hitem hahead
  exact ⟨bs, x, rest, hitem, hahead, fun r =>
    r.perform_returns hnext hok (found_of_denotes_asRead hden) (encodable_of_item hitem)⟩

/-- A negative number in sixteen bits does not fit a signed result of eight bits, and is of
another type than an unsigned one. -/
theorem integer_routines_expect_minus_300 :
    ∃ s', cwUnpackNext none (staticContext [0xd1, 0xfe, 0xd4]) = some s' ∧
      ∃ bs x rest, Item bs x ∧ [0xd1, 0xfe, 0xd4] = bs ++ rest ∧
        ∀ r : IntegerRoutine,
          Returns (r.perform none (staticContext [0xd1, 0xfe, 0xd4])) s' (r.expected x) := by
  have hle : (staticContext [0xd1, 0xfe, 0xd4]).uc.current ≤
      (staticContext [0xd1, 0xfe, 0xd4]).uc.end_ := by decide
  refine ⟨_, rfl, ?_⟩
  obtain ⟨bs, x, rest, hitem, hahead, hreturns⟩ :=
    integer_routines_expect_value (s := staticContext [0xd1, 0xfe, 0xd4]) rfl hle rfl rfl
  rw [staticContext_ahead] at hahead
  exact ⟨bs, x, rest, hitem, hahead, hreturns⟩

end CWPack.Goodies
