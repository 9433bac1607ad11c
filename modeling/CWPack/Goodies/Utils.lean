/-
  Goodies/Utils.lean --- `src/goodies/utils/cwpack_utils.c`.

  The packing routines choose the shortest form that keeps the number.  The
  unpacking routines expect an item of one kind: they unpack the next item and
  set an error where it is of another kind or does not fit the result.

  Floating-point numbers are bit patterns, and what the machine computes with
  them is a parameter.
-/
import CWPack.Core.Encoding
import CWPack.Core.Unpack

set_option autoImplicit false

namespace CWPack.Goodies

open CWPack.Foundation
open CWPack.Core

variable {σ ρ : Type}

/-! ## Floating point -/

/-- The operations of the machine's floating-point unit.  `float` has 32 bits,
`double` 64 and `int` 32. -/
structure FloatUnit where
  /-- `(int)d` -/
  intOfDouble : UInt64 → Int32
  /-- `(int)f` -/
  intOfFloat : UInt32 → Int32
  /-- `(int64_t)d` -/
  int64OfDouble : UInt64 → Int64
  /-- `(uint32_t)d` -/
  uint32OfDouble : UInt64 → UInt32
  /-- `(float)d` -/
  floatOfDouble : UInt64 → UInt32
  floatOfInt : Int32 → UInt32
  floatOfInt64 : Int64 → UInt32
  floatOfUInt64 : UInt64 → UInt32
  doubleOfFloat : UInt32 → UInt64
  doubleOfInt : Int32 → UInt64
  doubleOfInt64 : Int64 → UInt64
  doubleOfUInt32 : UInt32 → UInt64
  doubleOfUInt64 : UInt64 → UInt64
  floatEq : UInt32 → UInt32 → Bool
  doubleEq : UInt64 → UInt64 → Bool
  /-- `floor` of `math.h` -/
  floor : UInt64 → UInt64
  add : UInt64 → UInt64 → UInt64
  sub : UInt64 → UInt64 → UInt64
  mul : UInt64 → UInt64 → UInt64
  div : UInt64 → UInt64 → UInt64

/-- The unit of the machine Lean runs on. -/
def FloatUnit.native : FloatUnit where
  intOfDouble d := (Float.ofBits d).toInt32
  intOfFloat f := (Float32.ofBits f).toInt32
  int64OfDouble d := (Float.ofBits d).toInt64
  uint32OfDouble d := (Float.ofBits d).toUInt32
  floatOfDouble d := (Float.ofBits d).toFloat32.toBits
  floatOfInt i := i.toFloat32.toBits
  floatOfInt64 i := i.toFloat32.toBits
  floatOfUInt64 n := n.toFloat32.toBits
  doubleOfFloat f := (Float32.ofBits f).toFloat.toBits
  doubleOfInt i := i.toFloat.toBits
  doubleOfInt64 i := i.toFloat.toBits
  doubleOfUInt32 n := n.toFloat.toBits
  doubleOfUInt64 n := n.toFloat.toBits
  floatEq a b := Float32.ofBits a == Float32.ofBits b
  doubleEq a b := Float.ofBits a == Float.ofBits b
  floor d := (Float.ofBits d).floor.toBits
  add a b := (Float.ofBits a + Float.ofBits b).toBits
  sub a b := (Float.ofBits a - Float.ofBits b).toBits
  mul a b := (Float.ofBits a * Float.ofBits b).toBits
  div a b := (Float.ofBits a / Float.ofBits b).toBits

/-- `1000000000.0` -/
def doubleBillion : UInt64 := 0x41cdcd6500000000

/-! ## Packing -/

/-- `cw_pack_double_opt`.  `UINT32_MAX` is unsigned, so the number is compared with it
unsigned. -/
def cwPackDoubleOpt (F : FloatUnit) (H : PackHandlers σ) (d : UInt64) (s : PackState σ) :
    Option (PackState σ) :=
  let i := F.intOfDouble d
  if F.doubleEq (F.doubleOfInt i) d ∧ i.toInt ≥ -2 ^ 31 ∧ i.toUInt32.toNat ≤ 2 ^ 32 - 1 then
    cwPackSigned H i.toInt64 s
  else
    let f := F.floatOfDouble d
    if F.doubleEq (F.doubleOfFloat f) d then cwPackFloat H f s
    else cwPackDouble H d s

/-- `cw_pack_float_opt` -/
def cwPackFloatOpt (F : FloatUnit) (H : PackHandlers σ) (f : UInt32) (s : PackState σ) :
    Option (PackState σ) :=
  let i := F.intOfFloat f
  if F.floatEq (F.floatOfInt i) f ∧ i.toInt ≥ -2 ^ 15 ∧ i.toInt ≤ 2 ^ 16 - 1 then
    cwPackSigned H i.toInt64 s
  else cwPackFloat H f s

/-- `cw_pack_time_interval` -/
def cwPackTimeInterval (F : FloatUnit) (H : PackHandlers σ) (ti : UInt64) (s : PackState σ) :
    Option (PackState σ) :=
  let sec := F.int64OfDouble (F.floor ti)
  let nsec := F.uint32OfDouble (F.mul (F.sub ti (F.doubleOfInt64 sec)) doubleBillion)
  cwPackTime H sec nsec s

/-! ## Unpacking -/

/-- The frame of the routines below: `cw_unpack_next`, then back with `zero` unless all
is well. -/
def expectNext (H : Option (UnpackUnderflowHandler σ)) (zero : ρ)
    (k : UnpackState σ → ρ × UnpackState σ) (s : UnpackState σ) :
    Option (ρ × UnpackState σ) :=
  match cwUnpackNext H s with
  | none => none
  | some s => if s.uc.returnCode ≠ 0 then some (zero, s) else some (k s)

/-- `cw_unpack_next_float` -/
def cwUnpackNextFloat (F : FloatUnit) (H : Option (UnpackUnderflowHandler σ)) :
    UnpackState σ → Option (UInt32 × UnpackState σ) :=
  expectNext H 0 fun s =>
    let as := s.uc.item.as
    match s.uc.item.type with
    | .positiveInteger => (F.floatOfUInt64 (.ofNat as.front), s)
    | .negativeInteger => (F.floatOfInt64 (.ofInt as.i64), s)
    | .float => (.ofNat as.front, s)
    | .double => (F.floatOfDouble (.ofNat as.front), s)
    | _ => (0, s.setReturnCode cwpRcTypeError)

/-- `cw_unpack_next_double` -/
def cwUnpackNextDouble (F : FloatUnit) (H : Option (UnpackUnderflowHandler σ)) :
    UnpackState σ → Option (UInt64 × UnpackState σ) :=
  expectNext H 0 fun s =>
    let as := s.uc.item.as
    match s.uc.item.type with
    | .positiveInteger => (F.doubleOfUInt64 (.ofNat as.front), s)
    | .negativeInteger => (F.doubleOfInt64 (.ofInt as.i64), s)
    | .float => (F.doubleOfFloat (.ofNat as.front), s)
    | .double => (.ofNat as.front, s)
    | _ => (0, s.setReturnCode cwpRcTypeError)

/-- `cw_unpack_next_nil` -/
def cwUnpackNextNil (H : Option (UnpackUnderflowHandler σ)) :
    UnpackState σ → Option (Unit × UnpackState σ) :=
  expectNext H () fun s =>
    if s.uc.item.type = .nil then ((), s) else ((), s.setReturnCode cwpRcTypeError)

/-- `cw_unpack_next_boolean` -/
def cwUnpackNextBoolean (H : Option (UnpackUnderflowHandler σ)) :
    UnpackState σ → Option (Bool × UnpackState σ) :=
  expectNext H false fun s =>
    if s.uc.item.type = .boolean then (decide (s.uc.item.as.front ≠ 0), s)
    else (false, s.setReturnCode cwpRcTypeError)

/-- `cw_unpack_next_signed64` -/
def cwUnpackNextSigned64 (H : Option (UnpackUnderflowHandler σ)) :
    UnpackState σ → Option (Int × UnpackState σ) :=
  expectNext H 0 fun s =>
    if s.uc.item.type = .positiveInteger then
      if s.uc.item.as.front ≤ 2 ^ 63 - 1 then (s.uc.item.as.i64, s)
      else (0, s.setReturnCode cwpRcValueError)
    else if s.uc.item.type = .negativeInteger then (s.uc.item.as.i64, s)
    else (0, s.setReturnCode cwpRcTypeError)

/-- The routines for signed results of fewer than 64 bits; the result is cast to `w`
bits. -/
def unpackNextSigned (w : Nat) (H : Option (UnpackUnderflowHandler σ)) :
    UnpackState σ → Option (Int × UnpackState σ) :=
  expectNext H 0 fun s =>
    let cast := twosComplement w (toPattern w s.uc.item.as.i64)
    if s.uc.item.type = .positiveInteger then
      if s.uc.item.as.front ≤ 2 ^ (w - 1) - 1 then (cast, s)
      else (0, s.setReturnCode cwpRcValueError)
    else if s.uc.item.type = .negativeInteger then
      if s.uc.item.as.i64 ≥ -2 ^ (w - 1) then (cast, s)
      else (0, s.setReturnCode cwpRcValueError)
    else (0, s.setReturnCode cwpRcTypeError)

/-- `cw_unpack_next_signed32` -/
def cwUnpackNextSigned32 (H : Option (UnpackUnderflowHandler σ)) :
    UnpackState σ → Option (Int × UnpackState σ) :=
  unpackNextSigned 32 H

/-- `cw_unpack_next_signed16` -/
def cwUnpackNextSigned16 (H : Option (UnpackUnderflowHandler σ)) :
    UnpackState σ → Option (Int × UnpackState σ) :=
  unpackNextSigned 16 H

/-- `cw_unpack_next_signed8` -/
def cwUnpackNextSigned8 (H : Option (UnpackUnderflowHandler σ)) :
    UnpackState σ → Option (Int × UnpackState σ) :=
  unpackNextSigned 8 H

/-- `cw_unpack_next_unsigned64` -/
def cwUnpackNextUnsigned64 (H : Option (UnpackUnderflowHandler σ)) :
    UnpackState σ → Option (Int × UnpackState σ) :=
  expectNext H 0 fun s =>
    if s.uc.item.type = .positiveInteger then (s.uc.item.as.front, s)
    else (0, s.setReturnCode cwpRcTypeError)

/-- The routines for unsigned results of fewer than 64 bits; the result is cast to `w`
bits. -/
def unpackNextUnsigned (w : Nat) (H : Option (UnpackUnderflowHandler σ)) :
    UnpackState σ → Option (Int × UnpackState σ) :=
  expectNext H 0 fun s =>
    if s.uc.item.type = .positiveInteger then
      if s.uc.item.as.front ≤ 2 ^ w - 1 then ((s.uc.item.as.front % 2 ^ w : Nat), s)
      else (0, s.setReturnCode cwpRcValueError)
    else (0, s.setReturnCode cwpRcTypeError)

/-- `cw_unpack_next_unsigned32` -/
def cwUnpackNextUnsigned32 (H : Option (UnpackUnderflowHandler σ)) :
    UnpackState σ → Option (Int × UnpackState σ) :=
  unpackNextUnsigned 32 H

/-- `cw_unpack_next_unsigned16` -/
def cwUnpackNextUnsigned16 (H : Option (UnpackUnderflowHandler σ)) :
    UnpackState σ → Option (Int × UnpackState σ) :=
  unpackNextUnsigned 16 H

/-- `cw_unpack_next_unsigned8` -/
def cwUnpackNextUnsigned8 (H : Option (UnpackUnderflowHandler σ)) :
    UnpackState σ → Option (Int × UnpackState σ) :=
  unpackNextUnsigned 8 H

/-- `cw_unpack_next_time_interval` -/
def cwUnpackNextTimeInterval (F : FloatUnit) (H : Option (UnpackUnderflowHandler σ)) :
    UnpackState σ → Option (UInt64 × UnpackState σ) :=
  expectNext H 0 fun s =>
    if s.uc.item.type = .timestamp then
      let sec := F.doubleOfInt64 (.ofInt s.uc.item.as.i64)
      let nsec := F.doubleOfUInt32 (.ofNat s.uc.item.as.back)
      (F.add sec (F.div nsec doubleBillion), s)
    else (0, s.setReturnCode cwpRcTypeError)

/-- The routines that return a length or a size. -/
def unpackNextSize (type : ItemType) (size : ItemAs → Nat)
    (H : Option (UnpackUnderflowHandler σ)) :
    UnpackState σ → Option (Int × UnpackState σ) :=
  expectNext H 0 fun s =>
    if s.uc.item.type = type then (size s.uc.item.as, s)
    else (0, s.setReturnCode cwpRcTypeError)

/-- `cw_unpack_next_str_lengh` -/
def cwUnpackNextStrLengh (H : Option (UnpackUnderflowHandler σ)) :
    UnpackState σ → Option (Int × UnpackState σ) :=
  unpackNextSize .str ItemAs.back H

/-- `cw_unpack_next_bin_lengh` -/
def cwUnpackNextBinLengh (H : Option (UnpackUnderflowHandler σ)) :
    UnpackState σ → Option (Int × UnpackState σ) :=
  unpackNextSize .bin ItemAs.back H

/-- `cw_unpack_next_array_size` -/
def cwUnpackNextArraySize (H : Option (UnpackUnderflowHandler σ)) :
    UnpackState σ → Option (Int × UnpackState σ) :=
  unpackNextSize .array ItemAs.front H

/-- `cw_unpack_next_map_size` -/
def cwUnpackNextMapSize (H : Option (UnpackUnderflowHandler σ)) :
    UnpackState σ → Option (Int × UnpackState σ) :=
  unpackNextSize .map ItemAs.front H

/-! ## What the packing routines come to -/

/-- A real number is packed by one of the core routines, whatever the machine computes. -/
theorem cwPackDoubleOpt_eq_call (F : FloatUnit) (H : PackHandlers σ) (d : UInt64) :
    ∃ c : PackCall, cwPackDoubleOpt F H d = cwPack H c := by
  by_cases hint : F.doubleEq (F.doubleOfInt (F.intOfDouble d)) d ∧
      (F.intOfDouble d).toInt ≥ -2 ^ 31 ∧ (F.intOfDouble d).toUInt32.toNat ≤ 2 ^ 32 - 1
  · exact ⟨.signed (F.intOfDouble d).toInt64, funext fun s => if_pos hint⟩
  · by_cases hfloat : F.doubleEq (F.doubleOfFloat (F.floatOfDouble d)) d
    · refine ⟨.float (F.floatOfDouble d), funext fun s => ?_⟩
      simp only [cwPackDoubleOpt, if_neg hint, if_pos hfloat, cwPack]
    · refine ⟨.double d, funext fun s => ?_⟩
      simp only [cwPackDoubleOpt, if_neg hint, if_neg hfloat, cwPack]

theorem cwPackFloatOpt_eq_call (F : FloatUnit) (H : PackHandlers σ) (f : UInt32) :
    ∃ c : PackCall, cwPackFloatOpt F H f = cwPack H c := by
  by_cases hint : F.floatEq (F.floatOfInt (F.intOfFloat f)) f ∧
      (F.intOfFloat f).toInt ≥ -2 ^ 15 ∧ (F.intOfFloat f).toInt ≤ 2 ^ 16 - 1
  · exact ⟨.signed (F.intOfFloat f).toInt64, funext fun s => if_pos hint⟩
  · exact ⟨.float f, funext fun s => if_neg hint⟩

theorem cwPackTimeInterval_eq_call (F : FloatUnit) (H : PackHandlers σ) (ti : UInt64) :
    ∃ c : PackCall, cwPackTimeInterval F H ti = cwPack H c :=
  ⟨.time _ _, rfl⟩

end CWPack.Goodies
