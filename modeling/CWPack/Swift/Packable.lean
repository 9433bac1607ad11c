/-
  Swift/Packable.lean --- `src/goodies/swift/CWPackable.swift`.

  A packable type says how its values are packed and how they are unpacked.  The
  basic types take one item each, and the generic ones are built from the types
  of their elements.  Unpacking throws where the context is not OK afterwards; a
  conversion that Swift checks at run time traps.

  Floating-point numbers are bit patterns.  What Foundation and the machine do
  with numbers, dates and strings is a parameter.
-/
import CWPack.Foundation.Throwing
import CWPack.Goodies.IntegerExpect
import CWPack.Goodies.NumericExtensions

set_option autoImplicit false

namespace CWPack.Swift

open CWPack.Foundation
open CWPack.Core
open CWPack.Goodies

variable {σ τ ρ α : Type}

/-! ## What the code asks of Swift -/

/-- The machine, and what the code uses of Swift's library and of Foundation.  A date is
the bit pattern of the time interval it keeps. -/
structure Runtime where
  floatUnit : FloatUnit
  /-- `NSString(bytes:length:encoding:)` with `utf8` -/
  nsString : List UInt8 → Option String
  /-- `==` of `String` -/
  stringEq : String → String → Bool
  /-- `timeIntervalSince1970` of `Date` -/
  timeIntervalSince1970 : UInt64 → UInt64
  /-- `Date(timeIntervalSince1970:)` -/
  dateSince1970 : UInt64 → UInt64

/-- `CWPackError` -/
inductive CWPackError where
  | fileError (errNo : Int)
  | contextError (err : Int)
  | packerError (err : String)
  | unpackerError (err : String)
  deriving DecidableEq, Repr

/-- `UInt32(n)`, which traps where `n` is out of range. -/
def exactUInt32 (n : Int) : Option UInt32 :=
  if 0 ≤ n ∧ n < 2 ^ 32 then some (.ofNat n.toNat) else none

/-- The bytes with `UInt32(count)`. -/
def exactBlob (bytes : List UInt8) : Option Blob :=
  if h : bytes.length < 2 ^ 32 then some ⟨bytes, h⟩ else none

/-- The bytes of a string. -/
def utf8 (x : String) : List UInt8 := x.toList.flatMap String.utf8EncodeChar

/-! ## The values -/

/-- `CWNil` -/
structure CWNil where
  deriving DecidableEq, Repr

/-- `ArrayHeader` -/
structure ArrayHeader where
  count : Int
  deriving DecidableEq, Repr

/-- `DictionaryHeader` -/
structure DictionaryHeader where
  count : UInt32
  deriving DecidableEq, Repr

/-- `MsgPackExt` -/
structure MsgPackExt where
  type : Int8
  data : List UInt8
  deriving DecidableEq, Repr

/-- The integer types. -/
inductive IntegerType where
  | int
  | int8
  | int16
  | int32
  | int64
  | uint
  | uint8
  | uint16
  | uint32
  | uint64
  deriving DecidableEq, Repr

namespace IntegerType

/-- The name in the error. -/
def name : IntegerType → String
  | int => "Int"
  | int8 => "Int8"
  | int16 => "Int16"
  | int32 => "Int32"
  | int64 => "Int64"
  | uint => "UInt"
  | uint8 => "UInt8"
  | uint16 => "UInt16"
  | uint32 => "UInt32"
  | uint64 => "UInt64"

/-- The routine that unpacks it. -/
def routine : IntegerType → IntegerRoutine
  | int => .signed64
  | int8 => .signed8
  | int16 => .signed16
  | int32 => .signed32
  | int64 => .signed64
  | uint => .unsigned64
  | uint8 => .unsigned8
  | uint16 => .unsigned16
  | uint32 => .unsigned32
  | uint64 => .unsigned64

/-- Packed by `cw_pack_signed`; the others by `cw_pack_unsigned`. -/
def isSigned : IntegerType → Bool
  | int | int8 | int16 | int32 | int64 => true
  | _ => false

end IntegerType

/-- A number of an integer type. -/
structure Integer (t : IntegerType) where
  value : Int
  least_le : t.routine.least ≤ value
  le_greatest : value ≤ t.routine.greatest
  deriving DecidableEq

/-- The number that a C function of the type has returned. -/
def Integer.returned (t : IntegerType) (v : Int) : Integer t :=
  if h : t.routine.least ≤ v ∧ v ≤ t.routine.greatest then ⟨v, h.1, h.2⟩
  else ⟨0, by cases t <;> decide, by cases t <;> decide⟩

/-- The types whose values take one item. -/
inductive BasicType where
  | cwNil
  | arrayHeader
  | dictionaryHeader
  | msgPackExt
  | bool
  | integer (t : IntegerType)
  | float
  | double
  | date
  | data
  | string
  deriving DecidableEq, Repr

/-- The values of a basic type. -/
abbrev BasicType.Carrier : BasicType → Type
  | cwNil => CWNil
  | arrayHeader => ArrayHeader
  | dictionaryHeader => DictionaryHeader
  | msgPackExt => MsgPackExt
  | bool => Bool
  | integer t => Integer t
  | float => UInt32
  | double => UInt64
  | date => UInt64
  | data => List UInt8
  | string => String

/-- The basic types that can be the key of a dictionary. -/
inductive HashableType where
  | bool
  | integer (t : IntegerType)
  | float
  | double
  | date
  | data
  | string
  deriving DecidableEq, Repr

/-- The type itself. -/
abbrev HashableType.basic : HashableType → BasicType
  | bool => .bool
  | integer t => .integer t
  | float => .float
  | double => .double
  | date => .date
  | data => .data
  | string => .string

/-- `==` -/
def HashableType.eq (R : Runtime) : (k : HashableType) → k.basic.Carrier → k.basic.Carrier → Bool
  | bool, a, b => a == b
  | integer _, a, b => decide (a = b)
  | float, a, b => R.floatUnit.floatEq a b
  | double, a, b => R.floatUnit.doubleEq a b
  | date, a, b => R.floatUnit.doubleEq a b
  | data, a, b => a == b
  | string, a, b => R.stringEq a b

/-- A dictionary, with its entries in the order of `keys`. -/
@[ext]
structure Dictionary (R : Runtime) (k : HashableType) (α : Type) where
  entries : List (k.basic.Carrier × α)
  distinct : entries.Pairwise fun e e' => k.eq R e.1 e'.1 = false

namespace Dictionary

variable {R : Runtime} {k : HashableType}

/-- `init()` -/
def empty : Dictionary R k α := ⟨[], .nil⟩

/-- `self[key]` -/
def get (d : Dictionary R k α) (key : k.basic.Carrier) : Option α :=
  (d.entries.find? fun e => k.eq R e.1 key).map (·.2)

/-- `self[key] = value`; a new key comes last. -/
def set (d : Dictionary R k α) (key : k.basic.Carrier) (value : α) : Dictionary R k α :=
  if h : ∀ e ∈ d.entries, k.eq R e.1 key = false then
    ⟨d.entries ++ [(key, value)], List.pairwise_append.mpr
      ⟨d.distinct, List.pairwise_singleton _ _, fun e he e' he' => by
        obtain rfl := List.mem_singleton.mp he'
        exact h e he⟩⟩
  else
    ⟨d.entries.map fun e => (e.1, if k.eq R e.1 key then value else e.2),
      List.pairwise_map.mpr d.distinct⟩

end Dictionary

/-- The packable types. -/
inductive PackableType where
  | basic (t : BasicType)
  /-- `Array`, and `ArraySlice`, which does the same -/
  | array (element : PackableType)
  | dictionary (key : HashableType) (value : PackableType)
  deriving DecidableEq, Repr

/-- The values of a packable type. -/
abbrev PackableType.Carrier (R : Runtime) : PackableType → Type
  | basic t => t.Carrier
  | array t => List (t.Carrier R)
  | dictionary k t => Dictionary R k (t.Carrier R)

/-! ## Packing -/

section Packing

variable (R : Runtime) (optimizeReal : Bool) (H : PackHandlers σ)

/-- `cwPack` of a basic type, on the context of a `CWPacker`. -/
def BasicType.cwPack : (t : BasicType) → t.Carrier → PackState σ → Option (PackState σ)
  | cwNil, _, s => cwPackNil H s
  | arrayHeader, x, s => (exactUInt32 x.count).bind fun n => cwPackArraySize H n s
  | dictionaryHeader, x, s => cwPackMapSize H x.count s
  | msgPackExt, x, s => (exactBlob x.data).bind fun v => cwPackExt H x.type v s
  | bool, b, s => cwPackBoolean H b s
  | integer t, i, s =>
      if t.isSigned then cwPackSigned H (.ofInt i.value) s
      else cwPackUnsigned H (.ofNat i.value.toNat) s
  | float, f, s => if optimizeReal then cwPackFloatOpt R.floatUnit H f s else cwPackFloat H f s
  | double, d, s => if optimizeReal then cwPackDoubleOpt R.floatUnit H d s else cwPackDouble H d s
  | date, d, s => cwPackTimeInterval R.floatUnit H (R.timeIntervalSince1970 d) s
  | data, bytes, s => (exactBlob bytes).bind fun v => cwPackBin H v s
  | string, x, s =>
      -- the bytes of `utf8CString` as far as `strlen` counts them
      (exactBlob ((utf8 x).takeWhile (· ≠ 0))).bind fun v => cwPackStr H v s

/-- `cwPack` of a packable type.  `self[key]!` traps where a key is not found. -/
def PackableType.cwPack :
    (t : PackableType) → t.Carrier R → PackState σ → Option (PackState σ)
  | basic t, x, s => t.cwPack R optimizeReal H x s
  | array t, xs, s =>
      (BasicType.arrayHeader.cwPack R optimizeReal H ⟨xs.length⟩ s).bind fun s =>
        run (fun x s => t.cwPack x s) xs s
  | dictionary k t, d, s =>
      (exactUInt32 d.entries.length).bind fun n =>
        (BasicType.dictionaryHeader.cwPack R optimizeReal H ⟨n⟩ s).bind fun s =>
          run (fun key s =>
            (k.basic.cwPack R optimizeReal H key s).bind fun s =>
              (d.get key).bind fun value => t.cwPack value s) (d.entries.map (·.1)) s

end Packing

/-! ## Unpacking -/

/-- The program traps. -/
def trap : Throwing CWPackError τ α := fun _ => none

/-- Call a routine, then `guard unpacker.OK else {throw …}`. -/
def guarded (name : String) (routine : UnpackState σ → Option (ρ × UnpackState σ)) :
    Throwing CWPackError (UnpackState σ) ρ := fun s =>
  (routine s).map fun r =>
    (if r.2.uc.returnCode = cwpRcOk then .ok r.1 else .error (.unpackerError name), r.2)

/-- The type and the payload of an item.  A time has no blob: its pointer is a stray one. -/
def msgPackExtOf (s : UnpackState σ) : Option MsgPackExt :=
  match s.uc.item.type, s.uc.item.as with
  | .ext type, .blob start length => some ⟨type, s.mem.bytes start length⟩
  | _, _ => none

/-- `init` of a `MsgPackExt`. -/
def unpackMsgPackExt (H : Option (UnpackUnderflowHandler σ)) :
    Throwing CWPackError (UnpackState σ) MsgPackExt := fun s =>
  (cwUnpackNext H s).bind fun s =>
    if s.uc.returnCode = cwpRcOk ∧ s.uc.item.type.code ≤ cwpItemMaxUserExt then
      (msgPackExtOf s).map fun x => (.ok x, s)
    else some (.error (.unpackerError "MsgPackExt"), s)

section Unpacking

variable (R : Runtime) (H : Option (UnpackUnderflowHandler σ))

/-- `init` of a basic type, on the context of a `CWUnpacker`. -/
def BasicType.unpack : (t : BasicType) → Throwing CWPackError (UnpackState σ) t.Carrier
  | cwNil => do
      guarded "CWNil" (cwUnpackNextNil H)
      return ⟨⟩
  | arrayHeader => do
      let count ← guarded "ArrayHeader" (cwUnpackNextArraySize H)
      return ⟨count⟩
  | dictionaryHeader => do
      let count ← guarded "DictionaryHeader" (cwUnpackNextMapSize H)
      return ⟨.ofNat count.toNat⟩
  | msgPackExt => unpackMsgPackExt H
  | bool => guarded "Bool" (cwUnpackNextBoolean H)
  | integer t => do
      let v ← guarded t.name (t.routine.perform H)
      return .returned t v
  | float => guarded "Float" (cwUnpackNextFloat R.floatUnit H)
  | double => guarded "Double" (cwUnpackNextDouble R.floatUnit H)
  | date => do
      let ti ← guarded "Date" (cwUnpackNextTimeInterval R.floatUnit H)
      return R.dateSince1970 ti
  | data => do
      let l ← guarded "Data" (cwUnpackNextBinLengh H)
      let s ← get
      return if l > 0 then s.mem.bytes s.uc.item.as.front l.toNat else []
  | string => do
      let l ← guarded "String" (cwUnpackNextStrLengh H)
      let s ← get
      if l > 0 then
        match R.nsString (s.mem.bytes s.uc.item.as.front l.toNat) with
        | some x => return x
        | none => trap
      else return ""

/-- `init` of a packable type, from the `init` of the basic ones. -/
def PackableType.unpackWith (basic : (t : BasicType) → Throwing CWPackError τ t.Carrier) :
    (t : PackableType) → Throwing CWPackError τ (t.Carrier R)
  | .basic t => basic t
  | array t => do
      let ah ← basic .arrayHeader
      repeated (fun xs => do
        let e ← t.unpackWith basic
        return xs ++ [e]) ah.count.toNat []
  | dictionary k t => do
      let ah ← basic .dictionaryHeader
      repeated (fun d => do
        let key ← basic k.basic
        let value ← t.unpackWith basic
        return d.set key value) ah.count.toNat .empty

/-- `init` of a packable type, on the context of a `CWUnpacker`. -/
def PackableType.unpack (t : PackableType) :
    Throwing CWPackError (UnpackState σ) (t.Carrier R) :=
  t.unpackWith R (BasicType.unpack R H)

end Unpacking

end CWPack.Swift
