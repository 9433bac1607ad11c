/-
  ObjC/Objects.lean --- the objects `src/goodies/objC/CWPackContext.m` can pack.

  An object is known by its address, and a heap gives for every address what the
  object there holds.  Strings, data and numbers hold values; the other objects
  hold the addresses of their parts, so that parts can be shared and objects can
  contain themselves.
-/
import CWPack.Core.Pack

set_option autoImplicit false

namespace CWPack.ObjC

open CWPack.Core

/-- A pointer to an object, other than `nil`. -/
abbrev ObjectId : Type := Nat

/-! ## Numbers -/

/-- The number types that are packed with `cw_pack_signed`. -/
inductive IntegerType where
  | sInt8
  | sInt16
  | sInt32
  | sInt64
  | short
  | int
  | long
  | cfIndex
  | nsInteger
  | longLong
  deriving DecidableEq, Repr

/-- The number types that are packed with `cw_pack_float`. -/
inductive FloatType where
  | float32
  | float
  | cgFloat
  deriving DecidableEq, Repr

/-- The number types that are packed with `cw_pack_double`. -/
inductive DoubleType where
  | float64
  | double
  deriving DecidableEq, Repr

/-- `NSNumber`: the branch of the switch on its `CFNumberType`, and what the accessor of this
branch gives.  `BOOL` is of type `kCFNumberCharType`. -/
inductive Number where
  | integer (type : IntegerType) (longLongValue : Int64)
  | float (type : FloatType) (floatValue : UInt32)
  | double (type : DoubleType) (doubleValue : UInt64)
  | char (intValue : Int32)
  deriving DecidableEq, Repr

/-! ## Objects -/

/-- What an object holds.  A dictionary and a set are listed in the order in which they are
enumerated, a counted set with the count of each object. -/
inductive Object where
  | null
  | string (characters : String)
  | data (bytes : List UInt8)
  | date (timeIntervalSince1970 : UInt64)
  | number (value : Number)
  | array (elements : List ObjectId)
  | dictionary (entries : List (ObjectId × ObjectId))
  | externalItem (type : Int32) (data : List UInt8)
  | set (elements : List ObjectId)
  | countedSet (elements : List (ObjectId × UInt64))
  | genericClass (packerClassName : Option String) (attributes : List ObjectId)
  deriving DecidableEq

/-- What every object holds. -/
abbrev Heap : Type := ObjectId → Object

namespace Object

/-- `conformsToProtocol:@protocol(CWPackPackerClasses)` -/
def isMsgpackObject : Object → Bool
  | set _ => false
  | countedSet _ => false
  | genericClass _ _ => false
  | _ => true

/-- `persistentAttributeCount` of `NSSet`, on `self.count`; `NSObject` has 0. -/
def setAttributeCount (count : Nat) : Int32 := Int32.ofNat count + 0

/-- `persistentAttributeCount` of `NSCountedSet`, whose `super` is that of `NSSet`. -/
def countedSetAttributeCount (count : Nat) : Int32 := 2 * Int32.ofNat count + setAttributeCount count

/-- `persistentAttributeCount`.  A sum that does not fit an `int` wraps around. -/
def persistentAttributeCount : Object → Int32
  | set elements => setAttributeCount elements.length
  | countedSet elements => countedSetAttributeCount elements.length
  | genericClass _ attributes => Int32.ofNat attributes.length
  | _ => 0

/-- `packerClassName` of the objects that are packed with it. -/
def packerClassName : Object → Option String
  | set _ => some "NSSet"
  | countedSet _ => some "NSSet"
  | genericClass name _ => name
  | _ => none

/-- The objects that are packed as parts of this one; of an array as many as its count says, cast to
`uint32_t`. -/
def children : Object → List ObjectId
  | array elements => elements.take (UInt32.ofNat elements.length).toNat
  | dictionary entries => entries.flatMap fun entry => [entry.1, entry.2]
  | set elements => elements
  | countedSet elements => elements.map Prod.fst
  | genericClass _ attributes => attributes
  | _ => []

end Object

/-- The bytes of a string as UTF-8. -/
def utf8 (characters : String) : List UInt8 := characters.toUTF8.data.toList

/-- A pointer to bytes, with their number cast to `uint32_t`. -/
def castBlob (bytes : List UInt8) : Blob where
  bytes := bytes.take (bytes.length % 2 ^ 32)
  length_lt := by
    rw [List.length_take]
    omega

theorem castBlob_of_lt {bytes : List UInt8} (h : bytes.length < 2 ^ 32) :
    (castBlob bytes).bytes = bytes := by
  show bytes.take (bytes.length % 2 ^ 32) = bytes
  rw [Nat.mod_eq_of_lt h, List.take_length]

/-- The blob of `cw_pack_cstr(context, string.UTF8String)`, up to the first NUL. -/
def cstr (characters : String) : Blob := castBlob ((utf8 characters).takeWhile (· ≠ 0))

end CWPack.ObjC
