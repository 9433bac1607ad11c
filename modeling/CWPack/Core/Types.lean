/-
  Core/Types.lean --- the data of `src/cwpack.h`.

  A pointer is an address of the flat memory.  The struct a handler receives is
  the whole state it can reach: the context, the memory, and an environment `σ`
  that stands for whatever the derived context adds to it (a barrier, a file, an
  allocator).  The core routines never look at the environment.

  The handler fields of a context are function pointers that no routine here
  changes after initialisation, so they are a parameter of the routines and not a
  field of the state.  `none` is a null pointer.  A handler that returns `none`
  never returns.
-/
import CWPack.Foundation.BigEndian
import CWPack.Foundation.Memory

set_option autoImplicit false

namespace CWPack.Core

open CWPack.Foundation

/-! ## Return codes -/

abbrev cwpRcOk : Int := 0
abbrev cwpRcEndOfInput : Int := -1
abbrev cwpRcBufferOverflow : Int := -2
abbrev cwpRcBufferUnderflow : Int := -3
abbrev cwpRcMalformedInput : Int := -4
abbrev cwpRcWrongByteOrder : Int := -5
abbrev cwpRcErrorInHandler : Int := -6
abbrev cwpRcIllegalCall : Int := -7
abbrev cwpRcMallocError : Int := -8
abbrev cwpRcStopped : Int := -9
abbrev cwpRcTypeError : Int := -10
abbrev cwpRcValueError : Int := -11
abbrev cwpRcWrongTimestampLength : Int := -12

/-! ## Packing -/

/-- `cw_pack_context`, less its handlers. -/
structure PackContext where
  current : Nat
  start : Nat
  /-- one past the last byte of the buffer -/
  end_ : Nat
  beCompatible : Bool
  returnCode : Int
  errNo : Int
  deriving DecidableEq, Repr

/-- What a packing routine works on. -/
structure PackState (σ : Type) where
  pc : PackContext
  mem : Memory
  env : σ

/-- `pack_overflow_handler` -/
abbrev PackOverflowHandler (σ : Type) : Type := PackState σ → Nat → Option (Int × PackState σ)

/-- `pack_flush_handler` -/
abbrev PackFlushHandler (σ : Type) : Type := PackState σ → Option (Int × PackState σ)

/-- The handler fields of a `cw_pack_context`. -/
structure PackHandlers (σ : Type) where
  handlePackOverflow : Option (PackOverflowHandler σ)
  handleFlush : Option (PackFlushHandler σ)

/-- A context on a static buffer has no handlers. -/
def PackHandlers.static (σ : Type) : PackHandlers σ := ⟨none, none⟩

/-- A blob argument: a pointer and a `uint32_t` length, taken as the bytes there. -/
structure Blob where
  bytes : List UInt8
  length_lt : bytes.length < 2 ^ 32

/-- The length argument that goes with the pointer. -/
abbrev Blob.length (v : Blob) : Nat := v.bytes.length

/-! ## Unpacking -/

/-- `cwpack_item_types`.  The extension types, reserved and user, are the numbers
from -128 to 127. -/
inductive ItemType where
  | ext (type : Int8)
  | nil
  | boolean
  | positiveInteger
  | negativeInteger
  | float
  | double
  | str
  | bin
  | array
  | map
  /-- `CWP_ITEM_EXT`, in the item only until the type byte has been read -/
  | extItem
  | notAnItem
  deriving DecidableEq, Repr

namespace ItemType

/-- `CWP_ITEM_TIMESTAMP` -/
abbrev timestamp : ItemType := .ext (-1)

/-- The number of the enumerator. -/
def code : ItemType → Int
  | .ext type => type.toInt
  | .nil => 300
  | .boolean => 301
  | .positiveInteger => 302
  | .negativeInteger => 303
  | .float => 304
  | .double => 305
  | .str => 306
  | .bin => 307
  | .array => 308
  | .map => 309
  | .extItem => 310
  | .notAnItem => 999

end ItemType

/-- The union `as` of a `cwpack_item`, as the member that was stored last.  The
eight-byte members `u64`, `i64` and `long_real` are one; so are `array` and
`map`, and `str`, `bin` and `ext`. -/
inductive ItemAs where
  | boolean (b : Bool)
  | u64 (bits : Nat)
  | real (bits : Nat)
  | container (size : Nat)
  | blob (start length : Nat)
  | time (tvSec : Int) (tvNsec : Nat)
  deriving DecidableEq, Repr

namespace ItemAs

/-- The eight bytes at the front of the union.  A pointer, `u64` and `tv_sec` all
lie there; what a shorter member leaves undetermined is read as zero. -/
def front : ItemAs → Nat
  | .boolean b => b.toNat
  | .u64 bits => bits
  | .real bits => bits
  | .container size => size
  | .blob start _ => start
  | .time tvSec _ => toPattern 64 tvSec

/-- The four bytes behind them, where `length` and `tv_nsec` lie. -/
def back : ItemAs → Nat
  | .blob _ length => length
  | .time _ tvNsec => tvNsec
  | _ => 0

/-- `as.i64` -/
def i64 (as : ItemAs) : Int := twosComplement 64 as.front

/-- Store `as.i64`. -/
def ofI64 (v : Int) : ItemAs := .u64 (toPattern 64 v)

/-- Store `as.blob.length`; the pointer keeps what the union held. -/
def setLength (as : ItemAs) (length : Nat) : ItemAs := .blob as.front length

/-- Store `as.blob.start`. -/
def setStart (as : ItemAs) (start : Nat) : ItemAs := .blob start as.back

/-- Store `as.time.tv_nsec`. -/
def setTvNsec (as : ItemAs) (tvNsec : Nat) : ItemAs := .time (twosComplement 64 as.front) tvNsec

/-- Store `as.time.tv_sec`. -/
def setTvSec (as : ItemAs) (tvSec : Int) : ItemAs := .time tvSec as.back

@[simp] theorem setLength_back (as : ItemAs) (n : Nat) : (as.setLength n).back = n := rfl

@[simp] theorem setStart_setLength (as : ItemAs) (n p : Nat) :
    (as.setLength n).setStart p = .blob p n := rfl

@[simp] theorem setTvSec_setTvNsec (as : ItemAs) (n : Nat) (v : Int) :
    (as.setTvNsec n).setTvSec v = .time v n := rfl

/-- Storing the nanoseconds behind the seconds keeps the seconds. -/
theorem setTvNsec_setTvSec (as : ItemAs) (n : Nat) {v : Int} (hlo : -2 ^ 63 ≤ v)
    (hhi : v < 2 ^ 63) : (as.setTvSec v).setTvNsec n = .time v n := by
  simp only [setTvSec, setTvNsec, front, twosComplement_toPattern (w := 64) (v := v) (by omega)
    (by omega)]

/-- A signed number that was stored is read back. -/
theorem i64_ofI64 {v : Int} (hlo : -2 ^ 63 ≤ v) (hhi : v < 2 ^ 63) : (ofI64 v).i64 = v :=
  twosComplement_toPattern (by omega) (by omega)

end ItemAs

/-- `cwpack_item` -/
structure CwpackItem where
  type : ItemType
  as : ItemAs
  deriving DecidableEq, Repr

/-- `cw_unpack_context`, less its handler. -/
structure UnpackContext where
  item : CwpackItem
  start : Nat
  current : Nat
  /-- logical end of buffer -/
  end_ : Nat
  returnCode : Int
  errNo : Int
  deriving DecidableEq, Repr

/-- What an unpacking routine works on. -/
structure UnpackState (σ : Type) where
  uc : UnpackContext
  mem : Memory
  env : σ

/-- `unpack_underflow_handler` -/
abbrev UnpackUnderflowHandler (σ : Type) : Type :=
  UnpackState σ → Nat → Option (Int × UnpackState σ)

end CWPack.Core
