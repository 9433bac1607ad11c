/-
  Core/Pack.lean --- the packing half of `src/cwpack.c` and of
  `src/cwpack_internals.h`.

  The macros of the source return from the routine that uses them when there is
  no space.  Here a macro takes the rest of the routine as a continuation: it is
  called where the source falls through, and not called where the source returns.

  The stores are those of the build that is independent of the byte order of the
  machine.
-/
import CWPack.Core.Types

set_option autoImplicit false

namespace CWPack.Core

open CWPack.Foundation

variable {σ : Type}

/-! ## State -/

namespace PackState

/-- Move the cursor. -/
def setCurrent (s : PackState σ) (p : Nat) : PackState σ := { s with pc.current := p }

/-- Store bytes at an address. -/
def store (s : PackState σ) (p : Nat) (bs : List UInt8) : PackState σ :=
  { s with mem := s.mem.write p bs }

/-- Set the return code. -/
def setReturnCode (s : PackState σ) (rc : Int) : PackState σ := { s with pc.returnCode := rc }

end PackState

/-! ## Macros -/

/-- `cw_store16(d)` -/
def cwStore16 (d : Nat) : List UInt8 := [UInt8.ofNat (d >>> 8), UInt8.ofNat d]

/-- `cw_store32(d)` -/
def cwStore32 (d : Nat) : List UInt8 :=
  [UInt8.ofNat (d >>> 24), UInt8.ofNat (d >>> 16), UInt8.ofNat (d >>> 8), UInt8.ofNat d]

/-- `cw_store64(z)` -/
def cwStore64 (z : Nat) : List UInt8 :=
  [UInt8.ofNat (z >>> 56), UInt8.ofNat (z >>> 48), UInt8.ofNat (z >>> 40), UInt8.ofNat (z >>> 32),
    UInt8.ofNat (z >>> 24), UInt8.ofNat (z >>> 16), UInt8.ofNat (z >>> 8), UInt8.ofNat z]

/-- `PACK_ERROR(error_code)` -/
def packError (errorCode : Int) (s : PackState σ) : Option (PackState σ) :=
  some (s.setReturnCode errorCode)

/-- `cw_pack_new_buffer(more)` -/
def cwPackNewBuffer (H : PackHandlers σ) (more : Nat) (s : PackState σ)
    (k : PackState σ → Option (PackState σ)) : Option (PackState σ) :=
  match H.handlePackOverflow with
  | none => packError cwpRcBufferOverflow s
  | some handler =>
      match handler s more with
      | none => none
      | some (rc, s) => if rc ≠ 0 then packError rc s else k s

/-- `cw_pack_reserve_space(l + c)` with `l` a `uint32_t` and `c` a constant.  The
argument is expanded twice: `p + l + c` adds both operands to the pointer, while
`(unsigned long)(l + c)` adds them in 32 bits first. -/
def cwPackReserveSpace (H : PackHandlers σ) (l c : Nat) (s : PackState σ)
    (k : Nat → PackState σ → Option (PackState σ)) : Option (PackState σ) :=
  let p := s.pc.current
  let nyp := p + l + c
  if nyp > s.pc.end_ then
    cwPackNewBuffer H ((l + c) % 2 ^ 32) s fun s =>
      let p := s.pc.current
      let nyp := p + l + c
      k p (s.setCurrent nyp)
  else k p (s.setCurrent nyp)

/-- `tryMove0(t)` -/
def tryMove0 (H : PackHandlers σ) (t : Nat) (s : PackState σ) : Option (PackState σ) :=
  let move (s : PackState σ) : Option (PackState σ) :=
    some ((s.store s.pc.current [UInt8.ofNat t]).setCurrent (s.pc.current + 1))
  if s.pc.current = s.pc.end_ then cwPackNewBuffer H 1 s move else move s

/-- `tryMove1(t,d)` -/
def tryMove1 (H : PackHandlers σ) (t d : Nat) (s : PackState σ) : Option (PackState σ) :=
  cwPackReserveSpace H 0 2 s fun p s => some (s.store p [UInt8.ofNat t, UInt8.ofNat d])

/-- `tryMove2(t,d)` -/
def tryMove2 (H : PackHandlers σ) (t d : Nat) (s : PackState σ) : Option (PackState σ) :=
  cwPackReserveSpace H 0 3 s fun p s => some (s.store p (UInt8.ofNat t :: cwStore16 d))

/-- `tryMove4(t,d)` -/
def tryMove4 (H : PackHandlers σ) (t d : Nat) (s : PackState σ) : Option (PackState σ) :=
  cwPackReserveSpace H 0 5 s fun p s => some (s.store p (UInt8.ofNat t :: cwStore32 d))

/-- `tryMove8(t,d)` -/
def tryMove8 (H : PackHandlers σ) (t d : Nat) (s : PackState σ) : Option (PackState σ) :=
  cwPackReserveSpace H 0 9 s fun p s => some (s.store p (UInt8.ofNat t :: cwStore64 d))

/-! ## Initialisation -/

/-- `test_byte_order`, in the build that makes no assumption to test. -/
def testByteOrder : Int := cwpRcOk

/-- `cw_pack_context_init`, less the handler fields. -/
def cwPackContextInit (data length : Nat) (s : PackState σ) : PackState σ :=
  { s with
    pc :=
      { start := data
        current := data
        end_ := data + length
        beCompatible := false
        errNo := 0
        returnCode := testByteOrder } }

/-- `cw_pack_set_compatibility` -/
def cwPackSetCompatibility (beCompatible : Bool) (s : PackState σ) : PackState σ :=
  { s with pc.beCompatible := beCompatible }

/-! ## Packing routines -/

/-- `cw_pack_unsigned` -/
def cwPackUnsigned (H : PackHandlers σ) (i : UInt64) (s : PackState σ) : Option (PackState σ) :=
  if s.pc.returnCode ≠ 0 then some s
  else if i.toNat < 128 then tryMove0 H i.toNat s
  else if i.toNat < 256 then tryMove1 H 0xcc i.toNat s
  else if i.toNat < 0x10000 then tryMove2 H 0xcd i.toNat s
  else if i.toNat < 0x100000000 then tryMove4 H 0xce i.toNat s
  else tryMove8 H 0xcf i.toNat s

/-- `cw_pack_signed`.  The stores see the operand's 64-bit pattern. -/
def cwPackSigned (H : PackHandlers σ) (i : Int64) (s : PackState σ) : Option (PackState σ) :=
  let d := i.toUInt64.toNat
  if s.pc.returnCode ≠ 0 then some s
  else if i.toInt > 127 then
    if i.toInt < 256 then tryMove1 H 0xcc d s
    else if i.toInt < 0x10000 then tryMove2 H 0xcd d s
    else if i.toInt < 0x100000000 then tryMove4 H 0xce d s
    else tryMove8 H 0xcf d s
  else if i.toInt ≥ -32 then tryMove0 H d s
  else if i.toInt ≥ -128 then tryMove1 H 0xd0 d s
  else if i.toInt ≥ -32768 then tryMove2 H 0xd1 d s
  else if i.toInt ≥ -0x80000000 then tryMove4 H 0xd2 d s
  else tryMove8 H 0xd3 d s

/-- `cw_pack_float`, on the bit pattern of `f` -/
def cwPackFloat (H : PackHandlers σ) (f : UInt32) (s : PackState σ) : Option (PackState σ) :=
  if s.pc.returnCode ≠ 0 then some s else tryMove4 H 0xca f.toNat s

/-- `cw_pack_double`, on the bit pattern of `d` -/
def cwPackDouble (H : PackHandlers σ) (d : UInt64) (s : PackState σ) : Option (PackState σ) :=
  if s.pc.returnCode ≠ 0 then some s else tryMove8 H 0xcb d.toNat s

/-- `cw_pack_nil` -/
def cwPackNil (H : PackHandlers σ) (s : PackState σ) : Option (PackState σ) :=
  if s.pc.returnCode ≠ 0 then some s else tryMove0 H 0xc0 s

/-- `cw_pack_true` -/
def cwPackTrue (H : PackHandlers σ) (s : PackState σ) : Option (PackState σ) :=
  if s.pc.returnCode ≠ 0 then some s else tryMove0 H 0xc3 s

/-- `cw_pack_false` -/
def cwPackFalse (H : PackHandlers σ) (s : PackState σ) : Option (PackState σ) :=
  if s.pc.returnCode ≠ 0 then some s else tryMove0 H 0xc2 s

/-- `cw_pack_boolean` -/
def cwPackBoolean (H : PackHandlers σ) (b : Bool) (s : PackState σ) : Option (PackState σ) :=
  if s.pc.returnCode ≠ 0 then some s else tryMove0 H (if b then 0xc3 else 0xc2) s

/-- `cw_pack_array_size` -/
def cwPackArraySize (H : PackHandlers σ) (n : UInt32) (s : PackState σ) : Option (PackState σ) :=
  if s.pc.returnCode ≠ 0 then some s
  else if n.toNat < 16 then tryMove0 H (0x90 ||| n.toNat) s
  else if n.toNat < 65536 then tryMove2 H 0xdc n.toNat s
  else tryMove4 H 0xdd n.toNat s

/-- `cw_pack_map_size` -/
def cwPackMapSize (H : PackHandlers σ) (n : UInt32) (s : PackState σ) : Option (PackState σ) :=
  if s.pc.returnCode ≠ 0 then some s
  else if n.toNat < 16 then tryMove0 H (0x80 ||| n.toNat) s
  else if n.toNat < 65536 then tryMove2 H 0xde n.toNat s
  else tryMove4 H 0xdf n.toNat s

/-- `cw_pack_str` -/
def cwPackStr (H : PackHandlers σ) (v : Blob) (s : PackState σ) : Option (PackState σ) :=
  let l := v.length
  if s.pc.returnCode ≠ 0 then some s
  else if l < 32 then -- Fixstr
    cwPackReserveSpace H l 1 s fun p s => some (s.store p (UInt8.ofNat (0xa0 + l) :: v.bytes))
  else if l < 256 ∧ !s.pc.beCompatible then -- Str 8
    cwPackReserveSpace H l 2 s fun p s => some (s.store p (0xd9 :: UInt8.ofNat l :: v.bytes))
  else if l < 65536 then -- Str 16
    cwPackReserveSpace H l 3 s fun p s => some (s.store p (0xda :: (cwStore16 l ++ v.bytes)))
  else -- Str 32
    cwPackReserveSpace H l 5 s fun p s => some (s.store p (0xdb :: (cwStore32 l ++ v.bytes)))

/-- `cw_pack_bin` -/
def cwPackBin (H : PackHandlers σ) (v : Blob) (s : PackState σ) : Option (PackState σ) :=
  let l := v.length
  if s.pc.returnCode ≠ 0 then some s
  else if s.pc.beCompatible then cwPackStr H v s
  else if l < 256 then -- Bin 8
    cwPackReserveSpace H l 2 s fun p s => some (s.store p (0xc4 :: UInt8.ofNat l :: v.bytes))
  else if l < 65536 then -- Bin 16
    cwPackReserveSpace H l 3 s fun p s => some (s.store p (0xc5 :: (cwStore16 l ++ v.bytes)))
  else -- Bin 32
    cwPackReserveSpace H l 5 s fun p s => some (s.store p (0xc6 :: (cwStore32 l ++ v.bytes)))

/-- `cw_pack_ext` -/
def cwPackExt (H : PackHandlers σ) (type : Int8) (v : Blob) (s : PackState σ) :
    Option (PackState σ) :=
  let l := v.length
  let t := type.toUInt8
  if s.pc.returnCode ≠ 0 then some s
  else if s.pc.beCompatible then packError cwpRcIllegalCall s
  else match l with
    | 1 => cwPackReserveSpace H 0 3 s fun p s => some (s.store p [0xd4, t, v.bytes.headD 0])
    | 2 => cwPackReserveSpace H 0 4 s fun p s => some (s.store p (0xd5 :: t :: v.bytes))
    | 4 => cwPackReserveSpace H 0 6 s fun p s => some (s.store p (0xd6 :: t :: v.bytes))
    | 8 => cwPackReserveSpace H 0 10 s fun p s => some (s.store p (0xd7 :: t :: v.bytes))
    | 16 => cwPackReserveSpace H 0 18 s fun p s => some (s.store p (0xd8 :: t :: v.bytes))
    | _ =>
      if l < 256 then -- Ext 8
        cwPackReserveSpace H l 3 s fun p s =>
          some (s.store p (0xc7 :: UInt8.ofNat l :: t :: v.bytes))
      else if l < 65536 then -- Ext 16
        cwPackReserveSpace H l 4 s fun p s =>
          some (s.store p (0xc8 :: (cwStore16 l ++ t :: v.bytes)))
      else -- Ext 32
        cwPackReserveSpace H l 6 s fun p s =>
          some (s.store p (0xc9 :: (cwStore32 l ++ t :: v.bytes)))

/-- `cw_pack_time` -/
def cwPackTime (H : PackHandlers σ) (sec : Int64) (nsec : UInt32) (s : PackState σ) :
    Option (PackState σ) :=
  if s.pc.returnCode ≠ 0 then some s
  else if s.pc.beCompatible then packError cwpRcIllegalCall s
  else if nsec.toNat ≥ 1000000000 then packError cwpRcValueError s
  else if sec.toUInt64 &&& 0xfffffffc00000000 ≠ 0 then -- timestamp 96
    cwPackReserveSpace H 0 15 s fun p s =>
      some (s.store p
        (0xc7 :: 12 :: 0xff :: (cwStore32 nsec.toNat ++ cwStore64 sec.toUInt64.toNat)))
  else
    let data64 := (nsec.toUInt64 <<< 34) ||| sec.toUInt64
    if data64 &&& 0xffffffff00000000 ≠ 0 then -- timestamp 64
      cwPackReserveSpace H 0 10 s fun p s =>
        some (s.store p (0xd7 :: 0xff :: cwStore64 data64.toNat))
    else -- timestamp 32
      let data32 := data64.toUInt32
      cwPackReserveSpace H 0 6 s fun p s =>
        some (s.store p (0xd6 :: 0xff :: cwStore32 data32.toNat))

/-- `cw_pack_insert`; the source has no test of the return code here. -/
def cwPackInsert (H : PackHandlers σ) (v : Blob) (s : PackState σ) : Option (PackState σ) :=
  cwPackReserveSpace H v.length 0 s fun p s => some (s.store p v.bytes)

/-- `cw_pack_flush` -/
def cwPackFlush (H : PackHandlers σ) (s : PackState σ) : Option (PackState σ) :=
  if s.pc.returnCode = cwpRcOk then
    match H.handleFlush with
    | none => some (s.setReturnCode cwpRcIllegalCall)
    | some handler =>
        match handler s with
        | none => none
        | some (rc, s) => some (s.setReturnCode rc)
  else some s

/-! ## Calls -/

/-- A call that packs one item. -/
inductive PackCall where
  | nil
  | true_
  | false_
  | boolean (b : Bool)
  | unsigned (i : UInt64)
  | signed (i : Int64)
  | float (f : UInt32)
  | double (d : UInt64)
  | arraySize (n : UInt32)
  | mapSize (n : UInt32)
  | str (v : Blob)
  | bin (v : Blob)
  | ext (type : Int8) (v : Blob)
  | time (sec : Int64) (nsec : UInt32)

/-- Perform a call. -/
def cwPack (H : PackHandlers σ) : PackCall → PackState σ → Option (PackState σ)
  | .nil => cwPackNil H
  | .true_ => cwPackTrue H
  | .false_ => cwPackFalse H
  | .boolean b => cwPackBoolean H b
  | .unsigned i => cwPackUnsigned H i
  | .signed i => cwPackSigned H i
  | .float f => cwPackFloat H f
  | .double d => cwPackDouble H d
  | .arraySize n => cwPackArraySize H n
  | .mapSize n => cwPackMapSize H n
  | .str v => cwPackStr H v
  | .bin v => cwPackBin H v
  | .ext type v => cwPackExt H type v
  | .time sec nsec => cwPackTime H sec nsec

/-- What a user of a pack context can do between initialisation and the end. -/
inductive PackOp where
  | call (c : PackCall)
  | insert (v : Blob)
  | setCompatibility (b : Bool)

/-- Perform an operation. -/
def PackOp.perform (H : PackHandlers σ) : PackOp → PackState σ → Option (PackState σ)
  | .call c, s => cwPack H c s
  | .insert v, s => cwPackInsert H v s
  | .setCompatibility b, s => some (cwPackSetCompatibility b s)

end CWPack.Core
