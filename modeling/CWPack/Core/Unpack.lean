/-
  Core/Unpack.lean --- the unpacking half of `src/cwpack.c` and of
  `src/cwpack_internals.h`.

  As in the packing half, a macro takes the rest of the routine as a
  continuation.  The macro that asserts space also takes what the routine returns
  with when it stops, and its size as a function of the context: the macro
  expands the size again after the handler has run.

  The loads are those of the build that is independent of the byte order of the
  machine.  A `long` has 64 bits.
-/
import CWPack.Core.Pack

set_option autoImplicit false

namespace CWPack.Core

open CWPack.Foundation

variable {σ ρ : Type}

/-! ## State -/

namespace UnpackState

/-- Move the cursor. -/
def setCurrent (s : UnpackState σ) (p : Nat) : UnpackState σ := { s with uc.current := p }

/-- Store `item.type`. -/
def setType (s : UnpackState σ) (t : ItemType) : UnpackState σ := { s with uc.item.type := t }

/-- Store a member of `item.as`. -/
def setAs (s : UnpackState σ) (as : ItemAs) : UnpackState σ := { s with uc.item.as := as }

/-- Set the return code. -/
def setReturnCode (s : UnpackState σ) (rc : Int) : UnpackState σ := { s with uc.returnCode := rc }

end UnpackState

/-! ## Stores -/

/-- `as.u64 = (cast)...` for an unsigned cast -/
def storeU64 (n : Nat) (_ : ItemAs) : ItemAs := .u64 n

/-- `as.i64 = (cast)...` for a cast to `w` bits, signed -/
def storeI64 (w n : Nat) (_ : ItemAs) : ItemAs := .ofI64 (twosComplement w n)

/-- `as.array.size = ...` or `as.map.size = ...` -/
def storeSize (n : Nat) (_ : ItemAs) : ItemAs := .container n

/-- `as.str.length = ...`, `as.bin.length = ...` or `as.ext.length = ...` -/
def storeLength (n : Nat) (as : ItemAs) : ItemAs := as.setLength n

/-! ## Macros -/

/-- `UNPACK_ERROR_SUB(error_code,abortValue)` -/
def unpackErrorSub (errorCode : Int) (abort : UnpackState σ → ρ) (s : UnpackState σ) : Option ρ :=
  some (abort ((s.setType .notAnItem).setReturnCode errorCode))

/-- `UNPACK_ERROR(error_code)` -/
def unpackError (errorCode : Int) (s : UnpackState σ) : Option (UnpackState σ) :=
  unpackErrorSub errorCode id s

/-- `cw_load16(ptr)` -/
def cwLoad16 (m : Memory) (ptr : Nat) : Nat := (m ptr).toNat <<< 8 ||| (m (ptr + 1)).toNat

/-- `cw_load32(ptr)` -/
def cwLoad32 (m : Memory) (ptr : Nat) : Nat :=
  (m ptr).toNat <<< 24 ||| (m (ptr + 1)).toNat <<< 16 ||| (m (ptr + 2)).toNat <<< 8 |||
    (m (ptr + 3)).toNat

/-- `cw_load64(ptr,dest)` -/
def cwLoad64 (m : Memory) (ptr : Nat) : Nat :=
  (m ptr).toNat <<< 56 ||| (m (ptr + 1)).toNat <<< 48 ||| (m (ptr + 2)).toNat <<< 40 |||
    (m (ptr + 3)).toNat <<< 32 ||| (m (ptr + 4)).toNat <<< 24 ||| (m (ptr + 5)).toNat <<< 16 |||
    (m (ptr + 6)).toNat <<< 8 ||| (m (ptr + 7)).toNat

/-- `cw_unpack_assert_space_sub(more,abortValue)`, under a definition of
`buffer_end_return_code` -/
def cwUnpackAssertSpaceSub (H : Option (UnpackUnderflowHandler σ)) (bufferEndReturnCode : Int)
    (more : UnpackContext → Nat) (abort : UnpackState σ → ρ) (s : UnpackState σ)
    (k : Nat → UnpackState σ → Option ρ) : Option ρ :=
  let p := s.uc.current
  let nyp := p + more s.uc
  if nyp > s.uc.end_ then
    match H with
    | none => unpackErrorSub bufferEndReturnCode abort s
    | some handleUnpackUnderflow =>
        match handleUnpackUnderflow s (more s.uc) with
        | none => none
        | some (rc, s) =>
            if rc ≠ cwpRcOk then
              if rc ≠ cwpRcEndOfInput then unpackErrorSub rc abort s
              else unpackErrorSub bufferEndReturnCode abort s
            else
              let p := s.uc.current
              let nyp := p + more s.uc
              k p (s.setCurrent nyp)
  else k p (s.setCurrent nyp)

/-- `cw_unpack_assert_space(more)` in a routine without a result -/
def cwUnpackAssertSpace (H : Option (UnpackUnderflowHandler σ)) (bufferEndReturnCode : Int)
    (more : Nat) (s : UnpackState σ) (k : Nat → UnpackState σ → Option (UnpackState σ)) :
    Option (UnpackState σ) :=
  cwUnpackAssertSpaceSub H bufferEndReturnCode (fun _ => more) id s k

/-- `cw_unpack_assert_blob(blob)`; the blob members of the union share their place. -/
def cwUnpackAssertBlob (H : Option (UnpackUnderflowHandler σ)) (s : UnpackState σ) :
    Option (UnpackState σ) :=
  cwUnpackAssertSpaceSub H cwpRcBufferUnderflow (fun uc => uc.item.as.back) id s fun p s =>
    some (s.setAs (s.uc.item.as.setStart p))

/-- `getDDItem(typ,var,val)` -/
def getDDItem (typ : ItemType) (store : ItemAs → ItemAs) (s : UnpackState σ) : UnpackState σ :=
  (s.setType typ).setAs (store s.uc.item.as)

/-- The macros that load a number of `w` bytes and store it; `store` casts it. -/
def getDDItemLoad (H : Option (UnpackUnderflowHandler σ)) (w : Nat) (load : Memory → Nat → Nat)
    (typ : ItemType) (store : Nat → ItemAs → ItemAs) (s : UnpackState σ)
    (k : UnpackState σ → Option (UnpackState σ)) : Option (UnpackState σ) :=
  cwUnpackAssertSpace H cwpRcBufferUnderflow w (s.setType typ) fun p s =>
    k (s.setAs (store (load s.mem p) s.uc.item.as))

/-- `getDDItem1(typ,var,cast)` -/
def getDDItem1 (H : Option (UnpackUnderflowHandler σ)) (typ : ItemType)
    (store : Nat → ItemAs → ItemAs) (s : UnpackState σ)
    (k : UnpackState σ → Option (UnpackState σ)) : Option (UnpackState σ) :=
  getDDItemLoad H 1 (fun m p => (m p).toNat) typ store s k

/-- `getDDItem2(typ,var,cast)` -/
def getDDItem2 (H : Option (UnpackUnderflowHandler σ)) (typ : ItemType)
    (store : Nat → ItemAs → ItemAs) (s : UnpackState σ)
    (k : UnpackState σ → Option (UnpackState σ)) : Option (UnpackState σ) :=
  getDDItemLoad H 2 cwLoad16 typ store s k

/-- `getDDItem4(typ,var,cast)` -/
def getDDItem4 (H : Option (UnpackUnderflowHandler σ)) (typ : ItemType)
    (store : Nat → ItemAs → ItemAs) (s : UnpackState σ)
    (k : UnpackState σ → Option (UnpackState σ)) : Option (UnpackState σ) :=
  getDDItemLoad H 4 cwLoad32 typ store s k

/-- `getDDItem8(typ)` -/
def getDDItem8 (H : Option (UnpackUnderflowHandler σ)) (typ : ItemType) (s : UnpackState σ)
    (k : UnpackState σ → Option (UnpackState σ)) : Option (UnpackState σ) :=
  getDDItemLoad H 8 cwLoad64 typ storeU64 s k

/-- `getDDItemFix(len)` -/
def getDDItemFix (H : Option (UnpackUnderflowHandler σ)) (len : Nat) (s : UnpackState σ) :
    Option (UnpackState σ) :=
  cwUnpackAssertSpace H cwpRcBufferUnderflow (len + 1) s fun p s =>
    let s := s.setType (.ext (s.mem p).toInt8)
    let p := p + 1
    if s.uc.item.type = .timestamp then
      if len = 4 then
        let s := s.setAs (s.uc.item.as.setTvSec (cwLoad32 s.mem p))
        some (s.setAs (s.uc.item.as.setTvNsec 0))
      else if len = 8 then
        let tmpu64 := cwLoad64 s.mem p
        let s := s.setAs (s.uc.item.as.setTvSec ((tmpu64 &&& 0x00000003ffffffff : Nat) : Int))
        some (s.setAs (s.uc.item.as.setTvNsec (tmpu64 >>> 34)))
      else unpackError cwpRcWrongTimestampLength s
    else
      let s := s.setAs (s.uc.item.as.setLength len)
      some (s.setAs (s.uc.item.as.setStart p))

/-- The signed formats carry nonnegative numbers too. -/
def retagSigned (s : UnpackState σ) : Option (UnpackState σ) :=
  if s.uc.item.as.i64 ≥ 0 then some (s.setType .positiveInteger) else some s

/-! ## Initialisation -/

/-- `cw_unpack_context_init`, less the handler field. -/
def cwUnpackContextInit (data length : Nat) (s : UnpackState σ) : UnpackState σ :=
  { s with
    uc.start := data
    uc.current := data
    uc.end_ := data + length
    uc.returnCode := testByteOrder
    uc.errNo := 0 }

/-! ## Unpacking routines -/

/-- The switch of `cw_unpack_next` on the first byte. -/
def unpackSwitch (H : Option (UnpackUnderflowHandler σ)) (c : Nat) (s : UnpackState σ) :
    Option (UnpackState σ) :=
  if c < 0x80 then some (getDDItem .positiveInteger (fun _ => .ofI64 c) s) -- positive fixnum
  else if c < 0x90 then some (getDDItem .map (storeSize (c &&& 0x0f)) s) -- fixmap
  else if c < 0xa0 then some (getDDItem .array (storeSize (c &&& 0x0f)) s) -- fixarray
  else if c < 0xc0 then -- fixraw
    cwUnpackAssertBlob H (getDDItem .str (storeLength (c &&& 0x1f)) s)
  else if 0xe0 ≤ c then -- negative fixnum
    some (getDDItem .negativeInteger (storeI64 8 c) s)
  else match c with
    | 0xc0 => some (s.setType .nil)
    | 0xc2 => some (getDDItem .boolean (fun _ => .boolean false) s)
    | 0xc3 => some (getDDItem .boolean (fun _ => .boolean true) s)
    | 0xc4 => getDDItem1 H .bin storeLength s (cwUnpackAssertBlob H) -- bin 8
    | 0xc5 => getDDItem2 H .bin storeLength s (cwUnpackAssertBlob H) -- bin 16
    | 0xc6 => getDDItem4 H .bin storeLength s (cwUnpackAssertBlob H) -- bin 32
    | 0xc7 => -- ext 8
        getDDItem1 H .extItem storeLength s fun s =>
        cwUnpackAssertSpace H cwpRcBufferUnderflow 1 s fun p s =>
        let s := s.setType (.ext (s.mem p).toInt8)
        if s.uc.item.type = .timestamp then
          if s.uc.item.as.back = 12 then
            cwUnpackAssertSpace H cwpRcBufferUnderflow 4 s fun p s =>
            let s := s.setAs (s.uc.item.as.setTvNsec (cwLoad32 s.mem p))
            cwUnpackAssertSpace H cwpRcBufferUnderflow 8 s fun p s =>
            some (s.setAs (s.uc.item.as.setTvSec (twosComplement 64 (cwLoad64 s.mem p))))
          else unpackError cwpRcWrongTimestampLength s
        else cwUnpackAssertBlob H s
    | 0xc8 => -- ext 16
        getDDItem2 H .extItem storeLength s fun s =>
        cwUnpackAssertSpace H cwpRcBufferUnderflow 1 s fun p s =>
        cwUnpackAssertBlob H (s.setType (.ext (s.mem p).toInt8))
    | 0xc9 => -- ext 32
        getDDItem4 H .extItem storeLength s fun s =>
        cwUnpackAssertSpace H cwpRcBufferUnderflow 1 s fun p s =>
        cwUnpackAssertBlob H (s.setType (.ext (s.mem p).toInt8))
    | 0xca => getDDItem4 H .float (fun n _ => .real n) s some
    | 0xcb => getDDItem8 H .double s some
    | 0xcc => getDDItem1 H .positiveInteger storeU64 s some -- unsigned int 8
    | 0xcd => getDDItem2 H .positiveInteger storeU64 s some -- unsigned int 16
    | 0xce => getDDItem4 H .positiveInteger storeU64 s some -- unsigned int 32
    | 0xcf => getDDItem8 H .positiveInteger s some -- unsigned int 64
    | 0xd0 => getDDItem1 H .negativeInteger (storeI64 8) s retagSigned -- signed int 8
    | 0xd1 => getDDItem2 H .negativeInteger (storeI64 16) s retagSigned -- signed int 16
    | 0xd2 => getDDItem4 H .negativeInteger (storeI64 32) s retagSigned -- signed int 32
    | 0xd3 => getDDItem8 H .negativeInteger s retagSigned -- signed int 64
    | 0xd4 => getDDItemFix H 1 s
    | 0xd5 => getDDItemFix H 2 s
    | 0xd6 => getDDItemFix H 4 s
    | 0xd7 => getDDItemFix H 8 s
    | 0xd8 => getDDItemFix H 16 s
    | 0xd9 => getDDItem1 H .str storeLength s (cwUnpackAssertBlob H) -- str 8
    | 0xda => getDDItem2 H .str storeLength s (cwUnpackAssertBlob H) -- str 16
    | 0xdb => getDDItem4 H .str storeLength s (cwUnpackAssertBlob H) -- str 32
    | 0xdc => getDDItem2 H .array storeSize s some -- array 16
    | 0xdd => getDDItem4 H .array storeSize s some -- array 32
    | 0xde => getDDItem2 H .map storeSize s some -- map 16
    | 0xdf => getDDItem4 H .map storeSize s some -- map 32
    | _ => unpackError cwpRcMalformedInput s

/-- `cw_unpack_next` -/
def cwUnpackNext (H : Option (UnpackUnderflowHandler σ)) (s : UnpackState σ) :
    Option (UnpackState σ) :=
  if s.uc.returnCode ≠ 0 then some s
  else cwUnpackAssertSpace H cwpRcEndOfInput 1 s fun p s => unpackSwitch H (s.mem p).toNat s

/-- The switch of `cw_skip_items`; `loop` is the next turn of the loop. -/
def skipSwitch (H : Option (UnpackUnderflowHandler σ)) (c : Nat) (itemCount : Int64)
    (s : UnpackState σ) (loop : Int64 → UnpackState σ → Option (UnpackState σ)) :
    Option (UnpackState σ) :=
  let assertSpace := cwUnpackAssertSpace H cwpRcBufferUnderflow
  let cwSkipBytes (n : Nat) (s : UnpackState σ) := assertSpace n s fun _ s => loop itemCount s
  let addItems (n : Nat) (s : UnpackState σ) := loop (itemCount + Int64.ofNat n) s
  if c < 0x80 then loop itemCount s -- unsigned fixint
  else if c < 0x90 then addItems (2 * (c &&& 15)) s -- fixmap
  else if c < 0xa0 then addItems (c &&& 15) s -- fixarray
  else if c < 0xc0 then cwSkipBytes (c &&& 0x1f) s -- fixstr
  else if 0xe0 ≤ c then loop itemCount s -- signed fixint
  else match c with
    | 0xc0 | 0xc2 | 0xc3 => loop itemCount s
    | 0xcc | 0xd0 => cwSkipBytes 1 s
    | 0xcd | 0xd1 | 0xd4 => cwSkipBytes 2 s
    | 0xd5 => cwSkipBytes 3 s
    | 0xca | 0xce | 0xd2 => cwSkipBytes 4 s
    | 0xd6 => cwSkipBytes 5 s
    | 0xcb | 0xcf | 0xd3 => cwSkipBytes 8 s
    | 0xd7 => cwSkipBytes 9 s
    | 0xd8 => cwSkipBytes 17 s
    | 0xd9 | 0xc4 => assertSpace 1 s fun p s => cwSkipBytes (s.mem p).toNat s
    | 0xda | 0xc5 => assertSpace 2 s fun p s => cwSkipBytes (cwLoad16 s.mem p) s
    | 0xdb | 0xc6 => assertSpace 4 s fun p s => cwSkipBytes (cwLoad32 s.mem p) s
    | 0xdc => assertSpace 2 s fun p s => addItems (cwLoad16 s.mem p) s
    | 0xde => assertSpace 2 s fun p s => addItems (2 * cwLoad16 s.mem p) s
    | 0xdd => assertSpace 4 s fun p s => addItems (cwLoad32 s.mem p) s
    -- the product and the sum below are computed in 32 bits
    | 0xdf => assertSpace 4 s fun p s => addItems (2 * cwLoad32 s.mem p % 2 ^ 32) s
    | 0xc7 => assertSpace 1 s fun p s => cwSkipBytes ((s.mem p).toNat + 1) s
    | 0xc8 => assertSpace 2 s fun p s => cwSkipBytes (cwLoad16 s.mem p + 1) s
    | 0xc9 => assertSpace 4 s fun p s => cwSkipBytes ((cwLoad32 s.mem p + 1) % 2 ^ 32) s
    | _ => unpackError cwpRcMalformedInput s

/-- The loop of `cw_skip_items`.  A turn consumes a byte of the input, of which
there may be any number; `fuel` bounds the turns. -/
def skipLoop (H : Option (UnpackUnderflowHandler σ)) :
    Nat → Int64 → UnpackState σ → Option (UnpackState σ)
  | 0, _, _ => none
  | fuel + 1, itemCount, s =>
      if itemCount > 0 then
        cwUnpackAssertSpace H cwpRcEndOfInput 1 s fun p s =>
          skipSwitch H (s.mem p).toNat (itemCount - 1) s (skipLoop H fuel)
      else some s

/-- `cw_skip_items` -/
def cwSkipItems (fuel : Nat) (H : Option (UnpackUnderflowHandler σ)) (itemCount : Int64)
    (s : UnpackState σ) : Option (UnpackState σ) :=
  if s.uc.returnCode ≠ 0 then some s else skipLoop H fuel itemCount s

/-- The switch of `cw_look_ahead`; the cursor has been stepped back. -/
def lookSwitch (H : Option (UnpackUnderflowHandler σ)) (c : Nat) (s : UnpackState σ) :
    Option (ItemType × UnpackState σ) :=
  let assertSpaceSub (more : Nat) (s : UnpackState σ) :=
    cwUnpackAssertSpaceSub H cwpRcBufferUnderflow (fun _ => more) (ItemType.notAnItem, ·) s
  let stepBack (n : Nat) (s : UnpackState σ) := s.setCurrent (s.uc.current - n)
  if c < 0x80 then some (.positiveInteger, s)
  else if c < 0x90 then some (.map, s)
  else if c < 0xa0 then some (.array, s)
  else if c < 0xc0 then some (.str, s)
  else if 0xe0 ≤ c then some (.negativeInteger, s)
  else match c with
    | 0xc0 => some (.nil, s)
    | 0xc2 | 0xc3 => some (.boolean, s)
    | 0xc4 | 0xc5 | 0xc6 => some (.bin, s)
    | 0xc7 =>
        assertSpaceSub 3 s fun p s =>
          let s := stepBack 3 s
          -- the byte is compared unsigned here
          if ((s.mem (p + 2)).toNat : Int) = ItemType.timestamp.code then some (.timestamp, s)
          else some (.ext (s.mem (p + 2)).toInt8, s)
    | 0xc8 =>
        assertSpaceSub 4 s fun p s =>
          some (.ext (s.mem (p + 3)).toInt8, stepBack 4 s)
    | 0xc9 =>
        assertSpaceSub 6 s fun p s =>
          some (.ext (s.mem (p + 5)).toInt8, stepBack 6 s)
    | 0xca => some (.float, s)
    | 0xcb => some (.double, s)
    | 0xcc | 0xcd | 0xce | 0xcf => some (.positiveInteger, s)
    | 0xd0 | 0xd1 | 0xd2 | 0xd3 => some (.negativeInteger, s)
    | 0xd4 | 0xd5 | 0xd6 | 0xd7 | 0xd8 =>
        assertSpaceSub 2 s fun p s =>
          some (.ext (s.mem (p + 1)).toInt8, stepBack 2 s)
    | 0xd9 | 0xda | 0xdb => some (.str, s)
    | 0xdc | 0xdd => some (.array, s)
    | 0xde | 0xdf => some (.map, s)
    | _ => some (.notAnItem, s)

/-- `cw_look_ahead` -/
def cwLookAhead (H : Option (UnpackUnderflowHandler σ)) (s : UnpackState σ) :
    Option (ItemType × UnpackState σ) :=
  if s.uc.returnCode ≠ 0 then some (.notAnItem, s)
  else cwUnpackAssertSpaceSub H cwpRcEndOfInput (fun _ => 1) (ItemType.notAnItem, ·) s fun p s =>
    lookSwitch H (s.mem p).toNat (s.setCurrent (s.uc.current - 1))

end CWPack.Core
