/-
  Core/BuildRoutines.lean --- the routines as each build compiles them.

  Only the routines that store or load a number of several bytes differ from build
  to build, and in the two switches only the formats that load one.  They are
  translated again here, over the macros of a build; the first byte of a packet
  decides as before.  No routine uses its pointer after a load, which one build
  moves and another does not.

  Each is the routine of the build that makes no assumption.  What is proved about
  those routines holds in every build.
-/
import CWPack.Core.Builds
import CWPack.Core.Reader

set_option autoImplicit false

namespace CWPack.Core

open CWPack.Foundation

variable {σ : Type}

/-! ## Operands of the routines -/

/-- an `uint32_t` -/
def Operand.ofUInt32 (n : UInt32) : Operand 32 := ⟨false, n.toBitVec⟩

/-- an `uint64_t` -/
def Operand.ofUInt64 (n : UInt64) : Operand 64 := ⟨false, n.toBitVec⟩

/-- an `int64_t` -/
def Operand.ofInt64 (n : Int64) : Operand 64 := ⟨true, n.toBitVec⟩

/-- the `uint32_t` length of a blob -/
def Operand.ofLength (v : Blob) : Operand 32 := ⟨false, .ofNatLT v.length v.length_lt⟩

namespace Build

variable (B : Build) {w : Nat}

/-! ## Initialisation -/

/-- `test_byte_order`, on a machine that has the byte order of the build -/
def testByteOrder : Build → Int
  | bigEndian _ =>
      if ByteOrder.big.word [0x31, 0x32, 0x33, 0x34] ≠ 0x31323334 then cwpRcWrongByteOrder
      else cwpRcOk
  | littleEndian _ =>
      if ByteOrder.little.word [0x31, 0x32, 0x33, 0x34] ≠ 0x34333231 then cwpRcWrongByteOrder
      else cwpRcOk
  | undetermined => cwpRcOk

/-- `cw_pack_context_init`, less the handler fields -/
def cwPackContextInit (data length : Nat) (s : PackState σ) : PackState σ :=
  (Core.cwPackContextInit data length s).setReturnCode B.testByteOrder

/-- `cw_unpack_context_init`, less the handler field -/
def cwUnpackContextInit (data length : Nat) (s : UnpackState σ) : UnpackState σ :=
  (Core.cwUnpackContextInit data length s).setReturnCode B.testByteOrder

/-! ## Packing -/

section Packing

variable (H : PackHandlers σ)

/-- `tryMove2(t,d)` -/
def tryMove2 (t : Nat) (d : Operand w) (s : PackState σ) : Option (PackState σ) :=
  cwPackReserveSpace H 0 3 s fun p s => some (s.store p (UInt8.ofNat t :: B.cwStore16 d))

/-- `tryMove4(t,d)` -/
def tryMove4 (t : Nat) (d : Operand w) (s : PackState σ) : Option (PackState σ) :=
  cwPackReserveSpace H 0 5 s fun p s => some (s.store p (UInt8.ofNat t :: B.cwStore32 d))

/-- `tryMove8(t,d)` -/
def tryMove8 (t : Nat) (d : Operand w) (s : PackState σ) : Option (PackState σ) :=
  cwPackReserveSpace H 0 9 s fun p s => some (s.store p (UInt8.ofNat t :: B.cwStore64 d))

/-- `cw_pack_unsigned` -/
def cwPackUnsigned (i : UInt64) (s : PackState σ) : Option (PackState σ) :=
  if s.pc.returnCode ≠ 0 then some s
  else if i.toNat < 128 then tryMove0 H i.toNat s
  else if i.toNat < 256 then tryMove1 H 0xcc i.toNat s
  else if i.toNat < 0x10000 then B.tryMove2 H 0xcd (.ofUInt64 i) s
  else if i.toNat < 0x100000000 then B.tryMove4 H 0xce (.ofUInt64 i) s
  else B.tryMove8 H 0xcf (.ofUInt64 i) s

/-- `cw_pack_signed` -/
def cwPackSigned (i : Int64) (s : PackState σ) : Option (PackState σ) :=
  let d := i.toUInt64.toNat
  if s.pc.returnCode ≠ 0 then some s
  else if i.toInt > 127 then
    if i.toInt < 256 then tryMove1 H 0xcc d s
    else if i.toInt < 0x10000 then B.tryMove2 H 0xcd (.ofInt64 i) s
    else if i.toInt < 0x100000000 then B.tryMove4 H 0xce (.ofInt64 i) s
    else B.tryMove8 H 0xcf (.ofInt64 i) s
  else if i.toInt ≥ -32 then tryMove0 H d s
  else if i.toInt ≥ -128 then tryMove1 H 0xd0 d s
  else if i.toInt ≥ -32768 then B.tryMove2 H 0xd1 (.ofInt64 i) s
  else if i.toInt ≥ -0x80000000 then B.tryMove4 H 0xd2 (.ofInt64 i) s
  else B.tryMove8 H 0xd3 (.ofInt64 i) s

/-- `cw_pack_float`, on the bit pattern of `f` -/
def cwPackFloat (f : UInt32) (s : PackState σ) : Option (PackState σ) :=
  if s.pc.returnCode ≠ 0 then some s else B.tryMove4 H 0xca (.ofUInt32 f) s

/-- `cw_pack_double`, on the bit pattern of `d` -/
def cwPackDouble (d : UInt64) (s : PackState σ) : Option (PackState σ) :=
  if s.pc.returnCode ≠ 0 then some s else B.tryMove8 H 0xcb (.ofUInt64 d) s

/-- `cw_pack_array_size` -/
def cwPackArraySize (n : UInt32) (s : PackState σ) : Option (PackState σ) :=
  if s.pc.returnCode ≠ 0 then some s
  else if n.toNat < 16 then tryMove0 H (0x90 ||| n.toNat) s
  else if n.toNat < 65536 then B.tryMove2 H 0xdc (.ofUInt32 n) s
  else B.tryMove4 H 0xdd (.ofUInt32 n) s

/-- `cw_pack_map_size` -/
def cwPackMapSize (n : UInt32) (s : PackState σ) : Option (PackState σ) :=
  if s.pc.returnCode ≠ 0 then some s
  else if n.toNat < 16 then tryMove0 H (0x80 ||| n.toNat) s
  else if n.toNat < 65536 then B.tryMove2 H 0xde (.ofUInt32 n) s
  else B.tryMove4 H 0xdf (.ofUInt32 n) s

/-- `cw_pack_str` -/
def cwPackStr (v : Blob) (s : PackState σ) : Option (PackState σ) :=
  let l := v.length
  if s.pc.returnCode ≠ 0 then some s
  else if l < 32 then -- Fixstr
    cwPackReserveSpace H l 1 s fun p s => some (s.store p (UInt8.ofNat (0xa0 + l) :: v.bytes))
  else if l < 256 ∧ !s.pc.beCompatible then -- Str 8
    cwPackReserveSpace H l 2 s fun p s => some (s.store p (0xd9 :: UInt8.ofNat l :: v.bytes))
  else if l < 65536 then -- Str 16
    cwPackReserveSpace H l 3 s fun p s =>
      some (s.store p (0xda :: (B.cwStore16 (.ofLength v) ++ v.bytes)))
  else -- Str 32
    cwPackReserveSpace H l 5 s fun p s =>
      some (s.store p (0xdb :: (B.cwStore32 (.ofLength v) ++ v.bytes)))

/-- `cw_pack_bin` -/
def cwPackBin (v : Blob) (s : PackState σ) : Option (PackState σ) :=
  let l := v.length
  if s.pc.returnCode ≠ 0 then some s
  else if s.pc.beCompatible then B.cwPackStr H v s
  else if l < 256 then -- Bin 8
    cwPackReserveSpace H l 2 s fun p s => some (s.store p (0xc4 :: UInt8.ofNat l :: v.bytes))
  else if l < 65536 then -- Bin 16
    cwPackReserveSpace H l 3 s fun p s =>
      some (s.store p (0xc5 :: (B.cwStore16 (.ofLength v) ++ v.bytes)))
  else -- Bin 32
    cwPackReserveSpace H l 5 s fun p s =>
      some (s.store p (0xc6 :: (B.cwStore32 (.ofLength v) ++ v.bytes)))

/-- `cw_pack_ext`; the lengths of the fixed formats and those below 256 store no number. -/
def cwPackExt (type : Int8) (v : Blob) (s : PackState σ) : Option (PackState σ) :=
  let l := v.length
  let t := type.toUInt8
  if s.pc.returnCode ≠ 0 then some s
  else if s.pc.beCompatible then packError cwpRcIllegalCall s
  else if l < 256 then Core.cwPackExt H type v s
  else if l < 65536 then -- Ext 16
    cwPackReserveSpace H l 4 s fun p s =>
      some (s.store p (0xc8 :: (B.cwStore16 (.ofLength v) ++ t :: v.bytes)))
  else -- Ext 32
    cwPackReserveSpace H l 6 s fun p s =>
      some (s.store p (0xc9 :: (B.cwStore32 (.ofLength v) ++ t :: v.bytes)))

/-- `cw_pack_time` -/
def cwPackTime (sec : Int64) (nsec : UInt32) (s : PackState σ) : Option (PackState σ) :=
  if s.pc.returnCode ≠ 0 then some s
  else if s.pc.beCompatible then packError cwpRcIllegalCall s
  else if nsec.toNat ≥ 1000000000 then packError cwpRcValueError s
  else if sec.toUInt64 &&& 0xfffffffc00000000 ≠ 0 then -- timestamp 96
    cwPackReserveSpace H 0 15 s fun p s =>
      some (s.store p
        (0xc7 :: 12 :: 0xff :: (B.cwStore32 (.ofUInt32 nsec) ++ B.cwStore64 (.ofInt64 sec))))
  else
    let data64 := (nsec.toUInt64 <<< 34) ||| sec.toUInt64
    if data64 &&& 0xffffffff00000000 ≠ 0 then -- timestamp 64
      cwPackReserveSpace H 0 10 s fun p s =>
        some (s.store p (0xd7 :: 0xff :: B.cwStore64 (.ofUInt64 data64)))
    else -- timestamp 32
      let data32 := data64.toUInt32
      cwPackReserveSpace H 0 6 s fun p s =>
        some (s.store p (0xd6 :: 0xff :: B.cwStore32 (.ofUInt32 data32)))

/-- Perform a call. -/
def cwPack : PackCall → PackState σ → Option (PackState σ)
  | .unsigned i => B.cwPackUnsigned H i
  | .signed i => B.cwPackSigned H i
  | .float f => B.cwPackFloat H f
  | .double d => B.cwPackDouble H d
  | .arraySize n => B.cwPackArraySize H n
  | .mapSize n => B.cwPackMapSize H n
  | .str v => B.cwPackStr H v
  | .bin v => B.cwPackBin H v
  | .ext type v => B.cwPackExt H type v
  | .time sec nsec => B.cwPackTime H sec nsec
  | .nil => cwPackNil H
  | .true_ => cwPackTrue H
  | .false_ => cwPackFalse H
  | .boolean b => cwPackBoolean H b

/-- What a user of a pack context can call. -/
inductive Request where
  | op (op : PackOp)
  | flush

/-- Perform a request. -/
def perform : Request → PackState σ → Option (PackState σ)
  | .op (.call c), s => B.cwPack H c s
  | .op (.insert v), s => cwPackInsert H v s
  | .op (.setCompatibility b), s => some (cwPackSetCompatibility b s)
  | .flush, s => cwPackFlush H s

end Packing

/-! ## Unpacking -/

section Unpacking

variable (H : Option (UnpackUnderflowHandler σ))

/-- `getDDItem2(typ,var,cast)` -/
def getDDItem2 (typ : ItemType) (store : Nat → ItemAs → ItemAs) (s : UnpackState σ)
    (k : UnpackState σ → Option (UnpackState σ)) : Option (UnpackState σ) :=
  getDDItemLoad H 2 (fun m p => (B.cwLoad16 m p).1.toNat) typ store s k

/-- `getDDItem4(typ,var,cast)` -/
def getDDItem4 (typ : ItemType) (store : Nat → ItemAs → ItemAs) (s : UnpackState σ)
    (k : UnpackState σ → Option (UnpackState σ)) : Option (UnpackState σ) :=
  getDDItemLoad H 4 (fun m p => (B.cwLoad32 m p).1.toNat) typ store s k

/-- `getDDItem8(typ)` -/
def getDDItem8 (typ : ItemType) (s : UnpackState σ)
    (k : UnpackState σ → Option (UnpackState σ)) : Option (UnpackState σ) :=
  getDDItemLoad H 8 (fun m p => (B.cwLoad64 m p).1.toNat) typ storeU64 s k

/-- `getDDItemFix(len)` -/
def getDDItemFix (len : Nat) (s : UnpackState σ) : Option (UnpackState σ) :=
  cwUnpackAssertSpace H cwpRcBufferUnderflow (len + 1) s fun p s =>
    let s := s.setType (.ext (s.mem p).toInt8)
    let p := p + 1
    if s.uc.item.type = .timestamp then
      if len = 4 then
        let s := s.setAs (s.uc.item.as.setTvSec (B.cwLoad32 s.mem p).1.toNat)
        some (s.setAs (s.uc.item.as.setTvNsec 0))
      else if len = 8 then
        let tmpu64 := (B.cwLoad64 s.mem p).1.toNat
        let s := s.setAs (s.uc.item.as.setTvSec ((tmpu64 &&& 0x00000003ffffffff : Nat) : Int))
        some (s.setAs (s.uc.item.as.setTvNsec (tmpu64 >>> 34)))
      else unpackError cwpRcWrongTimestampLength s
    else
      let s := s.setAs (s.uc.item.as.setLength len)
      some (s.setAs (s.uc.item.as.setStart p))

/-- The switch of `cw_unpack_next`. -/
def unpackSwitch (c : Nat) (s : UnpackState σ) : Option (UnpackState σ) :=
  match c with
  | 0xc5 => B.getDDItem2 H .bin storeLength s (cwUnpackAssertBlob H) -- bin 16
  | 0xc6 => B.getDDItem4 H .bin storeLength s (cwUnpackAssertBlob H) -- bin 32
  | 0xc7 => -- ext 8
      getDDItem1 H .extItem storeLength s fun s =>
      cwUnpackAssertSpace H cwpRcBufferUnderflow 1 s fun p s =>
      let s := s.setType (.ext (s.mem p).toInt8)
      if s.uc.item.type = .timestamp then
        if s.uc.item.as.back = 12 then
          cwUnpackAssertSpace H cwpRcBufferUnderflow 4 s fun p s =>
          let s := s.setAs (s.uc.item.as.setTvNsec (B.cwLoad32 s.mem p).1.toNat)
          cwUnpackAssertSpace H cwpRcBufferUnderflow 8 s fun p s =>
          some (s.setAs (s.uc.item.as.setTvSec
            (twosComplement 64 (B.cwLoad64 s.mem p).1.toNat)))
        else unpackError cwpRcWrongTimestampLength s
      else cwUnpackAssertBlob H s
  | 0xc8 => -- ext 16
      B.getDDItem2 H .extItem storeLength s fun s =>
      cwUnpackAssertSpace H cwpRcBufferUnderflow 1 s fun p s =>
      cwUnpackAssertBlob H (s.setType (.ext (s.mem p).toInt8))
  | 0xc9 => -- ext 32
      B.getDDItem4 H .extItem storeLength s fun s =>
      cwUnpackAssertSpace H cwpRcBufferUnderflow 1 s fun p s =>
      cwUnpackAssertBlob H (s.setType (.ext (s.mem p).toInt8))
  | 0xca => B.getDDItem4 H .float (fun n _ => .real n) s some
  | 0xcb => B.getDDItem8 H .double s some
  | 0xcd => B.getDDItem2 H .positiveInteger storeU64 s some -- unsigned int 16
  | 0xce => B.getDDItem4 H .positiveInteger storeU64 s some -- unsigned int 32
  | 0xcf => B.getDDItem8 H .positiveInteger s some -- unsigned int 64
  | 0xd1 => B.getDDItem2 H .negativeInteger (storeI64 16) s retagSigned -- signed int 16
  | 0xd2 => B.getDDItem4 H .negativeInteger (storeI64 32) s retagSigned -- signed int 32
  | 0xd3 => B.getDDItem8 H .negativeInteger s retagSigned -- signed int 64
  | 0xd4 => B.getDDItemFix H 1 s
  | 0xd5 => B.getDDItemFix H 2 s
  | 0xd6 => B.getDDItemFix H 4 s
  | 0xd7 => B.getDDItemFix H 8 s
  | 0xd8 => B.getDDItemFix H 16 s
  | 0xda => B.getDDItem2 H .str storeLength s (cwUnpackAssertBlob H) -- str 16
  | 0xdb => B.getDDItem4 H .str storeLength s (cwUnpackAssertBlob H) -- str 32
  | 0xdc => B.getDDItem2 H .array storeSize s some -- array 16
  | 0xdd => B.getDDItem4 H .array storeSize s some -- array 32
  | 0xde => B.getDDItem2 H .map storeSize s some -- map 16
  | 0xdf => B.getDDItem4 H .map storeSize s some -- map 32
  | _ => Core.unpackSwitch H c s

/-- `cw_unpack_next` -/
def cwUnpackNext (s : UnpackState σ) : Option (UnpackState σ) :=
  if s.uc.returnCode ≠ 0 then some s
  else cwUnpackAssertSpace H cwpRcEndOfInput 1 s fun p s => B.unpackSwitch H (s.mem p).toNat s

/-- The switch of `cw_skip_items`; `loop` is the next turn of the loop. -/
def skipSwitch (c : Nat) (itemCount : Int64) (s : UnpackState σ)
    (loop : Int64 → UnpackState σ → Option (UnpackState σ)) : Option (UnpackState σ) :=
  let assertSpace := cwUnpackAssertSpace H cwpRcBufferUnderflow
  let cwSkipBytes (n : Nat) (s : UnpackState σ) := assertSpace n s fun _ s => loop itemCount s
  let addItems (n : Nat) (s : UnpackState σ) := loop (itemCount + Int64.ofNat n) s
  let tmpu16 (p : Nat) (s : UnpackState σ) : Nat := (B.cwLoad16 s.mem p).1.toNat
  let tmpu32 (p : Nat) (s : UnpackState σ) : Nat := (B.cwLoad32 s.mem p).1.toNat
  match c with
  | 0xda | 0xc5 => assertSpace 2 s fun p s => cwSkipBytes (tmpu16 p s) s
  | 0xdb | 0xc6 => assertSpace 4 s fun p s => cwSkipBytes (tmpu32 p s) s
  | 0xdc => assertSpace 2 s fun p s => addItems (tmpu16 p s) s
  | 0xde => assertSpace 2 s fun p s => addItems (2 * tmpu16 p s) s
  | 0xdd => assertSpace 4 s fun p s => addItems (tmpu32 p s) s
  -- the product and the sum below are computed in 32 bits
  | 0xdf => assertSpace 4 s fun p s => addItems (2 * tmpu32 p s % 2 ^ 32) s
  | 0xc8 => assertSpace 2 s fun p s => cwSkipBytes (tmpu16 p s + 1) s
  | 0xc9 => assertSpace 4 s fun p s => cwSkipBytes ((tmpu32 p s + 1) % 2 ^ 32) s
  | _ => Core.skipSwitch H c itemCount s loop

/-- The loop of `cw_skip_items`. -/
def skipLoop : Nat → Int64 → UnpackState σ → Option (UnpackState σ)
  | 0, _, _ => none
  | fuel + 1, itemCount, s =>
      if itemCount > 0 then
        cwUnpackAssertSpace H cwpRcEndOfInput 1 s fun p s =>
          B.skipSwitch H (s.mem p).toNat (itemCount - 1) s (skipLoop fuel)
      else some s

/-- `cw_skip_items` -/
def cwSkipItems (fuel : Nat) (itemCount : Int64) (s : UnpackState σ) : Option (UnpackState σ) :=
  if s.uc.returnCode ≠ 0 then some s else B.skipLoop H fuel itemCount s

/-- Perform a call and observe it. -/
def observe (fuel : Nat) : UnpackOp → UnpackState σ → Option (Observation × UnpackState σ)
  | .next, s =>
      match B.cwUnpackNext H s with
      | none => none
      | some s =>
          some (⟨s.uc.returnCode, none, if s.uc.returnCode = 0 then some s.delivered else none⟩, s)
  | .lookAhead, s =>
      match cwLookAhead H s with
      | none => none
      | some (t, s) => some (⟨s.uc.returnCode, some t, none⟩, s)
  | .skip itemCount, s =>
      match B.cwSkipItems H fuel itemCount s with
      | none => none
      | some s => some (⟨s.uc.returnCode, none, none⟩, s)

end Unpacking

/-! ## Every build has the same routines -/

@[simp] theorem testByteOrder_eq : B.testByteOrder = cwpRcOk := by
  have hbig : ByteOrder.big.word [0x31, 0x32, 0x33, 0x34] = 0x31323334 := by decide
  have hlittle : ByteOrder.little.word [0x31, 0x32, 0x33, 0x34] = 0x34333231 := by decide
  cases B with
  | bigEndian force => simp only [testByteOrder, hbig, ne_eq, not_true_eq_false, if_false]
  | littleEndian force => simp only [testByteOrder, hlittle, ne_eq, not_true_eq_false, if_false]
  | undetermined => rfl

theorem cwPackContextInit_eq (data length : Nat) (s : PackState σ) :
    B.cwPackContextInit data length s = Core.cwPackContextInit data length s := by
  rw [cwPackContextInit, testByteOrder_eq]
  rfl

theorem cwUnpackContextInit_eq (data length : Nat) (s : UnpackState σ) :
    B.cwUnpackContextInit data length s = Core.cwUnpackContextInit data length s := by
  rw [cwUnpackContextInit, testByteOrder_eq]
  rfl

section Packing

variable (H : PackHandlers σ)

theorem tryMove2_eq (t : Nat) (d : Operand w) (s : PackState σ) (hw : 16 ≤ w) :
    B.tryMove2 H t d s = Core.tryMove2 H t d.bits.toNat s := by
  rw [tryMove2, cwStore16_eq B d hw]
  rfl

theorem tryMove4_eq (t : Nat) (d : Operand w) (s : PackState σ) (hw : 32 ≤ w) :
    B.tryMove4 H t d s = Core.tryMove4 H t d.bits.toNat s := by
  rw [tryMove4, cwStore32_eq B d hw]
  rfl

theorem tryMove8_eq (t : Nat) (d : Operand 64) (s : PackState σ) :
    B.tryMove8 H t d s = Core.tryMove8 H t d.bits.toNat s := by
  rw [tryMove8, cwStore64_eq B d]
  rfl

theorem cwPackUnsigned_eq (i : UInt64) (s : PackState σ) :
    B.cwPackUnsigned H i s = Core.cwPackUnsigned H i s := by
  rw [cwPackUnsigned, B.tryMove2_eq H _ _ _ (by omega), B.tryMove4_eq H _ _ _ (by omega),
    B.tryMove8_eq H]
  rfl

theorem cwPackSigned_eq (i : Int64) (s : PackState σ) :
    B.cwPackSigned H i s = Core.cwPackSigned H i s := by
  simp only [cwPackSigned, B.tryMove2_eq H _ _ _ (by omega : 16 ≤ 64),
    B.tryMove4_eq H _ _ _ (by omega : 32 ≤ 64), B.tryMove8_eq H]
  rfl

theorem cwPackFloat_eq (f : UInt32) (s : PackState σ) :
    B.cwPackFloat H f s = Core.cwPackFloat H f s := by
  rw [cwPackFloat, B.tryMove4_eq H _ _ _ (by omega)]
  rfl

theorem cwPackDouble_eq (d : UInt64) (s : PackState σ) :
    B.cwPackDouble H d s = Core.cwPackDouble H d s := by
  rw [cwPackDouble, B.tryMove8_eq H]
  rfl

theorem cwPackArraySize_eq (n : UInt32) (s : PackState σ) :
    B.cwPackArraySize H n s = Core.cwPackArraySize H n s := by
  rw [cwPackArraySize, B.tryMove2_eq H _ _ _ (by omega), B.tryMove4_eq H _ _ _ (by omega)]
  rfl

theorem cwPackMapSize_eq (n : UInt32) (s : PackState σ) :
    B.cwPackMapSize H n s = Core.cwPackMapSize H n s := by
  rw [cwPackMapSize, B.tryMove2_eq H _ _ _ (by omega), B.tryMove4_eq H _ _ _ (by omega)]
  rfl

/-- The length of a blob is stored as the number it is. -/
theorem ofLength_toNat (v : Blob) : (Operand.ofLength v).bits.toNat = v.length :=
  BitVec.toNat_ofNatLT ..

theorem cwPackStr_eq (v : Blob) (s : PackState σ) : B.cwPackStr H v s = Core.cwPackStr H v s := by
  simp only [cwPackStr, cwStore16_eq B (.ofLength v) (by omega),
    cwStore32_eq B (.ofLength v) (by omega), ofLength_toNat]
  rfl

theorem cwPackBin_eq (v : Blob) (s : PackState σ) : B.cwPackBin H v s = Core.cwPackBin H v s := by
  simp only [cwPackBin, cwStore16_eq B (.ofLength v) (by omega),
    cwStore32_eq B (.ofLength v) (by omega), ofLength_toNat, cwPackStr_eq]
  rfl

theorem cwPackExt_eq (type : Int8) (v : Blob) (s : PackState σ) :
    B.cwPackExt H type v s = Core.cwPackExt H type v s := by
  simp only [cwPackExt, cwStore16_eq B (.ofLength v) (by omega),
    cwStore32_eq B (.ofLength v) (by omega), ofLength_toNat]
  split
  · rename_i hrc
    rw [Core.cwPackExt, if_pos hrc]
  rename_i hrc
  split
  · rename_i hcompat
    rw [Core.cwPackExt, if_neg hrc, if_pos hcompat]
  rename_i hcompat
  split
  · rfl
  -- the longer ones have no fixed format
  rename_i hlong
  rw [Core.cwPackExt, if_neg hrc, if_neg hcompat]
  symm
  split
  case h_6 => exact if_neg hlong
  all_goals omega

theorem cwPackTime_eq (sec : Int64) (nsec : UInt32) (s : PackState σ) :
    B.cwPackTime H sec nsec s = Core.cwPackTime H sec nsec s := by
  simp only [cwPackTime, cwStore32_eq B (.ofUInt32 _) (by omega), cwStore64_eq]
  rfl

theorem cwPack_eq (c : PackCall) (s : PackState σ) : B.cwPack H c s = Core.cwPack H c s := by
  cases c with
  | unsigned i => exact B.cwPackUnsigned_eq H i s
  | signed i => exact B.cwPackSigned_eq H i s
  | float f => exact B.cwPackFloat_eq H f s
  | double d => exact B.cwPackDouble_eq H d s
  | arraySize n => exact B.cwPackArraySize_eq H n s
  | mapSize n => exact B.cwPackMapSize_eq H n s
  | str v => exact B.cwPackStr_eq H v s
  | bin v => exact B.cwPackBin_eq H v s
  | ext type v => exact B.cwPackExt_eq H type v s
  | time sec nsec => exact B.cwPackTime_eq H sec nsec s
  | _ => rfl

/-- What earlier files prove of an operation holds of it in every build. -/
theorem perform_op (op : PackOp) (s : PackState σ) : B.perform H (.op op) s = op.perform H s := by
  cases op with
  | call c => exact B.cwPack_eq H c s
  | insert v => rfl
  | setCompatibility b => rfl

theorem perform_eq (B B' : Build) : B.perform H = B'.perform H := by
  funext request s
  cases request with
  | op op => rw [perform_op, perform_op]
  | flush => rfl

end Packing

section Unpacking

variable (H : Option (UnpackUnderflowHandler σ))

theorem getDDItem2_eq (typ : ItemType) (store : Nat → ItemAs → ItemAs) (s : UnpackState σ)
    (k : UnpackState σ → Option (UnpackState σ)) :
    B.getDDItem2 H typ store s k = Core.getDDItem2 H typ store s k := by
  simp only [getDDItem2, Core.getDDItem2, cwLoad16_eq]

theorem getDDItem4_eq (typ : ItemType) (store : Nat → ItemAs → ItemAs) (s : UnpackState σ)
    (k : UnpackState σ → Option (UnpackState σ)) :
    B.getDDItem4 H typ store s k = Core.getDDItem4 H typ store s k := by
  simp only [getDDItem4, Core.getDDItem4, cwLoad32_eq]

theorem getDDItem8_eq (typ : ItemType) (s : UnpackState σ)
    (k : UnpackState σ → Option (UnpackState σ)) :
    B.getDDItem8 H typ s k = Core.getDDItem8 H typ s k := by
  simp only [getDDItem8, Core.getDDItem8, cwLoad64_eq]

theorem getDDItemFix_eq (len : Nat) (s : UnpackState σ) :
    B.getDDItemFix H len s = Core.getDDItemFix H len s := by
  simp only [getDDItemFix, cwLoad32_eq, cwLoad64_eq]
  rfl

theorem unpackSwitch_eq (c : Nat) (s : UnpackState σ) :
    B.unpackSwitch H c s = Core.unpackSwitch H c s := by
  unfold unpackSwitch
  simp only [getDDItem2_eq, getDDItem4_eq, getDDItem8_eq, getDDItemFix_eq, cwLoad32_eq,
    cwLoad64_eq]
  split <;> rfl

theorem cwUnpackNext_eq (s : UnpackState σ) : B.cwUnpackNext H s = Core.cwUnpackNext H s := by
  simp only [cwUnpackNext, unpackSwitch_eq]
  rfl

theorem skipSwitch_eq (c : Nat) (itemCount : Int64) (s : UnpackState σ)
    (loop : Int64 → UnpackState σ → Option (UnpackState σ)) :
    B.skipSwitch H c itemCount s loop = Core.skipSwitch H c itemCount s loop := by
  unfold skipSwitch
  simp only [cwLoad16_eq, cwLoad32_eq]
  split <;> rfl

theorem skipLoop_eq (fuel : Nat) (itemCount : Int64) (s : UnpackState σ) :
    B.skipLoop H fuel itemCount s = Core.skipLoop H fuel itemCount s := by
  induction fuel generalizing itemCount s with
  | zero => rfl
  | succ fuel ih =>
      have hloop : B.skipLoop H fuel = Core.skipLoop H fuel := by
        funext itemCount s
        exact ih itemCount s
      rw [skipLoop, Core.skipLoop, hloop]
      simp only [skipSwitch_eq]

theorem cwSkipItems_eq (fuel : Nat) (itemCount : Int64) (s : UnpackState σ) :
    B.cwSkipItems H fuel itemCount s = Core.cwSkipItems fuel H itemCount s := by
  rw [cwSkipItems, skipLoop_eq]
  rfl

/-- What earlier files prove of a call holds of it in every build. -/
theorem observe_eq (fuel : Nat) (op : UnpackOp) (s : UnpackState σ) :
    B.observe H fuel op s = op.perform fuel H s := by
  cases op with
  | next =>
      simp only [observe, cwUnpackNext_eq]
      rfl
  | lookAhead => rfl
  | skip itemCount =>
      simp only [observe, cwSkipItems_eq]
      rfl

theorem observe_eq_of_build (B B' : Build) (fuel : Nat) : B.observe H fuel = B'.observe H fuel := by
  funext op s
  rw [observe_eq, observe_eq]

end Unpacking

/-! ## One format -/

/-- What a store of any build leaves in memory is the big-endian numeral of the operand's
low-order bytes, a load of any build has the number back, and with that no sequence of
calls can tell the builds apart. -/
theorem speaks_one_format (B B' : Build) :
    (∀ {k : Nat} (x : Operand (16 + k)),
      B.cwStore16 x = Foundation.bigEndian 2 (x.bits.setWidth 16).toNat) ∧
    (∀ {k : Nat} (x : Operand (32 + k)),
      B.cwStore32 x = Foundation.bigEndian 4 (x.bits.setWidth 32).toNat) ∧
    (∀ x : Operand 64, B.cwStore64 x = Foundation.bigEndian 8 x.bits.toNat) ∧
    (∀ (m : Memory) (p : Nat) {k : Nat} (x : Operand (16 + k)),
      (B'.cwLoad16 (m.write p (B.cwStore16 x)) p).1 = x.bits.setWidth 16) ∧
    (∀ (m : Memory) (p : Nat) {k : Nat} (x : Operand (32 + k)),
      (B'.cwLoad32 (m.write p (B.cwStore32 x)) p).1 = x.bits.setWidth 32) ∧
    (∀ (m : Memory) (p : Nat) (x : Operand 64),
      (B'.cwLoad64 (m.write p (B.cwStore64 x)) p).1 = x.bits) ∧
    (∀ {σ : Type} (H : PackHandlers σ) (requests : List Request) (data length : Nat)
      (s : PackState σ),
      run (B.perform H) requests (B.cwPackContextInit data length s) =
        run (B'.perform H) requests (B'.cwPackContextInit data length s)) ∧
    (∀ {σ : Type} (H : Option (UnpackUnderflowHandler σ)) (fuel : Nat) (ops : List UnpackOp)
      (data length : Nat) (s : UnpackState σ),
      trace (B.observe H fuel) ops (B.cwUnpackContextInit data length s) =
        trace (B'.observe H fuel) ops (B'.cwUnpackContextInit data length s)) := by
  have hstore16 : ∀ {k : Nat} (x : Operand (16 + k)),
      B.cwStore16 x = Foundation.bigEndian 2 (x.bits.setWidth 16).toNat := fun x => by
    rw [cwStore16_eq B x (by omega), Core.cwStore16_eq]
    exact (bigEndian_setWidth 2 x.bits).symm
  have hstore32 : ∀ {k : Nat} (x : Operand (32 + k)),
      B.cwStore32 x = Foundation.bigEndian 4 (x.bits.setWidth 32).toNat := fun x => by
    rw [cwStore32_eq B x (by omega), Core.cwStore32_eq]
    exact (bigEndian_setWidth 4 x.bits).symm
  have hstore64 : ∀ x : Operand 64, B.cwStore64 x = Foundation.bigEndian 8 x.bits.toNat :=
    fun x => by rw [cwStore64_eq, Core.cwStore64_eq]
  refine ⟨hstore16, hstore32, hstore64, fun m p _ x => ?_, fun m p _ x => ?_, fun m p x => ?_,
    fun H requests data length s => ?_, fun H fuel ops data length s => ?_⟩
  · rw [hstore16]
    exact B'.cwLoad16_stored m p _
  · rw [hstore32]
    exact B'.cwLoad32_stored m p _
  · rw [hstore64]
    exact B'.cwLoad64_stored m p _
  · rw [perform_eq H B B', cwPackContextInit_eq, cwPackContextInit_eq]
  · rw [observe_eq_of_build H B B', cwUnpackContextInit_eq, cwUnpackContextInit_eq]

end Build

end CWPack.Core
