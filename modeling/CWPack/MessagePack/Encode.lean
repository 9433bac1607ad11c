/-
  MessagePack/Encode.lean --- the shortest encoding of a value.

  One encoder for every kind of value, choosing the smallest format that holds
  it.  In compatible mode the formats the older specification did not know are
  avoided: there is no `str 8`, and a binary string is written as a string.

  `item_encode` states that the bytes written are an item of the grammar that
  denotes the value: an encoder and the grammar agree.
-/
import CWPack.MessagePack.Format

set_option autoImplicit false

namespace CWPack.MessagePack

open CWPack.Foundation

/-! ## Encoders -/

/-- A nonnegative integer, in an unsigned format. -/
def encodeUInt (n : Nat) : List UInt8 :=
  if n < 0x80 then [UInt8.ofNat n]
  else if n < 0x100 then 0xcc :: bigEndian 1 n
  else if n < 0x10000 then 0xcd :: bigEndian 2 n
  else if n < 0x100000000 then 0xce :: bigEndian 4 n
  else 0xcf :: bigEndian 8 n

/-- A negative integer, in a signed format. -/
def encodeNegative (v : Int) : List UInt8 :=
  if -0x20 ≤ v then [UInt8.ofNat (toPattern 8 v)]
  else if -0x80 ≤ v then 0xd0 :: bigEndian 1 (toPattern 8 v)
  else if -0x8000 ≤ v then 0xd1 :: bigEndian 2 (toPattern 16 v)
  else if -0x80000000 ≤ v then 0xd2 :: bigEndian 4 (toPattern 32 v)
  else 0xd3 :: bigEndian 8 (toPattern 64 v)

/-- An integer. -/
def encodeInt (v : Int) : List UInt8 :=
  if 0 ≤ v then encodeUInt v.toNat else encodeNegative v

/-- The header of an array of `n` items. -/
def encodeArray (n : Nat) : List UInt8 :=
  if n < 0x10 then [UInt8.ofNat (0x90 + n)]
  else if n < 0x10000 then 0xdc :: bigEndian 2 n
  else 0xdd :: bigEndian 4 n

/-- The header of a map of `n` pairs. -/
def encodeMap (n : Nat) : List UInt8 :=
  if n < 0x10 then [UInt8.ofNat (0x80 + n)]
  else if n < 0x10000 then 0xde :: bigEndian 2 n
  else 0xdf :: bigEndian 4 n

/-- A string; `compat` avoids `str 8`. -/
def encodeStr (compat : Bool) (bs : List UInt8) : List UInt8 :=
  if bs.length < 0x20 then UInt8.ofNat (0xa0 + bs.length) :: bs
  else if bs.length < 0x100 ∧ compat = false then 0xd9 :: (bigEndian 1 bs.length ++ bs)
  else if bs.length < 0x10000 then 0xda :: (bigEndian 2 bs.length ++ bs)
  else 0xdb :: (bigEndian 4 bs.length ++ bs)

/-- A binary string. -/
def encodeBin (bs : List UInt8) : List UInt8 :=
  if bs.length < 0x100 then 0xc4 :: (bigEndian 1 bs.length ++ bs)
  else if bs.length < 0x10000 then 0xc5 :: (bigEndian 2 bs.length ++ bs)
  else 0xc6 :: (bigEndian 4 bs.length ++ bs)

/-- The first byte of a `fixext` item with a payload of `n` bytes. -/
def fixextHeader (n : Nat) : Option UInt8 :=
  match n with
  | 1 => some 0xd4
  | 2 => some 0xd5
  | 4 => some 0xd6
  | 8 => some 0xd7
  | 16 => some 0xd8
  | _ => none

/-- An extension item. -/
def encodeExt (type : Int8) (bs : List UInt8) : List UInt8 :=
  match fixextHeader bs.length with
  | some c => c :: type.toUInt8 :: bs
  | none =>
      if bs.length < 0x100 then 0xc7 :: (bigEndian 1 bs.length ++ type.toUInt8 :: bs)
      else if bs.length < 0x10000 then 0xc8 :: (bigEndian 2 bs.length ++ type.toUInt8 :: bs)
      else 0xc9 :: (bigEndian 4 bs.length ++ type.toUInt8 :: bs)

/-- The payload of a timestamp: 32, 64 or 96 bits, whichever is the least that fits. -/
def timestampPayload (sec : Int) (nsec : Nat) : List UInt8 :=
  if 0 ≤ sec ∧ sec < 2 ^ 34 then
    if nsec * 2 ^ 34 + sec.toNat < 2 ^ 32 then bigEndian 4 sec.toNat
    else bigEndian 8 (nsec * 2 ^ 34 + sec.toNat)
  else bigEndian 4 nsec ++ bigEndian 8 (toPattern 64 sec)

/-- The bytes of a value. -/
def encode (compat : Bool) : Value → List UInt8
  | .nil => [0xc0]
  | .bool false => [0xc2]
  | .bool true => [0xc3]
  | .int v => encodeInt v
  | .float bits => 0xca :: bigEndian 4 bits
  | .double bits => 0xcb :: bigEndian 8 bits
  | .str bs => encodeStr compat bs
  | .bin bs => if compat then encodeStr compat bs else encodeBin bs
  | .array n => encodeArray n
  | .map n => encodeMap n
  | .ext t bs => encodeExt t bs
  | .timestamp sec nsec => encodeExt (-1) (timestampPayload sec nsec)

/-! ## The value an encoding denotes -/

/-- The values the formats have room for. -/
def Value.Encodable : Value → Prop
  | .int v => -2 ^ 63 ≤ v ∧ v < 2 ^ 64
  | .float bits => bits < 2 ^ 32
  | .double bits => bits < 2 ^ 64
  | .str bs => bs.length < 2 ^ 32
  | .bin bs => bs.length < 2 ^ 32
  | .array n => n < 2 ^ 32
  | .map n => n < 2 ^ 32
  | .ext _ bs => bs.length < 2 ^ 32
  | .timestamp sec nsec => -2 ^ 63 ≤ sec ∧ sec < 2 ^ 63 ∧ nsec < 2 ^ 30
  | _ => True

/-- The value the grammar reads from an encoding: compatible mode turns binary
strings into strings, and a timestamp is an extension item of type -1. -/
def Value.wire (compat : Bool) : Value → Value
  | .bin bs => if compat then .str bs else .bin bs
  | .timestamp sec nsec => .ext (-1) (timestampPayload sec nsec)
  | v => v

/-! ## First bytes -/

theorem toNat_ofNat_of_lt {n : Nat} (h : n < 256) : (UInt8.ofNat n).toNat = n := by
  rw [UInt8.toNat_ofNat', Nat.mod_eq_of_lt h]

theorem format_fixint {n : Nat} (h : n < 0x80) :
    format (UInt8.ofNat n) = some (.single (.int n)) := by
  have hn := toNat_ofNat_of_lt (n := n) (by omega)
  rw [format_positive (by omega), hn]

theorem format_fixmap {n : Nat} (h : n < 0x10) :
    format (UInt8.ofNat (0x80 + n)) = some (.single (.map n)) := by
  have hn := toNat_ofNat_of_lt (n := 0x80 + n) (by omega)
  rw [format_map (by omega) (by omega), hn, Nat.add_sub_cancel_left]

theorem format_fixarray {n : Nat} (h : n < 0x10) :
    format (UInt8.ofNat (0x90 + n)) = some (.single (.array n)) := by
  have hn := toNat_ofNat_of_lt (n := 0x90 + n) (by omega)
  rw [format_array (by omega) (by omega), hn, Nat.add_sub_cancel_left]

theorem format_fixstr {n : Nat} (h : n < 0x20) :
    format (UInt8.ofNat (0xa0 + n)) = some (.fixed n .str) := by
  have hn := toNat_ofNat_of_lt (n := 0xa0 + n) (by omega)
  rw [format_str (by omega) (by omega), hn, Nat.add_sub_cancel_left]

theorem format_negative_fixint {n : Nat} (hlo : 0xe0 ≤ n) (hhi : n < 256) :
    format (UInt8.ofNat n) = some (.single (.int ((n : Int) - 256))) := by
  have hn := toNat_ofNat_of_lt hhi
  rw [format_negative (by omega), hn]

theorem format_fixextHeader {n : Nat} {c : UInt8} (h : fixextHeader n = some c) :
    format c = some (.fixext n) := by
  unfold fixextHeader at h
  split at h <;> first | (obtain rfl := Option.some.inj h; rfl) | simp at h

/-! ## Encodings are items -/

/-- A number written in a fixed-width format is an item. -/
theorem item_number {c : UInt8} {w n : Nat} (mk : Nat → Value)
    (h : format c = some (.number w mk)) (hn : n < 256 ^ w) : Item (c :: bigEndian w n) (mk n) := by
  have hitem := Item.number h (bigEndian_length w n)
  rwa [ofBigEndian_bigEndian_of_lt hn] at hitem

/-- A blob behind a length of `w` bytes is an item. -/
theorem item_blob {c : UInt8} {w : Nat} {mk : List UInt8 → Value} {bs : List UInt8}
    (h : format c = some (.blob w mk)) (hn : bs.length < 256 ^ w) :
    Item (c :: (bigEndian w bs.length ++ bs)) (mk bs) :=
  .blob h (bigEndian_length w _) (ofBigEndian_bigEndian_of_lt hn).symm

/-- So is an extension payload. -/
theorem item_ext {c : UInt8} {w : Nat} {type : Int8} {bs : List UInt8}
    (h : format c = some (.ext w)) (hn : bs.length < 256 ^ w) :
    Item (c :: (bigEndian w bs.length ++ type.toUInt8 :: bs)) (.ext type bs) := by
  have hitem := Item.ext (t := type.toUInt8) h (bigEndian_length w bs.length)
    (ofBigEndian_bigEndian_of_lt hn).symm
  rwa [Int8.toInt8_toUInt8] at hitem

theorem item_encodeUInt {n : Nat} (h : n < 2 ^ 64) : Item (encodeUInt n) (.int n) := by
  unfold encodeUInt
  split
  · rename_i hfix
    exact .single (format_fixint hfix)
  · split
    · exact item_number (fun n => .int n) rfl (by omega)
    · split
      · exact item_number (fun n => .int n) rfl (by omega)
      · split
        · exact item_number (fun n => .int n) rfl (by omega)
        · exact item_number (fun n => .int n) rfl (by omega)

theorem item_encodeNegative {v : Int} (hlo : -2 ^ 63 ≤ v) (hneg : v < 0) :
    Item (encodeNegative v) (.int v) := by
  -- in the signed formats, reading the pattern back gives the number
  have key : ∀ (c : UInt8) (w : Nat), -(2 ^ w) ≤ 2 * v →
      Item (c :: bigEndian (w / 8) (toPattern w v)) (.int (twosComplement w (toPattern w v))) →
      Item (c :: bigEndian (w / 8) (toPattern w v)) (.int v) := by
    intro c w hw h
    have hpos : (0 : Int) < 2 ^ w := Int.pow_pos (by decide)
    rwa [twosComplement_toPattern hw (by omega)] at h
  unfold encodeNegative
  split
  · have hpat : toPattern 8 v = (v + 256).toNat := by
      unfold toPattern
      omega
    have hitem := Item.single (format_negative_fixint (n := toPattern 8 v) (by omega)
      (toPattern_lt 8 v))
    have hval : ((toPattern 8 v : Nat) : Int) - 256 = v := by omega
    rwa [hval] at hitem
  · split
    · exact key 0xd0 8 (by omega)
        (item_number (fun n => .int (twosComplement 8 n)) rfl (toPattern_lt 8 v))
    · split
      · exact key 0xd1 16 (by omega)
          (item_number (fun n => .int (twosComplement 16 n)) rfl (toPattern_lt 16 v))
      · split
        · exact key 0xd2 32 (by omega)
            (item_number (fun n => .int (twosComplement 32 n)) rfl (toPattern_lt 32 v))
        · exact key 0xd3 64 (by omega)
            (item_number (fun n => .int (twosComplement 64 n)) rfl (toPattern_lt 64 v))

theorem item_encodeInt {v : Int} (hlo : -2 ^ 63 ≤ v) (hhi : v < 2 ^ 64) :
    Item (encodeInt v) (.int v) := by
  unfold encodeInt
  split
  · rename_i hpos
    have hitem := item_encodeUInt (n := v.toNat) (by omega)
    rwa [Int.toNat_of_nonneg hpos] at hitem
  · exact item_encodeNegative hlo (by omega)

theorem item_encodeArray {n : Nat} (h : n < 2 ^ 32) : Item (encodeArray n) (.array n) := by
  unfold encodeArray
  split
  · exact .single (format_fixarray (by omega))
  · split
    · exact item_number _ rfl (by omega)
    · exact item_number _ rfl (by omega)

theorem item_encodeMap {n : Nat} (h : n < 2 ^ 32) : Item (encodeMap n) (.map n) := by
  unfold encodeMap
  split
  · exact .single (format_fixmap (by omega))
  · split
    · exact item_number _ rfl (by omega)
    · exact item_number _ rfl (by omega)

theorem item_encodeStr (compat : Bool) {bs : List UInt8} (h : bs.length < 2 ^ 32) :
    Item (encodeStr compat bs) (.str bs) := by
  unfold encodeStr
  split
  · rename_i hfix
    exact .fixed (format_fixstr hfix) rfl
  · split
    · exact item_blob rfl (by omega)
    · split
      · exact item_blob rfl (by omega)
      · exact item_blob rfl (by omega)

theorem item_encodeBin {bs : List UInt8} (h : bs.length < 2 ^ 32) :
    Item (encodeBin bs) (.bin bs) := by
  unfold encodeBin
  split
  · exact item_blob rfl (by omega)
  · split
    · exact item_blob rfl (by omega)
    · exact item_blob rfl (by omega)

theorem item_encodeExt (type : Int8) {bs : List UInt8} (h : bs.length < 2 ^ 32) :
    Item (encodeExt type bs) (.ext type bs) := by
  unfold encodeExt
  split
  · rename_i c hc
    have hitem := @Item.fixext c type.toUInt8 bs.length bs (format_fixextHeader hc) rfl
    rwa [Int8.toInt8_toUInt8] at hitem
  · split
    · exact item_ext rfl (by omega)
    · split
      · exact item_ext rfl (by omega)
      · exact item_ext rfl (by omega)

theorem timestampPayload_length_le (sec : Int) (nsec : Nat) :
    (timestampPayload sec nsec).length ≤ 12 := by
  unfold timestampPayload
  split
  · split <;> simp
  · simp

/-- The bytes of an encodable value are one item, and it denotes the value. -/
theorem item_encode (compat : Bool) {v : Value} (h : v.Encodable) :
    Item (encode compat v) (v.wire compat) := by
  cases v with
  | nil => exact .single rfl
  | bool b => cases b <;> exact .single rfl
  | int v => exact item_encodeInt h.1 h.2
  | float bits => exact item_number _ rfl h
  | double bits => exact item_number _ rfl h
  | str bs => exact item_encodeStr compat h
  | bin bs =>
      cases compat with
      | false => exact item_encodeBin h
      | true => exact item_encodeStr true h
  | array n => exact item_encodeArray h
  | map n => exact item_encodeMap h
  | ext t bs => exact item_encodeExt t h
  | timestamp sec nsec =>
      have hlen := timestampPayload_length_le sec nsec
      exact item_encodeExt (-1) (by omega)

end CWPack.MessagePack
