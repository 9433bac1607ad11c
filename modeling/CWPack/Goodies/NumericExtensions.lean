/-
  Goodies/NumericExtensions.lean ---
  `src/goodies/numeric-extensions/numeric_extensions.c`.

  A number is packed as the payload of a `fixext` item, and read back from the
  item the context has unpacked last.  A floating-point number is its bit pattern.
-/
import CWPack.Core.Encoding
import CWPack.Core.Unpack

set_option autoImplicit false

namespace CWPack.Goodies

open CWPack.Foundation
open CWPack.Core
open CWPack.MessagePack

variable {σ : Type}

/-! ## Packing -/

/-- `cw_storeN(n,op,ant)`; `stored` is what `cw_store##ant(i)` leaves. -/
def cwStoreN (H : PackHandlers σ) (n op : Nat) (stored : List UInt8) (type : Int8)
    (s : PackState σ) : Option (PackState σ) :=
  cwPackReserveSpace H 0 n s fun p s =>
    some (s.store p (UInt8.ofNat op :: type.toUInt8 :: stored))

/-- `cw_store8(i)` -/
def cwStore8 (i : Nat) : List UInt8 := [UInt8.ofNat i]

/-- `cw_pack_ext_integer` -/
def cwPackExtInteger (H : PackHandlers σ) (type : Int8) (i : Int64) (s : PackState σ) :
    Option (PackState σ) :=
  let d := i.toUInt64.toNat
  if s.pc.returnCode ≠ 0 then some s
  else if i.toInt ≥ 0 then
    if i.toInt < 128 then cwStoreN H 3 0xd4 (cwStore8 d) type s
    else if i.toInt < 32768 then cwStoreN H 4 0xd5 (cwStore16 d) type s
    else if i.toInt < 0x80000000 then cwStoreN H 6 0xd6 (cwStore32 d) type s
    else cwStoreN H 10 0xd7 (cwStore64 d) type s
  else if i.toInt ≥ -128 then cwStoreN H 3 0xd4 (cwStore8 d) type s
  else if i.toInt ≥ -32768 then cwStoreN H 4 0xd5 (cwStore16 d) type s
  else if i.toInt ≥ -0x80000000 then cwStoreN H 6 0xd6 (cwStore32 d) type s
  else cwStoreN H 10 0xd7 (cwStore64 d) type s

/-- `cw_pack_ext_float` -/
def cwPackExtFloat (H : PackHandlers σ) (type : Int8) (f : UInt32) (s : PackState σ) :
    Option (PackState σ) :=
  if s.pc.returnCode ≠ 0 then some s
  else cwPackReserveSpace H 0 6 s fun p s =>
    some (s.store p (0xd6 :: type.toUInt8 :: cwStore32 f.toNat))

/-- `cw_pack_ext_double` -/
def cwPackExtDouble (H : PackHandlers σ) (type : Int8) (d : UInt64) (s : PackState σ) :
    Option (PackState σ) :=
  if s.pc.returnCode ≠ 0 then some s
  else cwPackReserveSpace H 0 10 s fun p s =>
    some (s.store p (0xd7 :: type.toUInt8 :: cwStore64 d.toNat))

/-! ## Unpacking -/

/-- `CWP_ITEM_MAX_USER_EXT` -/
abbrev cwpItemMaxUserExt : Int := 127

/-- `get_ext_integer` -/
def getExtInteger (s : UnpackState σ) : Int × UnpackState σ :=
  let start := s.uc.item.as.front
  if s.uc.returnCode ≠ cwpRcOk then (0, s)
  else if s.uc.item.type.code > cwpItemMaxUserExt then (0, s.setReturnCode cwpRcTypeError)
  else match s.uc.item.as.back with
    | 0 => (0, s)
    | 1 => (twosComplement 8 (s.mem start).toNat, s)
    | 2 => (twosComplement 16 (cwLoad16 s.mem start), s)
    | 4 => (twosComplement 32 (cwLoad32 s.mem start), s)
    | 8 => (twosComplement 64 (cwLoad64 s.mem start), s)
    | _ => (0, s.setReturnCode cwpRcValueError)

/-- `get_ext_float` -/
def getExtFloat (s : UnpackState σ) : UInt32 × UnpackState σ :=
  if s.uc.returnCode ≠ cwpRcOk then (0, s)
  else if s.uc.item.type.code > cwpItemMaxUserExt then (0, s.setReturnCode cwpRcTypeError)
  else if s.uc.item.as.back ≠ 4 then (0, s.setReturnCode cwpRcValueError)
  else (UInt32.ofNat (cwLoad32 s.mem s.uc.item.as.front), s)

/-- `get_ext_double` -/
def getExtDouble (s : UnpackState σ) : UInt64 × UnpackState σ :=
  if s.uc.returnCode ≠ cwpRcOk then (0, s)
  else if s.uc.item.type.code > cwpItemMaxUserExt then (0, s.setReturnCode cwpRcTypeError)
  else if s.uc.item.as.back ≠ 8 then (0, s.setReturnCode cwpRcValueError)
  else (UInt64.ofNat (cwLoad64 s.mem s.uc.item.as.front), s)

/-! ## What is packed -/

/-- The payload: the least of the four widths whose signed range has the number. -/
def extIntegerPayload (v : Int) : List UInt8 :=
  if -0x80 ≤ v ∧ v < 0x80 then bigEndian 1 (toPattern 8 v)
  else if -0x8000 ≤ v ∧ v < 0x8000 then bigEndian 2 (toPattern 16 v)
  else if -0x80000000 ≤ v ∧ v < 0x80000000 then bigEndian 4 (toPattern 32 v)
  else bigEndian 8 (toPattern 64 v)

theorem extIntegerPayload_one {v : Int} (hlo : -0x80 ≤ v) (hhi : v < 0x80) :
    extIntegerPayload v = bigEndian 1 (toPattern 8 v) :=
  if_pos ⟨hlo, hhi⟩

theorem extIntegerPayload_two {v : Int} (hout : v < -0x80 ∨ 0x80 ≤ v) (hlo : -0x8000 ≤ v)
    (hhi : v < 0x8000) : extIntegerPayload v = bigEndian 2 (toPattern 16 v) := by
  rw [extIntegerPayload, if_neg (by omega), if_pos ⟨hlo, hhi⟩]

theorem extIntegerPayload_four {v : Int} (hout : v < -0x8000 ∨ 0x8000 ≤ v)
    (hlo : -0x80000000 ≤ v) (hhi : v < 0x80000000) :
    extIntegerPayload v = bigEndian 4 (toPattern 32 v) := by
  rw [extIntegerPayload, if_neg (by omega), if_neg (by omega), if_pos ⟨hlo, hhi⟩]

theorem extIntegerPayload_eight {v : Int} (hout : v < -0x80000000 ∨ 0x80000000 ≤ v) :
    extIntegerPayload v = bigEndian 8 (toPattern 64 v) := by
  rw [extIntegerPayload, if_neg (by omega), if_neg (by omega), if_neg (by omega)]

theorem extIntegerPayload_length_le (v : Int) : (extIntegerPayload v).length ≤ 8 := by
  unfold extIntegerPayload
  repeat' split
  all_goals
    rw [bigEndian_length]
    try decide

section Spec

variable {H : PackHandlers σ} {s : PackState σ}

theorem cwStoreN_eq_emit {n op : Nat} {stored : List UInt8} (type : Int8)
    (h : n = stored.length + 2) :
    cwStoreN H n op stored type s = emit H (UInt8.ofNat op :: type.toUInt8 :: stored) s :=
  reserve_eq_emit H s (by simp [h])

/-- One of the stores, with the pattern of its own width. -/
theorem cwStoreN_spec (k op : Nat) {c : UInt8} {stored : List UInt8} (type : Int8) (v : Int)
    (hk : k ≤ 8) (hstored : stored = bigEndian k (toPattern 64 v))
    (hc : fixextHeader k = some c) (hop : UInt8.ofNat op = c) :
    cwStoreN H (k + 2) op stored type s =
      emit H (encodeExt type (bigEndian k (toPattern (8 * k) v))) s := by
  have hlen : stored.length = k := by rw [hstored, bigEndian_length]
  have henc : encodeExt type stored = c :: type.toUInt8 :: stored := by
    simp only [encodeExt, hlen, hc]
  rw [cwStoreN_eq_emit type (by rw [hlen]), bigEndian_toPattern k v hk, ← hstored, henc, hop]

/-- A number is packed as the extension item with its payload. -/
theorem cwPackExtInteger_spec (type : Int8) (i : Int64) (hrc : s.pc.returnCode = 0) :
    cwPackExtInteger H type i s = emit H (encodeExt type (extIntegerPayload i.toInt)) s := by
  have hne : ¬ s.pc.returnCode ≠ 0 := by simp [hrc]
  have h1 := cwStoreN_spec (H := H) (s := s) 1 0xd4 type i.toInt (by decide)
    (bigEndian_one _).symm rfl rfl
  have h2 := cwStoreN_spec (H := H) (s := s) 2 0xd5 type i.toInt (by decide)
    (cwStore16_eq _) rfl rfl
  have h4 := cwStoreN_spec (H := H) (s := s) 4 0xd6 type i.toInt (by decide)
    (cwStore32_eq _) rfl rfl
  have h8 := cwStoreN_spec (H := H) (s := s) 8 0xd7 type i.toInt (by decide)
    (cwStore64_eq _) rfl rfl
  simp only [cwPackExtInteger, cwStore8, if_neg hne, toUInt64_toNat]
  by_cases hpos : i.toInt ≥ 0
  · rw [if_pos hpos]
    by_cases hb : i.toInt < 128
    · rw [if_pos hb, extIntegerPayload_one (by omega) hb]
      exact h1
    · rw [if_neg hb]
      by_cases hw : i.toInt < 32768
      · rw [if_pos hw, extIntegerPayload_two (by omega) (by omega) hw]
        exact h2
      · rw [if_neg hw]
        by_cases hd : i.toInt < 0x80000000
        · rw [if_pos hd, extIntegerPayload_four (by omega) (by omega) hd]
          exact h4
        · rw [if_neg hd, extIntegerPayload_eight (by omega)]
          exact h8
  · rw [if_neg hpos]
    by_cases hb : i.toInt ≥ -128
    · rw [if_pos hb, extIntegerPayload_one hb (by omega)]
      exact h1
    · rw [if_neg hb]
      by_cases hw : i.toInt ≥ -32768
      · rw [if_pos hw, extIntegerPayload_two (by omega) hw (by omega)]
        exact h2
      · rw [if_neg hw]
        by_cases hd : i.toInt ≥ -0x80000000
        · rw [if_pos hd, extIntegerPayload_four (by omega) hd (by omega)]
          exact h4
        · rw [if_neg hd, extIntegerPayload_eight (by omega)]
          exact h8

theorem cwPackExtFloat_spec (type : Int8) (f : UInt32) (hrc : s.pc.returnCode = 0) :
    cwPackExtFloat H type f s = emit H (encodeExt type (bigEndian 4 f.toNat)) s := by
  have hne : ¬ s.pc.returnCode ≠ 0 := by simp [hrc]
  have henc : encodeExt type (bigEndian 4 f.toNat) =
      0xd6 :: type.toUInt8 :: bigEndian 4 f.toNat := by
    simp only [encodeExt, bigEndian_length, fixextHeader]
  rw [cwPackExtFloat, if_neg hne, henc, cwStore32_eq]
  exact reserve_eq_emit H s rfl

theorem cwPackExtDouble_spec (type : Int8) (d : UInt64) (hrc : s.pc.returnCode = 0) :
    cwPackExtDouble H type d s = emit H (encodeExt type (bigEndian 8 d.toNat)) s := by
  have hne : ¬ s.pc.returnCode ≠ 0 := by simp [hrc]
  have henc : encodeExt type (bigEndian 8 d.toNat) =
      0xd7 :: type.toUInt8 :: bigEndian 8 d.toNat := by
    simp only [encodeExt, bigEndian_length, fixextHeader]
  rw [cwPackExtDouble, if_neg hne, henc, cwStore64_eq]
  exact reserve_eq_emit H s rfl

end Spec

end CWPack.Goodies
