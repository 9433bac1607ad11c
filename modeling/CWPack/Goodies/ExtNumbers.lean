/-
  Goodies/ExtNumbers.lean --- numbers in extension items, as
  `src/goodies/numeric-extensions/numeric_extensions.c` packs them and gets them
  back.

  The `get_ext` functions look at the type of the item only, and take what is
  below 128 for a blob.  So is a timestamp, where the pointer is the seconds and
  the length the nanoseconds: the functions do what they say for every item but
  that.
-/
import CWPack.Core.Accepted
import CWPack.Goodies.NumericExtensions

set_option autoImplicit false

namespace CWPack.Goodies

open CWPack.Foundation
open CWPack.Core
open CWPack.MessagePack

variable {σ τ : Type}

/-! ## What there is to get -/

/-- The blob of an extension item, unless the item is a timestamp. -/
def extBlob (bs : List UInt8) : Value → Option (List UInt8)
  | .ext type payload =>
      if type = -1 ∧ TimestampLayout bs payload then none else some payload
  | _ => none

/-- What is got from a blob of one of the lengths, and the code that goes with it. -/
def extResult {ρ : Type} (zero : ρ) (lengths : List Nat) (get : List UInt8 → ρ) :
    Option (List UInt8) → ρ × Int
  | none => (zero, cwpRcTypeError)
  | some payload =>
      if payload.length ∈ lengths then (get payload, cwpRcOk) else (zero, cwpRcValueError)

/-- The number in a payload of 0, 1, 2, 4 or 8 bytes. -/
def extInteger : Option (List UInt8) → Int × Int :=
  extResult 0 [0, 1, 2, 4, 8] fun payload =>
    twosComplement (8 * payload.length) (ofBigEndian payload)

/-- The bit pattern in a payload of four bytes. -/
def extFloat : Option (List UInt8) → UInt32 × Int :=
  extResult 0 [4] fun payload => .ofNat (ofBigEndian payload)

/-- The bit pattern in a payload of eight bytes. -/
def extDouble : Option (List UInt8) → UInt64 × Int :=
  extResult 0 [8] fun payload => .ofNat (ofBigEndian payload)

/-- A function gets the result, and sets its code. -/
def Gets {ρ : Type} (get : UnpackState σ → ρ × UnpackState σ) (result : ρ × Int)
    (s : UnpackState σ) : Prop :=
  get s = (result.1, s.setReturnCode result.2)

/-- Where one of the three functions does not report an error of the type, it is past its guard and
takes the members of the blob; they are the ones in the union. -/
def BlobWhereTaken (s : UnpackState σ) : Prop :=
  ((getExtInteger s).2.uc.returnCode ≠ cwpRcTypeError ∨
    (getExtFloat s).2.uc.returnCode ≠ cwpRcTypeError ∨
    (getExtDouble s).2.uc.returnCode ≠ cwpRcTypeError) →
  ∃ start length, s.uc.item.as = .blob start length

/-- The three functions have checked the item: they get what its blob holds, or report what
it is not, and they do not take another member of the union for a blob. -/
structure ExtChecked (blob : Option (List UInt8)) (s : UnpackState σ) : Prop where
  integer : Gets getExtInteger (extInteger blob) s
  float : Gets getExtFloat (extFloat blob) s
  double : Gets getExtDouble (extDouble blob) s
  member : BlobWhereTaken s

/-- An item in one of the three layouts of a timestamp. -/
def IsTimestamp (bs : List UInt8) (x : Value) : Prop :=
  ∃ payload, x = .ext (-1) payload ∧ TimestampLayout bs payload

section Checked

variable {s : UnpackState σ}

theorem code_ext_le (type : Int8) : ¬ (ItemType.ext type).code > cwpItemMaxUserExt := by
  have hlt := type.toInt_lt
  show ¬ type.toInt > 127
  omega

/-- An item of another type than the extensions is refused. -/
theorem extChecked_none (hrc : s.uc.returnCode = cwpRcOk)
    (hcode : s.uc.item.type.code > cwpItemMaxUserExt) : ExtChecked none s := by
  have hok : ¬ s.uc.returnCode ≠ cwpRcOk := not_not_intro hrc
  have hinteger : getExtInteger s = (0, s.setReturnCode cwpRcTypeError) := by
    rw [getExtInteger, if_neg hok, if_pos hcode]
  have hfloat : getExtFloat s = (0, s.setReturnCode cwpRcTypeError) := by
    rw [getExtFloat, if_neg hok, if_pos hcode]
  have hdouble : getExtDouble s = (0, s.setReturnCode cwpRcTypeError) := by
    rw [getExtDouble, if_neg hok, if_pos hcode]
  refine ⟨hinteger, hfloat, hdouble, ?_⟩
  rintro (hpassed | hpassed | hpassed)
  · exact absurd (congrArg (fun r => r.2.uc.returnCode) hinteger) hpassed
  · exact absurd (congrArg (fun r => r.2.uc.returnCode) hfloat) hpassed
  · exact absurd (congrArg (fun r => r.2.uc.returnCode) hdouble) hpassed

theorem blob_of_denotes_ext {type : Int8} {payload : List UInt8}
    (h : s.Denotes (.ext type payload)) :
    ∃ start, s.uc.item = ⟨.ext type, .blob start payload.length⟩ ∧
      s.mem.bytes start payload.length = payload := by
  obtain ⟨start, length, has⟩ := as_of_denotes_ext h
  obtain ⟨htype, hvalue⟩ := h
  have hbytes : s.mem.bytes start length = payload := by
    rw [CwpackItem.value, htype, has] at hvalue
    simpa [itemType] using hvalue
  obtain rfl : length = payload.length := by rw [← hbytes, Memory.bytes_length]
  have hitem : s.uc.item = ⟨s.uc.item.type, s.uc.item.as⟩ := rfl
  rw [htype, has] at hitem
  exact ⟨start, hitem, hbytes⟩

/-- From the blob of an extension item the functions get what its payload holds. -/
theorem extChecked_of_denotes_ext (hrc : s.uc.returnCode = cwpRcOk) {type : Int8}
    {payload : List UInt8} (h : s.Denotes (.ext type payload)) : ExtChecked (some payload) s := by
  obtain ⟨start, hitem, hbytes⟩ := blob_of_denotes_ext h
  have hok : ¬ s.uc.returnCode ≠ cwpRcOk := not_not_intro hrc
  have hcode : ¬ s.uc.item.type.code > cwpItemMaxUserExt := by
    rw [hitem]
    exact code_ext_le type
  have hself := setReturnCode_of_eq hrc
  have hback : s.uc.item.as.back = payload.length := by rw [hitem]; rfl
  have hfront : s.uc.item.as.front = start := by rw [hitem]; rfl
  refine ⟨?_, ?_, ?_, fun _ => ⟨start, payload.length, by rw [hitem]⟩⟩
  · rw [Gets, getExtInteger, if_neg hok, if_neg hcode, hback, hfront]
    unfold extInteger extResult
    simp only
    split
    · rename_i hlen
      obtain rfl := List.length_eq_zero_iff.mp hlen
      rw [if_pos (by simp), hself]
      rfl
    · rename_i hlen
      rw [hlen] at hbytes
      rw [hlen, if_pos (by simp), hself, load8_eq, hbytes]
    · rename_i hlen
      rw [hlen] at hbytes
      rw [hlen, if_pos (by simp), hself, cwLoad16_eq, hbytes]
    · rename_i hlen
      rw [hlen] at hbytes
      rw [hlen, if_pos (by simp), hself, cwLoad32_eq, hbytes]
    · rename_i hlen
      rw [hlen] at hbytes
      rw [hlen, if_pos (by simp), hself, cwLoad64_eq, hbytes]
    · rename_i h0 h1 h2 h4 h8
      have hother : ¬ payload.length ∈ [0, 1, 2, 4, 8] := by
        simp only [List.mem_cons, List.not_mem_nil, or_false]
        rintro (h | h | h | h | h)
        · exact h0 h
        · exact h1 h
        · exact h2 h
        · exact h4 h
        · exact h8 h
      rw [if_neg hother]
  · rw [Gets, getExtFloat, if_neg hok, if_neg hcode, hback, hfront]
    unfold extFloat extResult
    simp only [List.mem_singleton]
    by_cases hlen : payload.length = 4
    · rw [hlen] at hbytes
      rw [if_neg (not_not_intro hlen), if_pos hlen, hself, cwLoad32_eq, hbytes]
    · rw [if_pos hlen, if_neg hlen]
  · rw [Gets, getExtDouble, if_neg hok, if_neg hcode, hback, hfront]
    unfold extDouble extResult
    simp only [List.mem_singleton]
    by_cases hlen : payload.length = 8
    · rw [hlen] at hbytes
      rw [if_neg (not_not_intro hlen), if_pos hlen, hself, cwLoad64_eq, hbytes]
    · rw [if_pos hlen, if_neg hlen]

/-- Past the type there is no type error. -/
theorem getExt_code (hrc : s.uc.returnCode = cwpRcOk)
    (hcode : ¬ s.uc.item.type.code > cwpItemMaxUserExt) :
    (getExtInteger s).2.uc.returnCode ≠ cwpRcTypeError ∧
    (getExtFloat s).2.uc.returnCode ≠ cwpRcTypeError ∧
    (getExtDouble s).2.uc.returnCode ≠ cwpRcTypeError := by
  have hok : ¬ s.uc.returnCode ≠ cwpRcOk := not_not_intro hrc
  have hself : s.uc.returnCode ≠ cwpRcTypeError := by
    rw [hrc]
    decide
  have hvalue : cwpRcValueError ≠ cwpRcTypeError := by decide
  rw [getExtInteger, getExtFloat, getExtDouble, if_neg hok, if_neg hok, if_neg hok, if_neg hcode,
    if_neg hcode, if_neg hcode]
  refine ⟨?_, ?_, ?_⟩
  · split
    case h_6 => exact hvalue
    all_goals exact hself
  · split
    · exact hvalue
    · exact hself
  · split
    · exact hvalue
    · exact hself

theorem Gets.code_eq {ρ : Type} {get : UnpackState σ → ρ × UnpackState σ} {result : ρ × Int}
    (h : Gets get result s) : (get s).2.uc.returnCode = result.2 :=
  congrArg (fun r => r.2.uc.returnCode) h

/-- A time is taken for a blob, by all three. -/
theorem not_gets_of_time (hrc : s.uc.returnCode = cwpRcOk) {sec : Int} {nsec : Nat}
    (h : s.Denotes (.timestamp sec nsec)) :
    ¬ Gets getExtInteger (extInteger none) s ∧ ¬ Gets getExtFloat (extFloat none) s ∧
      ¬ Gets getExtDouble (extDouble none) s ∧ ¬ BlobWhereTaken s := by
  have htype : s.uc.item.type = .ext (-1) := h.1
  have hcode : ¬ s.uc.item.type.code > cwpItemMaxUserExt := by
    rw [htype]
    exact code_ext_le (-1)
  obtain ⟨hinteger, hfloat, hdouble⟩ := getExt_code hrc hcode
  refine ⟨fun hgets => hinteger hgets.code_eq, fun hgets => hfloat hgets.code_eq,
    fun hgets => hdouble hgets.code_eq, fun hmember => ?_⟩
  obtain ⟨start, length, has⟩ := hmember (.inl hinteger)
  rw [as_of_denotes_timestamp h] at has
  simp at has

end Checked

/-! ## Accepted items -/

/-- The value of an item that is no extension has a type of its own. -/
theorem code_itemType_gt {x : Value} (hext : ∀ type payload, x ≠ .ext type payload)
    (htime : ∀ sec nsec, x ≠ .timestamp sec nsec) :
    (itemType x).code > cwpItemMaxUserExt := by
  cases x with
  | ext type payload => exact absurd rfl (hext type payload)
  | timestamp sec nsec => exact absurd rfl (htime sec nsec)
  | int v =>
      by_cases hv : 0 ≤ v <;> simp [itemType, hv, ItemType.code, cwpItemMaxUserExt]
  | _ => simp [itemType, ItemType.code, cwpItemMaxUserExt]

/-- Each of the functions has checked an accepted item exactly if it is no timestamp. -/
theorem getExt_checked_iff {s s' : UnpackState σ} (hrc : s.uc.returnCode = cwpRcOk)
    (hle : s.uc.current ≤ s.uc.end_) (hnext : cwUnpackNext none s = some s')
    (hok : s'.uc.returnCode = cwpRcOk) :
    ∃ bs x rest, Item bs x ∧ s.ahead = bs ++ rest ∧
      (Gets getExtInteger (extInteger (extBlob bs x)) s' ↔ ¬ IsTimestamp bs x) ∧
      (Gets getExtFloat (extFloat (extBlob bs x)) s' ↔ ¬ IsTimestamp bs x) ∧
      (Gets getExtDouble (extDouble (extBlob bs x)) s' ↔ ¬ IsTimestamp bs x) ∧
      (BlobWhereTaken s' ↔ ¬ IsTimestamp bs x) := by
  obtain ⟨bs, x, rest, hitem, hahead⟩ := accepted_item hrc hle hnext hok
  obtain ⟨hden, -⟩ := denotes_asRead hrc hle hnext hok hitem hahead
  refine ⟨bs, x, rest, hitem, hahead, ?_⟩
  by_cases htime : IsTimestamp bs x
  · obtain ⟨payload, rfl, hlayout⟩ := htime
    have htime : IsTimestamp bs (.ext (-1) payload) := ⟨payload, rfl, hlayout⟩
    have hblob : extBlob bs (.ext (-1) payload) = none := if_pos ⟨rfl, hlayout⟩
    obtain ⟨sec, nsec, hvalue⟩ := timestampValue_is_timestamp payload
    rw [asRead_of_layout hlayout, hvalue] at hden
    obtain ⟨hinteger, hfloat, hdouble, hmember⟩ := not_gets_of_time hok hden
    rw [hblob]
    exact ⟨iff_of_false hinteger (not_not_intro htime), iff_of_false hfloat (not_not_intro htime),
      iff_of_false hdouble (not_not_intro htime), iff_of_false hmember (not_not_intro htime)⟩
  · have hchecked : ExtChecked (extBlob bs x) s' := by
      by_cases hext : ∃ type payload, x = .ext type payload
      · obtain ⟨type, payload, rfl⟩ := hext
        have hlayout : ¬ (type = -1 ∧ TimestampLayout bs payload) := by
          rintro ⟨rfl, hlayout⟩
          exact htime ⟨payload, rfl, hlayout⟩
        have hread : asRead bs (.ext type payload) = .ext type payload := if_neg hlayout
        have hblob : extBlob bs (.ext type payload) = some payload := if_neg hlayout
        rw [hread] at hden
        rw [hblob]
        exact extChecked_of_denotes_ext hok hden
      · have hne : ∀ type payload, x ≠ .ext type payload :=
          fun type payload heq => hext ⟨type, payload, heq⟩
        have hblob : extBlob bs x = none := by
          cases x with
          | ext type payload => exact absurd rfl (hne type payload)
          | _ => rfl
        rw [asRead_of_ne (hne (-1))] at hden
        rw [hblob]
        refine extChecked_none hok ?_
        rw [hden.1]
        exact code_itemType_gt hne (ne_timestamp_of_item hitem)
    exact ⟨iff_of_true hchecked.integer htime, iff_of_true hchecked.float htime,
      iff_of_true hchecked.double htime, iff_of_true hchecked.member htime⟩

theorem getExt_checked_fixext2 :
    ∃ s', cwUnpackNext none (staticContext [0xd5, 5, 0xff, 0xfe]) = some s' ∧
      ∃ bs x rest, Item bs x ∧ [0xd5, 5, 0xff, 0xfe] = bs ++ rest ∧
        (Gets getExtInteger (extInteger (extBlob bs x)) s' ↔ ¬ IsTimestamp bs x) := by
  have hle : (staticContext [0xd5, 5, 0xff, 0xfe]).uc.current ≤
      (staticContext [0xd5, 5, 0xff, 0xfe]).uc.end_ := by decide
  refine ⟨_, rfl, ?_⟩
  obtain ⟨bs, x, rest, hitem, hahead, hinteger, -⟩ :=
    getExt_checked_iff (s := staticContext [0xd5, 5, 0xff, 0xfe]) rfl hle rfl rfl
  rw [staticContext_ahead] at hahead
  exact ⟨bs, x, rest, hitem, hahead, hinteger⟩

/-- A timestamp without nanoseconds passes for a blob of no bytes. -/
theorem getExt_takes_timestamp :
    ∃ s', cwUnpackNext none (staticContext [0xd6, 0xff, 0, 0, 0, 1]) = some s' ∧
      s'.uc.returnCode = cwpRcOk ∧ s'.uc.item.type = .timestamp ∧
      Gets getExtInteger (0, cwpRcOk) s' ∧ ¬ Gets getExtInteger (0, cwpRcTypeError) s' := by
  refine ⟨_, rfl, rfl, rfl, rfl, fun hgets => ?_⟩
  exact absurd hgets.code_eq (by decide)

/-! ## Round trips -/

/-- The signed numbers of `k` bytes. -/
def InSigned (k : Nat) (v : Int) : Prop := -(2 ^ (8 * k)) ≤ 2 * v ∧ 2 * v < 2 ^ (8 * k)

/-- The least of the four lengths that has room for a number. -/
structure LeastWidth (k : Nat) (v : Int) : Prop where
  mem : k ∈ [1, 2, 4, 8]
  fits : InSigned k v
  least : ∀ j ∈ [1, 2, 4, 8], InSigned j v → k ≤ j

/-- The payload of a number has the least of the four lengths. -/
theorem extIntegerPayload_least {v : Int} (hlo : -2 ^ 63 ≤ v) (hhi : v < 2 ^ 63) :
    ∃ k, LeastWidth k v ∧ extIntegerPayload v = bigEndian k (toPattern (8 * k) v) := by
  have hleast : ∀ k, (∀ j ∈ [1, 2, 4, 8], j < k → ¬ InSigned j v) →
      ∀ j ∈ [1, 2, 4, 8], InSigned j v → k ≤ j :=
    fun k h j hj hin => Nat.not_lt.mp fun hlt => h j hj hlt hin
  have hfour : ∀ {P : Nat → Prop}, P 1 → P 2 → P 4 → P 8 → ∀ j ∈ [1, 2, 4, 8], P j := by
    intro P h1 h2 h4 h8 j hj
    simp only [List.mem_cons, List.not_mem_nil, or_false] at hj
    rcases hj with rfl | rfl | rfl | rfl
    · exact h1
    · exact h2
    · exact h4
    · exact h8
  unfold InSigned at hleast
  by_cases h1 : -0x80 ≤ v ∧ v < 0x80
  · refine ⟨1, ⟨by decide, ⟨by omega, by omega⟩, hleast 1 (hfour ?_ ?_ ?_ ?_)⟩,
      extIntegerPayload_one h1.1 h1.2⟩
    all_goals
      intro hlt
      omega
  by_cases h2 : -0x8000 ≤ v ∧ v < 0x8000
  · refine ⟨2, ⟨by decide, ⟨by omega, by omega⟩, hleast 2 (hfour ?_ ?_ ?_ ?_)⟩,
      extIntegerPayload_two (by omega) h2.1 h2.2⟩
    all_goals
      intro hlt
      omega
  by_cases h4 : -0x80000000 ≤ v ∧ v < 0x80000000
  · refine ⟨4, ⟨by decide, ⟨by omega, by omega⟩, hleast 4 (hfour ?_ ?_ ?_ ?_)⟩,
      extIntegerPayload_four (by omega) h4.1 h4.2⟩
    all_goals
      intro hlt
      omega
  · refine ⟨8, ⟨by decide, ⟨by omega, by omega⟩, hleast 8 (hfour ?_ ?_ ?_ ?_)⟩,
      extIntegerPayload_eight (by omega)⟩
    all_goals
      intro hlt
      omega

/-- The payload of a number is the number again. -/
theorem extInteger_payload {v : Int} (hlo : -2 ^ 63 ≤ v) (hhi : v < 2 ^ 63) :
    extInteger (some (extIntegerPayload v)) = (v, cwpRcOk) := by
  obtain ⟨k, ⟨hmem, hfits, -⟩, hpayload⟩ := extIntegerPayload_least hlo hhi
  have hpow : (256 : Nat) ^ k = 2 ^ (8 * k) := by
    rw [show (256 : Nat) = 2 ^ 8 from rfl, ← Nat.pow_mul]
  have hlt : toPattern (8 * k) v < 256 ^ k := by
    rw [hpow]
    exact toPattern_lt _ _
  have hlength : (extIntegerPayload v).length ∈ [0, 1, 2, 4, 8] := by
    rw [hpayload, bigEndian_length]
    exact List.mem_cons_of_mem 0 hmem
  unfold extInteger extResult
  simp only
  rw [if_pos hlength, hpayload, bigEndian_length, ofBigEndian_bigEndian_of_lt hlt,
    twosComplement_toPattern hfits.1 hfits.2]

/-- A routine packs the payload as `cw_pack_ext` does, and the number is got back from the
bytes. -/
structure ExtRoundTrip {ρ : Type} (H : PackHandlers σ) (type : Int8)
    (pack : PackState σ → Option (PackState σ)) (get : UnpackState τ → ρ × UnpackState τ)
    (number : ρ) (payload : Blob) (s : PackState σ) : Prop where
  same : pack s = cwPackExt H type payload s
  packed : s.pc.current + (2 + payload.bytes.length) ≤ s.pc.end_ →
    ∃ s', pack s = some s' ∧ s'.pc.returnCode = cwpRcOk ∧
      s'.pc.current = s.pc.current + (2 + payload.bytes.length) ∧
      ∀ (u : UnpackState τ) (rest : List UInt8), u.uc.returnCode = cwpRcOk →
        u.uc.current ≤ u.uc.end_ →
        u.ahead = s'.mem.bytes s.pc.current (s'.pc.current - s.pc.current) ++ rest →
        ∃ u', cwUnpackNext none u = some u' ∧ u'.uc.returnCode = cwpRcOk ∧
          u'.uc.item.type = .ext type ∧ get u' = (number, u')

theorem encodeExt_length {type : Int8} {payload : List UInt8}
    (h : payload.length ∈ [1, 2, 4, 8]) :
    (encodeExt type payload).length = 2 + payload.length := by
  simp only [List.mem_cons, List.not_mem_nil, or_false] at h
  unfold encodeExt
  rcases h with h | h | h | h
  all_goals
    simp only [h, fixextHeader, List.length_cons]

/-- Where the payload is packed as an extension item and got as the number, there and back. -/
theorem extRoundTrip_of_emit {ρ : Type} {H : PackHandlers σ} {type : Int8} (htype : type ≠ -1)
    {pack : PackState σ → Option (PackState σ)} {get : UnpackState τ → ρ × UnpackState τ}
    {number : ρ} {payload : Blob} {s : PackState σ} (hrc : s.pc.returnCode = 0)
    (hcompat : s.pc.beCompatible = false) (hlength : payload.bytes.length ∈ [1, 2, 4, 8])
    (hpack : pack s = emit H (encodeExt type payload.bytes) s)
    (hget : ∀ u : UnpackState τ, u.uc.returnCode = cwpRcOk →
      u.Denotes (.ext type payload.bytes) → get u = (number, u)) :
    ExtRoundTrip H type pack get number payload s where
  same := hpack.trans (cwPackExt_spec H type payload hrc hcompat).symm
  packed := by
    intro hroom
    have hlen : (encodeExt type payload.bytes).length = _ := encodeExt_length hlength
    rw [← hlen] at hroom ⊢
    refine ⟨_, hpack.trans (emit_of_le H hroom), hrc, rfl, fun u rest hrcu hleu hahead => ?_⟩
    have hne : ∀ bytes, Value.ext type payload.bytes ≠ .ext (-1) bytes :=
      fun bytes heq => htype (Value.ext.inj heq).1
    have hbytes : (s.mem.write s.pc.current (encodeExt type payload.bytes)).bytes s.pc.current
        (s.pc.current + (encodeExt type payload.bytes).length - s.pc.current) =
          encodeExt type payload.bytes := by
      rw [Nat.add_sub_cancel_left, Memory.bytes_write_self]
    have hencoding : u.ahead = encodeExt type payload.bytes ++ rest :=
      hahead.trans (congrArg (· ++ rest) hbytes)
    obtain ⟨u', hnext, hok, hden, -⟩ := cwUnpackNext_of_item hrcu hleu
      (item_encodeExt type payload.length_lt) hne hencoding
    exact ⟨u', hnext, hok, hden.1, hget u' hok hden⟩

/-- Numbers of all three kinds come back from the bytes they are packed as, which are those of
`cw_pack_ext` for the big-endian payload; an integer has the shortest. -/
theorem numeric_extensions_round_trip (H : PackHandlers σ) {type : Int8} (htype : type ≠ -1)
    {s : PackState σ} (hrc : s.pc.returnCode = 0) (hcompat : s.pc.beCompatible = false) :
    (∀ i : Int64, ∃ k, LeastWidth k i.toInt ∧ ∃ payload : Blob,
      payload.bytes = bigEndian k (toPattern (8 * k) i.toInt) ∧
      ExtRoundTrip (τ := τ) H type (cwPackExtInteger H type i) getExtInteger i.toInt payload s) ∧
    (∀ f : UInt32, ∃ payload : Blob, payload.bytes = bigEndian 4 f.toNat ∧
      ExtRoundTrip (τ := τ) H type (cwPackExtFloat H type f) getExtFloat f payload s) ∧
    (∀ d : UInt64, ∃ payload : Blob, payload.bytes = bigEndian 8 d.toNat ∧
      ExtRoundTrip (τ := τ) H type (cwPackExtDouble H type d) getExtDouble d payload s) := by
  refine ⟨fun i => ?_, fun f => ?_, fun d => ?_⟩
  · obtain ⟨k, hleast, hpayload⟩ := extIntegerPayload_least i.le_toInt i.toInt_lt
    have hlength : (extIntegerPayload i.toInt).length ∈ [1, 2, 4, 8] := by
      rw [hpayload, bigEndian_length]
      exact hleast.mem
    refine ⟨k, hleast, ⟨extIntegerPayload i.toInt,
      Nat.lt_of_le_of_lt (extIntegerPayload_length_le _) (by decide)⟩, hpayload,
      extRoundTrip_of_emit htype hrc hcompat hlength (cwPackExtInteger_spec type i hrc) ?_⟩
    intro u hok hden
    have hgets := (extChecked_of_denotes_ext hok hden).integer
    rw [Gets, extInteger_payload i.le_toInt i.toInt_lt, setReturnCode_of_eq hok] at hgets
    exact hgets
  · refine ⟨⟨bigEndian 4 f.toNat, by rw [bigEndian_length]; decide⟩, rfl,
      extRoundTrip_of_emit htype hrc hcompat (by rw [bigEndian_length]; decide)
        (cwPackExtFloat_spec type f hrc) ?_⟩
    intro u hok hden
    have hgets := (extChecked_of_denotes_ext hok hden).float
    have hfloat : extFloat (some (bigEndian 4 f.toNat)) = (f, cwpRcOk) := by
      unfold extFloat extResult
      simp only
      rw [if_pos (by rw [bigEndian_length]; decide), ofBigEndian_bigEndian_of_lt f.toNat_lt,
        UInt32.ofNat_toNat]
    rw [Gets, hfloat, setReturnCode_of_eq hok] at hgets
    exact hgets
  · refine ⟨⟨bigEndian 8 d.toNat, by rw [bigEndian_length]; decide⟩, rfl,
      extRoundTrip_of_emit htype hrc hcompat (by rw [bigEndian_length]; decide)
        (cwPackExtDouble_spec type d hrc) ?_⟩
    intro u hok hden
    have hgets := (extChecked_of_denotes_ext hok hden).double
    have hdouble : extDouble (some (bigEndian 8 d.toNat)) = (d, cwpRcOk) := by
      unfold extDouble extResult
      simp only
      rw [if_pos (by rw [bigEndian_length]; decide), ofBigEndian_bigEndian_of_lt d.toNat_lt,
        UInt64.ofNat_toNat]
    rw [Gets, hdouble, setReturnCode_of_eq hok] at hgets
    exact hgets

/-- The number -129 goes there and back in two bytes. -/
theorem numeric_extensions_round_trip_minus_129 :
    ∃ k, LeastWidth k (-129 : Int64).toInt ∧ ∃ payload : Blob,
      payload.bytes = bigEndian k (toPattern (8 * k) (-129 : Int64).toInt) ∧
      ExtRoundTrip (σ := Unit) (τ := Unit) (.static Unit) 5 (cwPackExtInteger (.static Unit) 5 (-129))
        getExtInteger (-129 : Int64).toInt payload (cwPackContextInit 0 16 blankPack) :=
  (numeric_extensions_round_trip (.static Unit) (by decide) rfl rfl).1 (-129)

end CWPack.Goodies
