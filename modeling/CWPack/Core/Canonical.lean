/-
  Core/Canonical.lean --- packing what was read.

  An item can be written in several ways: an integer in a format wider than it
  needs, a blob behind a longer length, a time in 96 bits.  `cw_unpack_next`
  reads them all.  Packing what it has read writes one of them, the same for every
  packing function that takes the value, and none of them is shorter.

  Left out are the `ext 16` and `ext 32` items of type -1, which are not read as
  timestamps, and the timestamps with nanoseconds that `cw_pack_time` refuses.
-/
import CWPack.Core.Accepted
import CWPack.Core.LookAhead

set_option autoImplicit false

namespace CWPack.Core

open CWPack.Foundation
open CWPack.MessagePack

variable {σ τ : Type}

/-! ## Lengths of encodings -/

theorem encodeUInt_length_le_of_lt {w n : Nat} (hw : w = 1 ∨ w = 2 ∨ w = 4 ∨ w = 8)
    (hn : n < 256 ^ w) : (encodeUInt n).length ≤ 1 + w := by
  unfold encodeUInt
  rcases hw with rfl | rfl | rfl | rfl
  all_goals
    repeat' split
    all_goals
      simp only [List.length_cons, List.length_nil, bigEndian_length]
      omega

theorem encodeNegative_length_le_of_le {w : Nat} {v : Int} (hw : w = 1 ∨ w = 2 ∨ w = 4 ∨ w = 8)
    (hlo : -(2 ^ (8 * w)) ≤ 2 * v) : (encodeNegative v).length ≤ 1 + w := by
  unfold encodeNegative
  rcases hw with rfl | rfl | rfl | rfl
  all_goals
    repeat' split
    all_goals
      simp only [List.length_cons, List.length_nil, bigEndian_length]
      omega

/-- A number of `w` bytes in two's complement is encoded in `w` bytes behind its tag at most. -/
theorem encodeInt_twosComplement_length_le {w n : Nat} (hw : w = 1 ∨ w = 2 ∨ w = 4 ∨ w = 8)
    (hn : n < 256 ^ w) : (encodeInt (twosComplement (8 * w) n)).length ≤ 1 + w := by
  have hpow : (256 : Nat) ^ w = 2 ^ (8 * w) := by
    rw [show (256 : Nat) = 2 ^ 8 from rfl, ← Nat.pow_mul]
  obtain ⟨hlo, hhi⟩ := twosComplement_bounds (w := 8 * w) (n := n) (by omega)
  unfold encodeInt
  split
  · refine encodeUInt_length_le_of_lt hw ?_
    have hcast : ((2 ^ (8 * w) : Nat) : Int) = 2 ^ (8 * w) := by simp
    omega
  · exact encodeNegative_length_le_of_le hw hlo

section Table

variable {c : UInt8}

theorem encode_single_length {x : Value} (h : format c = some (.single x)) :
    (encode false x).length = 1 := by
  by_cases hpos : c.toNat < 0x80
  · rw [format_positive hpos] at h
    obtain rfl := Format.single.inj (Option.some.inj h)
    have hnonneg : (0 : Int) ≤ c.toNat := by omega
    simp only [encode, encodeInt, if_pos hnonneg, Int.toNat_natCast, encodeUInt, if_pos hpos,
      List.length_singleton]
  by_cases hmap : c.toNat < 0x90
  · rw [format_map (Nat.not_lt.mp hpos) hmap] at h
    obtain rfl := Format.single.inj (Option.some.inj h)
    have hsmall : c.toNat - 0x80 < 0x10 := by omega
    simp only [encode, encodeMap, if_pos hsmall, List.length_singleton]
  by_cases harray : c.toNat < 0xa0
  · rw [format_array (Nat.not_lt.mp hmap) harray] at h
    obtain rfl := Format.single.inj (Option.some.inj h)
    have hsmall : c.toNat - 0x90 < 0x10 := by omega
    simp only [encode, encodeArray, if_pos hsmall, List.length_singleton]
  by_cases hneg : 0xe0 ≤ c.toNat
  · have hc := c.toNat_lt
    rw [format_negative hneg] at h
    obtain rfl := Format.single.inj (Option.some.inj h)
    have hnot : ¬ (0 : Int) ≤ (c.toNat : Int) - 256 := by omega
    have hfix : -0x20 ≤ (c.toNat : Int) - 256 := by omega
    simp only [encode, encodeInt, if_neg hnot, encodeNegative, if_pos hfix,
      List.length_singleton]
  -- the single bytes that are left are `nil` and the booleans
  unfold format at h
  rw [if_neg hpos, if_neg hmap, if_neg harray] at h
  split at h
  · simp at h
  split at h
  all_goals simp only [Option.some.injEq, reduceCtorEq, Format.single.injEq] at h
  all_goals
    subst h
    rfl

theorem encode_number_length_le {w n : Nat} {mk : Nat → Value}
    (h : format c = some (.number w mk)) (hn : n < 256 ^ w) :
    (encode false (mk n)).length ≤ 1 + w := by
  -- the numbers of unsigned formats
  have huint : ∀ {w : Nat}, w = 1 ∨ w = 2 ∨ w = 4 ∨ w = 8 → n < 256 ^ w →
      (encodeInt n).length ≤ 1 + w := by
    intro w hw hlt
    have hnonneg : (0 : Int) ≤ n := by omega
    rw [encodeInt, if_pos hnonneg, Int.toNat_natCast]
    exact encodeUInt_length_le_of_lt hw hlt
  unfold format at h
  repeat' split at h
  all_goals simp only [Option.some.injEq, reduceCtorEq, Format.number.injEq] at h
  all_goals obtain ⟨rfl, rfl⟩ := h
  case h_10 => simp only [encode, List.length_cons, bigEndian_length]; omega
  case h_11 => simp only [encode, List.length_cons, bigEndian_length]; omega
  case h_12 => exact huint (by decide) hn
  case h_13 => exact huint (by decide) hn
  case h_14 => exact huint (by decide) hn
  case h_15 => exact huint (by decide) hn
  case h_16 => exact encodeInt_twosComplement_length_le (w := 1) (by decide) hn
  case h_17 => exact encodeInt_twosComplement_length_le (w := 2) (by decide) hn
  case h_18 => exact encodeInt_twosComplement_length_le (w := 4) (by decide) hn
  case h_19 => exact encodeInt_twosComplement_length_le (w := 8) (by decide) hn
  all_goals
    simp only [encode, encodeArray, encodeMap]
    repeat' split
    all_goals
      simp only [List.length_cons, List.length_nil, bigEndian_length]
      omega

theorem encodeStr_length_le_of_lt {w : Nat} {bs : List UInt8} (hw : w = 1 ∨ w = 2 ∨ w = 4)
    (hn : bs.length < 256 ^ w) : (encodeStr false bs).length ≤ 1 + w + bs.length := by
  simp only [encodeStr, and_true]
  rcases hw with rfl | rfl | rfl
  all_goals
    repeat' split
    all_goals
      simp only [List.length_cons, List.length_append, bigEndian_length]
      omega

theorem encodeBin_length_le_of_lt {w : Nat} {bs : List UInt8} (hw : w = 1 ∨ w = 2 ∨ w = 4)
    (hn : bs.length < 256 ^ w) : (encodeBin bs).length ≤ 1 + w + bs.length := by
  unfold encodeBin
  rcases hw with rfl | rfl | rfl
  all_goals
    repeat' split
    all_goals
      simp only [List.length_cons, List.length_append, bigEndian_length]
      omega

theorem encodeExt_length_le_of_lt {w : Nat} {type : Int8} {bs : List UInt8}
    (hw : w = 1 ∨ w = 2 ∨ w = 4) (hn : bs.length < 256 ^ w) :
    (encodeExt type bs).length ≤ 2 + w + bs.length := by
  unfold encodeExt
  rcases hw with rfl | rfl | rfl
  all_goals
    repeat' split
    all_goals
      simp only [List.length_cons, List.length_append, bigEndian_length]
      omega

theorem encode_blob_length_le {w : Nat} {mk : List UInt8 → Value} {bs : List UInt8}
    (h : format c = some (.blob w mk)) (hn : bs.length < 256 ^ w) :
    (encode false (mk bs)).length ≤ 1 + w + bs.length := by
  unfold format at h
  repeat' split at h
  all_goals simp only [Option.some.injEq, reduceCtorEq, Format.blob.injEq] at h
  all_goals obtain ⟨rfl, rfl⟩ := h
  case h_4 => exact encodeBin_length_le_of_lt (by decide) hn
  case h_5 => exact encodeBin_length_le_of_lt (by decide) hn
  case h_6 => exact encodeBin_length_le_of_lt (by decide) hn
  all_goals exact encodeStr_length_le_of_lt (by decide) hn

/-- A payload whose length is in the first byte is a short string. -/
theorem format_fixed {n : Nat} {mk : List UInt8 → Value} (h : format c = some (.fixed n mk)) :
    n < 0x20 ∧ mk = .str := by
  unfold format at h
  repeat' split at h
  all_goals simp only [Option.some.injEq, reduceCtorEq, Format.fixed.injEq] at h
  obtain ⟨hn, hmk⟩ := h
  exact ⟨by omega, hmk.symm⟩

end Table

/-- No item is shorter than the encoding of its value. -/
theorem encode_length_le {bs : List UInt8} {v : Value} (h : Item bs v) :
    (encode false v).length ≤ bs.length := by
  cases h with
  | single hf => exact Nat.le_of_eq (encode_single_length hf)
  | @number c w mk ns hf hw =>
      have hlt := ofBigEndian_lt ns
      rw [hw] at hlt
      have hle := encode_number_length_le hf hlt
      rw [List.length_cons]
      omega
  | @fixed c n mk bs hf hn =>
      obtain ⟨hlt, rfl⟩ := format_fixed hf
      have hsmall : bs.length < 0x20 := by rwa [hn]
      simp only [encode, encodeStr, if_pos hsmall, List.length_cons, Nat.le_refl]
  | @blob c w mk ls bs hf hw hn =>
      have hlt := ofBigEndian_lt ls
      rw [hw, ← hn] at hlt
      have hle := encode_blob_length_le hf hlt
      rw [List.length_cons, List.length_append]
      omega
  | @fixext c t n bs hf hn =>
      have hfix : ∃ h, fixextHeader bs.length = some h := by
        obtain ⟨-, rfl⟩ | ⟨-, rfl⟩ | ⟨-, rfl⟩ | ⟨-, rfl⟩ | ⟨-, rfl⟩ := format_fixext_cases hf
        all_goals
          rw [hn]
          exact ⟨_, rfl⟩
      obtain ⟨header, hheader⟩ := hfix
      simp only [encode, encodeExt, hheader, List.length_cons, Nat.le_refl]
  | @ext c t w ls bs hf hw hn =>
      have hlt := ofBigEndian_lt ls
      have hwidth : w = 1 ∨ w = 2 ∨ w = 4 :=
        (format_ext_cases hf).imp And.right (Or.imp And.right And.right)
      rw [hw, ← hn] at hlt
      have hle : (encodeExt t.toInt8 bs).length ≤ 2 + w + bs.length :=
        encodeExt_length_le_of_lt hwidth hlt
      show (encodeExt t.toInt8 bs).length ≤ _
      rw [List.length_cons, List.length_append, List.length_cons]
      omega

theorem encodeExt_timestamp_length {type : Int8} {bs : List UInt8}
    (h : bs.length = 4 ∨ bs.length = 8 ∨ bs.length = 12) :
    (encodeExt type bs).length = if bs.length = 12 then 15 else bs.length + 2 := by
  rcases h with h | h | h
  · simp only [encodeExt, h, fixextHeader, List.length_cons]
    rfl
  · simp only [encodeExt, h, fixextHeader, List.length_cons]
    rfl
  · have hsmall : (12 : Nat) < 0x100 := by decide
    simp only [encodeExt, h, fixextHeader, if_pos hsmall, List.length_cons, List.length_append,
      bigEndian_length]
    rfl

/-- The payload chosen for a time is no longer than the one the time was read from. -/
theorem timestampPayload_length_le_of_value {payload : List UInt8} {sec : Int} {nsec : Nat}
    (hlen : payload.length = 4 ∨ payload.length = 8 ∨ payload.length = 12)
    (h : timestampValue payload = .timestamp sec nsec) :
    (timestampPayload sec nsec).length ≤ payload.length := by
  have hbound := ofBigEndian_lt payload
  unfold timestampValue at h
  split at h
  · rename_i h4
    obtain ⟨rfl, rfl⟩ := Value.timestamp.inj h
    rw [h4] at hbound
    have hsec : (0 : Int) ≤ ofBigEndian payload ∧ (ofBigEndian payload : Int) < 2 ^ 34 := by omega
    have hnone : 0 * 2 ^ 34 + (ofBigEndian payload : Int).toNat < 2 ^ 32 := by omega
    rw [timestampPayload, if_pos hsec, if_pos hnone, bigEndian_length, h4]
  · split at h
    · rename_i h8
      obtain ⟨rfl, rfl⟩ := Value.timestamp.inj h
      have hlow : ofBigEndian payload % 2 ^ 34 < 2 ^ 34 := Nat.mod_lt _ (by decide)
      generalize ofBigEndian payload % 2 ^ 34 = low at hlow
      have hsec : (0 : Int) ≤ low ∧ (low : Int) < 2 ^ 34 := by omega
      rw [timestampPayload, if_pos hsec, h8]
      split
      · rw [bigEndian_length]
        decide
      · rw [bigEndian_length]
    · have h12 : payload.length = 12 := by omega
      rw [h12]
      exact timestampPayload_length_le _ _

/-- Nor is a time in one of the layouts. -/
theorem encode_timestampValue_length_le {payload : List UInt8}
    (hlen : payload.length = 4 ∨ payload.length = 8 ∨ payload.length = 12) :
    (encode false (timestampValue payload)).length ≤ (encodeExt (-1) payload).length := by
  obtain ⟨sec, nsec, hvalue⟩ := timestampValue_is_timestamp payload
  have hle := timestampPayload_length_le_of_value hlen hvalue
  have hpayload := timestampPayload_length sec nsec
  rw [hvalue, encode, encodeExt_timestamp_length hlen, encodeExt_timestamp_length hpayload]
  split
  · split <;> omega
  · split <;> omega

/-! ## What was read -/

/-- What is read is an item as it stands, or the time in a timestamp as long as the encoding of
its payload. -/
theorem readItem_cases {b : List UInt8} {v : Value} {n : Nat} (h : readItem b = .ok (v, n)) :
    decode b = .item v n ∨
      ∃ payload : List UInt8, v = timestampValue payload ∧
        (payload.length = 4 ∨ payload.length = 8 ∨ payload.length = 12) ∧
        n = (encodeExt (-1) payload).length ∧ n ≤ b.length := by
  obtain ⟨x, hdec⟩ := decode_of_readItem h
  obtain ⟨hn, hitem⟩ := item_of_decode hdec
  have hread := h
  rw [← List.take_append_drop n b] at hread
  obtain ⟨rfl, hlen⟩ := readItem_eq_asRead hitem hread
  by_cases hminus : ∃ payload, x = .ext (-1) payload
  · obtain ⟨payload, rfl⟩ := hminus
    by_cases hlayout : TimestampLayout (b.take n) payload
    · obtain ⟨hencode, hpayload⟩ := eq_encodeExt_of_layout hitem hlayout
      rw [hencode] at hlen
      exact Or.inr ⟨payload, asRead_of_layout hlayout, hpayload, hlen, hn⟩
    · rw [asRead_of_not_layout hlayout]
      exact Or.inl hdec
  · have hne : ∀ payload, x ≠ .ext (-1) payload := fun payload heq => hminus ⟨payload, heq⟩
    rw [asRead_of_ne hne]
    exact Or.inl hdec

/-- An item read as an extension of type -1 has one of the two headers that do not look at the
type. -/
theorem wide_of_readItem {b payload : List UInt8} {n : Nat}
    (h : readItem b = .ok (.ext (-1) payload, n)) :
    extType b = some (-1) ∧ (b.head? = some 0xc8 ∨ b.head? = some 0xc9) := by
  rcases readItem_cases h with hd | ⟨payload', hv, -, -, -⟩
  · obtain ⟨-, hitem⟩ := item_of_decode hd
    have hsplit : b.take n ++ b.drop n = b := List.take_append_drop n b
    have hhead : ∀ c, (b.take n).head? = some c → b.head? = some c := by
      intro c hc
      rw [← hsplit, List.head?_append, hc]
      rfl
    have hwide : (b.take n).head? = some 0xc8 ∨ (b.take n).head? = some 0xc9 := by
      by_cases hlayout : TimestampLayout (b.take n) payload
      · have hread := readItem_of_layout hitem hlayout (b.drop n)
        rw [hsplit, h] at hread
        obtain ⟨sec, nsec, hvalue⟩ := timestampValue_is_timestamp payload
        rw [hvalue] at hread
        simp at hread
      · by_contra hnone
        obtain ⟨hnarrow, hnarrow'⟩ := not_or.mp hnone
        have hread := readItem_of_rejected hitem hlayout hnarrow hnarrow' (b.drop n)
        rw [hsplit, h] at hread
        simp at hread
    refine ⟨?_, hwide.imp (hhead _) (hhead _)⟩
    rw [← hsplit, extType_append (n := (b.take n).length) (v := .ext (-1) payload)]
    · rcases item_ext_cases hitem with ⟨c, t, k, hf, hb, ht, -⟩ | ⟨c, t, w, ls, hf, hb, ht, hw, -⟩
      · rw [hb]
        simp only [extType, hf, List.head?_cons, Option.map_some, ht]
      · rw [hb]
        simp only [extType, hf, List.drop_left' hw, List.head?_cons, Option.map_some, ht]
    · have hdec := decode_of_item hitem []
      rwa [List.append_nil] at hdec
  · obtain ⟨sec, nsec, hvalue⟩ := timestampValue_is_timestamp payload'
    rw [hvalue] at hv
    simp at hv

/-- No item is shorter than the encoding of what is read from it. -/
theorem encode_length_le_of_readItem {b : List UInt8} {v : Value} {n : Nat}
    (h : readItem b = .ok (v, n)) : (encode false v).length ≤ n := by
  rcases readItem_cases h with hd | ⟨payload, rfl, hlen, rfl, -⟩
  · obtain ⟨hn, hitem⟩ := item_of_decode hd
    have hle := encode_length_le hitem
    rw [List.length_take] at hle
    omega
  · exact encode_timestampValue_length_le hlen

theorem number_encodable {c : UInt8} {w n : Nat} {mk : Nat → Value}
    (h : format c = some (.number w mk)) (hn : n < 256 ^ w) : (mk n).Encodable := by
  have hsigned : ∀ {w : Nat}, w ≤ 64 → n < 2 ^ w → (Value.int (twosComplement w n)).Encodable := by
    intro w hw hlt
    obtain ⟨hlo, hhi⟩ := twosComplement_bounds hlt
    have hpow : (2 : Nat) ^ w ≤ 2 ^ 64 := Nat.pow_le_pow_right (by decide) hw
    have hcast : ((2 ^ w : Nat) : Int) = 2 ^ w := by simp
    exact ⟨by omega, by omega⟩
  unfold format at h
  repeat' split at h
  all_goals simp only [Option.some.injEq, reduceCtorEq, Format.number.injEq] at h
  all_goals obtain ⟨rfl, rfl⟩ := h
  case h_16 => exact hsigned (by decide) hn
  case h_17 => exact hsigned (by decide) hn
  case h_18 => exact hsigned (by decide) hn
  case h_19 => exact hsigned (by decide) hn
  all_goals
    simp only [Value.Encodable]
    omega

/-- The values of items are those the formats have room for. -/
theorem encodable_of_item {bs : List UInt8} {v : Value} (h : Item bs v) : v.Encodable := by
  have hwide : ∀ {w n : Nat}, w ≤ 4 → n < 256 ^ w → n < 2 ^ 32 := by
    intro w n hw hn
    exact Nat.lt_of_lt_of_le hn (Nat.pow_le_pow_right (by decide) hw)
  cases h with
  | @single c x hf =>
      have hc := c.toNat_lt
      unfold format at hf
      repeat' split at hf
      all_goals simp only [Option.some.injEq, reduceCtorEq, Format.single.injEq] at hf
      all_goals
        subst hf
        simp only [Value.Encodable]
        try omega
  | @number c w mk ns hf hw =>
      have hlt := ofBigEndian_lt ns
      rw [hw] at hlt
      exact number_encodable hf hlt
  | @fixed c n mk bs hf hn =>
      obtain ⟨hlt, rfl⟩ := format_fixed hf
      show bs.length < 2 ^ 32
      omega
  | @blob c w mk ls bs hf hw hn =>
      have hlt := ofBigEndian_lt ls
      rw [hw, ← hn] at hlt
      unfold format at hf
      repeat' split at hf
      all_goals simp only [Option.some.injEq, reduceCtorEq, Format.blob.injEq] at hf
      all_goals
        obtain ⟨rfl, rfl⟩ := hf
        exact hwide (by decide) hlt
  | @fixext c t n bs hf hn =>
      show bs.length < 2 ^ 32
      obtain ⟨-, h⟩ | ⟨-, h⟩ | ⟨-, h⟩ | ⟨-, h⟩ | ⟨-, h⟩ := format_fixext_cases hf
      all_goals omega
  | @ext c t w ls bs hf hw hn =>
      have hlt := ofBigEndian_lt ls
      rw [hw, ← hn] at hlt
      refine hwide ?_ hlt
      obtain ⟨-, h⟩ | ⟨-, h⟩ | ⟨-, h⟩ := format_ext_cases hf
      all_goals omega

/-- Every such value is packed by a call. -/
theorem exists_call {v : Value} (h : v.Encodable) : ∃ c : PackCall, c.value = v := by
  cases v with
  | nil => exact ⟨.nil, rfl⟩
  | bool b => exact ⟨.boolean b, rfl⟩
  | int x =>
      by_cases hx : 0 ≤ x
      · refine ⟨.unsigned (UInt64.ofNat x.toNat), ?_⟩
        have hlt : x.toNat < UInt64.size := by
          have hhi := h.2
          show x.toNat < 2 ^ 64
          omega
        rw [PackCall.value, UInt64.toNat_ofNat_of_lt' hlt, Int.toNat_of_nonneg hx]
      · refine ⟨.signed (Int64.ofInt x), ?_⟩
        rw [PackCall.value, Int64.toInt_ofInt_of_le h.1 (by omega)]
  | float bits => exact ⟨.float (UInt32.ofNat bits), by rw [PackCall.value, UInt32.toNat_ofNat_of_lt' h]⟩
  | double bits =>
      exact ⟨.double (UInt64.ofNat bits), by rw [PackCall.value, UInt64.toNat_ofNat_of_lt' h]⟩
  | str bs => exact ⟨.str ⟨bs, h⟩, rfl⟩
  | bin bs => exact ⟨.bin ⟨bs, h⟩, rfl⟩
  | array n =>
      exact ⟨.arraySize (UInt32.ofNat n), by rw [PackCall.value, UInt32.toNat_ofNat_of_lt' h]⟩
  | map n =>
      exact ⟨.mapSize (UInt32.ofNat n), by rw [PackCall.value, UInt32.toNat_ofNat_of_lt' h]⟩
  | ext type bs => exact ⟨.ext type ⟨bs, h⟩, rfl⟩
  | timestamp sec nsec =>
      obtain ⟨hlo, hhi, hn⟩ := h
      refine ⟨.time (Int64.ofInt sec) (UInt32.ofNat nsec), ?_⟩
      have hlt : nsec < UInt32.size := Nat.lt_trans hn (by decide)
      rw [PackCall.value, Int64.toInt_ofInt_of_le hlo hhi, UInt32.toNat_ofNat_of_lt' hlt]

/-- The seconds of a timestamp are a number of 64 bits. -/
theorem timestampValue_sec {payload : List UInt8} {sec : Int} {nsec : Nat}
    (hlen : payload.length = 4 ∨ payload.length = 8 ∨ payload.length = 12)
    (h : timestampValue payload = .timestamp sec nsec) : -2 ^ 63 ≤ sec ∧ sec < 2 ^ 63 := by
  have hbound := ofBigEndian_lt payload
  unfold timestampValue at h
  split at h
  · rename_i h4
    obtain ⟨rfl, -⟩ := Value.timestamp.inj h
    rw [h4] at hbound
    omega
  · split at h
    · obtain ⟨rfl, -⟩ := Value.timestamp.inj h
      omega
    · obtain ⟨rfl, -⟩ := Value.timestamp.inj h
      have hdrop : (payload.drop 4).length = 8 := by
        rw [List.length_drop]
        omega
      have hlt := ofBigEndian_lt (payload.drop 4)
      rw [hdrop] at hlt
      obtain ⟨hlo, hhi⟩ := twosComplement_bounds (w := 64) hlt
      omega

/-- What is read can be packed, unless it is a time with too many nanoseconds. -/
theorem encodable_of_readItem {b : List UInt8} {v : Value} {n : Nat} (h : readItem b = .ok (v, n))
    (hnsec : ∀ sec nsec, v = .timestamp sec nsec → nsec < 1000000000) : v.Encodable := by
  rcases readItem_cases h with hd | ⟨payload, hv, hlen, -, -⟩
  · exact encodable_of_item (item_of_decode hd).2
  · obtain ⟨sec, nsec, hvalue⟩ := timestampValue_is_timestamp payload
    have hn := hnsec sec nsec (hv.trans hvalue)
    obtain ⟨hlo, hhi⟩ := timestampValue_sec hlen hvalue
    rw [hv, hvalue]
    exact ⟨hlo, hhi, by omega⟩

/-! ## Packing it again -/

/-- The call writes `bs` on a context out of compatible mode that has room. -/
def PackCall.Writes (c : PackCall) (bs : List UInt8) : Prop :=
  ∀ {σ : Type} (H : PackHandlers σ) (s : PackState σ), s.pc.returnCode = cwpRcOk →
    s.pc.beCompatible = false → s.pc.current + bs.length ≤ s.pc.end_ →
    cwPack H c s = some ((s.setCurrent (s.pc.current + bs.length)).store s.pc.current bs)

/-- A read from `s` is OK, and `s'` holds an item that denotes `v`. -/
structure ReadsOk (s s' : UnpackState τ) (v : Value) : Prop where
  running : s.uc.returnCode = cwpRcOk
  inside : s.uc.current ≤ s.uc.end_
  next : cwUnpackNext none s = some s'
  ok : s'.uc.returnCode = cwpRcOk
  denotes : s'.Denotes v

/-- Some call packs `v`, and for a number that is both unsigned and signed two calls do; they all
write the same bytes.  These read as `v` to the last, and wherever `v` is read it takes no fewer
bytes. -/
def PacksShortest (v : Value) : Prop :=
  (∃ c : PackCall, c.value = v) ∧
  (∀ x : Int, v = .int x → 0 ≤ x → x < 2 ^ 63 →
    (∃ i, (PackCall.unsigned i).value = v) ∧ ∃ i, (PackCall.signed i).value = v) ∧
  ∃ bs : List UInt8, (∀ c : PackCall, c.value = v → c.Writes bs) ∧
    (∀ {τ : Type} (u : UnpackState τ), u.uc.returnCode = cwpRcOk → u.uc.current ≤ u.uc.end_ →
      u.ahead = bs → ∃ u', ReadsOk u u' v ∧ u'.uc.current = u.uc.end_) ∧
    ∀ {τ : Type} (u u' : UnpackState τ), ReadsOk u u' v →
      bs.length ≤ u'.uc.current - u.uc.current

/-- What a read delivers, on the list of the bytes ahead. -/
theorem ReadsOk.readItem {s s' : UnpackState τ} {v : Value} (h : ReadsOk s s' v) :
    ∃ n, Core.readItem s.ahead = .ok (v, n) ∧ s'.uc.current = s.uc.current + n := by
  obtain ⟨v', n, hread, hden, hinv⟩ := cwUnpackNext_ok h.running h.inside h.next h.ok
  obtain rfl : v = v' := Option.some.inj (h.denotes.2.symm.trans hden.2)
  refine ⟨n, hread, ?_⟩
  have hn : n ≤ s.ahead.length := by
    rcases readItem_cases hread with hd | ⟨-, -, -, -, hn⟩
    · exact (item_of_decode hd).1
    · exact hn
  have hlen : s.ahead.length = s.uc.end_ - s.uc.current := Memory.bytes_length _ _ _
  have hlength : s'.uc.current + (s.ahead.drop n).length = s.uc.end_ := hinv.length
  have hle := h.inside
  rw [List.length_drop] at hlength
  omega

/-- A call that packs a value that was read is not refused. -/
theorem PackCall.encoding_of_value {c : PackCall}
    (hnsec : ∀ sec nsec, c.value = .timestamp sec nsec → nsec < 1000000000) :
    c.encoding false = .ok (encode false c.value) := by
  have hnone : c.refusal false = none := by
    cases c with
    | time sec nsec =>
        have hn := hnsec _ _ rfl
        simp only [PackCall.refusal, Bool.false_eq_true, if_false, if_neg (Nat.not_le.mpr hn)]
    | _ => rfl
  simp only [PackCall.encoding, hnone]

/-- What was read is packed in the shortest of its forms. -/
theorem packs_shortest_of_read {s s' : UnpackState τ} {v : Value} (h : ReadsOk s s' v)
    (hwide : extType s.ahead = some (-1) →
      s.ahead.head? ≠ some 0xc8 ∧ s.ahead.head? ≠ some 0xc9)
    (hnsec : ∀ sec nsec, v = .timestamp sec nsec → nsec < 1000000000) : PacksShortest v := by
  obtain ⟨n, hread, -⟩ := h.readItem
  have hencodable := encodable_of_readItem hread hnsec
  obtain ⟨c, hc⟩ := exists_call hencodable
  have henc : ∀ d : PackCall, d.value = v → d.encoding false = .ok (encode false v) := by
    rintro d rfl
    exact PackCall.encoding_of_value hnsec
  have hext : ¬ c.IsTimestampExt := by
    cases c with
    | ext type w =>
        rintro rfl
        obtain rfl : Value.ext (-1) w.bytes = v := hc
        obtain ⟨htype, hhead⟩ := wide_of_readItem hread
        exact hhead.elim (hwide htype).1 (hwide htype).2
    | _ => exact id
  refine ⟨⟨c, hc⟩, ?_, encode false v, ?_, ?_, ?_⟩
  · rintro x rfl hlo hhi
    have hlt : x.toNat < UInt64.size := by
      show x.toNat < 2 ^ 64
      omega
    refine ⟨⟨UInt64.ofNat x.toNat, ?_⟩, ⟨Int64.ofInt x, ?_⟩⟩
    · rw [PackCall.value, UInt64.toNat_ofNat_of_lt' hlt, Int.toNat_of_nonneg hlo]
    · rw [PackCall.value, Int64.toInt_ofInt_of_le (by omega) hhi]
  · intro d hd σ H p hrc hcompat hroom
    have hspec := cwPack_spec H d hrc (by omega)
    rw [hcompat, henc d hd] at hspec
    exact hspec.trans (emit_of_le H hroom)
  · intro ρ u hrc hle hahead
    have hback := readItem_encoding (henc c hc) hext []
    have hvalue : c.received false = v := by
      rw [← hc]
      cases c <;> rfl
    rw [List.append_nil, hvalue] at hback
    obtain ⟨u', hcall, hdel⟩ := cwUnpackNext_static hrc hle
    rw [hahead, hback] at hdel
    obtain ⟨hok, hden, hinv⟩ := hdel
    have hlength : u'.uc.current + ((encode false v).drop (encode false v).length).length =
        u.uc.end_ := hinv.length
    rw [List.drop_length, List.length_nil] at hlength
    exact ⟨u', ⟨hrc, hle, hcall, hok, hden⟩, hlength⟩
  · intro ρ u u' hu
    obtain ⟨m, hm, hcur⟩ := hu.readItem
    have hle := encode_length_le_of_readItem hm
    omega

/-- The number 42, read from the three bytes of an `unsigned 16` item. -/
theorem packs_shortest_of_overlong : PacksShortest (.int 42) := by
  have hread : ReadsOk (staticContext [0xcd, 0x00, 0x2a])
      ((cwUnpackNext none (staticContext [0xcd, 0x00, 0x2a])).getD (staticContext []))
      (.int 42) := ⟨rfl, by decide, rfl, rfl, rfl, rfl⟩
  refine packs_shortest_of_read hread (fun h => ?_) fun sec nsec h => ?_
  · rw [staticContext_ahead] at h
    simp [extType, format] at h
  · simp at h

end CWPack.Core
