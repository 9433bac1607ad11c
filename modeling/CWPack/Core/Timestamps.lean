/-
  Core/Timestamps.lean --- extension items of type -1.

  The three layouts of a timestamp are `fixext 4`, `fixext 8`, and `ext 8` with
  twelve bytes.  `cw_unpack_next` decodes them, and rejects the other lengths of
  the `fixext` and `ext 8` headers.  The `ext 16` and `ext 32` headers do not look
  at the type: there an item of type -1 is delivered as a timestamp that holds a
  blob.
-/
import CWPack.Core.RoundTrip

set_option autoImplicit false

namespace CWPack.Core

open CWPack.Foundation
open CWPack.MessagePack

variable {σ : Type}

/-! ## Layouts -/

/-- An extension item in one of the three layouts of a timestamp. -/
def TimestampLayout (bs payload : List UInt8) : Prop :=
  bs.head? = some 0xd6 ∨ bs.head? = some 0xd7 ∨ (bs.head? = some 0xc7 ∧ payload.length = 12)

/-- `cw_unpack_next` has treated the item `bs` of type -1 as the format demands: it has
decoded the time of a timestamp, and has rejected everything else. -/
def TimestampDecoded (bs payload : List UInt8) (s : UnpackState σ) : Prop :=
  ∃ s', cwUnpackNext none s = some s' ∧
    (s'.uc.returnCode = cwpRcOk ↔ TimestampLayout bs payload) ∧
    (TimestampLayout bs payload → s'.uc.item.type = .timestamp ∧
      (∃ sec nsec, s'.uc.item.as = .time sec nsec ∧
        timestampValue payload = .timestamp sec nsec) ∧
      s'.uc.current = s.uc.current + bs.length) ∧
    (¬ TimestampLayout bs payload → s'.uc.returnCode = cwpRcWrongTimestampLength) ∧
    ¬ (s'.uc.returnCode = cwpRcOk ∧ s'.uc.item.type = .timestamp ∧
      ∃ start length, s'.uc.item.as = .blob start length)

/-! ## Headers -/

section Headers

variable {c : UInt8}

theorem eq_of_toNat {n : Nat} (h : c.toNat = n) (hn : n < 256) : c = UInt8.ofNat n :=
  UInt8.toNat_inj.mp (by rw [h, toNat_ofNat_of_lt hn])

/-- The five `fixext` headers. -/
theorem format_fixext_cases {n : Nat} (h : format c = some (.fixext n)) :
    (c = 0xd4 ∧ n = 1) ∨ (c = 0xd5 ∧ n = 2) ∨ (c = 0xd6 ∧ n = 4) ∨ (c = 0xd7 ∧ n = 8) ∨
      (c = 0xd8 ∧ n = 16) := by
  unfold format at h
  repeat' split at h
  all_goals simp only [Option.some.injEq, reduceCtorEq, Format.fixext.injEq] at h
  case h_20 heq => exact Or.inl ⟨eq_of_toNat heq (by decide), h.symm⟩
  case h_21 heq => exact Or.inr (Or.inl ⟨eq_of_toNat heq (by decide), h.symm⟩)
  case h_22 heq => exact Or.inr (Or.inr (Or.inl ⟨eq_of_toNat heq (by decide), h.symm⟩))
  case h_23 heq => exact Or.inr (Or.inr (Or.inr (Or.inl ⟨eq_of_toNat heq (by decide), h.symm⟩)))
  case h_24 heq => exact Or.inr (Or.inr (Or.inr (Or.inr ⟨eq_of_toNat heq (by decide), h.symm⟩)))

/-- The three headers with a length before the type. -/
theorem format_ext_cases {w : Nat} (h : format c = some (.ext w)) :
    (c = 0xc7 ∧ w = 1) ∨ (c = 0xc8 ∧ w = 2) ∨ (c = 0xc9 ∧ w = 4) := by
  unfold format at h
  repeat' split at h
  all_goals simp only [Option.some.injEq, reduceCtorEq, Format.ext.injEq] at h
  case h_7 heq => exact Or.inl ⟨eq_of_toNat heq (by decide), h.symm⟩
  case h_8 heq => exact Or.inr (Or.inl ⟨eq_of_toNat heq (by decide), h.symm⟩)
  case h_9 heq => exact Or.inr (Or.inr ⟨eq_of_toNat heq (by decide), h.symm⟩)

/-- The values a format makes of what follows the header are no extension items, unless the
header is that of one. -/
theorem ne_ext_of_format {f : Format} (h : format c = some f) (type : Int8)
    (payload : List UInt8) :
    match f with
    | .single v => v ≠ .ext type payload
    | .number _ mk => ∀ n, mk n ≠ .ext type payload
    | .fixed _ mk => ∀ bs, mk bs ≠ .ext type payload
    | .blob _ mk => ∀ bs, mk bs ≠ .ext type payload
    | _ => True := by
  unfold format at h
  repeat' split at h
  all_goals simp only [Option.some.injEq, reduceCtorEq] at h
  all_goals
    subst h
    simp

/-- An extension item has one of the two forms of the grammar. -/
theorem item_ext_cases {bs payload : List UInt8} {type : Int8}
    (h : Item bs (.ext type payload)) :
    (∃ (c t : UInt8) (n : Nat), format c = some (.fixext n) ∧ bs = c :: t :: payload ∧
      t.toInt8 = type ∧ payload.length = n) ∨
    ∃ (c t : UInt8) (w : Nat) (ls : List UInt8), format c = some (.ext w) ∧
      bs = c :: (ls ++ t :: payload) ∧ t.toInt8 = type ∧ ls.length = w ∧
      payload.length = ofBigEndian ls := by
  generalize hv : Value.ext type payload = v at h
  cases h with
  | single hf => exact absurd hv.symm (ne_ext_of_format hf type payload)
  | number hf => exact absurd hv.symm (ne_ext_of_format hf type payload _)
  | fixed hf => exact absurd hv.symm (ne_ext_of_format hf type payload _)
  | blob hf => exact absurd hv.symm (ne_ext_of_format hf type payload _)
  | fixext hf hn =>
      obtain ⟨rfl, rfl⟩ := Value.ext.inj hv
      exact Or.inl ⟨_, _, _, hf, rfl, rfl, hn⟩
  | ext hf hw hn =>
      obtain ⟨rfl, rfl⟩ := Value.ext.inj hv
      exact Or.inr ⟨_, _, _, _, hf, rfl, rfl, hw, hn⟩

end Headers

/-! ## Reading an item of type -1 -/

section Reading

variable {bs payload : List UInt8}

/-- In the three layouts the item is the encoding of its payload. -/
theorem eq_encodeExt_of_layout (hitem : Item bs (.ext (-1) payload))
    (h : TimestampLayout bs payload) :
    bs = encodeExt (-1) payload ∧
      (payload.length = 4 ∨ payload.length = 8 ∨ payload.length = 12) := by
  obtain ⟨c, t, n, hf, rfl, ht, hn⟩ | ⟨c, t, w, ls, hf, rfl, ht, hw, hn⟩ := item_ext_cases hitem
  · have hbyte : t = (-1 : Int8).toUInt8 := by rw [← ht, UInt8.toUInt8_toInt8]
    have hlen : (c = 0xd6 ∧ n = 4) ∨ (c = 0xd7 ∧ n = 8) := by
      rcases h with h | h | ⟨h, -⟩
      all_goals
        obtain rfl : c = _ := Option.some.inj h
        simpa using format_fixext_cases hf
    rcases hlen with ⟨rfl, rfl⟩ | ⟨rfl, rfl⟩
    · refine ⟨?_, Or.inl hn⟩
      simp only [encodeExt, hn, fixextHeader, hbyte]
    · refine ⟨?_, Or.inr (Or.inl hn)⟩
      simp only [encodeExt, hn, fixextHeader, hbyte]
  · have hbyte : t = (-1 : Int8).toUInt8 := by rw [← ht, UInt8.toUInt8_toInt8]
    have hlen : c = 0xc7 ∧ w = 1 ∧ payload.length = 12 := by
      rcases h with h | h | ⟨h, hlen⟩
      all_goals
        obtain rfl : c = _ := Option.some.inj h
        have hcases := format_ext_cases hf
        simp_all
    obtain ⟨rfl, rfl, hlen⟩ := hlen
    have hls : ls = [12] := by
      obtain ⟨l, rfl⟩ := List.length_eq_one_iff.mp hw
      have hl : l.toNat = 12 := by rw [← hlen, hn]; simp [ofBigEndian]
      rw [eq_of_toNat hl (by decide)]
      rfl
    refine ⟨?_, Or.inr (Or.inr hlen)⟩
    simp only [encodeExt, hlen, fixextHeader, hbyte, hls]
    rfl

/-- A timestamp is read as its time. -/
theorem readItem_of_layout (hitem : Item bs (.ext (-1) payload))
    (h : TimestampLayout bs payload) (rest : List UInt8) :
    readItem (bs ++ rest) = .ok (timestampValue payload, bs.length) := by
  obtain ⟨heq, hlen⟩ := eq_encodeExt_of_layout hitem h
  rw [heq]
  exact readItem_timestamp hlen rest

/-- The headers with two or four length bytes take any payload as it is. -/
theorem readItem_of_wide (hitem : Item bs (.ext (-1) payload))
    (h : bs.head? = some 0xc8 ∨ bs.head? = some 0xc9) (rest : List UInt8) :
    readItem (bs ++ rest) = .ok (.ext (-1) payload, bs.length) := by
  have hdec := decode_of_item hitem rest
  have hwide : ∀ {c : UInt8} {w : Nat} (v : List UInt8), format c = some (.ext w) → w ≠ 1 →
      readItem (c :: v) = ofDecoded (decode (c :: v)) := by
    intro c w v hf hw
    simp only [readItem, decode, hf]
    exact readRest_ext_of_ne v hw
  cases bs with
  | nil => simp at h
  | cons c v =>
      rw [List.cons_append] at hdec ⊢
      rcases h with h | h
      all_goals
        obtain rfl := Option.some.inj h
        rw [hwide (v ++ rest) rfl (by decide), hdec]
        rfl

/-- The other headers reject the lengths that no timestamp has. -/
theorem readItem_of_rejected (hitem : Item bs (.ext (-1) payload))
    (hlayout : ¬ TimestampLayout bs payload) (hnarrow : bs.head? ≠ some 0xc8)
    (hnarrow' : bs.head? ≠ some 0xc9) (rest : List UInt8) :
    readItem (bs ++ rest) = .error cwpRcWrongTimestampLength := by
  obtain ⟨c, t, n, hf, rfl, ht, hn⟩ | ⟨c, t, w, ls, hf, rfl, ht, hw, hn⟩ := item_ext_cases hitem
  · have hlong : ¬ (t :: (payload ++ rest)).length < n + 1 := by
      simp only [List.length_cons, List.length_append]
      omega
    have hlen : ¬ (n = 4 ∨ n = 8) := by
      intro h
      obtain ⟨hc, h1⟩ | ⟨hc, h1⟩ | ⟨hc, h1⟩ | ⟨hc, h1⟩ | ⟨hc, h1⟩ := format_fixext_cases hf
      · omega
      · omega
      · exact hlayout (Or.inl (congrArg some hc))
      · exact hlayout (Or.inr (Or.inl (congrArg some hc)))
      · omega
    simp only [List.cons_append, readItem, hf, readRest, if_neg hlong, List.headD_cons, ht,
      if_true, if_neg hlen]
  · obtain ⟨rfl, rfl⟩ | ⟨rfl, rfl⟩ | ⟨rfl, rfl⟩ := format_ext_cases hf
    · obtain ⟨l, rfl⟩ := List.length_eq_one_iff.mp hw
      have hl : l.toNat = payload.length := by rw [hn]; simp [ofBigEndian]
      have htwelve : ¬ l.toNat = 12 := by
        intro h12
        exact hlayout (Or.inr (Or.inr ⟨rfl, by omega⟩))
      have hlong : ¬ (l :: t :: (payload ++ rest)).length < 2 := by simp
      simp only [List.cons_append, List.nil_append, readItem, hf, readRest, if_neg hlong,
        List.drop_succ_cons, List.drop_zero, List.headD_cons, ht, if_true, if_neg htwelve]
    · exact absurd rfl hnarrow
    · exact absurd rfl hnarrow'

theorem timestampValue_is_timestamp (payload : List UInt8) :
    ∃ sec nsec, timestampValue payload = .timestamp sec nsec := by
  unfold timestampValue
  repeat' split
  all_goals exact ⟨_, _, rfl⟩

end Reading

/-- What the union holds in an item that denotes a time or an extension. -/
theorem as_of_value_ext {type : Int8} {as : ItemAs} {m : Memory} {v : Value}
    (h : CwpackItem.value ⟨.ext type, as⟩ m = some v) :
    (∃ start length, as = .blob start length ∧ v = .ext type (m.bytes start length)) ∨
      ∃ sec nsec, as = .time sec nsec ∧ v = .timestamp sec nsec := by
  cases as with
  | blob start length => exact Or.inl ⟨start, length, rfl, (Option.some.inj h).symm⟩
  | time sec nsec =>
      have hv : v = .timestamp sec nsec := by
        unfold CwpackItem.value at h
        split at h
        all_goals simp_all
      exact Or.inr ⟨sec, nsec, rfl, hv⟩
  | _ =>
      unfold CwpackItem.value at h
      split at h
      all_goals simp_all

theorem as_of_denotes_timestamp {s : UnpackState σ} {sec : Int} {nsec : Nat}
    (h : s.Denotes (.timestamp sec nsec)) : s.uc.item.as = .time sec nsec := by
  have htype : s.uc.item.type = .ext (-1) := h.1
  have hvalue : CwpackItem.value ⟨.ext (-1), s.uc.item.as⟩ s.mem = some (.timestamp sec nsec) := by
    rw [← htype]
    exact h.2
  obtain ⟨start, length, -, hv⟩ | ⟨sec', nsec', has, hv⟩ := as_of_value_ext hvalue
  · simp at hv
  · obtain ⟨rfl, rfl⟩ : sec = sec' ∧ nsec = nsec' := by simpa using hv
    exact has

theorem as_of_denotes_ext {s : UnpackState σ} {type : Int8} {payload : List UInt8}
    (h : s.Denotes (.ext type payload)) : ∃ start length, s.uc.item.as = .blob start length := by
  have htype : s.uc.item.type = .ext type := h.1
  have hvalue : CwpackItem.value ⟨.ext type, s.uc.item.as⟩ s.mem = some (.ext type payload) := by
    rw [← htype]
    exact h.2
  obtain ⟨start, length, has, -⟩ | ⟨sec, nsec, -, hv⟩ := as_of_value_ext hvalue
  · exact ⟨start, length, has⟩
  · simp at hv

/-! ## The decoder -/

/-- An item of type -1 is treated as the format demands exactly where its header is not that
of an `ext 16` or an `ext 32` item. -/
theorem timestamp_decoded_iff {s : UnpackState σ} (hrc : s.uc.returnCode = cwpRcOk)
    (hle : s.uc.current ≤ s.uc.end_) {bs payload rest : List UInt8}
    (hitem : Item bs (.ext (-1) payload)) (hahead : s.ahead = bs ++ rest) :
    TimestampDecoded bs payload s ↔ bs.head? ≠ some 0xc8 ∧ bs.head? ≠ some 0xc9 := by
  obtain ⟨s', hcall, hdel⟩ := cwUnpackNext_static hrc hle
  have hlength : ∀ {r : List UInt8}, StaticInput s.input r s'.input →
      s'.uc.current + r.length = s.uc.end_ := fun h => h.length
  have hlen : s.ahead.length = s.uc.end_ - s.uc.current := Memory.bytes_length _ _ _
  have hsum := congrArg List.length hahead
  rw [List.length_append] at hsum
  constructor
  · rintro ⟨t, ht, -, -, -, hconfused⟩
    obtain rfl : s' = t := Option.some.inj (hcall.symm.trans ht)
    refine not_or.mp fun hwide => hconfused ?_
    rw [hahead, readItem_of_wide hitem hwide rest] at hdel
    exact ⟨hdel.1, hdel.2.1.1, as_of_denotes_ext hdel.2.1⟩
  · rintro ⟨hnarrow, hnarrow'⟩
    by_cases hlayout : TimestampLayout bs payload
    · rw [hahead, readItem_of_layout hitem hlayout rest] at hdel
      obtain ⟨hok, hden, hinv⟩ := hdel
      obtain ⟨sec, nsec, hvalue⟩ := timestampValue_is_timestamp payload
      rw [hvalue] at hden
      have has := as_of_denotes_timestamp hden
      have hcur := hlength hinv
      rw [List.drop_left] at hcur
      refine ⟨s', hcall, iff_of_true hok hlayout,
        fun _ => ⟨hden.1, ⟨sec, nsec, has, hvalue⟩, by omega⟩, fun h => absurd hlayout h, ?_⟩
      rintro ⟨-, -, start, length, hblob⟩
      rw [has] at hblob
      simp at hblob
    · rw [hahead, readItem_of_rejected hitem hlayout hnarrow hnarrow' rest] at hdel
      have hne : s'.uc.returnCode ≠ cwpRcOk := by
        rw [hdel.returnCode]
        decide
      exact ⟨s', hcall, iff_of_false hne hlayout, fun h => absurd h hlayout,
        fun _ => hdel.returnCode, fun h => hne h.1⟩

theorem timestamp_decoded_fixext4 :
    TimestampDecoded [0xd6, 0xff, 0, 0, 0, 1] [0, 0, 0, 1]
      (staticContext [0xd6, 0xff, 0, 0, 0, 1]) := by
  have hahead : (staticContext [0xd6, 0xff, 0, 0, 0, 1]).ahead = [0xd6, 0xff, 0, 0, 0, 1] ++ [] :=
    staticContext_ahead _
  exact (timestamp_decoded_iff rfl (by decide)
    (.fixext (n := 4) rfl rfl) hahead).mpr (by decide)

/-- An `ext 16` item of type -1 with four bytes is delivered as a timestamp that holds a blob. -/
theorem wide_ext_delivers_blob_as_timestamp :
    (∃ s', cwUnpackNext none (staticContext [0xc8, 0, 4, 0xff, 0, 0, 0, 0]) = some s' ∧
      s'.uc.returnCode = cwpRcOk ∧ s'.uc.item = ⟨.timestamp, .blob 4 4⟩) ∧
    ¬ ∀ (bs payload rest : List UInt8) (s : UnpackState Unit), s.uc.returnCode = cwpRcOk →
      s.uc.current ≤ s.uc.end_ → Item bs (.ext (-1) payload) → s.ahead = bs ++ rest →
      TimestampDecoded bs payload s := by
  refine ⟨⟨_, rfl, rfl, rfl⟩, fun h => ?_⟩
  have hitem : Item [0xc8, 0, 4, 0xff, 0, 0, 0, 0] (.ext (-1) [0, 0, 0, 0]) :=
    @Item.ext 0xc8 0xff 2 [0, 4] [0, 0, 0, 0] rfl rfl rfl
  obtain ⟨s', hcall, -, -, -, hconfused⟩ := h _ _ [] (staticContext [0xc8, 0, 4, 0xff, 0, 0, 0, 0])
    rfl (by decide) hitem (by rw [staticContext_ahead, List.append_nil])
  obtain rfl := Option.some.inj hcall
  exact hconfused ⟨rfl, rfl, 4, 4, rfl⟩

end CWPack.Core
