/-
  Core/LookAhead.lean --- looking ahead against reading.

  `cw_look_ahead` tells the type that `cw_unpack_next` then delivers, but for the
  signed formats: they are announced as negative whatever the number, and
  `cw_unpack_next` retags those that are not.  Looking ahead that does not fail
  changes nothing.
-/
import CWPack.Core.Timestamps

set_option autoImplicit false

namespace CWPack.Core

open CWPack.Foundation
open CWPack.MessagePack

variable {σ : Type}

/-! ## The table -/

section Table

variable {c : UInt8}

/-- One of the four signed formats. -/
def SignedHeader (c : UInt8) : Prop := 0xd0 ≤ c.toNat ∧ c.toNat ≤ 0xd3

instance (c : UInt8) : Decidable (SignedHeader c) := inferInstanceAs (Decidable (_ ∧ _))

/-- The signed formats hold a number of 1, 2, 4 or 8 bytes in two's complement. -/
theorem format_signed (h : SignedHeader c) :
    ∃ w, format c = some (.number w fun n => .int (twosComplement (8 * w) n)) := by
  obtain ⟨hlo, hhi⟩ := h
  have hcases : c.toNat = 0xd0 ∨ c.toNat = 0xd1 ∨ c.toNat = 0xd2 ∨ c.toNat = 0xd3 := by omega
  rcases hcases with h | h | h | h
  · exact ⟨1, format_of_toNat h rfl⟩
  · exact ⟨2, format_of_toNat h rfl⟩
  · exact ⟨4, format_of_toNat h rfl⟩
  · exact ⟨8, format_of_toNat h rfl⟩

/-- Every other number format makes values of one type. -/
theorem itemType_of_number {w : Nat} {mk : Nat → Value} (h : format c = some (.number w mk))
    (hsigned : ¬ SignedHeader c) (n : Nat) : itemType (mk 0) = itemType (mk n) := by
  unfold SignedHeader at hsigned
  unfold format at h
  repeat' split at h
  all_goals simp only [Option.some.injEq, reduceCtorEq, Format.number.injEq] at h
  all_goals
    obtain ⟨-, rfl⟩ := h
    first
    | rfl
    | omega

/-- Blobs of one format have one type. -/
theorem itemType_of_fixed {n : Nat} {mk : List UInt8 → Value}
    (h : format c = some (.fixed n mk)) (bs : List UInt8) : itemType (mk []) = itemType (mk bs) := by
  unfold format at h
  repeat' split at h
  all_goals simp only [Option.some.injEq, reduceCtorEq, Format.fixed.injEq] at h
  obtain ⟨-, rfl⟩ := h
  rfl

theorem itemType_of_blob {w : Nat} {mk : List UInt8 → Value}
    (h : format c = some (.blob w mk)) (bs : List UInt8) : itemType (mk []) = itemType (mk bs) := by
  unfold format at h
  repeat' split at h
  all_goals simp only [Option.some.injEq, reduceCtorEq, Format.blob.injEq] at h
  all_goals
    obtain ⟨-, rfl⟩ := h
    rfl

end Table

/-! ## Looking ahead and reading, on the bytes -/

theorem itemType_timestampValue (payload : List UInt8) :
    itemType (timestampValue payload) = .ext (-1) := by
  obtain ⟨sec, nsec, h⟩ := timestampValue_is_timestamp payload
  rw [h]
  rfl

theorem ReadsAs.itemType {type : Int8} {x : Value} (h : ReadsAs type x) :
    itemType x = .ext type := by
  cases h with
  | ext payload => rfl
  | timestamp payload htype => rw [itemType_timestampValue, htype]

/-- What is announced of an item that is read. -/
theorem lookItem_of_readItem {c : UInt8} {v : List UInt8} {x : Value} {n : Nat}
    (h : readItem (c :: v) = .ok (x, n)) :
    lookItem (c :: v) = .ok (if SignedHeader c then .negativeInteger else itemType x) := by
  obtain ⟨c, v, f, hb, hf, hread⟩ := readItem_eq_ok h
  obtain ⟨rfl, rfl⟩ := List.cons.inj hb
  simp only [lookItem]
  by_cases hsigned : SignedHeader c
  · obtain ⟨w, hnumber⟩ := format_signed hsigned
    rw [hnumber, if_pos hsigned]
    exact lookRest_signed hsigned.1 hsigned.2
  rw [hf, if_neg hsigned]
  cases hread with
  | single => rfl
  | number w mk _ =>
      have hnot : ¬ (0xd0 ≤ c.toNat ∧ c.toNat ≤ 0xd3) := hsigned
      simp only [lookRest]
      rw [if_neg hnot, itemType_of_number hf hsigned]
  | fixed k mk _ => exact congrArg Except.ok (itemType_of_fixed hf _)
  | blob w mk _ => exact congrArg Except.ok (itemType_of_blob hf _)
  | fixext k hlen hread => 
      simp only [lookRest]
      rw [if_neg (by omega), hread.itemType]
  | ext w hlen hread =>
      simp only [lookRest]
      rw [if_neg (by omega), hread.itemType]

/-! ## Looking ahead on a static buffer -/

/-- Without a handler, space is there or it is not. -/
theorem assertSpaceSub_static {ρ : Type} {code : Int} {more : UnpackContext → Nat}
    {abort : UnpackState σ → ρ} {s : UnpackState σ} {k : Nat → UnpackState σ → Option ρ} :
    cwUnpackAssertSpaceSub none code more abort s k =
      if s.uc.current + more s.uc > s.uc.end_ then unpackErrorSub code abort s
      else k s.uc.current (s.setCurrent (s.uc.current + more s.uc)) := rfl

/-- A look-ahead that leaves the code OK leaves everything. -/
def Unchanged (s : UnpackState σ) (r : Option (ItemType × UnpackState σ)) : Prop :=
  ∀ t u, r = some (t, u) → u.uc.returnCode = cwpRcOk → u = s

theorem unchanged_some (s : UnpackState σ) (t : ItemType) : Unchanged s (some (t, s)) := by
  intro t' u h _
  exact (Prod.mk.inj (Option.some.inj h)).2.symm

/-- Stepping over `n` bytes and back. -/
theorem unchanged_stepBack {s : UnpackState σ} {code : Int} {n : Nat}
    {k : Nat → UnpackState σ → Option (ItemType × UnpackState σ)} (hcode : code ≠ cwpRcOk)
    (hk : ∀ p u, ∃ t, k p u = some (t, u.setCurrent (u.uc.current - n))) :
    Unchanged s (cwUnpackAssertSpaceSub none code (fun _ => n) (ItemType.notAnItem, ·) s k) := by
  rw [assertSpaceSub_static]
  split
  · intro t u h hok
    obtain ⟨-, rfl⟩ := Prod.mk.inj (Option.some.inj h)
    exact absurd hok hcode
  · obtain ⟨t, ht⟩ := hk s.uc.current (s.setCurrent (s.uc.current + n))
    have hback : (s.setCurrent (s.uc.current + n)).setCurrent (s.uc.current + n - n) = s := by
      rw [Nat.add_sub_cancel]
      rfl
    rw [ht]
    show Unchanged s (some (t, (s.setCurrent (s.uc.current + n)).setCurrent
      (s.uc.current + n - n)))
    rw [hback]
    exact unchanged_some s t

theorem lookSwitch_unchanged (c : UInt8) (s : UnpackState σ) :
    Unchanged s (lookSwitch none c.toNat s) := by
  have hcode : cwpRcBufferUnderflow ≠ cwpRcOk := by decide
  unfold lookSwitch
  refine firstByte_ranges (P := Unchanged s) (fun _ _ => unchanged_some s _)
    (fun _ _ _ => unchanged_some s _) (fun _ _ _ => unchanged_some s _)
    (fun _ _ _ => unchanged_some s _) (fun _ _ => unchanged_some s _) fun _ _ => ?_
  split
  case h_7 =>
    refine unchanged_stepBack hcode fun p u => ?_
    by_cases h : ((u.mem (p + 2)).toNat : Int) = ItemType.timestamp.code
    · exact ⟨_, if_pos h⟩
    · exact ⟨_, if_neg h⟩
  case h_8 => exact unchanged_stepBack hcode fun p u => ⟨_, rfl⟩
  case h_9 => exact unchanged_stepBack hcode fun p u => ⟨_, rfl⟩
  case h_20 => exact unchanged_stepBack hcode fun p u => ⟨_, rfl⟩
  case h_21 => exact unchanged_stepBack hcode fun p u => ⟨_, rfl⟩
  case h_22 => exact unchanged_stepBack hcode fun p u => ⟨_, rfl⟩
  case h_23 => exact unchanged_stepBack hcode fun p u => ⟨_, rfl⟩
  case h_24 => exact unchanged_stepBack hcode fun p u => ⟨_, rfl⟩
  all_goals exact unchanged_some s _

/-- Looking ahead that does not fail changes no field. -/
theorem cwLookAhead_unchanged (s : UnpackState σ) : Unchanged s (cwLookAhead none s) := by
  have hcode : cwpRcEndOfInput ≠ cwpRcOk := by decide
  unfold cwLookAhead
  split
  · exact unchanged_some s _
  · rw [assertSpaceSub_static]
    split
    · intro t u h hok
      obtain ⟨-, rfl⟩ := Prod.mk.inj (Option.some.inj h)
      exact absurd hok hcode
    · have hback : (s.setCurrent (s.uc.current + 1)).setCurrent (s.uc.current + 1 - 1) = s := by
        rw [Nat.add_sub_cancel]
        rfl
      show Unchanged s (lookSwitch none _
        ((s.setCurrent (s.uc.current + 1)).setCurrent (s.uc.current + 1 - 1)))
      rw [hback]
      exact lookSwitch_unchanged _ s

/-- What looking ahead comes to on a static buffer. -/
theorem cwLookAhead_static {s : UnpackState σ} (hrc : s.uc.returnCode = cwpRcOk)
    (hle : s.uc.current ≤ s.uc.end_) :
    (∃ t, lookItem s.ahead = .ok t ∧ cwLookAhead none s = some (t, s)) ∨
      ∃ e u, lookItem s.ahead = .error e ∧ cwLookAhead none s = some (.notAnItem, u) ∧
        u.uc.returnCode = e ∧ e ≠ 0 := by
  obtain ⟨⟨t, u⟩, hcall, hlook⟩ := (cwLookAhead_spec (static_feeds s.input)
    (staticInput_ahead hle) hrc).exists_of_not_stuck
  cases hl : lookItem s.ahead with
  | ok t' =>
      rw [hl] at hlook
      obtain ⟨ht, hok, -⟩ := hlook
      obtain rfl : t = t' := ht
      obtain rfl := cwLookAhead_unchanged s t u hcall hok
      exact Or.inl ⟨t, rfl, hcall⟩
  | error e =>
      rw [hl] at hlook
      obtain ⟨ht, hstop⟩ := hlook
      obtain rfl : t = .notAnItem := ht
      exact Or.inr ⟨e, u, rfl, hcall, hstop.returnCode, lookItem_error hl⟩

/-! ## Looking ahead against reading -/

/-- The bytes begin with a number that is not negative, in a signed format. -/
def SignedNonnegative (b : List UInt8) : Prop :=
  ∃ (c : UInt8) (bs rest : List UInt8) (v : Int), SignedHeader c ∧ Item (c :: bs) (.int v) ∧
    0 ≤ v ∧ b = c :: bs ++ rest

/-- `cw_look_ahead` predicts the type that `cw_unpack_next` delivers exactly where the item
is no nonnegative number in a signed format. -/
theorem lookAhead_predicts_iff {s : UnpackState σ} (hrc : s.uc.returnCode = cwpRcOk)
    (hle : s.uc.current ≤ s.uc.end_) :
    (∀ s', cwUnpackNext none s = some s' → s'.uc.returnCode = cwpRcOk →
      ∃ u, cwLookAhead none s = some (s'.uc.item.type, u)) ↔ ¬ SignedNonnegative s.ahead := by
  obtain ⟨s', hcall, -⟩ := cwUnpackNext_static hrc hle
  constructor
  · rintro h ⟨c, bs, rest, v, hc, hitem, hv, hahead⟩
    -- such a number is read as a positive one and announced as a negative one
    have hdec := decode_of_item hitem rest
    have hext : extType (c :: bs ++ rest) ≠ some (-1) := by
      intro hext
      obtain ⟨payload, hpayload⟩ := value_of_extType hext hdec
      simp at hpayload
    have hread : readItem s.ahead = .ok (.int v, (c :: bs).length) := by
      rw [hahead, readItem_eq_decode hext, hdec]
      rfl
    have hlook := lookItem_of_readItem (c := c) (v := bs ++ rest) (by
      rw [← List.cons_append, ← hahead]
      exact hread)
    rw [← List.cons_append, ← hahead, if_pos hc] at hlook
    obtain ⟨s₁, hnext, hdel⟩ := cwUnpackNext_static hrc hle
    rw [hread] at hdel
    obtain ⟨hok, hden, -⟩ := hdel
    obtain ⟨u, hu⟩ := h s₁ hnext hok
    have htype : s₁.uc.item.type = .positiveInteger := by
      rw [hden.1, itemType, if_pos hv]
    rcases cwLookAhead_static hrc hle with ⟨t, ht, hcall'⟩ | ⟨e, -, he, -⟩
    · rw [hlook] at ht
      obtain rfl := Except.ok.inj ht
      rw [hcall'] at hu
      have heq := (Prod.mk.inj (Option.some.inj hu)).1
      rw [htype] at heq
      exact ItemType.noConfusion heq
    · rw [hlook] at he
      simp at he
  · intro hsigned s₁ hnext hok
    obtain ⟨v, n, hread, hden, -⟩ := cwUnpackNext_ok hrc hle hnext hok
    obtain ⟨c, w, hahead⟩ := List.exists_cons_of_ne_nil (readItem_pos hread).2
    have hlook := lookItem_of_readItem (c := c) (v := w) (by rw [← hahead]; exact hread)
    have htype : (if SignedHeader c then .negativeInteger else itemType v) = itemType v := by
      split
      · rename_i hc
        -- a signed format holds an integer, which is negative here
        obtain ⟨k, hf⟩ := format_signed hc
        have hdec : decode (c :: w) = .item v n := by
          rw [hahead] at hread
          simp only [readItem, hf] at hread
          simp only [decode, hf]
          exact ofDecoded_eq_ok hread
        obtain ⟨-, hitem⟩ := item_of_decode hdec
        have hv : ∃ x, v = .int x := by
          simp only [decode, hf, decodeRest] at hdec
          split at hdec
          · simp at hdec
          · simp only [Decoded.item.injEq] at hdec
            exact ⟨_, hdec.1.symm⟩
        obtain ⟨x, rfl⟩ := hv
        have hneg : ¬ 0 ≤ x := by
          intro hx
          obtain ⟨m, hm⟩ : ∃ m, n = m + 1 := Nat.exists_eq_succ_of_ne_zero
            (Nat.ne_of_gt (readItem_pos hread).1)
          subst hm
          refine hsigned ⟨c, w.take m, w.drop m, x, hc, hitem, hx, ?_⟩
          rw [hahead, List.cons_append, List.take_append_drop]
        rw [itemType, if_neg hneg]
      · rfl
    rw [← hahead, htype, ← hden.1] at hlook
    rcases cwLookAhead_static hrc hle with ⟨t, ht, hcall'⟩ | ⟨e, -, he, -⟩
    · rw [hlook] at ht
      obtain rfl := Except.ok.inj ht
      exact ⟨s, hcall'⟩
    · rw [hlook] at he
      simp at he

theorem lookAhead_predicts_negative :
    ∃ u, cwLookAhead none (staticContext [0xd0, 0xff]) = some (.negativeInteger, u) := by
  refine (lookAhead_predicts_iff (s := staticContext [0xd0, 0xff]) rfl (by decide)).mpr ?_ _ rfl rfl
  rintro ⟨c, bs, rest, v, hc, hitem, hv, hahead⟩
  rw [staticContext_ahead] at hahead
  have hdec := decode_of_item hitem rest
  rw [← hahead] at hdec
  have hv' : Decoded.item (.int (-1)) 2 = .item (.int v) (c :: bs).length := hdec
  obtain ⟨hv', -⟩ := Decoded.item.inj hv'
  obtain rfl := Value.int.inj hv'
  exact absurd hv (by decide)

/-- A signed format that holds 1 is announced as a negative number. -/
theorem lookAhead_mistakes_signed_one :
    (∃ s', cwUnpackNext none (staticContext [0xd0, 0x01]) = some s' ∧
      s'.uc.returnCode = cwpRcOk ∧ s'.uc.item.type = .positiveInteger) ∧
    (∃ u, cwLookAhead none (staticContext [0xd0, 0x01]) = some (.negativeInteger, u)) ∧
    ¬ ∀ s s' : UnpackState Unit, s.uc.returnCode = cwpRcOk → s.uc.current ≤ s.uc.end_ →
      cwUnpackNext none s = some s' → s'.uc.returnCode = cwpRcOk →
      ∃ u, cwLookAhead none s = some (s'.uc.item.type, u) := by
  refine ⟨⟨_, rfl, rfl, rfl⟩, ⟨_, rfl⟩, fun h => ?_⟩
  obtain ⟨u, hu⟩ := h (staticContext [0xd0, 0x01]) _ rfl (by decide) rfl rfl
  exact ItemType.noConfusion (Prod.mk.inj (Option.some.inj hu)).1

end CWPack.Core
