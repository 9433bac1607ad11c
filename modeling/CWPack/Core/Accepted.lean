/-
  Core/Accepted.lean --- the items `cw_unpack_next` accepts.

  What is accepted begins with an item of the grammar, and the context then holds
  that item's value: the time of a timestamp, and the value itself elsewhere.
-/
import CWPack.Core.Timestamps

set_option autoImplicit false

namespace CWPack.Core

open CWPack.Foundation
open CWPack.MessagePack

variable {σ : Type}

instance (bs payload : List UInt8) : Decidable (TimestampLayout bs payload) :=
  inferInstanceAs (Decidable (_ ∨ _))

/-- What is read where the bytes `bs` are an item of the grammar: the time of a timestamp, or
the value as it is. -/
def asRead (bs : List UInt8) : Value → Value
  | .ext type payload =>
      if type = -1 ∧ TimestampLayout bs payload then timestampValue payload
      else .ext type payload
  | v => v

section Items

variable {bs rest : List UInt8} {x : Value}

theorem asRead_of_ne (h : ∀ payload, x ≠ .ext (-1) payload) : asRead bs x = x := by
  cases x with
  | ext type payload =>
      refine if_neg fun hminus => ?_
      rw [hminus.1] at h
      exact h payload rfl
  | _ => rfl

theorem asRead_of_layout {payload : List UInt8} (h : TimestampLayout bs payload) :
    asRead bs (.ext (-1) payload) = timestampValue payload := if_pos ⟨rfl, h⟩

theorem asRead_of_not_layout {payload : List UInt8} (h : ¬ TimestampLayout bs payload) :
    asRead bs (.ext (-1) payload) = .ext (-1) payload := if_neg fun hminus => h hminus.2

/-- An item that is no extension of type -1 is read as it is. -/
theorem readItem_of_item_ne (hitem : Item bs x) (h : ∀ payload, x ≠ .ext (-1) payload)
    (rest : List UInt8) : readItem (bs ++ rest) = .ok (x, bs.length) := by
  have hdec := decode_of_item hitem rest
  have hext : extType (bs ++ rest) ≠ some (-1) := by
    intro hminus
    obtain ⟨payload, hpayload⟩ := value_of_extType hminus hdec
    exact h payload hpayload
  rw [readItem_eq_decode hext, hdec]
  rfl

/-- Where an item is read, its value is what is read. -/
theorem readItem_eq_asRead (hitem : Item bs x) {v : Value} {n : Nat}
    (h : readItem (bs ++ rest) = .ok (v, n)) : v = asRead bs x ∧ n = bs.length := by
  have hof : ∀ {y : Value}, readItem (bs ++ rest) = .ok (y, bs.length) → y = asRead bs x →
      v = asRead bs x ∧ n = bs.length := by
    intro y hread hy
    obtain ⟨rfl, rfl⟩ := Prod.mk.inj (Except.ok.inj (hread.symm.trans h))
    exact ⟨hy, rfl⟩
  by_cases hminus : ∃ payload, x = .ext (-1) payload
  · obtain ⟨payload, rfl⟩ := hminus
    by_cases hlayout : TimestampLayout bs payload
    · exact hof (readItem_of_layout hitem hlayout rest) (asRead_of_layout hlayout).symm
    · by_cases hwide : bs.head? = some 0xc8 ∨ bs.head? = some 0xc9
      · exact hof (readItem_of_wide hitem hwide rest) (asRead_of_not_layout hlayout).symm
      · obtain ⟨hnarrow, hnarrow'⟩ := not_or.mp hwide
        rw [readItem_of_rejected hitem hlayout hnarrow hnarrow' rest] at h
        simp at h
  · have hne : ∀ payload, x ≠ .ext (-1) payload := fun payload heq => hminus ⟨payload, heq⟩
    exact hof (readItem_of_item_ne hitem hne rest) (asRead_of_ne hne).symm

end Items

/-- The values a format makes, extension items left out, all have a property. -/
def MakesOnly (P : Value → Prop) : Format → Prop
  | .single v => P v
  | .number _ mk => ∀ n, P (mk n)
  | .fixed _ mk => ∀ bs, P (mk bs)
  | .blob _ mk => ∀ bs, P (mk bs)
  | _ => True

/-- No format makes a time. -/
theorem format_makes_no_timestamp {c : UInt8} {f : Format} (h : format c = some f) (sec : Int)
    (nsec : Nat) : MakesOnly (· ≠ .timestamp sec nsec) f := by
  unfold format at h
  repeat' split at h
  all_goals simp only [Option.some.injEq, reduceCtorEq] at h
  all_goals
    subst h
    simp [MakesOnly]

theorem ne_timestamp_of_item {bs : List UInt8} {x : Value} (h : Item bs x) (sec : Int)
    (nsec : Nat) : x ≠ .timestamp sec nsec := by
  cases h with
  | single hf => exact format_makes_no_timestamp hf sec nsec
  | number hf => exact format_makes_no_timestamp hf sec nsec _
  | fixed hf => exact format_makes_no_timestamp hf sec nsec _
  | blob hf => exact format_makes_no_timestamp hf sec nsec _
  | fixext => simp
  | ext => simp

/-- What is read is an item of the grammar. -/
theorem decode_of_readItem {b : List UInt8} {v : Value} {n : Nat} (h : readItem b = .ok (v, n)) :
    ∃ x, decode b = .item x n := by
  obtain ⟨c, w, f, rfl, hf, hread⟩ := readItem_eq_ok h
  simp only [decode, hf]
  cases hread with
  | single => exact ⟨v, rfl⟩
  | number k mk hk => exact ⟨_, if_neg (Nat.not_lt.mpr hk)⟩
  | fixed k mk hk => exact ⟨_, if_neg (Nat.not_lt.mpr hk)⟩
  | blob k mk hall =>
      simp only [decodeRest]
      rw [if_neg (by omega), if_neg (Nat.not_lt.mpr hall)]
      exact ⟨_, rfl⟩
  | fixext k hk _ =>
      cases w with
      | nil => simp at hk
      | cons t bs =>
          rw [List.length_cons] at hk
          exact ⟨.ext t.toInt8 (bs.take k), if_neg (by omega)⟩
  | ext k hall _ =>
      have hd := ofDecoded_ext (v := w) (w := k) (by omega)
      rw [if_neg (Nat.not_lt.mpr hall)] at hd
      exact ⟨_, ofDecoded_eq_ok hd⟩

/-! ## Accepted items -/

section Accepted

variable {s s' : UnpackState σ}

theorem setReturnCode_of_eq {rc : Int} (h : s.uc.returnCode = rc) : s.setReturnCode rc = s := by
  rw [← h]
  rfl

theorem denotes_nonneg {n : Int} (hn : 0 ≤ n) (h : s.Denotes (.int n)) :
    s.uc.item.type = .positiveInteger ∧ (s.uc.item.as.front : Int) = n := by
  obtain ⟨htype, hvalue⟩ := h
  rw [itemType, if_pos hn] at htype
  refine ⟨htype, ?_⟩
  rw [CwpackItem.value, htype] at hvalue
  simpa using hvalue

theorem denotes_negative {n : Int} (hn : n < 0) (h : s.Denotes (.int n)) :
    s.uc.item.type = .negativeInteger ∧ s.uc.item.as.i64 = n := by
  obtain ⟨htype, hvalue⟩ := h
  rw [itemType, if_neg (Int.not_le.mpr hn)] at htype
  refine ⟨htype, ?_⟩
  rw [CwpackItem.value, htype] at hvalue
  simpa using hvalue

theorem itemType_eq_str_iff {v : Value} : itemType v = .str ↔ ∃ bs, v = .str bs := by
  cases v with
  | str bs => exact ⟨fun _ => ⟨bs, rfl⟩, fun _ => rfl⟩
  | int n => by_cases hn : 0 ≤ n <;> simp [itemType, hn]
  | _ => simp [itemType]

/-- A type of its own, but for that of timestamps. -/
theorem itemType_eq_ext_iff {v : Value} {type : Int8} (htype : type ≠ -1) :
    itemType v = .ext type ↔ ∃ payload, v = .ext type payload := by
  cases v with
  | ext type' payload => simp [itemType]
  | timestamp sec nsec => simp [itemType, htype.symm]
  | int n => by_cases hn : 0 ≤ n <;> simp [itemType, hn]
  | _ => simp [itemType]

theorem denotes_array {n : Nat} (h : s.Denotes (.array n)) :
    s.uc.item.type = .array ∧ s.uc.item.as.front = n := by
  obtain ⟨htype, hvalue⟩ := h
  refine ⟨htype, ?_⟩
  rw [CwpackItem.value, htype] at hvalue
  cases has : s.uc.item.as <;> simp_all [itemType, ItemAs.front]

theorem denotes_map {n : Nat} (h : s.Denotes (.map n)) :
    s.uc.item.type = .map ∧ s.uc.item.as.front = n := by
  obtain ⟨htype, hvalue⟩ := h
  refine ⟨htype, ?_⟩
  rw [CwpackItem.value, htype] at hvalue
  cases has : s.uc.item.as <;> simp_all [itemType, ItemAs.front]

theorem denotes_boolean {b : Bool} (h : s.Denotes (.bool b)) :
    s.uc.item.type = .boolean ∧ s.uc.item.as.front = b.toNat := by
  obtain ⟨htype, hvalue⟩ := h
  refine ⟨htype, ?_⟩
  rw [CwpackItem.value, htype] at hvalue
  cases has : s.uc.item.as <;> simp_all [itemType, ItemAs.front]

theorem denotes_float {bits : Nat} (h : s.Denotes (.float bits)) :
    s.uc.item.type = .float ∧ s.uc.item.as.front = bits := by
  obtain ⟨htype, hvalue⟩ := h
  refine ⟨htype, ?_⟩
  rw [CwpackItem.value, htype] at hvalue
  cases has : s.uc.item.as <;> simp_all [itemType, ItemAs.front]

theorem denotes_double {bits : Nat} (h : s.Denotes (.double bits)) :
    s.uc.item.type = .double ∧ s.uc.item.as.front = bits := by
  obtain ⟨htype, hvalue⟩ := h
  refine ⟨htype, ?_⟩
  rw [CwpackItem.value, htype] at hvalue
  simpa [itemType] using hvalue

theorem bytes_of_denotes_str {bs : List UInt8} (h : s.Denotes (.str bs)) :
    s.uc.item.type = .str ∧ s.mem.bytes s.uc.item.as.front s.uc.item.as.back = bs := by
  obtain ⟨htype, hvalue⟩ := h
  refine ⟨htype, ?_⟩
  rw [CwpackItem.value, htype] at hvalue
  cases has : s.uc.item.as <;> simp_all [itemType, ItemAs.front, ItemAs.back]

theorem bytes_of_denotes_bin {bs : List UInt8} (h : s.Denotes (.bin bs)) :
    s.uc.item.type = .bin ∧ s.mem.bytes s.uc.item.as.front s.uc.item.as.back = bs := by
  obtain ⟨htype, hvalue⟩ := h
  refine ⟨htype, ?_⟩
  rw [CwpackItem.value, htype] at hvalue
  cases has : s.uc.item.as <;> simp_all [itemType, ItemAs.front, ItemAs.back]

/-- What `cw_unpack_next` accepts begins with an item. -/
theorem accepted_item (hrc : s.uc.returnCode = cwpRcOk) (hle : s.uc.current ≤ s.uc.end_)
    (hnext : cwUnpackNext none s = some s') (hok : s'.uc.returnCode = cwpRcOk) :
    ∃ bs x rest, Item bs x ∧ s.ahead = bs ++ rest := by
  obtain ⟨v, n, hread, -, -⟩ := cwUnpackNext_ok hrc hle hnext hok
  obtain ⟨x, hdec⟩ := decode_of_readItem hread
  obtain ⟨-, hitem⟩ := item_of_decode hdec
  exact ⟨_, x, s.ahead.drop n, hitem, (List.take_append_drop n _).symm⟩

theorem denotes_asRead (hrc : s.uc.returnCode = cwpRcOk) (hle : s.uc.current ≤ s.uc.end_)
    (hnext : cwUnpackNext none s = some s') (hok : s'.uc.returnCode = cwpRcOk)
    {bs rest : List UInt8} {x : Value} (hitem : Item bs x) (hahead : s.ahead = bs ++ rest) :
    s'.Denotes (asRead bs x) ∧ s'.uc.current = s.uc.current + bs.length := by
  obtain ⟨v, n, hread, hden, hinv⟩ := cwUnpackNext_ok hrc hle hnext hok
  rw [hahead] at hread
  obtain ⟨rfl, rfl⟩ := readItem_eq_asRead hitem hread
  have hlength : s'.uc.current + (s.ahead.drop bs.length).length = s.uc.end_ := hinv.length
  have hlen : s.ahead.length = s.uc.end_ - s.uc.current := Memory.bytes_length _ _ _
  have hsum := congrArg List.length hahead
  rw [List.length_append] at hsum
  rw [List.length_drop] at hlength
  exact ⟨hden, by omega⟩

/-- An item that is no extension of type -1 is accepted. -/
theorem cwUnpackNext_of_item (hrc : s.uc.returnCode = cwpRcOk) (hle : s.uc.current ≤ s.uc.end_)
    {bs rest : List UInt8} {x : Value} (hitem : Item bs x) (hne : ∀ payload, x ≠ .ext (-1) payload)
    (hahead : s.ahead = bs ++ rest) :
    ∃ s', cwUnpackNext none s = some s' ∧ s'.uc.returnCode = cwpRcOk ∧ s'.Denotes x ∧
      s'.uc.current = s.uc.current + bs.length := by
  obtain ⟨s', hcall, hdel⟩ := cwUnpackNext_static hrc hle
  rw [hahead, readItem_of_item_ne hitem hne] at hdel
  have hden := denotes_asRead hrc hle hcall hdel.1 hitem hahead
  rw [asRead_of_ne hne] at hden
  exact ⟨s', hcall, hdel.1, hden⟩

end Accepted

end CWPack.Core
