/-
  Core/Items.lean --- what the unpacking routines make of the bytes ahead.

  The routines read a buffer that handlers may refill while an item is being
  read.  The functions here say what the outcome is in terms of the bytes ahead
  alone, as one list: `readItem` for `cw_unpack_next`, `skipItems` for
  `cw_skip_items`, `lookItem` for `cw_look_ahead`.  They follow the format table,
  and say where the routines depart from the reference decoder: timestamps are
  decoded or rejected, and the skipping routine counts in 32 bits.
-/
import CWPack.Core.Unpack
import CWPack.MessagePack.Encode

set_option autoImplicit false

namespace CWPack.Core

open CWPack.Foundation
open CWPack.MessagePack

variable {σ : Type}

/-! ## The value of an item -/

/-- The type of the item that carries a value. -/
def itemType : Value → ItemType
  | .nil => .nil
  | .bool _ => .boolean
  | .int v => if 0 ≤ v then .positiveInteger else .negativeInteger
  | .float _ => .float
  | .double _ => .double
  | .str _ => .str
  | .bin _ => .bin
  | .array _ => .array
  | .map _ => .map
  | .ext type _ => .ext type
  | .timestamp _ _ => .timestamp

/-- The value a user reads from an item in a given memory. -/
def CwpackItem.value (item : CwpackItem) (m : Memory) : Option Value :=
  match item.type, item.as with
  | .nil, _ => some .nil
  | .boolean, .boolean b => some (.bool b)
  | .positiveInteger, as => some (.int as.front)
  | .negativeInteger, as => some (.int as.i64)
  | .float, .real bits => some (.float bits)
  | .double, as => some (.double as.front)
  | .str, .blob start length => some (.str (m.bytes start length))
  | .bin, .blob start length => some (.bin (m.bytes start length))
  | .array, .container size => some (.array size)
  | .map, .container size => some (.map size)
  | .ext type, .blob start length => some (.ext type (m.bytes start length))
  | .ext (-1), .time tvSec tvNsec => some (.timestamp tvSec tvNsec)
  | _, _ => none

/-- The item of the context denotes `v`. -/
def UnpackState.Denotes (s : UnpackState σ) (v : Value) : Prop :=
  s.uc.item.type = itemType v ∧ s.uc.item.value s.mem = some v

/-! ## Reading -/

/-- The outcome of `cw_unpack_next` that goes with an outcome of the decoder. -/
def ofDecoded : Decoded → Except Int (Value × Nat)
  | .item v n => .ok (v, n)
  | .empty => .error cwpRcEndOfInput
  | .malformed => .error cwpRcMalformedInput
  | .truncated => .error cwpRcBufferUnderflow

theorem ofDecoded_eq_ok {d : Decoded} {v : Value} {n : Nat} (h : ofDecoded d = .ok (v, n)) :
    d = .item v n := by
  cases d with
  | item x k =>
      obtain ⟨rfl, rfl⟩ : x = v ∧ k = n := by simpa [ofDecoded] using h
      rfl
  | _ => simp [ofDecoded] at h

/-- The time in the payload of a timestamp, which has 4, 8 or 12 bytes. -/
def timestampValue (payload : List UInt8) : Value :=
  if payload.length = 4 then .timestamp (ofBigEndian payload) 0
  else if payload.length = 8 then
    .timestamp ((ofBigEndian payload % 2 ^ 34 : Nat) : Int) (ofBigEndian payload / 2 ^ 34)
  else
    .timestamp (twosComplement 64 (ofBigEndian (payload.drop 4))) (ofBigEndian (payload.take 4))

/-- What follows the first byte of an item, and how long the item is. -/
def readRest (v : List UInt8) : Format → Except Int (Value × Nat)
  | .fixext n =>
      if v.length < n + 1 then .error cwpRcBufferUnderflow
      else
        let type := (v.headD 0).toInt8
        let payload := (v.drop 1).take n
        if type = -1 then
          if n = 4 ∨ n = 8 then .ok (timestampValue payload, 2 + n)
          else .error cwpRcWrongTimestampLength
        else .ok (.ext type payload, 2 + n)
  | .ext 1 =>
      if v.length < 2 then .error cwpRcBufferUnderflow
      else if ((v.drop 1).headD 0).toInt8 = -1 then
        if (v.headD 0).toNat = 12 then
          if v.length < 14 then .error cwpRcBufferUnderflow
          else .ok (timestampValue ((v.drop 2).take 12), 15)
        else .error cwpRcWrongTimestampLength
      else ofDecoded (decodeRest v (.ext 1))
  | f => ofDecoded (decodeRest v f)

/-- The first item, or the code `cw_unpack_next` stops with. -/
def readItem : List UInt8 → Except Int (Value × Nat)
  | [] => .error cwpRcEndOfInput
  | c :: v =>
      match format c with
      | none => .error cwpRcMalformedInput
      | some f => readRest v f

/-- The type of the extension item at the front, as far as its header is there. -/
def extType : List UInt8 → Option Int8
  | [] => none
  | c :: v =>
      match format c with
      | some (.fixext _) => v.head?.map UInt8.toInt8
      | some (.ext w) => (v.drop w).head?.map UInt8.toInt8
      | _ => none

/-! ## Skipping -/

/-- What is skipped behind a first byte: the length of the item, and how many items
its header adds to those to skip. -/
def skipRest (v : List UInt8) : Format → Except Int (Nat × Nat)
  | .single x => .ok (1, x.children)
  | .number w mk =>
      if v.length < w then .error cwpRcBufferUnderflow
      else .ok (1 + w, (mk (ofBigEndian (v.take w))).children % 2 ^ 32)
  | .fixed n _ => if v.length < n then .error cwpRcBufferUnderflow else .ok (1 + n, 0)
  | .blob w _ =>
      if v.length < w then .error cwpRcBufferUnderflow
      else
        let n := ofBigEndian (v.take w)
        if v.length < w + n then .error cwpRcBufferUnderflow else .ok (1 + w + n, 0)
  | .fixext n => if v.length < n + 1 then .error cwpRcBufferUnderflow else .ok (2 + n, 0)
  | .ext w =>
      if v.length < w then .error cwpRcBufferUnderflow
      else
        let n := (ofBigEndian (v.take w) + 1) % 2 ^ 32
        if v.length < w + n then .error cwpRcBufferUnderflow else .ok (1 + w + n, 0)

/-- One turn of the skipping loop. -/
def skipItem : List UInt8 → Except Int (Nat × Nat)
  | [] => .error cwpRcEndOfInput
  | c :: v =>
      match format c with
      | none => .error cwpRcMalformedInput
      | some f => skipRest v f

theorem skipRest_pos {v : List UInt8} {f : Format} {n k : Nat} (h : skipRest v f = .ok (n, k)) :
    0 < n := by
  cases f with
  | single x =>
      obtain ⟨rfl, rfl⟩ : 1 = n ∧ x.children = k := by simpa [skipRest] using h
      decide
  | _ =>
      simp only [skipRest] at h
      repeat' split at h
      all_goals first | (simp at h; done) | (simp only [Except.ok.injEq, Prod.mk.injEq] at h; omega)

/-- An item has at least one byte. -/
theorem skipItem_pos {b : List UInt8} {n k : Nat} (h : skipItem b = .ok (n, k)) :
    0 < n ∧ b ≠ [] := by
  cases b with
  | nil => simp [skipItem] at h
  | cons c v =>
      simp only [skipItem] at h
      split at h
      · simp at h
      · exact ⟨skipRest_pos h, by simp⟩

/-- The input left by the skipping loop, or the code it stops with. -/
def skipItems (itemCount : Int64) (b : List UInt8) : Except Int (List UInt8) :=
  if itemCount > 0 then
    match h : skipItem b with
    | .error e => .error e
    | .ok (n, k) => skipItems (itemCount - 1 + Int64.ofNat k) (b.drop n)
  else .ok b
termination_by b.length
decreasing_by
  obtain ⟨hn, hb⟩ := skipItem_pos h
  have hlen := List.length_pos_iff.mpr hb
  simp only [List.length_drop]
  omega

/-! ## Looking ahead -/

/-- The type that a header byte announces, where it does not depend on what follows. -/
def lookRest (c : UInt8) (v : List UInt8) : Format → Except Int ItemType
  | .single x => .ok (itemType x)
  | .number _ mk =>
      -- the signed formats are announced as negative, whatever the number
      if 0xd0 ≤ c.toNat ∧ c.toNat ≤ 0xd3 then .ok .negativeInteger else .ok (itemType (mk 0))
  | .fixed _ mk => .ok (itemType (mk []))
  | .blob _ mk => .ok (itemType (mk []))
  | .fixext _ => if v.length < 1 then .error cwpRcBufferUnderflow else .ok (.ext (v.headD 0).toInt8)
  | .ext w =>
      if v.length < w + 1 then .error cwpRcBufferUnderflow
      else .ok (.ext ((v.drop w).headD 0).toInt8)

/-- The result of `cw_look_ahead`, or the code it stops with. -/
def lookItem : List UInt8 → Except Int ItemType
  | [] => .error cwpRcEndOfInput
  | c :: v =>
      match format c with
      | none => .ok .notAnItem
      | some f => lookRest c v f

/-! ## Against the reference decoder -/

theorem readRest_ext_of_ne {w : Nat} (v : List UInt8) (hw : w ≠ 1) :
    readRest v (.ext w) = ofDecoded (decodeRest v (.ext w)) := by
  match w, hw with
  | 0, _ => rfl
  | _ + 2, _ => rfl

theorem drop_eq_cons {v : List UInt8} {w : Nat} (h : w < v.length) :
    v.drop w = (v.drop w).headD 0 :: v.drop (w + 1) := by
  rw [List.drop_eq_getElem_cons h, List.headD_cons]

/-- Once the type byte is there, an extension item lacks at most payload. -/
theorem ofDecoded_ext {v : List UInt8} {w : Nat} (h : w + 1 ≤ v.length) :
    ofDecoded (decodeRest v (.ext w)) =
      if v.length < w + 1 + ofBigEndian (v.take w) then .error cwpRcBufferUnderflow
      else .ok (.ext ((v.drop w).headD 0).toInt8 ((v.drop (w + 1)).take (ofBigEndian (v.take w))),
        1 + (w + 1) + ofBigEndian (v.take w)) := by
  have hlt : ¬ v.length < w := by omega
  have hrest : (v.drop (w + 1)).length = v.length - (w + 1) := List.length_drop
  rw [decodeRest, if_neg hlt, drop_eq_cons (by omega)]
  simp only [List.headD_cons]
  by_cases hshort : v.length < w + 1 + ofBigEndian (v.take w)
  · rw [if_pos (by omega), if_pos hshort]
    rfl
  · rw [if_neg (by omega), if_neg hshort]
    have hlen : 2 + w + ofBigEndian (v.take w) = 1 + (w + 1) + ofBigEndian (v.take w) := by omega
    rw [hlen]
    rfl

theorem ofDecoded_ext_short {v : List UInt8} {w : Nat} (h : v.length < w + 1) :
    ofDecoded (decodeRest v (.ext w)) = .error cwpRcBufferUnderflow := by
  have hdrop : v.drop w = [] := List.drop_eq_nil_of_le (by omega)
  by_cases hlt : v.length < w
  · simp only [decodeRest, if_pos hlt, ofDecoded]
  · simp only [decodeRest, if_neg hlt, hdrop, ofDecoded]

/-- The type byte of a header that is there. -/
theorem head_drop_eq {v : List UInt8} {w : Nat} (h : w < v.length) :
    (v.drop w).head? = some ((v.drop w).headD 0) := by
  cases hd : v.drop w with
  | nil =>
      have hlen := congrArg List.length hd
      simp only [List.length_drop, List.length_nil] at hlen
      omega
  | cons t bs => rfl

/-- Apart from timestamps, what is read is what the reference decoder reads. -/
theorem readItem_eq_decode {b : List UInt8} (h : extType b ≠ some (-1)) :
    readItem b = ofDecoded (decode b) := by
  cases b with
  | nil => rfl
  | cons c v =>
      simp only [readItem, decode]
      cases hf : format c with
      | none => rfl
      | some f =>
          simp only [extType, hf] at h
          cases f with
          | fixext n =>
              cases v with
              | nil => simp [readRest, decodeRest, ofDecoded]
              | cons t bs =>
                  have ht : t.toInt8 ≠ -1 := by simpa using h
                  simp only [readRest, decodeRest, List.length_cons, List.headD_cons,
                    List.drop_succ_cons, List.drop_zero, if_neg ht]
                  by_cases hlen : bs.length < n
                  · rw [if_pos (by omega), if_pos hlen]
                    rfl
                  · rw [if_neg (by omega), if_neg hlen]
                    rfl
          | ext w =>
              by_cases hw : w = 1
              · subst hw
                simp only [readRest]
                by_cases hlen : v.length < 2
                · have hdrop : v.drop 1 = [] := List.drop_eq_nil_of_le (by omega)
                  rw [if_pos hlen]
                  by_cases hone : v.length < 1
                  · simp only [decodeRest, if_pos hone, ofDecoded]
                  · simp only [decodeRest, if_neg hone, hdrop, ofDecoded]
                · have htype : ((v.drop 1).headD 0).toInt8 ≠ -1 := by
                    intro hminus
                    refine h ?_
                    show (v.drop 1).head?.map UInt8.toInt8 = some (-1)
                    rw [head_drop_eq (by omega), Option.map_some, hminus]
                  rw [if_neg hlen, if_neg htype]
              · exact readRest_ext_of_ne v hw
          | _ => rfl

/-- An item whose header announces an extension is an extension item. -/
theorem value_of_extType {b : List UInt8} {t : Int8} {v : Value} {n : Nat}
    (ht : extType b = some t) (h : decode b = .item v n) : ∃ payload, v = .ext t payload := by
  cases b with
  | nil => simp [extType] at ht
  | cons c w =>
      simp only [decode] at h
      cases hf : format c with
      | none => simp [hf] at h
      | some f =>
          simp only [extType, hf] at ht h
          cases f with
          | fixext k =>
              cases w with
              | nil => simp at ht
              | cons a bs =>
                  obtain rfl : a.toInt8 = t := by simpa using ht
                  simp only [decodeRest] at h
                  split at h
                  · simp at h
                  · obtain ⟨rfl, -⟩ : Value.ext a.toInt8 (bs.take k) = v ∧ 2 + k = n := by
                      simpa using h
                    exact ⟨_, rfl⟩
          | ext k =>
              simp only [decodeRest] at h
              split at h
              · simp at h
              · split at h
                · simp at h
                · rename_i a bs hdrop
                  obtain rfl : a.toInt8 = t := by simpa [hdrop] using ht
                  split at h
                  · simp at h
                  · simp only [Decoded.item.injEq] at h
                    exact ⟨_, h.1.symm⟩
          | _ => simp at ht

/-- What follows a complete item does not change the type in its header. -/
theorem extType_append {b : List UInt8} {v : Value} {n : Nat} (h : decode b = .item v n)
    (more : List UInt8) : extType (b ++ more) = extType b := by
  cases b with
  | nil => simp [decode] at h
  | cons c w =>
      simp only [decode] at h
      cases hf : format c with
      | none => simp [hf] at h
      | some f =>
          simp only [hf] at h
          cases f with
          | fixext k =>
              cases w with
              | nil => simp [decodeRest] at h
              | cons a bs => simp [extType, hf]
          | ext k =>
              simp only [decodeRest] at h
              split at h
              · simp at h
              · rename_i hlen
                split at h
                · simp at h
                · rename_i a bs hdrop
                  simp [extType, hf, List.drop_append_of_le_length (Nat.not_lt.mp hlen), hdrop]
          | _ => simp [extType, hf]

/-! ## What is read -/

/-- What an extension of the given type is read as: type -1 is that of timestamps. -/
inductive ReadsAs (type : Int8) : Value → Prop
  | ext (payload : List UInt8) : ReadsAs type (.ext type payload)
  | timestamp (payload : List UInt8) (htype : type = -1) : ReadsAs type (timestampValue payload)

/-- A header of format `f` and the bytes `v` behind it are read as a value, in `n` bytes. -/
inductive RestRead (v : List UInt8) : Format → Value → Nat → Prop
  | single (x : Value) : RestRead v (.single x) x 1
  | number (w : Nat) (mk : Nat → Value) (hlen : w ≤ v.length) :
      RestRead v (.number w mk) (mk (ofBigEndian (v.take w))) (1 + w)
  | fixed (n : Nat) (mk : List UInt8 → Value) (hlen : n ≤ v.length) :
      RestRead v (.fixed n mk) (mk (v.take n)) (1 + n)
  | blob (w : Nat) (mk : List UInt8 → Value) (hlen : w + ofBigEndian (v.take w) ≤ v.length) :
      RestRead v (.blob w mk) (mk ((v.drop w).take (ofBigEndian (v.take w))))
        (1 + w + ofBigEndian (v.take w))
  | fixext (n : Nat) {x : Value} (hlen : n + 1 ≤ v.length)
      (hread : ReadsAs (v.headD 0).toInt8 x) : RestRead v (.fixext n) x (2 + n)
  | ext (w : Nat) {x : Value} (hlen : w + 1 + ofBigEndian (v.take w) ≤ v.length)
      (hread : ReadsAs ((v.drop w).headD 0).toInt8 x) :
      RestRead v (.ext w) x (1 + (w + 1) + ofBigEndian (v.take w))

theorem RestRead.pos {v : List UInt8} {f : Format} {x : Value} {n : Nat} (h : RestRead v f x n) :
    0 < n := by
  cases h <;> omega

theorem restRead_ext_of_decodeRest {v : List UInt8} {w n : Nat} {x : Value}
    (h : ofDecoded (decodeRest v (.ext w)) = .ok (x, n)) : RestRead v (.ext w) x n := by
  by_cases hshort : v.length < w + 1
  · rw [ofDecoded_ext_short hshort] at h
    simp at h
  · rw [ofDecoded_ext (Nat.not_lt.mp hshort)] at h
    split at h
    · simp at h
    · rename_i hlen
      simp only [Except.ok.injEq, Prod.mk.injEq] at h
      obtain ⟨rfl, rfl⟩ := h
      exact .ext w (Nat.not_lt.mp hlen) (.ext _)

/-- Behind one length byte, the length of a timestamp is twelve. -/
theorem ofBigEndian_take_one {v : List UInt8} (h : 2 ≤ v.length) :
    ofBigEndian (v.take 1) = (v.headD 0).toNat := by
  cases v with
  | nil => simp at h
  | cons a bs => simp [ofBigEndian]

theorem restRead_of_readRest {v : List UInt8} {f : Format} {x : Value} {n : Nat}
    (h : readRest v f = .ok (x, n)) : RestRead v f x n := by
  cases f with
  | single y =>
      obtain ⟨rfl, rfl⟩ : y = x ∧ 1 = n := by simpa [readRest, decodeRest, ofDecoded] using h
      exact .single y
  | number w mk =>
      have hd := ofDecoded_eq_ok h
      simp only [decodeRest] at hd
      split at hd
      · simp at hd
      · rename_i hlen
        obtain ⟨rfl, rfl⟩ := Decoded.item.inj hd
        exact .number w mk (Nat.not_lt.mp hlen)
  | fixed k mk =>
      have hd := ofDecoded_eq_ok h
      simp only [decodeRest] at hd
      split at hd
      · simp at hd
      · rename_i hlen
        obtain ⟨rfl, rfl⟩ := Decoded.item.inj hd
        exact .fixed k mk (Nat.not_lt.mp hlen)
  | blob w mk =>
      have hd := ofDecoded_eq_ok h
      simp only [decodeRest] at hd
      repeat' split at hd
      · simp at hd
      · simp at hd
      · rename_i hlen
        obtain ⟨rfl, rfl⟩ := Decoded.item.inj hd
        exact .blob w mk (Nat.not_lt.mp hlen)
  | fixext k =>
      simp only [readRest] at h
      split at h
      · simp at h
      rename_i hlen
      split at h
      · rename_i htype
        split at h
        · simp only [Except.ok.injEq, Prod.mk.injEq] at h
          obtain ⟨rfl, rfl⟩ := h
          exact .fixext k (Nat.not_lt.mp hlen) (.timestamp _ htype)
        · simp at h
      · simp only [Except.ok.injEq, Prod.mk.injEq] at h
        obtain ⟨rfl, rfl⟩ := h
        exact .fixext k (Nat.not_lt.mp hlen) (.ext _)
  | ext w =>
      by_cases hw : w = 1
      · subst hw
        simp only [readRest] at h
        split at h
        · simp at h
        rename_i htwo
        split at h
        swap
        · exact restRead_ext_of_decodeRest h
        rename_i htype
        split at h
        swap
        · simp at h
        rename_i htwelve
        split at h
        · simp at h
        rename_i hfourteen
        -- a timestamp of twelve bytes is an extension item of twelve bytes
        have hone : ofBigEndian (v.take 1) = 12 := by
          rw [ofBigEndian_take_one (Nat.not_lt.mp htwo), htwelve]
        simp only [Except.ok.injEq, Prod.mk.injEq] at h
        obtain ⟨rfl, rfl⟩ := h
        have hread := RestRead.ext (v := v) 1 (by omega) (.timestamp ((v.drop 2).take 12) htype)
        rwa [hone] at hread
      · rw [readRest_ext_of_ne v hw] at h
        exact restRead_ext_of_decodeRest h

theorem readItem_eq_ok {b : List UInt8} {x : Value} {n : Nat} (h : readItem b = .ok (x, n)) :
    ∃ c v f, b = c :: v ∧ format c = some f ∧ RestRead v f x n := by
  cases b with
  | nil => simp [readItem] at h
  | cons c v =>
      simp only [readItem] at h
      cases hf : format c with
      | none => simp [hf] at h
      | some f =>
          rw [hf] at h
          exact ⟨c, v, f, rfl, hf, restRead_of_readRest h⟩

/-! ## What is not announced -/

/-- Looking ahead fails where there are no bytes, and where the type of an extension is missing. -/
inductive LookFails : List UInt8 → Int → Prop
  | empty : LookFails [] cwpRcEndOfInput
  | fixext {c : UInt8} {n : Nat} (hf : format c = some (.fixext n)) :
      LookFails [c] cwpRcBufferUnderflow
  | ext {c : UInt8} {v : List UInt8} {w : Nat} (hf : format c = some (.ext w))
      (hlen : v.length < w + 1) : LookFails (c :: v) cwpRcBufferUnderflow

theorem lookItem_eq_error {b : List UInt8} {e : Int} (h : lookItem b = .error e) :
    LookFails b e := by
  cases b with
  | nil =>
      obtain rfl := Except.error.inj h
      exact .empty
  | cons c v =>
      simp only [lookItem] at h
      cases hf : format c with
      | none => simp [hf] at h
      | some f =>
          simp only [hf] at h
          cases f with
          | fixext n =>
              simp only [lookRest] at h
              split at h
              · rename_i hlen
                obtain rfl := Except.error.inj h
                obtain rfl := List.length_eq_zero_iff.mp (Nat.lt_one_iff.mp hlen)
                exact .fixext hf
              · simp at h
          | ext w =>
              simp only [lookRest] at h
              split at h
              · rename_i hlen
                obtain rfl := Except.error.inj h
                exact .ext hf hlen
              · simp at h
          | number w mk =>
              simp only [lookRest] at h
              split at h
              all_goals simp at h
          | _ => simp [lookRest] at h

end CWPack.Core
