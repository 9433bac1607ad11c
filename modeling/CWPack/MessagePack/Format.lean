/-
  MessagePack/Format.lean --- the MessagePack item formats.

  `format` is the table of the format specification: what the first byte of an
  item announces about the bytes that follow it.  `Item` is the grammar the table
  spells: `Item bs v` holds when `bs` is exactly one item and `v` is its value.
  The item of an array or a map is its header alone.

  `decode` is the executable reader of the same table.  It is sound and complete
  for the grammar, which makes the grammar prefix-free, and its failures are
  characterized too: it reports `truncated` exactly on the nonempty proper
  prefixes of items.
-/
import CWPack.Foundation.BigEndian

set_option autoImplicit false

namespace CWPack.MessagePack

open CWPack.Foundation

/-! ## Values -/

/-- The value of one item.  Floating point numbers are their bit patterns. -/
inductive Value where
  | nil
  | bool (b : Bool)
  | int (v : Int)
  | float (bits : Nat)
  | double (bits : Nat)
  | str (bytes : List UInt8)
  | bin (bytes : List UInt8)
  | array (size : Nat)
  | map (size : Nat)
  | ext (type : Int8) (bytes : List UInt8)
  /-- an extension item of type -1, once its payload has been read as a time -/
  | timestamp (sec : Int) (nsec : Nat)
  deriving DecidableEq, Repr

/-- How many items follow the header of a container as its content. -/
def Value.children : Value → Nat
  | .array n => n
  | .map n => 2 * n
  | _ => 0

/-! ## The table -/

/-- What a first byte announces. -/
inductive Format where
  /-- the byte is the whole item -/
  | single (v : Value)
  /-- a big-endian number of `width` bytes -/
  | number (width : Nat) (mk : Nat → Value)
  /-- a payload whose length the first byte holds -/
  | fixed (len : Nat) (mk : List UInt8 → Value)
  /-- a length of `width` bytes, then the payload -/
  | blob (width : Nat) (mk : List UInt8 → Value)
  /-- a type byte, then a payload of fixed length -/
  | fixext (len : Nat)
  /-- a length of `width` bytes, a type byte, then the payload -/
  | ext (width : Nat)

/-- The format table; only `0xc1` is not used. -/
def format (c : UInt8) : Option Format :=
  if c.toNat < 0x80 then some (.single (.int c.toNat))
  else if c.toNat < 0x90 then some (.single (.map (c.toNat - 0x80)))
  else if c.toNat < 0xa0 then some (.single (.array (c.toNat - 0x90)))
  else if c.toNat < 0xc0 then some (.fixed (c.toNat - 0xa0) .str)
  else if 0xe0 ≤ c.toNat then some (.single (.int ((c.toNat : Int) - 256)))
  else match c.toNat with
    | 0xc0 => some (.single .nil)
    | 0xc2 => some (.single (.bool false))
    | 0xc3 => some (.single (.bool true))
    | 0xc4 => some (.blob 1 .bin)
    | 0xc5 => some (.blob 2 .bin)
    | 0xc6 => some (.blob 4 .bin)
    | 0xc7 => some (.ext 1)
    | 0xc8 => some (.ext 2)
    | 0xc9 => some (.ext 4)
    | 0xca => some (.number 4 .float)
    | 0xcb => some (.number 8 .double)
    | 0xcc => some (.number 1 fun n => .int n)
    | 0xcd => some (.number 2 fun n => .int n)
    | 0xce => some (.number 4 fun n => .int n)
    | 0xcf => some (.number 8 fun n => .int n)
    | 0xd0 => some (.number 1 fun n => .int (twosComplement 8 n))
    | 0xd1 => some (.number 2 fun n => .int (twosComplement 16 n))
    | 0xd2 => some (.number 4 fun n => .int (twosComplement 32 n))
    | 0xd3 => some (.number 8 fun n => .int (twosComplement 64 n))
    | 0xd4 => some (.fixext 1)
    | 0xd5 => some (.fixext 2)
    | 0xd6 => some (.fixext 4)
    | 0xd7 => some (.fixext 8)
    | 0xd8 => some (.fixext 16)
    | 0xd9 => some (.blob 1 .str)
    | 0xda => some (.blob 2 .str)
    | 0xdb => some (.blob 4 .str)
    | 0xdc => some (.number 2 .array)
    | 0xdd => some (.number 4 .array)
    | 0xde => some (.number 2 .map)
    | 0xdf => some (.number 4 .map)
    | _ => none

/-! ## Entries of the table -/

section Entries

variable {c : UInt8}

theorem format_positive (h : c.toNat < 0x80) : format c = some (.single (.int c.toNat)) := by
  simp only [format, if_pos h]

theorem format_map (hlo : 0x80 ≤ c.toNat) (hhi : c.toNat < 0x90) :
    format c = some (.single (.map (c.toNat - 0x80))) := by
  have h1 : ¬ c.toNat < 0x80 := by omega
  simp only [format, if_neg h1, if_pos hhi]

theorem format_array (hlo : 0x90 ≤ c.toNat) (hhi : c.toNat < 0xa0) :
    format c = some (.single (.array (c.toNat - 0x90))) := by
  have h1 : ¬ c.toNat < 0x80 := by omega
  have h2 : ¬ c.toNat < 0x90 := by omega
  simp only [format, if_neg h1, if_neg h2, if_pos hhi]

theorem format_str (hlo : 0xa0 ≤ c.toNat) (hhi : c.toNat < 0xc0) :
    format c = some (.fixed (c.toNat - 0xa0) .str) := by
  have h1 : ¬ c.toNat < 0x80 := by omega
  have h2 : ¬ c.toNat < 0x90 := by omega
  have h3 : ¬ c.toNat < 0xa0 := by omega
  simp only [format, if_neg h1, if_neg h2, if_neg h3, if_pos hhi]

theorem format_negative (hlo : 0xe0 ≤ c.toNat) :
    format c = some (.single (.int ((c.toNat : Int) - 256))) := by
  have h1 : ¬ c.toNat < 0x80 := by omega
  have h2 : ¬ c.toNat < 0x90 := by omega
  have h3 : ¬ c.toNat < 0xa0 := by omega
  have h4 : ¬ c.toNat < 0xc0 := by omega
  simp only [format, if_neg h1, if_neg h2, if_neg h3, if_neg h4, if_pos hlo]

/-- The entry of a byte is found by its number. -/
theorem format_of_toNat {n : Nat} {f : Option Format} (heq : c.toNat = n)
    (hf : format (UInt8.ofNat n) = f) : format c = f := by
  subst heq
  rwa [UInt8.ofNat_toNat] at hf

/-- The only byte of the last range without an entry. -/
theorem format_unused (h : c.toNat = 0xc1) : format c = none :=
  format_of_toNat h rfl

/-- A switch on the first byte tests five ranges, in this order.  What holds of each, with
its entry in the table, and of the switch on the bytes between them, holds of the whole. -/
theorem firstByte_ranges {α : Type} {P : α → Prop} {positive map array str negative other : α}
    (hpositive : c.toNat < 0x80 → format c = some (.single (.int c.toNat)) → P positive)
    (hmap : 0x80 ≤ c.toNat → c.toNat < 0x90 →
      format c = some (.single (.map (c.toNat - 0x80))) → P map)
    (harray : 0x90 ≤ c.toNat → c.toNat < 0xa0 →
      format c = some (.single (.array (c.toNat - 0x90))) → P array)
    (hstr : 0xa0 ≤ c.toNat → c.toNat < 0xc0 →
      format c = some (.fixed (c.toNat - 0xa0) .str) → P str)
    (hnegative : 0xe0 ≤ c.toNat →
      format c = some (.single (.int ((c.toNat : Int) - 256))) → P negative)
    (hother : 0xc0 ≤ c.toNat → c.toNat < 0xe0 → P other) :
    P (if c.toNat < 0x80 then positive else if c.toNat < 0x90 then map
      else if c.toNat < 0xa0 then array else if c.toNat < 0xc0 then str
      else if 0xe0 ≤ c.toNat then negative else other) := by
  split
  · next h => exact hpositive h (format_positive h)
  split
  · next hlo hhi => exact hmap (by omega) hhi (format_map (by omega) hhi)
  split
  · next hlo hhi => exact harray (by omega) hhi (format_array (by omega) hhi)
  split
  · next hlo hhi => exact hstr (by omega) hhi (format_str (by omega) hhi)
  split
  · next h => exact hnegative h (format_negative h)
  · exact hother (by omega) (by omega)

/-- Only headers of arrays and maps announce content. -/
theorem children_of_fixed {n : Nat} {mk : List UInt8 → Value} (h : format c = some (.fixed n mk))
    (bs : List UInt8) : (mk bs).children = 0 := by
  unfold format at h
  repeat' split at h
  all_goals simp only [Option.some.injEq, reduceCtorEq, Format.fixed.injEq] at h
  obtain ⟨-, rfl⟩ := h
  rfl

theorem children_of_blob {w : Nat} {mk : List UInt8 → Value} (h : format c = some (.blob w mk))
    (bs : List UInt8) : (mk bs).children = 0 := by
  unfold format at h
  repeat' split at h
  all_goals simp only [Option.some.injEq, reduceCtorEq, Format.blob.injEq] at h
  all_goals
    obtain ⟨-, rfl⟩ := h
    rfl

end Entries

/-! ## The grammar -/

/-- `Item bs v`: the bytes `bs` are exactly one item, and it denotes `v`. -/
inductive Item : List UInt8 → Value → Prop where
  | single {c : UInt8} {v : Value} (h : format c = some (.single v)) : Item [c] v
  | number {c : UInt8} {w : Nat} {mk : Nat → Value} {ns : List UInt8}
      (h : format c = some (.number w mk)) (hw : ns.length = w) :
      Item (c :: ns) (mk (ofBigEndian ns))
  | fixed {c : UInt8} {n : Nat} {mk : List UInt8 → Value} {bs : List UInt8}
      (h : format c = some (.fixed n mk)) (hn : bs.length = n) : Item (c :: bs) (mk bs)
  | blob {c : UInt8} {w : Nat} {mk : List UInt8 → Value} {ls bs : List UInt8}
      (h : format c = some (.blob w mk)) (hw : ls.length = w)
      (hn : bs.length = ofBigEndian ls) : Item (c :: (ls ++ bs)) (mk bs)
  | fixext {c t : UInt8} {n : Nat} {bs : List UInt8}
      (h : format c = some (.fixext n)) (hn : bs.length = n) :
      Item (c :: t :: bs) (.ext t.toInt8 bs)
  | ext {c t : UInt8} {w : Nat} {ls bs : List UInt8}
      (h : format c = some (.ext w)) (hw : ls.length = w)
      (hn : bs.length = ofBigEndian ls) : Item (c :: (ls ++ t :: bs)) (.ext t.toInt8 bs)

theorem Item.ne_nil {bs : List UInt8} {v : Value} (h : Item bs v) : bs ≠ [] := by
  cases h <;> simp

/-! ## The reference decoder -/

/-- What reading the first item of a byte string ends with. -/
inductive Decoded where
  /-- a complete item of `length` bytes -/
  | item (v : Value) (length : Nat)
  /-- there are no bytes at all -/
  | empty
  /-- the first byte is not the first byte of any item -/
  | malformed
  /-- the bytes end inside the item -/
  | truncated
  deriving DecidableEq, Repr

/-- Read the bytes that follow a first byte of the given format. -/
def decodeRest (v : List UInt8) : Format → Decoded
  | .single x => .item x 1
  | .number w mk => if v.length < w then .truncated else .item (mk (ofBigEndian (v.take w))) (1 + w)
  | .fixed n mk => if v.length < n then .truncated else .item (mk (v.take n)) (1 + n)
  | .blob w mk =>
      if v.length < w then .truncated
      else
        let n := ofBigEndian (v.take w)
        if v.length < w + n then .truncated
        else .item (mk ((v.drop w).take n)) (1 + w + n)
  | .fixext n =>
      match v with
      | [] => .truncated
      | t :: bs => if bs.length < n then .truncated else .item (.ext t.toInt8 (bs.take n)) (2 + n)
  | .ext w =>
      if v.length < w then .truncated
      else
        let n := ofBigEndian (v.take w)
        match v.drop w with
        | [] => .truncated
        | t :: bs =>
            if bs.length < n then .truncated else .item (.ext t.toInt8 (bs.take n)) (2 + w + n)

/-- Read the first item. -/
def decode : List UInt8 → Decoded
  | [] => .empty
  | c :: v =>
      match format c with
      | none => .malformed
      | some f => decodeRest v f

/-! ## Completeness -/

theorem decodeRest_number (ns rest : List UInt8) (mk : Nat → Value) :
    decodeRest (ns ++ rest) (.number ns.length mk) =
      .item (mk (ofBigEndian ns)) (1 + ns.length) := by
  have hlen : ¬ (ns ++ rest).length < ns.length := by simp
  simp only [decodeRest, hlen, if_false, List.take_left]

theorem decodeRest_fixed (bs rest : List UInt8) (mk : List UInt8 → Value) :
    decodeRest (bs ++ rest) (.fixed bs.length mk) = .item (mk bs) (1 + bs.length) := by
  have hlen : ¬ (bs ++ rest).length < bs.length := by simp
  simp only [decodeRest, hlen, if_false, List.take_left]

theorem decodeRest_blob {ls bs : List UInt8} (rest : List UInt8) (mk : List UInt8 → Value)
    (hn : bs.length = ofBigEndian ls) :
    decodeRest (ls ++ (bs ++ rest)) (.blob ls.length mk) =
      .item (mk bs) (1 + ls.length + bs.length) := by
  have hlen : ¬ (ls ++ (bs ++ rest)).length < ls.length := by simp
  have hall : ¬ (ls ++ (bs ++ rest)).length < ls.length + bs.length := by simp
  simp only [decodeRest, hlen, if_false, List.take_left, List.drop_left, ← hn, hall]

theorem decodeRest_fixext (t : UInt8) (bs rest : List UInt8) :
    decodeRest (t :: (bs ++ rest)) (.fixext bs.length) =
      .item (.ext t.toInt8 bs) (2 + bs.length) := by
  have hlen : ¬ (bs ++ rest).length < bs.length := by simp
  simp only [decodeRest, hlen, if_false, List.take_left]

theorem decodeRest_ext {ls bs : List UInt8} (t : UInt8) (rest : List UInt8)
    (hn : bs.length = ofBigEndian ls) :
    decodeRest (ls ++ t :: (bs ++ rest)) (.ext ls.length) =
      .item (.ext t.toInt8 bs) (2 + ls.length + bs.length) := by
  have hlen : ¬ (ls ++ t :: (bs ++ rest)).length < ls.length := by simp
  have hall : ¬ (bs ++ rest).length < bs.length := by simp
  simp only [decodeRest, hlen, if_false, List.take_left, List.drop_left, ← hn, hall]

/-- The decoder reads every item of the grammar, whatever follows it. -/
theorem decode_of_item {bs : List UInt8} {v : Value} (h : Item bs v) (rest : List UInt8) :
    decode (bs ++ rest) = .item v bs.length := by
  cases h with
  | single h => simp only [List.cons_append, decode, h, decodeRest, List.length_singleton]
  | @number c w mk ns h hw =>
      subst hw
      simp only [List.cons_append, decode, h, decodeRest_number, List.length_cons, Nat.add_comm]
  | @fixed c n mk bs h hn =>
      subst hn
      simp only [List.cons_append, decode, h, decodeRest_fixed, List.length_cons, Nat.add_comm]
  | @blob c w mk ls bs h hw hn =>
      subst hw
      simp only [List.cons_append, List.append_assoc, decode, h, decodeRest_blob rest mk hn,
        List.length_cons, List.length_append]
      congr 1
      omega
  | @fixext c t n bs h hn =>
      subst hn
      simp only [List.cons_append, decode, h, decodeRest_fixext, List.length_cons]
      congr 1
      omega
  | @ext c t w ls bs h hw hn =>
      subst hw
      simp only [List.cons_append, List.append_assoc, decode, h, decodeRest_ext t rest hn,
        List.length_cons, List.length_append]
      congr 1
      omega

/-- The grammar is prefix-free: equal up to a suffix, items are equal. -/
theorem Item.prefix_unique {b₁ b₂ r₁ r₂ : List UInt8} {v₁ v₂ : Value} (h₁ : Item b₁ v₁)
    (h₂ : Item b₂ v₂) (heq : b₁ ++ r₁ = b₂ ++ r₂) : b₁ = b₂ ∧ v₁ = v₂ := by
  have e₁ := decode_of_item h₁ r₁
  have e₂ := decode_of_item h₂ r₂
  rw [heq, e₂] at e₁
  obtain ⟨hv, hlen⟩ : v₂ = v₁ ∧ b₂.length = b₁.length := by simpa using e₁
  exact ⟨(List.append_inj heq hlen.symm).1, hv.symm⟩

/-! ## Soundness -/

/-- What the decoder reads is an item of the grammar. -/
theorem item_of_decode {b : List UInt8} {v : Value} {n : Nat} (h : decode b = .item v n) :
    n ≤ b.length ∧ Item (b.take n) v := by
  cases b with
  | nil => simp [decode] at h
  | cons c rest =>
      simp only [decode] at h
      split at h
      · simp at h
      · rename_i f hf
        cases f with
        | single x =>
            obtain ⟨rfl, rfl⟩ : x = v ∧ 1 = n := by simpa [decodeRest] using h
            exact ⟨by simp, by simpa using Item.single hf⟩
        | number w mk =>
            simp only [decodeRest] at h
            split at h
            · simp at h
            · rename_i hlen
              obtain ⟨rfl, rfl⟩ : mk (ofBigEndian (rest.take w)) = v ∧ 1 + w = n := by simpa using h
              refine ⟨by simp; omega, ?_⟩
              rw [Nat.add_comm, List.take_succ_cons]
              exact Item.number hf (by simp; omega)
        | fixed k mk =>
            simp only [decodeRest] at h
            split at h
            · simp at h
            · rename_i hlen
              obtain ⟨rfl, rfl⟩ : mk (rest.take k) = v ∧ 1 + k = n := by simpa using h
              refine ⟨by simp; omega, ?_⟩
              rw [Nat.add_comm, List.take_succ_cons]
              exact Item.fixed hf (by simp; omega)
        | blob w mk =>
            simp only [decodeRest] at h
            split at h
            · simp at h
            · split at h
              · simp at h
              · rename_i hw hlen
                obtain ⟨rfl, rfl⟩ : mk ((rest.drop w).take (ofBigEndian (rest.take w))) = v ∧
                    1 + w + ofBigEndian (rest.take w) = n := by simpa using h
                refine ⟨by simp; omega, ?_⟩
                rw [Nat.add_assoc, Nat.add_comm 1, List.take_succ_cons, List.take_add]
                exact Item.blob hf (by simp; omega) (by simp; omega)
        | fixext k =>
            cases rest with
            | nil => simp [decodeRest] at h
            | cons t bs =>
                simp only [decodeRest] at h
                split at h
                · simp at h
                · rename_i hlen
                  obtain ⟨rfl, rfl⟩ : Value.ext t.toInt8 (bs.take k) = v ∧ 2 + k = n := by
                    simpa using h
                  refine ⟨by simp; omega, ?_⟩
                  rw [Nat.add_comm, List.take_succ_cons, List.take_succ_cons]
                  exact Item.fixext hf (by simp; omega)
        | ext w =>
            simp only [decodeRest] at h
            split at h
            · simp at h
            · rename_i hw
              split at h
              · simp at h
              · rename_i t bs hdrop
                split at h
                · simp at h
                · rename_i hlen
                  obtain ⟨rfl, rfl⟩ :
                      Value.ext t.toInt8 (bs.take (ofBigEndian (rest.take w))) = v ∧
                        2 + w + ofBigEndian (rest.take w) = n := by simpa using h
                  have hrest : rest = rest.take w ++ t :: bs := by
                    rw [← hdrop, List.take_append_drop]
                  have hcount : 2 + w + ofBigEndian (rest.take w) =
                      (w + (ofBigEndian (rest.take w) + 1)) + 1 := by omega
                  have hlength := congrArg List.length hdrop
                  simp only [List.length_drop, List.length_cons] at hlength
                  refine ⟨by simp only [List.length_cons]; omega, ?_⟩
                  rw [hcount, List.take_succ_cons, List.take_add, hdrop, List.take_succ_cons]
                  exact Item.ext hf (by simp; omega) (by simp; omega)

/-- The decoder succeeds exactly on the byte strings that begin with an item. -/
theorem decode_eq_item_iff {b : List UInt8} {v : Value} {n : Nat} :
    decode b = .item v n ↔ n ≤ b.length ∧ Item (b.take n) v := by
  constructor
  · exact item_of_decode
  · rintro ⟨hn, hitem⟩
    have h := decode_of_item hitem (b.drop n)
    rw [List.take_append_drop, List.length_take, Nat.min_eq_left hn] at h
    exact h

/-! ## Failures -/

/-- Past its first byte an item is complete, truncated, and nothing else. -/
theorem decodeRest_cases (v : List UInt8) (f : Format) :
    (∃ x n, decodeRest v f = .item x n) ∨ decodeRest v f = .truncated := by
  cases f with
  | single x => exact Or.inl ⟨x, 1, rfl⟩
  | number w mk =>
      simp only [decodeRest]
      split
      · exact Or.inr rfl
      · exact Or.inl ⟨_, _, rfl⟩
  | fixed n mk =>
      simp only [decodeRest]
      split
      · exact Or.inr rfl
      · exact Or.inl ⟨_, _, rfl⟩
  | blob w mk =>
      simp only [decodeRest]
      split
      · exact Or.inr rfl
      · split
        · exact Or.inr rfl
        · exact Or.inl ⟨_, _, rfl⟩
  | fixext n =>
      simp only [decodeRest]
      split
      · exact Or.inr rfl
      · split
        · exact Or.inr rfl
        · exact Or.inl ⟨_, _, rfl⟩
  | ext w =>
      simp only [decodeRest]
      split
      · exact Or.inr rfl
      · split
        · exact Or.inr rfl
        · split
          · exact Or.inr rfl
          · exact Or.inl ⟨_, _, rfl⟩

theorem decode_eq_empty_iff {b : List UInt8} : decode b = .empty ↔ b = [] := by
  constructor
  · intro h
    cases b with
    | nil => rfl
    | cons c v =>
        simp only [decode] at h
        split at h
        · simp at h
        · rename_i f _
          rcases decodeRest_cases v f with ⟨x, n, hx⟩ | hx <;> simp [hx] at h
  · rintro rfl
    rfl

/-- The table has no entry for `0xc1`, and for nothing else. -/
theorem format_eq_none_iff (c : UInt8) : format c = none ↔ c = 0xc1 := by
  have htable : ∀ n : Fin 256, (format (UInt8.ofNat n.val)).isNone = decide (n.val = 0xc1) := by
    decide +kernel
  have hc := htable ⟨c.toNat, c.toNat_lt⟩
  rw [UInt8.ofNat_toNat] at hc
  have hiff : c = 0xc1 ↔ c.toNat = 0xc1 := UInt8.toNat_inj.symm
  rw [← Option.isNone_iff_eq_none, hc, decide_eq_true_iff, hiff]

theorem decode_eq_malformed_iff {b : List UInt8} :
    decode b = .malformed ↔ b.head? = some 0xc1 := by
  cases b with
  | nil => simp [decode]
  | cons c v =>
      rw [List.head?_cons, Option.some.injEq, ← format_eq_none_iff, decode]
      cases hf : format c with
      | none => simp
      | some f =>
          rcases decodeRest_cases v f with ⟨x, n, hx⟩ | hx <;> simp [hx]

/-- Bytes that lengthen `v` to `w` bytes. -/
def padding (w : Nat) (v : List UInt8) : List UInt8 := List.replicate (w - v.length) 0

theorem append_padding_length {w : Nat} {v : List UInt8} (h : v.length < w) :
    (v ++ padding w v).length = w := by
  simp only [padding, List.length_append, List.length_replicate]
  omega

theorem padding_ne_nil {w : Nat} {v : List UInt8} (h : v.length < w) : padding w v ≠ [] := by
  intro hnil
  have hlen := congrArg List.length hnil
  simp only [padding, List.length_replicate, List.length_nil] at hlen
  omega

/-- A truncated item can be completed. -/
theorem exists_completion {c : UInt8} {v : List UInt8} {f : Format} (hf : format c = some f)
    (h : decodeRest v f = .truncated) : ∃ t x, t ≠ [] ∧ Item (c :: (v ++ t)) x := by
  cases f with
  | single x => simp [decodeRest] at h
  | number w mk =>
      simp only [decodeRest] at h
      split at h
      · rename_i hlen
        exact ⟨padding w v, _, padding_ne_nil hlen, .number hf (append_padding_length hlen)⟩
      · simp at h
  | fixed n mk =>
      simp only [decodeRest] at h
      split at h
      · rename_i hlen
        exact ⟨padding n v, _, padding_ne_nil hlen, .fixed hf (append_padding_length hlen)⟩
      · simp at h
  | blob w mk =>
      simp only [decodeRest] at h
      split at h
      · rename_i hlen
        -- the length itself is cut: complete it, then append as many bytes as it says
        let ls := v ++ padding w v
        refine ⟨padding w v ++ List.replicate (ofBigEndian ls) 0,
          mk (List.replicate (ofBigEndian ls) 0), ?_, ?_⟩
        · simp [padding_ne_nil hlen]
        · rw [← List.append_assoc]
          exact .blob hf (append_padding_length hlen) List.length_replicate
      · split at h
        · rename_i hw hlen
          let bs := v.drop w
          have hshort : bs.length < ofBigEndian (v.take w) := by
            simp only [bs, List.length_drop]
            omega
          refine ⟨padding (ofBigEndian (v.take w)) bs,
            mk (bs ++ padding (ofBigEndian (v.take w)) bs), padding_ne_nil hshort, ?_⟩
          have hv : v = v.take w ++ bs := (List.take_append_drop w v).symm
          rw [hv, List.append_assoc, ← hv]
          exact .blob hf (by simp; omega) (append_padding_length hshort)
        · simp at h
  | fixext n =>
      simp only [decodeRest] at h
      split at h
      · exact ⟨0 :: List.replicate n 0, _, by simp, .fixext hf List.length_replicate⟩
      · rename_i t bs
        split at h
        · rename_i hlen
          exact ⟨padding n bs, _, padding_ne_nil hlen, .fixext hf (append_padding_length hlen)⟩
        · simp at h
  | ext w =>
      simp only [decodeRest] at h
      split at h
      · rename_i hlen
        let ls := v ++ padding w v
        refine ⟨padding w v ++ 0 :: List.replicate (ofBigEndian ls) 0,
          .ext (0 : UInt8).toInt8 (List.replicate (ofBigEndian ls) 0), ?_, ?_⟩
        · simp
        · rw [← List.append_assoc]
          exact .ext hf (append_padding_length hlen) List.length_replicate
      · rename_i hw
        have hv : v = v.take w ++ v.drop w := (List.take_append_drop w v).symm
        have htake : (v.take w).length = w := by simp; omega
        split at h
        · rename_i hdrop
          rw [hdrop, List.append_nil] at hv
          refine ⟨0 :: List.replicate (ofBigEndian (v.take w)) 0,
            .ext (0 : UInt8).toInt8 (List.replicate (ofBigEndian (v.take w)) 0), by simp, ?_⟩
          rw [hv, ← hv]
          exact .ext hf (by rw [hv]; exact htake) (by rw [← hv]; exact List.length_replicate)
        · rename_i t bs hdrop
          split at h
          · rename_i hlen
            refine ⟨padding (ofBigEndian (v.take w)) bs,
              .ext t.toInt8 (bs ++ padding (ofBigEndian (v.take w)) bs), padding_ne_nil hlen, ?_⟩
            rw [hdrop] at hv
            have hcons : v ++ padding (ofBigEndian (v.take w)) bs =
                v.take w ++ t :: (bs ++ padding (ofBigEndian (v.take w)) bs) := by
              rw [← List.cons_append, ← List.append_assoc, ← hv]
            rw [hcons]
            exact .ext hf htake (append_padding_length hlen)
          · simp at h

/-- `truncated` is reported exactly on the nonempty proper prefixes of items. -/
theorem decode_eq_truncated_iff {b : List UInt8} :
    decode b = .truncated ↔ b ≠ [] ∧ ∃ t x, t ≠ [] ∧ Item (b ++ t) x := by
  constructor
  · intro h
    cases b with
    | nil => simp [decode] at h
    | cons c v =>
        refine ⟨by simp, ?_⟩
        simp only [decode] at h
        split at h
        · simp at h
        · rename_i f hf
          exact exists_completion hf h
  · rintro ⟨hne, t, x, ht, hitem⟩
    cases hd : decode b with
    | truncated => rfl
    | empty => exact absurd (decode_eq_empty_iff.mp hd) hne
    | malformed =>
        -- the completion starts with the same byte, which does start an item
        have hfull := decode_of_item hitem []
        have hhead := decode_eq_malformed_iff.mp hd
        have hmal : decode (b ++ t) = .malformed := by
          rw [decode_eq_malformed_iff, List.head?_append, hhead]
          rfl
        rw [List.append_nil, hmal] at hfull
        simp at hfull
    | item y n =>
        obtain ⟨hn, hy⟩ := item_of_decode hd
        have heq : b.take n ++ (b.drop n ++ t) = (b ++ t) ++ [] := by
          rw [← List.append_assoc, List.take_append_drop, List.append_nil]
        have hlen := congrArg List.length (hy.prefix_unique hitem heq).1
        have htpos := List.length_pos_iff.mpr ht
        simp only [List.length_take, List.length_append] at hlen
        omega

/-- Bytes after a complete item do not change what is read. -/
theorem decode_append_of_item {b : List UInt8} {v : Value} {n : Nat} (h : decode b = .item v n)
    (rest : List UInt8) : decode (b ++ rest) = .item v n := by
  obtain ⟨hn, hitem⟩ := item_of_decode h
  have hfull := decode_of_item hitem (b.drop n ++ rest)
  rw [← List.append_assoc, List.take_append_drop, List.length_take, Nat.min_eq_left hn] at hfull
  exact hfull

end CWPack.MessagePack
