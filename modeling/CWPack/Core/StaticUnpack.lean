/-
  Core/StaticUnpack.lean --- unpacking a static buffer.

  Without a handler the bytes ahead are the bytes between the cursor and the end
  of the buffer.  `cw_unpack_next` accepts them exactly when they begin with an
  item of the grammar, and tells the other cases apart by its return code.

  `Traverses n` is the recursive reading of `n` complete items, each container
  followed by its content.  `cw_skip_items` replaces the recursion by one counter
  of pending items; the two end in the same place.
-/
import CWPack.Core.Reader
import CWPack.Foundation.Nesting

set_option autoImplicit false

namespace CWPack.Core

open CWPack.Foundation
open CWPack.MessagePack

variable {σ : Type}

/-! ## The input of a static buffer -/

/-- The bytes between the cursor and the end of the buffer. -/
def UnpackState.ahead (s : UnpackState σ) : List UInt8 :=
  s.mem.bytes s.uc.current (s.uc.end_ - s.uc.current)

/-- The buffer of `x` is that of `x₀`, with the cursor inside. -/
structure StaticStopped (x₀ x : UnpackInput σ) : Prop where
  mem : x.mem = x₀.mem
  env : x.env = x₀.env
  start : x.start = x₀.start
  end_ : x.end_ = x₀.end_
  current : x.current ≤ x₀.end_

/-- The buffer of `x` is that of `x₀`, and `rest` is ahead. -/
structure StaticInput (x₀ : UnpackInput σ) (rest : List UInt8) (x : UnpackInput σ) : Prop extends
    StaticStopped x₀ x where
  length : x.current + rest.length = x₀.end_
  bytes : x₀.mem.bytes x.current rest.length = rest

/-- A context without a handler is fed by its buffer. -/
theorem static_feeds (x₀ : UnpackInput σ) :
    Feeds none False (StaticInput x₀) (StaticStopped x₀) where
  window := by
    intro rest x h
    refine ⟨by rw [h.end_]; exact h.current, ?_⟩
    have hlen : x.end_ - x.current = rest.length := by
      have hlength := h.length
      rw [h.end_]
      omega
    refine ⟨[], ?_⟩
    rw [List.append_nil, h.mem, hlen, h.bytes]
  advance := by
    intro rest x n h hn
    have hlength := h.length
    have hend := h.end_
    have hdrop : (rest.drop n).length = rest.length - n := List.length_drop
    refine ⟨⟨h.mem, h.env, h.start, h.end_, ?_⟩, ?_, ?_⟩
    · show x.current + n ≤ x₀.end_
      omega
    · show x.current + n + (rest.drop n).length = x₀.end_
      omega
    · show x₀.mem.bytes (x.current + n) (rest.drop n).length = rest.drop n
      rw [hdrop, ← Memory.bytes_drop _ (by omega), h.bytes]
  stops := fun h => h.toStaticStopped
  refill := by
    intro rest s more h hgt _
    have hlength := h.length
    have hend := h.end_
    have hcur : s.input.current = s.uc.current := rfl
    have hend' : s.input.end_ = s.uc.end_ := rfl
    exact ⟨by omega, h.toStaticStopped⟩

theorem staticInput_ahead {s : UnpackState σ} (hle : s.uc.current ≤ s.uc.end_) :
    StaticInput s.input s.ahead s.input := by
  have hlen : s.ahead.length = s.uc.end_ - s.uc.current := Memory.bytes_length _ _ _
  refine ⟨⟨rfl, rfl, rfl, rfl, hle⟩, ?_, ?_⟩
  · rw [hlen]
    show s.uc.current + (s.uc.end_ - s.uc.current) = s.uc.end_
    omega
  · rw [hlen]
    rfl

/-- The cursor stays in the buffer. -/
theorem StaticInput.current_le {x₀ : UnpackInput σ} {rest : List UInt8} {s : UnpackState σ}
    (h : StaticInput x₀ rest s.input) : s.uc.current ≤ s.uc.end_ := by
  have hcur : s.uc.current ≤ x₀.end_ := h.current
  rwa [← h.end_] at hcur

/-- In a static buffer the bytes ahead are determined by the cursor. -/
theorem StaticInput.ahead_eq {x₀ : UnpackInput σ} {rest : List UInt8} {s : UnpackState σ}
    (h : StaticInput x₀ rest s.input) : s.ahead = rest := by
  have hlength := h.length
  have hend := h.end_
  have hlen : s.uc.end_ - s.uc.current = rest.length := by
    have hcur : s.input.current = s.uc.current := rfl
    have hend' : s.input.end_ = s.uc.end_ := rfl
    omega
  have hmem : s.mem = x₀.mem := h.mem
  unfold UnpackState.ahead
  rw [hlen, hmem]
  exact h.bytes

/-- A static context on a buffer is fed by what the buffer holds. -/
theorem static_tracks (data fuel : Nat) {bs : List UInt8} {t : UnpackState σ}
    (hbytes : t.mem.bytes data bs.length = bs) (hfuel : bs.length < fuel) :
    Tracks (StaticInput (cwUnpackContextInit data bs.length t).input)
      (StaticStopped (cwUnpackContextInit data bs.length t).input) fuel
      (cwUnpackContextInit data bs.length t) (.ok bs) := by
  have hahead := staticInput_ahead (s := cwUnpackContextInit data bs.length t)
    (Nat.le_add_right data bs.length)
  have hall : (cwUnpackContextInit data bs.length t).ahead = bs := by
    show t.mem.bytes data (data + bs.length - data) = bs
    rw [Nat.add_sub_cancel_left, hbytes]
  rw [hall] at hahead
  exact ⟨rfl, hahead, hfuel⟩

/-! ## Reading one item -/

/-- What `cw_unpack_next` does on a static buffer. -/
theorem cwUnpackNext_static {s : UnpackState σ} (hrc : s.uc.returnCode = cwpRcOk)
    (hle : s.uc.current ≤ s.uc.end_) :
    ∃ s', cwUnpackNext none s = some s' ∧
      Delivers (StaticInput s.input) (StaticStopped s.input) s.ahead (readItem s.ahead) s' :=
  (cwUnpackNext_spec (static_feeds s.input) (staticInput_ahead hle) hrc).exists_of_not_stuck

/-- The code that goes with an outcome of the decoder. -/
def decodedCode : Decoded → Int
  | .item _ _ => cwpRcOk
  | .empty => cwpRcEndOfInput
  | .malformed => cwpRcMalformedInput
  | .truncated => cwpRcBufferUnderflow

theorem decodedCode_eq_ok_iff {d : Decoded} : decodedCode d = cwpRcOk ↔ ∃ v n, d = .item v n := by
  cases d <;> simp [decodedCode]

theorem decodedCode_injective {d d' : Decoded} (h : decodedCode d = decodedCode d')
    (hne : decodedCode d ≠ cwpRcOk) : d = d' := by
  cases d <;> cases d' <;> first | rfl | simp [decodedCode] at h hne

/-- Short of timestamps, `cw_unpack_next` reports what the reference decoder does. -/
theorem cwUnpackNext_decodes {s : UnpackState σ} (hrc : s.uc.returnCode = cwpRcOk)
    (hle : s.uc.current ≤ s.uc.end_) (hext : extType s.ahead ≠ some (-1)) :
    ∃ s', cwUnpackNext none s = some s' ∧
      s'.uc.returnCode = decodedCode (decode s.ahead) ∧
      (∀ v n, decode s.ahead = .item v n →
        s'.Denotes v ∧ s'.uc.current = s.uc.current + n) ∧
      (s'.uc.returnCode ≠ cwpRcOk → s'.uc.item.type = .notAnItem) := by
  obtain ⟨s', hcall, hdel⟩ := cwUnpackNext_static hrc hle
  refine ⟨s', hcall, ?_⟩
  rw [readItem_eq_decode hext] at hdel
  cases hd : decode s.ahead with
  | item v n =>
      rw [hd] at hdel
      obtain ⟨hrc', hden, hinv⟩ := hdel
      refine ⟨hrc', fun v' n' heq => ?_, fun hne => absurd hrc' hne⟩
      obtain ⟨rfl, rfl⟩ : v = v' ∧ n = n' := by simpa using heq
      refine ⟨hden, ?_⟩
      have hn := (decode_eq_item_iff.mp hd).1
      have hlen : s.ahead.length = s.uc.end_ - s.uc.current := Memory.bytes_length _ _ _
      have hlength : s'.uc.current + (s.ahead.drop n).length = s.uc.end_ := hinv.length
      rw [List.length_drop] at hlength
      omega
  | _ =>
      rw [hd] at hdel
      exact ⟨hdel.returnCode, fun _ _ heq => by simp at heq, fun _ => hdel.type⟩

/-- `cw_unpack_next` accepts exactly the item grammar. -/
theorem cwUnpackNext_accepts_grammar {s : UnpackState σ} (hrc : s.uc.returnCode = cwpRcOk)
    (hle : s.uc.current ≤ s.uc.end_) (hext : extType s.ahead ≠ some (-1)) :
    ∃ s', cwUnpackNext none s = some s' ∧
      (s'.uc.returnCode = cwpRcOk ↔ ∃ bs v rest, Item bs v ∧ s.ahead = bs ++ rest) ∧
      (∀ bs v rest, Item bs v → s.ahead = bs ++ rest →
        s'.Denotes v ∧ s'.uc.current = s.uc.current + bs.length) ∧
      (s'.uc.returnCode = cwpRcOk → ∀ (t : UnpackState σ) (more : List UInt8),
        t.uc.returnCode = cwpRcOk → t.uc.current ≤ t.uc.end_ → t.ahead = s.ahead ++ more →
        ∃ t', cwUnpackNext none t = some t' ∧ t'.uc.returnCode = cwpRcOk ∧
          t'.delivered = s'.delivered ∧
          t'.uc.current - t.uc.current = s'.uc.current - s.uc.current) ∧
      (s'.uc.returnCode = cwpRcEndOfInput ↔ s.ahead = []) ∧
      (s'.uc.returnCode = cwpRcMalformedInput ↔ s.ahead.head? = some 0xc1) ∧
      (s'.uc.returnCode = cwpRcBufferUnderflow ↔
        s.ahead ≠ [] ∧ ∃ more v, more ≠ [] ∧ Item (s.ahead ++ more) v) ∧
      (s'.uc.returnCode ≠ cwpRcOk → s'.uc.item.type = .notAnItem) := by
  obtain ⟨s', hcall, hcode, hitem, hstop⟩ := cwUnpackNext_decodes hrc hle hext
  have hcodeOf : ∀ d : Decoded, decodedCode d ≠ cwpRcOk →
      (s'.uc.returnCode = decodedCode d ↔ decode s.ahead = d) := by
    intro d hd
    rw [hcode]
    constructor
    · intro h
      exact (decodedCode_injective h.symm hd).symm
    · rintro rfl
      rfl
  refine ⟨s', hcall, ?_, ?_, ?_, ?_, ?_, ?_, hstop⟩
  · rw [hcode, decodedCode_eq_ok_iff]
    constructor
    · rintro ⟨v, n, hd⟩
      obtain ⟨-, hbs⟩ := decode_eq_item_iff.mp hd
      exact ⟨_, v, s.ahead.drop n, hbs, (List.take_append_drop n _).symm⟩
    · rintro ⟨bs, v, rest, hbs, heq⟩
      exact ⟨v, bs.length, by rw [heq, decode_of_item hbs]⟩
  · intro bs v rest hbs heq
    exact hitem v bs.length (by rw [heq, decode_of_item hbs])
  · intro hok t more hrct hlet hahead
    obtain ⟨v, n, hd⟩ := decodedCode_eq_ok_iff.mp (hcode ▸ hok)
    have hdt : decode t.ahead = .item v n := by
      rw [hahead]
      exact decode_append_of_item hd more
    have hextt : extType t.ahead ≠ some (-1) := by
      rw [hahead, extType_append hd more]
      exact hext
    obtain ⟨t', hcallt, hcodet, hitemt, -⟩ := cwUnpackNext_decodes hrct hlet hextt
    obtain ⟨hden, hcur⟩ := hitem v n hd
    obtain ⟨hdent, hcurt⟩ := hitemt v n hdt
    refine ⟨t', hcallt, by rw [hcodet, hdt]; rfl, ?_, by omega⟩
    unfold UnpackState.delivered
    rw [hden.1, hden.2, hdent.1, hdent.2]
  · exact (hcodeOf .empty (by decide)).trans decode_eq_empty_iff
  · exact (hcodeOf .malformed (by decide)).trans decode_eq_malformed_iff
  · exact (hcodeOf .truncated (by decide)).trans decode_eq_truncated_iff

/-- A context on a static buffer that holds `bs`. -/
def staticContext (bs : List UInt8) : UnpackState Unit :=
  cwUnpackContextInit 0 bs.length
    ⟨⟨⟨.notAnItem, .boolean false⟩, 0, 0, 0, 0, 0⟩, Memory.write (fun _ => 0) 0 bs, ()⟩

theorem staticContext_ahead (bs : List UInt8) : (staticContext bs).ahead = bs := by
  have hlen : 0 + bs.length - 0 = bs.length := by omega
  show (Memory.write (fun _ => 0) 0 bs).bytes 0 (0 + bs.length - 0) = bs
  rw [hlen, Memory.bytes_write_self]

/-- An `ext 16` item of two bytes, with another item behind it. -/
theorem cwUnpackNext_accepts_ext16 :
    ∃ s', cwUnpackNext none (staticContext [0xc8, 0x00, 0x02, 0x05, 0x68, 0x69, 0xc0]) = some s' ∧
      s'.uc.returnCode = cwpRcOk ∧ s'.Denotes (.ext 5 [0x68, 0x69]) ∧ s'.uc.current = 6 := by
  have hitem : Item [0xc8, 0x00, 0x02, 0x05, 0x68, 0x69] (.ext 5 [0x68, 0x69]) :=
    @Item.ext 0xc8 0x05 2 [0x00, 0x02] [0x68, 0x69] rfl rfl rfl
  have hahead := staticContext_ahead [0xc8, 0x00, 0x02, 0x05, 0x68, 0x69, 0xc0]
  obtain ⟨s', hcall, hok, hdelivers, -⟩ := cwUnpackNext_accepts_grammar
    (s := staticContext [0xc8, 0x00, 0x02, 0x05, 0x68, 0x69, 0xc0]) rfl (by decide)
    (by rw [hahead]; decide)
  obtain ⟨hden, hcurrent⟩ := hdelivers _ _ [0xc0] hitem hahead
  exact ⟨s', hcall, hok.mpr ⟨_, _, [0xc0], hitem, hahead⟩, hden, hcurrent⟩

/-! ## Complete items -/

/-- How many items follow the item just read as its content. -/
def CwpackItem.children (item : CwpackItem) : Nat :=
  match item.type, item.as with
  | .array, .container size => size
  | .map, .container size => 2 * size
  | _, _ => 0

/-- `Traverses n s s'`: reading `n` complete items with `cw_unpack_next`, an array
followed by its elements and a map by its keys and values, all of them OK, leads from
`s` to `s'`. -/
inductive Traverses : Nat → UnpackState σ → UnpackState σ → Prop where
  | done (s : UnpackState σ) : Traverses 0 s s
  | item {n : Nat} {s s₁ s₂ s₃ : UnpackState σ} (hnext : cwUnpackNext none s = some s₁)
      (hok : s₁.uc.returnCode = cwpRcOk) (hcontent : Traverses s₁.uc.item.children s₁ s₂)
      (hrest : Traverses n s₂ s₃) : Traverses (n + 1) s s₃

theorem children_of_value {type : ItemType} {as : ItemAs} {m : Memory} {v : Value}
    (htype : type = itemType v) (hvalue : CwpackItem.value ⟨type, as⟩ m = some v) :
    CwpackItem.children ⟨type, as⟩ = v.children := by
  subst htype
  cases v with
  | array n =>
      cases as <;> simp_all [CwpackItem.value, CwpackItem.children, itemType, Value.children]
  | map n =>
      cases as <;> simp_all [CwpackItem.value, CwpackItem.children, itemType, Value.children]
  | int v =>
      by_cases hv : 0 ≤ v
      · simp only [itemType, if_pos hv]
        rfl
      · simp only [itemType, if_neg hv]
        rfl
  | _ => rfl

theorem children_of_denotes {s : UnpackState σ} {v : Value} (h : s.Denotes v) :
    s.uc.item.children = v.children :=
  children_of_value h.1 h.2

theorem children_timestampValue (payload : List UInt8) : (timestampValue payload).children = 0 := by
  unfold timestampValue
  repeat' split
  all_goals rfl

theorem ReadsAs.children {type : Int8} {x : Value} (h : ReadsAs type x) : x.children = 0 := by
  cases h with
  | ext payload => rfl
  | timestamp payload _ => exact children_timestampValue payload

/-- Where an item is read, skipping passes over the same bytes and counts its content. -/
theorem skipItem_of_readItem {b : List UInt8} {v : Value} {n : Nat} (h : readItem b = .ok (v, n))
    (hlen : b.length < 2 ^ 32) (hchildren : v.children < 2 ^ 32) :
    skipItem b = .ok (n, v.children) := by
  obtain ⟨c, w, f, rfl, hf, hread⟩ := readItem_eq_ok h
  rw [List.length_cons] at hlen
  simp only [skipItem, hf]
  cases hread with
  | single => rfl
  | number k mk hk => rw [skipRest, if_neg (Nat.not_lt.mpr hk), Nat.mod_eq_of_lt hchildren]
  | fixed k mk hk => rw [skipRest, if_neg (Nat.not_lt.mpr hk), children_of_fixed hf]
  | blob k mk hall =>
      simp only [skipRest]
      rw [if_neg (by omega), if_neg (Nat.not_lt.mpr hall), children_of_blob hf]
  | fixext k hk hread => rw [skipRest, if_neg (Nat.not_lt.mpr hk), hread.children]
  | ext k hall hread =>
      -- the bytes fit in 32 bits, and so does the length of the payload with its type
      have hmod : (ofBigEndian (w.take k) + 1) % 2 ^ 32 = ofBigEndian (w.take k) + 1 :=
        Nat.mod_eq_of_lt (by omega)
      have hsum : 1 + k + (ofBigEndian (w.take k) + 1) = 1 + (k + 1) + ofBigEndian (w.take k) := by
        omega
      simp only [skipRest]
      rw [if_neg (by omega), hmod, if_neg (by omega), hsum, hread.children]

/-- A read that is OK delivers an item and leaves the bytes behind it. -/
theorem cwUnpackNext_ok {s s₁ : UnpackState σ} (hrc : s.uc.returnCode = cwpRcOk)
    (hle : s.uc.current ≤ s.uc.end_) (hnext : cwUnpackNext none s = some s₁)
    (hok : s₁.uc.returnCode = cwpRcOk) :
    ∃ v n, readItem s.ahead = .ok (v, n) ∧ s₁.Denotes v ∧
      StaticInput s.input (s.ahead.drop n) s₁.input := by
  obtain ⟨s', hcall, hdel⟩ := cwUnpackNext_static hrc hle
  rw [hnext] at hcall
  obtain rfl := Option.some.inj hcall
  cases hread : readItem s.ahead with
  | error e =>
      rw [hread] at hdel
      exact absurd (hdel.returnCode.symm.trans hok) (readItem_error hread)
  | ok a =>
      obtain ⟨v, n⟩ := a
      rw [hread] at hdel
      exact ⟨v, n, rfl, hdel.2.1, hdel.2.2⟩

theorem readItem_pos {b : List UInt8} {v : Value} {n : Nat} (h : readItem b = .ok (v, n)) :
    0 < n ∧ b ≠ [] := by
  obtain ⟨c, w, f, rfl, -, hread⟩ := readItem_eq_ok h
  exact ⟨hread.pos, List.cons_ne_nil c w⟩

theorem StaticInput.trans {x₀ x y : UnpackInput σ} {r r' : List UInt8} (h : StaticInput x₀ r x)
    (h' : StaticInput x r' y) : StaticInput x₀ r' y where
  mem := h'.mem.trans h.mem
  env := h'.env.trans h.env
  start := h'.start.trans h.start
  end_ := h'.end_.trans h.end_
  current := by
    have hend := h.end_
    have hcur := h'.current
    omega
  length := h'.length.trans h.end_
  bytes := by rw [← h.mem]; exact h'.bytes

/-- A traversal stays in its buffer and reads a byte at least for each item. -/
theorem Traverses.advances {n : Nat} {s s' : UnpackState σ} (h : Traverses n s s')
    (hrc : s.uc.returnCode = cwpRcOk) (hle : s.uc.current ≤ s.uc.end_) :
    s'.uc.returnCode = cwpRcOk ∧ StaticInput s.input s'.ahead s'.input ∧
      n + s'.ahead.length ≤ s.ahead.length := by
  induction h with
  | done s => exact ⟨hrc, staticInput_ahead hle, by omega⟩
  | @item n s s₁ s₂ s₃ hnext hok hcontent hrest ihc ihr =>
      obtain ⟨v, k, hread, -, hinv₁⟩ := cwUnpackNext_ok hrc hle hnext hok
      have hle₁ := hinv₁.current_le
      obtain ⟨hok₂, hinv₂, hlen₂⟩ := ihc hok hle₁
      have hle₂ := hinv₂.current_le
      obtain ⟨hok₃, hinv₃, hlen₃⟩ := ihr hok₂ hle₂
      refine ⟨hok₃, (hinv₁.trans hinv₂).trans hinv₃, ?_⟩
      obtain ⟨hk, hne⟩ := readItem_pos hread
      have hpos := List.length_pos_iff.mpr hne
      have hahead := congrArg List.length hinv₁.ahead_eq
      rw [List.length_drop] at hahead
      omega

/-! ## One counter for the whole traversal -/

/-- What reading the item at the front of `b` comes to, its content left to be read. -/
def itemHeader (b : List UInt8) : Header (List UInt8) :=
  match readItem b with
  | .error _ => .stops
  | .ok (v, n) => .content v.children (b.drop n)

theorem itemHeader_eq_content {b b₁ : List UInt8} {m : Nat} (h : itemHeader b = .content m b₁) :
    ∃ v n, readItem b = .ok (v, n) ∧ m = v.children ∧ b₁ = b.drop n := by
  unfold itemHeader at h
  split at h
  · simp at h
  · rename_i v n hread
    obtain ⟨rfl, rfl⟩ := Header.content.inj h
    exact ⟨v, n, hread, rfl, rfl⟩

theorem itemHeader_size {b b₁ : List UInt8} {m : Nat} (h : itemHeader b = .content m b₁) :
    b₁.length < b.length := by
  obtain ⟨v, n, hread, -, rfl⟩ := itemHeader_eq_content h
  obtain ⟨hn, hne⟩ := readItem_pos hread
  have hpos := List.length_pos_iff.mpr hne
  rw [List.length_drop]
  omega

/-- The flat counter against the recursion.  While `n` items are gone through, `c` more items
are pending; after them the counter is down to `c`. -/
theorem skipItems_of_through {n : Nat} {b b' : List UInt8} (h : Through itemHeader n b b')
    (hlen : b.length < 2 ^ 32) :
    ∀ c : Nat, c + (b.length - b'.length) < 2 ^ 63 →
      skipItems (Int64.ofNat (c + n)) b = skipItems (Int64.ofNat c) b' := by
  induction h with
  | done b =>
      intro c _
      rfl
  | @item n m b b₁ b₂ b₃ hheader hcontent hrest ihc ihr =>
      intro c hc
      have hlt := itemHeader_size hheader
      obtain ⟨v, k, hread, rfl, rfl⟩ := itemHeader_eq_content hheader
      have hlen₂ := hcontent.size_le List.length itemHeader_size
      have hlen₃ := hrest.size_le List.length itemHeader_size
      -- every pending item takes a byte, so neither the content nor the counter overflows
      have hskip := skipItem_of_readItem hread hlen (by omega)
      have hcount : Int64.ofNat (c + (n + 1)) - 1 + Int64.ofNat v.children =
          Int64.ofNat (c + n + v.children) := by
        have hone : Int64.ofNat 1 = 1 := rfl
        rw [← Nat.add_assoc, Int64.ofNat_add (c + n) 1, Int64.ofNat_add (c + n), hone,
          Int64.add_sub_cancel]
      have hpositive : Int64.ofNat (c + (n + 1)) > 0 := by
        rw [gt_iff_lt, Int64.lt_iff_toInt_lt, Int64.toInt_zero, Int64.toInt_ofNat_of_lt (by omega)]
        omega
      rw [skipItems_of_ok hpositive hskip, hcount]
      rw [ihc (by omega) (c + n) (by omega)]
      exact ihr (by omega) c (by omega)

/-- What is traversed is gone through. -/
theorem Traverses.through {n : Nat} {s s' : UnpackState σ} (h : Traverses n s s')
    (hrc : s.uc.returnCode = cwpRcOk) (hle : s.uc.current ≤ s.uc.end_) :
    Through itemHeader n s.ahead s'.ahead := by
  induction h with
  | done s => exact .done _
  | @item n s s₁ s₂ s₃ hnext hok hcontent hrest ihc ihr =>
      obtain ⟨v, k, hread, hden, hinv₁⟩ := cwUnpackNext_ok hrc hle hnext hok
      have hle₁ := hinv₁.current_le
      obtain ⟨hok₂, hinv₂, -⟩ := hcontent.advances hok hle₁
      have hheader : itemHeader s.ahead = .content s₁.uc.item.children s₁.ahead := by
        rw [itemHeader, hread, children_of_denotes hden, hinv₁.ahead_eq]
      exact .item hheader (ihc hok hle₁) (ihr hok₂ hinv₂.current_le)

/-- `cw_skip_items` skips what `cw_unpack_next` would read. -/
theorem cwSkipItems_skips_what_next_reads {s s' : UnpackState σ} {n : Int64} (hn : 0 ≤ n)
    (hrc : s.uc.returnCode = cwpRcOk) (hlo : s.uc.start ≤ s.uc.current)
    (hhi : s.uc.current ≤ s.uc.end_) (hlen : s.uc.end_ - s.uc.start < 2 ^ 31)
    (h : Traverses n.toNatClampNeg s s') :
    ∃ turns, ∀ fuel, turns ≤ fuel → ∃ t, cwSkipItems fuel none n s = some t ∧
      t.uc.returnCode = cwpRcOk ∧ t.uc.current = s'.uc.current := by
  have hahead : s.ahead.length = s.uc.end_ - s.uc.current := Memory.bytes_length _ _ _
  obtain ⟨-, hinv, -⟩ := h.advances hrc hhi
  have hskips := skipItems_of_through (h.through hrc hhi) (by omega) 0 (by omega)
  have hdone : skipItems (Int64.ofNat 0) s'.ahead = .ok s'.ahead := skipItems_of_le (by decide)
  rw [Nat.zero_add, Int64.ofNat_toNatClampNeg n hn, hdone] at hskips
  refine ⟨s.ahead.length + 1, fun fuel hfuel => ?_⟩
  have hspec := cwSkipItems_spec (static_feeds s.input) n hfuel (staticInput_ahead hhi) hrc
  rw [hskips] at hspec
  obtain ⟨t, hcall, hok, hinvt⟩ := hspec.exists_of_not_stuck
  refine ⟨t, hcall, hok, ?_⟩
  have hlength : s'.uc.current + s'.ahead.length = s.uc.end_ := hinv.length
  have hlengtht : t.uc.current + s'.ahead.length = s.uc.end_ := hinvt.length
  omega

theorem cwSkipItems_skips_an_array :
    ∃ turns, ∀ fuel, turns ≤ fuel →
      ∃ t, cwSkipItems fuel none 1 (staticContext [0x91, 0x2a]) = some t ∧
        t.uc.returnCode = cwpRcOk ∧ t.uc.current = 2 := by
  let s₁ := (cwUnpackNext none (staticContext [0x91, 0x2a])).getD (staticContext [])
  let s₂ := (cwUnpackNext none s₁).getD (staticContext [])
  have hcontent : Traverses s₁.uc.item.children s₁ s₂ :=
    .item (n := 0) (s := s₁) rfl rfl (.done s₂) (.done s₂)
  exact cwSkipItems_skips_what_next_reads (n := 1) (by decide) rfl (by decide) (by decide)
    (by decide) (.item (n := 0) rfl rfl hcontent (.done s₂))

end CWPack.Core
