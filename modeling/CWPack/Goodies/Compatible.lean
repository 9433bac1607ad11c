/-
  Goodies/Compatible.lean --- what a context in compatible mode writes.

  The old specification has no BIN, no EXT, no TIMESTAMP and no STR 8.  The
  routines of `src/cwpack.c` test the mode one by one; those of
  `src/goodies/numeric-extensions/numeric_extensions.c` do not test it.

  A run keeps to the old specification unless it calls one of these.
-/
import CWPack.Goodies.PackingCalls

set_option autoImplicit false

namespace CWPack.Goodies

open CWPack.Foundation
open CWPack.Core
open CWPack.MessagePack

variable {σ : Type}

/-! ## The old formats -/

/-- The headers the old specification does not have, and the one that is never used. -/
def newHeaders : List UInt8 :=
  [0xc1, 0xc4, 0xc5, 0xc6, 0xc7, 0xc8, 0xc9, 0xd4, 0xd5, 0xd6, 0xd7, 0xd8, 0xd9]

/-- An item of the old specification, with STR 16 for a string of middle length. -/
structure OldItem (bs : List UInt8) (v : Value) : Prop where
  item : Item bs v
  header : ∀ c ∈ bs.head?, c ∉ newHeaders
  str16 : ∀ b, v = .str b ∨ v = .bin b → 32 ≤ b.length → b.length < 65536 → bs.head? = some 0xda

/-- The bytes are items of the old specification, one after another. -/
inductive OldItems : List UInt8 → Prop where
  | nil : OldItems []
  | cons {bs rest : List UInt8} {v : Value} (hbs : OldItem bs v) (hrest : OldItems rest) :
      OldItems (bs ++ rest)

/-- The first byte is the header of the first item. -/
theorem OldItems.head {c : UInt8} {w : List UInt8} (h : OldItems (c :: w)) : c ∉ newHeaders := by
  generalize hbytes : c :: w = bytes at h
  cases h with
  | nil => simp at hbytes
  | @cons bs rest v hbs hrest =>
      cases hitem : bs with
      | nil => exact absurd hitem hbs.item.ne_nil
      | cons a as =>
          rw [hitem, List.cons_append, List.cons.injEq] at hbytes
          obtain ⟨rfl, -⟩ := hbytes
          exact hbs.header c (by rw [hitem]; rfl)

/-- The formats of the new headers. -/
theorem format_newHeader {c : UInt8} (h : c ∈ newHeaders) :
    format c = none ∨ (∃ w, format c = some (.blob w .bin)) ∨ (∃ w, format c = some (.ext w)) ∨
      (∃ n, format c = some (.fixext n)) ∨ c = 0xd9 := by
  simp only [newHeaders, List.mem_cons, List.not_mem_nil, or_false] at h
  rcases h with rfl | rfl | rfl | rfl | rfl | rfl | rfl | rfl | rfl | rfl | rfl | rfl | rfl
  · exact Or.inl rfl
  · exact Or.inr (Or.inl ⟨1, rfl⟩)
  · exact Or.inr (Or.inl ⟨2, rfl⟩)
  · exact Or.inr (Or.inl ⟨4, rfl⟩)
  · exact Or.inr (Or.inr (Or.inl ⟨1, rfl⟩))
  · exact Or.inr (Or.inr (Or.inl ⟨2, rfl⟩))
  · exact Or.inr (Or.inr (Or.inl ⟨4, rfl⟩))
  · exact Or.inr (Or.inr (Or.inr (Or.inl ⟨1, rfl⟩)))
  · exact Or.inr (Or.inr (Or.inr (Or.inl ⟨2, rfl⟩)))
  · exact Or.inr (Or.inr (Or.inr (Or.inl ⟨4, rfl⟩)))
  · exact Or.inr (Or.inr (Or.inr (Or.inl ⟨8, rfl⟩)))
  · exact Or.inr (Or.inr (Or.inr (Or.inl ⟨16, rfl⟩)))
  · exact Or.inr (Or.inr (Or.inr (Or.inr rfl)))

/-- Behind a new header there is a binary string, an extension, or a short string. -/
theorem value_of_newHeader {c : UInt8} {w : List UInt8} {v : Value} (h : Item (c :: w) v)
    (hc : c ∈ newHeaders) :
    (∃ b, v = .bin b) ∨ (∃ t b, v = .ext t b) ∨ c = 0xd9 ∧ ∃ b, v = .str b := by
  have hstr : c = 0xd9 → format c = some (.blob 1 .str) := by
    rintro rfl
    rfl
  rcases format_newHeader hc with hf | ⟨k, hf⟩ | ⟨k, hf⟩ | ⟨k, hf⟩ | rfl
  · cases h <;> simp_all
  · cases h with
    | @blob _ _ mk ls bs h hw hn =>
        rw [hf, Option.some.injEq, Format.blob.injEq] at h
        obtain ⟨-, rfl⟩ := h
        exact Or.inl ⟨bs, rfl⟩
    | _ => simp_all
  · cases h with
    | ext h hw hn => exact Or.inr (Or.inl ⟨_, _, rfl⟩)
    | _ => simp_all
  · cases h with
    | fixext h hn => exact Or.inr (Or.inl ⟨_, _, rfl⟩)
    | _ => simp_all
  · have hf := hstr rfl
    cases h with
    | @blob _ _ mk ls bs h hw hn =>
        rw [hf, Option.some.injEq, Format.blob.injEq] at h
        obtain ⟨-, rfl⟩ := h
        exact Or.inr (Or.inr ⟨rfl, bs, rfl⟩)
    | _ => simp_all

/-- In compatible mode strings have three headers. -/
theorem encodeStr_head (b : List UInt8) :
    (encodeStr true b).head? =
      if b.length < 0x20 then some (UInt8.ofNat (0xa0 + b.length))
      else if b.length < 0x10000 then some 0xda else some 0xdb := by
  unfold encodeStr
  by_cases h1 : b.length < 0x20
  · rw [if_pos h1, if_pos h1]
    rfl
  · rw [if_neg h1, if_neg h1, if_neg (by simp)]
    by_cases h2 : b.length < 0x10000
    · rw [if_pos h2, if_pos h2]
      rfl
    · rw [if_neg h2, if_neg h2]
      rfl

theorem encodeStr_head_ne (b : List UInt8) : (encodeStr true b).head? ≠ some 0xd9 := by
  rw [encodeStr_head]
  by_cases h1 : b.length < 0x20
  · rw [if_pos h1]
    intro h
    have hc := congrArg UInt8.toNat (Option.some.inj h)
    rw [toNat_ofNat_of_lt (by omega)] at hc
    have hd9 : (0xd9 : UInt8).toNat = 0xd9 := rfl
    omega
  · rw [if_neg h1]
    by_cases h2 : b.length < 0x10000
    · rw [if_pos h2]
      decide
    · rw [if_neg h2]
      decide

/-- Strings and binary strings are encoded alike. -/
theorem oldItem_encodeStr {b : List UInt8} (h : b.length < 2 ^ 32) :
    OldItem (encodeStr true b) (.str b) where
  item := item_encodeStr true h
  header := by
    intro c hc hnew
    cases hbs : encodeStr true b with
    | nil => rw [hbs] at hc; simp at hc
    | cons a as =>
        obtain rfl : a = c := by rw [hbs] at hc; simpa using hc
        have hitem := item_encodeStr true h
        rw [hbs] at hitem
        rcases value_of_newHeader hitem hnew with ⟨_, hv⟩ | ⟨_, _, hv⟩ | ⟨rfl, -⟩
        · simp at hv
        · simp at hv
        · exact encodeStr_head_ne b (by rw [hbs]; rfl)
  str16 := by
    intro b' hb' hlo hhi
    obtain rfl : b = b' := by simpa using hb'
    rw [encodeStr_head, if_neg (by omega), if_pos hhi]

/-- A call that is not refused in compatible mode is encoded in the old formats. -/
theorem oldItem_encoding {c : PackCall} {bs : List UInt8} (h : c.encoding true = .ok bs) :
    OldItem bs (c.value.wire true) := by
  have hencodable := PackCall.encodable_of_ok h
  have hitem := item_encode true hencodable
  obtain rfl : encode true c.value = bs := by
    unfold PackCall.encoding at h
    split at h
    · simp at h
    · exact Except.ok.inj h
  -- neither an extension nor a string, so no header is new
  have hplain : (∀ b, c.value.wire true ≠ .bin b) → (∀ t b, c.value.wire true ≠ .ext t b) →
      (∀ b, c.value.wire true ≠ .str b) → OldItem (encode true c.value) (c.value.wire true) := by
    intro hbin hext hstr
    refine ⟨hitem, ?_, ?_⟩
    · intro a ha hnew
      cases hbs : encode true c.value with
      | nil => rw [hbs] at ha; simp at ha
      | cons a' as =>
          obtain rfl : a' = a := by rw [hbs] at ha; simpa using ha
          rw [hbs] at hitem
          rcases value_of_newHeader hitem hnew with ⟨b, hv⟩ | ⟨t, b, hv⟩ | ⟨-, b, hv⟩
          · exact hbin b hv
          · exact hext t b hv
          · exact hstr b hv
    · rintro b (hv | hv)
      · exact absurd hv (hstr b)
      · exact absurd hv (hbin b)
  cases c with
  | str v => exact oldItem_encodeStr v.length_lt
  | bin v => exact oldItem_encodeStr v.length_lt
  | ext type v => simp [PackCall.encoding, PackCall.refusal] at h
  | time sec nsec => simp [PackCall.encoding, PackCall.refusal] at h
  | _ =>
      refine hplain (fun b hv => ?_) (fun t b hv => ?_) fun b hv => ?_
      all_goals simp [PackCall.value, Value.wire] at hv

/-! ## What a call does in compatible mode -/

section Calls

variable {H : PackHandlers σ} {s s' : PackState σ}

/-- Without an overflow handler, no numeric extension is refused as an illegal call. -/
theorem PackingCall.perform_numeric_ne {c : PackingCall} (hnumeric : c.IsNumeric)
    (hrc : s.pc.returnCode = 0) (hoverflow : H.handlePackOverflow = none) :
    c.perform H s ≠ some (s.setReturnCode cwpRcIllegalCall) := by
  obtain ⟨type, payload, -, -, hcall⟩ := PackingCall.perform_numeric (H := H) hnumeric hrc
  intro h
  rw [hcall] at h
  have hcode : ∀ t, emit H (encodeExt type payload) s = some t →
      t.pc.returnCode ≠ cwpRcIllegalCall := by
    intro t ht
    by_cases hle : s.pc.current + (encodeExt type payload).length ≤ s.pc.end_
    · rw [emit_of_le H hle] at ht
      obtain rfl := Option.some.inj ht
      show s.pc.returnCode ≠ cwpRcIllegalCall
      rw [hrc]
      decide
    · rw [emit_of_gt H (Nat.lt_of_not_le hle), cwPackNewBuffer, hoverflow] at ht
      obtain rfl := Option.some.inj ht
      show cwpRcBufferOverflow ≠ cwpRcIllegalCall
      decide
  exact hcode _ h rfl

/-- In compatible mode a call stores an item of the old specification, or nothing, unless it is a
numeric extension on a running context. -/
theorem PackingCall.perform_writes {c : PackingCall} (hmode : s.pc.beCompatible = true)
    (hnumeric : c.IsNumeric → s.pc.returnCode ≠ 0) (h : c.perform H s = some s') :
    ∃ bs, Writes H s bs s' ∧ (bs = [] ∨ ∃ v, OldItem bs v) := by
  by_cases hrc : s.pc.returnCode = 0
  · cases c with
    | call c =>
        have hputs := cwPack_puts H c hrc
        have hcall : cwPack H c s = some s' := h
        rw [hmode] at hputs
        cases henc : c.encoding true with
        | error e =>
            rw [henc] at hputs
            rw [hputs] at hcall
            exact ⟨[], Option.some.inj hcall ▸ .stopped e, Or.inl rfl⟩
        | ok bs =>
            rw [henc] at hputs
            rcases Puts.writes hputs hcall with hwrites | ⟨hwrites, -⟩
            · exact ⟨bs, hwrites, Or.inr ⟨_, oldItem_encoding henc⟩⟩
            · exact ⟨[], hwrites, Or.inl rfl⟩
    | flush => exact ⟨[], cwPackFlush_writes h, Or.inl rfl⟩
    | extInteger type i => exact absurd hrc (hnumeric trivial)
    | extFloat type f => exact absurd hrc (hnumeric trivial)
    | extDouble type d => exact absurd hrc (hnumeric trivial)
  · rw [c.perform_of_stopped hrc] at h
    exact ⟨[], Option.some.inj h ▸ .kept, Or.inl rfl⟩

end Calls

/-! ## Runs in compatible mode -/

section Runs

variable {H : PackHandlers σ} {c : PackingCall} {s t s' : PackState σ}

/-- Where no numeric extension meets a running context, a run stores old items only. -/
theorem produces_oldItems {calls : List PackingCall} :
    ∀ {s s' : PackState σ}, run (PackingCall.perform H) calls s = some s' →
      (∀ c t, Makes H calls s c t → t.pc.beCompatible = true) →
      (∀ c t, Makes H calls s c t → c.IsNumeric → t.pc.returnCode ≠ 0) →
      ∃ chunks, Produces H calls s chunks s' ∧ OldItems chunks.flatten := by
  induction calls with
  | nil =>
      intro s s' hrun _ _
      obtain rfl : s = s' := by simpa using hrun
      exact ⟨[], .done s, .nil⟩
  | cons c calls ih =>
      intro s s' hrun hmode hnumeric
      cases hcall : c.perform H s with
      | none => simp [run, hcall] at hrun
      | some t =>
          rw [run_cons_of_some calls hcall] at hrun
          obtain ⟨bs, hbs, hold⟩ :=
            c.perform_writes (hmode c s makes_head) (hnumeric c s makes_head) hcall
          obtain ⟨chunks, hchunks, hitems⟩ := ih hrun
            (fun c' t' h => hmode c' t' (h.cons hcall))
            (fun c' t' h => hnumeric c' t' (h.cons hcall))
          refine ⟨bs :: chunks, .call hcall hbs hchunks, ?_⟩
          rw [List.flatten_cons]
          rcases hold with rfl | ⟨v, hv⟩
          · exact hitems
          · exact .cons hv hitems

/-- In compatible mode an extension item or a timestamp is an illegal call. -/
theorem PackingCall.perform_extension (hmode : s.pc.beCompatible = true)
    (hrc : s.pc.returnCode = 0) (hext : c.IsExtension) (hnumeric : ¬ c.IsNumeric) :
    c.perform H s = some (s.setReturnCode cwpRcIllegalCall) := by
  cases c with
  | call c =>
      cases c with
      | ext type v => simp [PackingCall.perform, cwPack, cwPackExt, hrc, hmode, packError]
      | time sec nsec => simp [PackingCall.perform, cwPack, cwPackTime, hrc, hmode, packError]
      | _ => exact hext.elim
  | flush => exact hext.elim
  | extInteger type i => exact absurd trivial hnumeric
  | extFloat type f => exact absurd trivial hnumeric
  | extDouble type d => exact absurd trivial hnumeric

/-- In compatible mode a blob of middle length is stored as STR 16. -/
theorem perform_blob (hmode : s.pc.beCompatible = true) (hrc : s.pc.returnCode = 0) {v : Blob}
    (hc : c = .call (.str v) ∨ c = .call (.bin v)) (hlo : 32 ≤ v.length) (hhi : v.length < 65536)
    (h : c.perform H s = some t) :
    Writes H s (0xda :: (bigEndian 2 v.length ++ v.bytes)) t ∨ Writes H s [] t := by
  have henc : encodeStr true v.bytes = 0xda :: (bigEndian 2 v.length ++ v.bytes) := by
    have hlo' : 32 ≤ v.bytes.length := hlo
    have hhi' : v.bytes.length < 65536 := hhi
    rw [encodeStr, if_neg (by omega), if_neg (by simp), if_pos hhi']
  rw [← henc]
  rcases hc with rfl | rfl
  · have hcall : cwPackStr H v s = some t := h
    rw [cwPackStr_spec H v hrc, hmode] at hcall
    exact (emit_writes hcall).imp_right And.left
  · have hcall : cwPackBin H v s = some t := h
    rw [cwPackBin_spec H v hrc, hmode] at hcall
    exact (emit_writes hcall).imp_right And.left

end Runs

/-- What is expected of a run in compatible mode: it stores old items only, blobs of middle length
as STR 16, and an extension item or a timestamp stops the context. -/
structure KeepsOldFormat (H : PackHandlers σ) (calls : List PackingCall) (s s' : PackState σ) :
    Prop where
  items : ∃ chunks, Produces H calls s chunks s' ∧ OldItems chunks.flatten ∧
    (H.handlePackOverflow = none → H.handleFlush = none →
      s'.mem.bytes s.pc.current (s'.pc.current - s.pc.current) = chunks.flatten)
  blobs : ∀ c t t' v, Makes H calls s c t → c.perform H t = some t' → t.pc.returnCode = 0 →
    (c = .call (.str v) ∨ c = .call (.bin v)) → 32 ≤ v.length → v.length < 65536 →
    Writes H t (0xda :: (bigEndian 2 v.length ++ v.bytes)) t' ∨ Writes H t [] t'
  extensions : ∀ c t, Makes H calls s c t → c.IsExtension → t.pc.returnCode = 0 →
    c.perform H t = some (t.setReturnCode cwpRcIllegalCall)

/-- In compatible mode a run keeps to the old format as long as no numeric extension is called on
a running context, and no longer if there is no overflow handler. -/
theorem compatible_run_keeps_old_format (H : PackHandlers σ) {calls : List PackingCall}
    {s s' : PackState σ} (hrun : run (PackingCall.perform H) calls s = some s')
    (hmode : ∀ c t, Makes H calls s c t → t.pc.beCompatible = true) :
    ((∀ c t, Makes H calls s c t → c.IsNumeric → t.pc.returnCode ≠ 0) →
      KeepsOldFormat H calls s s') ∧
    (H.handlePackOverflow = none → KeepsOldFormat H calls s s' →
      ∀ c t, Makes H calls s c t → c.IsNumeric → t.pc.returnCode ≠ 0) := by
  refine ⟨fun hnumeric => ⟨?_, ?_, ?_⟩, ?_⟩
  · obtain ⟨chunks, hchunks, hitems⟩ := produces_oldItems hrun hmode hnumeric
    refine ⟨chunks, hchunks, hitems, fun hoverflow hflush => ?_⟩
    have hroom : OnlyMakesRoom H := fun _ _ _ _ _ hhandler => by simp [hoverflow] at hhandler
    have hbytes := hchunks.bytes hroom hflush (Nat.le_refl _)
    rwa [Nat.sub_self, Memory.bytes_zero, List.nil_append] at hbytes
  · intro c t t' v hmakes hcall hrc hc hlo hhi
    exact perform_blob (hmode c t hmakes) hrc hc hlo hhi hcall
  · intro c t hmakes hext hrc
    exact PackingCall.perform_extension (hmode c t hmakes) hrc hext
      fun hnum => hnumeric c t hmakes hnum hrc
  · intro hoverflow hkeeps c t hmakes hnum hrc
    have hext : c.IsExtension := by
      cases c with
      | call c => exact hnum.elim
      | _ => exact hnum
    exact PackingCall.perform_numeric_ne hnum hrc hoverflow (hkeeps.extensions c t hmakes hext hrc)

/-- A static context in compatible mode. -/
def compatibleContext (size : Nat) : PackState Unit :=
  cwPackSetCompatibility true
    (cwPackContextInit 0 size ⟨⟨0, 0, 0, false, 0, 0⟩, fun _ => 0, ()⟩)

/-- The first call of a run, and the others. -/
theorem makes_cons {H : PackHandlers σ} {c c' : PackingCall} {calls : List PackingCall}
    {s t : PackState σ} (h : Makes H (c :: calls) s c' t) :
    (c' = c ∧ t = s) ∨ ∃ s₁, c.perform H s = some s₁ ∧ Makes H calls s₁ c' t := by
  obtain ⟨first, rest, hcalls, hrun⟩ := h
  cases first with
  | nil =>
      obtain ⟨rfl, -⟩ := List.cons.inj hcalls
      exact .inl ⟨rfl, (Option.some.inj hrun).symm⟩
  | cons c₁ first =>
      obtain ⟨rfl, hsame⟩ := List.cons.inj hcalls
      obtain ⟨s₁, hcall, hrest⟩ := run_cons_eq_some hrun
      exact .inr ⟨s₁, hcall, first, rest, hsame, hrest⟩

theorem not_makes_nil {H : PackHandlers σ} {c : PackingCall} {s t : PackState σ} :
    ¬ Makes H [] s c t := by
  rintro ⟨first, rest, hcalls, -⟩
  exact absurd hcalls.symm (by simp)

/-- Thirty-two letters. -/
def letters : Blob := ⟨List.replicate 32 0x61, by decide⟩

/-- A string, a blob, a timestamp, which stops the context, and a numeric extension. -/
theorem compatible_run_keeps_old_format_stopped :
    ∃ s', run (PackingCall.perform (PackHandlers.static Unit))
        [.call (.str letters), .call (.bin letters), .call (.time 0 0), .extInteger 5 1]
        (compatibleContext 128) = some s' ∧
      s'.pc.returnCode = cwpRcIllegalCall ∧ s'.pc.current = 70 ∧
      KeepsOldFormat (PackHandlers.static Unit)
        [.call (.str letters), .call (.bin letters), .call (.time 0 0), .extInteger 5 1]
        (compatibleContext 128) s' := by
  have hmakes : ∀ c t, Makes (PackHandlers.static Unit)
      [.call (.str letters), .call (.bin letters), .call (.time 0 0), .extInteger 5 1]
      (compatibleContext 128) c t →
      t.pc.beCompatible = true ∧ (c.IsNumeric → t.pc.returnCode ≠ 0) := by
    intro c t h
    rcases makes_cons h with ⟨rfl, rfl⟩ | ⟨s₁, hcall, h⟩
    · exact ⟨rfl, False.elim⟩
    obtain rfl := Option.some.inj hcall
    rcases makes_cons h with ⟨rfl, rfl⟩ | ⟨s₂, hcall, h⟩
    · exact ⟨rfl, False.elim⟩
    obtain rfl := Option.some.inj hcall
    rcases makes_cons h with ⟨rfl, rfl⟩ | ⟨s₃, hcall, h⟩
    · exact ⟨rfl, False.elim⟩
    obtain rfl := Option.some.inj hcall
    rcases makes_cons h with ⟨rfl, rfl⟩ | ⟨s₄, hcall, h⟩
    · exact ⟨rfl, fun _ => by decide⟩
    · exact absurd h not_makes_nil
  refine ⟨_, rfl, rfl, rfl, (compatible_run_keeps_old_format (PackHandlers.static Unit) rfl
    fun c t h => (hmakes c t h).1).1 fun c t h => (hmakes c t h).2⟩

/-- A small integer is packed as an extension item although the mode forbids it. -/
theorem compatible_run_stores_fixext :
    ∃ s', run (PackingCall.perform (PackHandlers.static Unit)) [.extInteger 5 1]
        (compatibleContext 16) = some s' ∧
      (∀ c t, Makes (PackHandlers.static Unit) [.extInteger 5 1] (compatibleContext 16) c t →
        t.pc.beCompatible = true) ∧
      s'.pc.returnCode = cwpRcOk ∧ s'.mem.bytes 0 s'.pc.current = [0xd4, 5, 1] ∧
      ¬ OldItems (s'.mem.bytes 0 s'.pc.current) ∧
      ¬ KeepsOldFormat (PackHandlers.static Unit) [.extInteger 5 1] (compatibleContext 16) s' := by
  have hmode : ∀ c t,
      Makes (PackHandlers.static Unit) [.extInteger 5 1] (compatibleContext 16) c t →
      t.pc.beCompatible = true := by
    intro c t h
    rcases makes_cons h with ⟨-, rfl⟩ | ⟨_, -, h⟩
    · rfl
    · exact absurd h not_makes_nil
  refine ⟨_, rfl, hmode, rfl, by decide, fun h => ?_, fun h => ?_⟩
  · have hhead := OldItems.head (c := 0xd4) (w := [5, 1]) h
    exact hhead (by decide)
  · exact PackingCall.perform_numeric_ne (c := .extInteger 5 1) trivial rfl rfl
      (h.extensions _ _ makes_head trivial rfl)

end CWPack.Goodies
