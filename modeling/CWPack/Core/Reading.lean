/-
  Core/Reading.lean --- the unpacking routines deliver what is ahead.

  For any handler that feeds the bytes `b`, `cw_unpack_next` ends the way
  `readItem b` says: with an item that denotes the value read and the cursor past
  it, or stopped with the code.  Where inside the item the window runs out does
  not matter.
-/
import CWPack.Core.Feed

set_option autoImplicit false

namespace CWPack.Core

open CWPack.Foundation
open CWPack.MessagePack

variable {σ : Type}

/-! ## Loads are big-endian numerals -/

theorem load8_eq (m : Memory) (p : Nat) : (m p).toNat = ofBigEndian (m.bytes p 1) := by
  simp [Memory.bytes_succ, ofBigEndian]

theorem cwLoad16_eq (m : Memory) (p : Nat) : cwLoad16 m p = ofBigEndian (m.bytes p 2) := by
  have h : m.bytes p 2 = ([] ++ [m p]) ++ [m (p + 1)] := rfl
  rw [h, ofBigEndian_append, ofBigEndian_append]
  simp [ofBigEndian, cwLoad16]

theorem cwLoad32_eq (m : Memory) (p : Nat) : cwLoad32 m p = ofBigEndian (m.bytes p 4) := by
  have h : m.bytes p 4 = ((([] ++ [m p]) ++ [m (p + 1)]) ++ [m (p + 2)]) ++ [m (p + 3)] := rfl
  simp only [h, ofBigEndian_append, Nat.shiftLeft_or_distrib, ← Nat.shiftLeft_add]
  simp [ofBigEndian, cwLoad32]

theorem cwLoad64_eq (m : Memory) (p : Nat) : cwLoad64 m p = ofBigEndian (m.bytes p 8) := by
  have h : m.bytes p 8 = ((((((([] ++ [m p]) ++ [m (p + 1)]) ++ [m (p + 2)]) ++ [m (p + 3)]) ++
      [m (p + 4)]) ++ [m (p + 5)]) ++ [m (p + 6)]) ++ [m (p + 7)] := rfl
  simp only [h, ofBigEndian_append, Nat.shiftLeft_or_distrib, ← Nat.shiftLeft_add]
  simp [ofBigEndian, cwLoad64]

/-! ## Items that carry a value -/

/-- The item denotes `x` in every memory. -/
def Carries (item : CwpackItem) (x : Value) : Prop :=
  item.type = itemType x ∧ ∀ m, item.value m = some x

theorem value_str (p n : Nat) (m : Memory) :
    CwpackItem.value ⟨.str, .blob p n⟩ m = some (.str (m.bytes p n)) := rfl

theorem carries_u64 (n : Nat) : Carries ⟨.positiveInteger, .u64 n⟩ (.int n) :=
  ⟨by simp [itemType], fun _ => rfl⟩

theorem carries_nonneg {as : ItemAs} {v : Int} (hlo : 0 ≤ v) (hhi : v < 2 ^ 63)
    (has : as = .ofI64 v) : Carries ⟨.positiveInteger, as⟩ (.int v) := by
  subst has
  refine ⟨by simp [itemType, hlo], fun m => ?_⟩
  have hpat : toPattern 64 v = v.toNat := by
    unfold toPattern
    omega
  have hback : ((v.toNat : Nat) : Int) = v := Int.toNat_of_nonneg hlo
  simp only [CwpackItem.value, ItemAs.ofI64, ItemAs.front, hpat, hback]

theorem carries_negative {as : ItemAs} {v : Int} (hlo : -2 ^ 63 ≤ v) (hneg : v < 0)
    (has : as.i64 = v) : Carries ⟨.negativeInteger, as⟩ (.int v) := by
  have hnot : ¬ 0 ≤ v := by omega
  refine ⟨by simp [itemType, hnot], fun m => ?_⟩
  simp only [CwpackItem.value, has]

theorem twosComplement_bounds {w n : Nat} (hn : n < 2 ^ w) :
    -(2 ^ w) ≤ 2 * twosComplement w n ∧ 2 * twosComplement w n < 2 ^ w := by
  have hcast : ((2 ^ w : Nat) : Int) = 2 ^ w := by simp
  unfold twosComplement
  split <;> omega

/-- Retagging gives a stored signed number the type of its sign. -/
theorem retagSigned_spec {s : UnpackState σ} {v : Int} (htype : s.uc.item.type = .negativeInteger)
    (hlo : -2 ^ 63 ≤ v) (hhi : v < 2 ^ 63) (hi64 : s.uc.item.as.i64 = v)
    (hfront : 0 ≤ v → (s.uc.item.as.front : Int) = v) :
    ∃ s', retagSigned s = some s' ∧ s'.input = s.input ∧ s'.uc.returnCode = s.uc.returnCode ∧
      Carries s'.uc.item (.int v) := by
  unfold retagSigned
  rw [hi64]
  by_cases hv : v ≥ 0
  · rw [if_pos hv]
    refine ⟨_, rfl, rfl, rfl, ?_, fun m => ?_⟩
    · have hpos : 0 ≤ v := hv
      simp [itemType, hpos, UnpackState.setType]
    · have hvalue : (s.setType .positiveInteger).uc.item.value m =
          some (.int (s.uc.item.as.front : Int)) := rfl
      rw [hvalue, hfront hv]
  · rw [if_neg hv]
    refine ⟨s, rfl, rfl, rfl, ?_⟩
    have hitem : s.uc.item = ⟨.negativeInteger, s.uc.item.as⟩ := by rw [← htype]
    rw [hitem]
    exact carries_negative hlo (by omega) hi64

/-! ## The post-condition -/

/-- The routine has ended as `r` says: past an item of the bytes `rest`, or stopped. -/
def Delivers (inv : List UInt8 → UnpackInput σ → Prop) (stopped : UnpackInput σ → Prop)
    (rest : List UInt8) (r : Except Int (Value × Nat)) (s : UnpackState σ) : Prop :=
  match r with
  | .ok (v, n) => s.uc.returnCode = 0 ∧ s.Denotes v ∧ inv (rest.drop n) s.input
  | .error e => Stops stopped e s

section Rules

variable {H : Option (UnpackUnderflowHandler σ)} {stuck : Prop}
  {inv : List UInt8 → UnpackInput σ → Prop} {stopped : UnpackInput σ → Prop}
  {v : List UInt8} {s : UnpackState σ}

/-! ## Rules for the macros -/

/-- The rule for the macros that load a number. -/
theorem Feeds.getDDItemLoad (F : Feeds H stuck inv stopped) {w : Nat}
    {load : Memory → Nat → Nat} {typ : ItemType} {store : Nat → ItemAs → ItemAs}
    {k : UnpackState σ → Option (UnpackState σ)} {post : UnpackState σ → Prop}
    (hload : ∀ m p, load m p = ofBigEndian (m.bytes p w)) (hw : w < 2 ^ 32) (hinv : inv v s.input)
    (hshort : v.length < w → ∀ s', Stops stopped cwpRcBufferUnderflow s' → post s')
    (hok : w ≤ v.length → ∀ s' : UnpackState σ,
      s'.uc.item = ⟨typ, store (ofBigEndian (v.take w)) s.uc.item.as⟩ →
      s'.uc.returnCode = s.uc.returnCode → inv (v.drop w) s'.input → Ends stuck post (k s')) :
    Ends stuck post (Core.getDDItemLoad H w load typ store s k) := by
  have hinv' : inv v (s.setType typ).input := hinv
  unfold Core.getDDItemLoad cwUnpackAssertSpace
  refine F.assertSpace (n := w) hinv' (fun _ _ => rfl) hw hshort fun p s' h => ?_
  refine hok h.enough _ ?_ h.returnCode h.after
  have hitem := h.item
  simp only [UnpackState.setAs, UnpackState.setType, hload, h.bytes, hitem] at hitem ⊢

/-- The rule for `cw_unpack_assert_blob`. -/
theorem Feeds.assertBlob (F : Feeds H stuck inv stopped) {n : Nat} {post : UnpackState σ → Prop}
    (hinv : inv v s.input) (hback : s.uc.item.as.back = n) (hn : n < 2 ^ 32)
    (hshort : v.length < n → ∀ s', Stops stopped cwpRcBufferUnderflow s' → post s')
    (hok : n ≤ v.length → ∀ (p : Nat) (s' : UnpackState σ),
      s'.uc.item = ⟨s.uc.item.type, .blob p n⟩ → s'.mem.bytes p n = v.take n →
      s'.uc.returnCode = s.uc.returnCode → inv (v.drop n) s'.input → post s') :
    Ends stuck post (cwUnpackAssertBlob H s) := by
  refine F.assertSpace (n := n) hinv (fun uc huc => by rw [huc, hback]) hn hshort fun p s' h => ?_
  refine hok h.enough p _ ?_ h.bytes h.returnCode h.after
  have hitem := h.item
  simp only [UnpackState.setAs, hitem, ItemAs.setStart, hback]

/-! ## One rule for each format -/

variable {c : UInt8}

theorem drop_item (n : Nat) : (c :: v).drop (1 + n) = v.drop n := by
  rw [Nat.add_comm, List.drop_succ_cons]

theorem Feeds.single {x : Value} (hf : format c = some (.single x)) {s' : UnpackState σ}
    (hinv : inv v s'.input) (hrc : s'.uc.returnCode = 0) (hx : Carries s'.uc.item x) :
    Ends stuck (Delivers inv stopped (c :: v) (readItem (c :: v))) (some s') := by
  simp only [readItem, hf]
  exact ⟨hrc, ⟨hx.1, hx.2 _⟩, hinv⟩

theorem Feeds.number (F : Feeds H stuck inv stopped) {w : Nat} {mk : Nat → Value}
    {load : Memory → Nat → Nat} {typ : ItemType} {store : Nat → ItemAs → ItemAs}
    {k : UnpackState σ → Option (UnpackState σ)} (hf : format c = some (.number w mk))
    (hload : ∀ m p, load m p = ofBigEndian (m.bytes p w)) (hw : w < 2 ^ 32)
    (hinv : inv v s.input) (hrc : s.uc.returnCode = 0)
    (hk : ∀ n as s', n < 256 ^ w → s'.uc.item = ⟨typ, store n as⟩ → ∃ s'', k s' = some s'' ∧
      s''.input = s'.input ∧ s''.uc.returnCode = s'.uc.returnCode ∧ Carries s''.uc.item (mk n)) :
    Ends stuck (Delivers inv stopped (c :: v) (readItem (c :: v)))
      (Core.getDDItemLoad H w load typ store s k) := by
  have hread : readItem (c :: v) = ofDecoded (decodeRest v (.number w mk)) := by
    simp only [readItem, hf, readRest]
  rw [hread, decodeRest]
  refine F.getDDItemLoad hload hw hinv (fun hlt s' hstop => ?_) fun hle s' hitem hrc' hafter => ?_
  · rw [if_pos hlt]
    exact hstop
  · have hlen : (v.take w).length = w := by
      rw [List.length_take]
      omega
    have hbound : ofBigEndian (v.take w) < 256 ^ w := by
      have hlt := ofBigEndian_lt (v.take w)
      rwa [hlen] at hlt
    obtain ⟨s'', hks, hinput, hcode, hcarry⟩ := hk _ _ s' hbound hitem
    rw [hks, if_neg (by omega)]
    refine ⟨by rw [hcode, hrc', hrc], ⟨hcarry.1, hcarry.2 _⟩, ?_⟩
    rw [drop_item, hinput]
    exact hafter

/-- A blob whose length is in the item already. -/
theorem Feeds.payload (F : Feeds H stuck inv stopped) {n m : Nat} (mk : List UInt8 → Value)
    (hinv : inv (v.drop m) s.input) (hrc : s.uc.returnCode = 0) (hback : s.uc.item.as.back = n)
    (hn : n < 2 ^ 32) (hm : m ≤ v.length)
    (hmk : ∀ p (μ : Memory), itemType (mk (μ.bytes p n)) = s.uc.item.type ∧
      CwpackItem.value ⟨s.uc.item.type, .blob p n⟩ μ = some (mk (μ.bytes p n))) :
    Ends stuck
      (Delivers inv stopped (c :: v)
        (if v.length < m + n then .error cwpRcBufferUnderflow
          else .ok (mk ((v.drop m).take n), 1 + m + n)))
      (cwUnpackAssertBlob H s) := by
  refine F.assertBlob hinv hback hn (fun hlt s' hstop => ?_)
    fun hle p s' hitem hbytes hrc' hafter => ?_
  · rw [List.length_drop] at hlt
    rw [if_pos (by omega)]
    exact hstop
  · rw [List.length_drop] at hle
    rw [if_neg (by omega)]
    refine ⟨by rw [hrc', hrc], ?_, ?_⟩
    · obtain ⟨htype, hvalue⟩ := hmk p s'.mem
      unfold UnpackState.Denotes
      rw [hitem, ← hbytes]
      exact ⟨htype.symm, hvalue⟩
    · rw [Nat.add_assoc, drop_item, ← List.drop_drop]
      exact hafter

theorem Feeds.fixed (F : Feeds H stuck inv stopped) {n : Nat} {mk : List UInt8 → Value}
    (hf : format c = some (.fixed n mk)) (hinv : inv v s.input) (hrc : s.uc.returnCode = 0)
    (hback : s.uc.item.as.back = n) (hn : n < 2 ^ 32)
    (hmk : ∀ p (μ : Memory), itemType (mk (μ.bytes p n)) = s.uc.item.type ∧
      CwpackItem.value ⟨s.uc.item.type, .blob p n⟩ μ = some (mk (μ.bytes p n))) :
    Ends stuck (Delivers inv stopped (c :: v) (readItem (c :: v))) (cwUnpackAssertBlob H s) := by
  have h := F.payload (c := c) (m := 0) mk hinv hrc hback hn (by omega) hmk
  simp only [readItem, hf, readRest, decodeRest]
  rw [Nat.zero_add] at h
  split <;> rename_i hlt
  · rwa [if_pos hlt] at h
  · rwa [if_neg hlt] at h

/-- The length bytes that are there make a length below `2^32`. -/
theorem ofBigEndian_take_lt {w : Nat} (hw : w ≤ 4) (hle : w ≤ v.length) :
    ofBigEndian (v.take w) < 2 ^ 32 := by
  have hlt := ofBigEndian_lt (v.take w)
  have hlen : (v.take w).length = w := by
    rw [List.length_take]
    omega
  rw [hlen] at hlt
  exact Nat.lt_of_lt_of_le hlt (Nat.pow_le_pow_right (by decide) hw)

theorem Feeds.blob (F : Feeds H stuck inv stopped) {w : Nat} {mk : List UInt8 → Value}
    {load : Memory → Nat → Nat} {typ : ItemType} (hf : format c = some (.blob w mk))
    (hload : ∀ m p, load m p = ofBigEndian (m.bytes p w)) (hw : w ≤ 4) (hinv : inv v s.input)
    (hrc : s.uc.returnCode = 0)
    (hmk : ∀ n p (μ : Memory), itemType (mk (μ.bytes p n)) = typ ∧
      CwpackItem.value ⟨typ, .blob p n⟩ μ = some (mk (μ.bytes p n))) :
    Ends stuck (Delivers inv stopped (c :: v) (readItem (c :: v)))
      (Core.getDDItemLoad H w load typ storeLength s (cwUnpackAssertBlob H)) := by
  simp only [readItem, hf, readRest, decodeRest]
  refine F.getDDItemLoad hload (by omega) hinv (fun hlt s' hstop => ?_)
    fun hle s' hitem hrc' hafter => ?_
  · rw [if_pos hlt]
    exact hstop
  · rw [if_neg (by omega)]
    have htype : s'.uc.item.type = typ := by rw [hitem]
    have hback : s'.uc.item.as.back = ofBigEndian (v.take w) := by
      rw [hitem]
      rfl
    have h := F.payload (c := c) mk hafter (by rw [hrc', hrc]) hback
      (ofBigEndian_take_lt hw hle) hle (by rw [htype]; exact hmk _)
    by_cases hshort : v.length < w + ofBigEndian (v.take w)
    · rw [if_pos hshort] at h ⊢
      exact h
    · rw [if_neg hshort] at h ⊢
      exact h

/-- The first byte of what has been read. -/
theorem Reads.byte {rest : List UInt8} {n p : Nat} {s s' : UnpackState σ}
    (h : Reads inv rest (n + 1) p s s') : s'.mem p = rest.headD 0 := by
  have hbytes := h.bytes
  cases rest with
  | nil =>
      have hle := h.enough
      simp at hle
  | cons b bs =>
      rw [Memory.bytes_succ, List.take_succ_cons] at hbytes
      exact (List.cons.inj hbytes).1

/-- The bytes behind the first. -/
theorem Reads.tail {rest : List UInt8} {n p : Nat} {s s' : UnpackState σ}
    (h : Reads inv rest (n + 1) p s s') : s'.mem.bytes (p + 1) n = (rest.drop 1).take n := by
  have hbytes := congrArg (List.drop 1) h.bytes
  rwa [Memory.bytes_drop _ (by omega), Nat.add_sub_cancel, List.drop_take,
    Nat.add_sub_cancel] at hbytes

/-- The payload of an extension item, behind its length and type. -/
theorem Feeds.extPayload (F : Feeds H stuck inv stopped) {w : Nat} (hw : w ≤ 4)
    (hle : w + 1 ≤ v.length) (hinv : inv (v.drop (w + 1)) s.input) (hrc : s.uc.returnCode = 0)
    (htype : s.uc.item.type = .ext ((v.drop w).headD 0).toInt8)
    (hback : s.uc.item.as.back = ofBigEndian (v.take w)) :
    Ends stuck (Delivers inv stopped (c :: v) (ofDecoded (decodeRest v (.ext w))))
      (cwUnpackAssertBlob H s) := by
  rw [ofDecoded_ext hle]
  refine F.payload (.ext ((v.drop w).headD 0).toInt8) hinv hrc hback
    (ofBigEndian_take_lt hw (by omega)) hle fun p μ => ?_
  rw [htype]
  exact ⟨rfl, rfl⟩

theorem Feeds.ext (F : Feeds H stuck inv stopped) {w : Nat} {load : Memory → Nat → Nat}
    (hf : format c = some (.ext w)) (hload : ∀ m p, load m p = ofBigEndian (m.bytes p w))
    (hw : w ≤ 4) (hne : w ≠ 1) (hinv : inv v s.input) (hrc : s.uc.returnCode = 0) :
    Ends stuck (Delivers inv stopped (c :: v) (readItem (c :: v)))
      (Core.getDDItemLoad H w load .extItem storeLength s fun s =>
        cwUnpackAssertSpace H cwpRcBufferUnderflow 1 s fun p s =>
          cwUnpackAssertBlob H (s.setType (.ext (s.mem p).toInt8))) := by
  simp only [readItem, hf, readRest_ext_of_ne v hne]
  refine F.getDDItemLoad hload (by omega) hinv (fun hlt s' hstop => ?_)
    fun hle s₁ hitem hrc₁ hafter => ?_
  · rw [ofDecoded_ext_short (by omega)]
    exact hstop
  · unfold cwUnpackAssertSpace
    refine F.assertSpace (n := 1) hafter (fun _ _ => rfl) (by decide) (fun hlt s' hstop => ?_)
      fun p s₂ h => ?_
    · rw [List.length_drop] at hlt
      rw [ofDecoded_ext_short (by omega)]
      exact hstop
    · have henough := h.enough
      rw [List.length_drop] at henough
      have hdrop := h.after
      rw [List.drop_drop] at hdrop
      refine F.extPayload hw (by omega) hdrop ?_ ?_ ?_
      · show s₂.uc.returnCode = 0
        rw [h.returnCode, hrc₁, hrc]
      · show ItemType.ext (s₂.mem p).toInt8 = _
        rw [h.byte]
      · show s₂.uc.item.as.back = _
        rw [h.item, hitem]
        rfl

/-- The number of nanoseconds of a 96-bit timestamp, then the seconds. -/
theorem Feeds.timestamp96 (F : Feeds H stuck inv stopped) (hinv : inv (v.drop 2) s.input)
    (hrc : s.uc.returnCode = 0) (htype : s.uc.item.type = .timestamp) (hle : 2 ≤ v.length) :
    Ends stuck
      (Delivers inv stopped (c :: v)
        (if v.length < 14 then .error cwpRcBufferUnderflow
          else .ok (timestampValue ((v.drop 2).take 12), 15)))
      (cwUnpackAssertSpace H cwpRcBufferUnderflow 4 s fun p s =>
        let s := s.setAs (s.uc.item.as.setTvNsec (cwLoad32 s.mem p))
        cwUnpackAssertSpace H cwpRcBufferUnderflow 8 s fun p s =>
          some (s.setAs (s.uc.item.as.setTvSec (twosComplement 64 (cwLoad64 s.mem p))))) := by
  unfold cwUnpackAssertSpace
  refine F.assertSpace (n := 4) hinv (fun _ _ => rfl) (by decide) (fun hlt s' hstop => ?_)
    fun p s₁ h₁ => ?_
  · rw [List.length_drop] at hlt
    rw [if_pos (by omega)]
    exact hstop
  · have hinv₁ : inv ((v.drop 2).drop 4)
        (s₁.setAs (s₁.uc.item.as.setTvNsec (cwLoad32 s₁.mem p))).input := h₁.after
    refine F.assertSpace (n := 8) hinv₁ (fun _ _ => rfl) (by decide) (fun hlt s' hstop => ?_)
      fun q s₂ h₂ => ?_
    · rw [List.length_drop, List.length_drop] at hlt
      rw [if_pos (by omega)]
      exact hstop
    · have henough := h₂.enough
      rw [List.length_drop, List.length_drop] at henough
      rw [if_neg (by omega)]
      have hlen : ((v.drop 2).take 12).length = 12 := by
        rw [List.length_take, List.length_drop]
        omega
      have hnsec : cwLoad32 s₁.mem p = ofBigEndian (((v.drop 2).take 12).take 4) := by
        rw [cwLoad32_eq, h₁.bytes, List.take_take]
        rfl
      have hsec : cwLoad64 s₂.mem q = ofBigEndian (((v.drop 2).take 12).drop 4) := by
        rw [cwLoad64_eq, h₂.bytes, List.drop_take]
      have hvalue : timestampValue ((v.drop 2).take 12) =
          .timestamp (twosComplement 64 (cwLoad64 s₂.mem q)) (cwLoad32 s₁.mem p) := by
        rw [timestampValue, if_neg (by omega), if_neg (by omega), hnsec, hsec]
      rw [hvalue]
      refine ⟨?_, ⟨?_, ?_⟩, ?_⟩
      · show s₂.uc.returnCode = 0
        rw [h₂.returnCode]
        show s₁.uc.returnCode = 0
        rw [h₁.returnCode, hrc]
      · show s₂.uc.item.type = _
        rw [h₂.item]
        show s₁.uc.item.type = _
        rw [h₁.item, htype]
        rfl
      · have hitem : s₂.uc.item =
            ⟨.timestamp, s₁.uc.item.as.setTvNsec (cwLoad32 s₁.mem p)⟩ := by
          rw [h₂.item]
          show (⟨s₁.uc.item.type, _⟩ : CwpackItem) = _
          rw [h₁.item, htype]
        simp only [UnpackState.setAs, hitem]
        rfl
      · have hdrop := h₂.after
        rw [List.drop_drop, List.drop_drop] at hdrop
        have h15 : (c :: v).drop 15 = v.drop 14 := rfl
        rw [h15]
        exact hdrop

theorem Feeds.ext8 (F : Feeds H stuck inv stopped) (hf : format c = some (.ext 1))
    (hinv : inv v s.input) (hrc : s.uc.returnCode = 0) :
    Ends stuck (Delivers inv stopped (c :: v) (readItem (c :: v)))
      (getDDItem1 H .extItem storeLength s fun s =>
        cwUnpackAssertSpace H cwpRcBufferUnderflow 1 s fun p s =>
          let s := s.setType (.ext (s.mem p).toInt8)
          if s.uc.item.type = .timestamp then
            if s.uc.item.as.back = 12 then
              cwUnpackAssertSpace H cwpRcBufferUnderflow 4 s fun p s =>
                let s := s.setAs (s.uc.item.as.setTvNsec (cwLoad32 s.mem p))
                cwUnpackAssertSpace H cwpRcBufferUnderflow 8 s fun p s =>
                  some (s.setAs (s.uc.item.as.setTvSec (twosComplement 64 (cwLoad64 s.mem p))))
            else unpackError cwpRcWrongTimestampLength s
          else cwUnpackAssertBlob H s) := by
  simp only [readItem, hf, readRest]
  refine F.getDDItemLoad load8_eq (by decide) hinv (fun hlt s' hstop => ?_)
    fun hle s₁ hitem hrc₁ hafter => ?_
  · rw [if_pos (by omega)]
    exact hstop
  · rw [cwUnpackAssertSpace]
    refine F.assertSpace (n := 1) hafter (fun _ _ => rfl) (by decide) (fun hlt s' hstop => ?_)
      fun p s₂ h => ?_
    · rw [List.length_drop] at hlt
      rw [if_pos (by omega)]
      exact hstop
    · have henough := h.enough
      rw [List.length_drop] at henough
      rw [if_neg (by omega)]
      have hdrop := h.after
      rw [List.drop_drop] at hdrop
      have hrc₂ : s₂.uc.returnCode = 0 := by rw [h.returnCode, hrc₁, hrc]
      have hback : s₂.uc.item.as.back = ofBigEndian (v.take 1) := by
        rw [h.item, hitem]
        rfl
      have htwelve : ofBigEndian (v.take 1) = (v.headD 0).toNat := by
        cases v with
        | nil => simp at hle
        | cons b bs => simp [ofBigEndian]
      show Ends stuck _ (if ItemType.ext (s₂.mem p).toInt8 = .timestamp then
        (if s₂.uc.item.as.back = 12 then _ else _) else _)
      have htag : ItemType.ext ((v.drop 1).headD 0).toInt8 = .timestamp ↔
          ((v.drop 1).headD 0).toInt8 = -1 := by rw [ItemType.ext.injEq]
      rw [h.byte]
      by_cases htype : ((v.drop 1).headD 0).toInt8 = -1
      · rw [if_pos (htag.mpr htype), if_pos htype, hback, htwelve]
        by_cases hlen : (v.headD 0).toNat = 12
        · rw [if_pos hlen, if_pos hlen]
          refine F.timestamp96 hdrop hrc₂ ?_ (by omega)
          show ItemType.ext _ = _
          rw [htype]
        · rw [if_neg hlen, if_neg hlen]
          exact ⟨rfl, rfl, F.stops hdrop⟩
      · rw [if_neg fun h => htype (htag.mp h), if_neg htype]
        exact F.extPayload (w := 1) (by decide) (by omega) hdrop hrc₂ rfl hback

theorem Feeds.fixext (F : Feeds H stuck inv stopped) {n : Nat}
    (hf : format c = some (.fixext n)) (hn : n ≤ 16) (hinv : inv v s.input)
    (hrc : s.uc.returnCode = 0) :
    Ends stuck (Delivers inv stopped (c :: v) (readItem (c :: v))) (getDDItemFix H n s) := by
  simp only [readItem, hf, readRest]
  unfold getDDItemFix cwUnpackAssertSpace
  refine F.assertSpace (n := n + 1) hinv (fun _ _ => rfl) (by omega) (fun hlt s' hstop => ?_)
    fun p s₁ h => ?_
  · rw [if_pos hlt]
    exact hstop
  · have henough := h.enough
    rw [if_neg (by omega)]
    have hrc₁ : s₁.uc.returnCode = 0 := by rw [h.returnCode, hrc]
    have hafter : inv ((c :: v).drop (2 + n)) s₁.input := by
      have hsum : 2 + n = 1 + (n + 1) := by omega
      rw [hsum, drop_item]
      exact h.after
    have htag : ItemType.ext (v.headD 0).toInt8 = .timestamp ↔ (v.headD 0).toInt8 = -1 := by
      rw [ItemType.ext.injEq]
    have hlen : ((v.drop 1).take n).length = n := by
      rw [List.length_take, List.length_drop]
      omega
    show Ends stuck _ (if ItemType.ext (s₁.mem p).toInt8 = .timestamp then
      (if n = 4 then _ else if n = 8 then _ else _) else _)
    rw [h.byte]
    by_cases htype : (v.headD 0).toInt8 = -1
    · rw [if_pos (htag.mpr htype), if_pos htype]
      have hts : ∀ sec nsec as, as = ItemAs.time sec nsec →
          timestampValue ((v.drop 1).take n) = .timestamp sec nsec →
          Delivers inv stopped (c :: v) (.ok (timestampValue ((v.drop 1).take n), 2 + n))
            ((s₁.setType (.ext (v.headD 0).toInt8)).setAs as) := by
        intro sec nsec as has hvalue
        rw [hvalue, htype, has]
        exact ⟨hrc₁, ⟨rfl, rfl⟩, hafter⟩
      by_cases h4 : n = 4
      · rw [if_pos h4, if_pos (Or.inl h4)]
        subst h4
        have hload : cwLoad32 s₁.mem (p + 1) < 2 ^ 32 := by
          rw [cwLoad32_eq]
          have hlt := ofBigEndian_lt (s₁.mem.bytes (p + 1) 4)
          rwa [Memory.bytes_length] at hlt
        have hsec : ((cwLoad32 s₁.mem (p + 1) : Nat) : Int) < 2 ^ 63 := by omega
        refine hts (cwLoad32 s₁.mem (p + 1)) 0 _
          (ItemAs.setTvNsec_setTvSec _ _ (by omega) hsec) ?_
        rw [timestampValue, if_pos hlen, ← h.tail, ← cwLoad32_eq]
      · rw [if_neg h4]
        by_cases h8 : n = 8
        · rw [if_pos h8, if_pos (Or.inr h8)]
          subst h8
          have hmask : ∀ x : Nat, x &&& 0x00000003ffffffff = x % 2 ^ 34 := fun x =>
            Nat.and_two_pow_sub_one_eq_mod x 34
          have hload : cwLoad64 s₁.mem (p + 1) &&& 0x00000003ffffffff < 2 ^ 34 := by
            rw [hmask]
            exact Nat.mod_lt _ (by decide)
          have hsec : ((cwLoad64 s₁.mem (p + 1) &&& 0x00000003ffffffff : Nat) : Int) < 2 ^ 63 := by
            omega
          refine hts _ (cwLoad64 s₁.mem (p + 1) >>> 34) _
            (ItemAs.setTvNsec_setTvSec _ _ (by omega) hsec) ?_
          rw [timestampValue, if_neg (by omega), if_pos hlen, ← h.tail, ← cwLoad64_eq, ← hmask,
            ← Nat.shiftRight_eq_div_pow]
          rfl
        · rw [if_neg h8, if_neg (by omega)]
          exact ⟨rfl, rfl, F.stops h.after⟩
    · rw [if_neg fun h => htype (htag.mp h), if_neg htype]
      refine ⟨hrc₁, ⟨rfl, ?_⟩, hafter⟩
      rw [← h.tail]
      rfl

/-! ## The switch -/

theorem and_pred_eq {x w b : Nat} (hlo : b ≤ x) (hhi : x < b + 2 ^ w) (hb : 2 ^ w ∣ b) :
    x &&& (2 ^ w - 1) = x - b := by
  obtain ⟨q, rfl⟩ := hb
  rw [Nat.and_two_pow_sub_one_eq_mod]
  have hx : x = (x - 2 ^ w * q) + 2 ^ w * q := by omega
  rw [hx, Nat.add_mul_mod_self_left, Nat.add_sub_cancel, Nat.mod_eq_of_lt (by omega)]

/-- A signed format of `w` bits delivers the number in it. -/
theorem retag_storeI64 {w n : Nat} (hw : w ≤ 64) (hn : n < 2 ^ w) {as : ItemAs}
    {s' : UnpackState σ} (hitem : s'.uc.item = ⟨.negativeInteger, storeI64 w n as⟩) :
    ∃ s'', retagSigned s' = some s'' ∧ s''.input = s'.input ∧
      s''.uc.returnCode = s'.uc.returnCode ∧ Carries s''.uc.item (.int (twosComplement w n)) := by
  obtain ⟨hlo, hhi⟩ := twosComplement_bounds hn
  have hpow : (2 : Int) ^ w ≤ 2 ^ 64 := by
    have hnat := Nat.pow_le_pow_right (n := 2) (by decide) hw
    have hcast : ((2 ^ w : Nat) : Int) = 2 ^ w := by simp
    omega
  have hi64 : s'.uc.item.as.i64 = twosComplement w n := by
    rw [hitem]
    exact ItemAs.i64_ofI64 (by omega) (by omega)
  refine retagSigned_spec (by rw [hitem]) (by omega) (by omega) hi64 fun hpos => ?_
  rw [hitem]
  show ((toPattern 64 (twosComplement w n) : Nat) : Int) = _
  unfold toPattern
  omega

theorem retag_u64 {n : Nat} (hn : n < 2 ^ 64) {as : ItemAs} {s' : UnpackState σ}
    (hitem : s'.uc.item = ⟨.negativeInteger, storeU64 n as⟩) :
    ∃ s'', retagSigned s' = some s'' ∧ s''.input = s'.input ∧
      s''.uc.returnCode = s'.uc.returnCode ∧ Carries s''.uc.item (.int (twosComplement 64 n)) := by
  obtain ⟨hlo, hhi⟩ := twosComplement_bounds hn
  have hi64 : s'.uc.item.as.i64 = twosComplement 64 n := by rw [hitem]; rfl
  refine retagSigned_spec (by rw [hitem]) (by omega) (by omega) hi64 fun hpos => ?_
  rw [hitem]
  show ((n : Nat) : Int) = _
  unfold twosComplement at hpos ⊢
  split <;> omega

/-- An item that is stored as it is delivered. -/
theorem keeps {item : CwpackItem} {x : Value} {s' : UnpackState σ} (hitem : s'.uc.item = item)
    (hx : Carries item x) :
    ∃ s'', some s' = some s'' ∧ s''.input = s'.input ∧
      s''.uc.returnCode = s'.uc.returnCode ∧ Carries s''.uc.item x :=
  ⟨s', rfl, rfl, rfl, by rw [hitem]; exact hx⟩

theorem unpackSwitch_spec (F : Feeds H stuck inv stopped) (hinv : inv v s.input)
    (hrc : s.uc.returnCode = 0) :
    Ends stuck (Delivers inv stopped (c :: v) (readItem (c :: v))) (unpackSwitch H c.toNat s) := by
  have hc := c.toNat_lt
  unfold unpackSwitch
  refine firstByte_ranges (P := Ends stuck (Delivers inv stopped (c :: v) (readItem (c :: v))))
    (fun _ hf => ?_) (fun hlo hhi hf => ?_) (fun hlo hhi hf => ?_) (fun hlo hhi hf => ?_)
    (fun hlo hf => ?_) (fun hlo hhi => ?_)
  · exact Feeds.single hf hinv hrc (carries_nonneg (by omega) (by omega) rfl)
  · have hsize : c.toNat &&& 0x0f = c.toNat - 0x80 :=
      and_pred_eq (w := 4) (by omega) (by omega) (by decide)
    rw [hsize]
    exact Feeds.single hf hinv hrc ⟨rfl, fun _ => rfl⟩
  · have hsize : c.toNat &&& 0x0f = c.toNat - 0x90 :=
      and_pred_eq (w := 4) (by omega) (by omega) (by decide)
    rw [hsize]
    exact Feeds.single hf hinv hrc ⟨rfl, fun _ => rfl⟩
  · have hsize : c.toNat &&& 0x1f = c.toNat - 0xa0 :=
      and_pred_eq (w := 5) (by omega) (by omega) (by decide)
    have hlt : c.toNat - 0xa0 < 2 ^ 32 := by omega
    rw [hsize]
    generalize c.toNat - 0xa0 = n at hf hlt ⊢
    exact F.fixed hf hinv hrc rfl hlt fun p μ => ⟨rfl, value_str p n μ⟩
  · have htwos : twosComplement 8 c.toNat = (c.toNat : Int) - 256 := by
      unfold twosComplement
      rw [if_neg (by omega)]
      rfl
    have hi64 : (storeI64 8 c.toNat s.uc.item.as).i64 = (c.toNat : Int) - 256 := by
      unfold storeI64
      rw [ItemAs.i64_ofI64 (by omega) (by omega), htwos]
    exact Feeds.single hf hinv hrc (carries_negative (by omega) (by omega) hi64)
  -- the remaining bytes have an entry each, in the table and in the switch
  have hstr : ∀ n p (μ : Memory), itemType (.str (μ.bytes p n)) = .str ∧
      CwpackItem.value ⟨.str, .blob p n⟩ μ = some (.str (μ.bytes p n)) := fun _ _ _ => ⟨rfl, rfl⟩
  have hbin : ∀ n p (μ : Memory), itemType (.bin (μ.bytes p n)) = .bin ∧
      CwpackItem.value ⟨.bin, .blob p n⟩ μ = some (.bin (μ.bytes p n)) := fun _ _ _ => ⟨rfl, rfl⟩
  split
  case h_1 heq => exact Feeds.single (format_of_toNat heq rfl) hinv hrc ⟨rfl, fun _ => rfl⟩
  case h_2 heq => exact Feeds.single (format_of_toNat heq rfl) hinv hrc ⟨rfl, fun _ => rfl⟩
  case h_3 heq => exact Feeds.single (format_of_toNat heq rfl) hinv hrc ⟨rfl, fun _ => rfl⟩
  case h_4 heq => exact F.blob (format_of_toNat heq rfl) load8_eq (by decide) hinv hrc hbin
  case h_5 heq => exact F.blob (format_of_toNat heq rfl) cwLoad16_eq (by decide) hinv hrc hbin
  case h_6 heq => exact F.blob (format_of_toNat heq rfl) cwLoad32_eq (by decide) hinv hrc hbin
  case h_7 heq => exact F.ext8 (format_of_toNat heq rfl) hinv hrc
  case h_8 heq => exact F.ext (format_of_toNat heq rfl) cwLoad16_eq (by decide) (by decide) hinv hrc
  case h_9 heq => exact F.ext (format_of_toNat heq rfl) cwLoad32_eq (by decide) (by decide) hinv hrc
  case h_10 heq =>
    exact F.number (format_of_toNat heq rfl) cwLoad32_eq (by decide) hinv hrc fun _ _ _ _ hitem =>
      keeps hitem ⟨rfl, fun _ => rfl⟩
  case h_11 heq =>
    exact F.number (format_of_toNat heq rfl) cwLoad64_eq (by decide) hinv hrc fun _ _ _ _ hitem =>
      keeps hitem ⟨rfl, fun _ => rfl⟩
  case h_12 heq =>
    exact F.number (format_of_toNat heq rfl) load8_eq (by decide) hinv hrc fun n _ _ _ hitem =>
      keeps hitem (carries_u64 n)
  case h_13 heq =>
    exact F.number (format_of_toNat heq rfl) cwLoad16_eq (by decide) hinv hrc fun n _ _ _ hitem =>
      keeps hitem (carries_u64 n)
  case h_14 heq =>
    exact F.number (format_of_toNat heq rfl) cwLoad32_eq (by decide) hinv hrc fun n _ _ _ hitem =>
      keeps hitem (carries_u64 n)
  case h_15 heq =>
    exact F.number (format_of_toNat heq rfl) cwLoad64_eq (by decide) hinv hrc fun n _ _ _ hitem =>
      keeps hitem (carries_u64 n)
  case h_16 heq =>
    exact F.number (format_of_toNat heq rfl) load8_eq (by decide) hinv hrc fun _ _ _ hn hitem =>
      retag_storeI64 (by decide) hn hitem
  case h_17 heq =>
    exact F.number (format_of_toNat heq rfl) cwLoad16_eq (by decide) hinv hrc fun _ _ _ hn hitem =>
      retag_storeI64 (by decide) hn hitem
  case h_18 heq =>
    exact F.number (format_of_toNat heq rfl) cwLoad32_eq (by decide) hinv hrc fun _ _ _ hn hitem =>
      retag_storeI64 (by decide) hn hitem
  case h_19 heq =>
    exact F.number (format_of_toNat heq rfl) cwLoad64_eq (by decide) hinv hrc fun _ _ _ hn hitem =>
      retag_u64 hn hitem
  case h_20 heq => exact F.fixext (format_of_toNat heq rfl) (by decide) hinv hrc
  case h_21 heq => exact F.fixext (format_of_toNat heq rfl) (by decide) hinv hrc
  case h_22 heq => exact F.fixext (format_of_toNat heq rfl) (by decide) hinv hrc
  case h_23 heq => exact F.fixext (format_of_toNat heq rfl) (by decide) hinv hrc
  case h_24 heq => exact F.fixext (format_of_toNat heq rfl) (by decide) hinv hrc
  case h_25 heq => exact F.blob (format_of_toNat heq rfl) load8_eq (by decide) hinv hrc hstr
  case h_26 heq => exact F.blob (format_of_toNat heq rfl) cwLoad16_eq (by decide) hinv hrc hstr
  case h_27 heq => exact F.blob (format_of_toNat heq rfl) cwLoad32_eq (by decide) hinv hrc hstr
  case h_28 heq =>
    exact F.number (format_of_toNat heq rfl) cwLoad16_eq (by decide) hinv hrc fun _ _ _ _ hitem =>
      keeps hitem ⟨rfl, fun _ => rfl⟩
  case h_29 heq =>
    exact F.number (format_of_toNat heq rfl) cwLoad32_eq (by decide) hinv hrc fun _ _ _ _ hitem =>
      keeps hitem ⟨rfl, fun _ => rfl⟩
  case h_30 heq =>
    exact F.number (format_of_toNat heq rfl) cwLoad16_eq (by decide) hinv hrc fun _ _ _ _ hitem =>
      keeps hitem ⟨rfl, fun _ => rfl⟩
  case h_31 heq =>
    exact F.number (format_of_toNat heq rfl) cwLoad32_eq (by decide) hinv hrc fun _ _ _ _ hitem =>
      keeps hitem ⟨rfl, fun _ => rfl⟩
  case h_32 =>
    have hunused : c.toNat = 0xc1 := by
      simp only [imp_false] at *
      omega
    have hnone : format c = none := format_unused hunused
    simp only [readItem, hnone]
    exact ⟨rfl, rfl, F.stops hinv⟩

/-- The routine delivers what is ahead. -/
theorem cwUnpackNext_spec (F : Feeds H stuck inv stopped) {b : List UInt8} (hinv : inv b s.input)
    (hrc : s.uc.returnCode = 0) :
    Ends stuck (Delivers inv stopped b (readItem b)) (cwUnpackNext H s) := by
  unfold cwUnpackNext cwUnpackAssertSpace
  rw [if_neg (by simp [hrc])]
  refine F.assertSpace (n := 1) hinv (fun _ _ => rfl) (by decide) (fun hlt s' hstop => ?_)
    fun p s₁ h => ?_
  · have hnil : b = [] := List.eq_nil_of_length_eq_zero (by omega)
    subst hnil
    exact hstop
  · have henough := h.enough
    cases b with
    | nil => simp at henough
    | cons c v =>
        rw [h.byte]
        exact unpackSwitch_spec F h.after (by rw [h.returnCode, hrc])

end Rules

end CWPack.Core
