/-
  Core/Skipping.lean --- skipping and looking ahead.

  For any handler that feeds the bytes `b`, `cw_skip_items` ends the way
  `skipItems n b` says, and `cw_look_ahead` the way `lookItem b` says, with the
  bytes ahead as they were.  A turn of the skipping loop consumes a byte of `b`,
  so as many turns as `b` is long are enough.
-/
import CWPack.Core.Reading

set_option autoImplicit false

namespace CWPack.Core

open CWPack.Foundation
open CWPack.MessagePack

variable {σ : Type}

/-- Skipping has ended as `r` says: before the bytes left, or stopped. -/
def Skips (inv : List UInt8 → UnpackInput σ → Prop) (stopped : UnpackInput σ → Prop)
    (r : Except Int (List UInt8)) (s : UnpackState σ) : Prop :=
  match r with
  | .ok rest => s.uc.returnCode = 0 ∧ inv rest s.input
  | .error e => Stops stopped e s

section Rules

variable {H : Option (UnpackUnderflowHandler σ)} {stuck : Prop}
  {inv : List UInt8 → UnpackInput σ → Prop} {stopped : UnpackInput σ → Prop}
  {v : List UInt8} {s : UnpackState σ} {c : UInt8}
  {itemCount : Int64} {loop : Int64 → UnpackState σ → Option (UnpackState σ)}
  {post : UnpackState σ → Prop}

/-! ## One turn -/

/-- What the rest of the loop must do after a turn with outcome `r`. -/
def Turn (inv : List UInt8 → UnpackInput σ → Prop) (stopped : UnpackInput σ → Prop) (stuck : Prop)
    (post : UnpackState σ → Prop) (itemCount : Int64)
    (loop : Int64 → UnpackState σ → Option (UnpackState σ)) (b : List UInt8)
    (r : Except Int (Nat × Nat)) : Prop :=
  match r with
  | .ok (n, k) => ∀ s : UnpackState σ, inv (b.drop n) s.input → s.uc.returnCode = 0 →
      Ends stuck post (loop (itemCount + Int64.ofNat k) s)
  | .error e => ∀ s, Stops stopped e s → post s

theorem Turn.leaf (h : Turn inv stopped stuck post itemCount loop (c :: v) (.ok (1, 0)))
    (hinv : inv v s.input) (hrc : s.uc.returnCode = 0) : Ends stuck post (loop itemCount s) := by
  have hnext := h s hinv hrc
  have hzero : itemCount + Int64.ofNat 0 = itemCount := Int64.add_zero itemCount
  rwa [hzero] at hnext

/-- The rule for `cw_skip_bytes`, behind `m` bytes that are there. -/
theorem Feeds.skipBytes (F : Feeds H stuck inv stopped) {m n : Nat}
    (h : Turn inv stopped stuck post itemCount loop (c :: v)
      (if v.length < m + n then .error cwpRcBufferUnderflow else .ok (1 + m + n, 0)))
    (hinv : inv (v.drop m) s.input) (hrc : s.uc.returnCode = 0) (hm : m ≤ v.length)
    (hn : n < 2 ^ 32) :
    Ends stuck post
      (cwUnpackAssertSpace H cwpRcBufferUnderflow n s fun _ s => loop itemCount s) := by
  unfold cwUnpackAssertSpace
  refine F.assertSpace (n := n) hinv (fun _ _ => rfl) hn (fun hlt s' hstop => ?_) fun p s' hr => ?_
  · rw [List.length_drop] at hlt
    rw [if_pos (by omega)] at h
    exact h s' hstop
  · have henough := hr.enough
    rw [List.length_drop] at henough
    rw [if_neg (by omega)] at h
    have hzero : itemCount + Int64.ofNat 0 = itemCount := Int64.add_zero itemCount
    have hnext := h s' (by rw [Nat.add_assoc, drop_item, ← List.drop_drop]; exact hr.after)
      (by rw [hr.returnCode, hrc])
    rwa [hzero] at hnext

/-- A length or a size is loaded first. -/
theorem Feeds.load (F : Feeds H stuck inv stopped) {w : Nat} {load : Memory → Nat → Nat}
    {k : Nat → UnpackState σ → Option (UnpackState σ)}
    (hload : ∀ m p, load m p = ofBigEndian (m.bytes p w)) (hw : w ≤ 4) (hinv : inv v s.input)
    (hrc : s.uc.returnCode = 0)
    (hshort : v.length < w → ∀ s', Stops stopped cwpRcBufferUnderflow s' → post s')
    (hok : w ≤ v.length → ∀ s' : UnpackState σ, inv (v.drop w) s'.input →
      s'.uc.returnCode = 0 → Ends stuck post (k (ofBigEndian (v.take w)) s')) :
    Ends stuck post
      (cwUnpackAssertSpace H cwpRcBufferUnderflow w s fun p s => k (load s.mem p) s) := by
  unfold cwUnpackAssertSpace
  refine F.assertSpace (n := w) hinv (fun _ _ => rfl) (by omega) hshort fun p s' hr => ?_
  rw [hload, hr.bytes]
  exact hok hr.enough s' hr.after (by rw [hr.returnCode, hrc])

/-- The header of a container, with its size behind it. -/
theorem Feeds.skipSize (F : Feeds H stuck inv stopped) {w : Nat} {mk : Nat → Value}
    {load : Memory → Nat → Nat} {k : Nat → Nat} (hf : format c = some (.number w mk))
    (h : Turn inv stopped stuck post itemCount loop (c :: v) (skipItem (c :: v)))
    (hload : ∀ m p, load m p = ofBigEndian (m.bytes p w)) (hw : w ≤ 4)
    (hitems : ∀ n, n < 256 ^ w → (mk n).children % 2 ^ 32 = k n) (hinv : inv v s.input)
    (hrc : s.uc.returnCode = 0) :
    Ends stuck post
      (cwUnpackAssertSpace H cwpRcBufferUnderflow w s fun p s =>
        loop (itemCount + Int64.ofNat (k (load s.mem p))) s) := by
  simp only [skipItem, hf, skipRest] at h
  refine F.load (k := fun n s => loop (itemCount + Int64.ofNat (k n)) s) hload hw hinv hrc
    (fun hlt s' hstop => ?_) fun hle s' hinv' hrc' => ?_
  · rw [if_pos hlt] at h
    exact h s' hstop
  · have hlt := ofBigEndian_lt (v.take w)
    rw [List.length_take, Nat.min_eq_left hle] at hlt
    rw [if_neg (by omega), hitems _ hlt] at h
    exact h s' (by rw [drop_item]; exact hinv') hrc'

/-- A blob, with its length before it. -/
theorem Feeds.skipBlob (F : Feeds H stuck inv stopped) {w : Nat} {mk : List UInt8 → Value}
    {load : Memory → Nat → Nat} (hf : format c = some (.blob w mk))
    (h : Turn inv stopped stuck post itemCount loop (c :: v) (skipItem (c :: v)))
    (hload : ∀ m p, load m p = ofBigEndian (m.bytes p w)) (hw : w ≤ 4) (hinv : inv v s.input)
    (hrc : s.uc.returnCode = 0) :
    Ends stuck post
      (cwUnpackAssertSpace H cwpRcBufferUnderflow w s fun p s =>
        cwUnpackAssertSpace H cwpRcBufferUnderflow (load s.mem p) s fun _ s =>
          loop itemCount s) := by
  simp only [skipItem, hf, skipRest] at h
  refine F.load
    (k := fun n s => cwUnpackAssertSpace H cwpRcBufferUnderflow n s fun _ s => loop itemCount s)
    hload hw hinv hrc (fun hlt s' hstop => ?_) fun hle s' hinv' hrc' => ?_
  · rw [if_pos hlt] at h
    exact h s' hstop
  · rw [if_neg (by omega)] at h
    exact F.skipBytes h hinv' hrc' hle (ofBigEndian_take_lt hw hle)

/-- An extension item, with its length before it; the type byte is skipped along. -/
theorem Feeds.skipExt (F : Feeds H stuck inv stopped) {w : Nat} {load : Memory → Nat → Nat}
    {k : Nat → Nat} (hf : format c = some (.ext w))
    (h : Turn inv stopped stuck post itemCount loop (c :: v) (skipItem (c :: v)))
    (hload : ∀ m p, load m p = ofBigEndian (m.bytes p w)) (hw : w ≤ 4)
    (hsize : ∀ n, n < 256 ^ w → (n + 1) % 2 ^ 32 = k n) (hinv : inv v s.input)
    (hrc : s.uc.returnCode = 0) :
    Ends stuck post
      (cwUnpackAssertSpace H cwpRcBufferUnderflow w s fun p s =>
        cwUnpackAssertSpace H cwpRcBufferUnderflow (k (load s.mem p)) s fun _ s =>
          loop itemCount s) := by
  simp only [skipItem, hf, skipRest] at h
  refine F.load
    (k := fun n s =>
      cwUnpackAssertSpace H cwpRcBufferUnderflow (k n) s fun _ s => loop itemCount s)
    hload hw hinv hrc (fun hlt s' hstop => ?_) fun hle s' hinv' hrc' => ?_
  · rw [if_pos hlt] at h
    exact h s' hstop
  · have hlt := ofBigEndian_lt (v.take w)
    rw [List.length_take, Nat.min_eq_left hle] at hlt
    rw [if_neg (by omega), hsize _ hlt] at h
    refine F.skipBytes h hinv' hrc' hle ?_
    rw [← hsize _ hlt]
    exact Nat.mod_lt _ (by decide)

/-- A payload of a length the first byte tells. -/
theorem Feeds.skipFixed (F : Feeds H stuck inv stopped) {n : Nat}
    (h : Turn inv stopped stuck post itemCount loop (c :: v) (skipItem (c :: v)))
    (hskip : skipItem (c :: v) =
      if v.length < n then .error cwpRcBufferUnderflow else .ok (1 + n, 0))
    (hinv : inv v s.input) (hrc : s.uc.returnCode = 0) (hn : n < 2 ^ 32) :
    Ends stuck post
      (cwUnpackAssertSpace H cwpRcBufferUnderflow n s fun _ s => loop itemCount s) := by
  rw [hskip] at h
  refine F.skipBytes (c := c) (m := 0) ?_ hinv hrc (Nat.zero_le _) hn
  rwa [Nat.zero_add]

theorem skipItem_number {w : Nat} {mk : Nat → Value} (hf : format c = some (.number w mk))
    (hmk : ∀ n, (mk n).children = 0) :
    skipItem (c :: v) = if v.length < w then .error cwpRcBufferUnderflow else .ok (1 + w, 0) := by
  simp only [skipItem, hf, skipRest, hmk, Nat.zero_mod]

theorem skipItem_fixext {n : Nat} (hf : format c = some (.fixext n)) :
    skipItem (c :: v) =
      if v.length < n + 1 then .error cwpRcBufferUnderflow else .ok (1 + (n + 1), 0) := by
  have hsum : 1 + (n + 1) = 2 + n := by omega
  simp only [skipItem, hf, skipRest, hsum]

theorem skipSwitch_spec (F : Feeds H stuck inv stopped)
    (h : Turn inv stopped stuck post itemCount loop (c :: v) (skipItem (c :: v)))
    (hinv : inv v s.input) (hrc : s.uc.returnCode = 0) :
    Ends stuck post (skipSwitch H c.toNat itemCount s loop) := by
  have hc := c.toNat_lt
  have hleaf : ∀ {x : Value}, format c = some (.single x) → x.children = 0 →
      Ends stuck post (loop itemCount s) := by
    intro x hf hx
    simp only [skipItem, hf, skipRest, hx] at h
    exact h.leaf hinv hrc
  unfold skipSwitch
  refine firstByte_ranges (P := Ends stuck post) (fun _ hf => hleaf hf rfl)
    (fun hlo hhi hf => ?_) (fun hlo hhi hf => ?_) (fun hlo hhi hf => ?_)
    (fun _ hf => hleaf hf rfl) (fun hlo hhi => ?_)
  · have hsize : c.toNat &&& 15 = c.toNat - 0x80 :=
      and_pred_eq (w := 4) (by omega) (by omega) (by decide)
    rw [hsize]
    simp only [skipItem, hf, skipRest] at h
    exact h s hinv hrc
  · have hsize : c.toNat &&& 15 = c.toNat - 0x90 :=
      and_pred_eq (w := 4) (by omega) (by omega) (by decide)
    rw [hsize]
    simp only [skipItem, hf, skipRest] at h
    exact h s hinv hrc
  · have hsize : c.toNat &&& 0x1f = c.toNat - 0xa0 :=
      and_pred_eq (w := 5) (by omega) (by omega) (by decide)
    have hlt : c.toNat - 0xa0 < 2 ^ 32 := by omega
    rw [hsize]
    generalize c.toNat - 0xa0 = n at hf hlt ⊢
    exact F.skipFixed h (by simp only [skipItem, hf, skipRest]) hinv hrc hlt
  have hnumber : ∀ {w : Nat} {mk : Nat → Value}, format c = some (.number w mk) →
      (∀ n, (mk n).children = 0) → w < 2 ^ 32 → Ends stuck post
        (cwUnpackAssertSpace H cwpRcBufferUnderflow w s fun _ s => loop itemCount s) :=
    fun hf hmk hw => F.skipFixed h (skipItem_number hf hmk) hinv hrc hw
  have hfixext : ∀ {n : Nat}, format c = some (.fixext n) → n + 1 < 2 ^ 32 → Ends stuck post
        (cwUnpackAssertSpace H cwpRcBufferUnderflow (n + 1) s fun _ s => loop itemCount s) :=
    fun hf hn => F.skipFixed h (skipItem_fixext hf) hinv hrc hn
  split
  case h_1 heq => exact hleaf (format_of_toNat heq rfl) rfl
  case h_2 heq => exact hleaf (format_of_toNat heq rfl) rfl
  case h_3 heq => exact hleaf (format_of_toNat heq rfl) rfl
  case h_4 heq => exact hnumber (format_of_toNat heq rfl) (fun _ => rfl) (by decide)
  case h_5 heq => exact hnumber (format_of_toNat heq rfl) (fun _ => rfl) (by decide)
  case h_6 heq => exact hnumber (format_of_toNat heq rfl) (fun _ => rfl) (by decide)
  case h_7 heq => exact hnumber (format_of_toNat heq rfl) (fun _ => rfl) (by decide)
  case h_8 heq => exact hfixext (format_of_toNat heq rfl) (by decide)
  case h_9 heq => exact hfixext (format_of_toNat heq rfl) (by decide)
  case h_10 heq => exact hnumber (format_of_toNat heq rfl) (fun _ => rfl) (by decide)
  case h_11 heq => exact hnumber (format_of_toNat heq rfl) (fun _ => rfl) (by decide)
  case h_12 heq => exact hnumber (format_of_toNat heq rfl) (fun _ => rfl) (by decide)
  case h_13 heq => exact hfixext (format_of_toNat heq rfl) (by decide)
  case h_14 heq => exact hnumber (format_of_toNat heq rfl) (fun _ => rfl) (by decide)
  case h_15 heq => exact hnumber (format_of_toNat heq rfl) (fun _ => rfl) (by decide)
  case h_16 heq => exact hnumber (format_of_toNat heq rfl) (fun _ => rfl) (by decide)
  case h_17 heq => exact hfixext (format_of_toNat heq rfl) (by decide)
  case h_18 heq => exact hfixext (format_of_toNat heq rfl) (by decide)
  case h_19 heq => exact F.skipBlob (format_of_toNat heq rfl) h load8_eq (by decide) hinv hrc
  case h_20 heq => exact F.skipBlob (format_of_toNat heq rfl) h load8_eq (by decide) hinv hrc
  case h_21 heq => exact F.skipBlob (format_of_toNat heq rfl) h cwLoad16_eq (by decide) hinv hrc
  case h_22 heq => exact F.skipBlob (format_of_toNat heq rfl) h cwLoad16_eq (by decide) hinv hrc
  case h_23 heq => exact F.skipBlob (format_of_toNat heq rfl) h cwLoad32_eq (by decide) hinv hrc
  case h_24 heq => exact F.skipBlob (format_of_toNat heq rfl) h cwLoad32_eq (by decide) hinv hrc
  case h_25 heq =>
    refine F.skipSize (k := fun n => n) (format_of_toNat heq rfl) h cwLoad16_eq (by decide) ?_
      hinv hrc
    intro n hn
    exact Nat.mod_eq_of_lt (by simp only [Value.children]; omega)
  case h_26 heq =>
    refine F.skipSize (k := fun n => 2 * n) (format_of_toNat heq rfl) h cwLoad16_eq (by decide) ?_
      hinv hrc
    intro n hn
    exact Nat.mod_eq_of_lt (by simp only [Value.children]; omega)
  case h_27 heq =>
    refine F.skipSize (k := fun n => n) (format_of_toNat heq rfl) h cwLoad32_eq (by decide) ?_
      hinv hrc
    intro n hn
    exact Nat.mod_eq_of_lt (by simp only [Value.children]; omega)
  case h_28 heq =>
    exact F.skipSize (k := fun n => 2 * n % 2 ^ 32) (format_of_toNat heq rfl) h cwLoad32_eq
      (by decide) (fun _ _ => rfl) hinv hrc
  case h_29 heq =>
    refine F.skipExt (k := fun n => n + 1) (format_of_toNat heq rfl) h load8_eq (by decide) ?_
      hinv hrc
    intro n hn
    exact Nat.mod_eq_of_lt (by omega)
  case h_30 heq =>
    refine F.skipExt (k := fun n => n + 1) (format_of_toNat heq rfl) h cwLoad16_eq (by decide) ?_
      hinv hrc
    intro n hn
    exact Nat.mod_eq_of_lt (by omega)
  case h_31 heq =>
    exact F.skipExt (k := fun n => (n + 1) % 2 ^ 32) (format_of_toNat heq rfl) h cwLoad32_eq
      (by decide) (fun _ _ => rfl) hinv hrc
  case h_32 =>
    have hunused : c.toNat = 0xc1 := by
      simp only [imp_false] at *
      omega
    have hnone : format c = none := format_unused hunused
    simp only [skipItem, hnone] at h
    exact h _ ⟨rfl, rfl, F.stops hinv⟩

/-! ## The loop -/

theorem skipItems_of_le {b : List UInt8} (h : ¬ itemCount > 0) :
    skipItems itemCount b = .ok b := by
  rw [skipItems, if_neg h]

theorem skipItems_of_ok {b : List UInt8} {n k : Nat} (h : itemCount > 0)
    (hitem : skipItem b = .ok (n, k)) :
    skipItems itemCount b = skipItems (itemCount - 1 + Int64.ofNat k) (b.drop n) := by
  rw [skipItems, if_pos h]
  split
  · rename_i e he
    rw [hitem] at he
    simp at he
  · rename_i n' k' he
    rw [hitem] at he
    obtain ⟨rfl, rfl⟩ : n = n' ∧ k = k' := by simpa using he
    rfl

theorem skipItems_of_error {b : List UInt8} {e : Int} (h : itemCount > 0)
    (hitem : skipItem b = .error e) : skipItems itemCount b = .error e := by
  rw [skipItems, if_pos h]
  split
  · rename_i e' he
    rw [hitem] at he
    obtain rfl : e = e' := by simpa using he
    rfl
  · rename_i n' k' he
    rw [hitem] at he
    simp at he

/-- Every turn consumes a byte, so the bytes ahead bound the turns. -/
theorem skipLoop_spec (F : Feeds H stuck inv stopped) :
    ∀ (fuel : Nat) (itemCount : Int64) (b : List UInt8) (s : UnpackState σ), b.length < fuel →
      inv b s.input → s.uc.returnCode = 0 →
      Ends stuck (Skips inv stopped (skipItems itemCount b)) (skipLoop H fuel itemCount s) := by
  intro fuel
  induction fuel with
  | zero =>
      intro _ _ _ hlt
      omega
  | succ fuel ih =>
      intro itemCount b s hlt hinv hrc
      unfold skipLoop
      by_cases hpos : itemCount > 0
      · rw [if_pos hpos, cwUnpackAssertSpace]
        refine F.assertSpace (n := 1) hinv (fun _ _ => rfl) (by decide) (fun hnone s' hstop => ?_)
          fun p s₁ h => ?_
        · obtain rfl : b = [] := List.eq_nil_of_length_eq_zero (by omega)
          rw [skipItems_of_error hpos rfl]
          exact hstop
        · have henough := h.enough
          cases b with
          | nil => simp at henough
          | cons c v =>
              have hturn : Turn inv stopped stuck (Skips inv stopped (skipItems itemCount (c :: v)))
                  (itemCount - 1) (skipLoop H fuel) (c :: v) (skipItem (c :: v)) := by
                cases hitem : skipItem (c :: v) with
                | error e =>
                    intro s' hstop
                    rw [skipItems_of_error hpos hitem]
                    exact hstop
                | ok r =>
                    obtain ⟨n, k⟩ := r
                    intro s' hinv' hrc'
                    have hn := (skipItem_pos hitem).1
                    rw [skipItems_of_ok hpos hitem]
                    refine ih _ _ s' ?_ hinv' hrc'
                    rw [List.length_drop]
                    omega
              rw [h.byte]
              exact skipSwitch_spec F hturn h.after (by rw [h.returnCode, hrc])
      · rw [if_neg hpos, skipItems_of_le hpos]
        exact ⟨hrc, hinv⟩

theorem cwSkipItems_spec (F : Feeds H stuck inv stopped) {fuel : Nat} (itemCount : Int64)
    {b : List UInt8} (hfuel : b.length < fuel) (hinv : inv b s.input) (hrc : s.uc.returnCode = 0) :
    Ends stuck (Skips inv stopped (skipItems itemCount b)) (cwSkipItems fuel H itemCount s) := by
  unfold cwSkipItems
  rw [if_neg (by simp [hrc])]
  exact skipLoop_spec F fuel itemCount b s hfuel hinv hrc

/-! ## Looking ahead -/

/-- Looking ahead has ended as `r` says: with a type and the same bytes ahead, or
stopped. -/
def Looks (inv : List UInt8 → UnpackInput σ → Prop) (stopped : UnpackInput σ → Prop)
    (b : List UInt8) (r : Except Int ItemType) (a : ItemType × UnpackState σ) : Prop :=
  match r with
  | .ok t => a.1 = t ∧ a.2.uc.returnCode = 0 ∧ inv b a.2.input
  | .error e => a.1 = .notAnItem ∧ Stops stopped e a.2

/-- A byte of what has been read. -/
theorem Reads.byteAt {rest : List UInt8} {n p i : Nat} {s s' : UnpackState σ}
    (h : Reads inv rest n p s s') (hi : i < n) : s'.mem (p + i) = (rest.drop i).headD 0 := by
  have hget := Memory.bytes_getElem? s'.mem (p := p) hi
  have hlen := h.enough
  rw [h.bytes, List.getElem?_take_of_lt hi, List.getElem?_eq_getElem (by omega)] at hget
  rw [List.drop_eq_getElem_cons (by omega), List.headD_cons]
  exact (Option.some.inj hget).symm

/-- Looking at a type byte behind the header, and stepping back. -/
theorem Feeds.lookType (F : Feeds H stuck inv stopped) {w : Nat} (hw : w ≤ 4)
    (hinv : inv (c :: v) s.input) (hrc : s.uc.returnCode = 0)
    {k : Nat → UnpackState σ → Option (ItemType × UnpackState σ)}
    (hk : ∀ p s', s'.uc.current = p + (w + 2) → ∃ s'', s''.input = s'.input.seek p ∧
      s''.uc.returnCode = s'.uc.returnCode ∧
      k p s' = some (.ext (s'.mem (p + (w + 1))).toInt8, s'')) :
    Ends stuck
      (Looks inv stopped (c :: v)
        (if v.length < w + 1 then .error cwpRcBufferUnderflow
          else .ok (.ext ((v.drop w).headD 0).toInt8)))
      (cwUnpackAssertSpaceSub H cwpRcBufferUnderflow (fun _ => w + 2) (ItemType.notAnItem, ·) s
        k) := by
  refine F.assertSpace (n := w + 2) hinv (fun _ _ => rfl) (by omega) (fun hlt s' hstop => ?_)
    fun p s' h => ?_
  · rw [List.length_cons] at hlt
    rw [if_pos (by omega)]
    exact ⟨rfl, hstop⟩
  · have henough := h.enough
    rw [List.length_cons] at henough
    rw [if_neg (by omega)]
    obtain ⟨s'', hinput, hrc'', hks⟩ := hk p s' h.current
    rw [hks]
    refine ⟨?_, by rw [hrc'', h.returnCode, hrc], by rw [hinput]; exact h.before⟩
    rw [h.byteAt (by omega), List.drop_succ_cons]

theorem lookRest_number {w : Nat} {mk : Nat → Value} (hc : c.toNat < 0xd0 ∨ 0xd3 < c.toNat) :
    lookRest c v (.number w mk) = .ok (itemType (mk 0)) := by
  simp only [lookRest]
  rw [if_neg (by omega)]

theorem lookRest_signed {w : Nat} {mk : Nat → Value} (hlo : 0xd0 ≤ c.toNat)
    (hhi : c.toNat ≤ 0xd3) : lookRest c v (.number w mk) = .ok .negativeInteger := by
  simp only [lookRest]
  rw [if_pos ⟨hlo, hhi⟩]

theorem lookSwitch_spec (F : Feeds H stuck inv stopped) (hinv : inv (c :: v) s.input)
    (hrc : s.uc.returnCode = 0) :
    Ends stuck (Looks inv stopped (c :: v) (lookItem (c :: v))) (lookSwitch H c.toNat s) := by
  have hc := c.toNat_lt
  -- a type that the first byte tells
  have htold : ∀ {f : Format} {t : ItemType}, format c = some f → lookRest c v f = .ok t →
      Ends stuck (Looks inv stopped (c :: v) (lookItem (c :: v))) (some (t, s)) := by
    intro f t hf ht
    simp only [lookItem, hf, ht]
    exact ⟨rfl, hrc, hinv⟩
  unfold lookSwitch
  refine firstByte_ranges
    (P := Ends stuck (Looks inv stopped (c :: v) (lookItem (c :: v))))
    (fun _ hf => htold hf (by simp [lookRest, itemType])) (fun _ _ hf => htold hf rfl)
    (fun _ _ hf => htold hf rfl) (fun _ _ hf => htold hf rfl) (fun _ hf => ?_)
    (fun hlo hhi => ?_)
  · have hneg : ¬ (0 : Int) ≤ (c.toNat : Int) - 256 := by omega
    exact htold hf (by simp only [lookRest, itemType, if_neg hneg])
  have hback : ∀ {p n : Nat} {s' : UnpackState σ}, s'.uc.current = p + n →
      (s'.setCurrent (s'.uc.current - n)).input = s'.input.seek p := by
    intro p n s' hcur
    rw [hcur, Nat.add_sub_cancel]
    rfl
  have hfixext : ∀ {n : Nat}, format c = some (.fixext n) → Ends stuck
      (Looks inv stopped (c :: v) (lookItem (c :: v)))
      (cwUnpackAssertSpaceSub H cwpRcBufferUnderflow (fun _ => 2) (ItemType.notAnItem, ·) s
        fun p s => some (.ext (s.mem (p + 1)).toInt8, s.setCurrent (s.uc.current - 2))) := by
    intro n hf
    simp only [lookItem, hf, lookRest]
    exact F.lookType (w := 0) (by decide) hinv hrc fun p s' hcur => ⟨_, hback hcur, rfl, rfl⟩
  split
  case h_1 heq => exact htold (format_of_toNat heq rfl) rfl
  case h_2 heq => exact htold (format_of_toNat heq rfl) rfl
  case h_3 heq => exact htold (format_of_toNat heq rfl) rfl
  case h_4 heq => exact htold (format_of_toNat heq rfl) rfl
  case h_5 heq => exact htold (format_of_toNat heq rfl) rfl
  case h_6 heq => exact htold (format_of_toNat heq rfl) rfl
  case h_7 heq =>
    simp only [lookItem, format_of_toNat heq rfl, lookRest]
    refine F.lookType (w := 1) (by decide) hinv hrc fun p s' hcur => ?_
    -- as an unsigned number, no byte is the code of a timestamp
    have hne : ¬ ((s'.mem (p + 2)).toNat : Int) = ItemType.timestamp.code := by
      have hcode : ItemType.timestamp.code = -1 := rfl
      omega
    exact ⟨_, hback hcur, rfl, if_neg hne⟩
  case h_8 heq =>
    simp only [lookItem, format_of_toNat heq rfl, lookRest]
    exact F.lookType (w := 2) (by decide) hinv hrc fun p s' hcur => ⟨_, hback hcur, rfl, rfl⟩
  case h_9 heq =>
    simp only [lookItem, format_of_toNat heq rfl, lookRest]
    exact F.lookType (w := 4) (by decide) hinv hrc fun p s' hcur => ⟨_, hback hcur, rfl, rfl⟩
  case h_10 heq => exact htold (format_of_toNat heq rfl) (lookRest_number (by omega))
  case h_11 heq => exact htold (format_of_toNat heq rfl) (lookRest_number (by omega))
  case h_12 heq => exact htold (format_of_toNat heq rfl) (lookRest_number (by omega))
  case h_13 heq => exact htold (format_of_toNat heq rfl) (lookRest_number (by omega))
  case h_14 heq => exact htold (format_of_toNat heq rfl) (lookRest_number (by omega))
  case h_15 heq => exact htold (format_of_toNat heq rfl) (lookRest_number (by omega))
  case h_16 heq => exact htold (format_of_toNat heq rfl) (lookRest_signed (by omega) (by omega))
  case h_17 heq => exact htold (format_of_toNat heq rfl) (lookRest_signed (by omega) (by omega))
  case h_18 heq => exact htold (format_of_toNat heq rfl) (lookRest_signed (by omega) (by omega))
  case h_19 heq => exact htold (format_of_toNat heq rfl) (lookRest_signed (by omega) (by omega))
  case h_20 heq => exact hfixext (format_of_toNat heq rfl)
  case h_21 heq => exact hfixext (format_of_toNat heq rfl)
  case h_22 heq => exact hfixext (format_of_toNat heq rfl)
  case h_23 heq => exact hfixext (format_of_toNat heq rfl)
  case h_24 heq => exact hfixext (format_of_toNat heq rfl)
  case h_25 heq => exact htold (format_of_toNat heq rfl) rfl
  case h_26 heq => exact htold (format_of_toNat heq rfl) rfl
  case h_27 heq => exact htold (format_of_toNat heq rfl) rfl
  case h_28 heq => exact htold (format_of_toNat heq rfl) (lookRest_number (by omega))
  case h_29 heq => exact htold (format_of_toNat heq rfl) (lookRest_number (by omega))
  case h_30 heq => exact htold (format_of_toNat heq rfl) (lookRest_number (by omega))
  case h_31 heq => exact htold (format_of_toNat heq rfl) (lookRest_number (by omega))
  case h_32 =>
    have hunused : c.toNat = 0xc1 := by
      simp only [imp_false] at *
      omega
    have hnone : format c = none := format_unused hunused
    simp only [lookItem, hnone]
    exact ⟨rfl, hrc, hinv⟩

theorem cwLookAhead_spec (F : Feeds H stuck inv stopped) {b : List UInt8} (hinv : inv b s.input)
    (hrc : s.uc.returnCode = 0) :
    Ends stuck (Looks inv stopped b (lookItem b)) (cwLookAhead H s) := by
  unfold cwLookAhead
  rw [if_neg (by simp [hrc])]
  refine F.assertSpace (n := 1) hinv (fun _ _ => rfl) (by decide) (fun hlt s' hstop => ?_)
    fun p s₁ h => ?_
  · obtain rfl : b = [] := List.eq_nil_of_length_eq_zero (by omega)
    exact ⟨rfl, hstop⟩
  · have henough := h.enough
    cases b with
    | nil => simp at henough
    | cons c v =>
        have hstep : s₁.uc.current - 1 = p := by rw [h.current, Nat.add_sub_cancel]
        rw [h.byte, hstep]
        exact lookSwitch_spec F h.before (by rw [← hrc, ← h.returnCode]; rfl)

end Rules

end CWPack.Core
