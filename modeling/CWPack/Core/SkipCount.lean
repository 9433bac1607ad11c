/-
  Core/SkipCount.lean --- what `cw_skip_items` counts.

  A turn of the skipping loop passes over one header, its payload included, and
  adds the content it announces to the items that are pending.  Two of these
  numbers are computed in 32 bits: twice the size of a `map 32` and the length of
  an `ext 32` with its type byte.  The counter itself is a `long`.

  As long as no turn wraps, skipping that is OK ends where reading item by item
  ends, or reading stops at a timestamp of a wrong length.
-/
import CWPack.Core.Transparency
import CWPack.MessagePack.Complete

set_option autoImplicit false

namespace CWPack.Core

open CWPack.Foundation
open CWPack.MessagePack

variable {σ : Type}

/-! ## Turns -/

/-- What the header in front declares: the length of the item, and how many items follow as
its content. -/
def declared (b : List UInt8) : Except Int (Nat × Nat) :=
  match decode b with
  | .item v n => .ok (n, v.children)
  | d => .error (decodedCode d)

theorem declared_eq_ok {b : List UInt8} {n k : Nat} (h : declared b = .ok (n, k)) :
    ∃ v, decode b = .item v n ∧ v.children = k := by
  unfold declared at h
  cases hd : decode b with
  | item v m =>
      obtain ⟨rfl, rfl⟩ : m = n ∧ v.children = k := by simpa [hd] using h
      exact ⟨v, rfl, rfl⟩
  | _ => simp [hd] at h

theorem declared_pos {b : List UInt8} {n k : Nat} (h : declared b = .ok (n, k)) :
    0 < n ∧ b ≠ [] := by
  obtain ⟨v, hd, -⟩ := declared_eq_ok h
  refine ⟨Nat.pos_of_ne_zero ?_, ?_⟩
  · rintro rfl
    exact (item_of_decode hd).2.ne_nil rfl
  · rintro rfl
    simp [decode] at hd

/-- The headers one after the other as the wire declares them, each as the items pending and
the bytes ahead before it. -/
def headers (pending : Nat) (b : List UInt8) : List (Nat × List UInt8) :=
  if 0 < pending then
    (pending, b) ::
      match h : declared b with
      | .error _ => []
      | .ok (n, k) => headers (pending - 1 + k) (b.drop n)
  else []
termination_by b.length
decreasing_by
  obtain ⟨hn, hb⟩ := declared_pos h
  have hlen := List.length_pos_iff.mpr hb
  simp only [List.length_drop]
  omega

/-- The turns of the loop of `cw_skip_items`, each as the counter and the bytes ahead before
it. -/
def turns (itemCount : Int64) (b : List UInt8) : List (Int64 × List UInt8) :=
  if itemCount > 0 then
    (itemCount, b) ::
      match h : skipItem b with
      | .error _ => []
      | .ok (n, k) => turns (itemCount - 1 + Int64.ofNat k) (b.drop n)
  else []
termination_by b.length
decreasing_by
  obtain ⟨hn, hb⟩ := skipItem_pos h
  have hlen := List.length_pos_iff.mpr hb
  simp only [List.length_drop]
  omega

/-- The turn passes over as many bytes and adds as many items as the wire declares. -/
def AddsDeclared (turn : Int64 × List UInt8) : Prop :=
  skipItem turn.2 = declared turn.2 ∧
    ∀ n k, declared turn.2 = .ok (n, k) →
      (turn.1 - 1 + Int64.ofNat k).toInt = turn.1.toInt - 1 + k

/-- The header in front is one whose size is not computed right in 32 bits: a `map 32` of
2^31 pairs or more, or an `ext 32` of 2^32-1 bytes. -/
def WrapsSize (b : List UInt8) : Prop :=
  ∃ v : List UInt8, 4 ≤ v.length ∧
    ((b = 0xdf :: v ∧ 2 ^ 31 ≤ ofBigEndian (v.take 4)) ∨
      (b = 0xc9 :: v ∧ ofBigEndian (v.take 4) = 2 ^ 32 - 1))

/-- The items pending after the header in front are more than a `long` can count. -/
def OverflowsCounter (header : Nat × List UInt8) : Prop :=
  ∃ v n, decode header.2 = .item v n ∧ 2 ^ 63 ≤ header.1 - 1 + v.children

/-! ## One turn -/

section Table

variable {c : UInt8}

/-- The sizes of the number formats, and the one that is not below `2^32` when doubled. -/
theorem format_number_children {w : Nat} {mk : Nat → Value}
    (h : format c = some (.number w mk)) :
    (∀ n, (mk n).children = 0) ∨ (w ≤ 4 ∧ ∀ n, (mk n).children = n) ∨
      (w = 2 ∧ ∀ n, (mk n).children = 2 * n) ∨
      (c = 0xdf ∧ w = 4 ∧ ∀ n, (mk n).children = 2 * n) := by
  unfold format at h
  repeat' split at h
  all_goals simp only [Option.some.injEq, reduceCtorEq, Format.number.injEq] at h
  all_goals obtain ⟨rfl, rfl⟩ := h
  case h_28 => exact Or.inr (Or.inl ⟨by decide, fun _ => rfl⟩)
  case h_29 => exact Or.inr (Or.inl ⟨by decide, fun _ => rfl⟩)
  case h_30 => exact Or.inr (Or.inr (Or.inl ⟨rfl, fun _ => rfl⟩))
  case h_31 heq => exact Or.inr (Or.inr (Or.inr ⟨eq_of_toNat heq (by decide), rfl, fun _ => rfl⟩))
  all_goals exact Or.inl fun _ => rfl

theorem children_single_lt {x : Value} (h : format c = some (.single x)) :
    x.children < 2 ^ 32 := by
  have hc := c.toNat_lt
  unfold format at h
  repeat' split at h
  all_goals simp only [Option.some.injEq, reduceCtorEq, Format.single.injEq] at h
  all_goals
    subst h
    simp only [Value.children]
    omega

end Table

theorem declared_of_decodeRest {c : UInt8} {v : List UInt8} {f : Format}
    (hf : format c = some f) :
    declared (c :: v) =
      match decodeRest v f with
      | .item x n => .ok (n, x.children)
      | d => .error (decodedCode d) := by
  simp only [declared, decode, hf]

/-- A payload length of `w ≤ 4` bytes that is there. -/
theorem skipRest_ext_eq_iff {c : UInt8} {w : Nat} {v : List UInt8} (hf : format c = some (.ext w)) :
    skipItem (c :: v) = declared (c :: v) ↔
      ¬ (w ≤ v.length ∧ ofBigEndian (v.take w) = 2 ^ 32 - 1) := by
  have hw : w ≤ 4 := by
    obtain ⟨-, rfl⟩ | ⟨-, rfl⟩ | ⟨-, rfl⟩ := format_ext_cases hf <;> omega
  rw [declared_of_decodeRest hf]
  simp only [skipItem, hf, skipRest, decodeRest]
  by_cases hshort : v.length < w
  · rw [if_pos hshort, if_pos hshort]
    exact iff_of_true rfl fun h => by omega
  rw [if_neg hshort, if_neg hshort]
  have hlt := ofBigEndian_take_lt hw (Nat.not_lt.mp hshort)
  by_cases hmax : ofBigEndian (v.take w) = 2 ^ 32 - 1
  · -- the sum is zero: the header alone is passed over
    have hzero : (ofBigEndian (v.take w) + 1) % 2 ^ 32 = 0 := by omega
    refine iff_of_false ?_ (not_not_intro ⟨Nat.not_lt.mp hshort, hmax⟩)
    rw [hzero, if_neg (by omega)]
    split
    · rename_i heq
      split at heq
      · simp at heq
      · split at heq
        · simp at heq
        · simp only [Decoded.item.injEq] at heq
          simp only [Except.ok.injEq, Prod.mk.injEq]
          omega
    · simp
  · have hsum : (ofBigEndian (v.take w) + 1) % 2 ^ 32 = ofBigEndian (v.take w) + 1 :=
      Nat.mod_eq_of_lt (by omega)
    refine iff_of_true ?_ fun h => hmax h.2
    rw [hsum]
    cases hdrop : v.drop w with
    | nil =>
        have hlen := congrArg List.length hdrop
        rw [List.length_drop, List.length_nil] at hlen
        rw [if_pos (by omega)]
        rfl
    | cons t bs =>
        have hlen := congrArg List.length hdrop
        rw [List.length_drop, List.length_cons] at hlen
        simp only
        by_cases hpayload : bs.length < ofBigEndian (v.take w)
        · rw [if_pos (by omega), if_pos hpayload]
          rfl
        · have hsize : 1 + w + (ofBigEndian (v.take w) + 1) = 2 + w + ofBigEndian (v.take w) := by
            omega
          rw [if_neg (by omega), if_neg hpayload, hsize]
          rfl

theorem wrapsSize_cons_iff {c : UInt8} {v : List UInt8} :
    WrapsSize (c :: v) ↔ 4 ≤ v.length ∧
      ((c = 0xdf ∧ 2 ^ 31 ≤ ofBigEndian (v.take 4)) ∨
        (c = 0xc9 ∧ ofBigEndian (v.take 4) = 2 ^ 32 - 1)) := by
  constructor
  · rintro ⟨v', hlen, ⟨heq, h⟩ | ⟨heq, h⟩⟩
    · obtain ⟨rfl, rfl⟩ := List.cons.inj heq
      exact ⟨hlen, Or.inl ⟨rfl, h⟩⟩
    · obtain ⟨rfl, rfl⟩ := List.cons.inj heq
      exact ⟨hlen, Or.inr ⟨rfl, h⟩⟩
  · rintro ⟨hlen, ⟨rfl, h⟩ | ⟨rfl, h⟩⟩
    · exact ⟨v, hlen, Or.inl ⟨rfl, h⟩⟩
    · exact ⟨v, hlen, Or.inr ⟨rfl, h⟩⟩

/-- The two headers that can wrap are no others. -/
theorem not_wrapsSize {c : UInt8} {v : List UInt8} (hmap : format c ≠ some (.number 4 .map))
    (hext : format c ≠ some (.ext 4)) : ¬ WrapsSize (c :: v) := by
  rw [wrapsSize_cons_iff]
  rintro ⟨-, ⟨rfl, -⟩ | ⟨rfl, -⟩⟩
  · exact hmap rfl
  · exact hext rfl

theorem skipRest_number_eq_iff {c : UInt8} {w : Nat} {mk : Nat → Value} {v : List UInt8}
    (hf : format c = some (.number w mk)) :
    skipItem (c :: v) = declared (c :: v) ↔
      ¬ (w ≤ v.length ∧ 2 ^ 32 ≤ (mk (ofBigEndian (v.take w))).children) := by
  rw [declared_of_decodeRest hf]
  simp only [skipItem, hf, skipRest, decodeRest]
  by_cases hshort : v.length < w
  · rw [if_pos hshort, if_pos hshort]
    exact iff_of_true rfl fun h => by omega
  rw [if_neg hshort, if_neg hshort]
  simp only [Except.ok.injEq, Prod.mk.injEq, true_and]
  omega

/-- Among the headers with a number, only that of a `map 32` item can declare 2^32 items. -/
theorem number_wraps_iff {c : UInt8} {w : Nat} {mk : Nat → Value} {v : List UInt8}
    (hf : format c = some (.number w mk)) :
    w ≤ v.length ∧ 2 ^ 32 ≤ (mk (ofBigEndian (v.take w))).children ↔ WrapsSize (c :: v) := by
  rw [wrapsSize_cons_iff]
  have hne : c ≠ 0xc9 := by
    rintro rfl
    exact absurd (Option.some.inj hf) (by simp)
  by_cases hmap : c = 0xdf
  · subst hmap
    obtain ⟨rfl, rfl⟩ := Format.number.inj (Option.some.inj hf)
    simp only [true_and, hne, false_and, or_false, Value.children]
    omega
  · refine iff_of_false ?_ ?_
    · rintro ⟨hlen, hle⟩
      rcases format_number_children hf with h | ⟨hw, h⟩ | ⟨rfl, h⟩ | ⟨hc, -, -⟩
      · rw [h] at hle
        omega
      · have hlt := ofBigEndian_take_lt hw hlen
        rw [h] at hle
        omega
      · have hlt := ofBigEndian_lt (v.take 2)
        rw [List.length_take, Nat.min_eq_left hlen] at hlt
        rw [h] at hle
        omega
      · exact hmap hc
    · rintro ⟨-, ⟨hc, -⟩ | ⟨hc, -⟩⟩
      · exact hmap hc
      · exact hne hc

/-- Among the extension headers, only that of an `ext 32` item can say 2^32-1. -/
theorem ext_wraps_iff {c : UInt8} {w : Nat} {v : List UInt8} (hf : format c = some (.ext w)) :
    w ≤ v.length ∧ ofBigEndian (v.take w) = 2 ^ 32 - 1 ↔ WrapsSize (c :: v) := by
  rw [wrapsSize_cons_iff]
  have hlt : w ≤ v.length → ofBigEndian (v.take w) < 256 ^ w := by
    intro hle
    have hlt := ofBigEndian_lt (v.take w)
    rwa [List.length_take, Nat.min_eq_left hle] at hlt
  obtain ⟨rfl, rfl⟩ | ⟨rfl, rfl⟩ | ⟨rfl, rfl⟩ := format_ext_cases hf
  · refine iff_of_false (fun hle => ?_) (by simp)
    have hone := hlt hle.1
    omega
  · refine iff_of_false (fun hle => ?_) (by simp)
    have htwo := hlt hle.1
    omega
  · simp

/-- A turn passes over what the header declares, unless the header is one of the two. -/
theorem skipItem_eq_declared_iff (b : List UInt8) : skipItem b = declared b ↔ ¬ WrapsSize b := by
  cases b with
  | nil => exact iff_of_true rfl fun ⟨v, _, h⟩ => by simp at h
  | cons c v =>
      cases hf : format c with
      | none =>
          refine iff_of_true ?_ (not_wrapsSize (by simp [hf]) (by simp [hf]))
          simp only [skipItem, declared, decode, hf, decodedCode]
      | some f =>
          cases f with
          | single x =>
              refine iff_of_true ?_ (not_wrapsSize (by simp [hf]) (by simp [hf]))
              rw [declared_of_decodeRest hf]
              simp only [skipItem, hf, skipRest, decodeRest]
          | number w mk => rw [skipRest_number_eq_iff hf, number_wraps_iff hf]
          | fixed n mk =>
              refine iff_of_true ?_ (not_wrapsSize (by simp [hf]) (by simp [hf]))
              rw [declared_of_decodeRest hf]
              simp only [skipItem, hf, skipRest, decodeRest]
              split
              · rfl
              · simp only [children_of_fixed hf]
          | blob w mk =>
              refine iff_of_true ?_ (not_wrapsSize (by simp [hf]) (by simp [hf]))
              rw [declared_of_decodeRest hf]
              simp only [skipItem, hf, skipRest, decodeRest]
              split
              · rfl
              · split
                · rfl
                · simp only [children_of_blob hf]
          | fixext n =>
              refine iff_of_true ?_ (not_wrapsSize (by simp [hf]) (by simp [hf]))
              rw [declared_of_decodeRest hf]
              simp only [skipItem, hf, skipRest]
              cases v with
              | nil => rfl
              | cons t bs =>
                  simp only [decodeRest, List.length_cons]
                  by_cases hlen : bs.length < n
                  · rw [if_pos (by omega), if_pos hlen]
                    rfl
                  · rw [if_neg (by omega), if_neg hlen]
                    rfl
          | ext w => rw [skipRest_ext_eq_iff hf, ext_wraps_iff hf]

/-- No item declares more content than twice a number of 32 bits. -/
theorem children_lt_of_item {bs : List UInt8} {v : Value} (h : Item bs v) :
    v.children < 2 ^ 33 := by
  cases h with
  | single hf =>
      have hlt := children_single_lt hf
      omega
  | @number c w mk ns hf hw =>
      have hlt : w ≤ 4 → ofBigEndian ns < 2 ^ 32 := by
        intro hle
        have hnum := ofBigEndian_take_lt (v := ns) hle (Nat.le_of_eq hw.symm)
        rwa [← hw, List.take_length] at hnum
      rcases format_number_children hf with h | ⟨hle, h⟩ | ⟨htwo, h⟩ | ⟨-, hfour, h⟩
      · rw [h]
        decide
      · have hnum := hlt hle
        rw [h]
        omega
      · have hnum := hlt (by omega)
        rw [h]
        omega
      · have hnum := hlt (by omega)
        rw [h]
        omega
  | fixed hf =>
      rw [children_of_fixed hf]
      decide
  | blob hf =>
      rw [children_of_blob hf]
      decide
  | fixext => exact Nat.two_pow_pos 33
  | ext => exact Nat.two_pow_pos 33

theorem declared_lt {b : List UInt8} {n k : Nat} (h : declared b = .ok (n, k)) : k < 2 ^ 33 := by
  obtain ⟨v, hd, rfl⟩ := declared_eq_ok h
  exact children_lt_of_item (item_of_decode hd).2

theorem toInt_pos {itemCount : Int64} (h : itemCount > 0) : 0 < itemCount.toInt := by
  rw [gt_iff_lt, Int64.lt_iff_toInt_lt, Int64.toInt_zero] at h
  exact h

/-- The counter after a turn, as long as it fits. -/
theorem toInt_after_turn {itemCount : Int64} (hpos : itemCount > 0) {k : Nat} (hk : k < 2 ^ 33) :
    (itemCount - 1 + Int64.ofNat k).toInt = itemCount.toInt - 1 + k ↔
      itemCount.toInt - 1 + k < 2 ^ 63 := by
  have h0 := toInt_pos hpos
  have hlt := itemCount.toInt_lt
  have hone : (1 : Int64).toInt = 1 := rfl
  have hprev : (itemCount.toInt - 1).bmod (2 ^ 64) = itemCount.toInt - 1 :=
    Int.bmod_eq_of_le (by omega) (by omega)
  rw [Int64.toInt_add, Int64.toInt_sub, hone, Int64.toInt_ofNat_of_lt (by omega), hprev,
    Int.bmod_eq_iff (by decide)]
  omega

/-- A turn is exact unless the size of its header or the counter wraps. -/
theorem addsDeclared_iff {itemCount : Int64} (hpos : itemCount > 0) (b : List UInt8) :
    AddsDeclared (itemCount, b) ↔
      ¬ WrapsSize b ∧ ¬ OverflowsCounter (itemCount.toNatClampNeg, b) := by
  have h0 := toInt_pos hpos
  have hclamp : (itemCount.toNatClampNeg : Int) = itemCount.toInt :=
    Int.toNat_of_nonneg (Int.le_of_lt h0)
  unfold AddsDeclared
  rw [skipItem_eq_declared_iff]
  refine and_congr Iff.rfl ?_
  constructor
  · rintro h ⟨v, n, hd, hover⟩
    have hdec : declared b = .ok (n, v.children) := by simp only [declared, hd]
    have hfit := (toInt_after_turn hpos (declared_lt hdec)).mp (h n _ hdec)
    have hover' : 2 ^ 63 ≤ itemCount.toNatClampNeg - 1 + v.children := hover
    omega
  · intro h n k hdec
    refine (toInt_after_turn hpos (declared_lt hdec)).mpr (Int.not_le.mp fun hover => h ?_)
    obtain ⟨v, hd, rfl⟩ := declared_eq_ok hdec
    refine ⟨v, n, hd, ?_⟩
    show 2 ^ 63 ≤ itemCount.toNatClampNeg - 1 + v.children
    omega

/-! ## All turns -/

theorem turns_of_le {itemCount : Int64} {b : List UInt8} (h : ¬ itemCount > 0) :
    turns itemCount b = [] := by
  rw [turns, if_neg h]

theorem turns_of_ok {itemCount : Int64} {b : List UInt8} {n k : Nat} (h : itemCount > 0)
    (hitem : skipItem b = .ok (n, k)) :
    turns itemCount b =
      (itemCount, b) :: turns (itemCount - 1 + Int64.ofNat k) (b.drop n) := by
  rw [turns, if_pos h]
  split
  · rename_i e he
    rw [hitem] at he
    simp at he
  · rename_i n' k' he
    rw [hitem] at he
    obtain ⟨rfl, rfl⟩ : n = n' ∧ k = k' := by simpa using he
    rfl

theorem turns_of_error {itemCount : Int64} {b : List UInt8} {e : Int} (h : itemCount > 0)
    (hitem : skipItem b = .error e) : turns itemCount b = [(itemCount, b)] := by
  rw [turns, if_pos h]
  split
  · rfl
  · rename_i n' k' he
    rw [hitem] at he
    simp at he

theorem headers_zero (b : List UInt8) : headers 0 b = [] := by
  rw [headers, if_neg (Nat.lt_irrefl 0)]

theorem headers_of_ok {pending : Nat} {b : List UInt8} {n k : Nat} (h : 0 < pending)
    (hitem : declared b = .ok (n, k)) :
    headers pending b = (pending, b) :: headers (pending - 1 + k) (b.drop n) := by
  rw [headers, if_pos h]
  split
  · rename_i e he
    rw [hitem] at he
    simp at he
  · rename_i n' k' he
    rw [hitem] at he
    obtain ⟨rfl, rfl⟩ : n = n' ∧ k = k' := by simpa using he
    rfl

theorem headers_of_error {pending : Nat} {b : List UInt8} {e : Int} (h : 0 < pending)
    (hitem : declared b = .error e) : headers pending b = [(pending, b)] := by
  rw [headers, if_pos h]
  split
  · rfl
  · rename_i n' k' he
    rw [hitem] at he
    simp at he

/-- A turn of the loop that does not stop it. -/
theorem skipLoop_turn {x₀ : UnpackInput σ} {fuel n k : Nat} {itemCount : Int64} {b : List UInt8}
    {s : UnpackState σ} (hpos : itemCount > 0) (hitem : skipItem b = .ok (n, k))
    (hfuel : b.length < fuel + 1) (hinv : StaticInput x₀ b s.input)
    (hrc : s.uc.returnCode = cwpRcOk) :
    ∃ u : UnpackState σ, StaticInput x₀ (b.drop n) u.input ∧ u.uc.returnCode = cwpRcOk ∧
      skipLoop none (fuel + 1) itemCount s =
        skipLoop none fuel (itemCount - 1 + Int64.ofNat k) u := by
  have F := static_feeds x₀
  obtain ⟨hn, hb⟩ := skipItem_pos hitem
  -- what the loop ends with, the rest of it ends with from the state after the turn
  let post : UnpackState σ → Prop := fun r => ∃ u : UnpackState σ,
    StaticInput x₀ (b.drop n) u.input ∧ u.uc.returnCode = cwpRcOk ∧
      skipLoop none fuel (itemCount - 1 + Int64.ofNat k) u = some r
  have hturn : Turn (StaticInput x₀) (StaticStopped x₀) False post (itemCount - 1)
      (skipLoop none fuel) b (skipItem b) := by
    rw [hitem]
    intro u hu hok
    have hlen : (b.drop n).length < fuel := by
      have hblen := List.length_pos_iff.mpr hb
      rw [List.length_drop]
      omega
    obtain ⟨r, hr, -⟩ := (skipLoop_spec F fuel (itemCount - 1 + Int64.ofNat k) (b.drop n) u hlen
      hu hok).exists_of_not_stuck
    rw [hr]
    exact ⟨u, hu, hok, hr⟩
  have hends : Ends False post (skipLoop none (fuel + 1) itemCount s) := by
    rw [skipLoop, if_pos hpos, cwUnpackAssertSpace]
    refine F.assertSpace (n := 1) hinv (fun _ _ => rfl) (by decide) (fun hnone => ?_)
      fun p s₁ h => ?_
    · exact absurd (List.eq_nil_of_length_eq_zero (by omega)) hb
    · cases b with
      | nil => exact absurd rfl hb
      | cons c v =>
          rw [h.byte]
          exact skipSwitch_spec F hturn h.after (by rw [h.returnCode, hrc])
  obtain ⟨r, hr, u, hu, hok, hrest⟩ := hends.exists_of_not_stuck
  exact ⟨u, hu, hok, hr.trans hrest.symm⟩

/-- The loop takes the turns of the list: it comes by each of them, with the counter and the
bytes ahead that the list says. -/
theorem skipLoop_of_mem_turns {x₀ : UnpackInput σ} {turn : Int64 × List UInt8} :
    ∀ (fuel : Nat) (itemCount : Int64) (b : List UInt8) (s : UnpackState σ), b.length < fuel →
      StaticInput x₀ b s.input → s.uc.returnCode = cwpRcOk → turn ∈ turns itemCount b →
      turn.1 > 0 ∧ ∃ (left : Nat) (u : UnpackState σ), turn.2.length < left + 1 ∧
        StaticInput x₀ turn.2 u.input ∧ u.uc.returnCode = cwpRcOk ∧
        skipLoop none fuel itemCount s = skipLoop none (left + 1) turn.1 u := by
  intro fuel
  induction fuel with
  | zero =>
      intro _ _ _ hlt
      omega
  | succ fuel ih =>
      intro itemCount b s hlt hinv hrc hmem
      by_cases hpos : itemCount > 0
      · cases hitem : skipItem b with
        | error e =>
            rw [turns_of_error hpos hitem] at hmem
            obtain rfl := List.mem_singleton.mp hmem
            exact ⟨hpos, fuel, s, hlt, hinv, hrc, rfl⟩
        | ok r =>
            obtain ⟨n, k⟩ := r
            rw [turns_of_ok hpos hitem] at hmem
            rcases List.mem_cons.mp hmem with rfl | hmem
            · exact ⟨hpos, fuel, s, hlt, hinv, hrc, rfl⟩
            · obtain ⟨u, hu, hok, hstep⟩ := skipLoop_turn hpos hitem hlt hinv hrc
              obtain ⟨hn, hb⟩ := skipItem_pos hitem
              have hlen : (b.drop n).length < fuel := by
                have hblen := List.length_pos_iff.mpr hb
                rw [List.length_drop]
                omega
              obtain ⟨hturn, left, w, hleft, hw, hok', hsame⟩ := ih _ _ u hlen hu hok hmem
              exact ⟨hturn, left, w, hleft, hw, hok', hstep.trans hsame⟩
      · rw [turns_of_le hpos] at hmem
        exact absurd hmem List.not_mem_nil

theorem toNatClampNeg_pos {itemCount : Int64} (h : itemCount > 0) :
    0 < itemCount.toNatClampNeg := by
  have h0 := toInt_pos h
  show 0 < itemCount.toInt.toNat
  omega

/-- The counter after an exact turn, as a number. -/
theorem toNatClampNeg_after_turn {itemCount : Int64} (hpos : itemCount > 0) {b : List UInt8}
    {n k : Nat} (hadds : AddsDeclared (itemCount, b)) (hdec : declared b = .ok (n, k)) :
    0 ≤ itemCount - 1 + Int64.ofNat k ∧
      (itemCount - 1 + Int64.ofNat k).toNatClampNeg = itemCount.toNatClampNeg - 1 + k := by
  have h0 := toInt_pos hpos
  have hsum : (itemCount - 1 + Int64.ofNat k).toInt = itemCount.toInt - 1 + k :=
    hadds.2 n k hdec
  refine ⟨?_, ?_⟩
  · rw [Int64.le_iff_toInt_le, Int64.toInt_zero]
    omega
  · show (itemCount - 1 + Int64.ofNat k).toInt.toNat = itemCount.toInt.toNat - 1 + k
    omega

theorem mem_turns_self {itemCount : Int64} (hpos : itemCount > 0) (b : List UInt8) :
    (itemCount, b) ∈ turns itemCount b := by
  rw [turns, if_pos hpos]
  exact List.mem_cons_self

theorem mem_headers_self {pending : Nat} (hpos : 0 < pending) (b : List UInt8) :
    (pending, b) ∈ headers pending b := by
  rw [headers, if_pos hpos]
  exact List.mem_cons_self

/-- As long as no turn wraps, the loop sees the headers that are on the wire. -/
theorem turns_addDeclared_iff {itemCount : Int64} {b : List UInt8} (hn : 0 ≤ itemCount) :
    (∀ turn ∈ turns itemCount b, AddsDeclared turn) ↔
      ∀ header ∈ headers itemCount.toNatClampNeg b,
        ¬ WrapsSize header.2 ∧ ¬ OverflowsCounter header := by
  -- where the first turn wraps, neither side holds
  have hfirst : ∀ {itemCount : Int64} {b : List UInt8}, itemCount > 0 →
      ¬ AddsDeclared (itemCount, b) → ((∀ turn ∈ turns itemCount b, AddsDeclared turn) ↔
        ∀ header ∈ headers itemCount.toNatClampNeg b,
          ¬ WrapsSize header.2 ∧ ¬ OverflowsCounter header) := by
    intro itemCount b hpos hadds
    refine iff_of_false (fun h => hadds (h _ (mem_turns_self hpos b))) fun h => hadds ?_
    rw [addsDeclared_iff hpos]
    exact h _ (mem_headers_self (toNatClampNeg_pos hpos) b)
  induction itemCount, b using skipItems.induct with
  | case1 itemCount b hpos e hitem =>
      by_cases hadds : AddsDeclared (itemCount, b)
      · have hdec : declared b = .error e := hadds.1.symm.trans hitem
        rw [turns_of_error hpos hitem, headers_of_error (toNatClampNeg_pos hpos) hdec,
          List.forall_mem_singleton, List.forall_mem_singleton]
        exact addsDeclared_iff hpos b
      · exact hfirst hpos hadds
  | case2 itemCount b hpos n k hitem ih =>
      by_cases hadds : AddsDeclared (itemCount, b)
      · have hdec : declared b = .ok (n, k) := hadds.1.symm.trans hitem
        obtain ⟨hnext, hcount⟩ := toNatClampNeg_after_turn hpos hadds hdec
        have ih' := ih hnext
        rw [hcount] at ih'
        rw [turns_of_ok hpos hitem, headers_of_ok (toNatClampNeg_pos hpos) hdec,
          List.forall_mem_cons, List.forall_mem_cons]
        exact and_congr (addsDeclared_iff hpos b) ih'
      · exact hfirst hpos hadds
  | case3 itemCount b hpos =>
      have hzero : itemCount = 0 := Int64.le_antisymm (Int64.not_lt.mp hpos) hn
      have hnone : Int64.toNatClampNeg 0 = 0 := rfl
      rw [turns_of_le hpos, hzero, hnone, headers_zero]
      exact iff_of_true (fun _ h => absurd h List.not_mem_nil) fun _ h => absurd h List.not_mem_nil

/-! ## Reading the items -/

/-- Where the wire has an item, `cw_unpack_next` reads one with the same content, or rejects
the length of a timestamp. -/
theorem readItem_of_decode {b : List UInt8} {v : Value} {n : Nat} (h : decode b = .item v n) :
    (∃ v', readItem b = .ok (v', n) ∧ v'.children = v.children) ∨
      readItem b = .error cwpRcWrongTimestampLength := by
  by_cases hext : extType b = some (-1)
  · obtain ⟨payload, rfl⟩ := value_of_extType hext h
    obtain ⟨hn, hitem⟩ := item_of_decode h
    have hsplit : b.take n ++ b.drop n = b := List.take_append_drop n b
    have hlen : (b.take n).length = n := by
      rw [List.length_take]
      omega
    by_cases hlayout : TimestampLayout (b.take n) payload
    · have hread := readItem_of_layout hitem hlayout (b.drop n)
      rw [hsplit, hlen] at hread
      exact Or.inl ⟨_, hread, children_timestampValue payload⟩
    · by_cases hwide : (b.take n).head? = some 0xc8 ∨ (b.take n).head? = some 0xc9
      · have hread := readItem_of_wide hitem hwide (b.drop n)
        rw [hsplit, hlen] at hread
        exact Or.inl ⟨_, hread, rfl⟩
      · obtain ⟨hnarrow, hnarrow'⟩ := not_or.mp hwide
        have hread := readItem_of_rejected hitem hlayout hnarrow hnarrow' (b.drop n)
        rw [hsplit] at hread
        exact Or.inr hread
  · have hread := readItem_eq_decode hext
    rw [h] at hread
    exact Or.inl ⟨v, hread, rfl⟩

/-- `TraverseStops e n s`: reading `n` complete items from `s` with `cw_unpack_next` stops with
`e` at one of them, after reads that are OK. -/
inductive TraverseStops (e : Int) : Nat → UnpackState σ → Prop where
  | here {n : Nat} {s s₁ : UnpackState σ} (hnext : cwUnpackNext none s = some s₁)
      (hstop : s₁.uc.returnCode = e) : TraverseStops e (n + 1) s
  | content {n : Nat} {s s₁ : UnpackState σ} (hnext : cwUnpackNext none s = some s₁)
      (hok : s₁.uc.returnCode = cwpRcOk) (hcontent : TraverseStops e s₁.uc.item.children s₁) :
      TraverseStops e (n + 1) s
  | rest {n : Nat} {s s₁ s₂ : UnpackState σ} (hnext : cwUnpackNext none s = some s₁)
      (hok : s₁.uc.returnCode = cwpRcOk) (hcontent : Traverses s₁.uc.item.children s₁ s₂)
      (hrest : TraverseStops e n s₂) : TraverseStops e (n + 1) s

/-- While `n` of the pending items are traversed, the loop takes its turns; after it `c` are
pending.  The induction is on the bytes ahead, of which every turn takes one at least. -/
theorem traverses_of_skipItems {rest : List UInt8} :
    ∀ (len n c : Nat) (itemCount : Int64) (s : UnpackState σ), s.ahead.length ≤ len →
      s.uc.returnCode = cwpRcOk → s.uc.current ≤ s.uc.end_ → itemCount.toInt = (n + c : Nat) →
      (∀ turn ∈ turns itemCount s.ahead, AddsDeclared turn) →
      skipItems itemCount s.ahead = .ok rest →
      TraverseStops cwpRcWrongTimestampLength n s ∨
        ∃ (s' : UnpackState σ) (itemCount' : Int64), Traverses n s s' ∧
          itemCount'.toInt = (c : Nat) ∧ skipItems itemCount' s'.ahead = .ok rest ∧
          ∀ turn ∈ turns itemCount' s'.ahead, AddsDeclared turn := by
  intro len
  induction len with
  | zero =>
      intro n c itemCount s hlen hrc hle hcount hturns hskip
      have hnil : s.ahead = [] := List.eq_nil_of_length_eq_zero (Nat.le_zero.mp hlen)
      cases n with
      | zero =>
          rw [Nat.zero_add] at hcount
          exact Or.inr ⟨s, itemCount, .done s, hcount, hskip, hturns⟩
      | succ n =>
          have hpos : itemCount > 0 := by
            rw [gt_iff_lt, Int64.lt_iff_toInt_lt, Int64.toInt_zero]
            omega
          rw [hnil, skipItems_of_error hpos rfl] at hskip
          simp at hskip
  | succ len ih =>
      intro n c itemCount s hlen hrc hle hcount hturns hskip
      cases n with
      | zero =>
          rw [Nat.zero_add] at hcount
          exact Or.inr ⟨s, itemCount, .done s, hcount, hskip, hturns⟩
      | succ n =>
          have hpos : itemCount > 0 := by
            rw [gt_iff_lt, Int64.lt_iff_toInt_lt, Int64.toInt_zero]
            omega
          cases hitem : skipItem s.ahead with
          | error e =>
              rw [skipItems_of_error hpos hitem] at hskip
              simp at hskip
          | ok r =>
              obtain ⟨m, k⟩ := r
              rw [skipItems_of_ok hpos hitem] at hskip
              rw [turns_of_ok hpos hitem, List.forall_mem_cons] at hturns
              obtain ⟨hadds, hturns⟩ := hturns
              have hdec : declared s.ahead = .ok (m, k) := hadds.1.symm.trans hitem
              have hsum : (itemCount - 1 + Int64.ofNat k).toInt = itemCount.toInt - 1 + k :=
                hadds.2 m k hdec
              obtain ⟨hm, hne⟩ := skipItem_pos hitem
              have hlenpos := List.length_pos_iff.mpr hne
              obtain ⟨s₁, hnext, hdel⟩ := cwUnpackNext_static hrc hle
              obtain ⟨v, hd, hchildren⟩ := declared_eq_ok hdec
              rcases readItem_of_decode hd with ⟨v', hread, hv'⟩ | hread
              · rw [hread] at hdel
                obtain ⟨hok, hden, hinv⟩ := hdel
                have hahead := hinv.ahead_eq
                have hk : s₁.uc.item.children = k := by
                  rw [children_of_denotes hden, hv', hchildren]
                have hdrop := congrArg List.length hahead
                rw [List.length_drop] at hdrop
                rw [← hahead] at hskip hturns
                have hcontent := ih k (n + c) _ s₁ (by omega) hok hinv.current_le
                  (by rw [hsum, hcount]; omega) hturns hskip
                rcases hcontent with hstops | ⟨s₂, itemCount₂, htrav, hcount₂, hskip₂, hturns₂⟩
                · rw [← hk] at hstops
                  exact Or.inl (.content hnext hok hstops)
                · rw [← hk] at htrav
                  obtain ⟨hok₂, hinv₂, hlen₂⟩ := htrav.advances hok hinv.current_le
                  rcases ih n c _ s₂ (by omega) hok₂ hinv₂.current_le hcount₂ hturns₂ hskip₂ with
                    hstops | ⟨s₃, itemCount₃, htrav₃, hrest⟩
                  · exact Or.inl (.rest hnext hok htrav hstops)
                  · exact Or.inr ⟨s₃, itemCount₃, .item hnext hok htrav htrav₃, hrest⟩
              · rw [hread] at hdel
                exact Or.inl (.here hnext hdel.returnCode)

/-! ## Complete items -/

/-- The size of the item and of its content are right in 32 bits. -/
def FitsSkip : Value → Prop
  | .map n => n < 2 ^ 31
  | .ext _ payload => payload.length ≠ 2 ^ 32 - 1
  | _ => True

theorem not_wrapsSize_of_item {bs : List UInt8} {v : Value} (h : Item bs v) (hfits : FitsSkip v)
    (rest : List UInt8) : ¬ WrapsSize (bs ++ rest) := by
  have hdecode := decode_of_item h rest
  rintro ⟨w, hlen, ⟨heq, hsize⟩ | ⟨heq, hsize⟩⟩
  · have hf : format 0xdf = some (.number 4 .map) := rfl
    rw [heq, decode, hf] at hdecode
    simp only [decodeRest, if_neg (Nat.not_lt.mpr hlen), Decoded.item.injEq] at hdecode
    obtain ⟨rfl, -⟩ := hdecode
    exact absurd hfits (Nat.not_lt.mpr hsize)
  · have hf : format 0xc9 = some (.ext 4) := rfl
    rw [heq, decode, hf] at hdecode
    simp only [decodeRest, if_neg (Nat.not_lt.mpr hlen)] at hdecode
    cases hpayload : w.drop 4 with
    | nil => simp [hpayload] at hdecode
    | cons t payload =>
        simp only [hpayload] at hdecode
        by_cases hshort : payload.length < ofBigEndian (w.take 4)
        · simp [hshort] at hdecode
        · simp only [if_neg hshort, Decoded.item.injEq] at hdecode
          obtain ⟨rfl, -⟩ := hdecode
          refine hfits ?_
          rw [List.length_take, Nat.min_eq_left (Nat.le_of_not_lt hshort), hsize]

/-- A turn passes over one item, and its content is pending. -/
theorem skipItem_of_item {bs : List UInt8} {v : Value} (h : Item bs v) (hfits : FitsSkip v)
    (rest : List UInt8) : skipItem (bs ++ rest) = .ok (bs.length, v.children) := by
  rw [(skipItem_eq_declared_iff _).mpr (not_wrapsSize_of_item h hfits rest)]
  simp only [declared, decode_of_item h rest]

/-- Of the pending items, the loop passes over those that are there.  The induction is on these
items; what they declare has its bytes, so that the counter does not overflow. -/
theorem skipItems_of_complete {n : Nat} {bs : List UInt8} (h : Complete FitsSkip n bs) :
    ∀ (m : Nat) (itemCount : Int64) (rest : List UInt8), itemCount.toInt = (n + m : Nat) →
      m + bs.length < 2 ^ 63 →
      ∃ itemCount' : Int64, itemCount'.toInt = m ∧
        skipItems itemCount (bs ++ rest) = skipItems itemCount' rest := by
  induction h with
  | done =>
      intro m itemCount rest hcount _
      rw [Nat.zero_add] at hcount
      exact ⟨itemCount, hcount, rfl⟩
  | @item n bs content tail v h hfits hcontent htail ihcontent ihtail =>
      intro m itemCount rest hcount hlen
      have hpos : itemCount > 0 := by
        rw [gt_iff_lt, Int64.lt_iff_toInt_lt, Int64.toInt_zero]
        omega
      rw [List.length_append, List.length_append] at hlen
      have hitem := skipItem_of_item h hfits ((content ++ tail) ++ rest)
      have hdeclared : declared (bs ++ ((content ++ tail) ++ rest)) = .ok (bs.length, v.children) := by
        simp only [declared, decode_of_item h]
      have hchildren := hcontent.le_length
      have hn := htail.le_length
      have hturn := (toInt_after_turn hpos (declared_lt hdeclared)).mpr (by omega)
      rw [List.append_assoc, skipItems_of_ok hpos hitem, List.drop_left, List.append_assoc]
      obtain ⟨count₁, hcount₁, hskip₁⟩ := ihcontent (n + m) _ (tail ++ rest)
        (by rw [hturn, hcount]; omega) (by omega)
      obtain ⟨count₂, hcount₂, hskip₂⟩ := ihtail m count₁ rest hcount₁ (by omega)
      exact ⟨count₂, hcount₂, hskip₁.trans hskip₂⟩

/-- Skipping one complete item leaves what is behind it. -/
theorem skipItems_one_of_complete {bs rest : List UInt8} (h : Complete FitsSkip 1 bs)
    (hlen : bs.length < 2 ^ 63) : skipItems 1 (bs ++ rest) = .ok rest := by
  obtain ⟨itemCount, hcount, hskip⟩ := skipItems_of_complete h 0 1 rest rfl (by omega)
  have hnone : ¬ itemCount > 0 := by
    rw [gt_iff_lt, Int64.lt_iff_toInt_lt, Int64.toInt_zero]
    omega
  rw [hskip, skipItems_of_le hnone]

/-! ## The claim of the skipping routine -/

/-- Where skipping is OK, reading the items one by one is OK and ends at the same place, or
stops at a timestamp of a wrong length. -/
def AcceptsWhatIsThere (itemCount : Int64) (s : UnpackState σ) : Prop :=
  ∀ fuel, s.ahead.length < fuel → ∃ t, cwSkipItems fuel none itemCount s = some t ∧
    (t.uc.returnCode = cwpRcOk →
      (∃ s', Traverses itemCount.toNatClampNeg s s' ∧ s'.uc.returnCode = cwpRcOk ∧
        s'.uc.current = t.uc.current) ∨
      TraverseStops cwpRcWrongTimestampLength itemCount.toNatClampNeg s)

theorem acceptsWhatIsThere_of_addsDeclared {s : UnpackState σ} (hrc : s.uc.returnCode = cwpRcOk)
    (hle : s.uc.current ≤ s.uc.end_) {itemCount : Int64} (hn : 0 ≤ itemCount)
    (hturns : ∀ turn ∈ turns itemCount s.ahead, AddsDeclared turn) :
    AcceptsWhatIsThere itemCount s := by
  intro fuel hfuel
  obtain ⟨t, hcall, ht⟩ := (cwSkipItems_spec (static_feeds s.input) itemCount hfuel
    (staticInput_ahead hle) hrc).exists_of_not_stuck
  refine ⟨t, hcall, fun hok => ?_⟩
  cases hskip : skipItems itemCount s.ahead with
  | error e =>
      rw [hskip] at ht
      have hspec := skipItems_spec itemCount s.ahead
      rw [hskip] at hspec
      exact absurd (ht.returnCode.symm.trans hok) hspec
  | ok rest =>
      rw [hskip] at ht
      have hcount : itemCount.toInt = (itemCount.toNatClampNeg + 0 : Nat) := by
        rw [Int64.le_iff_toInt_le, Int64.toInt_zero] at hn
        exact (Int.toNat_of_nonneg hn).symm
      rcases traverses_of_skipItems _ _ 0 itemCount s (Nat.le_refl _) hrc hle hcount hturns hskip
        with hstops | ⟨s', itemCount', htrav, hzero, hskip', -⟩
      · exact Or.inr hstops
      · obtain ⟨hok', hinv, -⟩ := htrav.advances hrc hle
        have hnone : ¬ itemCount' > 0 := by
          rw [gt_iff_lt, Int64.lt_iff_toInt_lt, Int64.toInt_zero]
          omega
        rw [skipItems_of_le hnone] at hskip'
        obtain rfl := Except.ok.inj hskip'
        have hlength : s'.uc.current + s'.ahead.length = s.uc.end_ := hinv.length
        have hlengtht : t.uc.current + s'.ahead.length = s.uc.end_ := ht.2.length
        exact Or.inl ⟨s', htrav, hok', by omega⟩

/-- The loop comes by the turn, with the counter and the bytes ahead that it says; where it does
not stop there it goes on behind the item, with what the item has added. -/
def TakesTurn (itemCount : Int64) (s : UnpackState σ) (turn : Int64 × List UInt8) : Prop :=
  ∀ fuel, s.ahead.length < fuel → ∃ (left : Nat) (u : UnpackState σ), u.ahead = turn.2 ∧
    u.uc.returnCode = cwpRcOk ∧
    cwSkipItems fuel none itemCount s = skipLoop none (left + 1) turn.1 u ∧
    ∀ n k, skipItem turn.2 = .ok (n, k) → ∃ w : UnpackState σ, w.ahead = turn.2.drop n ∧
      w.uc.returnCode = cwpRcOk ∧
      skipLoop none (left + 1) turn.1 u = skipLoop none left (turn.1 - 1 + Int64.ofNat k) w

/-- In each turn that the loop takes, it passes over as many bytes and adds as many items as the
wire declares. -/
def LoopAddsDeclared (itemCount : Int64) (s : UnpackState σ) : Prop :=
  ∀ turn ∈ turns itemCount s.ahead, TakesTurn itemCount s turn ∧ AddsDeclared turn

theorem takesTurn_of_mem {s : UnpackState σ} (hrc : s.uc.returnCode = cwpRcOk)
    (hle : s.uc.current ≤ s.uc.end_) {itemCount : Int64} {turn : Int64 × List UInt8}
    (hmem : turn ∈ turns itemCount s.ahead) : TakesTurn itemCount s turn := by
  intro fuel hfuel
  obtain ⟨hpos, left, u, hleft, hu, hok, hsame⟩ :=
    skipLoop_of_mem_turns fuel itemCount s.ahead s hfuel (staticInput_ahead hle) hrc hmem
  have hskip : cwSkipItems fuel none itemCount s = skipLoop none fuel itemCount s :=
    if_neg (not_not_intro hrc)
  refine ⟨left, u, hu.ahead_eq, hok, hskip.trans hsame, fun n k hitem => ?_⟩
  obtain ⟨w, hw, hok', hstep⟩ := skipLoop_turn hpos hitem hleft hu hok
  exact ⟨w, hw.ahead_eq, hok', hstep⟩

/-- Skipping accepts only what is there and adds up what is declared exactly where no header on
its way has a size that wraps in 32 bits or a content that overflows the counter. -/
theorem skipItems_exact_iff {s : UnpackState σ} (hrc : s.uc.returnCode = cwpRcOk)
    (hle : s.uc.current ≤ s.uc.end_) {itemCount : Int64} (hn : 0 ≤ itemCount) :
    (AcceptsWhatIsThere itemCount s ∧ LoopAddsDeclared itemCount s) ↔
      ∀ header ∈ headers itemCount.toNatClampNeg s.ahead,
        ¬ WrapsSize header.2 ∧ ¬ OverflowsCounter header := by
  rw [← turns_addDeclared_iff hn]
  constructor
  · rintro ⟨-, hloop⟩
    exact fun turn hmem => (hloop turn hmem).2
  · intro hturns
    exact ⟨acceptsWhatIsThere_of_addsDeclared hrc hle hn hturns,
      fun turn hmem => ⟨takesTurn_of_mem hrc hle hmem, hturns turn hmem⟩⟩

theorem skipItems_exact_array :
    AcceptsWhatIsThere 1 (staticContext [0x91, 0x2a]) ∧
      LoopAddsDeclared 1 (staticContext [0x91, 0x2a]) := by
  refine (skipItems_exact_iff (s := staticContext [0x91, 0x2a]) rfl (by decide)
    (by decide)).mpr ?_
  have hone : (1 : Int64).toNatClampNeg = 1 := rfl
  have hfirst : declared [0x91, 0x2a] = .ok (1, 1) := rfl
  have hsecond : declared [0x2a] = .ok (1, 0) := rfl
  have hrest : ([0x91, 0x2a] : List UInt8).drop 1 = [0x2a] := rfl
  have hnone : 1 - 1 + 0 = 0 := rfl
  rw [staticContext_ahead, hone, headers_of_ok (by decide) hfirst, hrest,
    headers_of_ok (by decide) hsecond, hnone, headers_zero]
  simp only [List.forall_mem_cons]
  refine ⟨⟨?_, ?_⟩, ⟨?_, ?_⟩, fun _ h => absurd h List.not_mem_nil⟩
  · exact not_wrapsSize (by simp [format]) (by simp [format])
  · rintro ⟨v, n, hd, hover⟩
    obtain ⟨rfl, -⟩ := Decoded.item.inj hd
    exact absurd hover (by decide)
  · exact not_wrapsSize (by simp [format]) (by simp [format])
  · rintro ⟨v, n, hd, hover⟩
    obtain ⟨rfl, -⟩ := Decoded.item.inj hd
    exact absurd hover (by decide)

/-- The header of an `ext 32` item of 2^32-1 bytes, with nothing behind it, is skipped as one
item; reading it fails. -/
theorem skipItems_accepts_a_bare_header :
    (∃ t, cwSkipItems 6 none 1 (staticContext bareWrappingHeader) = some t ∧
      t.uc.returnCode = cwpRcOk ∧ t.uc.current = 5) ∧
    (∃ s', cwUnpackNext none (staticContext bareWrappingHeader) = some s' ∧
      s'.uc.returnCode = cwpRcBufferUnderflow) ∧
    ¬ ∀ (s : UnpackState Unit) (itemCount : Int64), s.uc.returnCode = cwpRcOk →
      s.uc.current ≤ s.uc.end_ → 0 ≤ itemCount → AcceptsWhatIsThere itemCount s := by
  have hskip : ∃ t, cwSkipItems 6 none 1 (staticContext bareWrappingHeader) = some t ∧
      t.uc.returnCode = cwpRcOk ∧ t.uc.current = 5 := ⟨_, rfl, rfl, rfl⟩
  have hread : ∃ s', cwUnpackNext none (staticContext bareWrappingHeader) = some s' ∧
      s'.uc.returnCode = cwpRcBufferUnderflow := ⟨_, rfl, rfl⟩
  refine ⟨hskip, hread, fun h => ?_⟩
  obtain ⟨t, ht, hok, -⟩ := hskip
  obtain ⟨s', hs', hcode⟩ := hread
  obtain ⟨t', ht', haccepts⟩ := h (staticContext bareWrappingHeader) 1 rfl (by decide) (by decide)
    6 (by rw [staticContext_ahead]; decide)
  obtain rfl : t = t' := Option.some.inj (ht.symm.trans ht')
  have hstate : ∀ {u}, cwUnpackNext none (staticContext bareWrappingHeader) = some u →
      u.uc.returnCode = cwpRcBufferUnderflow := by
    intro u hu
    rw [← Option.some.inj (hs'.symm.trans hu)]
    exact hcode
  rcases haccepts hok with ⟨u, htrav, -⟩ | hstops
  · cases htrav with
    | item hnext hok₁ _ _ => exact absurd ((hstate hnext).symm.trans hok₁) (by decide)
  · cases hstops with
    | here hnext hstop => exact absurd ((hstate hnext).symm.trans hstop) (by decide)
    | content hnext hok₁ _ => exact absurd ((hstate hnext).symm.trans hok₁) (by decide)
    | rest hnext hok₁ _ _ => exact absurd ((hstate hnext).symm.trans hok₁) (by decide)

end CWPack.Core
