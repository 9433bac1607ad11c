/-
  Core/Transparency.lean --- looking ahead before reading and skipping.

  Where looking ahead fails, it stops the context, and what follows is refused
  with its code.  Reading would have failed with the same code, and so would
  skipping, with one exception: the length of an `ext 32` item of 2^32-1 bytes
  wraps to a size of zero in `cw_skip_items`, which accepts the bare header.
-/
import CWPack.Core.LookAhead

set_option autoImplicit false

namespace CWPack.Core

open CWPack.Foundation
open CWPack.MessagePack

variable {σ : Type}

/-! ## Where looking ahead fails -/

/-- Where looking ahead fails, reading fails with the same code. -/
theorem readItem_of_lookItem_error {b : List UInt8} {e : Int} (h : lookItem b = .error e) :
    readItem b = .error e := by
  cases lookItem_eq_error h with
  | empty => rfl
  | fixext hf =>
      simp only [readItem, hf, readRest, List.length_nil]
      rw [if_pos (Nat.succ_pos _)]
  | @ext c v w hf hlen =>
      simp only [readItem, hf]
      by_cases hw : w = 1
      · subst hw
        rw [readRest, if_pos hlen]
      · rw [readRest_ext_of_ne v hw]
        exact ofDecoded_ext_short hlen

/-- The one input that looking ahead rejects and skipping accepts: the header of an `ext 32`
item of 2^32-1 bytes, with nothing behind it. -/
def bareWrappingHeader : List UInt8 := [0xc9, 0xff, 0xff, 0xff, 0xff]

theorem eq_of_ofBigEndian_max {v : List UInt8} (hlen : v.length = 4)
    (h : ofBigEndian v = 2 ^ 32 - 1) : v = [0xff, 0xff, 0xff, 0xff] := by
  have hround : bigEndian 4 (ofBigEndian v) = v := by
    rw [← hlen]
    exact bigEndian_ofBigEndian v
  rw [← hround, h]
  rfl

/-- The size that is skipped behind the length of an extension is zero at the exception only. -/
theorem ext_size_lt {c : UInt8} {v : List UInt8} (hf : format c = some (.ext v.length))
    (hb : c :: v ≠ bareWrappingHeader) : ofBigEndian v + 1 < 2 ^ 32 := by
  have hlt := ofBigEndian_lt v
  rcases format_ext_cases hf with ⟨-, hlen⟩ | ⟨-, hlen⟩ | ⟨rfl, hlen⟩
  · rw [hlen] at hlt
    omega
  · rw [hlen] at hlt
    omega
  · rw [hlen] at hlt
    refine Nat.lt_of_le_of_ne (by omega) fun hmax => hb ?_
    rw [eq_of_ofBigEndian_max hlen (by omega)]
    rfl

/-- Where looking ahead fails, so does skipping an item, with that exception. -/
theorem skipItem_of_lookItem_error {b : List UInt8} {e : Int} (h : lookItem b = .error e)
    (hb : b ≠ bareWrappingHeader) : skipItem b = .error e := by
  cases lookItem_eq_error h with
  | empty => rfl
  | fixext hf =>
      simp only [skipItem, hf, skipRest, List.length_nil]
      rw [if_pos (Nat.succ_pos _)]
  | @ext c v w hf hlen =>
      simp only [skipItem, hf, skipRest]
      by_cases hw : v.length < w
      · rw [if_pos hw]
      · obtain rfl : v.length = w := by omega
        have hsize := ext_size_lt hf hb
        rw [if_neg hw, List.take_length, Nat.mod_eq_of_lt hsize, if_pos (by omega)]

theorem skipItems_of_lookItem_error {itemCount : Int64} {b : List UInt8} {e : Int}
    (hpos : itemCount > 0) (h : lookItem b = .error e) (hb : b ≠ bareWrappingHeader) :
    skipItems itemCount b = .error e :=
  skipItems_of_error hpos (skipItem_of_lookItem_error h hb)

/-- At the exception, the codes differ. -/
theorem skipItems_bareWrappingHeader {itemCount : Int64} (hpos : itemCount > 0) :
    skipItems itemCount bareWrappingHeader = .ok [] ∨
      skipItems itemCount bareWrappingHeader = .error cwpRcEndOfInput := by
  have hf : format 0xc9 = some (.ext 4) := rfl
  have hturn : skipItem bareWrappingHeader = .ok (5, 0) := by
    simp [bareWrappingHeader, skipItem, hf, skipRest, ofBigEndian]
  have hrest : bareWrappingHeader.drop 5 = [] := rfl
  have hnil : skipItem [] = .error cwpRcEndOfInput := rfl
  rw [skipItems_of_ok hpos hturn, hrest]
  by_cases hmore : itemCount - 1 + Int64.ofNat 0 > 0
  · exact Or.inr (skipItems_of_error hmore hnil)
  · exact Or.inl (skipItems_of_le hmore)

/-! ## Transparency -/

/-- After `k` look-aheads a call ends with the code it ends with alone, and where that is
OK, with the same item and at the same place. -/
def Transparent (fuel k : Nat) (op : UnpackOp) (s : UnpackState σ) : Prop :=
  ∃ looks o o' u u',
    trace (UnpackOp.perform fuel none) (List.replicate k .lookAhead ++ [op]) s =
      some (looks ++ [o'], u') ∧
    op.perform fuel none s = some (o, u) ∧ o'.returnCode = o.returnCode ∧
    (o.returnCode = cwpRcOk → u'.uc.item = u.uc.item ∧ u'.uc.current = u.uc.current)

/-- A call that consumes input. -/
def UnpackOp.Consumes : UnpackOp → Prop
  | .next => True
  | .lookAhead => False
  | .skip itemCount => itemCount > 0

/-- The calls return, with the code of the list functions. -/
theorem UnpackOp.perform_static {fuel : Nat} {op : UnpackOp} {s : UnpackState σ}
    (hrc : s.uc.returnCode = cwpRcOk) (hle : s.uc.current ≤ s.uc.end_)
    (hfuel : s.ahead.length < fuel) :
    ∃ o u, op.perform fuel none s = some (o, u) ∧ o = (op.answer (.ok s.ahead)).1 := by
  obtain ⟨⟨o, u⟩, hcall, ho, -⟩ := (op.perform_spec (static_feeds s.input) fuel s (.ok s.ahead)
    ⟨hrc, staticInput_ahead hle, hfuel⟩).exists_of_not_stuck
  exact ⟨o, u, hcall, ho⟩

theorem UnpackOp.perform_lookAhead {fuel : Nat} {s u : UnpackState σ} {t : ItemType}
    (h : cwLookAhead none s = some (t, u)) :
    UnpackOp.lookAhead.perform fuel none s = some (⟨u.uc.returnCode, some t, none⟩, u) := by
  simp only [perform, h]

/-- Looking ahead leaves a state it does not change, however often. -/
theorem trace_lookAheads_of_fixed {fuel : Nat} {s : UnpackState σ} {t : ItemType}
    (h : cwLookAhead none s = some (t, s)) (k : Nat) :
    trace (UnpackOp.perform fuel none) (List.replicate k .lookAhead) s =
      some (List.replicate k ⟨s.uc.returnCode, some t, none⟩, s) := by
  induction k with
  | zero => rfl
  | succ k ih => simp only [List.replicate_succ, trace, UnpackOp.perform_lookAhead h, ih]

theorem trace_lookAheads {fuel k : Nat} {op : UnpackOp} {s mid u : UnpackState σ}
    {looks : List Observation} {o : Observation}
    (hlooks : trace (UnpackOp.perform fuel none) (List.replicate k .lookAhead) s =
      some (looks, mid)) (hop : op.perform fuel none mid = some (o, u)) :
    trace (UnpackOp.perform fuel none) (List.replicate k .lookAhead ++ [op]) s =
      some (looks ++ [o], u) := by
  rw [trace_append, hlooks, Option.bind_some]
  simp only [trace, hop, Option.map_some]

/-- Where looking ahead changes nothing, it is transparent. -/
theorem transparent_of_fixed {fuel k : Nat} {op : UnpackOp} {s u : UnpackState σ} {t : ItemType}
    {o : Observation} (h : cwLookAhead none s = some (t, s))
    (hop : op.perform fuel none s = some (o, u)) : Transparent fuel k op s :=
  ⟨_, o, o, u, u, trace_lookAheads (trace_lookAheads_of_fixed h k) hop, hop, rfl,
    fun _ => ⟨rfl, rfl⟩⟩

/-- Where looking ahead fails, the calls behind it are refused with its code. -/
theorem trace_after_failed_look {fuel k : Nat} {op : UnpackOp} {s u : UnpackState σ}
    (h : cwLookAhead none s = some (.notAnItem, u)) (hrc : u.uc.returnCode ≠ 0) :
    ∃ looks, trace (UnpackOp.perform fuel none) (List.replicate (k + 1) .lookAhead ++ [op]) s =
      some (looks ++ [op.refused u.uc.returnCode], u) := by
  have hfixed : cwLookAhead none u = some (.notAnItem, u) := if_pos hrc
  have hlooks : trace (UnpackOp.perform fuel none) (List.replicate (k + 1) .lookAhead) s =
      some (⟨u.uc.returnCode, some .notAnItem, none⟩ ::
        List.replicate k ⟨u.uc.returnCode, some .notAnItem, none⟩, u) := by
    simp only [List.replicate_succ, trace, UnpackOp.perform_lookAhead h,
      trace_lookAheads_of_fixed hfixed k]
  exact ⟨_, trace_lookAheads hlooks (op.perform_of_stopped fuel hrc)⟩

/-- The code a call ends with, where looking ahead fails. -/
theorem answer_of_lookItem_error {op : UnpackOp} (hop : op.Consumes) {b : List UInt8} {e : Int}
    (h : lookItem b = .error e) (hb : op = .next ∨ b ≠ bareWrappingHeader) :
    (op.answer (.ok b)).1 = op.refused e := by
  cases op with
  | next => simp only [UnpackOp.answer, readItem_of_lookItem_error h]
  | lookAhead => exact hop.elim
  | skip itemCount =>
      have hb' : b ≠ bareWrappingHeader := hb.resolve_left (fun h => UnpackOp.noConfusion h)
      simp only [UnpackOp.answer, skipItems_of_lookItem_error hop h hb']

theorem UnpackOp.refused_returnCode (op : UnpackOp) (e : Int) :
    (op.refused e).returnCode = e := by
  cases op <;> rfl

/-- Looking ahead that does not fail changes nothing, and looking ahead is transparent but
for one input of `cw_skip_items`. -/
theorem lookAhead_transparent_iff {s : UnpackState σ} (hle : s.uc.current ≤ s.uc.end_)
    {fuel : Nat} (hfuel : s.ahead.length < fuel) {op : UnpackOp} (hop : op.Consumes) (k : Nat) :
    (∀ t u, cwLookAhead none s = some (t, u) → u.uc.returnCode = cwpRcOk → u = s) ∧
    (Transparent fuel k op s ↔
      ¬ (s.uc.returnCode = cwpRcOk ∧ 0 < k ∧ op ≠ .next ∧ s.ahead = bareWrappingHeader)) := by
  refine ⟨cwLookAhead_unchanged s, ?_⟩
  by_cases hrc : s.uc.returnCode = cwpRcOk
  · obtain ⟨o, u, hcall, ho⟩ := op.perform_static hrc hle hfuel
    rcases cwLookAhead_static hrc hle with ⟨t, ht, hlook⟩ | ⟨e, v, he, hlook, hcode, hne⟩
    · refine iff_of_true (transparent_of_fixed hlook hcall) fun h => ?_
      have hbare : lookItem bareWrappingHeader = .error cwpRcBufferUnderflow := rfl
      rw [h.2.2.2, hbare] at ht
      simp at ht
    · cases k with
      | zero =>
          refine iff_of_true ⟨[], o, o, u, u, ?_, hcall, rfl, fun _ => ⟨rfl, rfl⟩⟩
            fun h => absurd h.2.1 (Nat.lt_irrefl 0)
          show trace _ [op] s = some ([o], u)
          simp only [trace, hcall]
      | succ k =>
          obtain ⟨looks, htrace⟩ : ∃ looks, trace (UnpackOp.perform fuel none)
              (List.replicate (k + 1) .lookAhead ++ [op]) s =
                some (looks ++ [op.refused v.uc.returnCode], v) :=
            trace_after_failed_look hlook (by rw [hcode]; exact hne)
          by_cases hb : op = .next ∨ s.ahead ≠ bareWrappingHeader
          · have hanswer := answer_of_lookItem_error hop he hb
            rw [hanswer] at ho
            have hocode : o.returnCode = e := by rw [ho, UnpackOp.refused_returnCode]
            refine iff_of_true ⟨looks, o, _, u, v, htrace, hcall, ?_, fun h => ?_⟩ fun h => ?_
            · rw [UnpackOp.refused_returnCode, hcode, hocode]
            · exact absurd (hocode.symm.trans h) hne
            · exact hb.elim h.2.2.1 fun hb => hb h.2.2.2
          · obtain ⟨hnext, hahead⟩ := not_or.mp hb
            have hahead' : s.ahead = bareWrappingHeader := not_not.mp hahead
            refine iff_of_false ?_ (not_not_intro ⟨hrc, Nat.succ_pos k, hnext, hahead'⟩)
            -- looking ahead stops for want of a type byte, and skipping does not
            have hbare : lookItem bareWrappingHeader = .error cwpRcBufferUnderflow := rfl
            rw [hahead', hbare] at he
            obtain rfl := Except.error.inj he
            rintro ⟨looks', o₁, o', u₁, u', htrace', hcall', hsame, -⟩
            rw [hcall] at hcall'
            rw [htrace] at htrace'
            obtain ⟨rfl, rfl⟩ := Prod.mk.inj (Option.some.inj hcall')
            obtain ⟨hlist, -⟩ := Prod.mk.inj (Option.some.inj htrace')
            have hlast : op.refused v.uc.returnCode = o' :=
              List.singleton_inj.mp (List.append_inj' hlist rfl).2
            rw [← hlast, UnpackOp.refused_returnCode, hcode, ho, hahead'] at hsame
            cases op with
            | next => exact hnext rfl
            | lookAhead => exact hop
            | skip itemCount =>
                rcases skipItems_bareWrappingHeader hop with hskip | hskip
                · simp only [UnpackOp.answer, hskip] at hsame
                  exact absurd hsame (by decide)
                · simp only [UnpackOp.answer, hskip, UnpackOp.refused] at hsame
                  exact absurd hsame (by decide)
  · have hlook : cwLookAhead none s = some (.notAnItem, s) := if_pos hrc
    exact iff_of_true (transparent_of_fixed hlook (op.perform_of_stopped fuel hrc))
      fun h => hrc h.1

theorem lookAhead_transparent_truncated :
    Transparent 3 2 (.skip 1) (staticContext [0xc7, 0x01]) := by
  have hop : UnpackOp.Consumes (.skip 1) := by
    show (1 : Int64) > 0
    decide
  exact (lookAhead_transparent_iff (s := staticContext [0xc7, 0x01]) (by decide)
    (by rw [staticContext_ahead]; decide) hop 2).2.mpr
    fun h => absurd h.2.2.2 (by rw [staticContext_ahead]; decide)

/-- Skipping accepts the header of an `ext 32` item of 2^32-1 bytes; behind a look-ahead it
fails. -/
theorem lookAhead_stops_skipping :
    (∃ u, UnpackOp.perform 6 none (.skip 1) (staticContext bareWrappingHeader) =
      some (⟨cwpRcOk, none, none⟩, u)) ∧
    (∃ u, trace (UnpackOp.perform 6 none) [.lookAhead, .skip 1]
        (staticContext bareWrappingHeader) =
      some ([⟨cwpRcBufferUnderflow, some .notAnItem, none⟩,
        ⟨cwpRcBufferUnderflow, none, none⟩], u)) ∧
    ¬ ∀ (s : UnpackState Unit) (fuel k : Nat) (op : UnpackOp), s.uc.current ≤ s.uc.end_ →
      s.ahead.length < fuel → op.Consumes → Transparent fuel k op s := by
  have hone : ∃ u, UnpackOp.perform 6 none (.skip 1) (staticContext bareWrappingHeader) =
      some (⟨cwpRcOk, none, none⟩, u) := ⟨_, rfl⟩
  have htwo : ∃ u, trace (UnpackOp.perform 6 none) [.lookAhead, .skip 1]
      (staticContext bareWrappingHeader) =
    some ([⟨cwpRcBufferUnderflow, some .notAnItem, none⟩,
      ⟨cwpRcBufferUnderflow, none, none⟩], u) := ⟨_, rfl⟩
  refine ⟨hone, htwo, fun h => ?_⟩
  obtain ⟨u, hu⟩ := hone
  obtain ⟨v, hv⟩ := htwo
  obtain ⟨looks, o, o', u₁, u', htrace, hcall, hsame, -⟩ :=
    h (staticContext bareWrappingHeader) 6 1 (.skip 1) (by decide)
      (by rw [staticContext_ahead]; decide) (by show (1 : Int64) > 0; decide)
  have htrace₁ : trace (UnpackOp.perform 6 none) [.lookAhead, .skip 1]
      (staticContext bareWrappingHeader) = some (looks ++ [o'], u') := htrace
  rw [hv] at htrace₁
  rw [hu] at hcall
  obtain ⟨rfl, -⟩ := Prod.mk.inj (Option.some.inj hcall)
  obtain ⟨hlist, -⟩ := Prod.mk.inj (Option.some.inj htrace₁)
  have hlist' : [_] ++ [_] = looks ++ [o'] := hlist
  obtain rfl := List.singleton_inj.mp (List.append_inj' hlist' rfl).2
  exact absurd hsame (by decide)

end CWPack.Core
