/-
  ObjC/OneItem.lean --- when every packed object is one MessagePack item.

  An object that contains itself nowhere is packed with finitely many calls.  It
  and everything in it are packed as one complete item each exactly when no object
  among them miscounts.
-/
import CWPack.ObjC.Framing
import CWPack.ObjC.Returns

set_option autoImplicit false

namespace CWPack.ObjC

open CWPack.Foundation
open CWPack.Core
open CWPack.MessagePack
open CWPack.Goodies

variable {S σ : Type} {F : FloatUnit} {heap : Heap} {p q : ObjectId}

/-! ## Packing with room -/

/-- An overflow handler that always finds room for another item. -/
def alwaysRoom : PackHandlers Unit where
  handlePackOverflow := some fun s _ => some (0, { s with pc.end_ := s.pc.current + 2 ^ 33 })
  handleFlush := none

theorem alwaysRoom_onlyMakesRoom : OnlyMakesRoom alwaysRoom := by
  intro handler s more e t hhandler hcall
  obtain rfl := Option.some.inj hhandler
  obtain ⟨-, rfl⟩ := Prod.mk.inj (Option.some.inj hcall)
  exact ⟨rfl, rfl⟩

/-- Nothing but a timestamp or a flush can fail there. -/
theorem alwaysRoom_perform (c : PackingCall) (s : PackState Unit) (hc : Plain c)
    (hs : s.pc.returnCode = 0 ∧ s.pc.beCompatible = false) :
    ∃ s', c.perform alwaysRoom s = some s' ∧
      (s'.pc.returnCode = 0 ∧ s'.pc.beCompatible = false) := by
  obtain ⟨hrc, hmode⟩ := hs
  have hputs := PackingCall.perform_puts (H := alwaysRoom) hc.ne_flush hrc
  have haccepted : c.refusal s.pc.beCompatible = none := by
    rw [hmode]
    cases c with
    | call c =>
        cases c with
        | time sec nsec => exact hc.elim
        | _ => rfl
    | _ => rfl
  rw [haccepted] at hputs
  obtain ⟨bs, hputs, -⟩ := hputs
  generalize c.perform alwaysRoom s = r at hputs
  cases hputs with
  | emit =>
      by_cases hle : s.pc.current + bs.length ≤ s.pc.end_
      · exact ⟨_, emit_of_le alwaysRoom hle, hrc, hmode⟩
      · exact ⟨_, emit_of_gt alwaysRoom (Nat.lt_of_not_le hle), hrc, hmode⟩
  | move t =>
      unfold tryMove0
      by_cases hfull : s.pc.current = s.pc.end_
      · rw [if_pos hfull]
        exact ⟨_, rfl, hrc, hmode⟩
      · rw [if_neg hfull]
        exact ⟨_, rfl, hrc, hmode⟩

/-! ## One item -/

/-- Where packing the object leaves the return code OK, its calls have stored bytes that satisfy
`Q`. -/
def Packs (F : FloatUnit) (heap : Heap) (Q : List UInt8 → Prop) (p : ObjectId) : Prop :=
  ∀ (σ : Type) (H : PackHandlers σ) (depth : Nat) (ctx ctx' : CWPackContext (PackState σ)),
    packObject F (PackingCall.perform H) heap depth p ctx = some ctx' →
    ctx'.context.pc.returnCode = cwpRcOk →
    ∃ calls chunks, packObject F record heap depth p (ctx.on []) = some (ctx'.on calls) ∧
      Produces H calls ctx.context chunks ctx'.context ∧ Q chunks.flatten

/-- The object is packed as one complete item. -/
def PacksOneItem (F : FloatUnit) (heap : Heap) (p : ObjectId) : Prop :=
  Packs F heap (Complete (fun _ => True) 1) p

/-- Where the bytes are ahead in memory, `cw_skip_items` of one item ends behind them. -/
def SkippedAsOne (bs : List UInt8) : Prop :=
  ∀ (s : UnpackState Unit) (rest : List UInt8) (fuel : Nat), s.uc.returnCode = cwpRcOk →
    s.uc.current ≤ s.uc.end_ → s.ahead = bs ++ rest → s.ahead.length < fuel →
    ∃ t, cwSkipItems fuel none 1 s = some t ∧ t.uc.returnCode = cwpRcOk ∧
      t.uc.current = s.uc.current + bs.length

theorem skippedAsOne_of_complete {bs : List UInt8} (h : Complete FitsSkip 1 bs)
    (hlen : bs.length < 2 ^ 63) : SkippedAsOne bs := by
  intro s rest fuel hrc hle hahead hfuel
  obtain ⟨t, hcall, ht⟩ := (cwSkipItems_spec (static_feeds s.input) 1 hfuel
    (staticInput_ahead hle) hrc).exists_of_not_stuck
  rw [hahead, skipItems_one_of_complete h hlen] at ht
  obtain ⟨hok, hinput⟩ := ht
  refine ⟨t, hcall, hok, ?_⟩
  have hbefore : s.uc.current + s.ahead.length = s.uc.end_ := (staticInput_ahead hle).length
  have hafter : t.uc.current + rest.length = s.uc.end_ := hinput.length
  rw [hahead, List.length_append] at hbefore
  omega

theorem packs_of_adds {Q : List UInt8 → Prop}
    (h : ∀ (depth : Nat) (r r' : Recorded), packObject F record heap depth p r = some r' →
      Adds Q r.context r'.context) : Packs F heap Q p := by
  intro σ H depth ctx ctx' hpack hok
  obtain ⟨calls, hrecord, hrun⟩ := packObject_recorded hpack
  obtain ⟨calls', hcalls, hstores⟩ := h depth (ctx.on []) (ctx'.on calls) hrecord
  obtain rfl : calls = calls' := hcalls
  obtain ⟨-, chunks, hproduces, hQ⟩ := hstores σ H _ _ hrun hok
  exact ⟨calls, chunks, hrecord, hproduces, hQ⟩

theorem Packs.mono {Q R : List UInt8 → Prop} (h : Packs F heap Q p) (himp : ∀ bs, Q bs → R bs) :
    Packs F heap R p := by
  intro σ H depth ctx ctx' hpack hok
  obtain ⟨calls, chunks, hrecord, hproduces, hQ⟩ := h σ H depth ctx ctx' hpack hok
  exact ⟨calls, chunks, hrecord, hproduces, himp _ hQ⟩

/-- Where neither the object nor anything in it miscounts, it is packed as one complete item.
The induction is on the depth. -/
theorem packObject_adds {skips : Prop} :
    ∀ (depth : Nat) (p : ObjectId),
      (∀ q, Nested heap p q → ¬ (heap q).Miscounts ∧ (skips → ¬ (heap q).WrapsSkip)) →
      ∀ r r' : Recorded, packObject F record heap depth p r = some r' →
        Adds (Complete (Fits skips) 1) r.context r'.context := by
  intro depth
  induction depth with
  | zero => exact fun p _ r r' h => by simp [packObject] at h
  | succ depth ih =>
      intro p hnested r r' h
      obtain ⟨hcounts, hskip⟩ := hnested p .refl
      refine packObject_adds_item (fun q hq => ?_) hcounts hskip h
      exact ih q fun q' hq' => hnested q' (hq'.tail hq)

/-- An object that is packed as one item, as is everything in it, does not miscount. -/
theorem not_miscounts_of_packs (hpredefined : ∀ q, Nested heap p q → (heap q).Predefined)
    (hacyclic : Acc (IsPart heap) p)
    (hparts : ∀ q, IsPart heap q p → ∀ q', Nested heap q q' → ¬ (heap q').Miscounts)
    (h : PacksOneItem F heap p) : ¬ (heap p).Miscounts := by
  obtain ⟨N, hN⟩ : ∃ N, ReturnsFrom F heap p N := packObject_returnsFrom hacyclic hpredefined
  let s : PackState Unit := ⟨⟨0, 0, 0, false, 0, 0⟩, fun _ => 0, ()⟩
  obtain ⟨ctx', hpack, hok, -⟩ := hN (PackState Unit) (PackingCall.perform alwaysRoom) _
    alwaysRoom_perform (N + 1) (Nat.le_succ N) (.initWithContext s) ⟨rfl, rfl⟩
  obtain ⟨calls, chunks, hrecord, hproduces, hone⟩ := h Unit alwaysRoom (N + 1) _ ctx' hpack hok
  have hemits : Adds (Emits (Fits False) (heap p)) [] calls :=
    packObject_emits (fun q hq => packObject_adds N q fun q' hq' =>
      ⟨hparts q hq q' hq', False.elim⟩) False.elim rfl hrecord
  obtain ⟨calls', hcalls, hstores⟩ := hemits
  rw [List.nil_append] at hcalls
  subst hcalls
  obtain ⟨-, chunks', hproduces', hemits⟩ := hstores Unit alwaysRoom _ _ hproduces.run_eq hok
  -- both lists of chunks are what the memory holds in the end
  have hsame : chunks.flatten = chunks'.flatten := by
    have hbytes := hproduces.bytes alwaysRoom_onlyMakesRoom rfl (Nat.le_refl _)
    have hbytes' := hproduces'.bytes alwaysRoom_onlyMakesRoom rfl (Nat.le_refl _)
    exact List.append_cancel_left (hbytes.symm.trans hbytes')
  rw [hsame] at hone
  exact (emits_complete_iff hemits).mp (hone.mono fun _ _ => False.elim)

/-- Everything in an object is packed as one item each exactly when none of it miscounts. -/
theorem packsOneItem_nested_iff (hacyclic : Acc (IsPart heap) p) :
    (∀ q, Nested heap p q → (heap q).Predefined) →
    ((∀ q, Nested heap p q → PacksOneItem F heap q) ↔
      ∀ q, Nested heap p q → ¬ (heap q).Miscounts) := by
  induction hacyclic with
  | intro p hacc ih =>
      intro hpredefined
      constructor
      · intro h
        have hparts : ∀ q, IsPart heap q p → ∀ q', Nested heap q q' → ¬ (heap q').Miscounts :=
          fun q hq => (ih q hq fun q' hq' => hpredefined q' (hq'.tail hq)).mp
            fun q' hq' => h q' (hq'.tail hq)
        intro q hq
        rcases Relation.ReflTransGen.cases_tail hq with rfl | ⟨r, hqr, hrp⟩
        · exact not_miscounts_of_packs hpredefined (.intro _ hacc) hparts (h _ .refl)
        · exact hparts r hrp q hqr
      · intro h q hq
        have hitem : Packs F heap (Complete (Fits False) 1) q :=
          packs_of_adds fun depth r r' => packObject_adds depth q
            (fun q' hq' => ⟨h q' (hq'.trans hq), False.elim⟩) r r'
        exact hitem.mono fun bs hbs => hbs.mono fun _ _ => trivial

/-- A predefined object that does not contain itself is packed in finite time.  It and everything
in it are packed as one complete item each exactly when none of it miscounts; if none of it has a
size that wraps when it is skipped either, `cw_skip_items` of one item passes over its bytes. -/
theorem packs_one_item_iff (hacyclic : Acc (IsPart heap) p)
    (hpredefined : ∀ q, Nested heap p q → (heap q).Predefined) :
    ((∀ q, Nested heap p q → PacksOneItem F heap q) ↔
      ∀ q, Nested heap p q → ¬ (heap q).Miscounts) ∧
    ((∀ q, Nested heap p q → ¬ (heap q).Miscounts ∧ ¬ (heap q).WrapsSkip) →
      Packs F heap (fun bs => Complete (fun _ => True) 1 bs ∧
        (bs.length < 2 ^ 63 → SkippedAsOne bs)) p) ∧
    ∃ N, ∀ (σ : Type) (H : PackHandlers σ),
      (∀ handler s more, H.handlePackOverflow = some handler → handler s more ≠ none) →
      ∀ depth, N ≤ depth → ∀ ctx,
        ∃ ctx', packObject F (PackingCall.perform H) heap depth p ctx = some ctx' := by
  refine ⟨packsOneItem_nested_iff hacyclic hpredefined, fun h => ?_, ?_⟩
  · have hitem : Packs F heap (Complete (Fits True) 1) p :=
      packs_of_adds fun depth r r' => packObject_adds depth p
        (fun q hq => ⟨(h q hq).1, fun _ => (h q hq).2⟩) r r'
    refine hitem.mono fun bs hbs => ⟨hbs.mono fun _ _ => trivial, fun hlen => ?_⟩
    exact skippedAsOne_of_complete (hbs.mono fun v hv => hv trivial) hlen
  · obtain ⟨N, hN⟩ : ∃ N, ReturnsFrom F heap p N := packObject_returnsFrom hacyclic hpredefined
    refine ⟨N, fun σ H hreturns depth hdepth ctx => ?_⟩
    have hperform : ∀ (c : PackingCall) (s : PackState σ), Plain c → True →
        ∃ s', c.perform H s = some s' ∧ True := by
      intro c s hc _
      obtain ⟨s', hs'⟩ := PackingCall.perform_returns (s := s) hc.ne_flush hreturns
      exact ⟨s', hs', trivial⟩
    obtain ⟨ctx', hctx', -⟩ := hN _ (PackingCall.perform H) (fun _ => True) hperform depth hdepth
      ctx trivial
    exact ⟨ctx', hctx'⟩

/-- An array that holds one number twice, and an object that holds it again. -/
def sharedNumber : Heap := fun p =>
  if p = 0 then .array [1, 2, 1]
  else if p = 2 then .genericClass (some "P") [1]
  else .number (.integer .sInt8 7)

theorem packs_one_item_shared_number :
    (∀ q, Nested sharedNumber 0 q → PacksOneItem FloatUnit.native sharedNumber q) ∧
    Packs FloatUnit.native sharedNumber (fun bs => Complete (fun _ => True) 1 bs ∧
      (bs.length < 2 ^ 63 → SkippedAsOne bs)) 0 := by
  have hnumber : Acc (IsPart sharedNumber) 1 := .intro 1 fun r hr => absurd hr List.not_mem_nil
  have huser : Acc (IsPart sharedNumber) 2 := by
    refine .intro 2 fun r hr => ?_
    obtain rfl : r = 1 := List.mem_singleton.mp hr
    exact hnumber
  have hacyclic : Acc (IsPart sharedNumber) 0 := by
    refine .intro 0 fun r hr => ?_
    have hmem : r ∈ [1, 2, 1] := hr
    simp only [List.mem_cons, List.not_mem_nil, or_false] at hmem
    rcases hmem with rfl | rfl | rfl
    · exact hnumber
    · exact huser
    · exact hnumber
  have hall : ∀ q, (sharedNumber q).Predefined ∧ ¬ (sharedNumber q).Miscounts ∧
      ¬ (sharedNumber q).WrapsSkip := by
    intro q
    unfold sharedNumber
    by_cases hq : q = 0
    · rw [if_pos hq]
      exact ⟨trivial, id, id⟩
    · rw [if_neg hq]
      by_cases hq' : q = 2
      · rw [if_pos hq']
        exact ⟨rfl, Nat.not_le_of_lt (by decide : 3 < 2 ^ 32), id⟩
      · rw [if_neg hq']
        exact ⟨trivial, id, id⟩
  obtain ⟨hiff, hskip, -⟩ := packs_one_item_iff (F := FloatUnit.native) hacyclic
    fun q _ => (hall q).1
  exact ⟨hiff.mpr fun q _ => (hall q).2.1, hskip fun q _ => (hall q).2⟩

/-- The number NO is packed as `false` and 0. -/
theorem number_no_is_two_items :
    (∃ ctx', packObject FloatUnit.native (PackingCall.perform (.static Unit))
        (fun _ => .number (.char 0)) 1 0 (.initWithContext (cwPackContextInit 0 4 blankPack)) =
          some ctx' ∧
      ctx'.context.pc.returnCode = cwpRcOk ∧ ctx'.context.pc.current = 2 ∧
      ctx'.context.mem.bytes 0 2 = [0xc2, 0x00]) ∧
    ¬ ∀ (F : FloatUnit) (heap : Heap) (p : ObjectId), Acc (IsPart heap) p →
      (∀ q, Nested heap p q → (heap q).Predefined) → PacksOneItem F heap p := by
  refine ⟨⟨_, rfl, rfl, rfl, by decide⟩, fun h => ?_⟩
  let heap : Heap := fun _ => .number (.char 0)
  have hnone : ∀ q p, ¬ IsPart heap q p := fun q p => List.not_mem_nil
  have hacyclic : Acc (IsPart heap) 0 := .intro 0 fun q hq => (hnone q 0 hq).elim
  have hpredefined : ∀ q, Nested heap 0 q → (heap q).Predefined := fun _ _ => trivial
  exact not_miscounts_of_packs hpredefined hacyclic (fun q hq => (hnone q 0 hq).elim)
    (h FloatUnit.native heap 0 hacyclic hpredefined) rfl

end CWPack.ObjC
