/-
  ObjC/Decoded.lean --- objects are built from items that decoded.

  `decodedOnly` watches over the trail of an unpacking: whoever looks at the item
  has to follow a `cw_unpack_next` that returned OK.  All methods do but one.  Behind
  the header of an array that is not empty, `cwUnpackObject:` calls `cw_unpack_next`
  itself and goes on without a look at the return code.

  `unpackNextObject_builds_from_decoded_iff` says that nothing else goes wrong.
-/
import CWPack.ObjC.Trails
import CWPack.ObjC.GraphRoundTrip

set_option autoImplicit false

namespace CWPack.ObjC

open CWPack.Foundation
open CWPack.Core
open CWPack.MessagePack
open CWPack.Goodies

variable {σ : Type}

/-! ## What is asked of a run -/

/-- Something has gone wrong. -/
def CWUnpackContext.Failed (ctx : CWUnpackContext σ) : Prop :=
  ctx.context.uc.returnCode ≠ cwpRcOk

/-- The monitor remembers what the last `cw_unpack_next` returned, if there was one.  The item
may be looked at only where this is OK, and only so is it unpacked. -/
def decodedOnly : Monitor (Option Int) (ItemEvent σ) where
  next
    | _, .next returnCode => some returnCode
    | last, _ => last
  allows
    | _, .next _ => True
    | last, .object ctx => last = some cwpRcOk ∧ ¬ ctx.Failed
    | last, .compare => last = some cwpRcOk

/-- A `cw_unpack_next` that did not return OK. -/
def ItemEvent.Fails : ItemEvent σ → Prop
  | .next returnCode => returnCode ≠ cwpRcOk
  | _ => False

/-- Where the item is an array that is not empty, what lies behind its header decodes. -/
def FirstElementDecodes (H : Option (UnpackUnderflowHandler σ)) (ctx : CWUnpackContext σ) : Prop :=
  ctx.context.uc.item.type = .array → Int32.ofNat ctx.context.uc.item.as.front ≠ 0 →
    ∀ s, cwUnpackNext H ctx.context = some s → s.uc.returnCode = cwpRcOk

/-- `FirstElementDecodes` where `cwUnpackObject:` is called. -/
def ItemEvent.Good (H : Option (UnpackUnderflowHandler σ)) : ItemEvent σ → Prop
  | .object ctx => FirstElementDecodes H ctx
  | _ => True

/-- On a static buffer: behind the header is an item, complete and well formed. -/
theorem firstElementDecodes_static_iff {ctx : CWUnpackContext σ} (hok : ¬ ctx.Failed)
    (hle : ctx.context.uc.current ≤ ctx.context.uc.end_) :
    FirstElementDecodes none ctx ↔
      (ctx.context.uc.item.type = .array → Int32.ofNat ctx.context.uc.item.as.front ≠ 0 →
        ∃ r, readItem ctx.context.ahead = .ok r) := by
  obtain ⟨s, hnext, hdel⟩ := cwUnpackNext_static (not_not.mp hok) hle
  have hread : s.uc.returnCode = cwpRcOk ↔ ∃ r, readItem ctx.context.ahead = .ok r := by
    cases hitem : readItem ctx.context.ahead with
    | ok r =>
        rw [hitem] at hdel
        exact iff_of_true hdel.1 ⟨r, rfl⟩
    | error e =>
        rw [hitem] at hdel
        refine iff_of_false (fun hrc => readItem_error hitem ?_) nofun
        exact hdel.returnCode.symm.trans hrc
  have hfirst : (∀ s', cwUnpackNext none ctx.context = some s' → s'.uc.returnCode = cwpRcOk) ↔
      s.uc.returnCode = cwpRcOk := by
    constructor
    · exact fun h => h s hnext
    · intro hrc s' hs'
      obtain rfl := Option.some.inj (hnext.symm.trans hs')
      exact hrc
  exact imp_congr Iff.rfl (imp_congr Iff.rfl (hfirst.trans hread))

/-! ## What a failed context stays -/

section Failed

variable {H : Option (UnpackUnderflowHandler σ)} {ctx ctx' : CWUnpackContext σ}

theorem failed_setReturnCode {e : Int} (he : e ≠ cwpRcOk) : (ctx.setReturnCode e).Failed := he

theorem unpackNext_failed (h : unpackNext H ctx = some ctx') (hfail : ctx.Failed) :
    ctx'.Failed := by
  have hkeep : unpackNext H ctx = some ctx := by
    have hrc : ctx.context.uc.returnCode ≠ 0 := hfail
    rw [unpackNext, cwUnpackNext, if_pos hrc]
  obtain rfl := Option.some.inj (hkeep.symm.trans h)
  exact hfail

theorem addUnpacked_failed {p : ObjectId} {item : Option ObjectId}
    (h : addUnpacked p item ctx = some ctx') (hfail : ctx.Failed) : ctx'.Failed := by
  have hkeep : addUnpacked p item ctx = some ctx := if_neg hfail
  obtain rfl := Option.some.inj (hkeep.symm.trans h)
  exact hfail

theorem registerObject_failed (label : Int) (p : ObjectId) (hfail : ctx.Failed) :
    (registerObject label p ctx).2.Failed := by
  unfold registerObject
  split
  · split
    · exact failed_setReturnCode (by decide)
    · exact hfail
  · exact hfail

theorem createObject_failed (label : Int) (object : Object) (hfail : ctx.Failed) :
    (createObject label object ctx).2.Failed := by
  have hnew : (ctx.new object).2.Failed := hfail
  exact registerObject_failed label _ hnew

theorem create_failed (R : Runtime) (object : Object) (hfail : ctx.Failed) :
    (ctx.create R object).2.Failed := by
  unfold CWUnpackContext.create
  split <;> exact hfail

theorem createValue_failed (R : Runtime) (label : Int) (object : Object) (hfail : ctx.Failed) :
    (createValue R label object ctx).2.Failed :=
  registerObject_failed label _ (create_failed R object hfail)

theorem copyKey_failed {R : Runtime} {key : ObjectId} {r : ObjectId × CWUnpackContext σ}
    (h : copyKey R key ctx = some r) (hfail : ctx.Failed) : r.2.Failed := by
  unfold copyKey at h
  split at h
  case h_1 => exact absurd h.symm (Option.some_ne_none r)
  case h_2 => exact absurd h.symm (Option.some_ne_none r)
  case h_3 => exact absurd h.symm (Option.some_ne_none r)
  case h_8 =>
      obtain rfl := Option.some.inj h
      exact hfail
  all_goals
    obtain rfl := Option.some.inj h
    exact create_failed R _ hfail

theorem setEntry_failed {R : Runtime} {p key value : ObjectId}
    (h : setEntry R p key value ctx = some ctx') (hfail : ctx.Failed) : ctx'.Failed := by
  obtain ⟨r, hcopy, h⟩ := Option.bind_eq_some_iff.mp h
  have hr : r.2.Failed := copyKey_failed hcopy hfail
  obtain rfl := Option.some.inj h
  exact hr

theorem unpackReference_failed (idx : Int) (hfail : ctx.Failed) :
    (unpackReference idx ctx).2.Failed := by
  have hvalue : cwpRcValueError ≠ cwpRcOk := by decide
  unfold unpackReference
  repeat' split
  all_goals first | exact failed_setReturnCode hvalue | exact hfail

theorem getExtInteger_failed (hfail : ctx.Failed) :
    CWUnpackContext.Failed { ctx with context := (getExtInteger ctx.context).2 } := by
  have hkeep : getExtInteger ctx.context = (0, ctx.context) := if_pos hfail
  rw [hkeep]
  exact hfail

/-- Whatever is not a collection is made of the item alone. -/
theorem cwUnpackObject_failed {F : FloatUnit} {R : Runtime} {depth : Nat} {label : Int}
    {r : Option ObjectId × CWUnpackContext σ} (hmap : ctx.context.uc.item.type ≠ .map)
    (harray : ctx.context.uc.item.type ≠ .array)
    (h : cwUnpackObject F H R (depth + 1) label ctx = some r) (hfail : ctx.Failed) :
    r.2.Failed := by
  rw [cwUnpackObject] at h
  split at h
  case h_1 =>
      obtain rfl := Option.some.inj h
      exact registerObject_failed _ _ hfail
  case h_7 =>
      split at h
      · obtain rfl := Option.some.inj h
        exact failed_setReturnCode (by decide)
      · obtain rfl := Option.some.inj h
        exact createValue_failed _ _ _ hfail
  case h_10 htype => exact absurd htype hmap
  case h_11 htype => exact absurd htype harray
  case h_12 =>
      obtain rfl := Option.some.inj h
      exact createObject_failed _ _ hfail
  all_goals
    obtain rfl := Option.some.inj h
    exact createValue_failed _ _ _ hfail

end Failed

/-! ## Honest computations -/

/-- The monitor objects exactly where a first element does not decode, and a failure shows in
what is returned. -/
structure Honest {α : Type} (H : Option (UnpackUnderflowHandler σ)) (last : Option Int)
    (before : Prop) (wrong : α → Prop) (x : Trail (ItemEvent σ) α) : Prop where
  exact : decodedOnly.Exact (ItemEvent.Good H) last x
  sticks : Sticks ItemEvent.Fails before wrong x

section Rules

variable {H : Option (UnpackUnderflowHandler σ)} {α β : Type} {last : Option Int} {before : Prop}
  {wrong : α → Prop} {wrong' : β → Prop} {ctx : CWUnpackContext σ}

theorem Honest.silent {r : Option α} (h : before → ∀ a, r = some a → wrong a) :
    Honest H last before wrong (.silent r : Trail (ItemEvent σ) α) :=
  ⟨.silent r, .silent h⟩

/-- An exception. -/
theorem Honest.none : Honest H last before wrong (.silent none : Trail (ItemEvent σ) α) :=
  .silent fun _ a h => absurd h.symm (Option.some_ne_none a)

theorem Honest.pure {a : α} (h : before → wrong a) :
    Honest H last before wrong (Pure.pure a : Trail (ItemEvent σ) α) :=
  ⟨.pure a, .pure h⟩

theorem Honest.bind {x : Trail (ItemEvent σ) α} {f : α → Trail (ItemEvent σ) β}
    (hx : Honest H last before wrong x)
    (hf : ∀ last a, x.result = some a → Honest H last (wrong a) wrong' (f a)) :
    Honest H last before wrong' (x >>= f) :=
  ⟨hx.exact.bind fun a ha => (hf _ a ha).exact, hx.sticks.bind fun a ha => (hf last a ha).sticks⟩

/-- What follows a `cw_unpack_next`. -/
theorem unpackNext_bind (ctx : CWUnpackContext σ)
    (f : CWUnpackContext σ → Trail (ItemEvent σ) β) :
    (Trailed.unpackNext H ctx >>= f) = ((.silent (unpackNext H ctx) : Trail _ _) >>= fun ctx =>
      .note (.next ctx.context.uc.returnCode) >>= fun _ => f ctx) := by
  unfold Trailed.unpackNext
  cases unpackNext H ctx <;> rfl

theorem sticks_next {f : CWUnpackContext σ → Trail (ItemEvent σ) β}
    (hf : ∀ ctx', unpackNext H ctx = some ctx' →
      Sticks ItemEvent.Fails ctx'.Failed wrong' (f ctx')) :
    Sticks ItemEvent.Fails ctx.Failed wrong' (Trailed.unpackNext H ctx >>= f) := by
  rw [unpackNext_bind]
  have hstep : Sticks ItemEvent.Fails ctx.Failed CWUnpackContext.Failed
      (.silent (unpackNext H ctx) : Trail (ItemEvent σ) _) :=
    .silent fun hfail ctx' hnext => unpackNext_failed hnext hfail
  refine hstep.bind fun ctx' hnext => ?_
  exact Sticks.note_bind ctx'.Failed (fun hfail => hfail.elim id id) (hf ctx' hnext)

theorem Honest.next {f : CWUnpackContext σ → Trail (ItemEvent σ) β}
    (hf : ∀ ctx', unpackNext H ctx = some ctx' →
      Honest H (some ctx'.context.uc.returnCode) ctx'.Failed wrong' (f ctx')) :
    Honest H last ctx.Failed wrong' (Trailed.unpackNext H ctx >>= f) := by
  refine ⟨?_, sticks_next fun ctx' hnext => (hf ctx' hnext).sticks⟩
  rw [unpackNext_bind]
  exact (Monitor.Exact.silent _).bind fun ctx' hnext =>
    .note_bind (iff_of_true trivial trivial) (hf ctx' hnext).exact

end Rules

/-! ## The methods -/

/-- A method that reads before it looks at an item. -/
def HonestMethod {α : Type} (H : Option (UnpackUnderflowHandler σ)) (method : Trailed σ α) : Prop :=
  ∀ last ctx, Honest H last ctx.Failed (fun r => r.2.Failed) (method ctx)

/-- The same for the body of a loop. -/
def HonestBody (H : Option (UnpackUnderflowHandler σ))
    (method : CWUnpackContext σ → Trail (ItemEvent σ) (CWUnpackContext σ)) : Prop :=
  ∀ last ctx, Honest H last ctx.Failed CWUnpackContext.Failed (method ctx)

/-- A method that looks at the item it finds, which must have been decoded. -/
structure HonestOnItem (H : Option (UnpackUnderflowHandler σ))
    (method : Trailed σ (Option ObjectId)) : Prop where
  exact : ∀ ctx, ¬ ctx.Failed → decodedOnly.Exact (ItemEvent.Good H) (some cwpRcOk) (method ctx)
  sticks : ∀ ctx, Sticks ItemEvent.Fails ctx.Failed (fun r => r.2.Failed) (method ctx)

theorem HonestBody.repeatTimes {H : Option (UnpackUnderflowHandler σ)}
    {method : CWUnpackContext σ → Trail (ItemEvent σ) (CWUnpackContext σ)}
    (h : HonestBody H method) (n : Nat) : HonestBody H (Trailed.repeatTimes method n) := by
  induction n with
  | zero => exact fun _ _ => .pure id
  | succ n ih => exact fun last ctx => (h last ctx).bind fun last ctx _ => ih last ctx

/-- The collection that a loop has filled is returned. -/
theorem HonestBody.bind_pure {H : Option (UnpackUnderflowHandler σ)}
    {method : CWUnpackContext σ → Trail (ItemEvent σ) (CWUnpackContext σ)}
    (h : HonestBody H method) {last : Option Int} {before : Prop} {ctx : CWUnpackContext σ}
    {p : Option ObjectId} (hbefore : before → ctx.Failed) :
    Honest H last before (fun r : Option ObjectId × CWUnpackContext σ => r.2.Failed)
      (method ctx >>= fun ctx => pure (p, ctx)) := by
  have hmethod := h last ctx
  refine ⟨hmethod.exact.bind fun _ _ => .pure _, ?_⟩
  have hsticks : Sticks ItemEvent.Fails before CWUnpackContext.Failed (method ctx) :=
    fun hfail => hmethod.sticks (hfail.imp hbefore id)
  exact hsticks.bind fun _ _ => .pure id

section Methods

variable {F : FloatUnit} {H : Option (UnpackUnderflowHandler σ)} {R : Runtime}
  {unpackObject : Int → Trailed σ (Option ObjectId)}

theorem honest_cwUnpackNextUnsigned64 : HonestMethod H (Trailed.cwUnpackNextUnsigned64 H) := by
  intro last ctx
  refine Honest.next fun ctx' _ => ?_
  split
  · exact .pure id
  · rename_i hrc
    have hok : ctx'.context.uc.returnCode = cwpRcOk := not_not.mp hrc
    constructor
    · refine .note_bind (iff_of_true (congrArg some hok) trivial) ?_
      split <;> exact .pure _
    · refine Sticks.note_bind ctx'.Failed ?_ ?_
      · rintro (hfail | hfail)
        · exact hfail
        · exact hfail.elim
      split
      · exact .pure id
      · exact .pure fun _ => failed_setReturnCode (by decide)

variable (hobj : ∀ label, HonestOnItem H (unpackObject label))

include hobj

/-- The helper that checks: an object is unpacked only where the read returned OK. -/
theorem honest_cwUnpackNextObjectSub (label : Int) :
    HonestMethod H (Trailed.cwUnpackNextObjectSub H unpackObject label) := by
  intro last ctx
  refine Honest.next fun ctx' _ => ?_
  split
  · exact .pure id
  · rename_i hrc
    have hok : ctx'.context.uc.returnCode = cwpRcOk := not_not.mp hrc
    rw [hok]
    exact ⟨(hobj label).exact ctx' hrc, (hobj label).sticks ctx'⟩

theorem honest_unpackNextObject : HonestMethod H (Trailed.unpackNextObject H unpackObject) := by
  intro last ctx
  refine (honest_cwUnpackNextObjectSub hobj 0 last ctx).bind fun last r _ => ?_
  obtain ⟨result, ctx⟩ := r
  show Honest H last ctx.Failed _ (if result = some nsNull then _ else _)
  split <;> exact .pure id

theorem honest_unpackElement (p : ObjectId) :
    HonestBody H (Trailed.unpackElement H unpackObject p) := by
  intro last ctx
  refine (honest_cwUnpackNextObjectSub hobj 0 last ctx).bind fun last r _ => ?_
  exact .silent fun hfail ctx' h => addUnpacked_failed h hfail

theorem honest_unpackEntry (p : ObjectId) :
    HonestBody H (Trailed.unpackEntry H R unpackObject p) := by
  intro last ctx
  refine (honest_cwUnpackNextObjectSub hobj 0 last ctx).bind fun last r _ => ?_
  obtain ⟨key, ctx⟩ := r
  refine (honest_cwUnpackNextObjectSub hobj 0 last ctx).bind fun last r _ => ?_
  obtain ⟨val, ctx⟩ := r
  show Honest H last ctx.Failed _ (if ctx.context.uc.returnCode = cwpRcOk then _ else _)
  split
  · cases key with
    | none => exact .none
    | some key =>
        cases val with
        | none => exact .none
        | some val => exact .silent fun hfail ctx' h => setEntry_failed h hfail
  · exact .pure id

theorem honest_unpackMap (label : Int) :
    HonestMethod H (Trailed.unpackMap H R unpackObject label) := by
  intro last ctx
  have hloop := fun p n => (honest_unpackEntry (R := R) hobj p).repeatTimes n
  show Honest H last ctx.Failed _ (Trailed.repeatTimes _ _ (if label ≠ 0 then _ else _) >>= _)
  split
  · exact (hloop _ _).bind_pure id
  · exact (hloop _ _).bind_pure id

theorem honest_unpackMember (p : ObjectId) :
    HonestBody H (Trailed.unpackMember H R unpackObject p) := by
  intro last ctx
  refine (honest_unpackNextObject hobj last ctx).bind fun last r _ => ?_
  obtain ⟨item, ctx⟩ := r
  cases item with
  | none => exact .none
  | some q => exact .pure id

theorem honest_unpackCounted (p : ObjectId) :
    HonestBody H (Trailed.unpackCounted H R unpackObject p) := by
  intro last ctx
  refine (honest_unpackNextObject hobj last ctx).bind fun last r _ => ?_
  obtain ⟨item, ctx⟩ := r
  refine (honest_cwUnpackNextUnsigned64 last ctx).bind fun last r _ => ?_
  obtain ⟨repetitions, ctx⟩ := r
  show Honest H last ctx.Failed _ (if Int64.ofInt repetitions > 0 then _ else _)
  split
  · cases item with
    | none => exact .none
    | some q => exact .pure id
  · exact .pure id

theorem honest_cwUnpackSub (p : ObjectId) (remainingAttributes : Int32)
    (objClass : Option RegisteredClass) :
    HonestBody H (Trailed.cwUnpackSub H R unpackObject p remainingAttributes objClass) := by
  match objClass with
  | none => exact (honest_unpackElement hobj p).repeatTimes _
  | some .nsSet => exact (honest_unpackMember hobj p).repeatTimes _
  | some .nsCountedSet => exact (honest_unpackCounted hobj p).repeatTimes _
  | some .notUnpackable => exact fun _ _ => .none

theorem honest_unpackUserObject (idx : Int) (dim : Int32) :
    HonestMethod H (Trailed.unpackUserObject H R unpackObject idx dim) := by
  intro last ctx
  refine (honest_cwUnpackNextObjectSub hobj 0 last ctx).bind fun last r _ => ?_
  obtain ⟨name, ctx⟩ := r
  have hname : Honest H last ctx.Failed (fun _ => ctx.Failed)
      (.silent (classNameOf ctx.heap name) : Trail (ItemEvent σ) _) := .silent fun hfail _ _ => hfail
  refine hname.bind fun last objClassName _ => ?_
  have hsub := fun p objClass => honest_cwUnpackSub (R := R) hobj p (dim - 2) objClass
  show Honest H last ctx.Failed _ (if idx = ctx.userReferences.length then _ else _)
  split
  · exact (hsub _ _).bind_pure id
  · show Honest H last ctx.Failed _ (if idx ≠ 0 then _ else _)
    split
    · exact .pure fun _ => failed_setReturnCode (by decide)
    · exact (hsub _ _).bind_pure id

/-- The rest of a standard array reads before it looks. -/
theorem honest_unpackRest (p : ObjectId) (n : Nat) (item : Option ObjectId) :
    HonestMethod H fun ctx => (do
      let ctx ← .silent (addUnpacked p item ctx)
      let ctx ← Trailed.repeatTimes (Trailed.unpackElement H unpackObject p) n ctx
      pure (some p, ctx)) := by
  intro last ctx
  have hadd : Honest H last ctx.Failed CWUnpackContext.Failed
      (.silent (addUnpacked p item ctx) : Trail (ItemEvent σ) _) :=
    .silent fun hfail _ h => addUnpacked_failed h hfail
  exact hadd.bind fun _ _ _ => ((honest_unpackElement hobj p).repeatTimes n).bind_pure id

theorem honest_unpackArray (label : Int) (dim : Int32) :
    HonestOnItem H (Trailed.unpackArray H unpackObject label dim) := by
  have hrest := fun p item last ctx =>
    honest_unpackRest hobj p (dim.toNatClampNeg - 1) item last ctx
  constructor
  · intro ctx hok
    show decodedOnly.Exact _ _ (unpackObject 0 (if label ≠ 0 then _ else _) >>= _)
    refine Monitor.Exact.bind ((hobj 0).exact _ ?_) fun r _ => (hrest _ r.1 _ r.2).exact
    split <;> exact hok
  · intro ctx
    have hsticks : ∀ ctx' : CWUnpackContext σ, (ctx.Failed → ctx'.Failed) →
        Sticks ItemEvent.Fails ctx.Failed (fun r => r.2.Failed) (unpackObject 0 ctx') :=
      fun ctx' hctx hfail => (hobj 0).sticks ctx' (hfail.imp hctx id)
    show Sticks _ _ _ (unpackObject 0 (if label ≠ 0 then _ else _) >>= _)
    refine Sticks.bind (hsticks _ ?_) fun r _ => (hrest _ r.1 none r.2).sticks
    split <;> exact id

/-- What is made of a first element, which must have been decoded. -/
theorem honest_unpackFirst (label : Int) (dim : Int32) :
    HonestOnItem H (Trailed.unpackFirst H R unpackObject label dim) := by
  have harray := honest_unpackArray hobj label dim
  constructor
  · intro ctx hok
    unfold Trailed.unpackFirst
    split
    · show decodedOnly.Exact _ _ (if dim = 1 then _ else _)
      split
      · exact .pure _
      show decodedOnly.Exact _ _ (if (getExtInteger ctx.context).1 < 0 then _ else _)
      split
      · split
        · exact .pure _
        · exact (honest_cwUnpackNextObjectSub hobj _ _ _).exact
      · exact (honest_unpackUserObject hobj _ _ _ _).exact
    · exact harray.exact ctx hok
  · intro ctx
    unfold Trailed.unpackFirst
    split
    · have hctx : ctx.Failed → _ := getExtInteger_failed
      show Sticks _ _ _ (if dim = 1 then _ else _)
      split
      · exact .pure fun hfail => unpackReference_failed _ (hctx hfail)
      show Sticks _ _ _ (if (getExtInteger ctx.context).1 < 0 then _ else _)
      split
      · split
        · exact .pure fun _ => failed_setReturnCode (by decide)
        · exact fun hfail => (honest_cwUnpackNextObjectSub hobj _ none _).sticks (hfail.imp hctx id)
      · exact fun hfail => (honest_unpackUserObject hobj _ _ none _).sticks (hfail.imp hctx id)
    · exact harray.sticks ctx

/-- The one read that is not looked at: the monitor objects to what follows it exactly where it
failed. -/
theorem unpackArrayItem_exact (label : Int) {ctx : CWUnpackContext σ} (hok : ¬ ctx.Failed)
    (htype : ctx.context.uc.item.type = .array)
    (hdim : Int32.ofNat ctx.context.uc.item.as.front ≠ 0) :
    decodedOnly.Exact (ItemEvent.Good H) (some cwpRcOk)
      (.note (.object ctx) >>= fun _ => Trailed.unpackArrayItem H R unpackObject label
        (.ofNat ctx.context.uc.item.as.front) ctx) := by
  have hallows : decodedOnly.allows (some cwpRcOk) (.object ctx) := ⟨rfl, hok⟩
  rw [Trailed.unpackArrayItem, unpackNext_bind]
  cases hnext : cwUnpackNext H ctx.context with
  | none =>
      have hgood : FirstElementDecodes H ctx := fun _ _ s hs => by simp [hnext] at hs
      refine .note_bind (iff_of_true hallows hgood) ?_
      rw [unpackNext, hnext]
      exact .silent none
  | some s =>
      have hstep : unpackNext H ctx = some { ctx with context := s } := by rw [unpackNext, hnext]
      rw [hstep]
      by_cases hrc : s.uc.returnCode = cwpRcOk
      · have hgood : FirstElementDecodes H ctx := fun _ _ s' hs => by
          obtain rfl := Option.some.inj (hnext.symm.trans hs)
          exact hrc
        refine .note_bind (iff_of_true hallows hgood) ?_
        refine (Monitor.Exact.silent _).bind fun ctx' hctx' => ?_
        obtain rfl := Option.some.inj hctx'
        refine .note_bind (iff_of_true trivial trivial) ?_
        refine .note_bind (iff_of_true (congrArg some hrc) trivial) ?_
        have hfirst := (honest_unpackFirst (R := R) hobj label (.ofNat ctx.context.uc.item.as.front)).exact
          { ctx with context := s } (not_not_intro hrc)
        rw [← hrc] at hfirst
        exact hfirst
      · have hbad : ¬ FirstElementDecodes H ctx := fun hgood => hrc (hgood htype hdim s hnext)
        refine iff_of_false ?_ fun hall => hbad (hall _ List.mem_cons_self)
        rintro ⟨-, -, hcompare, -⟩
        exact hrc (Option.some.inj hcompare)

theorem unpackArrayItem_sticks (label : Int) (dim : Int32) (ctx : CWUnpackContext σ) :
    Sticks ItemEvent.Fails ctx.Failed (fun r => r.2.Failed)
      (Trailed.unpackArrayItem H R unpackObject label dim ctx) := by
  refine sticks_next fun ctx' _ => ?_
  refine Sticks.note_bind ctx'.Failed (fun hfail => hfail.elim id False.elim) ?_
  exact (honest_unpackFirst hobj label dim).sticks ctx'

omit hobj

theorem honest_cwUnpackObject (depth : Nat) (label : Int) :
    HonestOnItem H (Trailed.cwUnpackObject F H R depth label) := by
  induction depth generalizing label with
  | zero => exact ⟨fun _ _ => .silent none, fun _ => .silent fun _ r h => absurd h.symm (Option.some_ne_none r)⟩
  | succ depth ih =>
      have hmap := honest_unpackMap (R := R) ih label
      constructor
      · intro ctx hok
        have hallows : decodedOnly.allows (some cwpRcOk) (.object ctx) := ⟨rfl, hok⟩
        have hother : ctx.context.uc.item.type ≠ .array → FirstElementDecodes H ctx :=
          fun hne htype => absurd htype hne
        rw [Trailed.cwUnpackObject]
        cases htype : ctx.context.uc.item.type
        case map =>
            refine .note_bind (iff_of_true hallows (hother (by simp [htype]))) ?_
            exact (hmap _ ctx).exact
        case array =>
            by_cases hdim : Int32.ofNat ctx.context.uc.item.as.front = 0
            · refine .note_bind (iff_of_true hallows fun _ hne => absurd hdim hne) ?_
              simp only [if_pos hdim]
              exact .pure _
            · simp only [if_neg hdim]
              exact unpackArrayItem_exact ih label hok htype hdim
        all_goals
          refine .note_bind (iff_of_true hallows (hother (by simp [htype]))) ?_
          exact .silent _
      · intro ctx
        rw [Trailed.cwUnpackObject]
        refine Sticks.note_bind ctx.Failed (fun hfail => hfail.elim id False.elim) ?_
        cases htype : ctx.context.uc.item.type
        case map => exact (hmap none ctx).sticks
        case array =>
            show Sticks _ _ _ (if Int32.ofNat ctx.context.uc.item.as.front = 0 then _ else _)
            split
            · exact .pure fun hfail => createObject_failed _ _ hfail
            · exact unpackArrayItem_sticks ih label _ ctx
        all_goals
          exact .silent fun hfail r hr =>
            cwUnpackObject_failed (by simp [htype]) (by simp [htype]) hr hfail

end Methods

/-! ## The claim -/

/-- What the methods do in a call of `unpackNextObject`. -/
def unpackingTrail (F : FloatUnit) (H : Option (UnpackUnderflowHandler σ)) (R : Runtime)
    (depth : Nat) (ctx : CWUnpackContext σ) : List (ItemEvent σ) :=
  (Trailed.unpackNextObject H (Trailed.cwUnpackObject F H R depth) ctx).events

/-- Nothing is built from an item that failed to decode: whoever looks at an item has a read
before him that returned OK, and where a read fails the return code at the end says so. -/
def BuildsFromDecoded (F : FloatUnit) (H : Option (UnpackUnderflowHandler σ)) (R : Runtime)
    (depth : Nat) (ctx : CWUnpackContext σ) : Prop :=
  decodedOnly.Accepts none (unpackingTrail F H R depth ctx) ∧
    ((∃ e ∈ unpackingTrail F H R depth ctx, e.Fails) →
      ∀ r, unpackNextObject H (cwUnpackObject F H R depth) ctx = some r → r.2.Failed)

/-- An object is built from decoded items only exactly where, for every array on the way that is
not empty, what lies behind its header decodes. -/
theorem unpackNextObject_builds_from_decoded_iff (F : FloatUnit)
    (H : Option (UnpackUnderflowHandler σ)) (R : Runtime) (depth : Nat) (ctx : CWUnpackContext σ) :
    BuildsFromDecoded F H R depth ctx ↔
      ∀ call, ItemEvent.object call ∈ unpackingTrail F H R depth ctx →
        FirstElementDecodes H call := by
  have hobj := honest_cwUnpackObject (F := F) (H := H) (R := R) depth
  have hhonest := honest_unpackNextObject hobj none ctx
  have herases := Trailed.unpackNextObject_erases (H := H)
    (Trailed.cwUnpackObject_erases (F := F) (H := H) (R := R) depth) ctx
  have hgood : (∀ e ∈ unpackingTrail F H R depth ctx, e.Good H) ↔
      ∀ call, ItemEvent.object call ∈ unpackingTrail F H R depth ctx →
        FirstElementDecodes H call := by
    constructor
    · exact fun h call hcall => h _ hcall
    · intro h e he
      cases e with
      | object call => exact h call he
      | next returnCode => trivial
      | compare => trivial
  refine Iff.trans (and_iff_left fun hfails r hr => ?_) (hhonest.exact.trans hgood)
  rw [← herases] at hr
  exact hhonest.sticks (.inr hfails) r hr

/-- An array of one element that is not there. -/
def cutOffArray : CWUnpackContext Unit := .initWithContext (staticContext [0x91])

/-- An array is returned, and for its element an object is made of what the header left behind. -/
theorem cut_off_array_not_built_from_decoded :
    ¬ BuildsFromDecoded FloatUnit.native none plainRuntime 2 cutOffArray ∧
      ∃ u data, unpackNextObject none (cwUnpackObject FloatUnit.native none plainRuntime 2)
          cutOffArray = some (some 1, u) ∧
        u.heap = [.null, .array [], .externalItem 999 data] := by
  constructor
  · rintro ⟨⟨-, -, -, hcompare, -⟩, -⟩
    have hlast : some cwpRcEndOfInput = some cwpRcOk := hcompare
    exact absurd hlast (by decide)
  · exact ⟨_, _, rfl, rfl⟩

end CWPack.ObjC
