/-
  ObjC/Trails.lean --- unpacking, with what it does to the item on the way.

  The methods of `ObjC/UnpackContext` are repeated with a trail: each
  `cw_unpack_next` leaves its return code, and so does each place that looks at the
  item of the context.  There are three such places: the `switch` of
  `cwUnpackObject:`, the comparison with `CWP_ITEM_OBJECT_MARKER` behind an array
  header, and the count of a counted set.

  `Trailed.unpackNextObject_result` is the erasure: without its trail a method is
  the one it repeats.
-/
import CWPack.Foundation.Trail
import CWPack.ObjC.UnpackContext

set_option autoImplicit false

namespace CWPack.ObjC

open CWPack.Foundation
open CWPack.Core
open CWPack.Goodies

variable {σ : Type}

/-- What happens to the item of a context. -/
inductive ItemEvent (σ : Type) where
  /-- `cw_unpack_next` has returned, with this code -/
  | next (returnCode : Int)
  /-- `cwUnpackObject:` switches on the type of the item, and uses the union -/
  | object (ctx : CWUnpackContext σ)
  /-- the type is compared, and the union is used where it is the one expected -/
  | compare

/-- A method with a trail. -/
abbrev Trailed (σ α : Type) : Type :=
  CWUnpackContext σ → Trail (ItemEvent σ) (α × CWUnpackContext σ)

namespace Trailed

/-- A method called `n` times. -/
def repeatTimes (method : CWUnpackContext σ → Trail (ItemEvent σ) (CWUnpackContext σ)) :
    Nat → CWUnpackContext σ → Trail (ItemEvent σ) (CWUnpackContext σ)
  | 0, ctx => pure ctx
  | n + 1, ctx => do
      let ctx ← method ctx
      repeatTimes method n ctx

section Methods

variable (H : Option (UnpackUnderflowHandler σ)) (R : Runtime)
  (unpackObject : Int → Trailed σ (Option ObjectId))

/-- `cw_unpack_next(_context)` -/
def unpackNext (ctx : CWUnpackContext σ) : Trail (ItemEvent σ) (CWUnpackContext σ) := do
  let ctx ← .silent (ObjC.unpackNext H ctx)
  .note (.next ctx.context.uc.returnCode)
  pure ctx

/-- `cw_unpack_next_unsigned64(ctx.context)` -/
def cwUnpackNextUnsigned64 : Trailed σ Int := fun ctx => do
  let ctx ← unpackNext H ctx
  if ctx.context.uc.returnCode ≠ 0 then pure (0, ctx)
  else do
    .note .compare
    if ctx.context.uc.item.type = .positiveInteger then pure (ctx.context.uc.item.as.front, ctx)
    else pure (0, ctx.setReturnCode cwpRcTypeError)

/-- `cwUnpackNextObjectSub:` -/
def cwUnpackNextObjectSub (label : Int) : Trailed σ (Option ObjectId) := fun ctx => do
  let ctx ← unpackNext H ctx
  if ctx.context.uc.returnCode ≠ 0 then pure (none, ctx) else unpackObject label ctx

/-- `unpackNextObject` -/
def unpackNextObject : Trailed σ (Option ObjectId) := fun ctx => do
  let (result, ctx) ← cwUnpackNextObjectSub H unpackObject 0 ctx
  if result = some nsNull then pure (none, ctx) else pure (result, ctx)

/-- The body of the loops that fill arrays. -/
def unpackElement (p : ObjectId) (ctx : CWUnpackContext σ) :
    Trail (ItemEvent σ) (CWUnpackContext σ) := do
  let (item, ctx) ← cwUnpackNextObjectSub H unpackObject 0 ctx
  .silent (addUnpacked p item ctx)

/-- The body of the loop that fills a dictionary. -/
def unpackEntry (p : ObjectId) (ctx : CWUnpackContext σ) :
    Trail (ItemEvent σ) (CWUnpackContext σ) := do
  let (key, ctx) ← cwUnpackNextObjectSub H unpackObject 0 ctx
  let (val, ctx) ← cwUnpackNextObjectSub H unpackObject 0 ctx
  if ctx.context.uc.returnCode = cwpRcOk then
    match key, val with
    | some key, some val => .silent (setEntry R p key val ctx)
    | _, _ => .silent none
  else pure ctx

/-- `case CWP_ITEM_MAP` -/
def unpackMap (label : Int) : Trailed σ (Option ObjectId) := fun ctx => do
  let dim := Int32.ofNat ctx.context.uc.item.as.front
  let (dict, ctx) := ctx.new (.dictionary [])
  let ctx := if label ≠ 0 then ctx.addPackerReference dict else ctx
  let ctx ← repeatTimes (unpackEntry H R unpackObject dict) dim.toNatClampNeg ctx
  pure (some dict, ctx)

/-- A standard array, whose first element has been read. -/
def unpackArray (label : Int) (dim : Int32) : Trailed σ (Option ObjectId) := fun ctx => do
  let (arr, ctx) := ctx.new (.array [])
  let ctx := if label ≠ 0 then ctx.addPackerReference arr else ctx
  let (item, ctx) ← unpackObject 0 ctx
  let ctx ← .silent (addUnpacked arr item ctx)
  let ctx ← repeatTimes (unpackElement H unpackObject arr) (dim.toNatClampNeg - 1) ctx
  pure (some arr, ctx)

/-- `[self addObject:[ctx unpackNextObject]]` of a mutable set -/
def unpackMember (p : ObjectId) (ctx : CWUnpackContext σ) :
    Trail (ItemEvent σ) (CWUnpackContext σ) := do
  let (item, ctx) ← unpackNextObject H unpackObject ctx
  match item with
  | some q => pure (ctx.update p (Object.addMember (R.isEqual ctx.heap) q))
  | none => .silent none

/-- The body of the loop of a counted set. -/
def unpackCounted (p : ObjectId) (ctx : CWUnpackContext σ) :
    Trail (ItemEvent σ) (CWUnpackContext σ) := do
  let (item, ctx) ← unpackNextObject H unpackObject ctx
  let (repetitions, ctx) ← cwUnpackNextUnsigned64 H ctx
  let repetitions := Int64.ofInt repetitions
  if repetitions > 0 then
    match item with
    | some q =>
        pure (ctx.update p
          (Object.addCounted (R.isEqual ctx.heap) q repetitions.toNatClampNeg))
    | none => .silent none
  else pure ctx

/-- `cwUnpackSub:remainingAttributes:` -/
def cwUnpackSub (p : ObjectId) (remainingAttributes : Int32) :
    Option RegisteredClass → CWUnpackContext σ → Trail (ItemEvent σ) (CWUnpackContext σ)
  | none => repeatTimes (unpackElement H unpackObject p) remainingAttributes.toNatClampNeg
  | some .nsSet => repeatTimes (unpackMember H R unpackObject p) remainingAttributes.toNatClampNeg
  | some .nsCountedSet =>
      repeatTimes (unpackCounted H R unpackObject p) (remainingAttributes / 2).toNatClampNeg
  | some .notUnpackable => fun _ => .silent none

/-- A user object, with the label `idx` or without a label. -/
def unpackUserObject (idx : Int) (dim : Int32) : Trailed σ (Option ObjectId) := fun ctx => do
  let (name, ctx) ← cwUnpackNextObjectSub H unpackObject 0 ctx
  let objClassName ← .silent (classNameOf ctx.heap name)
  let objClass := objClassName.bind R.classFromString
  let (object, ctx) := ctx.new (cwUnpackSubInit objClassName objClass)
  if idx = ctx.userReferences.length then do
    let ctx ← cwUnpackSub H R unpackObject object (dim - 2) objClass (ctx.addUserReference object)
    pure (some object, ctx)
  else if idx ≠ 0 then pure (none, ctx.setReturnCode cwpRcValueError)
  else do
    let ctx ← cwUnpackSub H R unpackObject object (dim - 2) objClass ctx
    pure (some object, ctx)

/-- What follows the comparison with the object marker. -/
def unpackFirst (label : Int) (dim : Int32) : Trailed σ (Option ObjectId) := fun ctx =>
  if ctx.context.uc.item.type = .ext cwpItemObjectMarker then
    let (idx, context) := getExtInteger ctx.context
    let ctx := { ctx with context := context }
    if dim = 1 then pure (unpackReference idx ctx)
    else if idx < 0 then -- we had a labeled MessagePack object
      if dim ≠ 2 then pure (none, ctx.setReturnCode cwpRcValueError)
      else cwUnpackNextObjectSub H unpackObject idx ctx
    else unpackUserObject H R unpackObject idx dim ctx
  else unpackArray H unpackObject label dim ctx

/-- `case CWP_ITEM_ARRAY`, where the array is not empty. -/
def unpackArrayItem (label : Int) (dim : Int32) : Trailed σ (Option ObjectId) := fun ctx => do
  let ctx ← unpackNext H ctx
  .note .compare
  unpackFirst H R unpackObject label dim ctx

end Methods

/-- `cwUnpackObject:`; only the collections read on. -/
def cwUnpackObject (F : FloatUnit) (H : Option (UnpackUnderflowHandler σ)) (R : Runtime) :
    Nat → Int → Trailed σ (Option ObjectId)
  | 0, _, _ => .silent none
  | depth + 1, label, ctx => do
      .note (.object ctx)
      let unpackObject := cwUnpackObject F H R depth
      match ctx.context.uc.item.type with
      | .map => unpackMap H R unpackObject label ctx
      | .array =>
          let dim := Int32.ofNat ctx.context.uc.item.as.front
          if dim = 0 then pure (createObject label (.array []) ctx)
          else unpackArrayItem H R unpackObject label dim ctx
      | _ => .silent (ObjC.cwUnpackObject F H R (depth + 1) label ctx)

/-! ## Erasure -/

/-- Without its trail the first method is the second. -/
def Erases {α β : Type} (traced : α → Trail (ItemEvent σ) β) (method : α → Option β) : Prop :=
  ∀ a, (traced a).result = method a

theorem Erases.bind {α β γ : Type} {traced : α → Trail (ItemEvent σ) β} {method : α → Option β}
    {next : β → Trail (ItemEvent σ) γ} {next' : β → Option γ} (h : Erases traced method)
    (hnext : Erases next next') (a : α) :
    (traced a >>= next).result = (method a).bind next' := by
  rw [Trail.result_bind, h a]
  exact Option.bind_congr fun b _ => hnext b

/-- A step without an event is the same in both. -/
theorem erases_silent_bind {β γ : Type} (r : Option β) {next : β → Trail (ItemEvent σ) γ}
    {next' : β → Option γ} (hnext : Erases next next') :
    ((.silent r : Trail (ItemEvent σ) β) >>= next).result = r.bind next' := by
  rw [Trail.result_bind, Trail.result_silent]
  exact Option.bind_congr fun b _ => hnext b

theorem Erases.repeatTimes {traced : CWUnpackContext σ → Trail (ItemEvent σ) (CWUnpackContext σ)}
    {method : CWUnpackContext σ → Option (CWUnpackContext σ)} (h : Erases traced method) (n : Nat) :
    Erases (Trailed.repeatTimes traced n) (ObjC.repeatTimes method n) := by
  induction n with
  | zero => exact fun _ => rfl
  | succ n ih => exact fun ctx => h.bind ih ctx

section Erasure

variable {F : FloatUnit} {H : Option (UnpackUnderflowHandler σ)} {R : Runtime}
  {unpackObject : Int → Trailed σ (Option ObjectId)}
  {method : Int → Unpacking σ (Option ObjectId)}

theorem unpackNext_erases : Erases (unpackNext H) (ObjC.unpackNext H) := by
  intro ctx
  rw [unpackNext, Trail.result_bind, Trail.result_silent]
  cases ObjC.unpackNext H ctx <;> rfl

theorem cwUnpackNextUnsigned64_erases :
    Erases (cwUnpackNextUnsigned64 H) fun ctx =>
      (Goodies.cwUnpackNextUnsigned64 H ctx.context).map fun r =>
        (r.1, { ctx with context := r.2 }) := by
  intro ctx
  rw [cwUnpackNextUnsigned64, Trail.result_bind, unpackNext_erases, ObjC.unpackNext]
  simp only [Goodies.cwUnpackNextUnsigned64, expectNext]
  cases cwUnpackNext H ctx.context with
  | none => rfl
  | some s =>
      simp only [Option.bind_some]
      split
      · rfl
      · rw [Trail.result_bind, Trail.result_note, Option.bind_some]
        split <;> rfl

variable (hobj : ∀ label, Erases (unpackObject label) (method label))

include hobj

theorem cwUnpackNextObjectSub_erases (label : Int) :
    Erases (cwUnpackNextObjectSub H unpackObject label)
      (ObjC.cwUnpackNextObjectSub H method label) := by
  refine unpackNext_erases.bind fun ctx => ?_
  split
  · rfl
  · exact hobj label ctx

theorem unpackNextObject_erases :
    Erases (unpackNextObject H unpackObject) (ObjC.unpackNextObject H method) := by
  refine (cwUnpackNextObjectSub_erases hobj 0).bind fun r => ?_
  obtain ⟨result, ctx⟩ := r
  show (if result = some nsNull then _ else _ : Trail _ _).result = if result = some nsNull then _ else _
  split <;> rfl

theorem unpackElement_erases (p : ObjectId) :
    Erases (unpackElement H unpackObject p) (ObjC.unpackElement H method p) :=
  (cwUnpackNextObjectSub_erases hobj 0).bind fun _ => rfl

theorem unpackEntry_erases (p : ObjectId) :
    Erases (unpackEntry H R unpackObject p) (ObjC.unpackEntry H R method p) := by
  refine (cwUnpackNextObjectSub_erases hobj 0).bind fun r => ?_
  obtain ⟨key, ctx⟩ := r
  refine (cwUnpackNextObjectSub_erases hobj 0).bind (fun r' => ?_) ctx
  obtain ⟨val, ctx⟩ := r'
  show (if ctx.context.uc.returnCode = cwpRcOk then _ else _ : Trail _ _).result =
    if ctx.context.uc.returnCode = cwpRcOk then _ else _
  split
  · cases key <;> cases val <;> rfl
  · rfl

theorem unpackMap_erases (label : Int) :
    Erases (unpackMap H R unpackObject label) (ObjC.unpackMap H R method label) := by
  intro ctx
  exact ((unpackEntry_erases hobj _).repeatTimes _).bind (fun _ => rfl) _

theorem unpackArray_erases (label : Int) (dim : Int32) :
    Erases (unpackArray H unpackObject label dim) (ObjC.unpackArray H method label dim) := by
  intro ctx
  refine (hobj 0).bind (fun r => ?_) _
  exact erases_silent_bind _ fun ctx =>
    ((unpackElement_erases hobj _).repeatTimes _).bind (fun _ => rfl) ctx

theorem unpackMember_erases (p : ObjectId) :
    Erases (unpackMember H R unpackObject p) (ObjC.unpackMember H R method p) := by
  refine (unpackNextObject_erases hobj).bind fun r => ?_
  obtain ⟨_ | q, ctx⟩ := r <;> rfl

theorem unpackCounted_erases (p : ObjectId) :
    Erases (unpackCounted H R unpackObject p) (ObjC.unpackCounted H R method p) := by
  refine (unpackNextObject_erases hobj).bind fun r => ?_
  obtain ⟨item, ctx⟩ := r
  show (cwUnpackNextUnsigned64 H ctx >>= _).result =
    (Goodies.cwUnpackNextUnsigned64 H ctx.context).bind _
  rw [Trail.result_bind, cwUnpackNextUnsigned64_erases, Option.bind_map]
  refine Option.bind_congr fun r _ => ?_
  obtain ⟨repetitions, context⟩ := r
  show (if Int64.ofInt repetitions > 0 then _ else _ : Trail _ _).result =
    if Int64.ofInt repetitions > 0 then _ else _
  split
  · cases item <;> rfl
  · rfl

theorem cwUnpackSub_erases (p : ObjectId) (remainingAttributes : Int32)
    (objClass : Option RegisteredClass) :
    Erases (cwUnpackSub H R unpackObject p remainingAttributes objClass)
      (ObjC.cwUnpackSub H R method p remainingAttributes objClass) := by
  match objClass with
  | none => exact (unpackElement_erases hobj p).repeatTimes _
  | some .nsSet => exact (unpackMember_erases hobj p).repeatTimes _
  | some .nsCountedSet => exact (unpackCounted_erases hobj p).repeatTimes _
  | some .notUnpackable => exact fun _ => rfl

theorem unpackUserObject_erases (idx : Int) (dim : Int32) :
    Erases (unpackUserObject H R unpackObject idx dim)
      (ObjC.unpackUserObject H R method idx dim) := by
  refine (cwUnpackNextObjectSub_erases hobj 0).bind fun r => ?_
  refine erases_silent_bind _ fun objClassName => ?_
  have hsub := fun p objClass => cwUnpackSub_erases (H := H) (R := R) hobj p (dim - 2) objClass
  show (if idx = r.2.userReferences.length then _ else _ : Trail _ _).result =
    if idx = r.2.userReferences.length then _ else _
  split
  · exact (hsub _ _).bind (fun _ => rfl) _
  · show (if idx ≠ 0 then _ else _ : Trail _ _).result = if idx ≠ 0 then _ else _
    split
    · rfl
    · exact (hsub _ _).bind (fun _ => rfl) _

theorem unpackArrayItem_erases (label : Int) (dim : Int32) :
    Erases (unpackArrayItem H R unpackObject label dim)
      (ObjC.unpackArrayItem H R method label dim) := by
  refine unpackNext_erases.bind fun ctx => ?_
  rw [Trail.result_bind, Trail.result_note, Option.bind_some, unpackFirst]
  split
  · show (if dim = 1 then _ else _ : Trail _ _).result = if dim = 1 then _ else _
    split
    · rfl
    show (if (getExtInteger ctx.context).1 < 0 then _ else _ : Trail _ _).result =
      if (getExtInteger ctx.context).1 < 0 then _ else _
    split
    · split
      · rfl
      · exact cwUnpackNextObjectSub_erases hobj _ _
    · exact unpackUserObject_erases hobj _ _ _
  · exact unpackArray_erases hobj _ _ _

omit hobj

theorem cwUnpackObject_erases (depth : Nat) (label : Int) :
    Erases (cwUnpackObject F H R depth label) (ObjC.cwUnpackObject F H R depth label) := by
  induction depth generalizing label with
  | zero => exact fun _ => rfl
  | succ depth ih =>
      intro ctx
      rw [cwUnpackObject, Trail.result_bind, Trail.result_note, Option.bind_some]
      cases htype : ctx.context.uc.item.type
      case map =>
          rw [ObjC.cwUnpackObject, htype]
          exact unpackMap_erases ih label ctx
      case array =>
          rw [ObjC.cwUnpackObject, htype]
          show (if Int32.ofNat ctx.context.uc.item.as.front = 0 then _ else _ : Trail _ _).result =
            if Int32.ofNat ctx.context.uc.item.as.front = 0 then _ else _
          split
          · rfl
          · exact unpackArrayItem_erases ih label _ ctx
      all_goals rfl

end Erasure

end Trailed

end CWPack.ObjC
