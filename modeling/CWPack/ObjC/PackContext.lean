/-
  ObjC/PackContext.lean --- `CWPackContext` of `src/goodies/objC/CWPackContext.m`.

  `packObject:` and the methods of the packable classes call each other.  Here a
  method takes `packObject:` as a parameter, and `packObject` itself is given the
  depth to which it may call itself.  Where an object raises an exception, or the
  depth does not suffice, nothing is returned.

  The methods only call functions on the C context and never look at it.  What the
  functions do is a parameter `perform`: with `PackingCall.perform H` they are the C
  functions, with `record` the calls are put down in a list.
-/
import CWPack.Goodies.PackingCalls
import CWPack.Goodies.Utils
import CWPack.ObjC.Objects

set_option autoImplicit false

namespace CWPack.ObjC

open CWPack.Core
open CWPack.Goodies

variable {S : Type}

/-- `CWP_ITEM_OBJECT_MARKER` -/
def cwpItemObjectMarker : Int8 := 127

/-- A `CWPackContext`.  The label of an object that has none is 0. -/
structure CWPackContext (S : Type) where
  context : S
  useLabels : Bool
  labelMap : ObjectId → Int64
  userLabelGenerator : Int64
  packerLabelGenerator : Int64

/-- What a method does to the context. -/
abbrev Packing (S : Type) : Type := CWPackContext S → Option (CWPackContext S)

/-- `initWithContext:` -/
def CWPackContext.initWithContext (context : S) : CWPackContext S :=
  ⟨context, false, fun _ => 0, 0, 0⟩

/-- `labelForObject:` -/
def CWPackContext.labelForObject (ctx : CWPackContext S) (object : ObjectId) : Int64 :=
  ctx.labelMap object

/-- `assignLabelForObject:isMsgpackObject:` -/
def CWPackContext.assignLabelForObject (ctx : CWPackContext S) (object : ObjectId)
    (isMsgpackObject : Bool) : Int64 × CWPackContext S :=
  if isMsgpackObject then
    let label := ctx.packerLabelGenerator - 1
    (label, { ctx with
      packerLabelGenerator := label
      labelMap := Function.update ctx.labelMap object label })
  else
    let label := ctx.userLabelGenerator + 1
    (label, { ctx with
      userLabelGenerator := label
      labelMap := Function.update ctx.labelMap object label })

/-- A call of a C function on the pack context. -/
def onContext (perform : PackingCall → S → Option S) (c : PackingCall) : Packing S := fun ctx =>
  match perform c ctx.context with
  | none => none
  | some context => some { ctx with context := context }

/-- Put a call down. -/
def record (c : PackingCall) (calls : List PackingCall) : Option (List PackingCall) :=
  some (calls ++ [c])

/-- The call that `cw_pack_time_interval` makes. -/
def timeIntervalCall (F : FloatUnit) (ti : UInt64) : PackingCall :=
  let sec := F.int64OfDouble (F.floor ti)
  let nsec := F.uint32OfDouble (F.mul (F.sub ti (F.doubleOfInt64 sec)) doubleBillion)
  .call (.time sec nsec)

example {σ : Type} (F : FloatUnit) (H : PackHandlers σ) (ti : UInt64) :
    (timeIntervalCall F ti).perform H = cwPackTimeInterval F H ti := rfl

/-- One method call for each element of a collection. -/
def forEach {α : Type} (method : α → Packing S) : List α → Packing S
  | [], ctx => some ctx
  | a :: as, ctx => do
      let ctx ← method a ctx
      forEach method as ctx

section Methods

variable (F : FloatUnit) (perform : PackingCall → S → Option S) (packObject : ObjectId → Packing S)

/-- `cwPackPackerTo:` of `NSNumber` -/
def cwPackNumber : Number → Packing S
  | .integer _ longLongValue => onContext perform (.call (.signed longLongValue))
  | .float _ floatValue => onContext perform (.call (.float floatValue))
  | .double _ doubleValue => onContext perform (.call (.double doubleValue))
  | .char theValue => fun ctx => do
      let ctx ← (if theValue = 0 then onContext perform (.call (.boolean false)) ctx else some ctx)
      -- there is no `else` behind the first test
      if theValue = 1 then onContext perform (.call (.boolean true)) ctx
      else onContext perform (.call (.signed theValue.toInt64)) ctx

/-- `cwPackPackerTo:` -/
def cwPackPackerTo : Object → Packing S
  | .null => onContext perform (.call .nil)
  | .string characters => onContext perform (.call (.str (cstr characters)))
  | .data bytes => onContext perform (.call (.bin (castBlob bytes)))
  | .date timeInterval => onContext perform (timeIntervalCall F timeInterval)
  | .number value => cwPackNumber perform value
  | .array elements => fun ctx => do
      let cnt := UInt32.ofNat elements.length
      let ctx ← onContext perform (.call (.arraySize cnt)) ctx
      forEach packObject (elements.take cnt.toNat) ctx
  | .dictionary entries => fun ctx => do
      let ctx ← onContext perform (.call (.mapSize (UInt32.ofNat entries.length))) ctx
      forEach (fun (key, value) ctx => do
        let ctx ← packObject key ctx
        packObject value ctx) entries ctx
  | .externalItem type data => onContext perform (.call (.ext type.toInt8 (castBlob data)))
  | _ => fun _ => none

/-- `cwPackSub:` -/
def cwPackSub : Object → Packing S
  | .set elements => forEach packObject elements
  | .countedSet elements =>
      forEach (fun (object, count) ctx => do
        let ctx ← packObject object ctx
        onContext perform (.call (.signed count.toInt64)) ctx) elements
  | .genericClass _ attributes => forEach packObject attributes
  | _ => fun _ => none

/-- `packUserObject:`, which is `cwPackTo:` -/
def packUserObject (object : Object) : Packing S := fun ctx =>
  match object.packerClassName with
  | none => none
  | some name => do
      let ctx ← onContext perform (.call (.str (cstr name))) ctx
      cwPackSub perform packObject object ctx

/-- The size of the array an object is packed as, `2 + object.persistentAttributeCount`. -/
def arraySize (object : Object) : UInt32 := (2 + object.persistentAttributeCount).toUInt32

end Methods

/-- `packObject:` of an object -/
def packObject (F : FloatUnit) (perform : PackingCall → S → Option S) (heap : Heap) :
    Nat → ObjectId → Packing S
  | 0, _, _ => none
  | depth + 1, p, ctx =>
      let object := heap p
      let isMsgpackObject := object.isMsgpackObject
      let pack := packObject F perform heap depth
      if ctx.useLabels then
        let label := ctx.labelForObject p
        if label ≠ 0 then do -- object already packed, just pack a reference.
          let ctx ← onContext perform (.call (.arraySize 1)) ctx
          onContext perform (.extInteger cwpItemObjectMarker label) ctx
        else do
          let ctx ← onContext perform (.call (.arraySize (arraySize object))) ctx
          let (label, ctx) := ctx.assignLabelForObject p isMsgpackObject
          let ctx ← onContext perform (.extInteger cwpItemObjectMarker label) ctx
          if isMsgpackObject then cwPackPackerTo F perform pack object ctx
          else packUserObject perform pack object ctx
      else if isMsgpackObject then cwPackPackerTo F perform pack object ctx
      else do
        let ctx ← onContext perform (.call (.arraySize (arraySize object))) ctx
        let ctx ← onContext perform (.extInteger cwpItemObjectMarker 0) ctx
        packUserObject perform pack object ctx

/-- `packObject:` of an object or `nil` -/
def packNullable (F : FloatUnit) (perform : PackingCall → S → Option S) (heap : Heap) (depth : Nat) :
    Option ObjectId → Packing S
  | none => onContext perform (.call .nil)
  | some p => packObject F perform heap depth p

end CWPack.ObjC
