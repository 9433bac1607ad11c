/-
  ObjC/UnpackContext.lean --- `CWUnpackContext` of `src/goodies/objC/CWPackContext.m`.

  The objects that are built are kept in the order in which they are created; a
  pointer to one is its place there, and `nil` is `none`.  As for packing, a method
  takes `cwUnpackObject:` as a parameter, and `cwUnpackObject` itself is given the
  depth to which it may call itself.  Where an exception is raised, a handler does
  not return or the depth does not suffice, nothing is returned.

  Foundation need not allocate an object for a value: short strings and numbers are
  tagged pointers, `@YES` is a constant.  Which object it gives is left open.
-/
import CWPack.Goodies.Utils
import CWPack.ObjC.PackContext

set_option autoImplicit false

namespace CWPack.ObjC

open CWPack.Core
open CWPack.Goodies

variable {σ : Type}

/-! ## The runtime -/

/-- The classes with an unpacking method of their own, and those whose method is the one of
`NSObject`, which raises an exception. -/
inductive RegisteredClass where
  | nsSet
  | nsCountedSet
  | notUnpackable
  deriving DecidableEq, Repr

/-- What the Objective-C runtime and Foundation decide. -/
structure Runtime where
  /-- `NSClassFromString` -/
  classFromString : String → Option RegisteredClass
  /-- `isEqual:` of two of the objects -/
  isEqual : List Object → ObjectId → ObjectId → Bool
  /-- `initWithBytes:length:encoding:` of `NSString`, with `NSUTF8StringEncoding` -/
  stringFromUtf8 : List UInt8 → Option String
  /-- The object, among those there are, that is given for one that is to hold a value.  Where
  there is none, a new one is allocated. -/
  existing : List Object → Object → Option ObjectId
  existing_holds : ∀ {objects object p}, existing objects object = some p →
    objects[p]? = some object

/-! ## The context -/

/-- A `CWUnpackContext`, with the objects that have been built. -/
structure CWUnpackContext (σ : Type) where
  context : UnpackState σ
  heap : List Object
  userReferences : List ObjectId
  packerReferences : List ObjectId

/-- What a method returns, and does to the context. -/
abbrev Unpacking (σ α : Type) : Type := CWUnpackContext σ → Option (α × CWUnpackContext σ)

/-- `[NSNull null]` -/
def nsNull : ObjectId := 0

namespace CWUnpackContext

/-- `initWithContext:`; no reference has value 0. -/
def initWithContext (context : UnpackState σ) : CWUnpackContext σ :=
  ⟨context, [.null], [nsNull], [nsNull]⟩

def setReturnCode (ctx : CWUnpackContext σ) (e : Int) : CWUnpackContext σ :=
  { ctx with context := ctx.context.setReturnCode e }

/-- A new object. -/
def new (ctx : CWUnpackContext σ) (object : Object) : ObjectId × CWUnpackContext σ :=
  (ctx.heap.length, { ctx with heap := ctx.heap ++ [object] })

/-- An object that holds a value, or an immutable copy; Foundation may have it already. -/
def create (R : Runtime) (ctx : CWUnpackContext σ) (object : Object) :
    ObjectId × CWUnpackContext σ :=
  match R.existing ctx.heap object with
  | some p => (p, ctx)
  | none => ctx.new object

/-- Change what the object at `p` holds. -/
def update (ctx : CWUnpackContext σ) (p : ObjectId) (f : Object → Object) : CWUnpackContext σ :=
  { ctx with heap := ctx.heap.modify p f }

/-- `[_userReferences addObject:object]` -/
def addUserReference (ctx : CWUnpackContext σ) (p : ObjectId) : CWUnpackContext σ :=
  { ctx with userReferences := ctx.userReferences ++ [p] }

/-- `[_packerReferences addObject:object]` -/
def addPackerReference (ctx : CWUnpackContext σ) (p : ObjectId) : CWUnpackContext σ :=
  { ctx with packerReferences := ctx.packerReferences ++ [p] }

end CWUnpackContext

/-! ## Collections -/

/-- `addObject:` of a mutable array, which may be the attributes of a generic class. -/
def Object.addObject (q : ObjectId) : Object → Object
  | .array elements => .array (elements ++ [q])
  | .genericClass name attributes => .genericClass name (attributes ++ [q])
  | object => object

/-- `setObject:forKey:` of a mutable dictionary, whose key has been copied. -/
def Object.setObject (isEqual : ObjectId → ObjectId → Bool) (key value : ObjectId) :
    Object → Object
  | .dictionary entries =>
      match entries.findIdx? fun entry => isEqual entry.1 key with
      | some i => .dictionary (entries.modify i fun entry => (entry.1, value))
      | none => .dictionary (entries ++ [(key, value)])
  | object => object

/-- `addObject:` of a mutable set. -/
def Object.addMember (isEqual : ObjectId → ObjectId → Bool) (q : ObjectId) : Object → Object
  | .set elements =>
      if elements.any fun element => isEqual element q then .set elements
      else .set (elements ++ [q])
  | object => object

/-- `addObject:` of a counted set, `count` times. -/
def Object.addCounted (isEqual : ObjectId → ObjectId → Bool) (q : ObjectId) (count : Nat) :
    Object → Object
  | .countedSet elements =>
      match elements.findIdx? fun element => isEqual element.1 q with
      | some i =>
          .countedSet (elements.modify i fun element => (element.1, element.2 + .ofNat count))
      | none => .countedSet (elements ++ [(q, .ofNat count)])
  | object => object

/-! ## Methods -/

/-- A method called `n` times. -/
def repeatTimes (method : CWUnpackContext σ → Option (CWUnpackContext σ)) :
    Nat → CWUnpackContext σ → Option (CWUnpackContext σ)
  | 0, ctx => some ctx
  | n + 1, ctx => do
      let ctx ← method ctx
      repeatTimes method n ctx

/-- The bytes of the blob of an item. -/
def blobBytes (s : UnpackState σ) : List UInt8 :=
  s.mem.bytes s.uc.item.as.front s.uc.item.as.back

/-- The end of `cwUnpackObject:`, behind the `switch`. -/
def registerObject (label : Int) (object : ObjectId) (ctx : CWUnpackContext σ) :
    Option ObjectId × CWUnpackContext σ :=
  if label ≠ 0 then
    if label ≠ -(ctx.packerReferences.length : Int) then
      (some object, ctx.setReturnCode cwpRcMalformedInput)
    else (some object, ctx.addPackerReference object)
  else (some object, ctx)

/-- A branch of the `switch` that allocates an object and breaks. -/
def createObject (label : Int) (object : Object) (ctx : CWUnpackContext σ) :
    Option ObjectId × CWUnpackContext σ :=
  let (p, ctx) := ctx.new object
  registerObject label p ctx

/-- A branch of the `switch` that asks for an object with a value and breaks. -/
def createValue (R : Runtime) (label : Int) (object : Object) (ctx : CWUnpackContext σ) :
    Option ObjectId × CWUnpackContext σ :=
  let (p, ctx) := ctx.create R object
  registerObject label p ctx

/-- `copy`, of a key.  What is immutable is its own copy; an external item and an object of a
generic class are not `NSCopying`, and an exception is raised. -/
def copyKey (R : Runtime) (key : ObjectId) (ctx : CWUnpackContext σ) :
    Option (ObjectId × CWUnpackContext σ) :=
  match ctx.heap[key]? with
  | none => none
  | some (.externalItem _ _) => none
  | some (.genericClass _ _) => none
  | some (.array elements) => some (ctx.create R (.array elements))
  | some (.dictionary entries) => some (ctx.create R (.dictionary entries))
  | some (.set elements) => some (ctx.create R (.set elements))
  | some (.countedSet elements) => some (ctx.create R (.countedSet elements))
  | some _ => some (key, ctx)

/-- `dict[key] = val` -/
def setEntry (R : Runtime) (p : ObjectId) (key value : ObjectId) (ctx : CWUnpackContext σ) :
    Option (CWUnpackContext σ) := do
  let (key, ctx) ← copyKey R key ctx
  some (ctx.update p (Object.setObject (R.isEqual ctx.heap) key value))

section Methods

variable (F : FloatUnit) (H : Option (UnpackUnderflowHandler σ)) (R : Runtime)
  (unpackObject : Int → Unpacking σ (Option ObjectId))

/-- `cw_unpack_next(_context)` -/
def unpackNext (ctx : CWUnpackContext σ) : Option (CWUnpackContext σ) :=
  match cwUnpackNext H ctx.context with
  | none => none
  | some context => some { ctx with context := context }

/-- `cwUnpackNextObjectSub:` -/
def cwUnpackNextObjectSub (label : Int) : Unpacking σ (Option ObjectId) := fun ctx => do
  let ctx ← unpackNext H ctx
  if ctx.context.uc.returnCode ≠ 0 then some (none, ctx) else unpackObject label ctx

/-- `unpackNextObject` -/
def unpackNextObject : Unpacking σ (Option ObjectId) := fun ctx => do
  let (result, ctx) ← cwUnpackNextObjectSub H unpackObject 0 ctx
  if result = some nsNull then some (none, ctx) else some (result, ctx)

/-- Put an object that was just unpacked into the collection at `p`, if all is well. -/
def addUnpacked (p : ObjectId) (item : Option ObjectId) (ctx : CWUnpackContext σ) :
    Option (CWUnpackContext σ) :=
  if ctx.context.uc.returnCode = cwpRcOk then
    match item with
    | some q => some (ctx.update p (Object.addObject q))
    | none => none
  else some ctx

/-- The body of the loops that fill arrays. -/
def unpackElement (p : ObjectId) (ctx : CWUnpackContext σ) : Option (CWUnpackContext σ) := do
  let (item, ctx) ← cwUnpackNextObjectSub H unpackObject 0 ctx
  addUnpacked p item ctx

/-- The body of the loop that fills a dictionary. -/
def unpackEntry (p : ObjectId) (ctx : CWUnpackContext σ) : Option (CWUnpackContext σ) := do
  let (key, ctx) ← cwUnpackNextObjectSub H unpackObject 0 ctx
  let (val, ctx) ← cwUnpackNextObjectSub H unpackObject 0 ctx
  if ctx.context.uc.returnCode = cwpRcOk then
    match key, val with
    | some key, some val => setEntry R p key val ctx
    | _, _ => none
  else some ctx

/-- `case CWP_ITEM_MAP` -/
def unpackMap (label : Int) : Unpacking σ (Option ObjectId) := fun ctx => do
  let dim := Int32.ofNat ctx.context.uc.item.as.front
  let (dict, ctx) := ctx.new (.dictionary [])
  let ctx := if label ≠ 0 then ctx.addPackerReference dict else ctx
  let ctx ← repeatTimes (unpackEntry H R unpackObject dict) dim.toNatClampNeg ctx
  some (some dict, ctx)

/-- A standard array, whose first element has been read. -/
def unpackArray (label : Int) (dim : Int32) : Unpacking σ (Option ObjectId) := fun ctx => do
  let (arr, ctx) := ctx.new (.array [])
  let ctx := if label ≠ 0 then ctx.addPackerReference arr else ctx
  let (item, ctx) ← unpackObject 0 ctx
  let ctx ← addUnpacked arr item ctx
  let ctx ← repeatTimes (unpackElement H unpackObject arr) (dim.toNatClampNeg - 1) ctx
  some (some arr, ctx)

/-- An object reference. -/
def unpackReference (idx : Int) (ctx : CWUnpackContext σ) :
    Option ObjectId × CWUnpackContext σ :=
  if (if idx < 0 then -idx ≥ ctx.packerReferences.length else idx ≥ ctx.userReferences.length) then
    (none, ctx.setReturnCode cwpRcValueError)
  else (if idx > 0 then ctx.userReferences[idx.toNat]? else ctx.packerReferences[(-idx).toNat]?, ctx)

/-- `[self addObject:[ctx unpackNextObject]]` of a mutable set -/
def unpackMember (p : ObjectId) (ctx : CWUnpackContext σ) : Option (CWUnpackContext σ) := do
  let (item, ctx) ← unpackNextObject H unpackObject ctx
  match item with
  | some q => some (ctx.update p (Object.addMember (R.isEqual ctx.heap) q))
  | none => none

/-- The body of the loop of a counted set. -/
def unpackCounted (p : ObjectId) (ctx : CWUnpackContext σ) : Option (CWUnpackContext σ) := do
  let (item, ctx) ← unpackNextObject H unpackObject ctx
  let (repetitions, context) ← cwUnpackNextUnsigned64 H ctx.context
  let ctx := { ctx with context := context }
  let repetitions := Int64.ofInt repetitions
  if repetitions > 0 then
    match item with
    | some q =>
        some (ctx.update p
          (Object.addCounted (R.isEqual ctx.heap) q repetitions.toNatClampNeg))
    | none => none
  else some ctx

/-- `cwUnpackSubInit:remainingAttributes:`, as the object it returns before it is filled. -/
def cwUnpackSubInit (objClassName : Option String) : Option RegisteredClass → Object
  | some .nsSet => .set []
  | some .nsCountedSet => .countedSet []
  | _ => .genericClass objClassName []

/-- `cwUnpackSub:remainingAttributes:`; a class that is not registered is a `CWPackGenericClass`. -/
def cwUnpackSub (p : ObjectId) (remainingAttributes : Int32) :
    Option RegisteredClass → CWUnpackContext σ → Option (CWUnpackContext σ)
  | none => repeatTimes (unpackElement H unpackObject p) remainingAttributes.toNatClampNeg
  | some .nsSet => repeatTimes (unpackMember H R unpackObject p) remainingAttributes.toNatClampNeg
  | some .nsCountedSet =>
      repeatTimes (unpackCounted H R unpackObject p) (remainingAttributes / 2).toNatClampNeg
  | some .notUnpackable => fun _ => none

/-- The class name of a user object, which may be `nil`.  Anything but a string raises an
exception. -/
def classNameOf (heap : List Object) : Option ObjectId → Option (Option String)
  | none => some none
  | some p =>
      match heap[p]? with
      | some (.string name) => some (some name)
      | _ => none

/-- A user object, with the label `idx` or without a label. -/
def unpackUserObject (idx : Int) (dim : Int32) : Unpacking σ (Option ObjectId) := fun ctx => do
  let (name, ctx) ← cwUnpackNextObjectSub H unpackObject 0 ctx
  let objClassName ← classNameOf ctx.heap name
  let objClass := objClassName.bind R.classFromString
  let (object, ctx) := ctx.new (cwUnpackSubInit objClassName objClass)
  if idx = ctx.userReferences.length then do
    let ctx ← cwUnpackSub H R unpackObject object (dim - 2) objClass (ctx.addUserReference object)
    some (some object, ctx)
  else if idx ≠ 0 then some (none, ctx.setReturnCode cwpRcValueError)
  else do
    let ctx ← cwUnpackSub H R unpackObject object (dim - 2) objClass ctx
    some (some object, ctx)

/-- `case CWP_ITEM_ARRAY`, where the array is not empty. -/
def unpackArrayItem (label : Int) (dim : Int32) : Unpacking σ (Option ObjectId) := fun ctx => do
  let ctx ← unpackNext H ctx
  if ctx.context.uc.item.type = .ext cwpItemObjectMarker then
    let (idx, context) := getExtInteger ctx.context
    let ctx := { ctx with context := context }
    if dim = 1 then some (unpackReference idx ctx)
    else if idx < 0 then -- we had a labeled MessagePack object
      if dim ≠ 2 then some (none, ctx.setReturnCode cwpRcValueError)
      else cwUnpackNextObjectSub H unpackObject idx ctx
    else unpackUserObject H R unpackObject idx dim ctx
  else unpackArray H unpackObject label dim ctx

end Methods

/-- `cwUnpackObject:` -/
def cwUnpackObject (F : FloatUnit) (H : Option (UnpackUnderflowHandler σ)) (R : Runtime) :
    Nat → Int → Unpacking σ (Option ObjectId)
  | 0, _, _ => none
  | depth + 1, label, ctx =>
      let s := ctx.context
      let as := s.uc.item.as
      let unpackObject := cwUnpackObject F H R depth
      match s.uc.item.type with
      | .nil => some (registerObject label nsNull ctx)
      | .boolean =>
          some (createValue R label (.number (.char (if as.front ≠ 0 then 1 else 0))) ctx)
      | .positiveInteger =>
          some (createValue R label (.number (.integer .sInt64 (.ofNat as.front))) ctx)
      | .negativeInteger =>
          some (createValue R label (.number (.integer .sInt64 (.ofInt as.i64))) ctx)
      | .float => some (createValue R label (.number (.float .float32 (.ofNat as.front))) ctx)
      | .double => some (createValue R label (.number (.double .float64 (.ofNat as.front))) ctx)
      | .str =>
          match R.stringFromUtf8 (blobBytes s) with
          | none => some (none, ctx.setReturnCode cwpRcValueError)
          | some characters => some (createValue R label (.string characters) ctx)
      | .bin => some (createValue R label (.data (blobBytes s)) ctx)
      | .ext (-1) =>
          let tvSec := F.doubleOfInt64 (.ofInt as.i64)
          let tvNsec := F.doubleOfUInt32 (.ofNat as.back)
          some (createValue R label (.date (F.add tvSec (F.div tvNsec doubleBillion))) ctx)
      | .map => unpackMap H R unpackObject label ctx
      | .array =>
          let dim := Int32.ofNat as.front
          if dim = 0 then some (createObject label (.array []) ctx)
          else unpackArrayItem H R unpackObject label dim ctx
      | type => some (createObject label (.externalItem (.ofInt type.code) (blobBytes s)) ctx)

end CWPack.ObjC
