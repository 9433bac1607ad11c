/-
  Goodies/Dump.lean --- the dump tool, `src/goodies/dump/cwpack_dump.c`.

  The tool prints items while it reads them.  What it prints is kept as the list of
  the conversions it makes; `printf` of a `double` and the calendar are not
  expanded.  An `int` has 32 bits and wraps around, a `long` has 64.

  The loops and the recursion of `dump_item` and the loop of `main` share one bound
  on the steps they may take, `fuel`.  Where it does not suffice nothing is
  returned.
-/
import CWPack.Foundation.Loops
import CWPack.Goodies.Barrier
import CWPack.Goodies.NumericExtensions
import CWPack.Goodies.Utils

set_option autoImplicit false

namespace CWPack.Goodies

open CWPack.Foundation
open CWPack.Core

variable {σ : Type}

/-! ## Output -/

/-- A conversion of `printf`. -/
inductive Printed where
  | text (s : String)
  /-- `%c`, and `%s` byte by byte -/
  | char (c : UInt8)
  /-- `%02x` and `%04x` -/
  | hex (digits : Nat) (c : UInt8)
  /-- `%d`, `%ld`, `%lld` and `%llu` -/
  | number (n : Int)
  /-- `%g` -/
  | double (bits : UInt64)
  /-- `strftime` with `%F %T` -/
  | date (tvSec : Int)
  /-- `%f` of the seconds, less its first digit -/
  | fraction (tvNsec : Nat)
  /-- `NEW_LINE`: the offset, hexadecimal and decimal, and the tabs -/
  | newLine (offset spaces : Nat)
  deriving DecidableEq, Repr

/-- What `main` takes from its arguments: the length of `tabString` and `recognizeObjects`. -/
structure DumpOptions where
  tab : Nat
  recognizeObjects : Bool
  deriving DecidableEq, Repr

/-- A context that is dumped, and what has been printed. -/
structure Dumper (σ : Type) where
  context : UnpackState σ
  printed : List Printed

namespace Dumper

def printf (d : Dumper σ) (p : Printed) : Dumper σ := { d with printed := d.printed ++ [p] }

def printAll (d : Dumper σ) (ps : List Printed) : Dumper σ :=
  { d with printed := d.printed ++ ps }

def setContext (d : Dumper σ) (context : UnpackState σ) : Dumper σ := { d with context := context }

def returnCode (d : Dumper σ) : Int := d.context.uc.returnCode

@[simp] theorem printf_context (d : Dumper σ) (p : Printed) : (d.printf p).context = d.context :=
  rfl

@[simp] theorem printAll_context (d : Dumper σ) (ps : List Printed) :
    (d.printAll ps).context = d.context := rfl

@[simp] theorem setContext_context (d : Dumper σ) (s : UnpackState σ) :
    (d.setContext s).context = s := rfl

end Dumper

/-- `NEW_LINE(tablevel)` -/
def newLine (o : DumpOptions) (tabLevel : Int32) (d : Dumper σ) : Dumper σ :=
  d.printf (.newLine (d.context.uc.current - d.context.uc.start) (tabLevel.toNatClampNeg * o.tab))

/-- `CHECK_NEW_LINE` -/
def checkNewLine (o : DumpOptions) (tabLevel i : Int32) (d : Dumper σ) : Dumper σ :=
  if o.tab ≠ 0 then newLine o tabLevel d
  else if i ≠ 0 then d.printf (.text " ")
  else d

/-- `if(*tabString) NEW_LINE(tabLevel);` -/
def closeLine (o : DumpOptions) (tabLevel : Int32) (d : Dumper σ) : Dumper σ :=
  if o.tab ≠ 0 then newLine o tabLevel d else d

@[simp] theorem newLine_context (o : DumpOptions) (tabLevel : Int32) (d : Dumper σ) :
    (newLine o tabLevel d).context = d.context := rfl

@[simp] theorem checkNewLine_context (o : DumpOptions) (tabLevel i : Int32) (d : Dumper σ) :
    (checkNewLine o tabLevel i d).context = d.context := by
  unfold checkNewLine
  split
  · rfl
  · split <;> rfl

@[simp] theorem closeLine_context (o : DumpOptions) (tabLevel : Int32) (d : Dumper σ) :
    (closeLine o tabLevel d).context = d.context := by
  unfold closeLine
  split <;> rfl

/-- A character of a string. -/
def dumpChar (c : UInt8) : List Printed :=
  match c with
  | 0x22 => [.text "\\\""]
  | 0x5c => [.text "\\\\"]
  | 0x08 => [.text "\\b"]
  | 0x0c => [.text "\\f"]
  | 0x0a => [.text "\\n"]
  | 0x0d => [.text "\\r"]
  | 0x09 => [.text "\\t"]
  | c => if c < 0x20 then [.text "\\u", .hex 4 c] else [.char c]

/-- `dump_as_hex` -/
def dumpAsHex (area length : Nat) (d : Dumper σ) : Dumper σ :=
  d.printAll (.text "<" :: (d.context.mem.bytes area length).map (.hex 2) ++ [.text ">"])

/-- `case CWP_ITEM_STR`; the length is cast to `int`. -/
def dumpString (start length : Nat) (d : Dumper σ) : Dumper σ :=
  let characters := d.context.mem.bytes start (Int32.ofNat length).toNatClampNeg
  d.printAll (.text "\"" :: characters.flatMap dumpChar ++ [.text "\""])

/-- `case CWP_ITEM_TIMESTAMP` -/
def dumpTime (tvSec : Int) (tvNsec : Nat) (d : Dumper σ) : Dumper σ :=
  let d := (d.printf (.text "\x27")).printf (.date tvSec)
  let d := if tvNsec ≠ 0 then d.printf (.fraction tvNsec) else d
  d.printf (.text "\x27")

/-- The extension types, but for timestamps. -/
def dumpExt (type : Int) (start length : Nat) (d : Dumper σ) : Dumper σ :=
  let d := ((d.printf (.text "(")).printf (.number type)).printf (.text ",")
  (dumpAsHex start length d).printf (.text ")")

/-! ## Items -/

section Items

variable (H : Option (UnpackUnderflowHandler σ)) (o : DumpOptions)
  (item : Int32 → Dumper σ → Option (Dumper σ))

/-- `dump_next_item`, on top of `dump_item` -/
def dumpNextItem (tabLevel : Int32) (d : Dumper σ) : Option (Dumper σ) := do
  let context ← cwUnpackNext H d.context
  let d := d.setContext context
  if d.returnCode ≠ 0 then some d else item tabLevel d

/-- The body of the loops over the elements of an array. -/
def dumpElement (tabLevel i : Int32) (d : Dumper σ) : Option (Dumper σ) :=
  dumpNextItem H item tabLevel (checkNewLine o tabLevel i d)

/-- The body of the loop over the pairs of a map. -/
def dumpPair (tabLevel i : Int32) (d : Dumper σ) : Option (Dumper σ) := do
  let d ← dumpNextItem H item tabLevel (checkNewLine o tabLevel i d)
  dumpNextItem H item tabLevel (d.printf (.text ":"))

/-- `case CWP_ITEM_MAP` -/
def dumpMap (fuel : Nat) (tabLevel : Int32) (dim : Int) (d : Dumper σ) : Option (Dumper σ) :=
  if dim = 0 then some (d.printf (.text "\x7b\x7d"))
  else do
    let d := d.printf (.text "\x7b")
    let d ← forLoop (dumpPair H o item (tabLevel + 1)) dim fuel 0 d
    some ((closeLine o tabLevel d).printf (.text "\x7d"))

/-- A user object, whose label has been read. -/
def dumpUserObject (fuel : Nat) (tabLevel : Int32) (dim : Int) (d : Dumper σ) :
    Option (Dumper σ) := do
  let context ← cwUnpackNext H d.context
  let d := d.setContext context
  if d.returnCode ≠ 0 then some d
  else if d.context.uc.item.type ≠ .str then
    some (d.setContext (d.context.setReturnCode cwpRcMalformedInput))
  else do
    let as := d.context.uc.item.as
    -- the precision ends the name, and so does a NUL
    let name := (d.context.mem.bytes as.front as.back).takeWhile (· ≠ 0)
    let d := (d.printAll (name.map .char)).printf (.text "(")
    let d ← forLoop (dumpElement H o item (tabLevel + 1)) (dim - 2) fuel 0 d
    some ((closeLine o tabLevel d).printf (.text ")"))

/-- An array whose first element is an object marker. -/
def dumpObject (fuel : Nat) (tabLevel : Int32) (dim : Int) (d : Dumper σ) : Option (Dumper σ) :=
  let (label, context) := getExtInteger d.context
  let d := d.setContext context
  let userObject := label ≥ 0
  if dim = 1 then some ((d.printf (.text "->")).printf (.number label)) -- reference
  else
    let d := if label ≠ 0 then (d.printf (.number label)).printf (.text "->") else d
    if ¬ userObject then
      if dim ≠ 2 then some (d.setContext (d.context.setReturnCode cwpRcMalformedInput))
      else dumpNextItem H item tabLevel d
    else dumpUserObject H o item fuel tabLevel dim d

/-- An array whose first element has been read, and is an item as any other. -/
def dumpElements (fuel : Nat) (tabLevel : Int32) (dim : Int) (d : Dumper σ) :
    Option (Dumper σ) := do
  let d := checkNewLine o (tabLevel + 1) 0 (d.printf (.text "["))
  let d ← item (tabLevel + 1) d
  let d ← forLoop (dumpElement H o item (tabLevel + 1)) dim fuel 1 d
  some ((closeLine o tabLevel d).printf (.text "]"))

/-- `case CWP_ITEM_ARRAY` -/
def dumpArray (fuel : Nat) (tabLevel : Int32) (dim : Int) (d : Dumper σ) : Option (Dumper σ) :=
  if dim = 0 then some (d.printf (.text "[]"))
  else do
    let context ← cwUnpackNext H d.context
    let d := d.setContext context
    if d.returnCode ≠ 0 then some d
    else if o.recognizeObjects ∧ d.context.uc.item.type = .ext 127 then
      dumpObject H o item fuel tabLevel dim d
    else dumpElements H o item fuel tabLevel dim d

end Items

section Tool

variable (F : FloatUnit) (H : Option (UnpackUnderflowHandler σ)) (o : DumpOptions)

/-- `dump_item` -/
def dumpItem : Nat → Int32 → Dumper σ → Option (Dumper σ)
  | 0, _, _ => none
  | fuel + 1, tabLevel, d =>
      let s := d.context
      let as := s.uc.item.as
      match s.uc.item.type with
      | .nil => some (d.printf (.text "nil"))
      | .boolean => some (d.printf (.text (if as.front ≠ 0 then "YES" else "NO")))
      | .positiveInteger => some (d.printf (.number as.front))
      | .negativeInteger => some (d.printf (.number as.i64))
      | .float =>
          let longReal := F.doubleOfFloat (.ofNat as.front)
          some ((d.setContext (s.setAs (.u64 longReal.toNat))).printf (.double longReal))
      | .double => some (d.printf (.double (.ofNat as.front)))
      | .str => some (dumpString as.front as.back d)
      | .bin => some (dumpAsHex as.front as.back d)
      | .array => dumpArray H o (dumpItem fuel) fuel tabLevel as.front d
      | .map => dumpMap H o (dumpItem fuel) fuel tabLevel as.front d
      | .ext (-1) => some (dumpTime as.i64 as.back d)
      | .ext type => some (dumpExt type.toInt as.front as.back d)
      | type => some ((d.printf (.text "????? type = ")).printf (.number type.code))

/-- The loop of `main` -/
def dumpLoop : Nat → Dumper σ → Option (Dumper σ)
  | 0, _ => none
  | fuel + 1, d =>
      if d.returnCode = 0 then do
        let d ← dumpNextItem H (dumpItem F H o fuel) 0 (newLine o 0 d)
        dumpLoop fuel d
      else some d

end Tool

/-- The context of the tool, before its loop. -/
def dumpContext (malloc : Allocator) (stdin : InputDescriptor) (s : UnpackState FileUnpackEnv) :
    UnpackState FileUnpackEnv :=
  fileUnpackContextSetBarrier (initFileUnpackContext malloc 4096 stdin s)

/-- `main`, behind its arguments -/
def dumpMain (F : FloatUnit) (realloc : Allocator) (results : ReadResults) (o : DumpOptions)
    (fuel : Nat) (stdin : InputDescriptor) (s : UnpackState FileUnpackEnv) :
    Option (Dumper FileUnpackEnv) := do
  let H := some (handleFileUnpackUnderflow 64 realloc results)
  let d ← dumpLoop F H o fuel ⟨dumpContext realloc stdin s, []⟩
  let d := d.printf (.text "\n")
  if d.returnCode ≠ cwpRcEndOfInput then
    some (((d.printf (.text "\nERROR RC = ")).printf (.number d.returnCode)).printf (.text "\n"))
  else some d

end CWPack.Goodies
