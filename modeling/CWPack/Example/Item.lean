/-
  Example/Item.lean --- the item tree of `src/example/item.c`, and its conversion
  to and from MessagePack.

  A container holds pointers to its items, which may be null; in maps every
  association counts for two.  Of a string the characters are kept, less the NUL
  that is always the last of them; there may be others before it.  Nothing the
  program does can make two parts of a tree one, and the heap gives it what it
  asks for, so a tree is a value here.

  A function that reads a null pointer, or a block the heap cannot give, does not
  return: `none`.  `exit` ends the program with a code: `.error`.
-/
import CWPack.Goodies.StreamPack
import CWPack.Goodies.StreamUnpack
import CWPack.Goodies.Utils
import CWPack.ObjC.Objects

set_option autoImplicit false

namespace CWPack.Example

open CWPack.Foundation
open CWPack.Core
open CWPack.Goodies
open CWPack.ObjC (castBlob)

variable {σ : Type}

/-! ## Items -/

/-- `item_root*`, with what follows the `item_type`. -/
inductive ItemRoot where
  | map (items : List ItemRoot)
  | array (items : List ItemRoot)
  | nil
  | true_
  | false_
  | integer (value : Int64)
  | real (value : UInt64)
  | string (characters : List UInt8)
  | null
  deriving Repr

mutual

/-- The number of items on the longest way down. -/
def ItemRoot.height : ItemRoot → Nat
  | .map items => heights items + 1
  | .array items => heights items + 1
  | _ => 1

/-- The greatest height among the items. -/
def heights : List ItemRoot → Nat
  | [] => 0
  | item :: items => max item.height (heights items)

end

theorem ItemRoot.height_pos (item : ItemRoot) : 0 < item.height := by
  cases item with
  | map items => exact Nat.succ_pos _
  | array items => exact Nat.succ_pos _
  | _ => exact Nat.one_pos

/-! ## Item tree to MessagePack file -/

/-- The bytes before the first NUL, as `strlen` counts them. -/
def beforeNul (characters : List UInt8) : List UInt8 := characters.takeWhile (· ≠ 0)

mutual

/-- `item32packContext` -/
def item32packContext (H : PackHandlers σ) : ItemRoot → PackState σ → Option (PackState σ)
  | .map items, s =>
      match cwPackMapSize H (.ofNat (items.length / 2)) s with
      | none => none
      | some s => packItems H items s
  | .array items, s =>
      match cwPackArraySize H (.ofNat items.length) s with
      | none => none
      | some s => packItems H items s
  | .nil, s => cwPackNil H s
  | .true_, s => cwPackBoolean H true s
  | .false_, s => cwPackBoolean H false s
  | .integer value, s => cwPackSigned H value s
  | .real value, s => cwPackDouble H value s
  | .string characters, s => cwPackStr H (castBlob (beforeNul characters)) s
  | .null, _ => none

/-- `for( i=0; i< ic->count; i++) item32packContext (pc, ic->items[i]);` -/
def packItems (H : PackHandlers σ) : List ItemRoot → PackState σ → Option (PackState σ)
  | [], s => some s
  | item :: items, s =>
      match item32packContext H item s with
      | none => none
      | some s => packItems H items s

end

/-- `item32cwpackFile` -/
def item32cwpackFile (w : Nat) (malloc : Allocator) (disk : FwriteResults) (file : OutputFile)
    (item : ItemRoot) (s : PackState StreamPackEnv) : Option OutputFile :=
  let H := streamPackHandlers w malloc disk
  match item32packContext H item (initStreamPackContext malloc 10 file s) with
  | none => none
  | some s =>
      match terminateStreamPackContext H s with
      | none => none
      | some s => some s.env.file

/-! ## MessagePack file to item tree -/

/-- The characters that `strncpy` leaves for `n` bytes: from the first NUL on, zeros. -/
def strncpy (bs : List UInt8) : List UInt8 :=
  beforeNul bs ++ List.replicate (bs.length - (beforeNul bs).length) 0

/-- `for (i=0; i<dim; i++) ic->items[i] = packContext2item3 (uc);` -/
def readItems (next : UnpackState σ → Option (Except Int (ItemRoot × UnpackState σ))) :
    Nat → UnpackState σ → Option (Except Int (List ItemRoot × UnpackState σ))
  | 0, s => some (.ok ([], s))
  | dim + 1, s =>
      match next s with
      | none => none
      | some (.error rc) => some (.error rc)
      | some (.ok (item, s)) =>
          match readItems next dim s with
          | none => none
          | some (.error rc) => some (.error rc)
          | some (.ok (items, s)) => some (.ok (item :: items, s))

/-- The container of a size computed in `uint32_t` and assigned to `int dim`.  For a
negative `dim` there is no block, or (a block of 0 bytes, for -1) none that has room for
the header. -/
def readContainer (next : UnpackState σ → Option (Except Int (ItemRoot × UnpackState σ)))
    (make : List ItemRoot → ItemRoot) (size : Nat) (s : UnpackState σ) :
    Option (Except Int (ItemRoot × UnpackState σ)) :=
  let dim := twosComplement 32 size
  if dim < 0 then none
  else
    match readItems next dim.toNat s with
    | none => none
    | some (.error rc) => some (.error rc)
    | some (.ok (items, s)) => some (.ok (make items, s))

/-- `packContext2item3`; `fuel` bounds the depth of the recursion. -/
def packContext2item3 (F : FloatUnit) (H : Option (UnpackUnderflowHandler σ)) :
    Nat → UnpackState σ → Option (Except Int (ItemRoot × UnpackState σ))
  | 0, _ => none
  | fuel + 1, s =>
      match cwUnpackNext H s with
      | none => none
      | some s =>
          if s.uc.returnCode ≠ 0 then some (.error s.uc.returnCode)
          else
            let as := s.uc.item.as
            match s.uc.item.type with
            | .nil => some (.ok (.nil, s))
            | .boolean => some (.ok (if as.front ≠ 0 then .true_ else .false_, s))
            | .positiveInteger | .negativeInteger => some (.ok (.integer (.ofInt as.i64), s))
            | .float => some (.ok (.real (F.doubleOfFloat (.ofNat as.front)), s))
            | .double => some (.ok (.real (.ofNat as.front), s))
            | .str => some (.ok (.string (strncpy (s.mem.bytes as.front as.back)), s))
            | .map => readContainer (packContext2item3 F H fuel) .map (2 * as.front % 2 ^ 32) s
            | .array => readContainer (packContext2item3 F H fuel) .array as.front s
            | _ => some (.ok (.null, s))

/-- `cwpackFile2item3` -/
def cwpackFile2item3 (F : FloatUnit) (w : Nat) (realloc : Allocator) (fuel : Nat)
    (file : InputFile) (s : UnpackState StreamUnpackEnv) : Option (Except Int ItemRoot) :=
  match packContext2item3 F (some (handleStreamUnpackUnderflow w realloc)) fuel
      (initStreamUnpackContext realloc 0 file s) with
  | none => none
  | some (.error rc) => some (.error rc)
  | some (.ok (item, _)) => some (.ok item)

end CWPack.Example
