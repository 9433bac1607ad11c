/-
  Goodies/DumpText.lean --- what the dump tool prints.

  `itemText` is the text of an item, by recursion over the item and its
  content: an array in brackets, a map in braces, an object under its label with
  the name of its class.  Offsets count from the beginning of the file.  The tool
  prints the text of every item, in whatever pieces the file is read: the barrier
  at its beginning keeps it in the buffer as a whole.
-/
import CWPack.Core.Trees
import CWPack.Goodies.DumpEnds

set_option autoImplicit false

namespace CWPack.Goodies

open CWPack.Foundation
open CWPack.Core
open CWPack.MessagePack

variable {σ : Type}

/-! ## The text -/

section Text

variable (F : FloatUnit) (o : DumpOptions)

/-- A new line, with the offset of the bytes that follow. -/
def lineText (offset depth : Nat) : List Printed := [.newLine offset (depth * o.tab)]

/-- Before an element. -/
def elementBreak (offset depth i : Nat) : List Printed :=
  if o.tab ≠ 0 then lineText o offset depth else if i ≠ 0 then [.text " "] else []

/-- Before what closes a container. -/
def closeBreak (offset depth : Nat) : List Printed :=
  if o.tab ≠ 0 then lineText o offset depth else []

/-- Bytes in hexadecimal digits. -/
def hexText (bs : List UInt8) : List Printed := .text "<" :: bs.map (.hex 2) ++ [.text ">"]

/-- An item without content.  An extension of type -1 that is no timestamp is taken for one: its
pointer is printed as a date. -/
def leafText : Value → Option (List Printed)
  | .nil => some [.text "nil"]
  | .bool b => some [.text (if b then "YES" else "NO")]
  | .int v => some [.number v]
  | .float bits => some [.double (F.doubleOfFloat (.ofNat bits))]
  | .double bits => some [.double (.ofNat bits)]
  | .str bs => some (.text "\"" :: bs.flatMap dumpChar ++ [.text "\""])
  | .bin bs => some (hexText bs)
  | .ext type payload =>
      if type = -1 then none
      else some ([.text "(", .number type.toInt, .text ","] ++ hexText payload ++ [.text ")"])
  | .timestamp sec nsec =>
      some ([.text "\x27", .date sec] ++ (if nsec ≠ 0 then [.fraction nsec] else []) ++
        [.text "\x27"])
  | .array _ => some [.text "[]"]
  | .map _ => some [.text "\x7b\x7d"]

/-- The name of a class, as far as it is a C string. -/
def nameText (name : List UInt8) : List Printed := (name.takeWhile (· ≠ 0)).map .char

/-- The label of an object that is not 0. -/
def labelText (label : Int) : List Printed :=
  if label ≠ 0 then [.number label, .text "->"] else []

mutual

/-- The text of an item at a depth, with the offset behind its head; `none` where an object is
none. -/
def itemText (depth offset : Nat) : ItemTree → Option (List Printed)
  | .node head [] => leafText F head.value
  | .node head (first :: rest) =>
      let behind := offset + (forestBytes (first :: rest)).length
      match head.value with
      | .map _ => (pairsText (depth + 1) offset 0 (first :: rest)).map fun ts =>
          .text "\x7b" :: ts ++ closeBreak o behind depth ++ [.text "\x7d"]
      | _ =>
          let offset' := offset + first.head.bytes.length
          match markerPayload o.recognizeObjects first.head.value with
          | some payload => objectText depth offset' (extInteger (some payload)) rest
          | none =>
              (itemText (depth + 1) offset' first).bind fun t =>
                (elementsText (depth + 1) (offset + first.bytes.length) 1 rest).map fun ts =>
                  .text "[" :: elementBreak o offset' (depth + 1) 0 ++ t ++ ts ++
                    closeBreak o behind depth ++ [.text "]"]

/-- The texts of elements, from the `i`-th on. -/
def elementsText (depth offset i : Nat) : List ItemTree → Option (List Printed)
  | [] => some []
  | t :: ts =>
      (itemText depth (offset + t.head.bytes.length) t).bind fun here =>
        (elementsText depth (offset + t.bytes.length) (i + 1) ts).map fun more =>
          elementBreak o offset depth i ++ here ++ more

/-- The texts of pairs, from the `i`-th on. -/
def pairsText (depth offset i : Nat) : List ItemTree → Option (List Printed)
  | key :: value :: ts =>
      (itemText depth (offset + key.head.bytes.length) key).bind fun k =>
        let offset' := offset + key.bytes.length
        (itemText depth (offset' + value.head.bytes.length) value).bind fun v =>
          (pairsText depth (offset' + value.bytes.length) (i + 1) ts).map fun more =>
            elementBreak o offset depth i ++ k ++ .text ":" :: v ++ more
  | _ => some []

/-- The text of an object, behind its marker with the label: a reference, an item or a user
object. -/
def objectText (depth offset : Nat) (label : Int × Int) : List ItemTree → Option (List Printed)
  | [] => if label.2 = cwpRcOk then some [.text "->", .number label.1] else none
  | next :: attributes =>
      if label.2 ≠ cwpRcOk then none
      else if label.1 < 0 then
        if attributes.length = 0 then
          (itemText depth (offset + next.head.bytes.length) next).map (labelText label.1 ++ ·)
        else none
      else
        match next.head.value with
        | .str name =>
            (elementsText (depth + 1) (offset + next.bytes.length) 0 attributes).map fun ts =>
              labelText label.1 ++ nameText name ++ .text "(" :: ts ++
                closeBreak o (offset + (forestBytes (next :: attributes)).length) depth ++
                  [.text ")"]
        | _ => none

end

/-- The texts of the items of a file, each on a line of its own. -/
def fileText (offset : Nat) : List ItemTree → Option (List Printed)
  | [] => some (lineText o offset 0)
  | t :: ts =>
      (itemText F o 0 (offset + t.head.bytes.length) t).bind fun here =>
        (fileText (offset + t.bytes.length) ts).map fun more => lineText o offset 0 ++ here ++ more

end Text

/-! ## What has been printed -/

/-- The offset of the bytes ahead. -/
def offset (d : Dumper σ) : Nat := d.context.uc.current - d.context.uc.start

/-- `text` has been printed, and `b` is ahead. -/
def HasPrinted (inv : List UInt8 → UnpackInput σ → Prop) (d : Dumper σ) (text : List Printed)
    (b : List UInt8) (d' : Dumper σ) : Prop :=
  ReadTo inv b d' ∧ d'.printed = d.printed ++ text

/-- The offset and the bytes ahead come to `total`. -/
def Counted (inv : List UInt8 → UnpackInput σ → Prop) (total : Nat) : Prop :=
  ∀ b x, inv b x → x.current - x.start + b.length = total

section Steps

variable {inv : List UInt8 → UnpackInput σ → Prop} {total : Nat} {o : DumpOptions}
  {b b' : List UInt8} {d d' : Dumper σ} {text text' : List Printed}

theorem offset_of_ahead (hcount : Counted inv total) (h : ReadTo inv b d) (h' : ReadTo inv b' d')
    {k : Nat} (hlen : b.length = k + b'.length) : offset d' = offset d + k := by
  have hbefore : offset d + b.length = total := hcount _ _ h.2
  have hafter : offset d' + b'.length = total := hcount _ _ h'.2
  omega

theorem hasPrinted_printAll (h : ReadTo inv b d) (text : List Printed) :
    HasPrinted inv d text b (d.printAll text) := ⟨h, rfl⟩

theorem hasPrinted_nil (h : ReadTo inv b d) : HasPrinted inv d [] b d :=
  ⟨h, (List.append_nil _).symm⟩

theorem HasPrinted.append (h : HasPrinted inv d text b d') {d'' : Dumper σ}
    (h' : HasPrinted inv d' text' b' d'') : HasPrinted inv d (text ++ text') b' d'' :=
  ⟨h'.1, by rw [h'.2, h.2, List.append_assoc]⟩

theorem printAll_printAll (d : Dumper σ) (text text' : List Printed) :
    (d.printAll text).printAll text' = d.printAll (text ++ text') := by
  simp only [Dumper.printAll, List.append_assoc]

theorem printAll_nil (d : Dumper σ) : d.printAll [] = d := by
  simp only [Dumper.printAll, List.append_nil]

theorem newLine_eq {depth : Nat} (hdepth : depth < 2 ^ 31) (d : Dumper σ) :
    newLine o (Int32.ofNat depth) d = d.printAll (lineText o (offset d) depth) := by
  rw [newLine, Int32.toNatClampNeg_ofNat_of_lt hdepth]
  rfl

theorem checkNewLine_eq {depth i : Nat} (hdepth : depth < 2 ^ 31) (hi : i < 2 ^ 31)
    (d : Dumper σ) : checkNewLine o (Int32.ofNat depth) (Int32.ofNat i) d =
      d.printAll (elementBreak o (offset d) depth i) := by
  have hzero : Int32.ofNat i ≠ 0 ↔ i ≠ 0 := by
    rw [Ne, ← Int32.toInt_inj, Int32.toInt_ofNat_of_lt hi]
    show ¬ (i : Int) = 0 ↔ i ≠ 0
    omega
  unfold checkNewLine elementBreak
  split
  · exact newLine_eq hdepth d
  · by_cases hne : i ≠ 0
    · rw [if_pos hne, if_pos (hzero.mpr hne)]
      rfl
    · rw [if_neg hne, if_neg (fun h => hne (hzero.mp h)), printAll_nil]

theorem closeLine_eq {depth : Nat} (hdepth : depth < 2 ^ 31) (d : Dumper σ) :
    closeLine o (Int32.ofNat depth) d = d.printAll (closeBreak o (offset d) depth) := by
  unfold closeLine closeBreak
  split
  · exact newLine_eq hdepth d
  · rw [printAll_nil]

/-- A container is closed behind its content. -/
theorem close_prints {stuck : Prop} {content rest : List UInt8} {depth : Nat}
    {r : Option (Dumper σ)} (hcount : Counted inv total) (h : ReadTo inv (content ++ rest) d)
    (hdepth : depth < 2 ^ 31) (hr : Ends stuck (HasPrinted inv d text rest) r) (closer : String) :
    Ends stuck (HasPrinted inv d (text ++ closeBreak o (offset d + content.length) depth ++
        [.text closer]) rest)
      (r.bind fun d' => some ((closeLine o (Int32.ofNat depth) d').printf (.text closer))) := by
  refine hr.bind fun d' hd' => ?_
  have hoffset : offset d' = offset d + content.length :=
    offset_of_ahead hcount h hd'.1 List.length_append
  rw [closeLine_eq hdepth, hoffset]
  have hline := hasPrinted_printAll hd'.1 (closeBreak o (offset d + content.length) depth)
  exact (hd'.append hline).append (hasPrinted_printAll hline.1 [.text closer])

end Steps

end CWPack.Goodies
