/-
  Example/Program.lean --- `src/example/json2cwpack2json.c` as a whole.

  From a JSON file the program makes a MessagePack file and from that another JSON
  file.  A JSON file that is read as its item comes out as one with the same item,
  however it was spaced and escaped, and what comes out once is not changed any
  more: that is the `diff` of `src/example/runExample.sh`.

  The heap gives what it is asked for, and a file that is opened for writing takes
  all that is written to it.
-/
import CWPack.Example.ItemFile
import CWPack.Example.JsonPrint

set_option autoImplicit false

namespace CWPack.Example

open CWPack.Foundation
open CWPack.Core
open CWPack.Goodies
open CWPack.MessagePack

/-! ## The program -/

/-- The contents of the files there are. -/
abbrev Files := List UInt8 → Option (List UInt8)

/-- A file that is created, or replaced. -/
def Files.write (files : Files) (name contents : List UInt8) : Files := fun name' =>
  if name' = name then some contents else files name'

/-- What the program runs on, with what is in its contexts before they are initialised. -/
structure Platform where
  float : FloatUnit
  text : RealText
  malloc : Allocator
  realloc : Allocator
  disk : FwriteResults
  pack : PackState StreamPackEnv
  unpack : UnpackState StreamUnpackEnv

/-- `".msgpack"` -/
def msgpackSuffix : List UInt8 := [0x2e, 0x6d, 0x73, 0x67, 0x70, 0x61, 0x63, 0x6b]

/-- `".json"` -/
def jsonSuffix : List UInt8 := [0x2e, 0x6a, 0x73, 0x6f, 0x6e]

/-- `main`, with the exit code and the files it leaves.  The names are put together in a
buffer of 200 characters; a file that cannot be opened for reading is a null pointer, which
is then read. -/
def json2cwpack2json (P : Platform) (fuel : Nat) (argv : List (List UInt8)) (files : Files) :
    Option (Int × Files) :=
  match argv with
  | _ :: filename :: _ =>
      let packed := filename ++ msgpackSuffix
      let unpacked := packed ++ jsonSuffix
      if 200 ≤ unpacked.length then none
      else
        match files filename with
        | none => none
        | some json =>
            match jsonFile2item3 P.text fuel json with
            | none => none
            | some root =>
                match item32cwpackFile 64 P.malloc P.disk .opened root P.pack with
                | none => none
                | some file =>
                    let files := files.write packed file.written
                    match cwpackFile2item3 P.float 64 P.realloc fuel ⟨file.written, false, 0⟩
                        P.unpack with
                    | none => none
                    | some (.error rc) => some (rc, files)
                    | some (.ok root) =>
                        match item32JsonFile P.text root with
                        | none => none
                        | some json => some (0, files.write unpacked json)
  | _ => some (1, files)

/-- The heap and the disk give and take everything. -/
structure Platform.Reliable (P : Platform) : Prop where
  malloc : ∀ i n, (P.malloc i n).isSome
  realloc : ∀ i n, (P.realloc i n).isSome
  disk : ∀ i n, P.disk i n = none

/-! ## Items of JSON texts -/

section

variable {R : RealText} {k : Kind} {text : List UInt8} {items : List ItemRoot}

/-- Items of a text of less than `2 ^ 31` bytes can be packed, and those of a map come in
pairs. -/
theorem JsonText.wellFormed (h : JsonText R k text items) (hlen : text.length < 2 ^ 31) :
    AllWellFormed items ∧ (k = .members ∨ k = .moreMembers → 2 ∣ items.length) := by
  induction h with
  | @string text characters h =>
      have hle := h.length_le
      simp only [List.length_cons, List.length_append] at hlen
      refine ⟨⟨?_, trivial⟩, by simp⟩
      show characters.length < 2 ^ 32 - 6
      omega
  | emptyArray _ => exact ⟨⟨⟨by decide, trivial⟩, trivial⟩, by simp⟩
  | emptyMap _ => exact ⟨⟨⟨by decide, Nat.dvd_zero 2, trivial⟩, trivial⟩, by simp⟩
  | @array text items h ih =>
      have hle := h.length_le
      simp only [List.length_cons, List.length_append] at hlen
      exact ⟨⟨⟨by omega, (ih (by omega)).1⟩, trivial⟩, by simp⟩
  | @map text items h ih =>
      have hle := h.length_le
      simp only [List.length_cons, List.length_append] at hlen
      obtain ⟨hall, hpairs⟩ := ih (by omega)
      exact ⟨⟨⟨by omega, hpairs (Or.inl rfl), hall⟩, trivial⟩, by simp⟩
  | elements _ _ _ _ ih ihmore =>
      simp only [List.length_append] at hlen
      exact ⟨⟨(ih (by omega)).1.1, (ihmore (by omega)).1⟩, by simp⟩
  | noElements => exact ⟨trivial, by simp⟩
  | moreElements _ ih => exact ⟨(ih (Nat.lt_of_succ_lt hlen)).1, by simp⟩
  | @members s key characters s₁ s₂ text s' more value items _ hkey _ _ _ _ _ ih ihmore =>
      have hle := hkey.length_le
      simp only [List.length_append, List.length_cons] at hlen
      obtain ⟨hall, hpairs⟩ := ihmore (by omega)
      refine ⟨⟨?_, (ih (by omega)).1.1, hall⟩, fun _ => ?_⟩
      · show characters.length < 2 ^ 32 - 6
        omega
      · have heven := hpairs (Or.inr rfl)
        simp only [List.length_cons]
        omega
  | noMembers => exact ⟨trivial, fun _ => Nat.dvd_zero 2⟩
  | moreMembers _ ih =>
      obtain ⟨hall, hpairs⟩ := ih (Nat.lt_of_succ_lt hlen)
      exact ⟨hall, fun _ => hpairs (Or.inl rfl)⟩
  | _ => exact ⟨⟨trivial, trivial⟩, by simp⟩

/-- No item is higher than its text is long. -/
theorem JsonText.heights_le (h : JsonText R k text items) : heights items ≤ text.length := by
  induction h with
  | integer h _ =>
      obtain ⟨c, rest, rfl, -⟩ := h.head
      exact Nat.succ_le_succ (Nat.zero_le _)
  | real h _ _ =>
      obtain ⟨c, rest, rfl, -⟩ := h.head
      exact Nat.succ_le_succ (Nat.zero_le _)
  | array _ ih =>
      simp only [heights, ItemRoot.height, List.length_cons, List.length_append]
      omega
  | map _ ih =>
      simp only [heights, ItemRoot.height, List.length_cons, List.length_append]
      omega
  | elements _ _ _ _ ih ihmore =>
      simp only [heights, List.length_append] at ih ⊢
      omega
  | noElements => exact Nat.le_refl _
  | moreElements _ ih => exact Nat.le_succ_of_le ih
  | members _ _ _ _ _ _ _ ih ihmore =>
      simp only [heights, ItemRoot.height, List.length_append, List.length_cons] at ih ⊢
      omega
  | noMembers => exact Nat.le_refl _
  | moreMembers _ ih => exact Nat.le_succ_of_le ih
  | _ =>
      simp only [heights, ItemRoot.height, List.length_cons]
      omega

end

/-! ## Items without NULs -/

/-- A character that can be printed has no NUL in it. -/
theorem ne_zero_of_printable {u : Char} (hu : PrintableCharacter u) {c : UInt8}
    (hc : c ∈ String.utf8EncodeChar u) : c ≠ 0 := by
  refine ne_zero_of_mem_utf8EncodeChar (fun hzero => ?_) hc
  obtain ⟨-, hcontrol⟩ := hu
  simp only [List.mem_cons, List.not_mem_nil, or_false] at hcontrol
  omega

theorem beforeNul_of_printable {characters : List UInt8} (h : PrintableString characters) :
    beforeNul characters = characters := by
  obtain ⟨us, rfl, hus⟩ := h
  refine List.takeWhile_eq_self_iff.mpr fun c hc => decide_eq_true ?_
  obtain ⟨u, hu, hc⟩ := List.mem_flatMap.mp hc
  exact ne_zero_of_printable (hus u hu) hc

mutual

/-- What can be printed has no NUL in its strings. -/
theorem cut_of_printable {R : RealText} {item : ItemRoot} (h : item.Printable R) :
    item.cut = item := by
  cases item with
  | map items => rw [ItemRoot.cut, cutItems_of_pairsPrintable h]
  | array items => rw [ItemRoot.cut, cutItems_of_allPrintable h]
  | string characters => rw [ItemRoot.cut, beforeNul_of_printable h]
  | _ => rfl

theorem cutItems_of_pairsPrintable {R : RealText} {items : List ItemRoot}
    (h : PairsPrintable R items) : cutItems items = items := by
  cases items with
  | nil => rfl
  | cons key items =>
      cases items with
      | nil => exact h.elim
      | cons value items =>
          obtain ⟨⟨characters, rfl, hkey⟩, hvalue, hitems⟩ := h
          rw [cutItems, ItemRoot.cut, beforeNul_of_printable hkey, cutItems,
            cut_of_printable hvalue, cutItems_of_pairsPrintable hitems]

theorem cutItems_of_allPrintable {R : RealText} {items : List ItemRoot}
    (h : AllPrintable R items) : cutItems items = items := by
  cases items with
  | nil => rfl
  | cons item items => rw [cutItems, cut_of_printable h.1, cutItems_of_allPrintable h.2]

end

/-! ## The program as a whole -/

/-- Called for a file with the contents `json`, the program ends well, leaves a MessagePack
file with `packed` and a JSON file with `out`, and no other file is touched. -/
def Converts (P : Platform) (json packed out : List UInt8) : Prop :=
  ∀ (fuel : Nat) (program filename : List UInt8) (args : List (List UInt8)) (files : Files),
    json.length ≤ fuel → filename.length < 187 → files filename = some json →
    json2cwpack2json P fuel (program :: filename :: args) files =
      some (0, (files.write (filename ++ msgpackSuffix) packed).write
        (filename ++ msgpackSuffix ++ jsonSuffix) out)

/-- A JSON file is converted to the encoding of its item, and from there to what is printed
for the item with its strings cut at the first NUL. -/
theorem converts_of_jsonFile {P : Platform} (hP : P.Reliable) {json out : List UInt8}
    {item : ItemRoot} (hjson : JsonFile P.text json item) (hlen : json.length < 2 ^ 31)
    (hlast : item.EmptyLast) (hout : item32JsonFile P.text item.cut = some out) :
    Converts P json item.encoded out := by
  intro fuel program filename args files hfuel hname hfile
  have hread := jsonFile2item3_of_emptyLast hjson hlen hfuel hlast
  obtain ⟨s, text, s', rfl, -, htext, -⟩ := hjson
  simp only [List.length_append] at hlen hfuel
  have hwell : item.WellFormed := (htext.wellFormed (by omega)).1.1
  have hheight := htext.heights_le
  simp only [heights] at hheight
  obtain ⟨file, hpack, hwritten⟩ := item32cwpackFile_of_wellFormed hP.malloc hP.disk hwell P.pack
  obtain ⟨hdepicts, -⟩ := depicts_calls P.float item hwell
  have hunpack : cwpackFile2item3 P.float 64 P.realloc fuel ⟨item.encoded, false, 0⟩ P.unpack =
      some (.ok item.cut) :=
    cwpackFile2item3_of_depicts P.float hP.realloc hwell.legal.2.2 hdepicts
      (by rw [height_cut]; omega) (List.append_nil item.encoded).symm P.unpack
  simp only [json2cwpack2json]
  rw [if_neg (by simp [msgpackSuffix, jsonSuffix]; omega), hfile]
  simp only [hread, hpack, hunpack, hout, hwritten]

/-- The program preserves items: the MessagePack file spells out values that depict the item
of the JSON file, and the other JSON file has the same item.  When that file is converted in
its turn, the same two files come out. -/
theorem json2cwpack2json_preserves_item {P : Platform} (hP : P.Reliable) {json : List UInt8}
    {item : ItemRoot} (hjson : JsonFile P.text json item) (hlen : json.length < 2 ^ 31)
    (hlast : item.EmptyLast) (hprint : item.Printable P.text) :
    ∃ packed out vs, Converts P json packed out ∧ SpellsOut vs packed ∧
      Depicts P.float vs [item] ∧ JsonFile P.text out item ∧
      (out.length < 2 ^ 31 → Converts P out packed out) := by
  obtain ⟨out, hout, hfile⟩ := item32JsonFile_of_printable hprint
  have hcut := cut_of_printable hprint
  obtain ⟨s, text, s', rfl, hs, htext, hs'⟩ := hjson
  simp only [List.length_append] at hlen
  have hwell : item.WellFormed := (htext.wellFormed (by omega)).1.1
  obtain ⟨hdepicts, -⟩ := depicts_calls P.float item hwell
  rw [hcut] at hdepicts
  refine ⟨item.encoded, out, item.calls.map (PackCall.received false), ?_, hwell.legal.2.2,
    hdepicts, hfile, fun hlen' => ?_⟩
  · exact converts_of_jsonFile hP ⟨s, text, s', rfl, hs, htext, hs'⟩
      (by simp only [List.length_append]; exact hlen) hlast (by rw [hcut]; exact hout)
  · exact converts_of_jsonFile hP hfile hlen' hlast (by rw [hcut]; exact hout)

/-- A machine whose C library knows one double, `1.5`. -/
def onePlatform : Platform where
  float := FloatUnit.native
  text := ⟨fun _ => [0x31, 0x2e, 0x35], fun text =>
    if text = [0x31, 0x2e, 0x35] then some 0x3ff8000000000000 else none⟩
  malloc := fixedHeap 0
  realloc := fixedHeap 0
  disk := reliableDisk
  pack := blankStream
  unpack := blankStreamUnpack

/-- `[1.5 ,{"\u00e5":[]}]`, where the empty array is the last item. -/
theorem json2cwpack2json_preserves_item_empty_last :
    ∃ packed out vs,
      Converts onePlatform [0x5b, 0x31, 0x2e, 0x35, 0x20, 0x2c, 0x7b, 0x22, 0x5c, 0x75, 0x30, 0x30,
        0x65, 0x35, 0x22, 0x3a, 0x5b, 0x5d, 0x7d, 0x5d] packed out ∧ SpellsOut vs packed ∧
      Depicts FloatUnit.native vs
        [.array [.real 0x3ff8000000000000, .map [.string [0xc3, 0xa5], .array []]]] ∧
      JsonFile onePlatform.text out
        (.array [.real 0x3ff8000000000000, .map [.string [0xc3, 0xa5], .array []]]) ∧
      (out.length < 2 ^ 31 → Converts onePlatform out packed out) := by
  have hnone : Space [] := fun _ h => absurd h List.not_mem_nil
  have hreal : RealNumeral [0x31, 0x2e, 0x35] :=
    ⟨[], [0x31], [0x2e, 0x35], [], rfl, Or.inl rfl,
      ⟨List.cons_ne_nil _ _, List.all_eq_true.mp rfl⟩,
      Or.inr ⟨[0x35], rfl, List.cons_ne_nil _ _, List.all_eq_true.mp rfl⟩, Or.inl rfl,
      Or.inl (List.cons_ne_nil _ _)⟩
  have hkey : StringText [0x5c, 0x75, 0x30, 0x30, 0x65, 0x35] [0xc3, 0xa5] :=
    @StringText.unicode [0x30, 0x30, 0x65, 0x35] [] [] (Char.ofNat 0xe5) rfl
      (List.all_eq_true.mp rfl) rfl .done
  have hblank : Space [0x20] := fun c h => by rw [List.mem_singleton.mp h]; rfl
  have htext : JsonText onePlatform.text .item [0x5b, 0x31, 0x2e, 0x35, 0x20, 0x2c, 0x7b, 0x22,
      0x5c, 0x75, 0x30, 0x30, 0x65, 0x35, 0x22, 0x3a, 0x5b, 0x5d, 0x7d, 0x5d]
      [.array [.real 0x3ff8000000000000, .map [.string [0xc3, 0xa5], .array []]]] :=
    .array (.elements hnone (.real hreal (by decide) rfl) hblank (.moreElements (.elements hnone
      (.map (.members hnone hkey hnone hnone (.emptyArray hnone) hnone .noMembers)) hnone
        .noElements)))
  exact json2cwpack2json_preserves_item ⟨fun _ _ => rfl, fun _ _ => rfl, fun _ _ => rfl⟩
    ⟨[], _, [], rfl, hnone, htext, hnone⟩ (by decide) (by
      simp [ItemRoot.EmptyLast, AllEmptyLast, ItemRoot.Full]) (by
      refine ⟨⟨hreal, by decide, rfl⟩, ⟨⟨⟨_, rfl, [Char.ofNat 0xe5], rfl, ?_⟩, trivial, trivial⟩,
        trivial⟩⟩
      intro u hu
      rw [List.mem_singleton.mp hu]
      exact ⟨by decide, Or.inl (by decide)⟩)

end CWPack.Example
