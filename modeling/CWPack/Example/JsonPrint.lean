/-
  Example/JsonPrint.lean --- what `item32JsonFile` writes is JSON, and has the item.

  That holds for strings of characters of sixteen bits, without control characters
  other than those that JSON has an escape for, and for doubles of which the
  fifteen digits have a fraction or an exponent and stand for the double.
-/
import CWPack.Example.JsonRead

set_option autoImplicit false

namespace CWPack.Example

open CWPack.Foundation

/-! ## Strings -/

/-- A character that is printed as what it is. -/
def PrintableCharacter (u : Char) : Prop :=
  u.toNat < 2 ^ 16 ∧ (0x20 ≤ u.toNat ∨ u.toNat ∈ [0x08, 0x09, 0x0a, 0x0c, 0x0d])

/-- The characters of a string, in UTF-8. -/
def PrintableString (characters : List UInt8) : Prop :=
  ∃ us : List Char, characters = us.flatMap String.utf8EncodeChar ∧ ∀ u ∈ us, PrintableCharacter u

theorem joinSix_toNat {u : UInt32} (hu : u.toNat < 2 ^ 10) (c : UInt8) :
    (joinSix u c).toNat = u.toNat * 64 + (c &&& 0x3f).toNat := by
  have hlow : (c &&& 0x3f).toNat < 2 ^ 6 := by
    rw [UInt8.toNat_and]
    exact Nat.lt_of_le_of_lt Nat.and_le_right (by decide)
  have hshift : (u <<< 6).toNat = 2 ^ 6 * u.toNat := by
    rw [UInt32.toNat_shiftLeft, Nat.shiftLeft_eq]
    show u.toNat * 2 ^ 6 % 2 ^ 32 = _
    rw [Nat.mod_eq_of_lt (by omega), Nat.mul_comm]
  rw [joinSix, UInt32.toNat_or, UInt8.toNat_toUInt32, hshift, ← Nat.two_pow_add_eq_or_of_lt hlow]
  omega

section

variable {characters bs : List UInt8} (hrest : printCharacters characters = some bs)
include hrest

/-- A character of one byte. -/
theorem printCharacters_one {c : UInt8} (hzero : c ≠ 0) (hhigh : c &&& 0x80 = 0) :
    printCharacters (c :: characters) = some (escaped c ++ bs) := by
  cases characters with
  | nil => simp [printCharacters] at hrest
  | cons d characters =>
      cases characters with
      | nil => rw [printCharacters, if_neg hzero, if_neg (not_not_intro hhigh), hrest]; simp
      | cons d' characters =>
          rw [printCharacters, if_neg hzero, if_neg (not_not_intro hhigh), hrest]

/-- A character of two bytes. -/
theorem printCharacters_two {c : UInt8} (hhigh : c &&& 0x80 ≠ 0) (hthree : c &&& 0x20 = 0)
    (c₁ : UInt8) : printCharacters (c :: c₁ :: characters) =
      some (unicodeEscape (joinSix (c &&& 0x1f).toUInt32 c₁) ++ bs) := by
  have hzero : c ≠ 0 := by
    rintro rfl
    exact hhigh rfl
  cases characters with
  | nil => simp [printCharacters] at hrest
  | cons d characters =>
      rw [printCharacters, if_neg hzero, if_pos hhigh, if_neg (not_not_intro hthree), hrest]

/-- A character of three bytes. -/
theorem printCharacters_three {c : UInt8} (hhigh : c &&& 0x80 ≠ 0) (hthree : c &&& 0x20 ≠ 0)
    (c₁ c₂ : UInt8) : printCharacters (c :: c₁ :: c₂ :: characters) =
      some (unicodeEscape (joinSix (joinSix (c &&& 0x0f).toUInt32 c₁) c₂) ++ bs) := by
  have hzero : c ≠ 0 := by
    rintro rfl
    exact hhigh rfl
  rw [printCharacters, if_neg hzero, if_pos hhigh, if_pos hthree, hrest]

end

/-- An escape is the text of its code point. -/
theorem stringText_unicodeEscape {x : UInt32} {u : Char} (hx : x.toNat = u.toNat)
    (hu : u.toNat < 2 ^ 16) {text characters : List UInt8} (h : StringText text characters) :
    StringText (unicodeEscape x ++ text) (String.utf8EncodeChar u ++ characters) := by
  have hone : 1 < 16 := by decide
  have hlt : x.toNat < 16 ^ 4 := by rw [hx]; exact hu
  rw [unicodeEscape, List.cons_append, List.cons_append]
  refine .unicode (paddedNumeral_length hone (by decide) hlt)
    (fun c hc => isDigit_of_mem_paddedNumeral hone (Nat.le_refl _) hc) ?_ h
  rw [numeralValue_paddedNumeral hone (Nat.le_refl _), hx]

/-- What is printed for a character of one byte is a text of it. -/
theorem stringText_escaped {c : UInt8} (hlow : c.toNat < 0x80)
    (hc : 0x20 ≤ c.toNat ∨ c.toNat ∈ [0x08, 0x09, 0x0a, 0x0c, 0x0d]) {text characters : List UInt8}
    (h : StringText text characters) : StringText (escaped c ++ text) (c :: characters) := by
  have hescape : ∀ {letter code}, (letter, code) ∈ escapes →
      StringText ([0x5c, letter] ++ text) (code :: characters) := fun hmem => .escape hmem h
  rw [escaped]
  split
  · rename_i hc; rw [hc]; exact hescape (by decide)
  split
  · rename_i hc; rw [hc]; exact hescape (by decide)
  split
  · rename_i hc; rw [hc]; exact hescape (by decide)
  split
  · rename_i hc; rw [hc]; exact hescape (by decide)
  split
  · rename_i hc; rw [hc]; exact hescape (by decide)
  split
  · rename_i hc; rw [hc]; exact hescape (by decide)
  split
  · rename_i hc; rw [hc]; exact hescape (by decide)
  split
  · rename_i hc; rw [hc]; exact hescape (by decide)
  · rename_i hquote _ hback hbs ht hn hf hr
    refine .plain ⟨?_, hquote, hback⟩ h
    simp only [UInt8.le_iff_toNat_le, ← UInt8.toNat_inj, UInt8.reduceToNat, List.mem_cons,
      List.not_mem_nil, or_false] at hc hbs ht hn hf hr ⊢
    omega

/-- A character is printed as a text of it. -/
theorem printCharacters_utf8EncodeChar {u : Char} (hu : PrintableCharacter u)
    {characters bs : List UInt8} (hrest : printCharacters characters = some bs) :
    ∃ printed, printCharacters (String.utf8EncodeChar u ++ characters) = some (printed ++ bs) ∧
      ∀ {text characters}, StringText text characters →
        StringText (printed ++ text) (String.utf8EncodeChar u ++ characters) := by
  obtain ⟨hlt, hcontrol⟩ := hu
  by_cases hone : u.toNat < 2 ^ 7
  · have hbyte : (UInt8.ofNat u.toNat).toNat = u.toNat := by
      rw [UInt8.toNat_ofNat', Nat.mod_eq_of_lt (by omega)]
    have hhigh : UInt8.ofNat u.toNat &&& 0x80 = 0 := by
      rw [← UInt8.toNat_inj, UInt8.toNat_and, hbyte]
      exact (and_highBits_eq_zero_iff (by omega : u.toNat < 2 ^ 8) (by decide : 7 ≤ 8)).mpr hone
    have hzero : UInt8.ofNat u.toNat ≠ 0 := by
      intro h
      rw [← UInt8.toNat_inj, hbyte] at h
      simp [h] at hcontrol
    rw [utf8EncodeChar_one hone]
    refine ⟨_, printCharacters_one hrest hzero hhigh, fun h => ?_⟩
    exact stringText_escaped (by omega) (by rw [hbyte]; exact hcontrol) h
  · by_cases htwo : u.toNat < 2 ^ 11
    · obtain ⟨hhigh, hthree, hfirst⟩ := firstOfTwo_masks (by omega : u.toNat / 64 < 32)
      have hjoin : (joinSix (UInt8.ofNat (u.toNat / 64 + 0xc0) &&& 0x1f).toUInt32
          (UInt8.ofNat (u.toNat % 64 + 0x80))).toNat = u.toNat := by
        rw [joinSix_toNat (by rw [UInt8.toNat_toUInt32, hfirst]; omega), UInt8.toNat_toUInt32,
          hfirst, continuation_mask (by omega)]
        omega
      refine ⟨_, ?_, fun h => stringText_unicodeEscape hjoin hlt h⟩
      rw [utf8EncodeChar_two (Nat.le_of_not_lt hone) htwo]
      exact printCharacters_two hrest hhigh hthree _
    · obtain ⟨hhigh, hthree, hfirst⟩ := firstOfThree_masks (by omega : u.toNat / 64 / 64 < 16)
      have hinner : (joinSix (UInt8.ofNat (u.toNat / 64 / 64 + 0xe0) &&& 0x0f).toUInt32
          (UInt8.ofNat (u.toNat / 64 % 64 + 0x80))).toNat = u.toNat / 64 := by
        rw [joinSix_toNat (by rw [UInt8.toNat_toUInt32, hfirst]; omega), UInt8.toNat_toUInt32,
          hfirst, continuation_mask (by omega)]
        omega
      have hjoin : (joinSix (joinSix (UInt8.ofNat (u.toNat / 64 / 64 + 0xe0) &&& 0x0f).toUInt32
          (UInt8.ofNat (u.toNat / 64 % 64 + 0x80)))
          (UInt8.ofNat (u.toNat % 64 + 0x80))).toNat = u.toNat := by
        rw [joinSix_toNat (by rw [hinner]; omega), hinner, continuation_mask (by omega)]
        omega
      refine ⟨_, ?_, fun h => stringText_unicodeEscape hjoin hlt h⟩
      rw [utf8EncodeChar_three (Nat.le_of_not_lt htwo) hlt]
      exact printCharacters_three hrest hhigh hthree _ _

/-- A string is printed as a text of it. -/
theorem printCharacters_of_printable {characters : List UInt8} (h : PrintableString characters) :
    ∃ text, printCharacters (characters ++ [0]) = some text ∧ StringText text characters := by
  obtain ⟨us, rfl, hus⟩ := h
  induction us with
  | nil => exact ⟨[], rfl, .done⟩
  | cons u us ih =>
      obtain ⟨text, hprint, htext⟩ := ih fun u hu => hus u (List.mem_cons_of_mem _ hu)
      obtain ⟨printed, hprinted, hspell⟩ :=
        printCharacters_utf8EncodeChar (hus u List.mem_cons_self) hprint
      rw [List.flatMap_cons, List.append_assoc]
      exact ⟨printed ++ text, hprinted, hspell htext⟩

/-! ## Numbers -/

/-- An integer is printed as a text of it. -/
theorem printInteger_text (value : Int64) :
    IntegerText (printInteger value) value ∧ (printInteger value).length < 100 := by
  have hten : 1 < 10 := by decide
  have hbase : 10 ≤ 16 := by decide
  have hrange : value.toInt.natAbs < 10 ^ 20 := by
    have hlow := value.le_toInt
    have hhigh := value.toInt_lt
    omega
  have hlen := numeral_length_le hten (by decide : 0 < 20) hrange
  have hdigits : Digits (numeral 10 value.toInt.natAbs) :=
    ⟨numeral_ne_nil _, fun c hc => isDigit_of_mem_numeral hten hbase hc⟩
  have hvalue := numeralValue_numeral hten hbase value.toInt.natAbs
  rw [printInteger]
  split
  · refine ⟨.negative hdigits (by rw [hvalue]; omega), ?_⟩
    rw [List.length_cons]
    omega
  · exact ⟨.positive hdigits (by rw [hvalue]; omega), by omega⟩

/-- A double that is printed as a text of it. -/
structure PrintableReal (R : RealText) (value : UInt64) : Prop where
  numeral : RealNumeral (R.print value)
  short : (R.print value).length < 30
  scan : R.scan (R.print value) = some value

theorem printReal_of_printable {R : RealText} {value : UInt64} (h : PrintableReal R value) :
    printReal R value = some (R.print value) := by
  have hblank : ∀ c ∈ R.print value, decide (c ≠ 0x20) = true := by
    intro c hc
    have hnumber := h.numeral.characters.1 c hc
    rw [decide_eq_true_eq]
    rintro rfl
    exact absurd hnumber (by decide)
  have htake : (R.print value ++ List.replicate (25 - (R.print value).length) 0x20).takeWhile
      (· ≠ 0x20) = R.print value := by
    rw [List.takeWhile_append_of_pos hblank]
    cases 25 - (R.print value).length with
    | zero => exact List.append_nil _
    | succ n => rw [List.replicate_succ, List.takeWhile_cons_of_neg (by decide), List.append_nil]
  have hshort := h.short
  simp only [printReal, htake]
  rw [if_pos]
  rw [List.length_append, List.length_replicate]
  omega

/-! ## Items -/

mutual

/-- What is printed as a text of the item: the keys of maps are strings, and no item is
missing. -/
def ItemRoot.Printable (R : RealText) : ItemRoot → Prop
  | .map items => PairsPrintable R items
  | .array items => AllPrintable R items
  | .real value => PrintableReal R value
  | .string characters => PrintableString characters
  | .null => False
  | _ => True

def PairsPrintable (R : RealText) : List ItemRoot → Prop
  | [] => True
  | [_] => False
  | key :: value :: items =>
      (∃ characters, key = .string characters ∧ PrintableString characters) ∧ value.Printable R ∧
        PairsPrintable R items

def AllPrintable (R : RealText) : List ItemRoot → Prop
  | [] => True
  | item :: items => item.Printable R ∧ AllPrintable R items

end

theorem space_newLine (tabs : Nat) : Space (newLine tabs) := by
  intro c hc
  rcases List.mem_cons.mp hc with rfl | hc
  · rfl
  · rw [(List.mem_replicate.mp hc).2]
    rfl

section

variable {R : RealText}

mutual

/-- An item is printed as a text of it. -/
theorem item32jsonFile_of_printable {item : ItemRoot} (h : item.Printable R) (tabs : Nat) :
    ∃ text, item32jsonFile R tabs item = some text ∧ JsonText R .item text [item] := by
  cases item with
  | map items =>
      by_cases hne : items = []
      · rw [hne]
        exact ⟨_, rfl, .emptyMap (space_newLine tabs)⟩
      · obtain ⟨bs, hprint, htext⟩ := printPairs_of_printable h hne (tabs + 1) tabs true
        refine ⟨_, ?_, .map htext⟩
        rw [item32jsonFile, hprint]
        simp
  | array items =>
      by_cases hne : items = []
      · rw [hne]
        exact ⟨_, rfl, .emptyArray (space_newLine tabs)⟩
      · obtain ⟨bs, hprint, htext⟩ := printElements_of_printable h hne (tabs + 1) tabs true
        refine ⟨_, ?_, .array htext⟩
        rw [item32jsonFile, hprint]
        simp
  | nil => exact ⟨_, rfl, .nil⟩
  | true_ => exact ⟨_, rfl, .true_⟩
  | false_ => exact ⟨_, rfl, .false_⟩
  | integer value =>
      obtain ⟨htext, hlen⟩ := printInteger_text value
      exact ⟨_, rfl, .integer htext hlen⟩
  | real value =>
      have hlen := h.short
      exact ⟨_, printReal_of_printable h, .real h.numeral (by omega) h.scan⟩
  | string characters =>
      obtain ⟨text, hprint, htext⟩ := printCharacters_of_printable h
      refine ⟨_, ?_, .string htext⟩
      rw [item32jsonFile, hprint]
      rfl
  | null => exact h.elim

/-- The associations of a map, with a comma in front unless they are the first ones; the
line feed behind them is the one in front of the closing bracket. -/
theorem printPairs_of_printable {items : List ItemRoot} (h : PairsPrintable R items)
    (hne : items ≠ []) (tabs outer : Nat) (first : Bool) :
    ∃ bs, printPairs R tabs first items = some ((if first then [] else [0x2c]) ++ bs) ∧
      JsonText R .members (bs ++ newLine outer) items := by
  cases items with
  | nil => exact absurd rfl hne
  | cons key items =>
      cases items with
      | nil => exact h.elim
      | cons value items =>
          obtain ⟨⟨characters, rfl, hkey⟩, hvalue, hitems⟩ := h
          obtain ⟨k, hprint, hk⟩ := printCharacters_of_printable hkey
          obtain ⟨v, hprint', hv⟩ := item32jsonFile_of_printable hvalue tabs
          have hnone : Space [] := fun c hc => absurd hc List.not_mem_nil
          have hblank : Space [0x20] := fun c hc => by rw [List.mem_singleton.mp hc]; rfl
          by_cases hlast : items = []
          · refine ⟨newLine tabs ++ (0x22 :: (k ++ 0x22 :: 0x3a :: 0x20 :: v)), ?_, ?_⟩
            · rw [hlast, printPairs, item32jsonFile, hprint, hprint', printPairs]
              simp
            · have htext := JsonText.members (space_newLine tabs) hk hnone hblank hv
                (space_newLine outer) .noMembers
              rw [hlast]
              simpa using htext
          · obtain ⟨bs, hmore, htext⟩ := printPairs_of_printable hitems hlast tabs outer false
            refine ⟨newLine tabs ++ (0x22 :: (k ++ 0x22 :: 0x3a :: 0x20 :: (v ++ 0x2c :: bs))),
              ?_, ?_⟩
            · rw [printPairs, item32jsonFile, hprint, hprint', hmore]
              simp
            · have htext := JsonText.members (space_newLine tabs) hk hnone hblank hv hnone
                (.moreMembers htext)
              simpa using htext

/-- The items of an array. -/
theorem printElements_of_printable {items : List ItemRoot} (h : AllPrintable R items)
    (hne : items ≠ []) (tabs outer : Nat) (first : Bool) :
    ∃ bs, printElements R tabs first items = some ((if first then [] else [0x2c]) ++ bs) ∧
      JsonText R .elements (bs ++ newLine outer) items := by
  cases items with
  | nil => exact absurd rfl hne
  | cons item items =>
      obtain ⟨t, hprint, ht⟩ := item32jsonFile_of_printable h.1 tabs
      have hnone : Space [] := fun c hc => absurd hc List.not_mem_nil
      by_cases hlast : items = []
      · refine ⟨newLine tabs ++ t, ?_, ?_⟩
        · rw [hlast, printElements, hprint, printElements]
          simp
        · have htext := JsonText.elements (space_newLine tabs) ht (space_newLine outer) .noElements
          rw [hlast]
          simpa using htext
      · obtain ⟨bs, hmore, htext⟩ := printElements_of_printable h.2 hlast tabs outer false
        refine ⟨newLine tabs ++ (t ++ 0x2c :: bs), ?_, ?_⟩
        · rw [printElements, hprint, hmore]
          simp
        · have htext := JsonText.elements (space_newLine tabs) ht hnone (.moreElements htext)
          simpa using htext

end

/-- The file that is written for an item is a JSON file with that item. -/
theorem item32JsonFile_of_printable {item : ItemRoot} (h : item.Printable R) :
    ∃ file, item32JsonFile R item = some file ∧ JsonFile R file item := by
  obtain ⟨text, hprint, htext⟩ := item32jsonFile_of_printable h 0
  refine ⟨text ++ [0x0a], by rw [item32JsonFile, hprint], [], text, [0x0a], rfl,
    fun c hc => absurd hc List.not_mem_nil, htext, fun c hc => ?_⟩
  rw [List.mem_singleton.mp hc]
  rfl

end

end CWPack.Example
