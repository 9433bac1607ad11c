/-
  Example/JsonText.lean --- the texts an item can have, and what the parser makes of
  their words.

  The grammar is that of JSON, with three differences.  The carriage return is no
  white space, numbers may begin with zeros and have 99 characters at most, and a
  `\u` stands for a character of its own, never for half of one.

  An item is the value of its text; the characters of a string are in UTF-8.
-/
import Mathlib.Data.List.DropRight
import CWPack.Foundation.Utf8
import CWPack.Example.Json

set_option autoImplicit false

namespace CWPack.Example

open CWPack.Foundation

/-! ## Words -/

/-- White space. -/
def Space (text : List UInt8) : Prop := ∀ c ∈ text, isBlank c = true

/-- One digit or more. -/
def Digits (text : List UInt8) : Prop := text ≠ [] ∧ ∀ c ∈ text, isDigit 10 c = true

/-- An integer, a sign in front if it is negative. -/
inductive IntegerText : List UInt8 → Int64 → Prop where
  | positive {digits : List UInt8} {value : Int64} (h : Digits digits)
      (hvalue : value.toInt = numeralValue 10 digits) : IntegerText digits value
  | negative {digits : List UInt8} {value : Int64} (h : Digits digits)
      (hvalue : value.toInt = -numeralValue 10 digits) : IntegerText (0x2d :: digits) value

/-- A number with a fraction or an exponent. -/
structure RealNumeral (text : List UInt8) : Prop where
  parts : ∃ minus whole fraction exponent, text = minus ++ (whole ++ (fraction ++ exponent)) ∧
    (minus = [] ∨ minus = [0x2d]) ∧ Digits whole ∧
    (fraction = [] ∨ ∃ digits, fraction = 0x2e :: digits ∧ Digits digits) ∧
    (exponent = [] ∨ ∃ e sign digits, exponent = e :: (sign ++ digits) ∧ (e = 0x65 ∨ e = 0x45) ∧
      (sign = [] ∨ sign = [0x2b] ∨ sign = [0x2d]) ∧ Digits digits) ∧
    (fraction ≠ [] ∨ exponent ≠ [])

/-- The characters that stand for others behind a backslash. -/
def escapes : List (UInt8 × UInt8) :=
  [(0x22, 0x22), (0x5c, 0x5c), (0x2f, 0x2f), (0x62, 0x08), (0x66, 0x0c), (0x6e, 0x0a),
    (0x72, 0x0d), (0x74, 0x09)]

/-- What stands between quotes for some characters. -/
inductive StringText : List UInt8 → List UInt8 → Prop where
  | done : StringText [] []
  | plain {c : UInt8} {text characters : List UInt8} (hc : 0x20 ≤ c ∧ c ≠ 0x22 ∧ c ≠ 0x5c)
      (hrest : StringText text characters) : StringText (c :: text) (c :: characters)
  | escape {letter code : UInt8} {text characters : List UInt8} (h : (letter, code) ∈ escapes)
      (hrest : StringText text characters) :
      StringText (0x5c :: letter :: text) (code :: characters)
  | unicode {hex text characters : List UInt8} {u : Char} (hlen : hex.length = 4)
      (hhex : ∀ c ∈ hex, isDigit 16 c = true) (hu : u.toNat = numeralValue 16 hex)
      (hrest : StringText text characters) :
      StringText (0x5c :: 0x75 :: (hex ++ text)) (String.utf8EncodeChar u ++ characters)

/-! ## Texts -/

/-- What a text is: an item, the items of an array or the keys and values of a map, or what
follows the first of these. -/
inductive Kind where
  | item
  | elements
  | moreElements
  | members
  | moreMembers

/-- The text has the items. -/
inductive JsonText (R : RealText) : Kind → List UInt8 → List ItemRoot → Prop where
  | nil : JsonText R .item [0x6e, 0x75, 0x6c, 0x6c] [.nil]
  | true_ : JsonText R .item [0x74, 0x72, 0x75, 0x65] [.true_]
  | false_ : JsonText R .item [0x66, 0x61, 0x6c, 0x73, 0x65] [.false_]
  | integer {text : List UInt8} {value : Int64} (h : IntegerText text value)
      (hlen : text.length < 100) : JsonText R .item text [.integer value]
  | real {text : List UInt8} {value : UInt64} (h : RealNumeral text) (hlen : text.length < 100)
      (hscan : R.scan text = some value) : JsonText R .item text [.real value]
  | string {text characters : List UInt8} (h : StringText text characters) :
      JsonText R .item (0x22 :: (text ++ [0x22])) [.string characters]
  | emptyArray {s : List UInt8} (h : Space s) : JsonText R .item (0x5b :: (s ++ [0x5d])) [.array []]
  | array {text : List UInt8} {items : List ItemRoot} (h : JsonText R .elements text items) :
      JsonText R .item (0x5b :: (text ++ [0x5d])) [.array items]
  | emptyMap {s : List UInt8} (h : Space s) : JsonText R .item (0x7b :: (s ++ [0x7d])) [.map []]
  | map {text : List UInt8} {items : List ItemRoot} (h : JsonText R .members text items) :
      JsonText R .item (0x7b :: (text ++ [0x7d])) [.map items]
  | elements {s text s' more : List UInt8} {item : ItemRoot} {items : List ItemRoot} (hs : Space s)
      (h : JsonText R .item text [item]) (hs' : Space s')
      (hmore : JsonText R .moreElements more items) :
      JsonText R .elements (s ++ (text ++ (s' ++ more))) (item :: items)
  | noElements : JsonText R .moreElements [] []
  | moreElements {text : List UInt8} {items : List ItemRoot} (h : JsonText R .elements text items) :
      JsonText R .moreElements (0x2c :: text) items
  | members {s key characters s₁ s₂ text s' more : List UInt8} {value : ItemRoot}
      {items : List ItemRoot} (hs : Space s) (hkey : StringText key characters) (hs₁ : Space s₁)
      (hs₂ : Space s₂) (h : JsonText R .item text [value]) (hs' : Space s')
      (hmore : JsonText R .moreMembers more items) :
      JsonText R .members
        (s ++ (0x22 :: (key ++ 0x22 :: (s₁ ++ 0x3a :: (s₂ ++ (text ++ (s' ++ more)))))))
        (.string characters :: value :: items)
  | noMembers : JsonText R .moreMembers [] []
  | moreMembers {text : List UInt8} {items : List ItemRoot} (h : JsonText R .members text items) :
      JsonText R .moreMembers (0x2c :: text) items

/-- A file with one item, and white space around it. -/
def JsonFile (R : RealText) (file : List UInt8) (item : ItemRoot) : Prop :=
  ∃ s text s', file = s ++ (text ++ s') ∧ Space s ∧ JsonText R .item text [item] ∧ Space s'

/-! ## White space -/

theorem scanSpace_append {s : List UInt8} (hs : Space s) (text : List UInt8) :
    scanSpace (s ++ text) = scanSpace text :=
  List.dropWhile_append_of_pos hs

theorem scanSpace_cons {c : UInt8} (hc : isBlank c = false) (text : List UInt8) :
    scanSpace (c :: text) = c :: text :=
  List.dropWhile_cons_of_neg (by rw [hc]; exact Bool.false_ne_true)

theorem scanSpace_idem (text : List UInt8) : scanSpace (scanSpace text) = scanSpace text :=
  List.dropWhile_idempotent _ _

/-! ## Strings -/

/-- A hexadecimal digit is no white space, no sign, and no `x`. -/
theorem of_isDigit_sixteen {c : UInt8} (h : isDigit 16 c = true) :
    isSpace c = false ∧ c ≠ 0x2d ∧ c ≠ 0x2b ∧ c ≠ 0x78 ∧ c ≠ 0x58 := by
  have h := isDigit_iff.mp h
  simp only [isSpace, ne_eq, ← UInt8.toNat_inj, UInt8.le_iff_toNat_le, UInt8.reduceToNat,
    Bool.or_eq_false_iff, Bool.and_eq_false_iff, decide_eq_false_iff_not]
  omega

/-- Four hexadecimal digits are read. -/
theorem scanHex4_of_digits {hex : List UInt8} (hlen : hex.length = 4)
    (hhex : ∀ c ∈ hex, isDigit 16 c = true) (text : List UInt8) :
    scanHex4 (hex ++ text) = some (.ofNat (numeralValue 16 hex)) := by
  obtain ⟨d₁, hex, rfl⟩ := List.exists_cons_of_length_eq_add_one hlen
  obtain ⟨hspace, hminus, hplus, -, -⟩ := of_isDigit_sixteen (hhex d₁ List.mem_cons_self)
  have hdrop : (d₁ :: hex ++ text).dropWhile isSpace = d₁ :: hex ++ text :=
    List.dropWhile_cons_of_neg (by rw [hspace]; exact Bool.false_ne_true)
  have hfield : (d₁ :: hex ++ text).take 4 = d₁ :: hex := by
    rw [← hlen]
    exact List.take_left
  have hprefix : ¬ ((d₁ :: hex).take 2 = [0x30, 0x78] ∨ (d₁ :: hex).take 2 = [0x30, 0x58]) := by
    obtain ⟨d₂, hex, rfl⟩ := List.exists_cons_of_length_eq_add_one (Nat.succ.inj hlen)
    obtain ⟨-, -, -, hx, hX⟩ := of_isDigit_sixteen (hhex d₂ (by simp))
    simp [hx, hX]
  have hall : (d₁ :: hex).takeWhile (isDigit 16) = d₁ :: hex := List.takeWhile_eq_self_iff.mpr hhex
  have hhead : ¬ ((d₁ :: hex).head? = some 0x2d ∨ (d₁ :: hex).head? = some 0x2b) := by
    simp [hminus, hplus]
  simp only [scanHex4, hdrop, hfield, if_neg hhead, if_neg hprefix, hall]
  rw [if_neg (List.cons_ne_nil _ _), if_neg fun h => hhead (Or.inl h)]

/-- What a `\u` stands for is stored in UTF-8. -/
theorem unicodeBytes_ofNat {u : Char} (h : u.toNat < 2 ^ 16) :
    unicodeBytes (.ofNat u.toNat) = String.utf8EncodeChar u := by
  have hval : UInt32.ofNat u.toNat = u.val := UInt32.ofNat_toNat
  have hnat : u.val.toNat = u.toNat := rfl
  have hsix : (u.val >>> 6).toNat = u.toNat / 64 := toNat_shiftRight_six u.val
  have hseven : u.val &&& 0xff80 = 0 ↔ u.toNat < 2 ^ 7 := by
    rw [← and_highBits_eq_zero_iff h (by decide : 7 ≤ 16), ← UInt32.toNat_inj, UInt32.toNat_and]
    rfl
  have heleven : u.val &&& 0xf800 = 0 ↔ u.toNat < 2 ^ 11 := by
    rw [← and_highBits_eq_zero_iff h (by decide : 11 ≤ 16), ← UInt32.toNat_inj, UInt32.toNat_and]
    rfl
  rw [hval, unicodeBytes]
  by_cases hone : u.toNat < 2 ^ 7
  · rw [if_neg (not_not_intro (hseven.mpr hone)), utf8EncodeChar_one hone, storeCodepoint,
      UInt32.or_zero]
    rfl
  · rw [if_pos fun hzero => hone (hseven.mp hzero)]
    by_cases htwo : u.toNat < 2 ^ 11
    · rw [if_neg (not_not_intro (heleven.mpr htwo)),
        utf8EncodeChar_two (Nat.le_of_not_lt hone) htwo, storeCodepoint, storeCodepoint,
        continuation, firstOfTwo (by omega), hsix, hnat]
      rfl
    · rw [if_pos fun hzero => htwo (heleven.mp hzero),
        utf8EncodeChar_three (Nat.le_of_not_lt htwo) h, storeCodepoint, storeCodepoint,
        storeCodepoint, continuation, continuation,
        firstOfThree (by rw [toNat_shiftRight_six]; omega), toNat_shiftRight_six, hsix, hnat]
      rfl

theorem pullString_quote (ptr : List UInt8) : pullString (0x22 :: ptr) = some ([], ptr) := by
  cases ptr <;> simp [pullString]

/-- A character that is read goes in front of those that follow. -/
theorem pullString_cons {ptr characters left : List UInt8}
    (h : pullString ptr = some (characters, left)) :
    (∀ c, c ≠ 0x22 → c ≠ 0x5c → pullString (c :: ptr) = some (c :: characters, left)) ∧
      (∀ c, c ≠ 0x75 → pullString (0x5c :: c :: ptr) = some (escapeCode c :: characters, left)) ∧
      ∀ d₁ d₂ d₃ d₄, pullString (0x5c :: 0x75 :: d₁ :: d₂ :: d₃ :: d₄ :: ptr) =
        some (unicodeBytes ((scanHex4 (d₁ :: d₂ :: d₃ :: d₄ :: ptr)).getD 0x5c) ++ characters,
          left) := by
  refine ⟨fun c hquote hback => ?_, fun c hu => ?_, fun d₁ d₂ d₃ d₄ => ?_⟩
  · cases ptr with
    | nil => simp [pullString] at h
    | cons d ptr => rw [pullString, if_neg hquote, if_neg hback, h]
  · rw [pullString, if_neg (by decide), if_pos rfl, if_neg hu, h]
  · rw [pullString, if_neg (by decide), if_pos rfl, if_pos rfl]
    simp only [h]

/-- A string is read up to the quote behind it. -/
theorem pullString_of_stringText {text characters : List UInt8} (h : StringText text characters)
    (rest : List UInt8) : pullString (text ++ 0x22 :: rest) = some (characters, rest) := by
  induction h with
  | done => exact pullString_quote rest
  | @plain c text characters hc _ ih => exact (pullString_cons ih).1 c hc.2.1 hc.2.2
  | @escape letter code text characters hmem _ ih =>
      have hletter : letter ≠ 0x75 ∧ escapeCode letter = code := by
        simp only [escapes, List.mem_cons, Prod.mk.injEq, List.not_mem_nil, or_false] at hmem
        rcases hmem with ⟨rfl, rfl⟩ | ⟨rfl, rfl⟩ | ⟨rfl, rfl⟩ | ⟨rfl, rfl⟩ | ⟨rfl, rfl⟩ | ⟨rfl, rfl⟩ |
          ⟨rfl, rfl⟩ | ⟨rfl, rfl⟩ <;> decide
      rw [← hletter.2]
      exact (pullString_cons ih).2.1 letter hletter.1
  | @unicode hex text characters u hlen hhex hu _ ih =>
      have hlt := numeralValue_lt hhex
      rw [hlen, ← hu] at hlt
      have hscan := scanHex4_of_digits hlen hhex (text ++ 0x22 :: rest)
      rw [← hu] at hscan
      obtain ⟨d₁, d₂, d₃, d₄, rfl⟩ := List.length_eq_four.mp hlen
      have hpull := (pullString_cons ih).2.2 d₁ d₂ d₃ d₄
      simp only [List.cons_append, List.nil_append] at hscan ⊢
      rw [hpull, hscan, Option.getD_some, unicodeBytes_ofNat hlt]

/-! ## Numbers -/

/-- A character that ends a number. -/
def Follows (rest : List UInt8) : Prop := ∃ c text, rest = c :: text ∧ isNumberCharacter c = false

/-- A decimal digit is no white space, no sign, no point and no `e`. -/
theorem of_isDigit_ten {c : UInt8} (h : isDigit 10 c = true) :
    isNumberCharacter c = true ∧ isSpace c = false ∧ c ≠ 0x2d ∧ c ≠ 0x2b ∧
      (c = 0x2e || c = 0x65 || c = 0x45) = false ∧ 0x30 ≤ c ∧ c ≤ 0x39 := by
  have h := isDigit_iff.mp h
  simp only [isNumberCharacter, isSpace, ne_eq, ← UInt8.toNat_inj, UInt8.le_iff_toNat_le,
    UInt8.reduceToNat, Bool.or_eq_false_iff, Bool.or_eq_true, Bool.and_eq_true,
    Bool.and_eq_false_iff, decide_eq_false_iff_not, decide_eq_true_eq]
  omega

/-- All of a number is collected, and the rest is left. -/
theorem pullNumber_append (R : RealText) {text rest : List UInt8}
    (h : ∀ c ∈ text, isNumberCharacter c = true) (hlen : text.length < 100) (hrest : Follows rest) :
    pullNumber R (text ++ rest) =
      if text.any (fun c => c = 0x2e || c = 0x65 || c = 0x45) then
        match R.scan text with
        | none => none
        | some d => some (.real d, rest)
      else
        match scanLong text with
        | none => none
        | some d => some (.integer d, rest) := by
  obtain ⟨c, rest, rfl, hc⟩ := hrest
  have hneg : ¬ isNumberCharacter c = true := by
    rw [hc]
    exact Bool.false_ne_true
  have htake : (text ++ c :: rest).takeWhile isNumberCharacter = text := by
    rw [List.takeWhile_append_of_pos h, List.takeWhile_cons_of_neg hneg, List.append_nil]
  have hdrop : (text ++ c :: rest).dropWhile isNumberCharacter = c :: rest := by
    rw [List.dropWhile_append_of_pos h, List.dropWhile_cons_of_neg hneg]
  simp only [pullNumber, htake, hdrop]
  exact if_neg (by simp; omega)

/-- An integer is scanned as what it stands for. -/
theorem scanLong_of_integerText {text : List UInt8} {value : Int64} (h : IntegerText text value) :
    scanLong text = some value := by
  have hvalue : value = .ofInt value.toInt := (Int64.ofInt_toInt value).symm
  have hnearest : max (-2 ^ 63) (min value.toInt (2 ^ 63 - 1)) = value.toInt := by
    have hlo := value.le_toInt
    have hhi := value.toInt_lt
    omega
  cases h with
  | @positive digits value hdigits hv =>
      obtain ⟨hne, hall⟩ := hdigits
      obtain ⟨c, digits, rfl⟩ := List.exists_cons_of_ne_nil hne
      obtain ⟨-, hspace, hminus, hplus, -⟩ := of_isDigit_ten (hall c List.mem_cons_self)
      have hdrop : (c :: digits).dropWhile isSpace = c :: digits :=
        List.dropWhile_cons_of_neg (by rw [hspace]; exact Bool.false_ne_true)
      have htake : (c :: digits).takeWhile (isDigit 10) = c :: digits :=
        List.takeWhile_eq_self_iff.mpr hall
      have hhead : (c :: digits).head? ≠ some 0x2d := by simpa using hminus
      have hhead' : (c :: digits).head? ≠ some 0x2b := by simpa using hplus
      simp only [scanLong, hdrop, hhead, hhead', or_self, if_false, htake, ← hv]
      rw [if_neg (List.cons_ne_nil _ _), hnearest, ← hvalue]
  | @negative digits value hdigits hv =>
      obtain ⟨hne, hall⟩ := hdigits
      have htake : digits.takeWhile (isDigit 10) = digits := List.takeWhile_eq_self_iff.mpr hall
      have hdrop : (0x2d :: digits).dropWhile isSpace = 0x2d :: digits := rfl
      simp only [scanLong, hdrop, List.head?_cons, true_or, if_true, List.drop_one, List.tail_cons,
        htake, ← hv]
      rw [if_neg hne, hnearest, ← hvalue]

theorem pullNumber_of_integerText (R : RealText) {text rest : List UInt8} {value : Int64}
    (h : IntegerText text value) (hlen : text.length < 100) (hrest : Follows rest) :
    pullNumber R (text ++ rest) = some (.integer value, rest) := by
  have hchars : ∀ c ∈ text, isNumberCharacter c = true ∧
      (c = 0x2e || c = 0x65 || c = 0x45) = false := by
    intro c hc
    cases h with
    | positive hdigits _ =>
        obtain ⟨hnumber, -, -, -, hreal, -⟩ := of_isDigit_ten (hdigits.2 c hc)
        exact ⟨hnumber, hreal⟩
    | negative hdigits _ =>
        rcases List.mem_cons.mp hc with rfl | hc
        · exact ⟨rfl, rfl⟩
        · obtain ⟨hnumber, -, -, -, hreal, -⟩ := of_isDigit_ten (hdigits.2 c hc)
          exact ⟨hnumber, hreal⟩
  rw [pullNumber_append R (fun c hc => (hchars c hc).1) hlen hrest, if_neg,
    scanLong_of_integerText h]
  rw [List.any_eq_true]
  rintro ⟨c, hc, hreal⟩
  rw [(hchars c hc).2] at hreal
  exact Bool.false_ne_true hreal

/-- A numeral of a double is made of the characters of numbers, with a point or an `e`. -/
theorem RealNumeral.characters {text : List UInt8} (h : RealNumeral text) :
    (∀ c ∈ text, isNumberCharacter c = true) ∧
      text.any (fun c => c = 0x2e || c = 0x65 || c = 0x45) = true := by
  obtain ⟨minus, whole, fraction, exponent, rfl, hminus, hwhole, hfraction, hexponent, hone⟩ :=
    h.parts
  have hdigits : ∀ {digits : List UInt8}, Digits digits → ∀ c ∈ digits, isNumberCharacter c = true :=
    fun h c hc => (of_isDigit_ten (h.2 c hc)).1
  have hminus' : ∀ c ∈ minus, isNumberCharacter c = true := by
    rcases hminus with rfl | rfl <;> exact List.all_eq_true.mp rfl
  have hfraction' : (∀ c ∈ fraction, isNumberCharacter c = true) ∧
      (fraction ≠ [] → (0x2e : UInt8) ∈ fraction) := by
    rcases hfraction with rfl | ⟨digits, rfl, hds⟩
    · exact ⟨fun c hc => absurd hc List.not_mem_nil, fun h => absurd rfl h⟩
    · refine ⟨fun c hc => ?_, fun _ => List.mem_cons_self⟩
      rcases List.mem_cons.mp hc with rfl | hc
      · rfl
      · exact hdigits hds c hc
  have hexponent' : (∀ c ∈ exponent, isNumberCharacter c = true) ∧
      (exponent ≠ [] → (0x65 : UInt8) ∈ exponent ∨ (0x45 : UInt8) ∈ exponent) := by
    rcases hexponent with rfl | ⟨e, sign, digits, rfl, he, hsign, hds⟩
    · exact ⟨fun c hc => absurd hc List.not_mem_nil, fun h => absurd rfl h⟩
    · have hsign' : ∀ c ∈ sign, isNumberCharacter c = true := by
        rcases hsign with rfl | rfl | rfl <;> exact List.all_eq_true.mp rfl
      refine ⟨fun c hc => ?_, fun _ => ?_⟩
      · rcases List.mem_cons.mp hc with rfl | hc
        · rcases he with rfl | rfl <;> rfl
        · rcases List.mem_append.mp hc with hc | hc
          · exact hsign' c hc
          · exact hdigits hds c hc
      · rcases he with rfl | rfl
        · exact Or.inl List.mem_cons_self
        · exact Or.inr List.mem_cons_self
  constructor
  · intro c hc
    simp only [List.mem_append] at hc
    rcases hc with hc | hc | hc | hc
    · exact hminus' c hc
    · exact hdigits hwhole c hc
    · exact hfraction'.1 c hc
    · exact hexponent'.1 c hc
  · rw [List.any_eq_true]
    rcases hone with hne | hne
    · exact ⟨0x2e, by simp [hfraction'.2 hne], rfl⟩
    · rcases hexponent'.2 hne with hmem | hmem
      · exact ⟨0x65, by simp [hmem], rfl⟩
      · exact ⟨0x45, by simp [hmem], rfl⟩

theorem pullNumber_of_realNumeral {R : RealText} {text rest : List UInt8} {value : UInt64}
    (h : RealNumeral text) (hlen : text.length < 100) (hscan : R.scan text = some value)
    (hrest : Follows rest) : pullNumber R (text ++ rest) = some (.real value, rest) := by
  rw [pullNumber_append R h.characters.1 hlen hrest, if_pos h.characters.2, hscan]

/-- A number begins with a digit or a minus. -/
theorem head_of_digits {minus digits : List UInt8} (hminus : minus = [] ∨ minus = [0x2d])
    (hdigits : Digits digits) (rest : List UInt8) : ∃ c text, minus ++ (digits ++ rest) = c :: text ∧
      (c = 0x2d ∨ (0x30 ≤ c ∧ c ≤ 0x39)) := by
  rcases hminus with rfl | rfl
  · obtain ⟨c, digits, rfl⟩ := List.exists_cons_of_ne_nil hdigits.1
    obtain ⟨-, -, -, -, -, hrange⟩ := of_isDigit_ten (hdigits.2 c List.mem_cons_self)
    exact ⟨c, digits ++ rest, rfl, Or.inr hrange⟩
  · exact ⟨0x2d, digits ++ rest, rfl, Or.inl rfl⟩

theorem IntegerText.head {text : List UInt8} {value : Int64} (h : IntegerText text value) :
    ∃ c rest, text = c :: rest ∧ (c = 0x2d ∨ (0x30 ≤ c ∧ c ≤ 0x39)) := by
  cases h with
  | positive hdigits _ =>
      have hhead := head_of_digits (Or.inl rfl) hdigits []
      rwa [List.nil_append, List.append_nil] at hhead
  | @negative digits _ _ _ => exact ⟨0x2d, digits, rfl, Or.inl rfl⟩

theorem RealNumeral.head {text : List UInt8} (h : RealNumeral text) :
    ∃ c rest, text = c :: rest ∧ (c = 0x2d ∨ (0x30 ≤ c ∧ c ≤ 0x39)) := by
  obtain ⟨minus, whole, fraction, exponent, rfl, hminus, hwhole, -⟩ := h.parts
  exact head_of_digits hminus hwhole _

end CWPack.Example
