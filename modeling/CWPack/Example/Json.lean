/-
  Example/Json.lean --- the JSON half of `src/example/item.c`.

  The text that is parsed is the contents of the file and the NUL behind them; a
  parser gets what is left of it and returns what it leaves.  Nothing is checked,
  so a text that is no JSON is read as something or other.  A read behind the NUL
  is not defined: `none`.

  The parser recurses from item to item also along a container, so `fuel` bounds
  the nesting and the lengths together.  What `printf` and `scanf` do with doubles
  is a parameter; integers and strings are here.
-/
import CWPack.Foundation.Numeral
import CWPack.Example.Item

set_option autoImplicit false

namespace CWPack.Example

open CWPack.Foundation

/-- What the C library does with the texts of doubles. -/
structure RealText where
  /-- What `"%.15g"` prints. -/
  print : UInt64 → List UInt8
  /-- What `"%lg"` assigns, if anything. -/
  scan : List UInt8 → Option UInt64

/-! ## Item tree to JSON file -/

/-- `NEW_LINE` -/
def newLine (tabs : Nat) : List UInt8 := 0x0a :: List.replicate tabs 0x09

/-- `fprintf (file, "%lld", ...)` -/
def printInteger (value : Int64) : List UInt8 :=
  if value.toInt < 0 then 0x2d :: numeral 10 value.toInt.natAbs
  else numeral 10 value.toInt.natAbs

/-- `sprintf (tmp, "%-25.15g", ...)`, up to the first blank. -/
def printReal (R : RealText) (value : UInt64) : Option (List UInt8) :=
  let tmp := R.print value ++ List.replicate (25 - (R.print value).length) 0x20
  if tmp.length < 30 then some (tmp.takeWhile (· ≠ 0x20)) else none

/-- `(u << 6) | (*cp++ & 0x3f)` -/
def joinSix (u : UInt32) (c : UInt8) : UInt32 := u <<< 6 ||| (c &&& 0x3f).toUInt32

/-- `fprintf (file, "\\u%04x", u)` -/
def unicodeEscape (u : UInt32) : List UInt8 := 0x5c :: 0x75 :: paddedNumeral 16 4 u.toNat

/-- What is printed for a character of seven bits. -/
def escaped (c : UInt8) : List UInt8 :=
  if c = 0x22 then [0x5c, 0x22]
  else if c = 0x2f then [0x5c, 0x2f]
  else if c = 0x5c then [0x5c, 0x5c]
  else if c = 0x08 then [0x5c, 0x62]
  else if c = 0x09 then [0x5c, 0x74]
  else if c = 0x0a then [0x5c, 0x6e]
  else if c = 0x0c then [0x5c, 0x66]
  else if c = 0x0d then [0x5c, 0x72]
  else [c]

/-- `while ((c = *cp++))`, over the characters and the NUL behind them.  The bytes that
continue a character are not checked, and may run past that NUL. -/
def printCharacters : List UInt8 → Option (List UInt8)
  | [] => none
  | c :: cp =>
      if c = 0 then some []
      else if c &&& 0x80 ≠ 0 then
        if c &&& 0x20 ≠ 0 then
          match cp with
          | c₁ :: c₂ :: cp =>
              match printCharacters cp with
              | none => none
              | some bs =>
                  some (unicodeEscape (joinSix (joinSix (c &&& 0x0f).toUInt32 c₁) c₂) ++ bs)
          | _ => none
        else
          match cp with
          | c₁ :: cp =>
              match printCharacters cp with
              | none => none
              | some bs => some (unicodeEscape (joinSix (c &&& 0x1f).toUInt32 c₁) ++ bs)
          | _ => none
      else
        match printCharacters cp with
        | none => none
        | some bs => some (escaped c ++ bs)

mutual

/-- `item32jsonFile`, with the static `tabs` as an argument. -/
def item32jsonFile (R : RealText) (tabs : Nat) : ItemRoot → Option (List UInt8)
  | .map items =>
      match printPairs R (tabs + 1) true items with
      | none => none
      | some bs => some ([0x7b] ++ bs ++ newLine tabs ++ [0x7d])
  | .array items =>
      match printElements R (tabs + 1) true items with
      | none => none
      | some bs => some ([0x5b] ++ bs ++ newLine tabs ++ [0x5d])
  | .nil => some [0x6e, 0x75, 0x6c, 0x6c]
  | .true_ => some [0x74, 0x72, 0x75, 0x65]
  | .false_ => some [0x66, 0x61, 0x6c, 0x73, 0x65]
  | .integer value => some (printInteger value)
  | .real value => printReal R value
  | .string characters =>
      match printCharacters (characters ++ [0]) with
      | none => none
      | some bs => some ([0x22] ++ bs ++ [0x22])
  | .null => none

/-- The loop over the associations; a key without a value is followed by a read behind the
container. -/
def printPairs (R : RealText) (tabs : Nat) (first : Bool) : List ItemRoot → Option (List UInt8)
  | [] => some []
  | [_] => none
  | key :: value :: items =>
      match item32jsonFile R tabs key, item32jsonFile R tabs value,
          printPairs R tabs false items with
      | some k, some v, some bs =>
          some ((if first then [] else [0x2c]) ++ newLine tabs ++ k ++ [0x3a, 0x20] ++ v ++ bs)
      | _, _, _ => none

/-- The loop over the items of an array. -/
def printElements (R : RealText) (tabs : Nat) (first : Bool) : List ItemRoot → Option (List UInt8)
  | [] => some []
  | item :: items =>
      match item32jsonFile R tabs item, printElements R tabs false items with
      | some t, some bs => some ((if first then [] else [0x2c]) ++ newLine tabs ++ t ++ bs)
      | _, _ => none

end

/-- `item32JsonFile` -/
def item32JsonFile (R : RealText) (item : ItemRoot) : Option (List UInt8) :=
  match item32jsonFile R 0 item with
  | none => none
  | some bs => some (bs ++ [0x0a])

/-! ## JSON file to item tree -/

/-- What `scanSpace` passes over. -/
def isBlank (c : UInt8) : Bool := c = 0x20 || c = 0x0a || c = 0x09

/-- `scanSpace` -/
def scanSpace (text : List UInt8) : List UInt8 := text.dropWhile isBlank

/-- What `isspace` holds for. -/
def isSpace (c : UInt8) : Bool := c = 0x20 || (0x09 ≤ c && c ≤ 0x0d)

/-- `sscanf(*ptr,"%4x",&codepoint)`, as far as it assigns: a sign and `0x` count among the
four characters.  Of a `0x` without a digit behind it the 0 is read. -/
def scanHex4 (text : List UInt8) : Option UInt32 :=
  let field := (text.dropWhile isSpace).take 4
  let unsigned := if field.head? = some 0x2d ∨ field.head? = some 0x2b then field.drop 1 else field
  let digits :=
    if unsigned.take 2 = [0x30, 0x78] ∨ unsigned.take 2 = [0x30, 0x58] then
      if (unsigned.drop 2).takeWhile (isDigit 16) = [] then unsigned else unsigned.drop 2
    else unsigned
  let number := digits.takeWhile (isDigit 16)
  if number = [] then none
  else if field.head? = some 0x2d then some (-.ofNat (numeralValue 16 number))
  else some (.ofNat (numeralValue 16 number))

/-- The bytes that are stored for a code point: `cl` of six bits behind the first one. -/
def storeCodepoint (mask : UInt32) : Nat → UInt32 → List UInt8
  | 0, codepoint => [(codepoint ||| mask).toUInt8]
  | cl + 1, codepoint =>
      storeCodepoint mask cl (codepoint >>> 6) ++ [(codepoint &&& 0x3f ||| 0x80).toUInt8]

/-- The bytes for the code point of a `\u`. -/
def unicodeBytes (codepoint : UInt32) : List UInt8 :=
  if codepoint &&& 0xff80 ≠ 0 then
    if codepoint &&& 0xf800 ≠ 0 then storeCodepoint 0xe0 2 codepoint
    else storeCodepoint 0xc0 1 codepoint
  else storeCodepoint 0 0 codepoint

/-- What a character behind a backslash stands for, `u` apart. -/
def escapeCode (c : UInt8) : UInt8 :=
  if c = 0x62 then 0x08
  else if c = 0x74 then 0x09
  else if c = 0x6e then 0x0a
  else if c = 0x66 then 0x0c
  else if c = 0x72 then 0x0d
  else if c = 0x2f ∨ c = 0x22 then c
  else 0x5c

/-- `pullString`: the characters, and what is left behind the quote.  Four characters are
passed over behind a `\u`, whatever they are. -/
def pullString : List UInt8 → Option (List UInt8 × List UInt8)
  | [] => none
  | c :: ptr =>
      if c = 0x22 then some ([], ptr)
      else if c = 0x5c then
        match ptr with
        | [] => none
        | c :: ptr =>
            if c = 0x75 then
              let codepoint := (scanHex4 ptr).getD 0x5c
              match ptr with
              | _ :: _ :: _ :: _ :: ptr =>
                  match pullString ptr with
                  | none => none
                  | some (characters, left) => some (unicodeBytes codepoint ++ characters, left)
              | _ => none
            else
              match pullString ptr with
              | none => none
              | some (characters, left) => some (escapeCode c :: characters, left)
      else
        match pullString ptr with
        | none => none
        | some (characters, left) => some (c :: characters, left)

/-- The characters that are collected for a number. -/
def isNumberCharacter (c : UInt8) : Bool :=
  c = 0x2d || c = 0x2b || c = 0x2e || c = 0x65 || c = 0x45 || (0x30 ≤ c && c ≤ 0x39)

/-- `sscanf(buffer,"%ld",&d)`, as far as it assigns; a number that is no `long` becomes the nearest
one, as with `strtol`. -/
def scanLong (buffer : List UInt8) : Option Int64 :=
  let text := buffer.dropWhile isSpace
  let digits := if text.head? = some 0x2d ∨ text.head? = some 0x2b then text.drop 1 else text
  let number := digits.takeWhile (isDigit 10)
  let magnitude : Int := numeralValue 10 number
  let d := if text.head? = some 0x2d then -magnitude else magnitude
  if number = [] then none else some (.ofInt (max (-2 ^ 63) (min d (2 ^ 63 - 1))))

/-- The branch for numbers: `buffer` has room for 99 characters and a NUL. -/
def pullNumber (R : RealText) (text : List UInt8) : Option (ItemRoot × List UInt8) :=
  let buffer := text.takeWhile isNumberCharacter
  let ptr := text.dropWhile isNumberCharacter
  if 100 ≤ buffer.length ∨ ptr = [] then none
  else if buffer.any (fun c => c = 0x2e || c = 0x65 || c = 0x45) then
    match R.scan buffer with
    | none => none
    | some d => some (.real d, ptr)
  else
    match scanLong buffer with
    | none => none
    | some d => some (.integer d, ptr)

/-- `*ptr += n`, with the item at hand. -/
def pullLiteral (item : ItemRoot) (n : Nat) (ptr : List UInt8) : Option (ItemRoot × List UInt8) :=
  if n ≤ ptr.length then some (item, ptr.drop n) else none

/-- What is allocated once the number of items or characters, an `int`, is known. -/
def allocateItem {α : Type} (make : List α → ItemRoot) (room : Nat)
    (r : Option (List α × List UInt8)) : Option (ItemRoot × List UInt8) :=
  match r with
  | none => none
  | some (content, ptr) =>
      if content.length + room < 2 ^ 31 then some (make content, ptr) else none

/-- What `pullMapPair` and `pullArray` end with: the items at hand, and those behind a comma. -/
def pullRest (pull : List UInt8 → Option (List ItemRoot × List UInt8)) (here : List ItemRoot)
    (text : List UInt8) : Option (List ItemRoot × List UInt8) :=
  match scanSpace text with
  | [] => none
  | c :: ptr =>
      if c = 0x2c then
        match pull ptr with
        | none => none
        | some (items, ptr) => some (here ++ items, ptr)
      else some (here, ptr)

mutual

/-- `jsonString2item3`.  The bracket that closes an empty container is looked at and left. -/
def jsonString2item3 (R : RealText) : Nat → List UInt8 → Option (ItemRoot × List UInt8)
  | 0, _ => none
  | fuel + 1, text =>
      match scanSpace text with
      | [] => none
      | c :: ptr =>
          if c = 0x7b then
            match scanSpace ptr with
            | [] => none
            | c :: ptr =>
                if c = 0x7d then some (.map [], c :: ptr)
                else allocateItem .map 0 (pullMapPair R fuel (c :: ptr))
          else if c = 0x5b then
            match scanSpace ptr with
            | [] => none
            | c :: ptr =>
                if c = 0x5d then some (.array [], c :: ptr)
                else allocateItem .array 0 (pullArray R fuel (c :: ptr))
          else if c = 0x22 then allocateItem .string 1 (pullString ptr)
          else if c = 0x6e then pullLiteral .nil 3 ptr
          else if c = 0x74 then pullLiteral .true_ 3 ptr
          else if c = 0x66 then pullLiteral .false_ 4 ptr
          else if c = 0x2d ∨ (0x30 ≤ c ∧ c ≤ 0x39) then pullNumber R (c :: ptr)
          else some (.null, ptr)

/-- `pullMapPair`: the keys and values from here on, each key before its value.  What
stands between the two is passed over unseen. -/
def pullMapPair (R : RealText) : Nat → List UInt8 → Option (List ItemRoot × List UInt8)
  | 0, _ => none
  | fuel + 1, text =>
      match jsonString2item3 R fuel (scanSpace text) with
      | none => none
      | some (it1, ptr) =>
          match scanSpace ptr with
          | [] => none
          | _ :: ptr =>
              match jsonString2item3 R fuel (scanSpace ptr) with
              | none => none
              | some (it2, ptr) => pullRest (pullMapPair R fuel) [it1, it2] ptr

/-- `pullArray`: the items from here on. -/
def pullArray (R : RealText) : Nat → List UInt8 → Option (List ItemRoot × List UInt8)
  | 0, _ => none
  | fuel + 1, text =>
      match jsonString2item3 R fuel (scanSpace text) with
      | none => none
      | some (it, ptr) => pullRest (pullArray R fuel) [it] ptr

end

/-- `jsonFile2item3` -/
def jsonFile2item3 (R : RealText) (fuel : Nat) (file : List UInt8) : Option ItemRoot :=
  match jsonString2item3 R fuel (file ++ [0]) with
  | none => none
  | some (result, _) => some result

end CWPack.Example
