/-
  Example/JsonRead.lean --- what `jsonFile2item3` makes of a JSON file.

  The bracket that closes an empty container is not consumed, so the container
  around it takes that bracket for its own, and ends.  What is read is the item of
  the text exactly when there is nothing behind an empty container, in any
  container around it, that could get lost.
-/
import CWPack.Example.JsonText

set_option autoImplicit false

namespace CWPack.Example

open CWPack.Foundation

/-! ## Empty containers -/

mutual

/-- No container is empty. -/
def ItemRoot.Full : ItemRoot → Prop
  | .map items => items ≠ [] ∧ AllFull items
  | .array items => items ≠ [] ∧ AllFull items
  | _ => True

def AllFull : List ItemRoot → Prop
  | [] => True
  | item :: items => item.Full ∧ AllFull items

end

mutual

/-- No item, in any container, comes behind one that is or has an empty container. -/
def ItemRoot.EmptyLast : ItemRoot → Prop
  | .map items => AllEmptyLast items
  | .array items => AllEmptyLast items
  | _ => True

def AllEmptyLast : List ItemRoot → Prop
  | [] => True
  | item :: items => item.EmptyLast ∧ (items = [] ∨ item.Full) ∧ AllEmptyLast items

end

mutual

theorem ItemRoot.Full.emptyLast {item : ItemRoot} (h : item.Full) : item.EmptyLast := by
  cases item with
  | map items => exact AllFull.allEmptyLast h.2
  | array items => exact AllFull.allEmptyLast h.2
  | _ => trivial

theorem AllFull.allEmptyLast {items : List ItemRoot} (h : AllFull items) : AllEmptyLast items := by
  cases items with
  | nil => trivial
  | cons item items => exact ⟨h.1.emptyLast, Or.inr h.1, AllFull.allEmptyLast h.2⟩

end

/-! ## Outcomes -/

/-- A closing bracket. -/
def IsCloser (c : UInt8) : Prop := c = 0x5d ∨ c = 0x7d

/-- What a parser returns for the text of `a`, with `rest` behind it: `a` and the rest; `a`
and one closing bracket too many; or something else. -/
inductive Outcome {α : Type} (full emptyLast : Prop) (a : α) (rest : List UInt8) :
    Option (α × List UInt8) → Prop where
  | whole (h : full) : Outcome full emptyLast a rest (some (a, rest))
  | early (hfull : ¬ full) (hlast : emptyLast) {s : List UInt8} {c : UInt8} (hs : Space s)
      (hc : IsCloser c) : Outcome full emptyLast a rest (some (a, s ++ c :: rest))
  | wrong (hlast : ¬ emptyLast) {r : Option (α × List UInt8)} (hr : ∀ rest', r ≠ some (a, rest')) :
      Outcome full emptyLast a rest r

/-- The item is right exactly when nothing comes behind an empty container. -/
theorem Outcome.eq_iff {α : Type} {full emptyLast : Prop} {a : α} {rest : List UInt8}
    {r : Option (α × List UInt8)} (h : Outcome full emptyLast a rest r)
    (hlast : full → emptyLast) : (∃ rest', r = some (a, rest')) ↔ emptyLast := by
  cases h with
  | whole h => exact ⟨fun _ => hlast h, fun _ => ⟨rest, rfl⟩⟩
  | early _ hlast _ _ => exact ⟨fun _ => hlast, fun _ => ⟨_, rfl⟩⟩
  | wrong hlast hr => exact ⟨fun ⟨rest', h⟩ => absurd h (hr rest'), fun h => absurd h hlast⟩

/-- A container is what its items are. -/
theorem Outcome.container {make : List ItemRoot → ItemRoot} {items : List ItemRoot}
    {rest : List UInt8} {r : Option (List ItemRoot × List UInt8)}
    (h : Outcome (AllFull items) (AllEmptyLast items) items rest r)
    (hmake : ∀ {items'}, make items' = make items → items' = items)
    (hfull : (make items).Full ↔ AllFull items)
    (hlast : (make items).EmptyLast ↔ AllEmptyLast items) (hlen : items.length < 2 ^ 31) :
    Outcome (make items).Full (make items).EmptyLast (make items) rest
      (allocateItem make 0 r) := by
  cases h with
  | whole h =>
      rw [allocateItem]
      simp only [Nat.add_zero, if_pos hlen]
      exact .whole (hfull.mpr h)
  | early hnot hempty hs hc =>
      rw [allocateItem]
      simp only [Nat.add_zero, if_pos hlen]
      exact .early (fun h => hnot (hfull.mp h)) (hlast.mpr hempty) hs hc
  | wrong hnot hr =>
      refine .wrong (fun h => hnot (hlast.mp h)) fun rest' heq => ?_
      unfold allocateItem at heq
      split at heq
      · cases heq
      · split at heq
        · obtain ⟨hitems, rfl⟩ := Prod.mk.inj (Option.some.inj heq)
          exact hr _ (by rw [hmake hitems])
        · cases heq

/-- What is read after an item comes behind it. -/
theorem pullRest_prefix {pull : List UInt8 → Option (List ItemRoot × List UInt8)}
    {here items : List ItemRoot} {text left : List UInt8}
    (h : pullRest pull here text = some (items, left)) : ∃ more, items = here ++ more := by
  rw [pullRest] at h
  split at h
  · cases h
  · split at h
    · split at h
      · cases h
      · obtain ⟨rfl, -⟩ := Prod.mk.inj (Option.some.inj h)
        exact ⟨_, rfl⟩
    · obtain ⟨rfl, -⟩ := Prod.mk.inj (Option.some.inj h)
      exact ⟨[], (List.append_nil _).symm⟩

theorem pullRest_closer {pull : List UInt8 → Option (List ItemRoot × List UInt8)}
    {here : List ItemRoot} {s : List UInt8} {c : UInt8} (hs : Space s) (hc : IsCloser c)
    (left : List UInt8) : pullRest pull here (s ++ c :: left) = some (here, left) := by
  have hblank : isBlank c = false := by rcases hc with rfl | rfl <;> rfl
  have hcomma : c ≠ 0x2c := by rcases hc with rfl | rfl <;> decide
  rw [pullRest, scanSpace_append hs, scanSpace_cons hblank]
  exact if_neg hcomma

theorem pullRest_comma {pull : List UInt8 → Option (List ItemRoot × List UInt8)}
    {here : List ItemRoot} {s : List UInt8} (hs : Space s) (text : List UInt8) :
    pullRest pull here (s ++ 0x2c :: text) = (pull text).map fun p => (here ++ p.1, p.2) := by
  rw [pullRest, scanSpace_append hs, scanSpace_cons rfl]
  simp only [if_true]
  cases pull text <;> rfl

/-- What comes behind an item, up to the bracket that closes its container: nothing, or a
comma and the items that are pulled next. -/
def MoreRead (pull : List UInt8 → Option (List ItemRoot × List UInt8)) (more : List UInt8)
    (items : List ItemRoot) (c : UInt8) (rest : List UInt8) : Prop :=
  more = [] ∧ items = [] ∨ ∃ text, more = 0x2c :: text ∧ items ≠ [] ∧
    Outcome (AllFull items) (AllEmptyLast items) items rest (pull (text ++ c :: rest))

/-- One step along a container, with `pre` the key if there is one. -/
theorem Outcome.next {x : ItemRoot} {s more rest : List UInt8} {items : List ItemRoot} {c : UInt8}
    {r : Option (ItemRoot × List UInt8)}
    {pull : List UInt8 → Option (List ItemRoot × List UInt8)} (pre : List ItemRoot)
    (h : Outcome x.Full x.EmptyLast x (s ++ (more ++ c :: rest)) r) (hs : Space s)
    (hc : IsCloser c) (hmore : MoreRead pull more items c rest)
    (hfull : AllFull (pre ++ x :: items) ↔ x.Full ∧ AllFull items)
    (hlast : AllEmptyLast (pre ++ x :: items) ↔
      x.EmptyLast ∧ (items = [] ∨ x.Full) ∧ AllEmptyLast items) :
    Outcome (AllFull (pre ++ x :: items)) (AllEmptyLast (pre ++ x :: items)) (pre ++ x :: items)
      rest (r.bind fun p => pullRest pull (pre ++ [p.1]) p.2) := by
  cases h with
  | whole hx =>
      rw [Option.bind_some]
      rcases hmore with ⟨rfl, rfl⟩ | ⟨text, rfl, -, hread⟩
      · rw [List.nil_append, pullRest_closer hs hc]
        exact .whole (hfull.mpr ⟨hx, trivial⟩)
      · rw [List.cons_append, pullRest_comma hs]
        generalize pull (text ++ c :: rest) = r at hread ⊢
        cases hread with
        | whole hitems =>
            rw [Option.map_some, List.append_assoc]
            exact .whole (hfull.mpr ⟨hx, hitems⟩)
        | early hnot hempty hs' hc' =>
            rw [Option.map_some, List.append_assoc]
            exact .early (fun h => hnot (hfull.mp h).2)
              (hlast.mpr ⟨hx.emptyLast, Or.inr hx, hempty⟩) hs' hc'
        | wrong hnot hr =>
            refine .wrong (fun h => hnot (hlast.mp h).2.2) fun rest' heq => ?_
            obtain ⟨⟨items', left⟩, hpull, heq⟩ := Option.map_eq_some_iff.mp heq
            obtain ⟨hitems, rfl⟩ := Prod.mk.inj heq
            rw [List.append_assoc] at hitems
            have hsame := List.append_cancel_left hitems
            rw [List.singleton_append, List.cons.injEq] at hsame
            exact hr left (by rw [hpull, ← hsame.2])
  | early hnot hempty hs' hc' =>
      rw [Option.bind_some, pullRest_closer hs' hc']
      rcases hmore with ⟨rfl, rfl⟩ | ⟨text, rfl, hne, -⟩
      · exact .early (fun h => hnot (hfull.mp h).1) (hlast.mpr ⟨hempty, Or.inl rfl, trivial⟩) hs hc
      · refine .wrong (fun h => ?_) fun rest' heq => ?_
        · rcases (hlast.mp h).2.1 with h | h
          · exact hne h
          · exact hnot h
        · have hitems := List.append_cancel_left (Prod.mk.inj (Option.some.inj heq)).1
          rw [List.cons.injEq] at hitems
          exact hne hitems.2.symm
  | wrong hnot hr =>
      refine .wrong (fun h => hnot (hlast.mp h).1) fun rest' heq => ?_
      obtain ⟨⟨y, ptr⟩, rfl, hpull⟩ := Option.bind_eq_some_iff.mp heq
      obtain ⟨more', hmore'⟩ := pullRest_prefix hpull
      rw [List.append_assoc] at hmore'
      have hsame := List.append_cancel_left hmore'
      rw [List.singleton_append, List.cons.injEq] at hsame
      exact hr ptr (by rw [hsame.1])

/-! ## Texts are read -/

section Reading

variable {R : RealText}

/-- A text is at least as long as what it has. -/
theorem StringText.length_le {text characters : List UInt8} (h : StringText text characters) :
    characters.length ≤ text.length := by
  induction h with
  | done => exact Nat.le_refl _
  | plain _ _ ih => exact Nat.succ_le_succ ih
  | escape _ _ ih => exact Nat.le_succ_of_le (Nat.succ_le_succ ih)
  | @unicode hex text characters u hlen hhex hu _ ih =>
      have hsize : (String.utf8EncodeChar u).length ≤ 4 := by
        rw [String.length_utf8EncodeChar]
        exact Char.utf8Size_le_four u
      simp only [List.length_append, List.length_cons, hlen]
      omega

theorem JsonText.length_le {k : Kind} {text : List UInt8} {items : List ItemRoot}
    (h : JsonText R k text items) : items.length ≤ text.length := by
  induction h with
  | integer h _ => obtain ⟨c, rest, rfl, -⟩ := h.head; exact Nat.succ_le_succ (Nat.zero_le _)
  | real h _ _ => obtain ⟨c, rest, rfl, -⟩ := h.head; exact Nat.succ_le_succ (Nat.zero_le _)
  | elements _ _ _ _ ih ihmore =>
      simp only [List.length_append, List.length_cons, List.length_nil] at ih ⊢
      omega
  | noElements => exact Nat.le_refl _
  | moreElements _ ih => exact Nat.le_succ_of_le ih
  | members _ _ _ _ _ _ _ ih ihmore =>
      simp only [List.length_append, List.length_cons, List.length_nil] at ih ⊢
      omega
  | noMembers => exact Nat.le_refl _
  | moreMembers _ ih => exact Nat.le_succ_of_le ih
  | _ => exact Nat.succ_le_succ (Nat.zero_le _)

/-- The first character of an item is no white space and closes nothing. -/
theorem JsonText.head {text : List UInt8} {items : List ItemRoot} (h : JsonText R .item text items) :
    ∃ c rest, text = c :: rest ∧ isBlank c = false ∧ ¬ IsCloser c := by
  have hnumber : ∀ {text : List UInt8}, (∃ c rest, text = c :: rest ∧
      (c = 0x2d ∨ (0x30 ≤ c ∧ c ≤ 0x39))) →
      ∃ c rest, text = c :: rest ∧ isBlank c = false ∧ ¬ IsCloser c := by
    rintro text ⟨c, rest, rfl, hc⟩
    refine ⟨c, rest, rfl, ?_, ?_⟩
    · simp only [isBlank, Bool.or_eq_false_iff, decide_eq_false_iff_not, ← UInt8.toNat_inj,
        UInt8.le_iff_toNat_le, UInt8.reduceToNat] at hc ⊢
      omega
    · simp only [IsCloser, ← UInt8.toNat_inj, UInt8.le_iff_toNat_le, UInt8.reduceToNat] at hc ⊢
      omega
  cases h with
  | integer h _ => exact hnumber h.head
  | real h _ _ => exact hnumber h.head
  | _ => exact ⟨_, _, rfl, rfl, by rintro (h | h) <;> cases h⟩

/-- White space in front of an item is passed over. -/
theorem pullArray_scanSpace (fuel : Nat) (text : List UInt8) :
    pullArray R fuel (scanSpace text) = pullArray R fuel text := by
  cases fuel with
  | zero => rfl
  | succ fuel => rw [pullArray, pullArray, scanSpace_idem]

theorem pullMapPair_scanSpace (fuel : Nat) (text : List UInt8) :
    pullMapPair R fuel (scanSpace text) = pullMapPair R fuel text := by
  cases fuel with
  | zero => rfl
  | succ fuel => rw [pullMapPair, pullMapPair, scanSpace_idem]

/-- A container that is not empty. -/
theorem jsonString2item3_container {text : List UInt8} {c : UInt8} {ptr : List UInt8}
    (hopen : scanSpace text = c :: ptr) (hc : ¬ IsCloser c) (fuel : Nat) :
    jsonString2item3 R (fuel + 1) (0x5b :: text) = allocateItem .array 0 (pullArray R fuel text) ∧
      jsonString2item3 R (fuel + 1) (0x7b :: text) =
        allocateItem .map 0 (pullMapPair R fuel text) := by
  constructor
  · rw [jsonString2item3, scanSpace_cons rfl]
    simp only
    rw [if_neg (by decide), if_pos trivial, ← pullArray_scanSpace, hopen]
    exact if_neg fun h => hc (Or.inl h)
  · rw [jsonString2item3, scanSpace_cons rfl]
    simp only
    rw [if_pos trivial, ← pullMapPair_scanSpace, hopen]
    exact if_neg fun h => hc (Or.inr h)

/-- An empty container, of which the closing bracket is left. -/
theorem jsonString2item3_empty {s : List UInt8} (hs : Space s) (fuel : Nat) (rest : List UInt8) :
    jsonString2item3 R (fuel + 1) (0x5b :: (s ++ 0x5d :: rest)) =
        some (.array [], 0x5d :: rest) ∧
      jsonString2item3 R (fuel + 1) (0x7b :: (s ++ 0x7d :: rest)) =
        some (.map [], 0x7d :: rest) := by
  constructor
  · rw [jsonString2item3, scanSpace_cons rfl]
    simp only
    rw [if_neg (by decide), if_pos trivial, scanSpace_append hs, scanSpace_cons rfl]
    exact if_pos rfl
  · rw [jsonString2item3, scanSpace_cons rfl]
    simp only
    rw [if_pos trivial, scanSpace_append hs, scanSpace_cons rfl]
    exact if_pos rfl

theorem jsonString2item3_string {text characters : List UInt8} (h : StringText text characters)
    (hlen : text.length + 1 < 2 ^ 31) (fuel : Nat) (rest : List UInt8) :
    jsonString2item3 R (fuel + 1) (0x22 :: (text ++ 0x22 :: rest)) =
      some (.string characters, rest) := by
  have hle := h.length_le
  rw [jsonString2item3, scanSpace_cons rfl]
  simp only
  rw [if_neg (by decide), if_neg (by decide), if_pos trivial, pullString_of_stringText h,
    allocateItem]
  exact if_pos (by omega)

theorem jsonString2item3_number {c : UInt8} (hc : c = 0x2d ∨ (0x30 ≤ c ∧ c ≤ 0x39)) (fuel : Nat)
    (text : List UInt8) :
    jsonString2item3 R (fuel + 1) (c :: text) = pullNumber R (c :: text) := by
  have hfacts : isBlank c = false ∧ c ≠ 0x7b ∧ c ≠ 0x5b ∧ c ≠ 0x22 ∧ c ≠ 0x6e ∧ c ≠ 0x74 ∧
      c ≠ 0x66 := by
    simp only [isBlank, ne_eq, Bool.or_eq_false_iff, decide_eq_false_iff_not, ← UInt8.toNat_inj,
      UInt8.le_iff_toNat_le, UInt8.reduceToNat] at hc ⊢
    omega
  obtain ⟨hblank, hmap, harray, hquote, hn, ht, hf⟩ := hfacts
  rw [jsonString2item3, scanSpace_cons hblank]
  simp only
  rw [if_neg hmap, if_neg harray, if_neg hquote, if_neg hn, if_neg ht, if_neg hf, if_pos hc]

theorem pullArray_succ (fuel : Nat) (text : List UInt8) :
    pullArray R (fuel + 1) text = (jsonString2item3 R fuel (scanSpace text)).bind fun p =>
      pullRest (pullArray R fuel) ([] ++ [p.1]) p.2 := by
  rw [pullArray]
  cases jsonString2item3 R fuel (scanSpace text) <;> rfl

/-- A key is read, and what follows it up to the value. -/
theorem pullMapPair_succ {s key characters s₁ s₂ rest : List UInt8} (hs : Space s)
    (hkey : StringText key characters) (hlen : key.length + 1 < 2 ^ 31) (hs₁ : Space s₁)
    (hs₂ : Space s₂) (fuel : Nat) :
    pullMapPair R (fuel + 2)
        (s ++ (0x22 :: (key ++ 0x22 :: (s₁ ++ 0x3a :: (s₂ ++ rest))))) =
      (jsonString2item3 R (fuel + 1) (scanSpace rest)).bind fun p =>
        pullRest (pullMapPair R (fuel + 1)) ([.string characters] ++ [p.1]) p.2 := by
  rw [pullMapPair, scanSpace_append hs, scanSpace_cons rfl, jsonString2item3_string hkey hlen]
  simp only
  rw [scanSpace_append hs₁, scanSpace_cons rfl]
  simp only
  rw [scanSpace_append hs₂]
  cases jsonString2item3 R (fuel + 1) (scanSpace rest) <;> rfl

/-- The text of an item is read. -/
def ItemRead (R : RealText) (text : List UInt8) (items : List ItemRoot) : Prop :=
  ∀ item, items = [item] → ∀ rest fuel, Follows rest → text.length ≤ fuel →
    text.length < 2 ^ 31 →
    Outcome item.Full item.EmptyLast item rest (jsonString2item3 R fuel (text ++ rest))

/-- The items of a container are pulled. -/
def ItemsRead (pull : Nat → List UInt8 → Option (List ItemRoot × List UInt8)) (text : List UInt8)
    (items : List ItemRoot) : Prop :=
  items ≠ [] ∧ (∀ rest, ∃ c ptr, scanSpace (text ++ rest) = c :: ptr ∧ ¬ IsCloser c) ∧
    ∀ c rest fuel, IsCloser c → text.length < fuel → text.length < 2 ^ 31 →
      Outcome (AllFull items) (AllEmptyLast items) items rest (pull fuel (text ++ c :: rest))

/-- What each part of a text is read as. -/
def Read (R : RealText) : Kind → List UInt8 → List ItemRoot → Prop
  | .item, text, items => ItemRead R text items
  | .elements, text, items => ItemsRead (pullArray R) text items
  | .moreElements, text, items =>
      text = [] ∧ items = [] ∨ ∃ text', text = 0x2c :: text' ∧ ItemsRead (pullArray R) text' items
  | .members, text, items => ItemsRead (pullMapPair R) text items
  | .moreMembers, text, items =>
      text = [] ∧ items = [] ∨ ∃ text', text = 0x2c :: text' ∧ ItemsRead (pullMapPair R) text' items

theorem follows_append {s rest : List UInt8} (hs : Space s) (h : Follows rest) :
    Follows (s ++ rest) := by
  cases s with
  | nil => exact h
  | cons c s =>
      refine ⟨c, s ++ rest, rfl, ?_⟩
      have hc := hs c List.mem_cons_self
      simp only [isBlank, Bool.or_eq_true, decide_eq_true_eq] at hc
      rcases hc with (rfl | rfl) | rfl <;> rfl

theorem IsCloser.follows {c : UInt8} (hc : IsCloser c) (rest : List UInt8) : Follows (c :: rest) :=
  ⟨c, rest, rfl, by rcases hc with rfl | rfl <;> rfl⟩

theorem pullLiteral_append (item : ItemRoot) (word rest : List UInt8) :
    pullLiteral item word.length (word ++ rest) = some (item, rest) := by
  rw [pullLiteral, if_pos (by rw [List.length_append]; exact Nat.le_add_right _ _),
    List.drop_left]

/-- An item that has no content. -/
theorem itemRead_of_eq {item : ItemRoot} {text : List UInt8} (hfull : item.Full) (hne : text ≠ [])
    (h : ∀ rest fuel, Follows rest → text.length < 2 ^ 31 →
      jsonString2item3 R (fuel + 1) (text ++ rest) = some (item, rest)) :
    ItemRead R text [item] := by
  intro item' hitem rest fuel hrest hfuel hlen
  obtain rfl := (List.cons.inj hitem).1
  have hpos := List.length_pos_iff.mpr hne
  obtain ⟨fuel, rfl⟩ := Nat.exists_eq_succ_of_ne_zero (Nat.ne_of_gt (by omega : 0 < fuel))
  rw [h rest fuel hrest hlen]
  exact .whole hfull

/-- The items behind the first one, at the bracket that closes their container. -/
theorem moreRead_of_itemsRead {pull : Nat → List UInt8 → Option (List ItemRoot × List UInt8)}
    {more : List UInt8} {items : List ItemRoot} {c : UInt8} (rest : List UInt8) (fuel : Nat)
    (h : more = [] ∧ items = [] ∨ ∃ text, more = 0x2c :: text ∧ ItemsRead pull text items)
    (hc : IsCloser c) (hfuel : more.length ≤ fuel) (hlen : more.length < 2 ^ 31) :
    MoreRead (pull fuel) more items c rest ∧ Follows (more ++ c :: rest) := by
  rcases h with ⟨rfl, rfl⟩ | ⟨text, rfl, hne, -, hread⟩
  · exact ⟨Or.inl ⟨rfl, rfl⟩, hc.follows rest⟩
  · rw [List.length_cons] at hfuel hlen
    exact ⟨Or.inr ⟨text, rfl, hne, hread c rest fuel hc (by omega) (by omega)⟩,
      ⟨0x2c, text ++ c :: rest, rfl, rfl⟩⟩

/-- A container with items. -/
theorem itemRead_of_itemsRead {pull : Nat → List UInt8 → Option (List ItemRoot × List UInt8)}
    {make : List ItemRoot → ItemRoot} {text : List UInt8} {items : List ItemRoot} {o c : UInt8}
    (h : ItemsRead pull text items) (hc : IsCloser c) (hle : items.length ≤ text.length)
    (hcall : ∀ {text' c' ptr}, scanSpace text' = c' :: ptr → ¬ IsCloser c' → ∀ fuel,
      jsonString2item3 R (fuel + 1) (o :: text') = allocateItem make 0 (pull fuel text'))
    (hmake : ∀ {items'}, make items' = make items → items' = items)
    (hfull : (make items).Full ↔ AllFull items)
    (hlast : (make items).EmptyLast ↔ AllEmptyLast items) :
    ItemRead R (o :: (text ++ [c])) [make items] := by
  intro item hitem rest fuel _ hfuel hlen
  obtain rfl := (List.cons.inj hitem).1
  simp only [List.length_cons, List.length_append, List.length_nil] at hfuel hlen
  obtain ⟨fuel, rfl⟩ := Nat.exists_eq_succ_of_ne_zero (Nat.ne_of_gt (by omega : 0 < fuel))
  obtain ⟨-, hopen, hread⟩ := h
  obtain ⟨c', ptr, hscan, hc'⟩ := hopen (c :: rest)
  rw [List.cons_append, List.append_assoc, List.singleton_append, hcall hscan hc']
  exact (hread c rest fuel hc (by omega) (by omega)).container hmake hfull hlast (by omega)

/-- Every text is read in one of the three ways. -/
theorem JsonText.read {k : Kind} {text : List UInt8} {items : List ItemRoot}
    (h : JsonText R k text items) : Read R k text items := by
  induction h with
  | nil =>
      refine itemRead_of_eq trivial (List.cons_ne_nil _ _) fun rest fuel _ _ => ?_
      rw [List.cons_append, jsonString2item3, scanSpace_cons rfl]
      exact pullLiteral_append .nil [0x75, 0x6c, 0x6c] rest
  | true_ =>
      refine itemRead_of_eq trivial (List.cons_ne_nil _ _) fun rest fuel _ _ => ?_
      rw [List.cons_append, jsonString2item3, scanSpace_cons rfl]
      exact pullLiteral_append .true_ [0x72, 0x75, 0x65] rest
  | false_ =>
      refine itemRead_of_eq trivial (List.cons_ne_nil _ _) fun rest fuel _ _ => ?_
      rw [List.cons_append, jsonString2item3, scanSpace_cons rfl]
      exact pullLiteral_append .false_ [0x61, 0x6c, 0x73, 0x65] rest
  | integer h hshort =>
      obtain ⟨c, text, rfl, hc⟩ := h.head
      refine itemRead_of_eq trivial (List.cons_ne_nil _ _) fun rest fuel hrest _ => ?_
      rw [List.cons_append, jsonString2item3_number hc, ← List.cons_append]
      exact pullNumber_of_integerText R h hshort hrest
  | real h hshort hscan =>
      obtain ⟨c, text, rfl, hc⟩ := h.head
      refine itemRead_of_eq trivial (List.cons_ne_nil _ _) fun rest fuel hrest _ => ?_
      rw [List.cons_append, jsonString2item3_number hc, ← List.cons_append]
      exact pullNumber_of_realNumeral h hshort hscan hrest
  | @string text characters h =>
      refine itemRead_of_eq trivial (List.cons_ne_nil _ _) fun rest fuel _ hlen => ?_
      simp only [List.length_cons, List.length_append, List.length_nil] at hlen
      rw [List.cons_append, List.append_assoc]
      exact jsonString2item3_string h (by omega) fuel rest
  | @emptyArray s hs =>
      intro item hitem rest fuel _ hfuel _
      obtain rfl := (List.cons.inj hitem).1
      rw [List.length_cons] at hfuel
      obtain ⟨fuel, rfl⟩ := Nat.exists_eq_succ_of_ne_zero (Nat.ne_of_gt (by omega : 0 < fuel))
      rw [List.cons_append, List.append_assoc, List.singleton_append,
        (jsonString2item3_empty hs fuel rest).1]
      exact .early (fun h => h.1 rfl) trivial (s := []) (fun _ h => absurd h List.not_mem_nil)
        (Or.inl rfl)
  | @emptyMap s hs =>
      intro item hitem rest fuel _ hfuel _
      obtain rfl := (List.cons.inj hitem).1
      rw [List.length_cons] at hfuel
      obtain ⟨fuel, rfl⟩ := Nat.exists_eq_succ_of_ne_zero (Nat.ne_of_gt (by omega : 0 < fuel))
      rw [List.cons_append, List.append_assoc, List.singleton_append,
        (jsonString2item3_empty hs fuel rest).2]
      exact .early (fun h => h.1 rfl) trivial (s := []) (fun _ h => absurd h List.not_mem_nil)
        (Or.inr rfl)
  | @array text items h ih =>
      exact itemRead_of_itemsRead ih (Or.inl rfl) h.length_le
        (fun hopen hc fuel => (jsonString2item3_container hopen hc fuel).1)
        (fun h => ItemRoot.array.inj h) ⟨And.right, fun h => ⟨ih.1, h⟩⟩ Iff.rfl
  | @map text items h ih =>
      exact itemRead_of_itemsRead ih (Or.inr rfl) h.length_le
        (fun hopen hc fuel => (jsonString2item3_container hopen hc fuel).2)
        (fun h => ItemRoot.map.inj h) ⟨And.right, fun h => ⟨ih.1, h⟩⟩ Iff.rfl
  | @elements s text s' more item items hs h hs' hmore ih ihmore =>
      obtain ⟨c₀, text₀, htext, hblank, hclose⟩ := h.head
      have hscan : ∀ rest, scanSpace (s ++ (text ++ rest)) = text ++ rest := by
        intro rest
        rw [scanSpace_append hs, htext, List.cons_append, scanSpace_cons hblank]
      have hpos : 0 < text.length := by rw [htext]; exact Nat.succ_pos _
      refine ⟨List.cons_ne_nil _ _, fun rest => ?_, fun c rest fuel hc hfuel hlen => ?_⟩
      · exact ⟨c₀, text₀ ++ (s' ++ more ++ rest), by
          rw [List.append_assoc, List.append_assoc, hscan, htext]; rfl, hclose⟩
      · simp only [List.length_append] at hfuel hlen
        obtain ⟨fuel, rfl⟩ := Nat.exists_eq_succ_of_ne_zero (Nat.ne_of_gt (by omega : 0 < fuel))
        obtain ⟨hread, hfollows⟩ :=
          moreRead_of_itemsRead rest fuel ihmore hc (by omega) (by omega)
        have hitem := ih item rfl (s' ++ (more ++ c :: rest)) fuel (follows_append hs' hfollows)
          (by omega) (by omega)
        simp only [List.append_assoc]
        rw [pullArray_succ, hscan]
        exact hitem.next [] hs' hc hread Iff.rfl Iff.rfl
  | noElements => exact Or.inl ⟨rfl, rfl⟩
  | moreElements _ ih => exact Or.inr ⟨_, rfl, ih⟩
  | @members s key characters s₁ s₂ text s' more value items hs hkey hs₁ hs₂ h hs' hmore ih ihmore =>
      obtain ⟨c₀, text₀, htext, hblank, -⟩ := h.head
      have hscan : ∀ rest, scanSpace (text ++ rest) = text ++ rest := by
        intro rest
        rw [htext, List.cons_append, scanSpace_cons hblank]
      refine ⟨List.cons_ne_nil _ _, fun rest => ?_, fun c rest fuel hc hfuel hlen => ?_⟩
      · rw [List.append_assoc, scanSpace_append hs, List.cons_append, scanSpace_cons rfl]
        exact ⟨0x22, _, rfl, by rintro (h | h) <;> cases h⟩
      · simp only [List.length_append, List.length_cons] at hfuel hlen
        obtain ⟨fuel, rfl⟩ := Nat.exists_eq_add_of_le' (by omega : 2 ≤ fuel)
        obtain ⟨hread, hfollows⟩ :=
          moreRead_of_itemsRead rest (fuel + 1) ihmore hc (by omega) (by omega)
        have hitem := ih value rfl (s' ++ (more ++ c :: rest)) (fuel + 1)
          (follows_append hs' hfollows) (by omega) (by omega)
        simp only [List.append_assoc, List.cons_append]
        rw [pullMapPair_succ hs hkey (by omega) hs₁ hs₂, hscan]
        exact hitem.next [.string characters] hs' hc hread
          ⟨And.right, fun h => ⟨trivial, h⟩⟩ ⟨fun h => h.2.2, fun h => ⟨trivial, Or.inr trivial, h⟩⟩
  | noMembers => exact Or.inl ⟨rfl, rfl⟩
  | moreMembers _ ih => exact Or.inr ⟨_, rfl, ih⟩

theorem jsonString2item3_scanSpace (fuel : Nat) (text : List UInt8) :
    jsonString2item3 R fuel (scanSpace text) = jsonString2item3 R fuel text := by
  cases fuel with
  | zero => rfl
  | succ fuel => rw [jsonString2item3, jsonString2item3, scanSpace_idem]

/-- What is read from a file is the outcome for its item. -/
theorem JsonFile.outcome {file : List UInt8} {item : ItemRoot} (h : JsonFile R file item)
    (hlen : file.length < 2 ^ 31) {fuel : Nat} (hfuel : file.length ≤ fuel) :
    ∃ rest, Outcome item.Full item.EmptyLast item rest (jsonString2item3 R fuel (file ++ [0])) := by
  obtain ⟨s, text, s', rfl, hs, htext, hs'⟩ := h
  have hread : ItemRead R text [item] := htext.read
  simp only [List.length_append] at hlen hfuel
  refine ⟨s' ++ [0], ?_⟩
  have hscan : jsonString2item3 R fuel (s ++ (text ++ s') ++ [0]) =
      jsonString2item3 R fuel (text ++ (s' ++ [0])) := by
    rw [← jsonString2item3_scanSpace, List.append_assoc, List.append_assoc, scanSpace_append hs,
      jsonString2item3_scanSpace]
  rw [hscan]
  exact hread item rfl (s' ++ [0]) fuel (follows_append hs' ⟨0, [], rfl, rfl⟩) (by omega) (by omega)

/-- The item is read if none comes behind an empty container. -/
theorem jsonFile2item3_of_emptyLast {file : List UInt8} {item : ItemRoot} (h : JsonFile R file item)
    (hlen : file.length < 2 ^ 31) {fuel : Nat} (hfuel : file.length ≤ fuel)
    (hlast : item.EmptyLast) : jsonFile2item3 R fuel file = some item := by
  obtain ⟨rest, houtcome⟩ := h.outcome hlen hfuel
  obtain ⟨rest', hread⟩ := (houtcome.eq_iff ItemRoot.Full.emptyLast).mpr hlast
  rw [jsonFile2item3, hread]

/-- A JSON file of less than `2 ^ 31` bytes is read as its item exactly when no item, in any
container, comes behind one that is or has an empty container. -/
theorem jsonFile2item3_eq_iff {file : List UInt8} {item : ItemRoot} (h : JsonFile R file item)
    (hlen : file.length < 2 ^ 31) {fuel : Nat} (hfuel : file.length ≤ fuel) :
    jsonFile2item3 R fuel file = some item ↔ item.EmptyLast := by
  refine ⟨fun hread => ?_, jsonFile2item3_of_emptyLast h hlen hfuel⟩
  obtain ⟨rest, houtcome⟩ := h.outcome hlen hfuel
  refine (houtcome.eq_iff ItemRoot.Full.emptyLast).mp ?_
  unfold jsonFile2item3 at hread
  split at hread
  · cases hread
  · rename_i result rest' heq
    obtain rfl := Option.some.inj hread
    exact ⟨rest', heq⟩

end Reading

/-- `[[],1]` -/
theorem jsonFile2item3_eq_iff_lost :
    jsonFile2item3 ⟨fun _ => [], fun _ => none⟩ 6 [0x5b, 0x5b, 0x5d, 0x2c, 0x31, 0x5d] =
      some (.array [.array [], .integer 1]) ↔
      (ItemRoot.array [.array [], .integer 1]).EmptyLast :=
  have hnone : Space [] := fun _ h => absurd h List.not_mem_nil
  have hone : IntegerText [0x31] 1 := .positive ⟨List.cons_ne_nil _ _, List.all_eq_true.mp rfl⟩ rfl
  have htext : JsonText ⟨fun _ => [], fun _ => none⟩ .item [0x5b, 0x5b, 0x5d, 0x2c, 0x31, 0x5d]
      [.array [.array [], .integer 1]] :=
    .array (.elements hnone (.emptyArray hnone) hnone
      (.moreElements (.elements hnone (.integer hone (by decide)) hnone .noElements)))
  jsonFile2item3_eq_iff ⟨[], _, [], rfl, hnone, htext, hnone⟩ (by decide) (by decide)

end CWPack.Example
