/-
  Example/ItemFile.lean --- item trees through a MessagePack file.

  A tree goes to the file as the values of its items in preorder.  `Depicts` is the
  converse: the trees that values in preorder stand for.  A program that reads a
  tree from a context that delivers such values gets the tree, and leaves the
  context where the values end.

  What is lost on the way is what lies behind a NUL in a string; on the way in,
  binaries, extensions and times become null pointers.
-/
import Mathlib.Data.List.TakeWhile
import CWPack.Core.Spelling
import CWPack.Example.Item
import CWPack.Goodies.StreamReads

set_option autoImplicit false

namespace CWPack.Example

open CWPack.Foundation
open CWPack.Core
open CWPack.Goodies
open CWPack.MessagePack
open CWPack.ObjC (castBlob castBlob_of_lt)

variable {σ : Type}

/-! ## What values stand for -/

/-- The item for a value that has no content. -/
def leafItem (F : FloatUnit) : Value → Option ItemRoot
  | .nil => some .nil
  | .bool b => some (if b then .true_ else .false_)
  | .int v => some (.integer (.ofInt v))
  | .float bits => some (.real (F.doubleOfFloat (.ofNat bits)))
  | .double bits => some (.real (.ofNat bits))
  | .str bs => some (.string (strncpy bs))
  | .bin _ => some .null
  | .ext _ _ => some .null
  | .timestamp _ _ => some .null
  | .array _ => none
  | .map _ => none

/-- The values, in preorder, stand for the items. -/
inductive Depicts (F : FloatUnit) : List Value → List ItemRoot → Prop where
  | done : Depicts F [] []
  | leaf {v : Value} {item : ItemRoot} {vs : List Value} {items : List ItemRoot}
      (h : leafItem F v = some item) (hrest : Depicts F vs items) :
      Depicts F (v :: vs) (item :: items)
  | map {n : Nat} {ws vs : List Value} {content items : List ItemRoot} (hlt : n < 2 ^ 30)
      (hlen : content.length = 2 * n) (hcontent : Depicts F ws content)
      (hrest : Depicts F vs items) : Depicts F (.map n :: (ws ++ vs)) (.map content :: items)
  | array {n : Nat} {ws vs : List Value} {content items : List ItemRoot} (hlt : n < 2 ^ 31)
      (hlen : content.length = n) (hcontent : Depicts F ws content)
      (hrest : Depicts F vs items) : Depicts F (.array n :: (ws ++ vs)) (.array content :: items)

/-- What is depicted one behind the other. -/
theorem Depicts.append {F : FloatUnit} {vs ws : List Value} {items items' : List ItemRoot}
    (h : Depicts F vs items) (h' : Depicts F ws items') :
    Depicts F (vs ++ ws) (items ++ items') := by
  induction h with
  | done => exact h'
  | leaf hleaf _ ih => exact .leaf hleaf ih
  | map hlt hlen hcontent _ _ ih =>
      rw [List.cons_append, List.append_assoc, List.cons_append]
      exact .map hlt hlen hcontent ih
  | array hlt hlen hcontent _ _ ih =>
      rw [List.cons_append, List.append_assoc, List.cons_append]
      exact .array hlt hlen hcontent ih

/-- From `P (v :: vs)` the next call delivers `v` and leads to `P vs`. -/
def Serves (H : Option (UnpackUnderflowHandler σ)) (P : List Value → UnpackState σ → Prop) : Prop :=
  ∀ v vs s, P (v :: vs) s → ∃ s', cwUnpackNext H s = some s' ∧ s'.uc.returnCode = cwpRcOk ∧
    s'.Denotes v ∧ P vs s'

section Reading

variable {F : FloatUnit} {H : Option (UnpackUnderflowHandler σ)} {s s' : UnpackState σ}

/-- The size of a container is in the front of the union. -/
theorem front_of_denotes {v : Value} {n : Nat} (hv : v = .array n ∨ v = .map n)
    (h : s.Denotes v) : s.uc.item.as.front = n := by
  obtain ⟨htype, hvalue⟩ := h
  cases has : s.uc.item.as with
  | container size =>
      rcases hv with rfl | rfl <;>
        · rw [CwpackItem.value, htype, has] at hvalue
          simpa [itemType, ItemAs.front] using hvalue
  | _ =>
      rcases hv with rfl | rfl <;>
        · rw [CwpackItem.value, htype, has] at hvalue
          simp [itemType] at hvalue

/-- A size below `2 ^ 31` is not changed by the assignment to an `int`. -/
theorem readContainer_of_lt {next : UnpackState σ → Option (Except Int (ItemRoot × UnpackState σ))}
    {make : List ItemRoot → ItemRoot} {n : Nat} (hn : n < 2 ^ 31) {items : List ItemRoot}
    (h : readItems next n s = some (.ok (items, s'))) :
    readContainer next make n s = some (.ok (make items, s')) := by
  have hdim : twosComplement 32 n = n := by
    unfold twosComplement
    rw [if_pos (by omega)]
  simp only [readContainer, hdim]
  rw [if_neg (by omega), Int.toNat_natCast, h]

/-- An integer is assigned to a `long long`, of whatever sign it is. -/
theorem integer_of_denotes {v : Int} (h : s.Denotes (.int v)) :
    (s.uc.item.type = .positiveInteger ∨ s.uc.item.type = .negativeInteger) ∧
      Int64.ofInt s.uc.item.as.i64 = .ofInt v := by
  by_cases hv : 0 ≤ v
  · obtain ⟨htype, hfront⟩ := denotes_nonneg hv h
    refine ⟨Or.inl htype, ?_⟩
    rw [ItemAs.i64, ← hfront]
    apply Int64.toInt_inj.mp
    rw [Int64.toInt_ofInt, Int64.toInt_ofInt, twosComplement]
    split
    · rfl
    · have hsize : Int64.size = 2 ^ 64 := rfl
      rw [hsize, Int.bmod_def, Int.bmod_def]
      omega
  · obtain ⟨htype, hvalue⟩ := denotes_negative (Int.not_le.mp hv) h
    exact ⟨Or.inr htype, by rw [hvalue]⟩

/-- One item without content. -/
theorem packContext2item3_leaf {v : Value} {item : ItemRoot} (hcall : cwUnpackNext H s = some s')
    (hrc : s'.uc.returnCode = cwpRcOk) (hden : s'.Denotes v) (hleaf : leafItem F v = some item)
    (fuel : Nat) : packContext2item3 F H (fuel + 1) s = some (.ok (item, s')) := by
  have hvalue := hden.2
  rw [packContext2item3, hcall]
  simp only
  rw [if_neg (not_not_intro hrc)]
  cases v with
  | int v =>
      obtain ⟨htype, hint⟩ := integer_of_denotes hden
      obtain rfl := Option.some.inj hleaf
      rcases htype with htype | htype <;> rw [htype] <;> simp only [hint]
  | str bs =>
      rw [hden.1]
      rw [CwpackItem.value, hden.1] at hvalue
      cases has : s'.uc.item.as <;> rw [has] at hvalue <;> simp [itemType] at hvalue
      obtain rfl := Option.some.inj hleaf
      subst hvalue
      rfl
  | bool b =>
      rw [hden.1]
      rw [CwpackItem.value, hden.1] at hvalue
      cases has : s'.uc.item.as <;> rw [has] at hvalue <;> simp [itemType] at hvalue
      obtain rfl := Option.some.inj hleaf
      subst hvalue
      rename_i b
      cases b <;> rfl
  | float bits =>
      rw [hden.1]
      rw [CwpackItem.value, hden.1] at hvalue
      cases has : s'.uc.item.as <;> rw [has] at hvalue <;> simp [itemType] at hvalue
      obtain rfl := Option.some.inj hleaf
      subst hvalue
      rfl
  | double bits =>
      rw [hden.1]
      rw [CwpackItem.value, hden.1] at hvalue
      obtain rfl := Option.some.inj hleaf
      simp [itemType] at hvalue
      subst hvalue
      rfl
  | array n => simp [leafItem] at hleaf
  | map n => simp [leafItem] at hleaf
  | _ =>
      rw [hden.1]
      obtain rfl := Option.some.inj hleaf
      rfl

/-- Items are read from the values that depict them. -/
theorem readItems_of_depicts {P : List Value → UnpackState σ → Prop} (hserves : Serves H P)
    {vs : List Value} {items : List ItemRoot} (h : Depicts F vs items) :
    ∀ (fuel : Nat) (rest : List Value) (s : UnpackState σ), heights items ≤ fuel →
      P (vs ++ rest) s →
      ∃ s', readItems (packContext2item3 F H fuel) items.length s = some (.ok (items, s')) ∧
        P rest s' := by
  induction h with
  | done =>
      intro fuel rest s _ hP
      exact ⟨s, rfl, hP⟩
  | @leaf v item vs items hleaf hrest ih =>
      intro fuel rest s hfuel hP
      have hpos := item.height_pos
      rw [heights] at hfuel
      obtain ⟨fuel, rfl⟩ := Nat.exists_eq_succ_of_ne_zero (Nat.ne_of_gt (by omega : 0 < fuel))
      obtain ⟨s₁, hcall, hrc, hden, hP₁⟩ := hserves _ _ _ hP
      obtain ⟨s', hread, hP'⟩ := ih (fuel + 1) rest s₁ (by omega) hP₁
      refine ⟨s', ?_, hP'⟩
      simp only [List.length_cons, readItems, packContext2item3_leaf hcall hrc hden hleaf fuel]
      rw [hread]
  | @map n ws vs content items hlt hlen hcontent hrest ihc ihr =>
      intro fuel rest s hfuel hP
      rw [heights, ItemRoot.height] at hfuel
      obtain ⟨fuel, rfl⟩ := Nat.exists_eq_succ_of_ne_zero (Nat.ne_of_gt (by omega : 0 < fuel))
      rw [List.cons_append, List.append_assoc] at hP
      obtain ⟨s₁, hcall, hrc, hden, hP₁⟩ := hserves _ _ _ hP
      obtain ⟨s₂, hinner, hP₂⟩ := ihc fuel (vs ++ rest) s₁ (by omega) hP₁
      obtain ⟨s', hread, hP'⟩ := ihr (fuel + 1) rest s₂ (by omega) hP₂
      refine ⟨s', ?_, hP'⟩
      have hfront := front_of_denotes (Or.inr rfl) hden
      have hmod : 2 * n % 2 ^ 32 = 2 * n := Nat.mod_eq_of_lt (by omega)
      have hone : packContext2item3 F H (fuel + 1) s = some (.ok (.map content, s₂)) := by
        rw [packContext2item3, hcall]
        simp only
        rw [if_neg (not_not_intro hrc), hden.1]
        simp only [itemType]
        rw [hfront, hmod]
        exact readContainer_of_lt (by omega) (by rw [← hlen]; exact hinner)
      simp only [List.length_cons, readItems, hone]
      rw [hread]
  | @array n ws vs content items hlt hlen hcontent hrest ihc ihr =>
      intro fuel rest s hfuel hP
      rw [heights, ItemRoot.height] at hfuel
      obtain ⟨fuel, rfl⟩ := Nat.exists_eq_succ_of_ne_zero (Nat.ne_of_gt (by omega : 0 < fuel))
      rw [List.cons_append, List.append_assoc] at hP
      obtain ⟨s₁, hcall, hrc, hden, hP₁⟩ := hserves _ _ _ hP
      obtain ⟨s₂, hinner, hP₂⟩ := ihc fuel (vs ++ rest) s₁ (by omega) hP₁
      obtain ⟨s', hread, hP'⟩ := ihr (fuel + 1) rest s₂ (by omega) hP₂
      refine ⟨s', ?_, hP'⟩
      have hfront := front_of_denotes (Or.inl rfl) hden
      have hone : packContext2item3 F H (fuel + 1) s = some (.ok (.array content, s₂)) := by
        rw [packContext2item3, hcall]
        simp only
        rw [if_neg (not_not_intro hrc), hden.1]
        simp only [itemType]
        rw [hfront]
        exact readContainer_of_lt hlt (by rw [← hlen]; exact hinner)
      simp only [List.length_cons, readItems, hone]
      rw [hread]

end Reading

/-! ## From a stream -/

/-- A stream that begins with what spells out the values serves them. -/
theorem stream_serves {realloc : Allocator} (hheap : ∀ i n, (realloc i n).isSome)
    (tail : List UInt8) :
    Serves (some (handleStreamUnpackUnderflow 64 realloc)) fun vs s =>
      s.uc.returnCode = cwpRcOk ∧ ∃ b, SpellsOut vs b ∧ StreamFed (b ++ tail) s.input := by
  rintro v vs s ⟨hrc, b, ⟨bs, rest, rfl, hv, hrest⟩, hfed⟩
  rw [List.append_assoc] at hfed
  obtain ⟨s', hcall, hrc', hden, hfed'⟩ := cwUnpackNext_stream hheap hrc hfed (hv (rest ++ tail))
  rw [List.drop_left] at hfed'
  exact ⟨s', hcall, hrc', hden, hrc', rest, hrest, hfed'⟩

/-- The first tree of a file is read, whatever lies behind it. -/
theorem cwpackFile2item3_of_depicts (F : FloatUnit) {realloc : Allocator}
    (hheap : ∀ i n, (realloc i n).isSome) {vs : List Value} {item : ItemRoot} {b tail : List UInt8}
    (hspell : SpellsOut vs b) (hdepicts : Depicts F vs [item]) {fuel : Nat}
    (hfuel : item.height ≤ fuel) {file : InputFile} (hfile : file.unread = b ++ tail)
    (s : UnpackState StreamUnpackEnv) :
    cwpackFile2item3 F 64 realloc fuel file s = some (.ok item) := by
  have hzero : (0 : Nat) < 2 ^ 64 := by decide
  obtain ⟨hrc, hfed⟩ := streamFed_init hheap hzero file s
  rw [hfile] at hfed
  have hheights : heights [item] ≤ fuel := by
    simp only [heights]
    omega
  obtain ⟨s', hread, -⟩ := readItems_of_depicts (stream_serves hheap tail) hdepicts fuel []
    (initStreamUnpackContext realloc 0 file s) hheights
    ⟨hrc, b, by rw [List.append_nil]; exact hspell, hfed⟩
  simp only [List.length_singleton, readItems] at hread
  simp only [cwpackFile2item3]
  cases hone : packContext2item3 F (some (handleStreamUnpackUnderflow 64 realloc)) fuel
      (initStreamUnpackContext realloc 0 file s) with
  | none => simp [hone] at hread
  | some r =>
      cases r with
      | error rc => simp [hone] at hread
      | ok x =>
          obtain ⟨item', s₁⟩ := x
          rw [hone] at hread
          simp only [Option.some.injEq, Except.ok.injEq, Prod.mk.injEq, List.cons.injEq,
            and_true] at hread
          rw [hread.1]

/-- What has content is a container. -/
theorem container_of_leafItem {F : FloatUnit} {v : Value} (h : leafItem F v = none) :
    v = .array v.children ∨ ∃ n, v = .map n ∧ v.children = 2 * n := by
  cases v with
  | array n => exact Or.inl rfl
  | map n => exact Or.inr ⟨n, rfl, rfl⟩
  | _ => simp [leafItem] at h

theorem children_of_leafItem {F : FloatUnit} {v : Value} {item : ItemRoot}
    (h : leafItem F v = some item) : v.children = 0 := by
  cases v with
  | array n => simp [leafItem] at h
  | map n => simp [leafItem] at h
  | _ => rfl

/-- What is gone through spells out values that depict as many items.  An item takes a
byte at least, so no count in a file of less than `2 ^ 31` bytes is too great. -/
theorem depicts_of_through (F : FloatUnit) {n : Nat} {b b' : List UInt8}
    (h : Through itemHeader n b b') (hlen : b.length < 2 ^ 31) :
    ∃ vs items p, b = p ++ b' ∧ SpellsOut vs p ∧ Depicts F vs items ∧ items.length = n ∧
      n ≤ p.length := by
  induction h with
  | done b => exact ⟨[], [], [], rfl, rfl, .done, rfl, Nat.le_refl _⟩
  | @item n m b b₁ b₂ b₃ hheader hcontent hrest ihc ihr =>
      obtain ⟨v, k, hread, rfl, rfl⟩ := itemHeader_eq_content hheader
      obtain ⟨hk, hspell⟩ := spells_of_readItem hread
      have hpos := (readItem_pos hread).1
      have hdrop : (b.drop k).length = b.length - k := List.length_drop
      obtain ⟨ws, content, p, hp, hws, hcontent', hcount, hle⟩ := ihc (by omega)
      have hlen₂ := congrArg List.length hp
      rw [List.length_append] at hlen₂
      obtain ⟨vs, items, q, hq, hvs, hitems, hcount', hle'⟩ := ihr (by omega)
      have hb : b = b.take k ++ (p ++ q) ++ b₃ := by
        rw [List.append_assoc, List.append_assoc, ← hq, ← hp, List.take_append_drop]
      have htake : (b.take k).length = k := by
        rw [List.length_take]
        omega
      have hbytes : n + 1 ≤ (b.take k ++ (p ++ q)).length := by
        rw [List.length_append, List.length_append]
        omega
      refine ⟨v :: (ws ++ vs), ?_⟩
      have hall : SpellsOut (v :: (ws ++ vs)) (b.take k ++ (p ++ q)) :=
        ⟨b.take k, p ++ q, rfl, hspell, hws.append hvs⟩
      cases hleaf : leafItem F v with
      | some item =>
          have hzero := children_of_leafItem hleaf
          obtain rfl : content = [] := List.length_eq_zero_iff.mp (hcount.trans hzero)
          cases hcontent' with
          | done => exact ⟨item :: items, _, hb, hall, .leaf hleaf hitems, by rw [List.length_cons,
              hcount'], hbytes⟩
      | none =>
          rcases container_of_leafItem hleaf with harray | ⟨i, rfl, hi⟩
          · refine ⟨.array content :: items, _, hb, hall, ?_, by rw [List.length_cons, hcount'],
              hbytes⟩
            rw [harray]
            exact .array (by omega) hcount hcontent' hitems
          · exact ⟨.map content :: items, _, hb, hall, .map (by omega) (hcount.trans hi) hcontent'
              hitems, by rw [List.length_cons, hcount'], hbytes⟩

/-- A file of less than `2 ^ 31` bytes that begins with a complete item, with all the items
it contains, is read as the tree these items depict. -/
theorem cwpackFile2item3_of_complete (F : FloatUnit) {realloc : Allocator}
    (hheap : ∀ i n, (realloc i n).isSome) (file : InputFile) (rest : List UInt8)
    (hcomplete : Through itemHeader 1 file.unread rest) (hlen : file.unread.length < 2 ^ 31)
    (s : UnpackState StreamUnpackEnv) :
    ∃ vs p item, file.unread = p ++ rest ∧ SpellsOut vs p ∧ Depicts F vs [item] ∧
      ∀ fuel, item.height ≤ fuel →
        cwpackFile2item3 F 64 realloc fuel file s = some (.ok item) := by
  obtain ⟨vs, items, p, hfile, hspell, hdepicts, hone, -⟩ := depicts_of_through F hcomplete hlen
  obtain ⟨item, rfl⟩ := List.length_eq_one_iff.mp hone
  exact ⟨vs, p, item, hfile, hspell, hdepicts, fun fuel hfuel =>
    cwpackFile2item3_of_depicts F hheap hspell hdepicts hfuel hfile s⟩

theorem cwpackFile2item3_of_complete_binary :
    ∃ vs p item, [0x92, 0xc0, 0xc4, 0x01, 0x07, 0xff] = p ++ [0xff] ∧ SpellsOut vs p ∧
      Depicts FloatUnit.native vs [item] ∧ ∀ fuel, item.height ≤ fuel →
        cwpackFile2item3 FloatUnit.native 64 (fixedHeap 0) fuel
          ⟨[0x92, 0xc0, 0xc4, 0x01, 0x07, 0xff], false, 0⟩ blankStreamUnpack = some (.ok item) :=
  cwpackFile2item3_of_complete FloatUnit.native (fun _ _ => rfl)
    ⟨[0x92, 0xc0, 0xc4, 0x01, 0x07, 0xff], false, 0⟩ [0xff]
    (.item (m := 2) rfl (.item (m := 0) rfl (.done _) (.item (m := 0) rfl (.done _) (.done _)))
      (.done _))
    (by decide) blankStreamUnpack

/-! ## Trees that can be packed -/

mutual

/-- Counts are those of `int`, associations are complete, strings leave room for a
header, and no item is missing. -/
def ItemRoot.WellFormed : ItemRoot → Prop
  | .map items => items.length < 2 ^ 31 ∧ 2 ∣ items.length ∧ AllWellFormed items
  | .array items => items.length < 2 ^ 31 ∧ AllWellFormed items
  | .string characters => characters.length < 2 ^ 32 - 6
  | .null => False
  | _ => True

def AllWellFormed : List ItemRoot → Prop
  | [] => True
  | item :: items => item.WellFormed ∧ AllWellFormed items

end

mutual

/-- The calls that pack an item. -/
def ItemRoot.calls : ItemRoot → List PackCall
  | .map items => .mapSize (.ofNat (items.length / 2)) :: itemCalls items
  | .array items => .arraySize (.ofNat items.length) :: itemCalls items
  | .nil => [.nil]
  | .true_ => [.boolean true]
  | .false_ => [.boolean false]
  | .integer value => [.signed value]
  | .real value => [.double value]
  | .string characters => [.str (castBlob (beforeNul characters))]
  | .null => []

def itemCalls : List ItemRoot → List PackCall
  | [] => []
  | item :: items => item.calls ++ itemCalls items

end

mutual

/-- The item with its strings cut at the first NUL. -/
def ItemRoot.cut : ItemRoot → ItemRoot
  | .map items => .map (cutItems items)
  | .array items => .array (cutItems items)
  | .string characters => .string (beforeNul characters)
  | item => item

def cutItems : List ItemRoot → List ItemRoot
  | [] => []
  | item :: items => item.cut :: cutItems items

end

mutual

theorem height_cut (item : ItemRoot) : item.cut.height = item.height := by
  cases item with
  | map items => rw [ItemRoot.cut, ItemRoot.height, heights_cut items, ItemRoot.height]
  | array items => rw [ItemRoot.cut, ItemRoot.height, heights_cut items, ItemRoot.height]
  | _ => rfl

theorem heights_cut (items : List ItemRoot) : heights (cutItems items) = heights items := by
  cases items with
  | nil => rfl
  | cons item items => rw [cutItems, heights, height_cut item, heights_cut items, heights]

end

@[simp] theorem cutItems_length (items : List ItemRoot) :
    (cutItems items).length = items.length := by
  induction items with
  | nil => rfl
  | cons item items ih => rw [cutItems, List.length_cons, List.length_cons, ih]

theorem beforeNul_length_le (characters : List UInt8) :
    (beforeNul characters).length ≤ characters.length :=
  (List.takeWhile_prefix _).length_le

theorem beforeNul_idem (characters : List UInt8) :
    beforeNul (beforeNul characters) = beforeNul characters :=
  List.takeWhile_idem

/-- What has no NUL in it is copied as it is. -/
theorem strncpy_beforeNul (characters : List UInt8) :
    strncpy (beforeNul characters) = beforeNul characters := by
  rw [strncpy, beforeNul_idem, Nat.sub_self, List.replicate_zero, List.append_nil]

section Packing

variable {H : PackHandlers σ}

mutual

/-- Packing an item is a run of packing calls. -/
theorem item32packContext_eq_run (item : ItemRoot) (h : item.WellFormed) (s : PackState σ) :
    item32packContext H item s = run (PackOp.perform H) (item.calls.map .call) s := by
  have hone : ∀ c : PackCall, run (PackOp.perform H) [.call c] s = cwPack H c s := by
    intro c
    simp only [run, PackOp.perform]
    cases cwPack H c s <;> rfl
  cases item with
  | map items =>
      simp only [item32packContext, ItemRoot.calls, List.map_cons, run, PackOp.perform, cwPack]
      cases cwPackMapSize H (.ofNat (items.length / 2)) s with
      | none => rfl
      | some s => exact packItems_eq_run items h.2.2 s
  | array items =>
      simp only [item32packContext, ItemRoot.calls, List.map_cons, run, PackOp.perform, cwPack]
      cases cwPackArraySize H (.ofNat items.length) s with
      | none => rfl
      | some s => exact packItems_eq_run items h.2 s
  | null => exact h.elim
  | nil => exact (hone .nil).symm
  | true_ => exact (hone (.boolean true)).symm
  | false_ => exact (hone (.boolean false)).symm
  | integer value => exact (hone (.signed value)).symm
  | real value => exact (hone (.double value)).symm
  | string characters => exact (hone (.str (castBlob (beforeNul characters)))).symm

theorem packItems_eq_run (items : List ItemRoot) (h : AllWellFormed items) (s : PackState σ) :
    packItems H items s = run (PackOp.perform H) ((itemCalls items).map .call) s := by
  cases items with
  | nil => rfl
  | cons item items =>
      simp only [packItems, itemCalls, List.map_append, run_append,
        item32packContext_eq_run item h.1 s]
      cases run (PackOp.perform H) (item.calls.map .call) s with
      | none => rfl
      | some s => exact packItems_eq_run items h.2 s

end

end Packing

mutual

/-- The calls are legal, short, and their values depict the item. -/
theorem depicts_calls (F : FloatUnit) (item : ItemRoot) (h : item.WellFormed) :
    Depicts F (item.calls.map (PackCall.received false)) [item.cut] ∧
      ∀ c ∈ item.calls, c.refusal false = none ∧ c.payload < 2 ^ 32 - 6 ∧ ¬ c.IsTimestampExt := by
  have hleaf : ∀ {c : PackCall} {item' : ItemRoot}, leafItem F (c.received false) = some item' →
      Depicts F ([c].map (PackCall.received false)) [item'] := fun h => .leaf h .done
  have hplain : ∀ {c : PackCall}, c.refusal false = none → c.payload < 2 ^ 32 - 6 →
      ¬ c.IsTimestampExt → ∀ c' ∈ [c],
        c'.refusal false = none ∧ c'.payload < 2 ^ 32 - 6 ∧ ¬ c'.IsTimestampExt := by
    intro c hrefusal hpayload hext c' hc'
    obtain rfl := List.mem_singleton.mp hc'
    exact ⟨hrefusal, hpayload, hext⟩
  have hzero : (0 : Nat) < 2 ^ 32 - 6 := by decide
  cases item with
  | map items =>
      obtain ⟨hlt, ⟨n, hn⟩, hall⟩ := h
      obtain ⟨hdepicts, hcalls⟩ := depicts_itemCalls F items hall
      have hsize : (UInt32.ofNat (items.length / 2)).toNat = n := by
        rw [UInt32.toNat_ofNat', Nat.mod_eq_of_lt (by omega)]
        omega
      have hmap : Depicts F (.map n :: ((itemCalls items).map (PackCall.received false) ++ []))
          [.map (cutItems items)] :=
        .map (by omega) (by rw [cutItems_length]; exact hn) hdepicts .done
      rw [List.append_nil, ← hsize] at hmap
      refine ⟨hmap, fun c hc => ?_⟩
      rcases List.mem_cons.mp hc with rfl | hc
      · exact ⟨rfl, hzero, id⟩
      · exact hcalls c hc
  | array items =>
      obtain ⟨hlt, hall⟩ := h
      obtain ⟨hdepicts, hcalls⟩ := depicts_itemCalls F items hall
      have hsize : (UInt32.ofNat items.length).toNat = items.length := by
        rw [UInt32.toNat_ofNat', Nat.mod_eq_of_lt (by omega)]
      have harray : Depicts F
          (.array items.length :: ((itemCalls items).map (PackCall.received false) ++ []))
          [.array (cutItems items)] :=
        .array hlt (cutItems_length items) hdepicts .done
      rw [List.append_nil, ← hsize] at harray
      refine ⟨harray, fun c hc => ?_⟩
      rcases List.mem_cons.mp hc with rfl | hc
      · exact ⟨rfl, hzero, id⟩
      · exact hcalls c hc
  | null => exact h.elim
  | nil => exact ⟨hleaf rfl, hplain rfl hzero id⟩
  | true_ => exact ⟨hleaf rfl, hplain rfl hzero id⟩
  | false_ => exact ⟨hleaf rfl, hplain rfl hzero id⟩
  | integer value =>
      refine ⟨hleaf ?_, hplain rfl hzero id⟩
      show some (ItemRoot.integer (.ofInt value.toInt)) = some (.integer value)
      rw [Int64.ofInt_toInt]
  | real value =>
      refine ⟨hleaf ?_, hplain rfl hzero id⟩
      show some (ItemRoot.real (.ofNat value.toNat)) = some (.real value)
      rw [UInt64.ofNat_toNat]
  | string characters =>
      have hlt : characters.length < 2 ^ 32 - 6 := h
      have hle := beforeNul_length_le characters
      have hbytes : (castBlob (beforeNul characters)).bytes = beforeNul characters :=
        castBlob_of_lt (by omega)
      refine ⟨hleaf ?_, hplain rfl ?_ id⟩
      · show some (ItemRoot.string (strncpy (castBlob (beforeNul characters)).bytes)) = _
        rw [hbytes, strncpy_beforeNul]
        rfl
      · show (castBlob (beforeNul characters)).bytes.length < 2 ^ 32 - 6
        rw [hbytes]
        omega

theorem depicts_itemCalls (F : FloatUnit) (items : List ItemRoot) (h : AllWellFormed items) :
    Depicts F ((itemCalls items).map (PackCall.received false)) (cutItems items) ∧
      ∀ c ∈ itemCalls items,
        c.refusal false = none ∧ c.payload < 2 ^ 32 - 6 ∧ ¬ c.IsTimestampExt := by
  cases items with
  | nil => exact ⟨.done, fun c hc => absurd hc List.not_mem_nil⟩
  | cons item items =>
      obtain ⟨hone, hcalls⟩ := depicts_calls F item h.1
      obtain ⟨hrest, hcalls'⟩ := depicts_itemCalls F items h.2
      refine ⟨?_, fun c hc => ?_⟩
      · rw [itemCalls, List.map_append]
        exact hone.append hrest
      · rcases List.mem_append.mp hc with hc | hc
        · exact hcalls c hc
        · exact hcalls' c hc

end

/-! ## Through the file -/

/-- What a tree is in MessagePack. -/
def ItemRoot.encoded (item : ItemRoot) : List UInt8 :=
  concat (encodings false (item.calls.map .call))

theorem encodings_map_call (calls : List PackCall) :
    encodings false (calls.map .call) = calls.map (PackCall.encoding false) := by
  induction calls with
  | nil => rfl
  | cons c calls ih => simp only [List.map_cons, encodings, ih]

theorem received_map_call (calls : List PackCall) :
    received false (calls.map .call) = calls.map (PackCall.received false) := by
  induction calls with
  | nil => rfl
  | cons c calls ih => simp only [List.map_cons, received, ih]

/-- A tree is packed legally, and its encoding spells out its values. -/
theorem ItemRoot.WellFormed.legal {item : ItemRoot} (h : item.WellFormed) :
    Legal false (item.calls.map .call) ∧ (∀ op ∈ item.calls.map PackOp.call, op.Short) ∧
      SpellsOut (item.calls.map (PackCall.received false)) item.encoded := by
  obtain ⟨-, hcalls⟩ := depicts_calls FloatUnit.native item h
  have hlegal : Legal false (item.calls.map .call) := by
    intro enc henc
    rw [encodings_map_call] at henc
    obtain ⟨c, hc, rfl⟩ := List.mem_map.mp henc
    exact ⟨encode false c.value, by rw [PackCall.encoding, (hcalls c hc).1]⟩
  refine ⟨hlegal, ?_, ?_⟩
  · intro op hop
    obtain ⟨c, hc, rfl⟩ := List.mem_map.mp hop
    exact (hcalls c hc).2.1
  · rw [← received_map_call]
    refine spellsOut_encodings ?_ hlegal
    intro op hop
    obtain ⟨c, hc, rfl⟩ := List.mem_map.mp hop
    exact (hcalls c hc).2.2

/-- A tree is written as its encoding. -/
theorem item32cwpackFile_of_wellFormed {malloc : Allocator} (hheap : ∀ i n, (malloc i n).isSome)
    {disk : FwriteResults} (hdisk : ∀ i n, disk i n = none) {item : ItemRoot}
    (h : item.WellFormed) (s : PackState StreamPackEnv) :
    ∃ file, item32cwpackFile 64 malloc disk .opened item s = some file ∧
      file.written = item.encoded := by
  obtain ⟨hlegal, hshort, -⟩ := h.legal
  have hten : (10 : Nat) < 2 ^ 64 := by decide
  obtain ⟨hlog₀, hcompat⟩ := streamLog_init hheap hten s
  have hrun := (stream_sinks hheap hdisk 0 item.encoded.length).run (item.calls.map .call) hshort
    hlog₀ (by rw [hcompat]; exact hlegal) (by rw [hcompat, List.length_nil, Nat.zero_add]; rfl)
  rw [hcompat] at hrun
  obtain ⟨s₁, hrun, hlog, -⟩ := hrun.exists_of_not_stuck
  obtain ⟨s₂, hterm, -, -, hwritten⟩ := cwPackFlush_stream malloc hdisk hlog
  refine ⟨s₂.env.file, ?_, by rw [hwritten, hlog.content rfl]; rfl⟩
  simp only [item32cwpackFile, item32packContext_eq_run item h, hrun, terminateStreamPackContext,
    hterm]

/-- A tree that was written is read back, with its strings cut at the first NUL, whatever
else the file holds behind it. -/
theorem cwpackFile2item3_item32cwpackFile (F : FloatUnit) (malloc realloc : Allocator)
    (hmalloc : ∀ i n, (malloc i n).isSome) (hrealloc : ∀ i n, (realloc i n).isSome)
    (disk : FwriteResults) (hdisk : ∀ i n, disk i n = none) (item : ItemRoot)
    (hitem : item.WellFormed) (s : PackState StreamPackEnv) (u : UnpackState StreamUnpackEnv)
    (fuel : Nat) (hfuel : item.height ≤ fuel) :
    ∃ file, item32cwpackFile 64 malloc disk .opened item s = some file ∧
      ∀ (tail : List UInt8) (eof : Bool) (error : Int),
        cwpackFile2item3 F 64 realloc fuel ⟨file.written ++ tail, eof, error⟩ u =
          some (.ok item.cut) := by
  obtain ⟨file, hpack, hwritten⟩ := item32cwpackFile_of_wellFormed hmalloc hdisk hitem s
  refine ⟨file, hpack, fun tail eof error => ?_⟩
  obtain ⟨-, -, hspell⟩ := hitem.legal
  obtain ⟨hdepicts, -⟩ := depicts_calls F item hitem
  have hfile : file.written ++ tail = item.encoded ++ tail := by rw [hwritten]
  exact cwpackFile2item3_of_depicts F hrealloc hspell hdepicts (by rw [height_cut]; exact hfuel)
    hfile u

theorem cwpackFile2item3_item32cwpackFile_inner_nul :
    ∃ file, item32cwpackFile 64 (fixedHeap 0) reliableDisk .opened
        (.map [.string [0x61], .array [.integer (-5), .string [0x62, 0, 0x63]]]) blankStream =
          some file ∧
      ∀ (tail : List UInt8) (eof : Bool) (error : Int),
        cwpackFile2item3 FloatUnit.native 64 (fixedHeap 0) 3 ⟨file.written ++ tail, eof, error⟩
          blankStreamUnpack =
          some (.ok (.map [.string [0x61], .array [.integer (-5), .string [0x62]]])) :=
  cwpackFile2item3_item32cwpackFile FloatUnit.native (fixedHeap 0) (fixedHeap 0) (fun _ _ => rfl)
    (fun _ _ => rfl) reliableDisk (fun _ _ => rfl)
    (.map [.string [0x61], .array [.integer (-5), .string [0x62, 0, 0x63]]])
    (by simp [ItemRoot.WellFormed, AllWellFormed]) blankStream blankStreamUnpack 3
    (by simp [ItemRoot.height, heights])

end CWPack.Example
