/-
  Core/Trees.lean --- complete items as trees.

  A container is read header first, and the items of its content lie behind it.  A
  tree keeps an item together with its content; each node has the piece of the
  input that is read in one go.  What is gone through item by item is the bytes of
  complete trees, and of nothing else.
-/
import CWPack.Core.Canonical
import CWPack.Core.Spelling
import CWPack.Core.StaticUnpack

set_option autoImplicit false

namespace CWPack.Core

open CWPack.Foundation
open CWPack.MessagePack

/-- Bytes from which a value is read, whatever follows. -/
structure Piece where
  bytes : List UInt8
  value : Value
  spells : Spells bytes value

/-- The piece that is read at the beginning of some bytes. -/
def Piece.ofRead {b : List UInt8} {v : Value} {n : Nat} (h : readItem b = .ok (v, n)) : Piece :=
  ⟨b.take n, v, (spells_of_readItem h).2⟩

/-- An item, with the items of its content. -/
inductive ItemTree where
  | node (head : Piece) (content : List ItemTree)

namespace ItemTree

/-- The piece that is read first. -/
def head : ItemTree → Piece
  | node head _ => head

def content : ItemTree → List ItemTree
  | node _ content => content

end ItemTree

mutual

/-- The bytes of an item. -/
def ItemTree.bytes : ItemTree → List UInt8
  | .node head content => head.bytes ++ forestBytes content

/-- The bytes of items. -/
def forestBytes : List ItemTree → List UInt8
  | [] => []
  | t :: ts => t.bytes ++ forestBytes ts

end

mutual

/-- The content is as long as the header says, down to the leaves. -/
def ItemTree.Complete : ItemTree → Prop
  | .node head content => content.length = head.value.children ∧ AllComplete content

/-- All the items are complete. -/
def AllComplete : List ItemTree → Prop
  | [] => True
  | t :: ts => t.Complete ∧ AllComplete ts

end

/-! ## Lengths -/

/-- Where a format makes a string, it makes it of the bytes of the payload. -/
def MakesStrings : Format → Prop
  | .single v => ∀ bs, v ≠ .str bs
  | .number _ mk => ∀ n bs, mk n ≠ .str bs
  | .fixed _ mk => ∀ payload bs, mk payload = .str bs → payload = bs
  | .blob _ mk => ∀ payload bs, mk payload = .str bs → payload = bs
  | _ => True

theorem format_makes_strings {c : UInt8} {f : Format} (h : format c = some f) : MakesStrings f := by
  unfold format at h
  repeat' split at h
  all_goals simp only [Option.some.injEq, reduceCtorEq] at h
  all_goals
    subst h
    simp [MakesStrings]

theorem ne_str_of_readsAs {type : Int8} {v : Value} (h : ReadsAs type v) (bs : List UInt8) :
    v ≠ .str bs := by
  cases h with
  | ext payload => simp
  | timestamp payload htype =>
      unfold timestampValue
      split
      · simp
      · split <;> simp

/-- A string is shorter than its item. -/
theorem length_lt_of_readItem_str {b bs : List UInt8} {n : Nat}
    (h : readItem b = .ok (.str bs, n)) : bs.length < n := by
  obtain ⟨c, w, f, rfl, hf, hread⟩ := readItem_eq_ok h
  have hmakes := format_makes_strings hf
  generalize hv : Value.str bs = v at hread
  cases hread with
  | single => exact absurd hv.symm (hmakes bs)
  | number k mk hk => exact absurd hv.symm (hmakes _ bs)
  | fixed k mk hk =>
      obtain rfl := hmakes _ bs hv.symm
      rw [List.length_take]
      omega
  | blob k mk hall =>
      obtain rfl := hmakes _ bs hv.symm
      rw [List.length_take]
      omega
  | fixext k hk hreads => exact absurd hv.symm (ne_str_of_readsAs hreads bs)
  | ext k hall hreads => exact absurd hv.symm (ne_str_of_readsAs hreads bs)

/-- The seconds of a time are a number of 64 bits. -/
theorem sec_bounds_of_readItem {b : List UInt8} {sec : Int} {nsec n : Nat}
    (h : readItem b = .ok (.timestamp sec nsec, n)) : -2 ^ 63 ≤ sec ∧ sec < 2 ^ 63 := by
  rcases readItem_cases h with hdec | ⟨payload, hvalue, hlen, -, -⟩
  · exact absurd rfl (ne_timestamp_of_item (item_of_decode hdec).2 sec nsec)
  · exact timestampValue_sec hlen hvalue.symm

theorem Piece.length_pos (p : Piece) : 0 < p.bytes.length := by
  have hread := p.spells []
  rw [List.append_nil] at hread
  exact (readItem_pos hread).1

theorem ItemTree.bytes_eq (t : ItemTree) : t.bytes = t.head.bytes ++ forestBytes t.content := by
  cases t with
  | node head content => rw [bytes]; rfl

theorem ItemTree.bytes_length (t : ItemTree) :
    t.bytes.length = t.head.bytes.length + (forestBytes t.content).length := by
  rw [t.bytes_eq, List.length_append]

/-- Every item takes a byte at least. -/
theorem length_le_forestBytes (ts : List ItemTree) : ts.length ≤ (forestBytes ts).length := by
  induction ts with
  | nil => exact Nat.le_refl 0
  | cons t ts ih =>
      have hpos := t.head.length_pos
      rw [forestBytes, List.length_append, t.bytes_length, List.length_cons]
      omega

theorem ItemTree.readItem_bytes (t : ItemTree) (rest : List UInt8) :
    readItem (t.bytes ++ rest) = .ok (t.head.value, t.head.bytes.length) := by
  rw [t.bytes_eq, List.append_assoc]
  exact t.head.spells _

theorem ItemTree.drop_head (t : ItemTree) (rest : List UInt8) :
    (t.bytes ++ rest).drop t.head.bytes.length = forestBytes t.content ++ rest := by
  rw [t.bytes_eq, List.append_assoc, List.drop_left]

theorem ItemTree.content_of_leaf (t : ItemTree) (ht : t.Complete) (hleaf : t.head.value.children = 0) :
    t.content = [] := by
  cases t with
  | node head content => exact List.length_eq_zero_iff.mp (ht.1.trans hleaf)

/-- The items that are gone through are complete trees. -/
theorem exists_forest {n : Nat} {b b' : List UInt8} (h : Through itemHeader n b b') :
    ∃ ts : List ItemTree, ts.length = n ∧ AllComplete ts ∧ b = forestBytes ts ++ b' := by
  induction h with
  | done b => exact ⟨[], rfl, trivial, rfl⟩
  | item hheader _ _ ihContent ihRest =>
      obtain ⟨v, k, hread, rfl, rfl⟩ := itemHeader_eq_content hheader
      obtain ⟨content, hcount, hcontent, hdrop⟩ := ihContent
      obtain ⟨ts, hlen, hcomplete, rfl⟩ := ihRest
      refine ⟨.node (.ofRead hread) content :: ts, by rw [List.length_cons, hlen],
        ⟨⟨hcount, hcontent⟩, hcomplete⟩, ?_⟩
      rw [forestBytes, ItemTree.bytes, List.append_assoc, List.append_assoc, ← hdrop]
      exact (List.take_append_drop k _).symm

mutual

/-- A complete tree is one item to go through. -/
theorem ItemTree.through (b : List UInt8) :
    ∀ t : ItemTree, t.Complete → Through itemHeader 1 (t.bytes ++ b) b
  | .node head content, ht => by
      obtain ⟨hcount, hcontent⟩ := ht
      have hheader : itemHeader ((ItemTree.node head content).bytes ++ b) =
          .content head.value.children (forestBytes content ++ b) := by
        rw [itemHeader, ItemTree.readItem_bytes]
        exact congrArg (Header.content _) (ItemTree.drop_head (.node head content) b)
      exact .item hheader (hcount ▸ through_forest b content hcontent) (.done b)

theorem through_forest (b : List UInt8) :
    ∀ ts : List ItemTree, AllComplete ts → Through itemHeader ts.length (forestBytes ts ++ b) b
  | [], _ => .done b
  | t :: ts, hts => by
      rw [forestBytes, List.append_assoc, List.length_cons, Nat.add_comm]
      exact through_add_iff.mpr
        ⟨_, ItemTree.through (forestBytes ts ++ b) t hts.1, through_forest b ts hts.2⟩

end

/-- What is gone through item by item is the bytes of complete trees, and of nothing else. -/
theorem through_iff_forest {n : Nat} {b b' : List UInt8} :
    Through itemHeader n b b' ↔
      ∃ ts : List ItemTree, ts.length = n ∧ AllComplete ts ∧ b = forestBytes ts ++ b' := by
  refine ⟨exists_forest, ?_⟩
  rintro ⟨ts, rfl, hts, rfl⟩
  exact through_forest b' ts hts

end CWPack.Core
