/-
  Goodies/DumpPrints.lean --- the dump tool prints the text.

  `PrintsItems` says of `dump_item` that it prints the texts of complete items
  below a size.  The loops go through the items of a container, and the items of a
  container are smaller than it is, so the induction is on the number of steps that
  are allowed: one for each byte is enough.
-/
import CWPack.Core.Accepted
import CWPack.Core.Timestamps
import CWPack.Goodies.DumpText

set_option autoImplicit false

namespace CWPack.Goodies

open CWPack.Foundation
open CWPack.Core
open CWPack.MessagePack

variable {σ : Type}

/-- `dump_item` prints the texts of complete items of fewer than `limit` bytes. -/
def PrintsItems (inv : List UInt8 → UnpackInput σ → Prop) (stuck : Prop) (unit : FloatUnit)
    (o : DumpOptions) (limit : Nat) (item : Int32 → Dumper σ → Option (Dumper σ)) : Prop :=
  ∀ (depth : Nat) (t : ItemTree) (rest : List UInt8) (text : List Printed) (d : Dumper σ),
    t.Complete → t.bytes.length < limit → depth + t.bytes.length < 2 ^ 31 →
    d.context.Denotes t.head.value → ReadTo inv (forestBytes t.content ++ rest) d →
    itemText unit o depth (offset d) t = some text →
    Ends stuck (HasPrinted inv d text rest) (item (Int32.ofNat depth) d)

section Prints

variable {H : Option (UnpackUnderflowHandler σ)} {stuck : Prop}
  {inv : List UInt8 → UnpackInput σ → Prop} {stopped : UnpackInput σ → Prop} {total limit : Nat}
  {unit : FloatUnit} {o : DumpOptions} {item : Int32 → Dumper σ → Option (Dumper σ)}
  {depth : Nat} {rest : List UInt8} {text : List Printed} {d : Dumper σ}

/-- `dump_next_item` reads the head and dumps the item. -/
theorem dumpNextItem_prints (F : Feeds H stuck inv stopped) (hcount : Counted inv total)
    (hitem : PrintsItems inv stuck unit o limit item) {t : ItemTree} (ht : t.Complete)
    (hlimit : t.bytes.length < limit) (hdepth : depth + t.bytes.length < 2 ^ 31)
    (h : ReadTo inv (t.bytes ++ rest) d)
    (htext : itemText unit o depth (offset d + t.head.bytes.length) t = some text) :
    Ends stuck (HasPrinted inv d text rest) (dumpNextItem H item (Int32.ofNat depth) d) := by
  refine (cwUnpackNext_spec F h.2 h.1).bind fun s' hdel => ?_
  rw [t.readItem_bytes] at hdel
  obtain ⟨hrc, hden, hinv⟩ := hdel
  rw [t.drop_head] at hinv
  have hread : ReadTo inv (forestBytes t.content ++ rest) (d.setContext s') := ⟨hrc, hinv⟩
  have hoffset : offset (d.setContext s') = offset d + t.head.bytes.length :=
    offset_of_ahead hcount h hread (by
      rw [List.length_append, List.length_append, t.bytes_length]
      omega)
  show Ends _ _ (if s'.uc.returnCode ≠ 0 then _ else item _ (d.setContext s'))
  rw [if_neg (not_not_intro hrc)]
  exact hitem depth t rest text _ ht hlimit hdepth hden hread (hoffset ▸ htext)

/-- The loop over elements, from the `k`-th on. -/
theorem forLoop_dumpElement_prints (F : Feeds H stuck inv stopped) (hcount : Counted inv total)
    (hitem : PrintsItems inv stuck unit o limit item) {n : Nat} (hn : n < 2 ^ 31) :
    ∀ (ts : List ItemTree) (k fuel : Nat) (text : List Printed) (d : Dumper σ), AllComplete ts →
      (forestBytes ts).length < limit → depth + (forestBytes ts).length < 2 ^ 31 →
      k + ts.length = n → ts.length < fuel → ReadTo inv (forestBytes ts ++ rest) d →
      elementsText unit o depth (offset d) k ts = some text →
      Ends stuck (HasPrinted inv d text rest)
        (forLoop (dumpElement H o item (Int32.ofNat depth)) n fuel (Int32.ofNat k) d) := by
  intro ts
  induction ts with
  | nil =>
      rintro k (_ | fuel) text d - - - rfl hfuel h htext
      · exact absurd hfuel (Nat.not_lt_zero _)
      · obtain rfl := Option.some.inj htext
        rw [List.length_nil, Nat.add_zero, forLoop_self (by omega)]
        exact hasPrinted_nil h
  | cons t ts ih =>
      rintro k (_ | fuel) text d ⟨ht, hts⟩ hlimit hdepth hk hfuel h htext
      · exact absurd hfuel (Nat.not_lt_zero _)
      rw [elementsText] at htext
      obtain ⟨here, hhere, htext⟩ := Option.bind_eq_some_iff.mp htext
      obtain ⟨more, hmore, rfl⟩ := Option.map_eq_some_iff.mp htext
      rw [forestBytes, List.length_append] at hlimit hdepth
      rw [List.length_cons] at hk hfuel
      rw [forestBytes, List.append_assoc] at h
      rw [forLoop_of_lt hn (by omega), dumpElement, checkNewLine_eq (by omega) (by omega)]
      have hbefore := hasPrinted_printAll h (elementBreak o (offset d) depth k)
      refine (dumpNextItem_prints F hcount hitem ht (by omega) (by omega) hbefore.1 hhere).bind
        fun d₁ hd₁ => ?_
      have hoffset : offset d₁ = offset d + t.bytes.length :=
        offset_of_ahead hcount h hd₁.1 List.length_append
      refine (ih (k + 1) fuel more d₁ hts (by omega) (by omega) (by omega) (by omega) hd₁.1
        (hoffset ▸ hmore)).mono fun d₂ hd₂ => ?_
      exact (hbefore.append hd₁).append hd₂

/-- The loop over the pairs of a map, from the `k`-th on. -/
theorem forLoop_dumpPair_prints (F : Feeds H stuck inv stopped) (hcount : Counted inv total)
    (hitem : PrintsItems inv stuck unit o limit item) {n : Nat} (hn : n < 2 ^ 31) :
    ∀ (m : Nat) (ts : List ItemTree) (k fuel : Nat) (text : List Printed) (d : Dumper σ),
      ts.length = 2 * m → AllComplete ts → (forestBytes ts).length < limit →
      depth + (forestBytes ts).length < 2 ^ 31 → k + m = n → m < fuel →
      ReadTo inv (forestBytes ts ++ rest) d → pairsText unit o depth (offset d) k ts = some text →
      Ends stuck (HasPrinted inv d text rest)
        (forLoop (dumpPair H o item (Int32.ofNat depth)) n fuel (Int32.ofNat k) d) := by
  intro m
  induction m with
  | zero =>
      rintro ts k (_ | fuel) text d hlen - - - rfl hfuel h htext
      · exact absurd hfuel (Nat.not_lt_zero _)
      · obtain rfl := List.length_eq_zero_iff.mp hlen
        obtain rfl := Option.some.inj htext
        rw [Nat.add_zero, forLoop_self (by omega)]
        exact hasPrinted_nil h
  | succ m ih =>
      rintro (_ | ⟨key, _ | ⟨value, ts⟩⟩) k (_ | fuel) text d hlen hcomplete hlimit hdepth hk hfuel h htext
      · exact absurd hfuel (Nat.not_lt_zero _)
      · rw [List.length_nil] at hlen
        omega
      · exact absurd hfuel (Nat.not_lt_zero _)
      · rw [List.length_singleton] at hlen
        omega
      · exact absurd hfuel (Nat.not_lt_zero _)
      obtain ⟨hkey, hvalue, hts⟩ := hcomplete
      rw [pairsText] at htext
      obtain ⟨kt, hkt, htext⟩ := Option.bind_eq_some_iff.mp htext
      obtain ⟨vt, hvt, htext⟩ := Option.bind_eq_some_iff.mp htext
      obtain ⟨more, hmore, rfl⟩ := Option.map_eq_some_iff.mp htext
      simp only [forestBytes, List.length_append] at hlimit hdepth
      simp only [List.length_cons] at hlen
      rw [forestBytes, List.append_assoc, forestBytes, List.append_assoc] at h
      rw [forLoop_of_lt hn (by omega)]
      have hbefore := hasPrinted_printAll h (elementBreak o (offset d) depth k)
      have hpair : Ends stuck (HasPrinted inv d
          (elementBreak o (offset d) depth k ++ kt ++ .text ":" :: vt) (forestBytes ts ++ rest))
          (dumpPair H o item (Int32.ofNat depth) (Int32.ofNat k) d) := by
        unfold dumpPair
        rw [checkNewLine_eq (by omega) (by omega)]
        refine (dumpNextItem_prints F hcount hitem hkey (by omega) (by omega) hbefore.1 hkt).bind
          fun d₁ hd₁ => ?_
        have hcolon := hasPrinted_printAll hd₁.1 [.text ":"]
        have hoffset : offset (d₁.printAll [.text ":"]) = offset d + key.bytes.length :=
          offset_of_ahead hcount h hcolon.1 List.length_append
        refine (dumpNextItem_prints F hcount hitem hvalue (by omega) (by omega) hcolon.1
          (hoffset ▸ hvt)).mono fun d₂ hd₂ => ?_
        exact (hbefore.append hd₁).append (hcolon.append hd₂)
      refine hpair.bind fun d₁ hd₁ => ?_
      have hoffset : offset d₁ = offset d + key.bytes.length + value.bytes.length := by
        rw [Nat.add_assoc]
        exact offset_of_ahead hcount h hd₁.1 (by simp only [List.length_append]; omega)
      refine (ih ts (k + 1) fuel more d₁ (by omega) hts (by omega) (by omega) (by omega) (by omega)
        hd₁.1 (hoffset ▸ hmore)).mono fun d₂ hd₂ => hd₁.append hd₂

/-! ## Containers -/

/-- A user object, whose label has been read. -/
theorem dumpUserObject_prints (F : Feeds H stuck inv stopped) (hcount : Counted inv total)
    (hitem : PrintsItems inv stuck unit o limit item) {fuel : Nat} (hfuel : limit ≤ fuel)
    {next : ItemTree} {ts : List ItemTree} {name : List UInt8}
    (hname : next.head.value = .str name) (hcomplete : AllComplete (next :: ts))
    (hlimit : (forestBytes (next :: ts)).length < limit)
    (hdepth : depth + 1 + (forestBytes (next :: ts)).length < 2 ^ 31)
    (h : ReadTo inv (forestBytes (next :: ts) ++ rest) d) {attributes : List Printed}
    (htext : elementsText unit o (depth + 1) (offset d + next.bytes.length) 0 ts =
      some attributes) :
    Ends stuck (HasPrinted inv d (nameText name ++ .text "(" :: attributes ++
        closeBreak o (offset d + (forestBytes (next :: ts)).length) depth ++ [.text ")"]) rest)
      (dumpUserObject H o item fuel (Int32.ofNat depth) (ts.length + 2 : Nat) d) := by
  obtain ⟨hnext, hts⟩ := hcomplete
  have hleaf : next.content = [] := next.content_of_leaf hnext (by rw [hname]; rfl)
  have hbytes : next.head.bytes.length = next.bytes.length := by
    rw [next.bytes_length, hleaf]
    rfl
  rw [forestBytes, List.length_append] at hlimit hdepth
  rw [forestBytes, List.append_assoc] at h
  have hcountLe := length_le_forestBytes ts
  have htwo : ((ts.length + 2 : Nat) : Int) - 2 = (ts.length : Nat) := by omega
  have hsucc : Int32.ofNat depth + 1 = Int32.ofNat (depth + 1) := (Int32.ofNat_add depth 1).symm
  refine (cwUnpackNext_spec F h.2 h.1).bind fun s' hdel => ?_
  rw [next.readItem_bytes, hname] at hdel
  obtain ⟨hrc, hden, hinv⟩ := hdel
  rw [hbytes, List.drop_left] at hinv
  obtain ⟨htype, hchars⟩ := bytes_of_denotes_str hden
  have hread : ReadTo inv (forestBytes ts ++ rest) (d.setContext s') := ⟨hrc, hinv⟩
  have hopened := hasPrinted_printAll hread (nameText name ++ [.text "("])
  have hoffset : offset (d.setContext s') = offset d + next.bytes.length :=
    offset_of_ahead hcount h hread List.length_append
  have hloop := forLoop_dumpElement_prints F hcount hitem (n := ts.length) (by omega) ts 0 fuel
    attributes _ hts (by omega) (by omega) (Nat.zero_add _) (by omega) hopened.1 (hoffset ▸ htext)
  have hclosed := close_prints (o := o) hcount hread (by omega : depth < 2 ^ 31)
    (hloop.mono fun d' hd' => hopened.append hd') ")"
  show Ends _ _ (if s'.uc.returnCode ≠ 0 then _ else if s'.uc.item.type ≠ .str then _ else _)
  rw [if_neg (not_not_intro hrc), if_neg (not_not_intro htype), htwo, hsucc]
  have hopening : ((d.setContext s').printAll
      (((d.setContext s').context.mem.bytes s'.uc.item.as.front s'.uc.item.as.back).takeWhile
        (· ≠ 0) |>.map .char)).printf (.text "(") =
      (d.setContext s').printAll (nameText name ++ [.text "("]) := by
    rw [Dumper.setContext_context, hchars]
    exact printAll_printAll _ _ _
  rw [hoffset, Nat.add_assoc, ← List.length_append, List.append_assoc (nameText name)] at hclosed
  refine Eq.subst (motive := fun d' => Ends stuck _ ((forLoop _ _ fuel 0 d').bind _)) hopening.symm ?_
  exact hclosed

/-- An array whose first element is an object marker. -/
theorem dumpObject_prints (F : Feeds H stuck inv stopped) (hcount : Counted inv total)
    (hitem : PrintsItems inv stuck unit o limit item) {fuel : Nat} (hfuel : limit ≤ fuel)
    {payload : List UInt8} (hden : d.context.Denotes (.ext 127 payload)) {ts : List ItemTree}
    (hcomplete : AllComplete ts) (hlimit : (forestBytes ts).length < limit)
    (hdepth : depth + 1 + (forestBytes ts).length < 2 ^ 31)
    (h : ReadTo inv (forestBytes ts ++ rest) d)
    (htext : objectText unit o depth (offset d) (extInteger (some payload)) ts = some text) :
    Ends stuck (HasPrinted inv d text rest)
      (dumpObject H o item fuel (Int32.ofNat depth) (ts.length + 1 : Nat) d) := by
  have hgets := (extChecked_of_denotes_ext h.1 hden).integer
  unfold Gets at hgets
  unfold dumpObject
  rw [hgets]
  generalize extInteger (some payload) = result at htext
  obtain ⟨label, code⟩ := result
  simp only
  cases ts with
  | nil =>
      rw [objectText] at htext
      simp only at htext
      split at htext
      swap
      · simp at htext
      rename_i hcode
      obtain rfl := Option.some.inj htext
      have hreference : ((d.setContext d.context).printf (.text "->")).printf (.number label) =
          d.printAll [.text "->", .number label] := printAll_printAll d _ _
      rw [hcode, setReturnCode_of_eq h.1, if_pos (by rfl), hreference]
      exact hasPrinted_printAll h _
  | cons next ts =>
      rw [objectText] at htext
      simp only at htext
      split at htext
      · simp at htext
      rename_i hcode
      rw [Decidable.not_not.mp hcode, setReturnCode_of_eq h.1, if_neg (by rw [List.length_cons]; omega)]
      have hlabel : (if label ≠ 0 then ((d.setContext d.context).printf (.number label)).printf (.text "->")
          else d.setContext d.context) = d.printAll (labelText label) := by
        unfold labelText
        split
        · exact printAll_printAll d _ _
        · exact (printAll_nil d).symm
      rw [hlabel]
      have hlabelled := hasPrinted_printAll h (labelText label)
      by_cases hneg : label < 0
      · rw [if_pos hneg] at htext
        split at htext
        swap
        · simp at htext
        rename_i hone
        obtain rfl := List.length_eq_zero_iff.mp hone
        obtain ⟨inner, hinner, rfl⟩ := Option.map_eq_some_iff.mp htext
        rw [if_pos (Int.not_le.mpr hneg), if_neg (by simp)]
        rw [forestBytes, forestBytes, List.append_nil] at hlimit hdepth hlabelled
        exact (dumpNextItem_prints F hcount hitem hcomplete.1 hlimit (by omega) hlabelled.1
          hinner).mono fun d' hd' => hlabelled.append hd'
      · rw [if_neg hneg] at htext
        rw [if_neg (not_not_intro (Int.not_lt.mp hneg))]
        split at htext
        swap
        · simp at htext
        rename_i name hname
        obtain ⟨attributes, hattributes, rfl⟩ := Option.map_eq_some_iff.mp htext
        refine (dumpUserObject_prints F hcount hitem hfuel hname hcomplete hlimit hdepth
          hlabelled.1 hattributes).mono fun d' hd' => ?_
        simp only [List.append_assoc]
        have hall := hlabelled.append hd'
        simp only [List.append_assoc] at hall
        exact hall

/-- `case CWP_ITEM_ARRAY`, of an array that is not empty -/
theorem dumpArray_prints (F : Feeds H stuck inv stopped) (hcount : Counted inv total)
    (hitem : PrintsItems inv stuck unit o limit item) {fuel : Nat} (hfuel : limit ≤ fuel)
    {head : Piece} {dim : Nat} (hvalue : head.value = .array dim) {first : ItemTree}
    {ts : List ItemTree} (hcomplete : AllComplete (first :: ts))
    (hlimit : (forestBytes (first :: ts)).length < limit)
    (hdepth : depth + 1 + (forestBytes (first :: ts)).length < 2 ^ 31)
    (h : ReadTo inv (forestBytes (first :: ts) ++ rest) d)
    (htext : itemText unit o depth (offset d) (.node head (first :: ts)) = some text) :
    Ends stuck (HasPrinted inv d text rest)
      (dumpArray H o item fuel (Int32.ofNat depth) (ts.length + 1 : Nat) d) := by
  have hsucc : Int32.ofNat depth + 1 = Int32.ofNat (depth + 1) := (Int32.ofNat_add depth 1).symm
  have hdim : ¬ ((ts.length + 1 : Nat) : Int) = 0 := by omega
  have hcountLe := length_le_forestBytes ts
  have hwhole := h
  simp only [itemText, hvalue] at htext
  obtain ⟨hfirst, hts⟩ := hcomplete
  rw [forestBytes, List.length_append] at hlimit hdepth
  rw [forestBytes, List.append_assoc] at h
  unfold dumpArray
  rw [if_neg hdim]
  refine (cwUnpackNext_spec F h.2 h.1).bind fun s' hdel => ?_
  rw [first.readItem_bytes] at hdel
  obtain ⟨hrc, hden, hinv⟩ := hdel
  rw [first.drop_head] at hinv
  have hread : ReadTo inv (forestBytes first.content ++ (forestBytes ts ++ rest))
    (d.setContext s') := ⟨hrc, hinv⟩
  have hoffset : offset (d.setContext s') = offset d + first.head.bytes.length :=
    offset_of_ahead hcount h hread (by
      simp only [List.length_append, first.bytes_length]
      omega)
  rw [← hoffset] at htext
  show Ends _ _ (if s'.uc.returnCode ≠ 0 then _
    else if o.recognizeObjects ∧ s'.uc.item.type = .ext 127 then
      dumpObject H o item fuel (Int32.ofNat depth) _ (d.setContext s')
    else dumpElements H o item fuel (Int32.ofNat depth) _ (d.setContext s'))
  rw [if_neg (not_not_intro hrc)]
  have htype : s'.uc.item.type = itemType first.head.value := hden.1
  cases hmarker : markerPayload o.recognizeObjects first.head.value with
  | some payload =>
      rw [hmarker] at htext
      obtain ⟨hr, hext⟩ := markerPayload_eq_some hmarker
      rw [hext] at htype hden
      have hleaf : first.content = [] := first.content_of_leaf hfirst (by rw [hext]; rfl)
      rw [hleaf, forestBytes, List.nil_append] at hread
      rw [if_pos ⟨hr, htype⟩]
      exact dumpObject_prints F hcount hitem hfuel hden hts (by omega) (by omega) hread htext
  | none =>
      rw [hmarker] at htext
      simp only at htext
      obtain ⟨one, hone, htext⟩ := Option.bind_eq_some_iff.mp htext
      obtain ⟨more, hmore, rfl⟩ := Option.map_eq_some_iff.mp htext
      have hnot : ¬ (o.recognizeObjects = true ∧ s'.uc.item.type = .ext 127) := by
        rintro ⟨hr, hext⟩
        obtain ⟨payload, hpayload⟩ := (itemType_eq_ext_iff (by decide)).mp (htype.symm.trans hext)
        rw [hpayload, markerPayload, if_pos ⟨hr, rfl⟩] at hmarker
        simp at hmarker
      have hopened := hasPrinted_printAll hread
        (.text "[" :: elementBreak o (offset (d.setContext s')) (depth + 1) 0)
      have hopening : checkNewLine o (Int32.ofNat (depth + 1)) 0
          ((d.setContext s').printf (.text "[")) =
          (d.setContext s').printAll
            (.text "[" :: elementBreak o (offset (d.setContext s')) (depth + 1) 0) :=
        (checkNewLine_eq (i := 0) (by omega) (by decide) _).trans (printAll_printAll _ [.text "["] _)
      have hcontent : Ends stuck (HasPrinted inv d
          (.text "[" :: elementBreak o (offset (d.setContext s')) (depth + 1) 0 ++ one ++ more) rest)
          ((item (Int32.ofNat (depth + 1)) ((d.setContext s').printAll
            (.text "[" :: elementBreak o (offset (d.setContext s')) (depth + 1) 0))).bind
            (forLoop (dumpElement H o item (Int32.ofNat (depth + 1))) (ts.length + 1 : Nat) fuel
              (Int32.ofNat 1))) := by
        refine (hitem (depth + 1) first _ one _ hfirst (by omega) (by omega) hden hopened.1 hone).bind
          fun d₁ hd₁ => ?_
        have hoffset₁ : offset d₁ = offset d + first.bytes.length :=
          offset_of_ahead hcount h hd₁.1 List.length_append
        refine (forLoop_dumpElement_prints F hcount hitem (by omega) ts 1 fuel more d₁ hts (by omega)
          (by omega) (Nat.add_comm _ _) (by omega) hd₁.1 (hoffset₁ ▸ hmore)).mono fun d₂ hd₂ => ?_
        exact (hopened.append hd₁).append hd₂
      rw [if_neg hnot]
      unfold dumpElements
      rw [hsucc, hopening]
      have hclosed := close_prints (o := o) hcount hwhole (by omega : depth < 2 ^ 31) hcontent "]"
      rw [Option.bind_assoc] at hclosed
      exact hclosed

/-- `case CWP_ITEM_MAP`, of a map that is not empty -/
theorem dumpMap_prints (F : Feeds H stuck inv stopped) (hcount : Counted inv total)
    (hitem : PrintsItems inv stuck unit o limit item) {fuel : Nat} (hfuel : limit ≤ fuel)
    {head : Piece} {dim : Nat} (hvalue : head.value = .map dim) {first : ItemTree}
    {ts : List ItemTree} (hdim : (first :: ts).length = 2 * dim)
    (hcomplete : AllComplete (first :: ts)) (hlimit : (forestBytes (first :: ts)).length < limit)
    (hdepth : depth + 1 + (forestBytes (first :: ts)).length < 2 ^ 31)
    (h : ReadTo inv (forestBytes (first :: ts) ++ rest) d)
    (htext : itemText unit o depth (offset d) (.node head (first :: ts)) = some text) :
    Ends stuck (HasPrinted inv d text rest)
      (dumpMap H o item fuel (Int32.ofNat depth) dim d) := by
  have hsucc : Int32.ofNat depth + 1 = Int32.ofNat (depth + 1) := (Int32.ofNat_add depth 1).symm
  have hcountLe := length_le_forestBytes (first :: ts)
  have hpos : 0 < (first :: ts).length := Nat.succ_pos _
  have hne : ¬ (dim : Int) = 0 := by omega
  simp only [itemText, hvalue] at htext
  obtain ⟨pairs, hpairs, rfl⟩ := Option.map_eq_some_iff.mp htext
  have hopened := hasPrinted_printAll h [.text "\x7b"]
  have hloop := forLoop_dumpPair_prints F hcount hitem (n := dim) (by omega) dim (first :: ts) 0 fuel
    pairs _ hdim hcomplete hlimit hdepth (Nat.zero_add _) (by omega) hopened.1 hpairs
  unfold dumpMap
  rw [if_neg hne, hsucc]
  exact close_prints hcount h (by omega) (hloop.mono fun d' hd' => hopened.append hd') "\x7d"

end Prints

/-! ## Items -/

section Items

variable {H : Option (UnpackUnderflowHandler σ)} {stuck : Prop}
  {inv : List UInt8 → UnpackInput σ → Prop} {stopped : UnpackInput σ → Prop} {total : Nat}
  {unit : FloatUnit} {o : DumpOptions} {rest : List UInt8} {text : List Printed} {d : Dumper σ}

theorem dumpItem_ext {type : Int8} (htype : d.context.uc.item.type = .ext type)
    (htime : type ≠ -1) (fuel : Nat) (tabLevel : Int32) :
    dumpItem unit H o (fuel + 1) tabLevel d =
      some (dumpExt type.toInt d.context.uc.item.as.front d.context.uc.item.as.back d) := by
  simp only [dumpItem, htype]
  split
  case h_11 heq => exact absurd (ItemType.ext.inj heq) htime
  case h_12 heq =>
      obtain rfl := ItemType.ext.inj heq
      rfl
  all_goals simp_all

/-- An item without content is printed at once. -/
theorem dumpItem_leaf_prints {b : List UInt8} {v : Value} {n : Nat} (hread : readItem b = .ok (v, n))
    (hn : n < 2 ^ 31) (hleaf : v.children = 0) (hden : d.context.Denotes v) (h : ReadTo inv rest d)
    (htext : leafText unit v = some text) (fuel : Nat) (tabLevel : Int32) :
    Ends stuck (HasPrinted inv d text rest) (dumpItem unit H o (fuel + 1) tabLevel d) := by
  have htype : d.context.uc.item.type = itemType v := hden.1
  cases v with
  | nil =>
      obtain rfl := Option.some.inj htext
      simp only [dumpItem, htype, itemType]
      exact hasPrinted_printAll h _
  | bool b =>
      obtain rfl := Option.some.inj htext
      obtain ⟨htype, hfront⟩ := denotes_boolean hden
      simp only [dumpItem, htype, hfront, ne_eq, Bool.toNat_eq_zero, Bool.not_eq_false]
      exact hasPrinted_printAll h _
  | int v =>
      obtain rfl := Option.some.inj htext
      by_cases hv : 0 ≤ v
      · obtain ⟨htype, hfront⟩ := denotes_nonneg hv hden
        simp only [dumpItem, htype, hfront]
        exact hasPrinted_printAll h _
      · obtain ⟨htype, hi64⟩ := denotes_negative (Int.not_le.mp hv) hden
        simp only [dumpItem, htype, hi64]
        exact hasPrinted_printAll h _
  | float bits =>
      obtain rfl := Option.some.inj htext
      obtain ⟨htype, hfront⟩ := denotes_float hden
      simp only [dumpItem, htype, hfront]
      exact ⟨h, rfl⟩
  | double bits =>
      obtain rfl := Option.some.inj htext
      obtain ⟨htype, hfront⟩ := denotes_double hden
      simp only [dumpItem, htype, hfront]
      exact hasPrinted_printAll h _
  | str bs =>
      obtain rfl := Option.some.inj htext
      obtain ⟨htype, hbytes⟩ := bytes_of_denotes_str hden
      have hback : d.context.uc.item.as.back = bs.length := by rw [← hbytes, Memory.bytes_length]
      have hlt := length_lt_of_readItem_str hread
      have hcast : (Int32.ofNat d.context.uc.item.as.back).toNatClampNeg = d.context.uc.item.as.back :=
        Int32.toNatClampNeg_ofNat_of_lt (by omega)
      simp only [dumpItem, htype, dumpString, hcast, hbytes]
      exact hasPrinted_printAll h _
  | bin bs =>
      obtain rfl := Option.some.inj htext
      obtain ⟨htype, hbytes⟩ := bytes_of_denotes_bin hden
      simp only [dumpItem, htype, dumpAsHex, hbytes]
      exact hasPrinted_printAll h _
  | array dim =>
      obtain rfl := Option.some.inj htext
      obtain ⟨htype, hsize⟩ := denotes_array hden
      obtain rfl : dim = 0 := hleaf
      simp only [dumpItem, htype, hsize]
      exact hasPrinted_printAll h _
  | map dim =>
      obtain rfl := Option.some.inj htext
      obtain ⟨htype, hsize⟩ := denotes_map hden
      have hzero : 2 * dim = 0 := hleaf
      obtain rfl : dim = 0 := by omega
      simp only [dumpItem, htype, hsize]
      exact hasPrinted_printAll h _
  | ext type payload =>
      rw [leafText] at htext
      split at htext
      · simp at htext
      rename_i htime
      obtain rfl := Option.some.inj htext
      obtain ⟨start, hitem, hbytes⟩ := blob_of_denotes_ext hden
      have hfront : d.context.uc.item.as.front = start := by rw [hitem]; rfl
      have hback : d.context.uc.item.as.back = payload.length := by rw [hitem]; rfl
      have hprinted : dumpExt type.toInt start payload.length d = d.printAll
          ([.text "(", .number type.toInt, .text ","] ++ hexText payload ++ [.text ")"]) := by
        simp only [dumpExt, dumpAsHex, Dumper.printf, Dumper.printAll, hbytes, hexText,
          List.append_assoc, List.cons_append, List.nil_append]
      rw [dumpItem_ext htype htime, hfront, hback, hprinted]
      exact hasPrinted_printAll h _
  | timestamp sec nsec =>
      obtain rfl := Option.some.inj htext
      have has := as_of_denotes_timestamp hden
      obtain ⟨hlo, hhi⟩ := sec_bounds_of_readItem hread
      have hsec : d.context.uc.item.as.i64 = sec := by
        rw [has]
        exact twosComplement_toPattern (by omega) (by omega)
      have hback : d.context.uc.item.as.back = nsec := by rw [has]; rfl
      have hprinted : dumpTime sec nsec d = d.printAll ([.text "\x27", .date sec] ++
          (if nsec ≠ 0 then [.fraction nsec] else []) ++ [.text "\x27"]) := by
        unfold dumpTime
        split <;> simp only [Dumper.printf, Dumper.printAll, List.append_assoc, List.cons_append,
          List.nil_append, List.append_nil]
      simp only [dumpItem, htype, hsec, hback, hprinted]
      exact hasPrinted_printAll h _

/-- `dump_item` needs a step for each byte. -/
theorem dumpItem_prints (F : Feeds H stuck inv stopped) (hcount : Counted inv total) (fuel : Nat) :
    PrintsItems inv stuck unit o fuel (dumpItem unit H o fuel) := by
  induction fuel with
  | zero => exact fun _ _ _ _ _ _ hlimit => absurd hlimit (Nat.not_lt_zero _)
  | succ fuel ih =>
      rintro depth ⟨head, content⟩ rest text d ⟨hlength, hcontent⟩ hlimit hdepth hden h htext
      have hread := head.spells []
      have hpos := head.length_pos
      rw [ItemTree.bytes, List.length_append] at hlimit hdepth
      cases content with
      | nil =>
          rw [itemText] at htext
          exact dumpItem_leaf_prints hread (by omega) hlength.symm hden h htext fuel _
      | cons first ts =>
          have hsome : head.value.children ≠ 0 := by
            rw [← hlength]
            exact Nat.succ_ne_zero _
          cases hvalue : head.value with
          | array dim =>
              rw [hvalue] at hlength
              obtain rfl : ts.length + 1 = dim := hlength
              obtain ⟨htype, hsize⟩ := denotes_array (hvalue ▸ hden)
              simp only [dumpItem, htype, hsize]
              exact dumpArray_prints F hcount ih (Nat.le_refl _) hvalue hcontent (by omega)
                (by omega) h htext
          | map dim =>
              rw [hvalue] at hlength
              obtain ⟨htype, hsize⟩ := denotes_map (hvalue ▸ hden)
              simp only [dumpItem, htype, hsize]
              exact dumpMap_prints F hcount ih (Nat.le_refl _) hvalue hlength hcontent (by omega)
                (by omega) h htext
          | _ =>
              rw [hvalue] at hsome
              exact absurd rfl hsome

theorem newLine_zero (d : Dumper σ) : newLine o 0 d = d.printAll (lineText o (offset d) 0) :=
  newLine_eq (by decide : 0 < 2 ^ 31) d

/-- Where no item is left, none is printed. -/
theorem dumpNextItem_ends (F : Feeds H stuck inv stopped)
    {item : Int32 → Dumper σ → Option (Dumper σ)} {tabLevel : Int32} {d : Dumper σ}
    (h : ReadTo inv [] d) :
    Ends stuck (fun d' => d'.returnCode = cwpRcEndOfInput ∧ d'.printed = d.printed)
      (dumpNextItem H item tabLevel d) := by
  refine (cwUnpackNext_spec F h.2 h.1).bind fun s' hdel => ?_
  have hstop : Stops stopped cwpRcEndOfInput s' := hdel
  have hne : s'.uc.returnCode ≠ 0 := by
    rw [hstop.returnCode]
    decide
  show Ends _ _ (if s'.uc.returnCode ≠ 0 then some _ else _)
  rw [if_pos hne]
  exact ⟨hstop.returnCode, rfl⟩

/-- The loop of `main`, which ends behind the last item. -/
theorem dumpLoop_prints (F : Feeds H stuck inv stopped) (hcount : Counted inv total) :
    ∀ (ts : List ItemTree) (fuel : Nat) (text : List Printed) (d : Dumper σ), AllComplete ts →
      (forestBytes ts).length < 2 ^ 31 → (forestBytes ts).length + 2 ≤ fuel →
      ReadTo inv (forestBytes ts) d → fileText unit o (offset d) ts = some text →
      Ends stuck (fun d' => d'.returnCode = cwpRcEndOfInput ∧ d'.printed = d.printed ++ text)
        (dumpLoop unit H o fuel d) := by
  intro ts
  induction ts with
  | nil =>
      rintro (_ | _ | fuel) text d - - hfuel h htext
      · omega
      · rw [forestBytes, List.length_nil] at hfuel
        omega
      obtain rfl := Option.some.inj htext
      have hrc : d.returnCode = 0 := h.1
      rw [dumpLoop, if_pos hrc, newLine_zero]
      refine (dumpNextItem_ends F (hasPrinted_printAll h (lineText o (offset d) 0)).1).bind
        fun d' hd' => ?_
      have hne : ¬ d'.returnCode = 0 := by
        rw [hd'.1]
        decide
      rw [dumpLoop, if_neg hne]
      exact hd'
  | cons t ts ih =>
      rintro (_ | fuel) text d ⟨ht, hts⟩ hlen hfuel h htext
      · omega
      rw [forestBytes, List.length_append] at hlen hfuel
      rw [forestBytes] at h
      have hpos := t.head.length_pos
      have hbytes := t.bytes_length
      rw [fileText] at htext
      obtain ⟨here, hhere, htext⟩ := Option.bind_eq_some_iff.mp htext
      obtain ⟨more, hmore, rfl⟩ := Option.map_eq_some_iff.mp htext
      have hrc : d.returnCode = 0 := h.1
      have hline := hasPrinted_printAll h (lineText o (offset d) 0)
      rw [dumpLoop, if_pos hrc, newLine_zero]
      refine (dumpNextItem_prints F hcount (dumpItem_prints F hcount fuel) ht (by omega) (by omega)
        hline.1 hhere).bind fun d₁ hd₁ => ?_
      have hoffset : offset d₁ = offset d + t.bytes.length :=
        offset_of_ahead hcount h hd₁.1 List.length_append
      refine (ih fuel more d₁ hts (by omega) (by omega) hd₁.1 (hoffset ▸ hmore)).mono fun d₂ hd₂ => ?_
      refine ⟨hd₂.1, ?_⟩
      rw [hd₂.2, (hline.append hd₁).2, List.append_assoc]

end Items

/-! ## The tool -/

section Tool

variable {realloc : Allocator} {results : ReadResults}

/-- The buffer holds the file from its first byte on, so offsets count from there. -/
theorem barrier_counted {base : List UInt8} (hlen : base.length < 2 ^ 64) :
    Counted (fun b x => BarrierFed base b x ∧ BeginsAtBarrier x) base.length := by
  rintro b x ⟨⟨held, rest, hfed, -, hbase, rfl⟩, hstart⟩
  have hheld := hfed.held_length
  rw [hstart, Option.getD_some] at hheld
  have hsum := congrArg List.length hbase
  rw [List.length_append] at hsum
  rw [List.length_take]
  omega

/-- The loop of `main` starts at the first byte of the input. -/
theorem dumpContext_begins (hheap : ∀ i n, (realloc i n).isSome) (stdin : InputDescriptor)
    (s : UnpackState FileUnpackEnv) :
    BeginsAtBarrier (dumpContext realloc stdin s).input ∧
      offset ⟨dumpContext realloc stdin s, []⟩ = 0 := by
  unfold dumpContext initFileUnpackContext
  obtain ⟨p, hp⟩ := Option.isSome_iff_exists.mp (hheap s.env.requests 4096)
  simp only [show 4096 > 0 by decide, if_true, hp]
  exact ⟨rfl, Nat.sub_self p⟩

/-- A file of complete items is dumped as the text of their trees, however it is read. -/
theorem dump_prints_items (hheap : ∀ i n, (realloc i n).isSome)
    (hread : ∀ i n, ∃ k, results i n = .ok k) (unit : FloatUnit) (o : DumpOptions)
    (stdin : InputDescriptor) (hlen : stdin.unread.length < 2 ^ 31) {n : Nat}
    (hwhole : Through itemHeader n stdin.unread []) :
    (∃ ts : List ItemTree, ts.length = n ∧ AllComplete ts ∧ forestBytes ts = stdin.unread) ∧
    ∀ ts : List ItemTree, AllComplete ts → forestBytes ts = stdin.unread →
      ∀ text : List Printed, fileText unit o 0 ts = some text →
      ∀ (s : UnpackState FileUnpackEnv) (fuel : Nat), stdin.unread.length + 2 ≤ fuel →
      ∃ d, dumpMain unit realloc results o fuel stdin s = some d ∧
        d.returnCode = cwpRcEndOfInput ∧ d.printed = text ++ [.text "\n"] := by
  constructor
  · obtain ⟨ts, hcount, hts, hbytes⟩ := through_iff_forest.mp hwhole
    exact ⟨ts, hcount, hts, by rw [hbytes, List.append_nil]⟩
  · intro ts hts hbytes text htext s fuel hfuel
    obtain ⟨hrc, hfed⟩ := dumpContext_fed hheap stdin s
    rw [List.take_of_length_le (by omega)] at hfed
    obtain ⟨hbegins, hoffset⟩ := dumpContext_begins hheap stdin s
    have hahead : ReadTo (fun b x => BarrierFed stdin.unread b x ∧ BeginsAtBarrier x)
        (forestBytes ts) ⟨dumpContext realloc stdin s, []⟩ := by
      rw [hbytes]
      exact ⟨hrc, hfed, hbegins⟩
    have hloop := dumpLoop_prints (o := o) (beginsAtBarrier_feeds hheap hread stdin.unread)
      (barrier_counted (by omega)) ts fuel text _ hts (hbytes ▸ hlen) (hbytes ▸ hfuel) hahead
      (hoffset.symm ▸ htext)
    obtain ⟨d, hd, hend, hprinted⟩ := (hloop.excuse fun hstuck => by omega).exists_of_not_stuck
    refine ⟨d.printf (.text "\n"), ?_, hend, ?_⟩
    · rw [dumpMain, hd, Option.bind_eq_bind, Option.bind_some]
      exact if_neg (not_not_intro hend)
    · show d.printed ++ [.text "\n"] = _
      rw [hprinted, List.nil_append]

/-- An object of the class `A` with the attribute 42, dumped with `-r`. -/
theorem dump_prints_items_object :
    ∃ d, dumpMain .native (fixedHeap 0) byteByByte ⟨0, true⟩ 9
        ⟨[0x93, 0xd4, 0x7f, 0x00, 0xa1, 0x41, 0x2a], 0, 0⟩ blankFileUnpack = some d ∧
      d.returnCode = cwpRcEndOfInput ∧
      d.printed = [.newLine 0 0, .char 0x41, .text "(", .number 42, .text ")", .newLine 7 0,
        .text "\n"] := by
  have hmarker : readItem [0xd4, 0x7f, 0x00] = .ok (.ext 127 [0x00], 3) := by decide
  have hname : readItem [0xa1, 0x41] = .ok (.str [0x41], 2) := by decide
  have hnumber : readItem [0x2a] = .ok (.int 42, 1) := by decide
  have harray : readItem [0x93] = .ok (.array 3, 1) := by decide
  let ts : List ItemTree := [.node (.ofRead harray) [.node (.ofRead hmarker) [],
    .node (.ofRead hname) [], .node (.ofRead hnumber) []]]
  have hts : AllComplete ts :=
    ⟨⟨rfl, ⟨rfl, trivial⟩, ⟨rfl, trivial⟩, ⟨rfl, trivial⟩, trivial⟩, trivial⟩
  have hheap : ∀ i n, (fixedHeap 0 i n).isSome := fun _ _ => rfl
  have hread : ∀ i n, ∃ k, byteByByte i n = .ok k := fun _ _ => ⟨1, rfl⟩
  obtain ⟨-, hdump⟩ := dump_prints_items hheap hread .native ⟨0, true⟩
    ⟨[0x93, 0xd4, 0x7f, 0x00, 0xa1, 0x41, 0x2a], 0, 0⟩ (by decide)
    (through_iff_forest.mpr ⟨ts, rfl, hts, rfl⟩)
  exact hdump ts hts rfl _ rfl blankFileUnpack 9 (by decide)

end Tool

end CWPack.Goodies
