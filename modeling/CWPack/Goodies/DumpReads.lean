/-
  Goodies/DumpReads.lean --- what the dump tool reads.

  `dumpHeader` says of the bytes ahead what dumping the item at their front comes
  to: so many items follow as its content, or the loop over them never ends, or the
  dump stops with an error.  An array is looked into for an object marker, and what
  has been read by then does not follow any more.

  `dumpItem_spec` is proved for every handler at once.  A dump that returns has read
  what the headers say, and one that does not has met a loop without an end, or was
  not given the steps it needs: one for each byte ahead, and `2 ^ 31` for the longest
  loop.
-/
import CWPack.Core.Accepted
import CWPack.Goodies.Dump
import CWPack.Goodies.ExtNumbers

set_option autoImplicit false

namespace CWPack.Goodies

open CWPack.Foundation
open CWPack.Core
open CWPack.MessagePack

variable {σ : Type}

/-! ## Headers -/

/-- Where objects are recognised, the payload of an object marker. -/
def markerPayload (recognizeObjects : Bool) : Value → Option (List UInt8)
  | .ext type payload => if recognizeObjects ∧ type = 127 then some payload else none
  | _ => none

/-- The content of a loop with the bound `dim`. -/
def loopHeader (dim n : Nat) (rest : List UInt8) : Header (List UInt8) :=
  if 2 ^ 31 ≤ dim then .endless else .content n rest

/-- Behind the label of a user object: its class name, and the attributes. -/
def userObjectHeader (dim : Nat) (b : List UInt8) : Header (List UInt8) :=
  match readItem b with
  | .ok (.str _, n) => loopHeader (dim - 2) (dim - 2) (b.drop n)
  | _ => .stops

/-- Behind an object marker: a reference, a labelled item or a user object. -/
def objectHeader (dim : Nat) (payload rest : List UInt8) : Header (List UInt8) :=
  let (label, code) := extInteger (some payload)
  if code ≠ cwpRcOk then .stops
  else if dim = 1 then .content 0 rest
  else if label < 0 then
    if dim ≠ 2 then .stops else .content 1 rest
  else userObjectHeader dim rest

/-- Behind the header of an array. -/
def arrayHeader (recognizeObjects : Bool) (dim : Nat) (b : List UInt8) : Header (List UInt8) :=
  if dim = 0 then .content 0 b
  else match readItem b with
    | .error _ => .stops
    | .ok (v, n) =>
        match markerPayload recognizeObjects v with
        | some payload => objectHeader dim payload (b.drop n)
        | none => loopHeader dim dim b

/-- Behind an item that has been read. -/
def contentHeader (recognizeObjects : Bool) (b : List UInt8) : Value → Header (List UInt8)
  | .array dim => arrayHeader recognizeObjects dim b
  | .map dim => loopHeader dim (2 * dim) b
  | _ => .content 0 b

/-- What dumping the item at the front of `b` comes to. -/
def dumpHeader (recognizeObjects : Bool) (b : List UInt8) : Header (List UInt8) :=
  match readItem b with
  | .error _ => .stops
  | .ok (v, n) => contentHeader recognizeObjects (b.drop n) v

/-! ## What has been read -/

section Headers

variable {r : Bool} {b b' : List UInt8} {v : Value}

theorem markerPayload_eq_some {payload : List UInt8} (h : markerPayload r v = some payload) :
    r = true ∧ v = .ext 127 payload := by
  unfold markerPayload at h
  split at h
  · split at h
    · rename_i hmarker
      obtain ⟨hr, rfl⟩ := hmarker
      exact ⟨hr, by rw [Option.some.inj h]⟩
    · simp at h
  · simp at h

/-- An item without content. -/
theorem through_leaf {n : Nat} (hread : readItem b = .ok (v, n)) (hleaf : v.children = 0) :
    Through itemHeader 1 b (b.drop n) := by
  have hheader : itemHeader b = .content 0 (b.drop n) := by
    rw [itemHeader, hread]
    simp only [hleaf]
  exact (through_one hheader).mpr (.done _)

theorem loopHeader_eq_content {dim n m : Nat} {rest : List UInt8}
    (h : loopHeader dim n rest = .content m b') : dim < 2 ^ 31 ∧ n = m ∧ rest = b' := by
  unfold loopHeader at h
  by_cases hdim : 2 ^ 31 ≤ dim
  · rw [if_pos hdim] at h
    simp at h
  · rw [if_neg hdim] at h
    obtain ⟨rfl, rfl⟩ := Header.content.inj h
    exact ⟨by omega, rfl, rfl⟩

/-- The items of the content that have been read, and those that follow, are all of it. -/
theorem objectHeader_reads {dim m : Nat} {payload : List UInt8} (hdim : dim ≠ 0)
    (h : objectHeader dim payload b = .content m b') :
    ∃ k, Through itemHeader k b b' ∧ 1 + (k + m) = dim := by
  simp only [objectHeader] at h
  split at h
  · simp at h
  · split at h
    · obtain ⟨rfl, rfl⟩ := Header.content.inj h
      exact ⟨0, .done _, by omega⟩
    · split at h
      · split at h
        · simp at h
        · obtain ⟨rfl, rfl⟩ := Header.content.inj h
          exact ⟨0, .done _, by omega⟩
      · unfold userObjectHeader at h
        split at h
        · rename_i name n hread
          obtain ⟨-, rfl, rfl⟩ := loopHeader_eq_content h
          exact ⟨1, through_leaf hread rfl, by omega⟩
        · simp at h

theorem contentHeader_reads {m : Nat} (h : contentHeader r b v = .content m b') :
    ∃ k, Through itemHeader k b b' ∧ k + m = v.children := by
  unfold contentHeader at h
  split at h
  · rename_i dim
    unfold arrayHeader at h
    by_cases hdim : dim = 0
    · rw [if_pos hdim] at h
      obtain ⟨rfl, rfl⟩ := Header.content.inj h
      exact ⟨0, .done _, hdim.symm⟩
    · rw [if_neg hdim] at h
      split at h
      · simp at h
      · rename_i v n hread
        split at h
        · rename_i payload hmarker
          obtain ⟨-, rfl⟩ := markerPayload_eq_some hmarker
          obtain ⟨k, hthrough, hk⟩ := objectHeader_reads hdim h
          exact ⟨1 + k, through_add_iff.mpr ⟨_, through_leaf hread rfl, hthrough⟩,
            (Nat.add_assoc 1 k m).trans hk⟩
        · obtain ⟨-, rfl, rfl⟩ := loopHeader_eq_content h
          exact ⟨0, .done _, Nat.zero_add _⟩
  · obtain ⟨-, rfl, rfl⟩ := loopHeader_eq_content h
    exact ⟨0, .done _, Nat.zero_add _⟩
  · rename_i harray hmap
    obtain ⟨rfl, rfl⟩ := Header.content.inj h
    refine ⟨0, .done _, ?_⟩
    cases v with
    | array dim => exact absurd rfl (harray dim)
    | map dim => exact absurd rfl (hmap dim)
    | _ => rfl

theorem dumpHeader_eq_content {m : Nat} (h : dumpHeader r b = .content m b') :
    ∃ v n, readItem b = .ok (v, n) ∧ contentHeader r (b.drop n) v = .content m b' := by
  unfold dumpHeader at h
  split at h
  · simp at h
  · rename_i v n hread
    exact ⟨v, n, hread, h⟩

/-- A dump reads complete items. -/
theorem through_itemHeader {n : Nat} (h : Through (dumpHeader r) n b b') :
    Through itemHeader n b b' := by
  refine h.translate fun {b m b₁ b₂} hheader hcontent => ?_
  obtain ⟨v, k, hread, hcontents⟩ := dumpHeader_eq_content hheader
  obtain ⟨j, hread', hj⟩ := contentHeader_reads hcontents
  have hitem : itemHeader b = .content v.children (b.drop k) := by rw [itemHeader, hread]
  rw [through_one hitem, ← hj]
  exact through_add_iff.mpr ⟨b₁, hread', hcontent⟩

/-- A dump takes a byte at least for each item. -/
theorem dumpHeader_size {m : Nat} (h : dumpHeader r b = .content m b') : b'.length < b.length := by
  obtain ⟨v, n, hread, hcontents⟩ := dumpHeader_eq_content h
  obtain ⟨k, hthrough, -⟩ := contentHeader_reads hcontents
  have hle := hthrough.size_le List.length itemHeader_size
  obtain ⟨hn, hne⟩ := readItem_pos hread
  have hpos := List.length_pos_iff.mpr hne
  rw [List.length_drop] at hle
  omega

end Headers

/-! ## States of a dump -/

section States

variable (inv : List UInt8 → UnpackInput σ → Prop) (stopped : UnpackInput σ → Prop) (r : Bool)

/-- From `b` on `n` items have been dumped, or the dump has stopped among them. -/
def PastItems (n : Nat) (b : List UInt8) (s : UnpackState σ) : Prop :=
  (s.uc.returnCode = 0 ∧ ∃ b', Through (dumpHeader r) n b b' ∧ inv b' s.input) ∨
    (s.uc.returnCode ≠ 0 ∧ stopped s.input ∧ StopsWithin (dumpHeader r) n b)

/-- The content has been dumped, as its header says. -/
def PastContent (s : UnpackState σ) : Header (List UInt8) → Prop
  | .stops => s.uc.returnCode ≠ 0 ∧ stopped s.input
  | .endless => False
  | .content n rest => PastItems inv stopped r n rest s

/-- The content does not end. -/
def ContentEndless : Header (List UInt8) → Prop
  | .stops => False
  | .endless => True
  | .content n rest => Endless (dumpHeader r) n rest

end States

section Steps

variable {inv : List UInt8 → UnpackInput σ → Prop} {stopped : UnpackInput σ → Prop} {r : Bool}
  {n : Nat} {b b' : List UInt8} {s : UnpackState σ}

/-- Nothing has been dumped yet. -/
theorem pastItems_zero (hrc : s.uc.returnCode = 0) (hinv : inv b s.input) :
    PastItems inv stopped r 0 b s :=
  Or.inl ⟨hrc, b, .done b, hinv⟩

/-- One item more, once its content has been dumped. -/
theorem pastItems_succ (hthrough : Through (dumpHeader r) n b b')
    (h : PastContent inv stopped r s (dumpHeader r b')) : PastItems inv stopped r (n + 1) b s := by
  cases hheader : dumpHeader r b' with
  | stops =>
      rw [hheader] at h
      exact Or.inr ⟨h.1, h.2, hthrough.stopsWithin_add (stopsWithin_of_stops hheader)⟩
  | endless =>
      rw [hheader] at h
      exact h.elim
  | content m rest =>
      rw [hheader] at h
      rcases h with ⟨hrc, b₂, hcontent, hinv⟩ | ⟨hrc, hstop, hcontent⟩
      · exact Or.inl ⟨hrc, b₂, through_add_iff.mpr ⟨b', hthrough, (through_one hheader).mpr hcontent⟩,
          hinv⟩
      · exact Or.inr ⟨hrc, hstop, hthrough.stopsWithin_add ((stopsWithin_one hheader).mpr hcontent)⟩

theorem endless_succ (hthrough : Through (dumpHeader r) n b b')
    (h : ContentEndless r (dumpHeader r b')) : Endless (dumpHeader r) (n + 1) b := by
  refine endless_add_iff.mpr (Or.inr ⟨b', hthrough, ?_⟩)
  cases hheader : dumpHeader r b' with
  | stops =>
      rw [hheader] at h
      exact h.elim
  | endless => exact .here hheader
  | content m rest =>
      rw [hheader] at h
      exact .inside hheader h

end Steps

/-! ## The specification -/

/-- `dump_item` does what the header says, of items with fewer than `limit` bytes behind their
header. -/
def ItemSpec (inv : List UInt8 → UnpackInput σ → Prop) (stopped : UnpackInput σ → Prop) (r : Bool)
    (excuse : Prop) (limit : Nat) (item : Int32 → Dumper σ → Option (Dumper σ)) : Prop :=
  ∀ (tabLevel : Int32) (d : Dumper σ) (v : Value) (b : List UInt8), b.length < limit →
    d.returnCode = 0 → d.context.Denotes v → inv b d.context.input →
    Ends (excuse ∨ ContentEndless r (contentHeader r b v))
      (fun d' => PastContent inv stopped r d'.context (contentHeader r b v)) (item tabLevel d)

section Spec

variable {H : Option (UnpackUnderflowHandler σ)} {stuck excuse : Prop}
  {inv : List UInt8 → UnpackInput σ → Prop} {stopped : UnpackInput σ → Prop} {o : DumpOptions}
  {limit fuel : Nat} {item : Int32 → Dumper σ → Option (Dumper σ)} {d : Dumper σ}
  {b : List UInt8}

theorem cwUnpackNext_of_stopped {s : UnpackState σ} (hrc : s.uc.returnCode ≠ 0) :
    cwUnpackNext H s = some s := if_pos hrc

/-- A stopped context is left as it is. -/
theorem dumpNextItem_of_stopped (tabLevel : Int32) (hrc : d.returnCode ≠ 0) :
    dumpNextItem H item tabLevel d = some d := by
  unfold dumpNextItem
  rw [cwUnpackNext_of_stopped hrc]
  exact if_pos hrc

theorem dumpUserObject_of_stopped (tabLevel : Int32) (dim : Int) (hrc : d.returnCode ≠ 0) :
    dumpUserObject H o item fuel tabLevel dim d = some d := by
  unfold dumpUserObject
  rw [cwUnpackNext_of_stopped hrc]
  exact if_pos hrc

/-- `dump_next_item` dumps one item more. -/
theorem dumpNextItem_spec (F : Feeds H stuck inv stopped) (hstuck : stuck → excuse)
    (hitem : ItemSpec inv stopped o.recognizeObjects excuse limit item) (tabLevel : Int32) {n : Nat}
    (hlimit : b.length ≤ limit) (h : PastItems inv stopped o.recognizeObjects n b d.context) :
    Ends (excuse ∨ Endless (dumpHeader o.recognizeObjects) (n + 1) b)
      (fun d' => PastItems inv stopped o.recognizeObjects (n + 1) b d'.context)
      (dumpNextItem H item tabLevel d) := by
  rcases h with ⟨hrc, b', hthrough, hinv⟩ | ⟨hrc, hstop, hwithin⟩
  · unfold dumpNextItem
    refine ((cwUnpackNext_spec F hinv hrc).excuse fun h => Or.inl (hstuck h)).bind fun s' hdel => ?_
    cases hread : readItem b' with
    | error e =>
        rw [hread] at hdel
        have hrc' : s'.uc.returnCode ≠ 0 := by
          rw [hdel.returnCode]
          exact readItem_error hread
        have hheader : dumpHeader o.recognizeObjects b' = .stops := by rw [dumpHeader, hread]
        show Ends _ _ (if s'.uc.returnCode ≠ 0 then some (d.setContext s') else _)
        rw [if_pos hrc']
        refine pastItems_succ hthrough ?_
        rw [hheader]
        exact ⟨hrc', hdel.input⟩
    | ok a =>
        obtain ⟨v, k⟩ := a
        rw [hread] at hdel
        obtain ⟨hrc', hden, hinv'⟩ := hdel
        have hle := hthrough.size_le List.length dumpHeader_size
        obtain ⟨hk, hne⟩ := readItem_pos hread
        have hpos := List.length_pos_iff.mpr hne
        have hheader : dumpHeader o.recognizeObjects b' =
            contentHeader o.recognizeObjects (b'.drop k) v := by rw [dumpHeader, hread]
        have hcontent := hitem tabLevel (d.setContext s') v (b'.drop k)
          (by rw [List.length_drop]; omega) hrc' hden hinv'
        rw [← hheader] at hcontent
        show Ends _ _ (if s'.uc.returnCode ≠ 0 then _ else item tabLevel (d.setContext s'))
        rw [if_neg (not_not_intro hrc')]
        refine (hcontent.excuse fun hexcuse => ?_).mono fun d' hd' => pastItems_succ hthrough hd'
        exact hexcuse.imp_right fun hendless => endless_succ hthrough hendless
  · rw [dumpNextItem_of_stopped tabLevel hrc]
    exact Or.inr ⟨hrc, hstop, hwithin.add 1⟩

/-- Going on to the bound of a loop. -/
theorem endless_of_le {header : List UInt8 → Header (List UInt8)} {m n : Nat} (hle : m ≤ n)
    (h : Endless header m b) : Endless header n b := by
  obtain ⟨k, rfl⟩ := Nat.le.dest hle
  exact endless_add_iff.mpr (Or.inl h)

/-- The loop over the elements of an array, from the `k`-th on. -/
theorem forLoop_dumpElement (F : Feeds H stuck inv stopped) (hstuck : stuck → excuse)
    (hitem : ItemSpec inv stopped o.recognizeObjects excuse limit item)
    (hfuel : fuel < 2 ^ 31 → excuse) (tabLevel : Int32) {k n : Nat} (hn : n < 2 ^ 31) (hk : k ≤ n)
    (hlimit : b.length ≤ limit) (h : PastItems inv stopped o.recognizeObjects k b d.context) :
    Ends (excuse ∨ Endless (dumpHeader o.recognizeObjects) n b)
      (fun d' => PastItems inv stopped o.recognizeObjects n b d'.context)
      (forLoop (dumpElement H o item tabLevel) n fuel (Int32.ofNat k) d) := by
  have hstep : ∀ (j : Nat) (d' : Dumper σ), j < n →
      PastItems inv stopped o.recognizeObjects j b d'.context →
      Ends (excuse ∨ Endless (dumpHeader o.recognizeObjects) n b)
        (fun d'' => PastItems inv stopped o.recognizeObjects (j + 1) b d''.context)
        (dumpElement H o item tabLevel (Int32.ofNat j) d') := by
    intro j d' hj hpast
    rw [← checkNewLine_context o tabLevel (Int32.ofNat j) d'] at hpast
    exact (dumpNextItem_spec F hstuck hitem tabLevel hlimit hpast).excuse fun hexcuse =>
      hexcuse.imp_right (endless_of_le hj)
  refine (forLoop_ends hn _ hstep fuel k d hk h).excuse ?_
  rintro (hexcuse | hshort)
  · exact hexcuse
  · exact Or.inl (hfuel (by omega))

/-- The loop over the pairs of a map. -/
theorem forLoop_dumpPair (F : Feeds H stuck inv stopped) (hstuck : stuck → excuse)
    (hitem : ItemSpec inv stopped o.recognizeObjects excuse limit item)
    (hfuel : fuel < 2 ^ 31 → excuse) (tabLevel : Int32) {n : Nat} (hn : n < 2 ^ 31) (hlimit : b.length ≤ limit)
    (h : PastItems inv stopped o.recognizeObjects 0 b d.context) :
    Ends (excuse ∨ Endless (dumpHeader o.recognizeObjects) (2 * n) b)
      (fun d' => PastItems inv stopped o.recognizeObjects (2 * n) b d'.context)
      (forLoop (dumpPair H o item tabLevel) n fuel 0 d) := by
  have hstep : ∀ (j : Nat) (d' : Dumper σ), j < n →
      PastItems inv stopped o.recognizeObjects (2 * j) b d'.context →
      Ends (excuse ∨ Endless (dumpHeader o.recognizeObjects) (2 * n) b)
        (fun d'' => PastItems inv stopped o.recognizeObjects (2 * (j + 1)) b d''.context)
        (dumpPair H o item tabLevel (Int32.ofNat j) d') := by
    intro j d' hj hpast
    rw [← checkNewLine_context o tabLevel (Int32.ofNat j) d'] at hpast
    have hkey := (dumpNextItem_spec F hstuck hitem tabLevel hlimit hpast).excuse
      fun hexcuse => hexcuse.imp_right (endless_of_le (n := 2 * n) (by omega))
    refine hkey.bind fun d₁ hpast₁ => ?_
    rw [← d₁.printf_context (.text ":")] at hpast₁
    exact (dumpNextItem_spec F hstuck hitem tabLevel hlimit hpast₁).excuse fun hexcuse =>
      hexcuse.imp_right (endless_of_le (by omega))
  refine (forLoop_ends hn _ hstep fuel 0 d (Nat.zero_le n) h).excuse ?_
  rintro (hexcuse | hshort)
  · exact hexcuse
  · exact Or.inl (hfuel (by omega))

/-- The context has read an item, and `b` is ahead. -/
abbrev ReadTo (inv : List UInt8 → UnpackInput σ → Prop) (b : List UInt8) (d : Dumper σ) : Prop :=
  d.returnCode = 0 ∧ inv b d.context.input

/-- What must be shown of a dump of content. -/
abbrev DumpsContent (inv : List UInt8 → UnpackInput σ → Prop) (stopped : UnpackInput σ → Prop)
    (r : Bool) (excuse : Prop) (header : Header (List UInt8)) (result : Option (Dumper σ)) : Prop :=
  Ends (excuse ∨ ContentEndless r header)
    (fun d' => PastContent inv stopped r d'.context header) result

/-- A loop without an end. -/
theorem dumpsContent_endless {r : Bool} : DumpsContent inv stopped r excuse .endless none :=
  Or.inr True.intro

/-- `case CWP_ITEM_MAP` -/
theorem dumpMap_spec (F : Feeds H stuck inv stopped) (hstuck : stuck → excuse)
    (hitem : ItemSpec inv stopped o.recognizeObjects excuse limit item)
    (hfuel : fuel < 2 ^ 31 → excuse) (tabLevel : Int32) (dim : Nat) (hlimit : b.length ≤ limit)
    (h : ReadTo inv b d) :
    DumpsContent inv stopped o.recognizeObjects excuse (loopHeader dim (2 * dim) b)
      (dumpMap H o item fuel tabLevel dim d) := by
  unfold dumpMap loopHeader
  by_cases hdim : 2 ^ 31 ≤ dim
  · have hlarge : (2 : Int) ^ 31 ≤ dim := by omega
    rw [if_pos hdim, if_neg (by omega)]
    simp only [forLoop_endless hlarge]
    exact dumpsContent_endless
  · rw [if_neg hdim]
    by_cases hzero : (dim : Int) = 0
    · obtain rfl : dim = 0 := by omega
      rw [if_pos hzero]
      exact pastItems_zero h.1 h.2
    · rw [if_neg hzero]
      refine Ends.bind (forLoop_dumpPair F hstuck hitem hfuel (tabLevel + 1) (by omega) hlimit
        (pastItems_zero h.1 h.2)) fun d' hd' => ?_
      show PastItems _ _ _ _ _ ((closeLine o tabLevel d').printf _).context
      rw [Dumper.printf_context, closeLine_context]
      exact hd'

/-- An array whose first element has been read: the first element is dumped, and then the
others. -/
theorem dumpElements_spec (F : Feeds H stuck inv stopped) (hstuck : stuck → excuse)
    (hitem : ItemSpec inv stopped o.recognizeObjects excuse limit item)
    (hfuel : fuel < 2 ^ 31 → excuse) (tabLevel : Int32) {dim : Nat} (hpos : 0 < dim) {v : Value}
    {n : Nat} (hlimit : b.length ≤ limit) (hread : readItem b = .ok (v, n))
    (hden : d.context.Denotes v) (h : ReadTo inv (b.drop n) d) :
    DumpsContent inv stopped o.recognizeObjects excuse (loopHeader dim dim b)
      (dumpElements H o item fuel tabLevel dim d) := by
  obtain ⟨hn, hne⟩ := readItem_pos hread
  have hlen := List.length_pos_iff.mpr hne
  have hheader : dumpHeader o.recognizeObjects b =
      contentHeader o.recognizeObjects (b.drop n) v := by rw [dumpHeader, hread]
  have hcontext : (checkNewLine o (tabLevel + 1) 0 (d.printf (.text "["))).context = d.context :=
    checkNewLine_context _ _ _ _
  have hfirst := hitem (tabLevel + 1) (checkNewLine o (tabLevel + 1) 0 (d.printf (.text "["))) v
    (b.drop n) (by rw [List.length_drop]; omega) (by rw [Dumper.returnCode, hcontext]; exact h.1)
    (by rw [hcontext]; exact hden) (by rw [hcontext]; exact h.2)
  rw [← hheader] at hfirst
  unfold dumpElements loopHeader
  by_cases hdim : 2 ^ 31 ≤ dim
  · have hlarge : (2 : Int) ^ 31 ≤ dim := by omega
    rw [if_pos hdim]
    simp only [forLoop_endless hlarge]
    refine Ends.bind (hfirst.excuse fun _ => Or.inr True.intro) fun _ _ => ?_
    exact dumpsContent_endless
  · rw [if_neg hdim]
    have hbound : 1 ≤ dim := hpos
    refine Ends.bind (hfirst.excuse fun hexcuse => ?_) fun d₁ hd₁ => ?_
    · exact hexcuse.imp_right fun hendless =>
        endless_of_le hbound (endless_succ (.done b) hendless)
    · refine Ends.bind (forLoop_dumpElement F hstuck hitem hfuel (tabLevel + 1) (by omega) hbound
        hlimit (pastItems_succ (.done b) hd₁)) fun d' hd' => ?_
      show PastItems _ _ _ _ _ ((closeLine o tabLevel d').printf _).context
      rw [Dumper.printf_context, closeLine_context]
      exact hd'

/-- A user object, whose label has been read. -/
theorem dumpUserObject_spec (F : Feeds H stuck inv stopped) (hstuck : stuck → excuse)
    (hitem : ItemSpec inv stopped o.recognizeObjects excuse limit item)
    (hfuel : fuel < 2 ^ 31 → excuse) (tabLevel : Int32) {dim : Nat} (htwo : 2 ≤ dim)
    (hlimit : b.length ≤ limit) (h : ReadTo inv b d) :
    DumpsContent inv stopped o.recognizeObjects excuse (userObjectHeader dim b)
      (dumpUserObject H o item fuel tabLevel dim d) := by
  unfold dumpUserObject
  refine Ends.bind ((cwUnpackNext_spec F h.2 h.1).excuse fun hs => Or.inl (hstuck hs))
    fun s' hdel => ?_
  cases hread : readItem b with
  | error e =>
      rw [hread] at hdel
      have hrc : s'.uc.returnCode ≠ 0 := by
        rw [hdel.returnCode]
        exact readItem_error hread
      have hheader : userObjectHeader dim b = .stops := by rw [userObjectHeader, hread]
      rw [hheader]
      show Ends _ _ (if s'.uc.returnCode ≠ 0 then some (d.setContext s') else _)
      rw [if_pos hrc]
      exact ⟨hrc, hdel.input⟩
  | ok a =>
      obtain ⟨v, n⟩ := a
      rw [hread] at hdel
      obtain ⟨hrc, hden, hinv⟩ := hdel
      have htype : s'.uc.item.type = itemType v := hden.1
      show Ends _ _ (if s'.uc.returnCode ≠ 0 then _ else if s'.uc.item.type ≠ .str then _ else _)
      rw [if_neg (not_not_intro hrc)]
      by_cases hstr : s'.uc.item.type = .str
      · obtain ⟨name, rfl⟩ := itemType_eq_str_iff.mp (htype.symm.trans hstr)
        have hheader : userObjectHeader dim b = loopHeader (dim - 2) (dim - 2) (b.drop n) := by
          rw [userObjectHeader, hread]
        have hcast : (dim : Int) - 2 = (dim - 2 : Nat) := (Int.ofNat_sub htwo).symm
        rw [if_neg (not_not_intro hstr), hheader, hcast]
        unfold loopHeader
        by_cases hdim : 2 ^ 31 ≤ dim - 2
        · have hlarge : (2 : Int) ^ 31 ≤ (dim - 2 : Nat) := by omega
          rw [if_pos hdim]
          simp only [forLoop_endless hlarge]
          exact dumpsContent_endless
        · rw [if_neg hdim]
          have hdrop : (b.drop n).length ≤ limit := by
            rw [List.length_drop]
            omega
          refine Ends.bind (forLoop_dumpElement F hstuck hitem hfuel (tabLevel + 1) (by omega)
            (Nat.zero_le _) hdrop (pastItems_zero hrc hinv)) fun d' hd' => ?_
          show PastItems _ _ _ _ _ ((closeLine o tabLevel d').printf _).context
          rw [Dumper.printf_context, closeLine_context]
          exact hd'
      · have hheader : userObjectHeader dim b = .stops := by
          unfold userObjectHeader
          split
          · rename_i name k heq
            obtain ⟨rfl, rfl⟩ := Prod.mk.inj (Except.ok.inj (hread.symm.trans heq))
            exact absurd htype hstr
          · rfl
        have hcode : cwpRcMalformedInput ≠ 0 := by decide
        rw [if_pos hstr, hheader]
        exact ⟨hcode, F.stops hinv⟩

/-- An array whose first element is an object marker. -/
theorem dumpObject_spec (F : Feeds H stuck inv stopped) (hstuck : stuck → excuse)
    (hitem : ItemSpec inv stopped o.recognizeObjects excuse limit item)
    (hfuel : fuel < 2 ^ 31 → excuse) (tabLevel : Int32) {dim : Nat} (hpos : 0 < dim)
    {payload : List UInt8} (hlimit : b.length ≤ limit)
    (hden : d.context.Denotes (.ext 127 payload)) (h : ReadTo inv b d) :
    DumpsContent inv stopped o.recognizeObjects excuse (objectHeader dim payload b)
      (dumpObject H o item fuel tabLevel dim d) := by
  obtain ⟨hrc, hinv⟩ := h
  have hgets := (extChecked_of_denotes_ext hrc hden).integer
  unfold Gets at hgets
  unfold dumpObject objectHeader
  rw [hgets]
  generalize extInteger (some payload) = result
  obtain ⟨label, code⟩ := result
  simp only
  have hone : (dim : Int) = 1 ↔ dim = 1 := by omega
  have htwo : (dim : Int) = 2 ↔ dim = 2 := by omega
  by_cases hcode : code = cwpRcOk
  · have hself : d.setContext (d.context.setReturnCode code) = d := by
      rw [hcode, setReturnCode_of_eq hrc]
      rfl
    rw [hself, if_neg (not_not_intro hcode)]
    by_cases hdim : dim = 1
    · rw [if_pos hdim, if_pos (hone.mpr hdim)]
      exact pastItems_zero hrc hinv
    · rw [if_neg hdim, if_neg (fun heq => hdim (hone.mp heq))]
      have hlabelled : ∀ d' : Dumper σ, d'.context = d.context → ReadTo inv b d' := by
        intro d' hd'
        constructor
        · rw [Dumper.returnCode, hd']
          exact hrc
        · rw [hd']
          exact hinv
      have hread : ReadTo inv b
          (if label ≠ 0 then (d.printf (.number label)).printf (.text "->") else d) := by
        apply hlabelled
        split <;> rfl
      generalize (if label ≠ 0 then (d.printf (.number label)).printf (.text "->") else d) = d' at hread ⊢
      by_cases hlabel : label < 0
      · rw [if_pos hlabel, if_pos (Int.not_le.mpr hlabel)]
        by_cases hdim2 : dim = 2
        · rw [if_neg (not_not_intro hdim2), if_neg (not_not_intro (htwo.mpr hdim2))]
          exact dumpNextItem_spec F hstuck hitem tabLevel hlimit (pastItems_zero hread.1 hread.2)
        · have hmalformed : cwpRcMalformedInput ≠ 0 := by decide
          rw [if_pos hdim2, if_pos (fun heq => hdim2 (htwo.mp heq))]
          exact ⟨hmalformed, F.stops hread.2⟩
      · rw [if_neg hlabel, if_neg (not_not_intro (Int.not_lt.mp hlabel))]
        exact dumpUserObject_spec F hstuck hitem hfuel tabLevel (by omega) hlimit hread
  · -- the label is none, and the context has stopped
    rw [if_pos hcode]
    have hstops : ∀ d' : Dumper σ, d'.context = d.context.setReturnCode code →
        d'.returnCode ≠ 0 ∧ stopped d'.context.input := by
      intro d' hd'
      constructor
      · rw [Dumper.returnCode, hd']
        exact hcode
      · rw [hd']
        exact F.stops hinv
    by_cases hdim : (dim : Int) = 1
    · rw [if_pos hdim]
      exact hstops _ rfl
    · rw [if_neg hdim]
      have hd' : (if label ≠ 0 then
            ((d.setContext (d.context.setReturnCode code)).printf (.number label)).printf (.text "->")
          else d.setContext (d.context.setReturnCode code)).context =
          d.context.setReturnCode code := by
        split <;> rfl
      generalize (if label ≠ 0 then
            ((d.setContext (d.context.setReturnCode code)).printf (.number label)).printf (.text "->")
          else d.setContext (d.context.setReturnCode code)) = d' at hd' ⊢
      obtain ⟨hrc', hstop'⟩ := hstops d' hd'
      by_cases hlabel : label ≥ 0
      · rw [if_neg (not_not_intro hlabel), dumpUserObject_of_stopped tabLevel dim hrc']
        exact ⟨hrc', hstop'⟩
      · rw [if_pos hlabel, dumpNextItem_of_stopped tabLevel hrc']
        have hmalformed : cwpRcMalformedInput ≠ 0 := by decide
        split
        · exact ⟨hmalformed, hstop'⟩
        · exact ⟨hrc', hstop'⟩

/-- `case CWP_ITEM_ARRAY` -/
theorem dumpArray_spec (F : Feeds H stuck inv stopped) (hstuck : stuck → excuse)
    (hitem : ItemSpec inv stopped o.recognizeObjects excuse limit item)
    (hfuel : fuel < 2 ^ 31 → excuse) (tabLevel : Int32) (dim : Nat) (hlimit : b.length ≤ limit)
    (h : ReadTo inv b d) :
    DumpsContent inv stopped o.recognizeObjects excuse (arrayHeader o.recognizeObjects dim b)
      (dumpArray H o item fuel tabLevel dim d) := by
  unfold dumpArray arrayHeader
  by_cases hdim : dim = 0
  · have hzero : (dim : Int) = 0 := by omega
    rw [if_pos hdim, if_pos hzero]
    exact pastItems_zero h.1 h.2
  · have hzero : ¬ (dim : Int) = 0 := by omega
    rw [if_neg hdim, if_neg hzero]
    refine Ends.bind ((cwUnpackNext_spec F h.2 h.1).excuse fun hs => Or.inl (hstuck hs))
      fun s' hdel => ?_
    cases hread : readItem b with
    | error e =>
        rw [hread] at hdel
        have hrc : s'.uc.returnCode ≠ 0 := by
          rw [hdel.returnCode]
          exact readItem_error hread
        show Ends _ _ (if s'.uc.returnCode ≠ 0 then some (d.setContext s') else _)
        rw [if_pos hrc]
        exact ⟨hrc, hdel.input⟩
    | ok a =>
        obtain ⟨v, n⟩ := a
        rw [hread] at hdel
        obtain ⟨hrc, hden, hinv⟩ := hdel
        have htype : s'.uc.item.type = itemType v := hden.1
        have hdrop : (b.drop n).length ≤ limit := by
          rw [List.length_drop]
          omega
        show Ends _ _ (if s'.uc.returnCode ≠ 0 then _
          else if o.recognizeObjects ∧ s'.uc.item.type = .ext 127 then
            dumpObject H o item fuel tabLevel dim (d.setContext s')
          else dumpElements H o item fuel tabLevel dim (d.setContext s'))
        rw [if_neg (not_not_intro hrc)]
        simp only
        by_cases hmarker : o.recognizeObjects ∧ s'.uc.item.type = .ext 127
        · obtain ⟨payload, rfl⟩ :=
            (itemType_eq_ext_iff (by decide)).mp (htype.symm.trans hmarker.2)
          have hpayload : markerPayload o.recognizeObjects (.ext 127 payload) = some payload :=
            if_pos ⟨hmarker.1, rfl⟩
          rw [if_pos hmarker, hpayload]
          exact dumpObject_spec F hstuck hitem hfuel tabLevel (Nat.pos_of_ne_zero hdim) hdrop hden
            ⟨hrc, hinv⟩
        · have hpayload : markerPayload o.recognizeObjects v = none := by
            cases hp : markerPayload o.recognizeObjects v with
            | none => rfl
            | some payload =>
                obtain ⟨hr, rfl⟩ := markerPayload_eq_some hp
                exact absurd ⟨hr, htype⟩ hmarker
          rw [if_neg hmarker, hpayload]
          exact dumpElements_spec F hstuck hitem hfuel tabLevel (Nat.pos_of_ne_zero hdim) hlimit hread
            hden ⟨hrc, hinv⟩

/-- What holds no items is dumped at once. -/
theorem dumpsContent_leaf {r : Bool} {d' : Dumper σ} (hrc : d'.context.uc.returnCode = 0)
    (hinv : inv b d'.context.input) :
    DumpsContent inv stopped r excuse (.content 0 b) (some d') := pastItems_zero hrc hinv

@[simp] theorem dumpTime_context (tvSec : Int) (tvNsec : Nat) (d : Dumper σ) :
    (dumpTime tvSec tvNsec d).context = d.context := by
  unfold dumpTime
  split <;> rfl

/-- `dump_item`, which needs a step for each byte and those of the longest loop. -/
theorem dumpItem_spec (F : Feeds H stuck inv stopped) (unit : FloatUnit) :
    ∀ (fuel limit : Nat) (excuse : Prop), (stuck → excuse) → (fuel < 2 ^ 31 + limit → excuse) →
      ItemSpec inv stopped o.recognizeObjects excuse limit (dumpItem unit H o fuel) := by
  intro fuel
  induction fuel with
  | zero =>
      intro limit excuse _ hfuel tabLevel d v b _ _ _ _
      exact Or.inl (hfuel (by omega))
  | succ fuel ih =>
      intro limit excuse hstuck hfuel tabLevel d v b hlimit hrc hden hinv
      have hitem := ih b.length excuse hstuck fun h => hfuel (by omega)
      have hloop : fuel < 2 ^ 31 → excuse := fun h => hfuel (by omega)
      have htype : d.context.uc.item.type = itemType v := hden.1
      cases v with
      | array dim =>
          obtain ⟨htype, hsize⟩ := denotes_array hden
          simp only [dumpItem, htype, hsize]
          exact dumpArray_spec F hstuck hitem hloop tabLevel dim (Nat.le_refl _) ⟨hrc, hinv⟩
      | map dim =>
          obtain ⟨htype, hsize⟩ := denotes_map hden
          simp only [dumpItem, htype, hsize]
          exact dumpMap_spec F hstuck hitem hloop tabLevel dim (Nat.le_refl _) ⟨hrc, hinv⟩
      | int n =>
          by_cases hn : 0 ≤ n
          · rw [itemType, if_pos hn] at htype
            simp only [dumpItem, htype]
            exact dumpsContent_leaf hrc hinv
          · rw [itemType, if_neg hn] at htype
            simp only [dumpItem, htype]
            exact dumpsContent_leaf hrc hinv
      | ext type payload =>
          simp only [dumpItem, htype, itemType]
          by_cases htime : type = -1
          · rw [htime]
            exact dumpsContent_leaf (by rw [dumpTime_context]; exact hrc)
              (by rw [dumpTime_context]; exact hinv)
          · split
            case h_9 heq => exact absurd heq (by simp)
            case h_10 heq => exact absurd heq (by simp)
            case h_11 heq => exact absurd (ItemType.ext.inj heq) htime
            all_goals exact dumpsContent_leaf hrc hinv
      | timestamp sec nsec =>
          simp only [dumpItem, htype, itemType]
          exact dumpsContent_leaf (by rw [dumpTime_context]; exact hrc)
            (by rw [dumpTime_context]; exact hinv)
      | _ =>
          simp only [dumpItem, htype, itemType]
          exact dumpsContent_leaf hrc hinv

end Spec

end CWPack.Goodies
