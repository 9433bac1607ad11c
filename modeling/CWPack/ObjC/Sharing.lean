/-
  ObjC/Sharing.lean --- labels of the packer and references of the unpacker.

  The packer numbers objects before it descends into them, the unpacker collects
  them in two arrays, containers before their content and user objects behind their
  class name.  `Agrees` says that at a point between two objects the label of an
  object is the place of its copy, and `Grows` what happens from one such point to
  the next: the objects that were labelled in between have been built.

  The object that Foundation gives for a value may have been there before.  It is a
  copy of no other object of the graph where values that are held twice are always
  allocated (`ValuesApart`).
-/
import CWPack.ObjC.Incoming
import CWPack.ObjC.Returns

set_option autoImplicit false

namespace CWPack.ObjC

open CWPack.Core
open CWPack.Goodies

variable {S T σ : Type} {heap : Heap} {p q : ObjectId}

/-! ## Copies -/

namespace Object

/-- The object as it is built again: an integer is of type `kCFNumberSInt64Type`. -/
def unpacked : Object → Object
  | number (.integer _ longLongValue) => number (.integer .sInt64 longLongValue)
  | object => object

/-- The objects that this one holds. -/
def parts : Object → List ObjectId
  | array elements => elements
  | object => object.children

/-- The same object with other parts. -/
def mapParts (f : ObjectId → ObjectId) : Object → Object
  | array elements => array (elements.map f)
  | dictionary entries => dictionary (entries.map fun entry => (f entry.1, f entry.2))
  | set elements => set (elements.map f)
  | countedSet elements => countedSet (elements.map fun element => (f element.1, element.2))
  | genericClass name attributes => genericClass name (attributes.map f)
  | object => object

theorem mapParts_congr {f g : ObjectId → ObjectId} {object : Object}
    (h : ∀ q ∈ object.parts, f q = g q) : object.mapParts f = object.mapParts g := by
  cases object with
  | array elements => exact congrArg array (List.map_congr_left h)
  | dictionary entries =>
      refine congrArg dictionary (List.map_congr_left fun entry hentry => ?_)
      have hkey := h entry.1 (List.mem_flatMap.mpr ⟨entry, hentry, List.mem_cons_self⟩)
      have hvalue := h entry.2
        (List.mem_flatMap.mpr ⟨entry, hentry, List.mem_cons_of_mem _ List.mem_cons_self⟩)
      rw [hkey, hvalue]
  | set elements => exact congrArg set (List.map_congr_left h)
  | countedSet elements =>
      refine congrArg countedSet (List.map_congr_left fun element helement => ?_)
      rw [h element.1 (List.mem_map_of_mem helement)]
  | genericClass name attributes => exact congrArg (genericClass name) (List.map_congr_left h)
  | _ => rfl

/-- Strings, data, dates and numbers hold a value, and have no parts. -/
def isValue : Object → Bool
  | string _ => true
  | data _ => true
  | date _ => true
  | number _ => true
  | _ => false

theorem isValue_unpacked (object : Object) : object.unpacked.isValue = object.isValue := by
  cases object with
  | number value => cases value <;> rfl
  | _ => rfl

theorem mapParts_of_isValue {object : Object} (h : object.isValue = true)
    (f : ObjectId → ObjectId) : object.mapParts f = object := by
  cases object <;> first | rfl | exact absurd h Bool.false_ne_true

/-- The first is a copy of the second, though a container may not be filled yet. -/
structure StandsFor (object' object : Object) : Prop where
  isValue : object'.isValue = object.isValue
  value : object.isValue = true → object' = object.unpacked

theorem StandsFor.of_container {object' object : Object} (h' : object'.isValue = false)
    (h : object.isValue = false) : object'.StandsFor object :=
  ⟨h'.trans h.symm, fun hvalue => absurd (h.symm.trans hvalue) Bool.false_ne_true⟩

theorem StandsFor.unpacked (object : Object) : object.unpacked.StandsFor object :=
  ⟨isValue_unpacked object, fun _ => rfl⟩

theorem parts_unpacked (object : Object) : object.unpacked.parts = object.parts := by
  cases object with
  | number value => cases value <;> rfl
  | _ => rfl

end Object

/-- Values that are held by two objects of the graph are allocated anew each time; any other value
may be there already. -/
def ValuesApart (R : Runtime) (heap : Heap) (nodes : ObjectId → Prop) : Prop :=
  ∀ x y, nodes x → nodes y → x ≠ y → (heap x).isValue = true →
    (heap x).unpacked = (heap y).unpacked → ∀ objects, R.existing objects (heap x).unpacked = none

/-! ## Labels and references -/

/-- Every labelled object has its copy at `loc`, at the place in the references that its label
says. -/
structure Agrees (heap : Heap) (ctx : CWPackContext S) (u : CWUnpackContext σ)
    (loc : ObjectId → ObjectId) : Prop where
  useLabels : ctx.useLabels = true
  user : (u.userReferences.length : Int) = ctx.userLabelGenerator.toInt + 1
  packer : (u.packerReferences.length : Int) = 1 - ctx.packerLabelGenerator.toInt
  userReference : ∀ x, 0 < (ctx.labelMap x).toInt →
    u.userReferences[(ctx.labelMap x).toInt.toNat]? = some (loc x)
  packerReference : ∀ x, (ctx.labelMap x).toInt < 0 →
    u.packerReferences[(-(ctx.labelMap x).toInt).toNat]? = some (loc x)
  injective : ∀ x y, ctx.labelMap x ≠ 0 → ctx.labelMap y ≠ 0 → loc x = loc y → x = y
  holds : ∀ x, ctx.labelMap x ≠ 0 → ∃ object, u.heap[loc x]? = some object ∧
    object.StandsFor (heap x)

/-- From one point to the next, but for the object at the addresses `except`. -/
structure Grows (heap : Heap) (ctx : CWPackContext S) (u : CWUnpackContext σ)
    (loc : ObjectId → ObjectId) (ctx' : CWPackContext T) (u' : CWUnpackContext σ)
    (loc' : ObjectId → ObjectId) (except : ObjectId → Prop) : Prop where
  label : ∀ x, ctx.labelMap x ≠ 0 → ctx'.labelMap x = ctx.labelMap x
  loc : ∀ x, ctx.labelMap x ≠ 0 → loc' x = loc x
  length_le : u.heap.length ≤ u'.heap.length
  frame : ∀ a, a < u.heap.length → ¬ except a → u'.heap[a]? = u.heap[a]?
  built : ∀ x, ctx.labelMap x = 0 → ctx'.labelMap x ≠ 0 →
    u'.heap[loc' x]? = some ((heap x).unpacked.mapParts loc') ∧
      ∀ y ∈ (heap x).parts, ctx'.labelMap y ≠ 0

section Steps

variable {ctx : CWPackContext S} {ctx' : CWPackContext T} {u u' u'' : CWUnpackContext σ}
  {loc loc' loc'' : ObjectId → ObjectId} {except : ObjectId → Prop}

/-- The contexts below do not matter. -/
theorem Agrees.on (h : Agrees heap ctx u loc) (context : T) (s : UnpackState σ) :
    Agrees heap (ctx.on context) { u with context := s } loc :=
  ⟨h.useLabels, h.user, h.packer, h.userReference, h.packerReference, h.injective, h.holds⟩

theorem Agrees.allocated (h : Agrees heap ctx u loc) (hlabel : ctx.labelMap p ≠ 0) :
    loc p < u.heap.length := by
  obtain ⟨object, hobject, -⟩ := h.holds p hlabel
  exact (List.getElem?_eq_some_iff.mp hobject).1

theorem Agrees.string (h : Agrees heap ctx u loc) (hlabel : ctx.labelMap p ≠ 0)
    {characters : String} (hp : heap p = .string characters) :
    u.heap[loc p]? = some (.string characters) := by
  obtain ⟨object, hobject, hstands⟩ := h.holds p hlabel
  rw [hobject, hstands.value (by rw [hp]; rfl), hp]
  rfl

/-- The reference to a labelled object is found. -/
theorem Agrees.unpackReference (h : Agrees heap ctx u loc) (hlabel : ctx.labelMap p ≠ 0) :
    unpackReference (ctx.labelMap p).toInt u = (some (loc p), u) := by
  have hne : (ctx.labelMap p).toInt ≠ 0 := fun h => hlabel (Int64.toInt_inj.mp h)
  unfold CWPack.ObjC.unpackReference
  by_cases hneg : (ctx.labelMap p).toInt < 0
  · have hfound := h.packerReference p hneg
    have hlt := (List.getElem?_eq_some_iff.mp hfound).1
    have hinside : ¬ (if (ctx.labelMap p).toInt < 0 then
        -(ctx.labelMap p).toInt ≥ u.packerReferences.length
        else (ctx.labelMap p).toInt ≥ u.userReferences.length) := by
      rw [if_pos hneg]
      omega
    rw [if_neg hinside, if_neg (by omega), hfound]
  · have hfound := h.userReference p (by omega)
    have hlt := (List.getElem?_eq_some_iff.mp hfound).1
    have hinside : ¬ (if (ctx.labelMap p).toInt < 0 then
        -(ctx.labelMap p).toInt ≥ u.packerReferences.length
        else (ctx.labelMap p).toInt ≥ u.userReferences.length) := by
      rw [if_neg hneg]
      omega
    rw [if_neg hinside, if_pos (by omega), hfound]

theorem Grows.on (h : Grows heap ctx u loc ctx' u' loc' except) {V : Type} (context : T)
    (context' : V) (s s' : UnpackState σ) :
    Grows heap (ctx.on context) { u with context := s } loc (ctx'.on context')
      { u' with context := s' } loc' except :=
  ⟨h.label, h.loc, h.length_le, h.frame, h.built⟩

theorem Grows.refl (u : CWUnpackContext σ) (loc : ObjectId → ObjectId) :
    Grows heap ctx u loc ctx u loc except :=
  ⟨fun _ _ => rfl, fun _ _ => rfl, Nat.le_refl _, fun _ _ _ => rfl, fun _ h h' => absurd h h'⟩

theorem Grows.mono {except' : ObjectId → Prop} (h : Grows heap ctx u loc ctx' u' loc' except)
    (himp : ∀ a, except a → except' a) : Grows heap ctx u loc ctx' u' loc' except' :=
  ⟨h.label, h.loc, h.length_le, fun a ha hnot => h.frame a ha fun he => hnot (himp a he), h.built⟩

/-- One step and then another, with the same exceptions, all of them copies that were there
before. -/
theorem Grows.trans {V : Type} {ctx'' : CWPackContext V}
    (h : Grows heap ctx u loc ctx' u' loc' except)
    (h' : Grows heap ctx' u' loc' ctx'' u'' loc'' except)
    (hold : ∀ a, except a → ∃ x, ctx.labelMap x ≠ 0 ∧ a = loc x)
    (hagrees : Agrees heap ctx' u' loc') :
    Grows heap ctx u loc ctx'' u'' loc'' except := by
  have hlabel : ∀ x, ctx.labelMap x ≠ 0 → ctx'.labelMap x ≠ 0 := fun x hx => by
    rw [h.label x hx]
    exact hx
  refine ⟨fun x hx => ?_, fun x hx => ?_, Nat.le_trans h.length_le h'.length_le,
    fun a ha hnot => ?_, fun x hnew hx => ?_⟩
  · rw [h'.label x (hlabel x hx), h.label x hx]
  · rw [h'.loc x (hlabel x hx), h.loc x hx]
  · rw [h'.frame a (Nat.lt_of_lt_of_le ha h.length_le) hnot, h.frame a ha hnot]
  · by_cases hmid : ctx'.labelMap x = 0
    · exact h'.built x hmid hx
    · -- it was built in the first step, and the second one leaves it alone
      obtain ⟨hbuilt, hparts⟩ := h.built x hnew hmid
      have hother : ¬ except (loc' x) := by
        intro he
        obtain ⟨y, hy, hloc⟩ := hold _ he
        rw [← h.loc y hy] at hloc
        exact hy (hagrees.injective x y hmid (hlabel y hy) hloc ▸ hnew)
      refine ⟨?_, fun y hy => ?_⟩
      · rw [h'.loc x hmid, h'.frame _ (hagrees.allocated hmid) hother, hbuilt]
        refine congrArg some (Object.mapParts_congr fun y hy => ?_)
        rw [Object.parts_unpacked] at hy
        exact (h'.loc y (hparts y hy)).symm
      · rw [h'.label y (hparts y hy)]
        exact hparts y hy

/-- What the object at the copy of a container holds is changed. -/
theorem Agrees.update (h : Agrees heap ctx u loc) (hlabel : ctx.labelMap p ≠ 0)
    (hcontainer : (heap p).isValue = false) {f : Object → Object}
    (hf : ∀ object, (f object).isValue = object.isValue) :
    Agrees heap ctx (u.update (loc p) f) loc := by
  refine ⟨h.useLabels, h.user, h.packer, h.userReference, h.packerReference, h.injective,
    fun x hx => ?_⟩
  obtain ⟨object, hobject, hstands⟩ := h.holds x hx
  show ∃ object, (u.heap.modify (loc p) f)[loc x]? = some object ∧ _
  by_cases he : loc p = loc x
  · obtain rfl := h.injective p x hlabel hx he
    refine ⟨f object, ?_, .of_container ((hf object).trans (hstands.isValue.trans hcontainer))
      hcontainer⟩
    rw [List.getElem?_modify_eq, hobject]
    rfl
  · exact ⟨object, by rw [List.getElem?_modify_ne _ _ he, hobject], hstands⟩

theorem Grows.update (u : CWUnpackContext σ) (loc : ObjectId → ObjectId) (a : ObjectId)
    (f : Object → Object) : Grows heap ctx u loc ctx (u.update a f) loc (· = a) := by
  refine ⟨fun _ _ => rfl, fun _ _ => rfl, ?_, fun b _ hb => ?_, fun _ h h' => absurd h h'⟩
  · show u.heap.length ≤ (u.heap.modify a f).length
    rw [List.length_modify]
  · exact List.getElem?_modify_ne _ _ (Ne.symm hb)

/-- An object is labelled, and a copy that is none of the others is at `a`. -/
structure Registers (heap : Heap) (ctx : CWPackContext S) (u : CWUnpackContext σ)
    (loc : ObjectId → ObjectId) (ctx' : CWPackContext T) (u' : CWUnpackContext σ)
    (p a : ObjectId) : Prop where
  useLabels : ctx'.useLabels = ctx.useLabels
  label : ∃ l, l ≠ 0 ∧ ctx'.labelMap = Function.update ctx.labelMap p l ∧
    (0 < l.toInt → u'.userReferences[l.toInt.toNat]? = some a) ∧
    (l.toInt < 0 → u'.packerReferences[(-l.toInt).toNat]? = some a)
  user : (u'.userReferences.length : Int) = ctx'.userLabelGenerator.toInt + 1
  packer : (u'.packerReferences.length : Int) = 1 - ctx'.packerLabelGenerator.toInt
  userReferences : u.userReferences <+: u'.userReferences
  packerReferences : u.packerReferences <+: u'.packerReferences
  objects : u.heap <+: u'.heap
  apart : ∀ x, ctx.labelMap x ≠ 0 → loc x ≠ a
  old : a < u.heap.length → (heap p).isValue = true
  holds : ∃ object, u'.heap[a]? = some object ∧ object.StandsFor (heap p)

/-- The next reference of the packer is an object for `p`, at `a`: a new one, or one that is there
and holds its value. -/
structure Places (R : Runtime) (heap : Heap) (u u' : CWUnpackContext σ) (p a : ObjectId) :
    Prop where
  userReferences : u'.userReferences = u.userReferences
  packerReferences : u'.packerReferences = u.packerReferences ++ [a]
  objects : u.heap <+: u'.heap
  place : u.heap.length ≤ a ∨
    (heap p).isValue = true ∧ R.existing u.heap (heap p).unpacked ≠ none
  holds : ∃ object, u'.heap[a]? = some object ∧ object.StandsFor (heap p)

/-- The context below does not matter. -/
theorem Places.on {R : Runtime} {a : ObjectId} {s : UnpackState σ}
    (h : Places R heap { u with context := s } u' p a) : Places R heap u u' p a :=
  ⟨h.userReferences, h.packerReferences, h.objects, h.place, h.holds⟩

theorem getElem?_mono {α : Type} {l l' : List α} (h : l <+: l') {i : Nat} {x : α}
    (hx : l[i]? = some x) : l'[i]? = some x := by
  obtain ⟨hlt, rfl⟩ := List.getElem?_eq_some_iff.mp hx
  exact List.prefix_iff_getElem?.mp h i hlt

/-- What is placed for an object without a label is the copy of no object that has one. -/
theorem Agrees.apart {nodes : Finset ObjectId} {R : Runtime} {a : ObjectId}
    (h : Agrees heap ctx u loc) (hnumbered : Numbered nodes ctx) (hp : p ∈ nodes)
    (hnew : ctx.labelMap p = 0) (hapart : ValuesApart R heap (· ∈ nodes))
    (hplaces : Places R heap u u' p a) : ∀ x, ctx.labelMap x ≠ 0 → loc x ≠ a := by
  rintro x hx rfl
  rcases hplaces.place with hle | ⟨hvalue, hexisting⟩
  · exact Nat.not_lt_of_le hle (h.allocated hx)
  · -- both hold the same value, which then is allocated anew
    obtain ⟨object, hobject, hstands⟩ := h.holds x hx
    obtain ⟨object', hobject', hstands'⟩ := hplaces.holds
    obtain rfl : object = object' :=
      Option.some.inj ((getElem?_mono hplaces.objects hobject).symm.trans hobject')
    have hvalue' : (heap x).isValue = true :=
      hstands.isValue.symm.trans (hstands'.isValue.trans hvalue)
    have hsame : (heap p).unpacked = (heap x).unpacked :=
      (hstands'.value hvalue).symm.trans (hstands.value hvalue')
    have hne : p ≠ x := fun he => hx (he ▸ hnew)
    exact hexisting (hapart p x hp (hnumbered.labelled x hx) hne hvalue hsame u.heap)

/-- When the copy of a registered object is finished, it has been built from where it was not
labelled yet. -/
theorem Registers.grows {V : Type} {ctx'' : CWPackContext V}
    (h : Registers heap ctx u loc ctx' u' p q) (hnew : ctx.labelMap p = 0)
    (hgrows : Grows heap ctx' u' (Function.update loc p q) ctx'' u'' loc'' (· = q))
    (hbuilt : u''.heap[q]? = some ((heap p).unpacked.mapParts loc''))
    (hparts : ∀ y ∈ (heap p).parts, ctx''.labelMap y ≠ 0) :
    Grows heap ctx u loc ctx'' u'' loc'' (fun _ => False) := by
  obtain ⟨l, hl, hmap, -, -⟩ := h.label
  have hother : ∀ x, x ≠ p → ctx'.labelMap x = ctx.labelMap x := fun x hx => by
    rw [hmap, Function.update_of_ne hx]
  have hself : ctx'.labelMap p ≠ 0 := by
    rw [hmap, Function.update_self]
    exact hl
  have hp : loc'' p = q := by
    rw [hgrows.loc p hself, Function.update_self]
  have hne : ∀ x, ctx.labelMap x ≠ 0 → x ≠ p := by
    rintro x hx rfl
    exact hx hnew
  have hlabel : ∀ x, ctx.labelMap x ≠ 0 → ctx'.labelMap x ≠ 0 := fun x hx => by
    rw [hother x (hne x hx)]
    exact hx
  have hle := h.objects.length_le
  refine ⟨fun x hx => ?_, fun x hx => ?_, Nat.le_trans hle hgrows.length_le, fun a ha _ => ?_,
    fun x hx hx'' => ?_⟩
  · rw [hgrows.label x (hlabel x hx), hother x (hne x hx)]
  · rw [hgrows.loc x (hlabel x hx), Function.update_of_ne (hne x hx)]
  · have hkeep : u'.heap[a]? = u.heap[a]? :=
      (getElem?_mono h.objects (List.getElem?_eq_getElem ha)).trans
        (List.getElem?_eq_getElem ha).symm
    by_cases haq : a = q
    · -- an object that was there is the value, and is left as it is
      subst haq
      have hvalue := h.old ha
      obtain ⟨object, hobject, hstands⟩ := h.holds
      rw [hbuilt, ← hkeep, hobject, hstands.value hvalue,
        Object.mapParts_of_isValue ((Object.isValue_unpacked _).trans hvalue)]
    · rw [hgrows.frame a (Nat.lt_of_lt_of_le ha hle) haq, hkeep]
  · by_cases hxp : x = p
    · rw [hxp, hp]
      exact ⟨hbuilt, hparts⟩
    · rw [← hother x hxp] at hx
      exact hgrows.built x hx hx''

end Steps

end CWPack.ObjC
