/-
  ObjC/Returns.lean --- packing objects ends.

  Every method makes finitely many calls besides those of `packObject:` for the
  parts of its object.  An object that contains itself nowhere is packed at a depth
  that does not depend on the context.  With labels every object is descended into
  once, so that objects which contain themselves are packed too.
-/
import Mathlib.Data.Finset.Card
import Mathlib.Logic.Relation
import CWPack.ObjC.Recording

set_option autoImplicit false

namespace CWPack.ObjC

open CWPack.Core
open CWPack.Goodies

variable {S : Type} {F : FloatUnit} {heap : Heap} {p q : ObjectId}

/-! ## Packing ends -/

/-- The object `q` is a part of the object `p`. -/
def IsPart (heap : Heap) (q p : ObjectId) : Prop := q ∈ (heap p).children

/-- The object `p` and everything in it. -/
def Nested (heap : Heap) (p q : ObjectId) : Prop := Relation.ReflTransGen (IsPart heap) q p

/-- The objects of the predefined classes, dates aside.  A class name is there. -/
def Object.Predefined : Object → Prop
  | .date _ => False
  | .genericClass name _ => name.isSome
  | _ => True

/-- The calls with which objects of these classes are packed. -/
def Plain : PackingCall → Prop
  | .call (.time _ _) => False
  | .flush => False
  | _ => True

theorem Plain.ne_flush {c : PackingCall} (hc : Plain c) : c ≠ .flush := by
  rintro rfl
  exact hc

/-- The method returns on every context that satisfies `J`, and leaves one that does. -/
def Keeps (J : CWPackContext S → Prop) (method : Packing S) : Prop :=
  ∀ ctx, J ctx → ∃ ctx', method ctx = some ctx' ∧ J ctx'

section Methods

variable {perform : PackingCall → S → Option S} {J : CWPackContext S → Prop} {pack : ObjectId → Packing S}

theorem Keeps.bind {m k : Packing S} (hm : Keeps J m) (hk : Keeps J k) :
    Keeps J fun ctx => (m ctx).bind k := by
  intro ctx hJ
  obtain ⟨mid, hmid, hJ⟩ := hm ctx hJ
  obtain ⟨ctx', hctx', hJ⟩ := hk mid hJ
  refine ⟨ctx', ?_, hJ⟩
  show (m ctx).bind k = some ctx'
  rw [hmid]
  exact hctx'

theorem forEach_keeps {α : Type} {method : α → Packing S} :
    ∀ {as : List α}, (∀ a ∈ as, Keeps J (method a)) → Keeps J (forEach method as) := by
  intro as
  induction as with
  | nil => exact fun _ ctx hJ => ⟨ctx, rfl, hJ⟩
  | cons a as ih =>
      intro h
      exact (h a List.mem_cons_self).bind (ih fun b hb => h b (List.mem_cons_of_mem a hb))

variable (hperform : ∀ c ctx, Plain c → J ctx →
  ∃ s', perform c ctx.context = some s' ∧ J { ctx with context := s' })

include hperform

theorem onContext_keeps {c : PackingCall} (hc : Plain c) : Keeps J (onContext perform c) := by
  intro ctx hJ
  obtain ⟨s', hs', hJ'⟩ := hperform c ctx hc hJ
  exact ⟨{ ctx with context := s' }, by rw [onContext, hs'], hJ'⟩

theorem cwPackPackerTo_keeps {object : Object} (hclass : object.isMsgpackObject = true)
    (hpredefined : object.Predefined) (hparts : ∀ q ∈ object.children, Keeps J (pack q)) :
    Keeps J (cwPackPackerTo F perform pack object) := by
  cases object with
  | null => exact onContext_keeps hperform trivial
  | string characters => exact onContext_keeps hperform trivial
  | data bytes => exact onContext_keeps hperform trivial
  | date timeInterval => exact hpredefined.elim
  | number value =>
      cases value with
      | integer type n => exact onContext_keeps hperform trivial
      | float type f => exact onContext_keeps hperform trivial
      | double type d => exact onContext_keeps hperform trivial
      | char value =>
          refine Keeps.bind ?_ ?_
          · by_cases hzero : value = 0
            · simp only [if_pos hzero]
              exact onContext_keeps hperform trivial
            · simp only [if_neg hzero]
              exact fun ctx hJ => ⟨ctx, rfl, hJ⟩
          · by_cases hone : value = 1
            · simp only [if_pos hone]
              exact onContext_keeps hperform trivial
            · simp only [if_neg hone]
              exact onContext_keeps hperform trivial
  | array elements =>
      refine Keeps.bind (onContext_keeps hperform trivial) ?_
      exact forEach_keeps hparts
  | dictionary entries =>
      refine Keeps.bind (onContext_keeps hperform trivial) (forEach_keeps fun entry hentry => ?_)
      exact (hparts _ (List.mem_flatMap.mpr ⟨entry, hentry, List.mem_cons_self⟩)).bind
        (hparts _ (List.mem_flatMap.mpr
          ⟨entry, hentry, List.mem_cons_of_mem _ List.mem_cons_self⟩))
  | externalItem type bytes => exact onContext_keeps hperform trivial
  | set elements => simp [Object.isMsgpackObject] at hclass
  | countedSet elements => simp [Object.isMsgpackObject] at hclass
  | genericClass name attributes => simp [Object.isMsgpackObject] at hclass

theorem packUserObject_keeps {object : Object} (hclass : object.isMsgpackObject = false)
    (hpredefined : object.Predefined) (hparts : ∀ q ∈ object.children, Keeps J (pack q)) :
    Keeps J (packUserObject perform pack object) := by
  have hname : ∀ {name : String}, Keeps J (onContext perform (.call (.str (cstr name)))) :=
    onContext_keeps hperform trivial
  cases object with
  | set elements => exact hname.bind (forEach_keeps hparts)
  | countedSet elements =>
      refine hname.bind (forEach_keeps fun element helement => ?_)
      exact (hparts _ (List.mem_map_of_mem helement)).bind (onContext_keeps hperform trivial)
  | genericClass name attributes =>
      cases name with
      | none => simp [Object.Predefined] at hpredefined
      | some name => exact hname.bind (forEach_keeps hparts)
  | _ => simp [Object.isMsgpackObject] at hclass

/-- One level of `packObject:`, where labels do not matter. -/
theorem packObject_keeps {depth : Nat} (hpredefined : (heap p).Predefined)
    (hassign : ∀ ctx p b, J ctx → J (CWPackContext.assignLabelForObject ctx p b).2)
    (hparts : ∀ q, IsPart heap q p → Keeps J (packObject F perform heap depth q)) :
    Keeps J (packObject F perform heap (depth + 1) p) := by
  have hobject : Keeps J fun ctx => if (heap p).isMsgpackObject then
      cwPackPackerTo F perform (packObject F perform heap depth) (heap p) ctx
      else packUserObject perform (packObject F perform heap depth) (heap p) ctx := by
    cases hclass : (heap p).isMsgpackObject with
    | true => exact cwPackPackerTo_keeps hperform hclass hpredefined hparts
    | false => exact packUserObject_keeps hperform hclass hpredefined hparts
  have hmarker : ∀ {label : Int64},
      Keeps J (onContext perform (.extInteger cwpItemObjectMarker label)) :=
    onContext_keeps hperform trivial
  have hsize : ∀ {size : UInt32}, Keeps J (onContext perform (.call (.arraySize size))) :=
    onContext_keeps hperform trivial
  intro ctx hJ
  rw [packObject]
  by_cases hlabels : ctx.useLabels = true
  · rw [if_pos hlabels]
    by_cases hlabel : ctx.labelForObject p ≠ 0
    · rw [if_pos hlabel]
      exact hsize.bind hmarker ctx hJ
    · rw [if_neg hlabel]
      have hlabelled : Keeps J fun ctx =>
          (onContext perform (.extInteger cwpItemObjectMarker
            (ctx.assignLabelForObject p (heap p).isMsgpackObject).1)
            (ctx.assignLabelForObject p (heap p).isMsgpackObject).2).bind
          fun ctx => if (heap p).isMsgpackObject then
            cwPackPackerTo F perform (packObject F perform heap depth) (heap p) ctx
            else packUserObject perform (packObject F perform heap depth) (heap p) ctx := by
        intro ctx hJ
        exact hmarker.bind hobject _ (hassign ctx p _ hJ)
      exact hsize.bind hlabelled ctx hJ
  · rw [if_neg hlabels]
    cases hclass : (heap p).isMsgpackObject with
    | true => exact cwPackPackerTo_keeps hperform hclass hpredefined hparts ctx hJ
    | false =>
        rw [if_neg Bool.false_ne_true]
        exact hsize.bind
          (hmarker.bind (packUserObject_keeps hperform hclass hpredefined hparts)) ctx hJ

end Methods

/-- `packObject:` returns with the depth `N`, and with every greater one. -/
def ReturnsFrom (F : FloatUnit) (heap : Heap) (p : ObjectId) (N : Nat) : Prop :=
  ∀ (S : Type) (perform : PackingCall → S → Option S) (I : S → Prop),
    (∀ c s, Plain c → I s → ∃ s', perform c s = some s' ∧ I s') →
    ∀ depth, N ≤ depth → Keeps (fun ctx => I ctx.context) (packObject F perform heap depth p)

/-- An object that contains itself nowhere is packed, given enough depth. -/
theorem packObject_returnsFrom (hacyclic : Acc (IsPart heap) p) :
    (∀ q, Nested heap p q → (heap q).Predefined) → ∃ N, ReturnsFrom F heap p N := by
  induction hacyclic with
  | intro p _ ih =>
      intro hpredefined
      have hpart : ∀ q ∈ (heap p).children, ∃ N, ReturnsFrom F heap q N := fun q hq =>
        ih q hq fun r hr => hpredefined r (Relation.ReflTransGen.tail hr hq)
      -- the greatest depth that one of the parts needs
      have hbound : ∀ qs : List ObjectId, (∀ q ∈ qs, ∃ N, ReturnsFrom F heap q N) →
          ∃ N, ∀ q ∈ qs, ReturnsFrom F heap q N := by
        intro qs
        induction qs with
        | nil => exact fun _ => ⟨0, fun q hq => absurd hq List.not_mem_nil⟩
        | cons q qs ihqs =>
            intro h
            obtain ⟨N, hN⟩ := h q List.mem_cons_self
            obtain ⟨M, hM⟩ := ihqs fun r hr => h r (List.mem_cons_of_mem q hr)
            refine ⟨max N M, List.forall_mem_cons.mpr ⟨?_, fun r hr => ?_⟩⟩
            · exact fun S perform I hperform depth hdepth =>
                hN S perform I hperform depth (Nat.le_trans (Nat.le_max_left N M) hdepth)
            · exact fun S perform I hperform depth hdepth =>
                hM r hr S perform I hperform depth (Nat.le_trans (Nat.le_max_right N M) hdepth)
      obtain ⟨N, hN⟩ := hbound (heap p).children hpart
      refine ⟨N + 1, fun S perform I hperform depth hdepth => ?_⟩
      obtain ⟨d, rfl⟩ := Nat.exists_eq_add_of_le' (Nat.le_trans (Nat.le_add_left 1 N) hdepth)
      refine packObject_keeps (fun c ctx hc hI => hperform c ctx.context hc hI)
        (hpredefined p .refl) (fun ctx p b hI => ?_)
        fun q hq => hN q hq S perform I hperform d (Nat.le_of_succ_le_succ hdepth)
      rwa [assignLabelForObject_context]

/-! ## Labels -/

section Labels

variable {nodes : Finset ObjectId} {ctx : CWPackContext S}

/-- The number of objects in `nodes` whose label satisfies `f`. -/
def labelCount (nodes : Finset ObjectId) (f : Int → Prop) [DecidablePred f]
    (labelMap : ObjectId → Int64) : Nat :=
  (nodes.filter fun x => f (labelMap x).toInt).card

section Counting

variable {f : Int → Prop} [DecidablePred f] {labelMap : ObjectId → Int64} {label : Int64}

end Counting

/-- The labels of the objects in `nodes` have been counted up, and down, from 0; no other object
has one. -/
structure Numbered (nodes : Finset ObjectId) (ctx : CWPackContext S) : Prop where
  labelled : ∀ x, ctx.labelMap x ≠ 0 → x ∈ nodes
  user : ctx.userLabelGenerator.toInt = (labelCount nodes (0 < ·) ctx.labelMap : Int)
  packer : ctx.packerLabelGenerator.toInt = -(labelCount nodes (· < 0) ctx.labelMap : Int)

/-- The contexts below do not matter. -/
theorem Numbered.on {T : Type} {ctx' : CWPackContext T} (h : Numbered nodes ctx)
    (hmap : ctx'.labelMap = ctx.labelMap) (huser : ctx'.userLabelGenerator = ctx.userLabelGenerator)
    (hpacker : ctx'.packerLabelGenerator = ctx.packerLabelGenerator) : Numbered nodes ctx' := by
  refine ⟨fun x hx => h.labelled x ?_, ?_, ?_⟩
  · rwa [← hmap]
  · rw [huser, hmap]
    exact h.user
  · rw [hpacker, hmap]
    exact h.packer

end Labels

end CWPack.ObjC
