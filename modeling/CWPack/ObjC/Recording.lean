/-
  ObjC/Recording.lean --- the calls an object is packed with.

  No method looks at the C context, so that the calls it makes are the same
  whatever they do.  `packObject_follows` says that packing an object is to make
  the calls that are put down when they are only recorded.
-/
import CWPack.ObjC.PackContext

set_option autoImplicit false

namespace CWPack.ObjC

open CWPack.Foundation
open CWPack.Core
open CWPack.Goodies

variable {S T : Type} {perform : PackingCall → S → Option S}

/-- A context whose calls are put down. -/
abbrev Recorded : Type := CWPackContext (List PackingCall)

/-- The same labels on another context. -/
def CWPackContext.on (ctx : CWPackContext S) (context : T) : CWPackContext T where
  context := context
  useLabels := ctx.useLabels
  labelMap := ctx.labelMap
  userLabelGenerator := ctx.userLabelGenerator
  packerLabelGenerator := ctx.packerLabelGenerator

@[simp] theorem assignLabelForObject_context (ctx : CWPackContext S) (p : ObjectId) (b : Bool) :
    (ctx.assignLabelForObject p b).2.context = ctx.context := by
  cases b <;> rfl

theorem on_assignLabelForObject (ctx : CWPackContext S) (context : T) (p : ObjectId) (b : Bool) :
    (ctx.on context).assignLabelForObject p b =
      ((ctx.assignLabelForObject p b).1, (ctx.assignLabelForObject p b).2.on context) := by
  cases b <;> rfl

/-- What was to be done on `s` is to make the calls that were put down behind `log`. -/
def Follows (perform : PackingCall → S → Option S) (s : S) (log : List PackingCall)
    (recorded : Option Recorded) (done : Option (CWPackContext S)) : Prop :=
  match recorded with
  | none => done = none
  | some r => ∃ calls, r.context = log ++ calls ∧ done = (run perform calls s).map r.on

/-- A method makes the calls it puts down. -/
def MethodFollows (perform : PackingCall → S → Option S) (recorded : Packing (List PackingCall))
    (method : Packing S) : Prop :=
  ∀ (ctx : CWPackContext S) (log : List PackingCall),
    Follows perform ctx.context log (recorded (ctx.on log)) (method ctx)

section Methods

variable {s : S} {log : List PackingCall}

theorem follows_none : Follows perform s log none none := rfl

theorem follows_some (ctx : CWPackContext S) :
    Follows perform ctx.context log (some (ctx.on log)) (some ctx) :=
  ⟨[], (List.append_nil log).symm, rfl⟩

theorem Follows.bind {x : Option Recorded} {y : Option (CWPackContext S)}
    {k : Packing (List PackingCall)} {k' : Packing S} (h : Follows perform s log x y)
    (hk : MethodFollows perform k k') : Follows perform s log (x.bind k) (y.bind k') := by
  cases x with
  | none =>
      obtain rfl : y = none := h
      rfl
  | some r =>
      obtain ⟨calls, hr, rfl⟩ := h
      show Follows perform s log (k r) _
      cases hrun : run perform calls s with
      | none =>
          -- a call does not return, and nothing is done after it
          cases hkr : k r with
          | none => rfl
          | some r' =>
              have hcalls : ∀ t : S, Follows perform t r.context (k r) (k' (r.on t)) := fun t =>
                hk (r.on t) r.context
              rw [hkr] at hcalls
              obtain ⟨calls', hr', -⟩ := hcalls s
              refine ⟨calls ++ calls', by rw [hr', hr, List.append_assoc], ?_⟩
              rw [run_append, hrun]
              rfl
      | some t =>
          have hnext : Follows perform t r.context (k r) (k' (r.on t)) := hk (r.on t) r.context
          show Follows perform s log (k r) (k' (r.on t))
          cases hkr : k r with
          | none => rwa [hkr] at hnext
          | some r' =>
              rw [hkr] at hnext
              obtain ⟨calls', hr', hdone⟩ := hnext
              refine ⟨calls ++ calls', by rw [hr', hr, List.append_assoc], ?_⟩
              rw [hdone, run_append, hrun]
              rfl

theorem onContext_follows (c : PackingCall) :
    MethodFollows perform (onContext record c) (onContext perform c) := by
  intro ctx log
  refine ⟨[c], rfl, ?_⟩
  unfold onContext run
  cases perform c ctx.context with
  | none => rfl
  | some t => rfl

theorem forEach_follows {α : Type} {recorded : α → Packing (List PackingCall)}
    {method : α → Packing S} (h : ∀ a, MethodFollows perform (recorded a) (method a)) :
    ∀ as, MethodFollows perform (forEach recorded as) (forEach method as) := by
  intro as
  induction as with
  | nil => exact fun ctx log => follows_some ctx
  | cons a as ih => exact fun ctx log => (h a ctx log).bind ih

variable {F : FloatUnit} {recorded : ObjectId → Packing (List PackingCall)}
  {method : ObjectId → Packing S}

theorem cwPackNumber_follows (value : Number) :
    MethodFollows perform (cwPackNumber record value) (cwPackNumber perform value) := by
  cases value with
  | integer type n => exact onContext_follows _
  | float type f => exact onContext_follows _
  | double type d => exact onContext_follows _
  | char value =>
      intro ctx log
      refine Follows.bind ?_ fun ctx log => ?_
      · by_cases hzero : value = 0
        · rw [if_pos hzero, if_pos hzero]
          exact onContext_follows _ ctx log
        · rw [if_neg hzero, if_neg hzero]
          exact follows_some ctx
      · by_cases hone : value = 1
        · rw [if_pos hone, if_pos hone]
          exact onContext_follows _ ctx log
        · rw [if_neg hone, if_neg hone]
          exact onContext_follows _ ctx log

theorem cwPackPackerTo_follows (h : ∀ p, MethodFollows perform (recorded p) (method p))
    (object : Object) :
    MethodFollows perform (cwPackPackerTo F record recorded object)
      (cwPackPackerTo F perform method object) := by
  cases object with
  | null => exact onContext_follows _
  | string characters => exact onContext_follows _
  | data bytes => exact onContext_follows _
  | date timeInterval => exact onContext_follows _
  | number value => exact cwPackNumber_follows value
  | array elements =>
      exact fun ctx log => (onContext_follows _ ctx log).bind (forEach_follows h _)
  | dictionary entries =>
      refine fun ctx log => (onContext_follows _ ctx log).bind (forEach_follows ?_ _)
      exact fun entry ctx log => (h entry.1 ctx log).bind (h entry.2)
  | externalItem type data => exact onContext_follows _
  | set elements => exact fun _ _ => follows_none
  | countedSet elements => exact fun _ _ => follows_none
  | genericClass name attributes => exact fun _ _ => follows_none

theorem cwPackSub_follows (h : ∀ p, MethodFollows perform (recorded p) (method p))
    (object : Object) :
    MethodFollows perform (cwPackSub record recorded object)
      (cwPackSub perform method object) := by
  cases object with
  | set elements => exact forEach_follows h _
  | countedSet elements =>
      exact forEach_follows
        (fun element ctx log => (h element.1 ctx log).bind (onContext_follows _)) _
  | genericClass name attributes => exact forEach_follows h _
  | _ => exact fun _ _ => follows_none

theorem packUserObject_follows (h : ∀ p, MethodFollows perform (recorded p) (method p))
    (object : Object) :
    MethodFollows perform (packUserObject record recorded object)
      (packUserObject perform method object) := by
  intro ctx log
  unfold packUserObject
  cases object.packerClassName with
  | none => exact follows_none
  | some name => exact (onContext_follows _ ctx log).bind (cwPackSub_follows h object)

end Methods

/-- Packing an object is to make the calls that are put down. -/
theorem packObject_follows {F : FloatUnit} {heap : Heap} :
    ∀ (depth : Nat) (p : ObjectId),
      MethodFollows perform (packObject F record heap depth p)
        (packObject F perform heap depth p) := by
  intro depth
  induction depth with
  | zero => exact fun p ctx log => follows_none
  | succ depth ih =>
      intro p ctx log
      have hobject : MethodFollows perform
          (fun r => if (heap p).isMsgpackObject then
            cwPackPackerTo F record (packObject F record heap depth) (heap p) r
            else packUserObject record (packObject F record heap depth) (heap p) r)
          (fun ctx => if (heap p).isMsgpackObject then
            cwPackPackerTo F perform (packObject F perform heap depth) (heap p) ctx
            else packUserObject perform (packObject F perform heap depth) (heap p) ctx) := by
        intro ctx log
        cases (heap p).isMsgpackObject with
        | true => exact cwPackPackerTo_follows ih (heap p) ctx log
        | false => exact packUserObject_follows ih (heap p) ctx log
      show Follows perform ctx.context log (packObject F record heap (depth + 1) p (ctx.on log)) _
      rw [packObject, packObject]
      by_cases hlabels : ctx.useLabels = true
      · rw [if_pos hlabels, if_pos (show (ctx.on log).useLabels = true from hlabels)]
        by_cases hlabel : ctx.labelForObject p ≠ 0
        · rw [if_pos hlabel, if_pos (show (ctx.on log).labelForObject p ≠ 0 from hlabel)]
          exact (onContext_follows _ ctx log).bind (onContext_follows _)
        · rw [if_neg hlabel, if_neg (show ¬ (ctx.on log).labelForObject p ≠ 0 from hlabel)]
          refine (onContext_follows _ ctx log).bind fun ctx log => ?_
          -- the label is assigned between the two calls
          have hmarker := (onContext_follows (.extInteger cwpItemObjectMarker
              (ctx.assignLabelForObject p (heap p).isMsgpackObject).1) :
            MethodFollows perform _ _) (ctx.assignLabelForObject p (heap p).isMsgpackObject).2 log
          rw [assignLabelForObject_context] at hmarker
          rw [on_assignLabelForObject]
          exact hmarker.bind hobject
      · rw [if_neg hlabels, if_neg (show ¬ (ctx.on log).useLabels = true from hlabels)]
        cases hclass : (heap p).isMsgpackObject with
        | true => exact cwPackPackerTo_follows ih (heap p) ctx log
        | false =>
            rw [if_neg Bool.false_ne_true, if_neg Bool.false_ne_true]
            refine (onContext_follows _ ctx log).bind fun ctx log => ?_
            exact (onContext_follows _ ctx log).bind (packUserObject_follows ih (heap p))

/-- Where packing an object returns, the calls that are put down lead to the same context. -/
theorem packObject_recorded {F : FloatUnit} {heap : Heap} {depth : Nat} {p : ObjectId}
    {ctx ctx' : CWPackContext S} (h : packObject F perform heap depth p ctx = some ctx') :
    ∃ calls, packObject F record heap depth p (ctx.on []) = some (ctx'.on calls) ∧
      run perform calls ctx.context = some ctx'.context := by
  have hfollows : Follows perform ctx.context [] (packObject F record heap depth p (ctx.on []))
      (packObject F perform heap depth p ctx) := packObject_follows depth p ctx []
  cases hrecord : packObject F record heap depth p (ctx.on []) with
  | none =>
      rw [hrecord, h] at hfollows
      exact Option.some_ne_none _ hfollows |>.elim
  | some r =>
      rw [hrecord, h] at hfollows
      obtain ⟨calls, hr, hrun⟩ := hfollows
      obtain rfl : r.context = calls := hr
      obtain ⟨s', hs', rfl⟩ := Option.map_eq_some_iff.mp hrun.symm
      exact ⟨r.context, rfl, hs'⟩

end CWPack.ObjC
