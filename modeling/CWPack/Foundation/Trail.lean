/-
  Foundation/Trail.lean --- computations that leave a trail of events.

  A `Trail` is a computation that may not return, as in `Outcome`, with the events
  that happened before it returned or got stuck.  Dropping the events is its
  erasure.

  A `Monitor` reads the events one by one and may object to one of them.  `Exact`
  says that it objects to nothing exactly where every event meets a condition, and
  `Exact.bind` composes such computations.
-/
import CWPack.Foundation.Outcome

set_option autoImplicit false

namespace CWPack.Foundation

/-- The events of a computation, and what it returns. -/
structure Trail (ε α : Type) where
  events : List ε
  result : Option α

namespace Trail

variable {ε α β : Type}

/-- A computation without an event. -/
def silent (r : Option α) : Trail ε α := ⟨[], r⟩

/-- A single event. -/
def note (e : ε) : Trail ε Unit := ⟨[e], some ()⟩

/-- One computation after the other; where the first does not return, the second has no
events. -/
protected def bind (x : Trail ε α) (f : α → Trail ε β) : Trail ε β :=
  match x.result with
  | none => ⟨x.events, none⟩
  | some a => ⟨x.events ++ (f a).events, (f a).result⟩

instance : Monad (Trail ε) where
  pure a := silent (some a)
  bind := Trail.bind

/-! ## Erasure -/

section Erasure

variable (r : Option α) (a : α) (e : ε) (x : Trail ε α) (f : α → Trail ε β)

@[simp] theorem result_silent : (silent r : Trail ε α).result = r := rfl

@[simp] theorem events_silent : (silent r : Trail ε α).events = [] := rfl

@[simp] theorem result_pure : (pure a : Trail ε α).result = some a := rfl

@[simp] theorem events_pure : (pure a : Trail ε α).events = [] := rfl

@[simp] theorem result_note : (note e).result = some () := rfl

@[simp] theorem events_note : (note e).events = [e] := rfl

/-- What a sequence returns does not depend on its events. -/
@[simp] theorem result_bind : (x >>= f).result = x.result.bind fun a => (f a).result := by
  show (Trail.bind x f).result = _
  unfold Trail.bind
  cases x.result <;> rfl

theorem events_bind_of_none (h : x.result = none) : (x >>= f).events = x.events := by
  show (Trail.bind x f).events = _
  simp only [Trail.bind, h]

theorem events_bind_of_some {x : Trail ε α} {a : α} (h : x.result = some a) :
    (x >>= f).events = x.events ++ (f a).events := by
  show (Trail.bind x f).events = _
  simp only [Trail.bind, h]

end Erasure

/-- What follows an event. -/
@[simp] theorem events_note_bind (e : ε) (f : Unit → Trail ε β) :
    (note e >>= f).events = e :: (f ()).events := rfl

end Trail

/-! ## Monitors -/

/-- A reader of events that keeps a state, and may object to an event. -/
structure Monitor (S ε : Type) where
  next : S → ε → S
  allows : S → ε → Prop

namespace Monitor

variable {S ε α β : Type} (M : Monitor S ε)

/-- Nothing in the list of events is objected to. -/
def Accepts : S → List ε → Prop
  | _, [] => True
  | s, e :: es => M.allows s e ∧ Accepts (M.next s e) es

/-- The state behind a list of events. -/
def after (s : S) (es : List ε) : S := es.foldl M.next s

theorem accepts_append (s : S) (es fs : List ε) :
    M.Accepts s (es ++ fs) ↔ M.Accepts s es ∧ M.Accepts (M.after s es) fs := by
  induction es generalizing s with
  | nil => exact Iff.symm (iff_of_eq (true_and _))
  | cons e es ih =>
      show M.allows s e ∧ M.Accepts (M.next s e) (es ++ fs) ↔ _
      rw [ih, ← and_assoc]
      rfl

/-- From `s` on, the monitor accepts exactly where every event is good. -/
def Exact (good : ε → Prop) (s : S) (x : Trail ε α) : Prop :=
  M.Accepts s x.events ↔ ∀ e ∈ x.events, good e

variable {M} {good : ε → Prop} {s : S}

theorem Exact.silent (r : Option α) : M.Exact good s (.silent r : Trail ε α) :=
  iff_of_true trivial fun _ he => absurd he List.not_mem_nil

theorem Exact.pure (a : α) : M.Exact good s (Pure.pure a : Trail ε α) := Exact.silent _

/-- The rule for a sequence. -/
theorem Exact.bind {x : Trail ε α} {f : α → Trail ε β} (hx : M.Exact good s x)
    (hf : ∀ a, x.result = some a → M.Exact good (M.after s x.events) (f a)) :
    M.Exact good s (x >>= f) := by
  unfold Exact
  cases hres : x.result with
  | none =>
      rw [x.events_bind_of_none f hres]
      exact hx
  | some a =>
      rw [Trail.events_bind_of_some f hres, accepts_append, List.forall_mem_append]
      exact and_congr hx (hf a hres)

/-- The rule for an event. -/
theorem Exact.note_bind {e : ε} {f : Unit → Trail ε β} (hevent : M.allows s e ↔ good e)
    (hf : M.Exact good (M.next s e) (f ())) : M.Exact good s (.note e >>= f) := by
  unfold Exact
  rw [Trail.events_note_bind, List.forall_mem_cons]
  exact and_congr hevent hf

end Monitor

/-! ## Failures that stay -/

section Sticks

variable {ε α β : Type}

/-- Where something is wrong beforehand, or an event of the computation is a failure,
something is wrong with what it returns. -/
def Sticks (failure : ε → Prop) (before : Prop) (wrong : α → Prop) (x : Trail ε α) : Prop :=
  (before ∨ ∃ e ∈ x.events, failure e) → ∀ a, x.result = some a → wrong a

variable {failure : ε → Prop} {before : Prop} {wrong : α → Prop} {wrong' : β → Prop}

theorem Sticks.silent {r : Option α} (h : before → ∀ a, r = some a → wrong a) :
    Sticks failure before wrong (.silent r : Trail ε α) := by
  rintro (hbefore | ⟨e, he, -⟩)
  · exact h hbefore
  · exact absurd he List.not_mem_nil

theorem Sticks.pure {a : α} (h : before → wrong a) :
    Sticks failure before wrong (Pure.pure a : Trail ε α) :=
  Sticks.silent fun hbefore _ hb => Option.some.inj hb ▸ h hbefore

/-- The rule for a sequence. -/
theorem Sticks.bind {x : Trail ε α} {f : α → Trail ε β} (hx : Sticks failure before wrong x)
    (hf : ∀ a, x.result = some a → Sticks failure (wrong a) wrong' (f a)) :
    Sticks failure before wrong' (x >>= f) := by
  intro hfail b hb
  cases hres : x.result with
  | none => simp [hres] at hb
  | some a =>
      rw [Trail.result_bind, hres, Option.bind_some] at hb
      rw [Trail.events_bind_of_some f hres] at hfail
      refine hf a hres ?_ b hb
      rcases hfail with hbefore | ⟨e, he, hwrong⟩
      · exact .inl (hx (.inl hbefore) a hres)
      rcases List.mem_append.mp he with hfirst | hsecond
      · exact .inl (hx (.inr ⟨e, hfirst, hwrong⟩) a hres)
      · exact .inr ⟨e, hsecond, hwrong⟩

/-- The rule for an event. -/
theorem Sticks.note_bind {e : ε} {f : Unit → Trail ε β} (before' : Prop)
    (hevent : before ∨ failure e → before') (hf : Sticks failure before' wrong' (f ())) :
    Sticks failure before wrong' (.note e >>= f) := by
  intro hfail b hb
  refine hf ?_ b hb
  rcases hfail with hbefore | ⟨e', he, hwrong⟩
  · exact .inl (hevent (.inl hbefore))
  rcases List.mem_cons.mp he with rfl | hrest
  · exact .inl (hevent (.inr hwrong))
  · exact .inr ⟨e', hrest, hwrong⟩

end Sticks

end CWPack.Foundation
