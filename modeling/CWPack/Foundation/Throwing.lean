/-
  Foundation/Throwing.lean --- computations on a state that return or throw.

  A computation of type `Throwing ε τ α` works on a state of type `τ`.  It returns
  a value or throws an error, and leaves a state in either case; with `none` the
  program has trapped and there is nothing after it.

  `Follows rel broken f g` is the simulation rule for two such computations: from
  related states `f` comes to what `g` comes to, unless it throws and leaves a
  broken state.  Where `g` comes to nothing, nothing is said of `f`.  The rule goes
  through sequencing and through counting loops, so what is proved of the routines
  at the bottom holds of everything built from them.
-/
import CWPack.Foundation.Outcome

set_option autoImplicit false

namespace CWPack.Foundation

/-- A computation that returns or throws, or traps. -/
abbrev Throwing (ε τ : Type) : Type → Type := ExceptT ε (StateT τ Option)

variable {ε S T α β : Type}

/-! ## One step at a time -/

/-- What comes of a computation from a state. -/
def Throwing.perform (f : Throwing ε S α) (s : S) : Option (Except ε α × S) := f.run.run s

theorem perform_pure (a : α) (s : S) : (pure a : Throwing ε S α).perform s = some (.ok a, s) := rfl

theorem perform_bind (f : Throwing ε S α) (k : α → Throwing ε S β) (s : S) :
    (f >>= k).perform s = (f.perform s).bind fun r =>
      match r with
      | (.error e, s') => some (.error e, s')
      | (.ok a, s') => (k a).perform s' := by
  show (f.perform s).bind _ = _
  congr 1
  funext ⟨r, s'⟩
  cases r <;> rfl

theorem perform_bind_of_ok {f : Throwing ε S α} {s s' : S} {a : α}
    (h : f.perform s = some (.ok a, s')) (k : α → Throwing ε S β) :
    (f >>= k).perform s = (k a).perform s' := by
  rw [perform_bind, h]
  rfl

/-- `for _ in 1...n`, with what the body has made so far. -/
def repeated (body : β → Throwing ε S β) : Nat → β → Throwing ε S β
  | 0, b => pure b
  | n + 1, b => do
      let b ← body b
      repeated body n b

/-! ## Simulation -/

/-- The outcomes of a computation and of the one it follows. -/
inductive Matched (rel : S → T → Prop) (broken : S → Prop) :
    Option (Except ε α × S) → Option (Except ε α × T) → Prop where
  | undefined {r : Option (Except ε α × S)} : Matched rel broken r none
  | same {r : Except ε α} {s : S} {t : T} (h : rel s t) :
      Matched rel broken (some (r, s)) (some (r, t))
  | broke {e : ε} {s : S} {r : Option (Except ε α × T)} (h : broken s) :
      Matched rel broken (some (.error e, s)) r

/-- From related states `f` comes to what `g` comes to, or throws and leaves a broken state. -/
def Follows (rel : S → T → Prop) (broken : S → Prop) (f : Throwing ε S α)
    (g : Throwing ε T α) : Prop :=
  ∀ s t, rel s t → Matched rel broken (f.perform s) (g.perform t)

section Rules

variable {rel : S → T → Prop} {broken : S → Prop}

theorem Follows.pure (a : α) :
    Follows rel broken (Pure.pure a : Throwing ε S α) (Pure.pure a : Throwing ε T α) :=
  fun _ _ h => .same h

/-- The rule for one computation after the other. -/
theorem Follows.bind {f : Throwing ε S α} {g : Throwing ε T α} {k : α → Throwing ε S β}
    {l : α → Throwing ε T β} (h : Follows rel broken f g)
    (hk : ∀ a, Follows rel broken (k a) (l a)) : Follows rel broken (f >>= k) (g >>= l) := by
  intro s t hst
  rw [perform_bind, perform_bind]
  have hfirst := h s t hst
  generalize f.perform s = r at hfirst
  generalize g.perform t = r' at hfirst
  cases hfirst with
  | undefined => exact .undefined
  | @same r s' t' hrel =>
      cases r with
      | error e => exact .same hrel
      | ok a => exact hk a s' t' hrel
  | broke hbroken => exact .broke hbroken

/-- The rule for counting loops. -/
theorem Follows.repeated {body : β → Throwing ε S β} {body' : β → Throwing ε T β}
    (h : ∀ b, Follows rel broken (body b) (body' b)) :
    ∀ (n : Nat) (b : β),
      Follows rel broken (Foundation.repeated body n b) (Foundation.repeated body' n b) := by
  intro n
  induction n with
  | zero => exact Follows.pure
  | succ n ih => exact fun b => (h b).bind ih

end Rules

/-! ## Runs that catch -/

section Runs

variable {ι : Type} {A : ι → Type}

/-- Perform one of a family of computations and catch what it throws. -/
def caught (f : (i : ι) → Throwing ε S (A i)) (i : ι) (s : S) :
    Option ((Σ i, Except ε (A i)) × S) :=
  ((f i).perform s).map fun r => (⟨i, r.1⟩, r.2)

variable {f : (i : ι) → Throwing ε S (A i)} {g : (i : ι) → Throwing ε T (A i)}
  {rel : S → T → Prop} {broken : S → Prop}

theorem caught_of_perform {i : ι} {s s' : S} {r : Except ε (A i)}
    (h : (f i).perform s = some (r, s')) : caught f i s = some (⟨i, r⟩, s') := by
  rw [caught, h]
  rfl

/-- What goes first and what comes after it. -/
theorem trace_caught_cons {i : ι} {is : List ι} {s s' : S} {seen : List (Σ i, Except ε (A i))}
    (h : trace (caught f) (i :: is) s = some (seen, s')) :
    ∃ r mid rest, (f i).perform s = some (r, mid) ∧ trace (caught f) is mid = some (rest, s') ∧
      seen = ⟨i, r⟩ :: rest := by
  simp only [trace] at h
  cases hone : (f i).perform s with
  | none => simp [caught, hone] at h
  | some r =>
      obtain ⟨r, mid⟩ := r
      simp only [caught_of_perform hone] at h
      cases hrest : trace (caught f) is mid with
      | none => simp [hrest] at h
      | some x =>
          obtain ⟨rest, last⟩ := x
          simp only [hrest, Option.some.injEq, Prod.mk.injEq] at h
          obtain ⟨rfl, rfl⟩ := h
          exact ⟨r, mid, rest, rfl, hrest, rfl⟩

/-- Where nothing breaks, runs are observed alike. -/
theorem trace_caught_of_follows (h : ∀ i, Follows rel (fun _ => False) (f i) (g i)) :
    ∀ (is : List ι) (s : S) (t : T), rel s t →
      ∀ seen t', trace (caught g) is t = some (seen, t') →
        ∃ s', trace (caught f) is s = some (seen, s') ∧ rel s' t' := by
  intro is
  induction is with
  | nil =>
      intro s t hst seen t' hg
      obtain ⟨rfl, rfl⟩ : [] = seen ∧ t = t' := by simpa using hg
      exact ⟨s, rfl, hst⟩
  | cons i is ih =>
      intro s t hst seen t' hg
      obtain ⟨r, t₁, rest, hgi, hrest, rfl⟩ := trace_caught_cons hg
      have hone := h i s t hst
      rw [hgi] at hone
      generalize hfi : (f i).perform s = x at hone
      cases hone with
      | @same r s₁ _ hrel =>
          obtain ⟨s', hf, hrel'⟩ := ih s₁ t₁ hrel rest t' hrest
          exact ⟨s', by simp only [trace, caught_of_perform hfi, hf], hrel'⟩
      | broke hbroken => exact hbroken.elim

/-- An observation of something thrown. -/
def Threw (o : Σ i, Except ε (A i)) : Prop := ∃ e, o.2 = .error e

/-- From a broken state on everything throws. -/
theorem trace_caught_of_broken
    (hbroken : ∀ i s, broken s → ∃ e s', (f i).perform s = some (.error e, s') ∧ broken s') :
    ∀ (is : List ι) (s : S), broken s →
      ∃ seen s', trace (caught f) is s = some (seen, s') ∧ (∀ o ∈ seen, Threw o) ∧
        seen.length = is.length := by
  intro is
  induction is with
  | nil => exact fun s _ => ⟨[], s, rfl, fun _ ho => absurd ho List.not_mem_nil, rfl⟩
  | cons i is ih =>
      intro s hs
      obtain ⟨e, s', hone, hs'⟩ := hbroken i s hs
      obtain ⟨seen, s'', hrest, hthrew, hlen⟩ := ih s' hs'
      refine ⟨⟨i, .error e⟩ :: seen, s'', ?_, ?_, congrArg (· + 1) hlen⟩
      · simp only [trace, caught_of_perform hone, hrest]
      · intro o ho
        rcases List.mem_cons.mp ho with rfl | ho
        · exact ⟨e, rfl⟩
        · exact hthrew o ho

/-- A run that may break is observed as the one it follows up to some point, and throws from
there on. -/
theorem trace_caught_of_follows_or_broken (h : ∀ i, Follows rel broken (f i) (g i))
    (hbroken : ∀ i s, broken s → ∃ e s', (f i).perform s = some (.error e, s') ∧ broken s') :
    ∀ (is : List ι) (s : S) (t : T), rel s t →
      ∀ seen t', trace (caught g) is t = some (seen, t') →
        ∃ k seen' s', trace (caught f) is s = some (seen.take k ++ seen', s') ∧
          (∀ o ∈ seen', Threw o) ∧ (seen.take k ++ seen').length = is.length := by
  intro is
  induction is with
  | nil =>
      intro s t _ seen t' hg
      exact ⟨0, [], s, rfl, fun _ ho => absurd ho List.not_mem_nil, rfl⟩
  | cons i is ih =>
      intro s t hst seen t' hg
      obtain ⟨r, t₁, rest, hgi, hrest, rfl⟩ := trace_caught_cons hg
      have hone := h i s t hst
      rw [hgi] at hone
      generalize hfi : (f i).perform s = x at hone
      cases hone with
      | @same r s₁ _ hrel =>
          obtain ⟨k, seen', s', hf, hthrew, hlen⟩ := ih s₁ t₁ hrel rest t' hrest
          refine ⟨k + 1, seen', s', ?_, hthrew, congrArg (· + 1) hlen⟩
          simp only [trace, caught_of_perform hfi, hf]
          rfl
      | @broke e s₁ _ hs =>
          obtain ⟨seen', s', hf, hthrew, hlen⟩ := trace_caught_of_broken hbroken is s₁ hs
          refine ⟨0, ⟨i, .error e⟩ :: seen', s', ?_, ?_, congrArg (· + 1) hlen⟩
          · simp only [trace, caught_of_perform hfi, hf]
            rfl
          · intro o ho
            rcases List.mem_cons.mp ho with rfl | ho
            · exact ⟨e, rfl⟩
            · exact hthrew o ho

end Runs

end CWPack.Foundation
