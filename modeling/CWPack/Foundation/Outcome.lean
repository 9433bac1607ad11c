/-
  Foundation/Outcome.lean --- computations that may not return, and runs of them.

  A computation of type `Option α` either returns a value or, with `none`, never
  does.  `Ends stuck post r` is the rule for such a result: a returned value
  satisfies `post`, and not returning at all is allowed only under `stuck`.

  A system is a step function from states to optional states.  `run` folds it
  over a list of operations; `trace` also collects what each step lets an
  observer see.
-/

set_option autoImplicit false

namespace CWPack.Foundation

variable {α : Type}

/-! ## Postconditions -/

/-- A returned value satisfies `post`; not returning is excused by `stuck`. -/
def Ends (stuck : Prop) (post : α → Prop) : Option α → Prop
  | none => stuck
  | some a => post a

@[simp] theorem ends_some {stuck : Prop} {post : α → Prop} {a : α} :
    Ends stuck post (some a) ↔ post a := Iff.rfl

@[simp] theorem ends_none {stuck : Prop} {post : α → Prop} :
    Ends stuck post none ↔ stuck := Iff.rfl

theorem Ends.mono {stuck : Prop} {post post' : α → Prop} {r : Option α}
    (h : Ends stuck post r) (himp : ∀ a, post a → post' a) : Ends stuck post' r := by
  cases r with
  | none => exact h
  | some a => exact himp a h

theorem Ends.excuse {stuck stuck' : Prop} {post : α → Prop} {r : Option α}
    (h : Ends stuck post r) (himp : stuck → stuck') : Ends stuck' post r := by
  cases r with
  | none => exact himp h
  | some a => exact h

/-- One computation after the other. -/
theorem Ends.bind {β : Type} {stuck : Prop} {post : α → Prop} {post' : β → Prop} {r : Option α}
    {f : α → Option β} (h : Ends stuck post r) (hf : ∀ a, post a → Ends stuck post' (f a)) :
    Ends stuck post' (r.bind f) := by
  cases r with
  | none => exact h
  | some a => exact hf a h

/-- Where nothing excuses divergence, the value is there. -/
theorem Ends.exists_of_not_stuck {post : α → Prop} {r : Option α} (h : Ends False post r) :
    ∃ a, r = some a ∧ post a := by
  cases r with
  | none => exact h.elim
  | some a => exact ⟨a, rfl, h⟩

theorem Ends.of_eq_some {stuck : Prop} {post : α → Prop} {r : Option α} {a : α}
    (h : Ends stuck post r) (heq : r = some a) : post a := by
  subst heq
  exact h

/-! ## Runs -/

section Runs

variable {Op S T Obs : Type}

/-- Perform the operations in order; stop where one does not return. -/
def run (step : Op → S → Option S) : List Op → S → Option S
  | [], s => some s
  | op :: ops, s =>
      match step op s with
      | none => none
      | some s' => run step ops s'

@[simp] theorem run_nil (step : Op → S → Option S) (s : S) : run step [] s = some s := rfl

theorem run_cons_of_some {step : Op → S → Option S} {op : Op} {s s' : S} (ops : List Op)
    (h : step op s = some s') : run step (op :: ops) s = run step ops s' := by
  simp [run, h]

theorem run_cons_eq_some {step : Op → S → Option S} {op : Op} {ops : List Op} {s s' : S}
    (h : run step (op :: ops) s = some s') :
    ∃ t, step op s = some t ∧ run step ops t = some s' := by
  unfold run at h
  cases hop : step op s with
  | none => simp [hop] at h
  | some t => exact ⟨t, rfl, by simpa only [hop] using h⟩

theorem run_append (step : Op → S → Option S) (first second : List Op) (s : S) :
    run step (first ++ second) s = (run step first s).bind (run step second) := by
  induction first generalizing s with
  | nil => rfl
  | cons op ops ih =>
      simp only [List.cons_append, run]
      cases step op s with
      | none => rfl
      | some s' => exact ih s'

theorem run_map {A : Type} (step : Op → S → Option S) (f : A → Op) (as : List A) (s : S) :
    run step (as.map f) s = run (fun a => step (f a)) as s := by
  induction as generalizing s with
  | nil => rfl
  | cons a as ih =>
      simp only [List.map_cons, run]
      cases step (f a) s with
      | none => rfl
      | some s' => exact ih s'

/-- The invariant rule: what every step preserves holds at the end of every run. -/
theorem run_invariant {step : Op → S → Option S} {inv : S → Prop} {allowed : Op → Prop}
    (hstep : ∀ op s s', allowed op → inv s → step op s = some s' → inv s') :
    ∀ (ops : List Op) (s s' : S), (∀ op ∈ ops, allowed op) → inv s →
      run step ops s = some s' → inv s' := by
  intro ops
  induction ops with
  | nil =>
      intro s s' _ hinv h
      obtain rfl : s = s' := by simpa using h
      exact hinv
  | cons op ops ih =>
      intro s s' hall hinv h
      cases hop : step op s with
      | none => simp [run, hop] at h
      | some mid =>
          rw [run_cons_of_some ops hop] at h
          have hmid := hstep op s mid (hall op List.mem_cons_self) hinv hop
          exact ih mid s' (fun o ho => hall o (List.mem_cons_of_mem op ho)) hmid h

/-- The fixed point rule: a state is that of every part of a run from it exactly when no
operation of the run changes it. -/
theorem run_take_eq_self_iff {step : Op → S → Option S} {s : S} (ops : List Op) :
    (∀ n, run step (ops.take n) s = some s) ↔ ∀ op ∈ ops, step op s = some s := by
  induction ops with
  | nil => simp
  | cons op ops ih =>
      constructor
      · intro h
        have hop : step op s = some s := by
          have hone := h 1
          rw [List.take_succ_cons, List.take_zero] at hone
          cases hstep : step op s with
          | none => simp [run, hstep] at hone
          | some mid => rwa [run_cons_of_some [] hstep, run_nil] at hone
        have hrest : ∀ o ∈ ops, step o s = some s := ih.mp fun n => by
          have hnext := h (n + 1)
          rwa [List.take_succ_cons, run_cons_of_some _ hop] at hnext
        intro o ho
        rcases List.mem_cons.mp ho with rfl | ho
        · exact hop
        · exact hrest o ho
      · intro h n
        have hop := h op List.mem_cons_self
        cases n with
        | zero => rfl
        | succ n =>
            rw [List.take_succ_cons, run_cons_of_some _ hop]
            exact ih.mpr (fun o ho => h o (List.mem_cons_of_mem op ho)) n

/-- Perform the operations in order and collect the observations. -/
def trace (step : Op → S → Option (Obs × S)) : List Op → S → Option (List Obs × S)
  | [], s => some ([], s)
  | op :: ops, s =>
      match step op s with
      | none => none
      | some (o, s') =>
          match trace step ops s' with
          | none => none
          | some (os, s'') => some (o :: os, s'')

@[simp] theorem trace_nil (step : Op → S → Option (Obs × S)) (s : S) :
    trace step [] s = some ([], s) := rfl

/-- A state no operation changes is that of every run from it. -/
theorem trace_of_fixed {step : Op → S → Option (Obs × S)} {answer : Op → Obs} {s : S}
    (h : ∀ op, step op s = some (answer op, s)) (ops : List Op) :
    trace step ops s = some (ops.map answer, s) := by
  induction ops with
  | nil => rfl
  | cons op ops ih => simp only [trace, h op, ih, List.map_cons]

theorem trace_append (step : Op → S → Option (Obs × S)) (first rest : List Op) (s : S) :
    trace step (first ++ rest) s =
      (trace step first s).bind fun r =>
        (trace step rest r.2).map fun r' => (r.1 ++ r'.1, r'.2) := by
  induction first generalizing s with
  | nil =>
      rw [List.nil_append, trace_nil, Option.bind_some]
      cases trace step rest s <;> rfl
  | cons op first ih =>
      simp only [List.cons_append, trace]
      cases step op s with
      | none => rfl
      | some r =>
          simp only [ih]
          cases htail : trace step first r.2 with
          | none => rfl
          | some r' =>
              simp only [Option.bind_some]
              cases trace step rest r'.2 <;> rfl

/-- Where a run returns, so does its first part. -/
theorem trace_isSome_of_append {step : Op → S → Option (Obs × S)} (first rest : List Op) (s : S)
    (h : (trace step (first ++ rest) s).isSome) : (trace step first s).isSome := by
  rw [trace_append] at h
  cases hfirst : trace step first s with
  | none =>
      rw [hfirst] at h
      exact h
  | some _ => rfl

/-- The trace of a system whose steps always return. -/
def follow (step : Op → T → Obs × T) : List Op → T → List Obs × T
  | [], t => ([], t)
  | op :: ops, t =>
      let rest := follow step ops (step op t).2
      ((step op t).1 :: rest.1, rest.2)

/-- The simulation rule.  Where related states answer every operation with the
same observation and stay related, whole runs are observed alike. -/
theorem trace_follows {stuck : Prop} {stepS : Op → S → Option (Obs × S)}
    {stepT : Op → T → Obs × T} {rel : S → T → Prop}
    (hstep : ∀ op s t, rel s t →
      Ends stuck (fun r => r.1 = (stepT op t).1 ∧ rel r.2 (stepT op t).2) (stepS op s)) :
    ∀ (ops : List Op) (s : S) (t : T), rel s t →
      Ends stuck (fun r => r.1 = (follow stepT ops t).1 ∧ rel r.2 (follow stepT ops t).2)
        (trace stepS ops s) := by
  intro ops
  induction ops with
  | nil =>
      intro s t hrel
      exact ⟨rfl, hrel⟩
  | cons op ops ih =>
      intro s t hrel
      have hop := hstep op s t hrel
      simp only [trace, follow]
      cases hcall : stepS op s with
      | none =>
          rw [hcall] at hop
          exact hop
      | some r =>
          obtain ⟨o, mid⟩ := r
          rw [hcall] at hop
          obtain ⟨ho, hmid⟩ := hop
          have hrest := ih mid _ hmid
          simp only at ho hrest ⊢
          cases htail : trace stepS ops mid with
          | none =>
              rw [htail] at hrest
              exact hrest
          | some r' =>
              obtain ⟨os, last⟩ := r'
              rw [htail] at hrest
              obtain ⟨hos, hlast⟩ := hrest
              refine ⟨?_, hlast⟩
              show o :: os = _
              rw [ho]
              exact congrArg _ hos

end Runs

/-! ## Approximation -/

/-- `r` approximates `r'`: wherever `r` returns, `r'` returns the same. -/
def Approximates (r r' : Option α) : Prop := ∀ a, r = some a → r' = some a

theorem Approximates.refl (r : Option α) : Approximates r r := fun _ h => h

theorem approximates_none (r : Option α) : Approximates none r := fun _ h => by simp at h

theorem Approximates.run {Op S : Type} {step step' : Op → S → Option S}
    (hstep : ∀ op s, Approximates (step op s) (step' op s)) :
    ∀ (ops : List Op) (s : S), Approximates (run step ops s) (run step' ops s) := by
  intro ops
  induction ops with
  | nil =>
      intro s
      exact Approximates.refl _
  | cons op ops ih =>
      intro s
      simp only [Foundation.run]
      cases hop : step op s with
      | none => exact approximates_none _
      | some mid =>
          rw [hstep op s _ hop]
          exact ih mid

theorem Approximates.trace {Op S Obs : Type} {step step' : Op → S → Option (Obs × S)}
    (hstep : ∀ op s, Approximates (step op s) (step' op s)) :
    ∀ (ops : List Op) (s : S), Approximates (trace step ops s) (trace step' ops s) := by
  intro ops
  induction ops with
  | nil =>
      intro s
      exact Approximates.refl _
  | cons op ops ih =>
      intro s
      simp only [Foundation.trace]
      cases hop : step op s with
      | none => exact approximates_none _
      | some r =>
          obtain ⟨o, mid⟩ := r
          rw [hstep op s _ hop]
          simp only
          cases htail : Foundation.trace step ops mid with
          | none => exact approximates_none _
          | some r' =>
              rw [ih mid _ htail]
              exact Approximates.refl _

/-- `r'` agrees with `r` on `good`: where `r` returns a good value, `r'` returns the same. -/
def AgreesOn (good : α → Prop) (r r' : Option α) : Prop := ∀ a, r = some a → good a → r' = some a

theorem AgreesOn.refl (good : α → Prop) (r : Option α) : AgreesOn good r r := fun _ h _ => h

theorem agreesOn_none (good : α → Prop) (r : Option α) : AgreesOn good none r :=
  fun _ h _ => by simp at h

end CWPack.Foundation
