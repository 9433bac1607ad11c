/-
  Core/Reader.lean --- an unpack context as a reader of a list of bytes.

  The abstract reader holds the bytes ahead, or the code it has stopped with, and
  answers each call at once.  An unpack context whose handler feeds some bytes
  cannot be told from the reader of these bytes: every run shows the same return
  codes, the same results and the same items.  Two contexts that are fed the same
  bytes can therefore not be told from each other.
-/
import CWPack.Core.Skipping

set_option autoImplicit false

namespace CWPack.Core

open CWPack.Foundation
open CWPack.MessagePack

variable {σ : Type}

/-! ## Calls on an unpack context -/

/-- What a user of an unpack context can call. -/
inductive UnpackOp where
  | next
  | lookAhead
  | skip (itemCount : Int64)
  deriving DecidableEq

/-- What a call lets the user see: the return code, the result of a look-ahead, and
the item, with a blob read at once, where the call has delivered one. -/
structure Observation where
  returnCode : Int
  look : Option ItemType
  item : Option (ItemType × Option Value)
  deriving DecidableEq

/-- The item and its value. -/
def UnpackState.delivered (s : UnpackState σ) : ItemType × Option Value :=
  (s.uc.item.type, s.uc.item.value s.mem)

/-- Perform a call; `fuel` bounds the turns of a skipping loop. -/
def UnpackOp.perform (fuel : Nat) (H : Option (UnpackUnderflowHandler σ)) :
    UnpackOp → UnpackState σ → Option (Observation × UnpackState σ)
  | .next, s =>
      match cwUnpackNext H s with
      | none => none
      | some s =>
          some (⟨s.uc.returnCode, none, if s.uc.returnCode = 0 then some s.delivered else none⟩, s)
  | .lookAhead, s =>
      match cwLookAhead H s with
      | none => none
      | some (t, s) => some (⟨s.uc.returnCode, some t, none⟩, s)
  | .skip itemCount, s =>
      match cwSkipItems fuel H itemCount s with
      | none => none
      | some s => some (⟨s.uc.returnCode, none, none⟩, s)

/-! ## The abstract reader -/

/-- The bytes ahead, or the code the reader has stopped with. -/
abbrev Reader : Type := Except Int (List UInt8)

/-- What a stopped reader answers. -/
def UnpackOp.refused (e : Int) : UnpackOp → Observation
  | .lookAhead => ⟨e, some .notAnItem, none⟩
  | _ => ⟨e, none, none⟩

/-- What the reader answers, and what it is afterwards. -/
def UnpackOp.answer (op : UnpackOp) : Reader → Observation × Reader
  | .error e => (op.refused e, .error e)
  | .ok b =>
      match op with
      | .next =>
          match readItem b with
          | .ok (v, n) => (⟨0, none, some (itemType v, some v)⟩, .ok (b.drop n))
          | .error e => (op.refused e, .error e)
      | .lookAhead =>
          match lookItem b with
          | .ok t => (⟨0, some t, none⟩, .ok b)
          | .error e => (op.refused e, .error e)
      | .skip itemCount =>
          match skipItems itemCount b with
          | .ok rest => (⟨0, none, none⟩, .ok rest)
          | .error e => (op.refused e, .error e)

/-! ## Codes are not OK -/

theorem ofDecoded_error {d : Decoded} {e : Int} (h : ofDecoded d = .error e) : e ≠ 0 := by
  cases d <;> simp only [ofDecoded, Except.error.injEq, reduceCtorEq] at h <;> subst h <;> decide

theorem readItem_error {b : List UInt8} {e : Int} (h : readItem b = .error e) : e ≠ 0 := by
  cases b with
  | nil =>
      simp only [readItem, Except.error.injEq] at h
      subst h
      decide
  | cons c v =>
      simp only [readItem] at h
      split at h
      · simp only [Except.error.injEq] at h
        subst h
        decide
      · simp only [readRest.eq_def] at h
        repeat' split at h
        all_goals
          first
          | exact ofDecoded_error h
          | (simp only [Except.error.injEq, reduceCtorEq] at h; subst h; decide)
          | simp at h

theorem skipItem_error {b : List UInt8} {e : Int} (h : skipItem b = .error e) : e ≠ 0 := by
  cases b with
  | nil =>
      simp only [skipItem, Except.error.injEq] at h
      subst h
      decide
  | cons c v =>
      simp only [skipItem] at h
      split at h
      · simp only [Except.error.injEq] at h
        subst h
        decide
      · simp only [skipRest.eq_def] at h
        repeat' split at h
        all_goals
          first
          | (simp only [Except.error.injEq, reduceCtorEq] at h; subst h; decide)
          | simp at h

theorem lookItem_error {b : List UInt8} {e : Int} (h : lookItem b = .error e) : e ≠ 0 := by
  cases lookItem_eq_error h <;> decide

/-- What the skipping loop leaves is a rest of what was ahead. -/
theorem skipItems_spec (itemCount : Int64) (b : List UInt8) :
    match skipItems itemCount b with
    | .ok rest => ∃ n, rest = b.drop n
    | .error e => e ≠ 0 := by
  induction itemCount, b using skipItems.induct with
  | case1 itemCount b hpos e he =>
      rw [skipItems_of_error hpos he]
      exact skipItem_error he
  | case2 itemCount b hpos n k he ih =>
      rw [skipItems_of_ok hpos he]
      cases hrest : skipItems (itemCount - 1 + Int64.ofNat k) (b.drop n) with
      | error e =>
          rw [hrest] at ih
          exact ih
      | ok rest =>
          rw [hrest] at ih
          obtain ⟨m, rfl⟩ := ih
          exact ⟨n + m, List.drop_drop⟩
  | case3 itemCount b hpos =>
      rw [skipItems_of_le hpos]
      exact ⟨0, rfl⟩

/-! ## Contexts refine readers -/

/-- The context is in step with the reader. -/
def Tracks (inv : List UInt8 → UnpackInput σ → Prop) (stopped : UnpackInput σ → Prop) (fuel : Nat)
    (s : UnpackState σ) (r : Reader) : Prop :=
  match r with
  | .ok b => s.uc.returnCode = 0 ∧ inv b s.input ∧ b.length < fuel
  | .error e => e ≠ 0 ∧ s.uc.returnCode = e ∧ stopped s.input

section Refinement

variable {H : Option (UnpackUnderflowHandler σ)} {stuck : Prop}
  {inv : List UInt8 → UnpackInput σ → Prop} {stopped : UnpackInput σ → Prop}

/-- A stopped context stays as it is. -/
theorem UnpackOp.perform_of_stopped (op : UnpackOp) (fuel : Nat) {s : UnpackState σ}
    (hrc : s.uc.returnCode ≠ 0) : op.perform fuel H s = some (op.refused s.uc.returnCode, s) := by
  cases op with
  | next => simp only [perform, cwUnpackNext, if_pos hrc, if_neg hrc, refused]
  | lookAhead => simp only [perform, cwLookAhead, if_pos hrc, refused]
  | skip n => simp only [perform, cwSkipItems, if_pos hrc, refused]

/-- One call, answered alike. -/
theorem UnpackOp.perform_spec (F : Feeds H stuck inv stopped) (fuel : Nat) (op : UnpackOp)
    (s : UnpackState σ) (r : Reader) (h : Tracks inv stopped fuel s r) :
    Ends stuck (fun a => a.1 = (op.answer r).1 ∧ Tracks inv stopped fuel a.2 (op.answer r).2)
      (op.perform fuel H s) := by
  cases r with
  | error e =>
      obtain ⟨he, rfl, hstop⟩ := h
      rw [op.perform_of_stopped fuel he]
      exact ⟨rfl, he, rfl, hstop⟩
  | ok b =>
      obtain ⟨hrc, hinv, hfuel⟩ := h
      cases op with
      | next =>
          have hspec := cwUnpackNext_spec F hinv hrc
          simp only [perform, answer]
          cases hcall : cwUnpackNext H s with
          | none =>
              rw [hcall] at hspec
              exact hspec
          | some s' =>
              rw [hcall] at hspec
              cases hread : readItem b with
              | error e =>
                  rw [hread] at hspec
                  have hstop : Stops stopped e s' := hspec
                  have he := readItem_error hread
                  simp only
                  rw [hstop.returnCode, if_neg he]
                  exact ⟨rfl, he, hstop.returnCode, hstop.input⟩
              | ok x =>
                  obtain ⟨v, n⟩ := x
                  rw [hread] at hspec
                  obtain ⟨hrc', hden, hinv'⟩ := hspec
                  simp only [UnpackState.delivered]
                  rw [hrc', if_pos rfl, hden.1, hden.2]
                  refine ⟨rfl, hrc', hinv', ?_⟩
                  rw [List.length_drop]
                  omega
      | lookAhead =>
          have hspec := cwLookAhead_spec F hinv hrc
          simp only [perform, answer]
          cases hcall : cwLookAhead H s with
          | none =>
              rw [hcall] at hspec
              exact hspec
          | some a =>
              obtain ⟨t, s'⟩ := a
              rw [hcall] at hspec
              cases hlook : lookItem b with
              | error e =>
                  rw [hlook] at hspec
                  obtain ⟨ht, hstop⟩ := hspec
                  simp only at ht hstop ⊢
                  refine ⟨?_, lookItem_error hlook, hstop.returnCode, hstop.input⟩
                  rw [ht, hstop.returnCode]
                  rfl
              | ok t' =>
                  rw [hlook] at hspec
                  obtain ⟨ht, hrc', hinv'⟩ := hspec
                  simp only at ht hrc' hinv' ⊢
                  exact ⟨by rw [ht, hrc'], hrc', hinv', hfuel⟩
      | skip itemCount =>
          have hspec := cwSkipItems_spec F itemCount hfuel hinv hrc
          have hrest := skipItems_spec itemCount b
          simp only [perform, answer]
          cases hcall : cwSkipItems fuel H itemCount s with
          | none =>
              rw [hcall] at hspec
              exact hspec
          | some s' =>
              rw [hcall] at hspec
              cases hskip : skipItems itemCount b with
              | error e =>
                  rw [hskip] at hspec hrest
                  have hstop : Stops stopped e s' := hspec
                  simp only
                  rw [hstop.returnCode]
                  exact ⟨rfl, hrest, hstop.returnCode, hstop.input⟩
              | ok rest =>
                  rw [hskip] at hspec hrest
                  obtain ⟨hrc', hinv'⟩ := hspec
                  obtain ⟨n, rfl⟩ := hrest
                  simp only
                  rw [hrc']
                  refine ⟨rfl, hrc', hinv', ?_⟩
                  rw [List.length_drop]
                  omega

/-- Whole runs are answered alike. -/
theorem trace_tracks (F : Feeds H stuck inv stopped) (fuel : Nat) (ops : List UnpackOp)
    (s : UnpackState σ) (r : Reader) (h : Tracks inv stopped fuel s r) :
    Ends stuck
      (fun a => a.1 = (follow UnpackOp.answer ops r).1 ∧
        Tracks inv stopped fuel a.2 (follow UnpackOp.answer ops r).2)
      (trace (UnpackOp.perform fuel H) ops s) :=
  trace_follows (fun op s r hrel => op.perform_spec F fuel s r hrel) ops s r h

end Refinement

end CWPack.Core
