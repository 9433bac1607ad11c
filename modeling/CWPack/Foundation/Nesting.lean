/-
  Foundation/Nesting.lean --- going through items that contain items.

  The items lie one behind the other in an input, each with its content behind its
  header.  `header` says what the header at the front of an input comes to: how many
  items follow as its content, or that going through the content does not end, or
  that one stops there.  `Through n` is the passage over `n` complete items, and
  `Endless n` says that one of them, all before it complete, does not end.

  Whether items are gone through can be settled for a first part and a rest of them
  (`through_add_iff`, `endless_add_iff`), which is what a loop over them needs.
-/
import CWPack.Foundation.Outcome

set_option autoImplicit false

namespace CWPack.Foundation

variable {β : Type}

/-- What the header at the front of an input comes to. -/
inductive Header (β : Type) where
  | stops
  | endless
  /-- `n` items follow as the content, from `rest` on -/
  | content (n : Nat) (rest : β)
  deriving DecidableEq, Repr

section Nesting

variable (header : β → Header β)

/-- From `b` over `n` complete items to `b'`. -/
inductive Through : Nat → β → β → Prop where
  | done (b : β) : Through 0 b b
  | item {n m : Nat} {b b₁ b₂ b₃ : β} (h : header b = .content m b₁) (hcontent : Through m b₁ b₂)
      (hrest : Through n b₂ b₃) : Through (n + 1) b b₃

/-- Of `n` items from `b` on, one does not end. -/
inductive Endless : Nat → β → Prop where
  | here {n : Nat} {b : β} (h : header b = .endless) : Endless (n + 1) b
  | inside {n m : Nat} {b b₁ : β} (h : header b = .content m b₁) (hcontent : Endless m b₁) :
      Endless (n + 1) b
  | later {n m : Nat} {b b₁ b₂ : β} (h : header b = .content m b₁) (hcontent : Through header m b₁ b₂)
      (hrest : Endless n b₂) : Endless (n + 1) b

/-- On the way over `n` items from `b` on, one stops. -/
def StopsWithin (n : Nat) (b : β) : Prop :=
  (∀ b', ¬ Through header n b b') ∧ ¬ Endless header n b

end Nesting

section Rules

variable {header : β → Header β} {m n : Nat} {b b₁ b₂ : β}

theorem through_zero_iff : Through header 0 b b₁ ↔ b = b₁ := by
  constructor
  · intro h
    cases h with
    | done => rfl
  · rintro rfl
    exact .done b

theorem not_endless_zero : ¬ Endless header 0 b := fun h => by cases h

/-- There is one way through. -/
theorem Through.unique (h : Through header n b b₁) : ∀ {b₂}, Through header n b b₂ → b₁ = b₂ := by
  induction h with
  | done b =>
      intro b₂ h
      exact through_zero_iff.mp h
  | item hb _ _ ihc ihr =>
      intro b₂ h
      cases h with
      | item hb' hc' hr' =>
          obtain ⟨rfl, rfl⟩ := Header.content.inj (hb.symm.trans hb')
          obtain rfl := ihc hc'
          exact ihr hr'

/-- What is gone through does end. -/
theorem Through.not_endless (h : Through header n b b₁) : ¬ Endless header n b := by
  induction h with
  | done b => exact not_endless_zero
  | item hb hcontent _ ihc ihr =>
      intro h
      cases h with
      | here hb' => nomatch hb.symm.trans hb'
      | inside hb' hinside =>
          obtain ⟨rfl, rfl⟩ := Header.content.inj (hb.symm.trans hb')
          exact ihc hinside
      | later hb' hc' hlater =>
          obtain ⟨rfl, rfl⟩ := Header.content.inj (hb.symm.trans hb')
          obtain rfl := hcontent.unique hc'
          exact ihr hlater

/-- `m` items and `n` items more. -/
theorem through_add_iff :
    Through header (m + n) b b₂ ↔ ∃ b₁, Through header m b b₁ ∧ Through header n b₁ b₂ := by
  constructor
  · induction m generalizing b with
    | zero =>
        intro h
        rw [Nat.zero_add] at h
        exact ⟨b, .done b, h⟩
    | succ m ih =>
        intro h
        rw [Nat.add_right_comm] at h
        cases h with
        | item hb hcontent hrest =>
            obtain ⟨b₁, hfirst, hlast⟩ := ih hrest
            exact ⟨b₁, .item hb hcontent hfirst, hlast⟩
  · rintro ⟨b₁, hfirst, hlast⟩
    induction hfirst with
    | done b =>
        rw [Nat.zero_add]
        exact hlast
    | item hb hcontent _ _ ih =>
        rw [Nat.add_right_comm]
        exact .item hb hcontent (ih hlast)

theorem endless_add_iff :
    Endless header (m + n) b ↔
      Endless header m b ∨ ∃ b₁, Through header m b b₁ ∧ Endless header n b₁ := by
  constructor
  · induction m generalizing b with
    | zero =>
        intro h
        rw [Nat.zero_add] at h
        exact Or.inr ⟨b, .done b, h⟩
    | succ m ih =>
        intro h
        rw [Nat.add_right_comm] at h
        cases h with
        | here hb => exact Or.inl (.here hb)
        | inside hb hinside => exact Or.inl (.inside hb hinside)
        | later hb hcontent hlater =>
            rcases ih hlater with hfirst | ⟨b₁, hfirst, hlast⟩
            · exact Or.inl (.later hb hcontent hfirst)
            · exact Or.inr ⟨b₁, .item hb hcontent hfirst, hlast⟩
  · rintro (h | ⟨b₁, hfirst, hlast⟩)
    · induction h with
      | here hb =>
          rw [Nat.add_right_comm]
          exact .here hb
      | inside hb hinside _ =>
          rw [Nat.add_right_comm]
          exact .inside hb hinside
      | later hb hcontent _ ih =>
          rw [Nat.add_right_comm]
          exact .later hb hcontent ih
    · induction hfirst with
      | done b =>
          rw [Nat.zero_add]
          exact hlast
      | item hb hcontent _ _ ih =>
          rw [Nat.add_right_comm]
          exact .later hb hcontent (ih hlast)

/-- Behind a stop nothing follows. -/
theorem StopsWithin.add (h : StopsWithin header m b) (n : Nat) : StopsWithin header (m + n) b := by
  obtain ⟨hthrough, hends⟩ := h
  constructor
  · intro b' h
    obtain ⟨b₁, hfirst, -⟩ := through_add_iff.mp h
    exact hthrough b₁ hfirst
  · intro h
    rcases endless_add_iff.mp h with hfirst | ⟨b₁, hfirst, -⟩
    · exact hends hfirst
    · exact hthrough b₁ hfirst

/-- A stop behind the first items. -/
theorem Through.stopsWithin_add (h : Through header m b b₁) (hstop : StopsWithin header n b₁) :
    StopsWithin header (m + n) b := by
  obtain ⟨hthrough, hends⟩ := hstop
  constructor
  · intro b' h'
    obtain ⟨b₂, hfirst, hlast⟩ := through_add_iff.mp h'
    obtain rfl := h.unique hfirst
    exact hthrough b' hlast
  · intro h'
    rcases endless_add_iff.mp h' with hfirst | ⟨b₂, hfirst, hlast⟩
    · exact h.not_endless hfirst
    · obtain rfl := h.unique hfirst
      exact hends hlast

/-- Where a header stops, there is no way over its item. -/
theorem stopsWithin_of_stops (h : header b = .stops) : StopsWithin header 1 b := by
  constructor
  · intro b' h'
    cases h' with
    | item hb _ _ => nomatch h.symm.trans hb
  · intro h'
    cases h' with
    | here hb => nomatch h.symm.trans hb
    | inside hb _ => nomatch h.symm.trans hb
    | later hb _ _ => nomatch h.symm.trans hb

/-- An item is its content. -/
theorem through_one (h : header b = .content m b₁) :
    Through header 1 b b₂ ↔ Through header m b₁ b₂ := by
  constructor
  · intro h'
    cases h' with
    | item hb hcontent hrest =>
        obtain ⟨rfl, rfl⟩ := Header.content.inj (h.symm.trans hb)
        obtain rfl := through_zero_iff.mp hrest
        exact hcontent
  · intro h'
    exact .item h h' (.done b₂)

theorem endless_one (h : header b = .content m b₁) :
    Endless header 1 b ↔ Endless header m b₁ := by
  constructor
  · intro h'
    cases h' with
    | here hb => nomatch h.symm.trans hb
    | inside hb hcontent =>
        obtain ⟨rfl, rfl⟩ := Header.content.inj (h.symm.trans hb)
        exact hcontent
    | later _ _ hrest => exact absurd hrest not_endless_zero
  · intro h'
    exact .inside h h'

/-- An item stops where its content does. -/
theorem stopsWithin_one (h : header b = .content m b₁) :
    StopsWithin header 1 b ↔ StopsWithin header m b₁ := by
  unfold StopsWithin
  rw [endless_one h]
  simp only [through_one h]

/-- Where every header takes something of the input, so does every item. -/
theorem Through.size_le (size : β → Nat)
    (hsize : ∀ {b m b₁}, header b = .content m b₁ → size b₁ < size b) (h : Through header n b b₁) :
    size b₁ + n ≤ size b := by
  induction h with
  | done b => exact Nat.le_refl _
  | item hb _ _ ihc ihr =>
      have hlt := hsize hb
      omega

/-- The way over the items of one kind of headers is one over those of another. -/
theorem Through.translate {header' : β → Header β}
    (hheader : ∀ {b m b₁ b₂}, header b = .content m b₁ → Through header' m b₁ b₂ →
      Through header' 1 b b₂)
    (h : Through header n b b₁) : Through header' n b b₁ := by
  induction h with
  | done b => exact .done b
  | item hb _ _ ihc ihr =>
      rw [Nat.add_comm]
      exact through_add_iff.mpr ⟨_, hheader hb ihc, ihr⟩

end Rules

end CWPack.Foundation
