/-
  MessagePack/Complete.lean --- items together with their content.

  A container is a header followed by as many complete items as the header
  declares.  `Complete P n bs` says that the bytes are `n` complete items, and that
  `P` holds of the value of every header among them.

  The grammar has no choice: bytes begin with `n` complete items in one way at
  most, and the number of complete items that bytes are is determined.
-/
import CWPack.MessagePack.Format

set_option autoImplicit false

namespace CWPack.MessagePack

/-- `n` complete items, each header followed by exactly the items it declares. -/
inductive Complete (P : Value → Prop) : Nat → List UInt8 → Prop where
  | done : Complete P 0 []
  | item {n : Nat} {bs content rest : List UInt8} {v : Value} (h : Item bs v) (hv : P v)
      (hcontent : Complete P v.children content) (hrest : Complete P n rest) :
      Complete P (n + 1) (bs ++ (content ++ rest))

namespace Complete

variable {P Q : Value → Prop} {n m : Nat} {as bs : List UInt8}

theorem mono (himp : ∀ v, P v → Q v) (h : Complete P n bs) : Complete Q n bs := by
  induction h with
  | done => exact .done
  | item h hv _ _ ihc ihr => exact .item h (himp _ hv) ihc ihr

/-- An item that declares no content is complete. -/
theorem single {v : Value} (h : Item bs v) (hv : P v) (hleaf : v.children = 0) :
    Complete P 1 bs := by
  have hone : Complete P 1 (bs ++ ([] ++ [])) := .item h hv (hleaf ▸ .done) .done
  rwa [List.append_nil, List.append_nil] at hone

/-- A header and what it declares. -/
theorem container {content : List UInt8} {v : Value} (h : Item bs v) (hv : P v)
    (hcontent : Complete P v.children content) : Complete P 1 (bs ++ content) := by
  have hone : Complete P 1 (bs ++ (content ++ [])) := .item h hv hcontent .done
  rwa [List.append_nil] at hone

theorem append (ha : Complete P n as) (hb : Complete P m bs) : Complete P (n + m) (as ++ bs) := by
  induction ha with
  | done => rwa [Nat.zero_add]
  | @item n bs' content rest v h hv hcontent _ _ ihr =>
      rw [List.append_assoc, List.append_assoc, Nat.add_right_comm]
      exact .item h hv hcontent ihr

/-- Of `n + m` complete items, the first `n` can be split off. -/
theorem split : ∀ {n : Nat} {bs : List UInt8}, Complete P (n + m) bs →
    ∃ first rest, bs = first ++ rest ∧ Complete P n first ∧ Complete P m rest := by
  intro n
  induction n with
  | zero =>
      intro bs h
      rw [Nat.zero_add] at h
      exact ⟨[], bs, rfl, .done, h⟩
  | succ n ih =>
      intro bs h
      rw [Nat.add_right_comm] at h
      cases h with
      | item h hv hcontent hrest =>
          obtain ⟨first, rest, rfl, hfirst, hrest'⟩ := ih hrest
          exact ⟨_, rest, by simp only [List.append_assoc], .item h hv hcontent hfirst, hrest'⟩

/-- Every item takes a byte. -/
theorem le_length (h : Complete P n bs) : n ≤ bs.length := by
  induction h with
  | done => exact Nat.le_refl 0
  | item h _ _ _ _ ihr =>
      have hpos := List.length_pos_iff.mpr h.ne_nil
      rw [List.length_append, List.length_append]
      omega

/-- The bytes in front are complete items in one way at most. -/
theorem prefix_unique (ha : Complete P n as) : ∀ {bs rest rest' : List UInt8},
    Complete Q n bs → as ++ rest = bs ++ rest' → as = bs := by
  induction ha with
  | done =>
      intro bs rest rest' hb _
      cases hb
      rfl
  | @item n bs₁ content₁ rest₁ v₁ h₁ _ _ _ ihc ihr =>
      intro bs rest rest' hb heq
      cases hb with
      | @item _ bs₂ content₂ rest₂ v₂ h₂ _ hcontent hrest =>
          simp only [List.append_assoc] at heq
          obtain ⟨rfl, rfl⟩ := Item.prefix_unique h₁ h₂ heq
          have htail := List.append_cancel_left heq
          obtain rfl := ihc hcontent htail
          rw [List.append_cancel_left_eq] at htail
          obtain rfl := ihr hrest htail
          rfl

/-- Bytes are one number of complete items at most. -/
theorem count_unique (ha : Complete P n bs) (hb : Complete P m bs) : n = m := by
  -- the rest of the longer count would have no byte left
  have hle : ∀ {n k : Nat}, Complete P n bs → Complete P (n + k) bs → k = 0 := by
    intro n k hn hnk
    obtain ⟨first, rest, heq, hfirst, hrest⟩ := hnk.split
    have hends : bs ++ [] = first ++ rest := by rw [List.append_nil, heq]
    have hsame : bs = first := hn.prefix_unique hfirst hends
    rw [← hsame] at heq
    have hnil : rest = [] := List.self_eq_append_right.mp heq
    have hlen := hrest.le_length
    rw [hnil] at hlen
    exact Nat.le_zero.mp hlen
  rcases Nat.le_total n m with h | h
  · obtain ⟨k, rfl⟩ := Nat.exists_eq_add_of_le h
    rw [hle ha hb, Nat.add_zero]
  · obtain ⟨k, rfl⟩ := Nat.exists_eq_add_of_le h
    rw [hle hb ha, Nat.add_zero]

end Complete

end CWPack.MessagePack
