/-
  ObjC/Incoming.lean --- the items that lie ahead of an unpacking context.

  Packing is known as a list of calls, and what the calls store as a list of items.
  `Coming` says that a context on a buffer has these items ahead, so that unpacking
  is followed without a look at the bytes: `Coming.next` takes the first item.
-/
import Mathlib.Data.List.TakeWhile
import CWPack.Core.Timestamps
import CWPack.Goodies.ExtNumbers
import CWPack.Goodies.PackingCalls
import CWPack.ObjC.UnpackContext

set_option autoImplicit false

namespace CWPack.ObjC

open CWPack.Foundation
open CWPack.Core
open CWPack.MessagePack
open CWPack.Goodies

variable {σ : Type}

/-! ## Items in a row -/

/-- The bytes are items with these values, one behind the other. -/
inductive Spells : List Value → List UInt8 → Prop where
  | nil : Spells [] []
  | cons {v : Value} {vs : List Value} {b bs : List UInt8} (h : Item b v) (hrest : Spells vs bs) :
      Spells (v :: vs) (b ++ bs)

/-- The handlers do not switch the mode. -/
structure KeepsMode (H : PackHandlers σ) : Prop where
  overflow : ∀ handler s more e t, H.handlePackOverflow = some handler →
    handler s more = some (e, t) → t.pc.beCompatible = s.pc.beCompatible
  flush : ∀ handler s e t, H.handleFlush = some handler →
    handler s = some (e, t) → t.pc.beCompatible = s.pc.beCompatible

theorem Writes.mode {H : PackHandlers σ} {s s' : PackState σ} {bs : List UInt8}
    (hkeeps : KeepsMode H) (h : Writes H s bs s') : s'.pc.beCompatible = s.pc.beCompatible := by
  cases h with
  | kept => rfl
  | appended => rfl
  | @refilled _ _ t bs hhandler hcall => exact hkeeps.overflow _ _ _ _ t hhandler hcall
  | stopped e => rfl
  | @failed _ _ e t hhandler hcall => exact hkeeps.overflow _ _ _ _ t hhandler hcall
  | @flushed _ e t hhandler hcall => exact hkeeps.flush _ _ _ t hhandler hcall

/-- All is well, the values lie ahead in the buffer of `x₀`, and `rest` behind them. -/
def Coming (x₀ : UnpackInput σ) (rest : List UInt8) (vs : List Value) (s : UnpackState σ) : Prop :=
  s.uc.returnCode = cwpRcOk ∧ ∃ bs, Spells vs bs ∧ StaticInput x₀ (bs ++ rest) s.input

section Next

variable {x₀ : UnpackInput σ} {rest : List UInt8} {v : Value} {vs : List Value}
  {s : UnpackState σ}

/-- `cw_unpack_next` takes the first item. -/
theorem Coming.next (h : Coming x₀ rest (v :: vs) s) (htime : ∀ payload, v ≠ .ext (-1) payload) :
    ∃ s', cwUnpackNext none s = some s' ∧ s'.Denotes v ∧ Coming x₀ rest vs s' := by
  obtain ⟨hrc, bs, hspells, hinput⟩ := h
  cases hspells with
  | @cons _ _ b bs hitem hrest =>
      rw [List.append_assoc] at hinput
      have hdecode := decode_of_item hitem (bs ++ rest)
      have hext : extType (b ++ (bs ++ rest)) ≠ some (-1) := by
        intro hext
        obtain ⟨payload, rfl⟩ := value_of_extType hext hdecode
        exact htime payload rfl
      have hread : readItem (b ++ (bs ++ rest)) = .ok (v, b.length) := by
        rw [readItem_eq_decode hext, hdecode, ofDecoded]
      obtain ⟨s', hcall, hdel⟩ :=
        (cwUnpackNext_spec (static_feeds x₀) hinput hrc).exists_of_not_stuck
      rw [hread] at hdel
      obtain ⟨hrc', hden, hinput'⟩ := hdel
      rw [List.drop_left] at hinput'
      exact ⟨s', hcall, hden, hrc', bs, hrest, hinput'⟩

/-- Where no value is left, what is ahead is `rest`. -/
theorem Coming.ahead (h : Coming x₀ rest [] s) : s.ahead = rest := by
  obtain ⟨-, bs, hspells, hinput⟩ := h
  cases hspells
  exact hinput.ahead_eq

theorem denotes_str {bs : List UInt8} (h : s.Denotes (.str bs)) :
    s.uc.item.type = .str ∧ blobBytes s = bs := bytes_of_denotes_str h

theorem denotes_bin {bs : List UInt8} (h : s.Denotes (.bin bs)) :
    s.uc.item.type = .bin ∧ blobBytes s = bs := bytes_of_denotes_bin h

end Next

/-! ## Leaves -/

theorem fromUTF8?_utf8 (characters : String) :
    String.fromUTF8? ⟨(utf8 characters).toArray⟩ = some characters :=
  dif_pos characters.isValidUTF8

section Leaves

variable {F : FloatUnit} {H : Option (UnpackUnderflowHandler σ)} {R : Runtime} {depth : Nat}
  {label : Int} {u : CWUnpackContext σ}

end Leaves

/-! ## Values -/

section Created

variable {R : Runtime} (u : CWUnpackContext σ) (s : UnpackState σ) (object : Object)

end Created

/-! ## Headers -/

section Headers

variable {F : FloatUnit} {R : Runtime} {x₀ : UnpackInput σ} {rest : List UInt8} {v : Value}
  {vs : List Value} {u : CWUnpackContext σ}

end Headers

end CWPack.ObjC
