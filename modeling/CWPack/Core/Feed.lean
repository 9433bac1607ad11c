/-
  Core/Feed.lean --- where the bytes ahead come from.

  An unpacking routine reads a window of memory and asks the underflow handler
  when the window is too short.  `Feeds` states what a handler must do for the
  routine to see one list of bytes ahead: the window is a prefix of the list, and
  a refill either makes the window as long as requested, or reports the end of
  the input when the list is shorter than that.

  `Feeds.assertSpace` is the rule for the macro that asserts space.  Every claim
  about an unpacking routine is proved with it, for all handlers at once.
-/
import CWPack.Core.Items
import CWPack.Foundation.Outcome

set_option autoImplicit false

namespace CWPack.Core

open CWPack.Foundation
open CWPack.MessagePack

variable {σ ρ : Type}

/-! ## The input side of a state -/

/-- All of the state but the item, the return code and the error number. -/
structure UnpackInput (σ : Type) where
  mem : Memory
  env : σ
  start : Nat
  current : Nat
  end_ : Nat

/-- Move the cursor. -/
def UnpackInput.seek (x : UnpackInput σ) (p : Nat) : UnpackInput σ := { x with current := p }

/-- The input side of a state. -/
def UnpackState.input (s : UnpackState σ) : UnpackInput σ :=
  ⟨s.mem, s.env, s.uc.start, s.uc.current, s.uc.end_⟩

namespace UnpackState

variable (s : UnpackState σ)

@[simp] theorem input_setType (t : ItemType) : (s.setType t).input = s.input := rfl

@[simp] theorem input_setAs (as : ItemAs) : (s.setAs as).input = s.input := rfl

@[simp] theorem input_setReturnCode (rc : Int) : (s.setReturnCode rc).input = s.input := rfl

@[simp] theorem input_setCurrent (p : Nat) : (s.setCurrent p).input = s.input.seek p := rfl

end UnpackState

/-! ## Feeding -/

/-- What a refill of at least `more` bytes must come to. -/
def Refilled (inv : List UInt8 → UnpackInput σ → Prop) (stopped : UnpackInput σ → Prop)
    (rest : List UInt8) (s : UnpackState σ) (more : Nat) (r : Int × UnpackState σ) : Prop :=
  r.2.uc.item = s.uc.item ∧ r.2.uc.returnCode = s.uc.returnCode ∧
    if rest.length < more then r.1 = cwpRcEndOfInput ∧ stopped r.2.input
    else r.1 = cwpRcOk ∧ inv rest r.2.input ∧ r.2.uc.current + more ≤ r.2.uc.end_

/-- `inv rest x`: with input `x`, the bytes ahead are `rest`.  Once a routine has
stopped, `stopped` still holds.  A handler that does not return is excused by
`stuck`. -/
structure Feeds (H : Option (UnpackUnderflowHandler σ)) (stuck : Prop)
    (inv : List UInt8 → UnpackInput σ → Prop) (stopped : UnpackInput σ → Prop) : Prop where
  window : ∀ {rest x}, inv rest x →
    x.current ≤ x.end_ ∧ x.mem.bytes x.current (x.end_ - x.current) <+: rest
  advance : ∀ {rest x n}, inv rest x → n ≤ x.end_ - x.current →
    inv (rest.drop n) (x.seek (x.current + n))
  stops : ∀ {rest x}, inv rest x → stopped x
  refill : ∀ {rest s more}, inv rest s.input → s.uc.end_ < s.uc.current + more → more < 2 ^ 32 →
    match H with
    | none => rest.length < more ∧ stopped s.input
    | some handler => Ends stuck (Refilled inv stopped rest s more) (handler s more)

/-- The routine has stopped with a code. -/
structure Stops (stopped : UnpackInput σ → Prop) (e : Int) (s : UnpackState σ) : Prop where
  type : s.uc.item.type = .notAnItem
  returnCode : s.uc.returnCode = e
  input : stopped s.input

/-- From `s`, space for `n` bytes has been asserted at `p`. -/
structure Reads (inv : List UInt8 → UnpackInput σ → Prop) (rest : List UInt8) (n p : Nat)
    (s s' : UnpackState σ) : Prop where
  item : s'.uc.item = s.uc.item
  returnCode : s'.uc.returnCode = s.uc.returnCode
  current : s'.uc.current = p + n
  enough : n ≤ rest.length
  bytes : s'.mem.bytes p n = rest.take n
  before : inv rest (s'.input.seek p)
  after : inv (rest.drop n) s'.input

section Rule

variable {H : Option (UnpackUnderflowHandler σ)} {stuck : Prop}
  {inv : List UInt8 → UnpackInput σ → Prop} {stopped : UnpackInput σ → Prop}
  {rest : List UInt8} {s : UnpackState σ} {n : Nat}

/-- Inside the window, moving the cursor reads the bytes ahead. -/
theorem Feeds.reads (F : Feeds H stuck inv stopped) (hinv : inv rest s.input)
    (hle : s.uc.current + n ≤ s.uc.end_) :
    Reads inv rest n s.uc.current s (s.setCurrent (s.uc.current + n)) := by
  obtain ⟨hcur, tail, htail⟩ := F.window hinv
  have hcur' : s.uc.current ≤ s.uc.end_ := hcur
  have hwin : (s.mem.bytes s.uc.current (s.uc.end_ - s.uc.current)).take n =
      s.mem.bytes s.uc.current n := Memory.bytes_take _ (by omega)
  have hlen := congrArg List.length htail
  rw [List.length_append, Memory.bytes_length] at hlen
  have hlen' : s.uc.end_ - s.uc.current + tail.length = rest.length := hlen
  refine ⟨rfl, rfl, rfl, by omega, ?_, hinv, ?_⟩
  · rw [← htail, List.take_append_of_le_length (by rw [Memory.bytes_length]; show n ≤ _; omega)]
    exact hwin.symm
  · have hn : n ≤ s.uc.end_ - s.uc.current := by omega
    exact F.advance hinv hn

/-- What neither the cursor nor the handler touches is kept besides. -/
theorem Feeds.frame (F : Feeds H stuck inv stopped) {kept : UnpackInput σ → Prop}
    (hseek : ∀ x p, kept x → kept (x.seek p))
    (hhandler : ∀ handler ∈ H, ∀ s more r, kept s.input → handler s more = some r →
      kept r.2.input) :
    Feeds H stuck (fun rest x => inv rest x ∧ kept x) stopped where
  window := fun h => F.window h.1
  advance := fun h hn => ⟨F.advance h.1 hn, hseek _ _ h.2⟩
  stops := fun h => F.stops h.1
  refill := by
    intro rest s more h hshort hmore
    have hrefill := F.refill h.1 hshort hmore
    cases H with
    | none => exact hrefill
    | some handler =>
        simp only at hrefill ⊢
        cases hcall : handler s more with
        | none =>
            rw [hcall] at hrefill
            exact hrefill
        | some r =>
            rw [hcall] at hrefill
            obtain ⟨hitem, hrc, hrest⟩ := hrefill
            have hkept := hhandler handler rfl s more r h.2 hcall
            refine ⟨hitem, hrc, ?_⟩
            split at hrest
            · rw [if_pos ‹_›]
              exact hrest
            · rw [if_neg ‹_›]
              exact ⟨hrest.1, ⟨hrest.2.1, hkept⟩, hrest.2.2⟩

/-- The rule for `cw_unpack_assert_space_sub`: there are two ways on, according to
whether the bytes ahead suffice. -/
theorem Feeds.assertSpace (F : Feeds H stuck inv stopped) {code : Int}
    {more : UnpackContext → Nat} {abort : UnpackState σ → ρ}
    {k : Nat → UnpackState σ → Option ρ} {post : ρ → Prop} (hinv : inv rest s.input)
    (hmore : ∀ uc : UnpackContext, uc.item = s.uc.item → more uc = n) (hn : n < 2 ^ 32)
    (hshort : rest.length < n → ∀ s', Stops stopped code s' → post (abort s'))
    (hok : ∀ p s', Reads inv rest n p s s' → Ends stuck post (k p s')) :
    Ends stuck post (cwUnpackAssertSpaceSub H code more abort s k) := by
  have hsize : more s.uc = n := hmore s.uc rfl
  unfold cwUnpackAssertSpaceSub
  rw [hsize]
  by_cases hgt : s.uc.current + n > s.uc.end_
  · rw [if_pos hgt]
    have hrefill := F.refill hinv hgt hn
    cases H with
    | none =>
        obtain ⟨hlt, hstop⟩ := hrefill
        exact hshort hlt _ ⟨rfl, rfl, hstop⟩
    | some handler =>
        simp only at hrefill ⊢
        cases hcall : handler s n with
        | none =>
            rw [hcall] at hrefill
            exact hrefill
        | some r =>
            obtain ⟨rc, s'⟩ := r
            rw [hcall] at hrefill
            obtain ⟨hitem, hrc, hcase⟩ := hrefill
            simp only at hitem hrc hcase ⊢
            by_cases hlt : rest.length < n
            · rw [if_pos hlt] at hcase
              rw [if_pos (by rw [hcase.1]; decide), if_neg (by rw [hcase.1]; decide)]
              exact hshort hlt _ ⟨rfl, rfl, hcase.2⟩
            · rw [if_neg hlt] at hcase
              obtain ⟨rfl, hinv', hle⟩ := hcase
              rw [if_neg (by decide), hmore s'.uc hitem]
              have hread := F.reads hinv' hle
              exact hok _ _
                ⟨hitem, hrc, hread.current, hread.enough, hread.bytes, hread.before, hread.after⟩
  · rw [if_neg hgt]
    exact hok _ _ (F.reads hinv (by omega))

end Rule

end CWPack.Core
