/-
  Goodies/PackingCalls.lean --- what a packing call does to a context.

  `Writes` says all that a call does to the state, whatever the handlers do, and
  `Produces` collects the bytes the calls of a run store.  Where a call leaves the
  return code OK it has stored exactly one item.
-/
import CWPack.Core.Sink
import CWPack.Goodies.NumericExtensions

set_option autoImplicit false

namespace CWPack.Goodies

open CWPack.Foundation
open CWPack.Core
open CWPack.MessagePack

variable {σ : Type}

/-! ## What a call does -/

/-- A packing call, or a call of a numeric extension. -/
inductive PackingCall where
  | call (c : PackCall)
  | flush
  | extInteger (type : Int8) (i : Int64)
  | extFloat (type : Int8) (f : UInt32)
  | extDouble (type : Int8) (d : UInt64)

/-- Perform a call. -/
def PackingCall.perform (H : PackHandlers σ) : PackingCall → PackState σ → Option (PackState σ)
  | .call c, s => cwPack H c s
  | .flush, s => cwPackFlush H s
  | .extInteger type i, s => cwPackExtInteger H type i s
  | .extFloat type f, s => cwPackExtFloat H type f s
  | .extDouble type d, s => cwPackExtDouble H type d s

/-- The value a call packs; a flush packs none. -/
def PackingCall.value : PackingCall → Value
  | .call c => c.value
  | .flush => .nil
  | .extInteger type i => .ext type (extIntegerPayload i.toInt)
  | .extFloat type f => .ext type (bigEndian 4 f.toNat)
  | .extDouble type d => .ext type (bigEndian 8 d.toNat)

/-- The calls of `numeric_extensions.c`. -/
def PackingCall.IsNumeric : PackingCall → Prop
  | .extInteger _ _ => True
  | .extFloat _ _ => True
  | .extDouble _ _ => True
  | _ => False

/-- The calls that pack an extension item or a timestamp. -/
def PackingCall.IsExtension : PackingCall → Prop
  | .call (.ext _ _) => True
  | .call (.time _ _) => True
  | c => c.IsNumeric

/-- `Writes H s bs s'`: the bytes `bs` are stored, and nothing else is done between `s` and `s'`,
but for one handler that may be called and a return code that may be set. -/
inductive Writes (H : PackHandlers σ) (s : PackState σ) : List UInt8 → PackState σ → Prop where
  | kept : Writes H s [] s
  | appended (bs : List UInt8) : Writes H s bs (s.append bs)
  | refilled {handler : PackOverflowHandler σ} {more : Nat} {t : PackState σ} (bs : List UInt8)
      (hhandler : H.handlePackOverflow = some handler) (hcall : handler s more = some (0, t)) :
      Writes H s bs (t.append bs)
  | stopped (e : Int) : Writes H s [] (s.setReturnCode e)
  | failed {handler : PackOverflowHandler σ} {more : Nat} {e : Int} {t : PackState σ}
      (hhandler : H.handlePackOverflow = some handler) (hcall : handler s more = some (e, t)) :
      Writes H s [] (t.setReturnCode e)
  | flushed {handler : PackFlushHandler σ} {e : Int} {t : PackState σ}
      (hhandler : H.handleFlush = some handler) (hcall : handler s = some (e, t)) :
      Writes H s [] (t.setReturnCode e)

section Calls

variable {H : PackHandlers σ} {s s' : PackState σ}

theorem cwPackNewBuffer_writes {more : Nat} {bs : List UInt8}
    (h : cwPackNewBuffer H more s (fun t => some (t.append bs)) = some s') :
    Writes H s bs s' ∨ Writes H s [] s' ∧ s'.pc.returnCode ≠ 0 := by
  unfold cwPackNewBuffer at h
  cases hhandler : H.handlePackOverflow with
  | none =>
      simp only [hhandler, packError, Option.some.injEq] at h
      subst h
      exact Or.inr ⟨.stopped _, by show cwpRcBufferOverflow ≠ 0; decide⟩
  | some handler =>
      simp only [hhandler] at h
      cases hcall : handler s more with
      | none => simp [hcall] at h
      | some r =>
          obtain ⟨rc, t⟩ := r
          simp only [hcall] at h
          by_cases hrc : rc ≠ 0
          · rw [if_pos hrc] at h
            obtain rfl := Option.some.inj h
            exact Or.inr ⟨.failed hhandler hcall, hrc⟩
          · rw [if_neg hrc] at h
            obtain rfl : rc = 0 := not_not.mp hrc
            exact Or.inl (Option.some.inj h ▸ .refilled bs hhandler hcall)

/-- Emitting stores the bytes, or stops without storing any. -/
theorem emit_writes {bs : List UInt8} (h : emit H bs s = some s') :
    Writes H s bs s' ∨ Writes H s [] s' ∧ s'.pc.returnCode ≠ 0 := by
  by_cases hle : s.pc.current + bs.length ≤ s.pc.end_
  · rw [emit_of_le H hle] at h
    exact Or.inl (Option.some.inj h ▸ .appended bs)
  · rw [emit_of_gt H (Nat.lt_of_not_le hle)] at h
    exact cwPackNewBuffer_writes h

theorem Puts.writes {bs : List UInt8} {r : Option (PackState σ)} (h : Puts H s bs r)
    (hr : r = some s') : Writes H s bs s' ∨ Writes H s [] s' ∧ s'.pc.returnCode ≠ 0 := by
  cases h with
  | emit => exact emit_writes hr
  | move t =>
      unfold tryMove0 at hr
      by_cases hfull : s.pc.current = s.pc.end_
      · rw [if_pos hfull] at hr
        exact cwPackNewBuffer_writes hr
      · rw [if_neg hfull] at hr
        exact Or.inl (Option.some.inj hr ▸ .appended _)

theorem cwPackFlush_writes (h : cwPackFlush H s = some s') : Writes H s [] s' := by
  unfold cwPackFlush at h
  by_cases hrc : s.pc.returnCode = cwpRcOk
  · rw [if_pos hrc] at h
    cases hhandler : H.handleFlush with
    | none =>
        simp only [hhandler, Option.some.injEq] at h
        exact h ▸ .stopped _
    | some handler =>
        simp only [hhandler] at h
        cases hcall : handler s with
        | none => simp [hcall] at h
        | some r =>
            obtain ⟨rc, t⟩ := r
            simp only [hcall, Option.some.injEq] at h
            exact h ▸ .flushed hhandler hcall
  · rw [if_neg hrc] at h
    exact Option.some.inj h ▸ .kept

/-- A stopped context is left alone. -/
theorem PackingCall.perform_of_stopped (c : PackingCall) (hrc : s.pc.returnCode ≠ 0) :
    c.perform H s = some s := by
  cases c with
  | call c => exact cwPack_of_stopped H c hrc
  | flush => exact if_neg hrc
  | extInteger type i => exact if_pos hrc
  | extFloat type f => exact if_pos hrc
  | extDouble type d => exact if_pos hrc

/-- A numeric extension emits an extension item, whatever the mode. -/
theorem PackingCall.perform_numeric {c : PackingCall} (hnumeric : c.IsNumeric)
    (hrc : s.pc.returnCode = 0) :
    ∃ type payload, c.value = .ext type payload ∧ payload.length ≤ 8 ∧
      c.perform H s = emit H (encodeExt type payload) s := by
  cases c with
  | call c => exact hnumeric.elim
  | flush => exact hnumeric.elim
  | extInteger type i =>
      exact ⟨type, _, rfl, extIntegerPayload_length_le _, cwPackExtInteger_spec type i hrc⟩
  | extFloat type f =>
      refine ⟨type, _, rfl, ?_, cwPackExtFloat_spec type f hrc⟩
      rw [bigEndian_length]
      decide
  | extDouble type d =>
      refine ⟨type, _, rfl, ?_, cwPackExtDouble_spec type d hrc⟩
      rw [bigEndian_length]

/-- The code with which a call is refused in the given mode. -/
def PackingCall.refusal (compat : Bool) : PackingCall → Option Int
  | .call c => c.refusal compat
  | _ => none

theorem PackingCall.refusal_ne_zero {c : PackingCall} {compat : Bool} {e : Int}
    (h : c.refusal compat = some e) : e ≠ 0 := by
  cases c with
  | call c =>
      have henc : c.encoding compat = .error e := by
        simp only [PackCall.encoding, show c.refusal compat = some e from h]
      exact PackCall.encoding_error henc
  | _ => simp [PackingCall.refusal] at h

/-- A packing call on a running context refuses, or puts one item, of its value. -/
theorem PackingCall.perform_puts {c : PackingCall} (hc : c ≠ .flush)
    (hrc : s.pc.returnCode = 0) :
    match c.refusal s.pc.beCompatible with
    | some e => c.perform H s = packError e s
    | none => ∃ bs, Puts H s bs (c.perform H s) ∧ Item bs (c.value.wire s.pc.beCompatible) := by
  have hnumeric : c.IsNumeric →
      ∃ bs, Puts H s bs (c.perform H s) ∧ Item bs (c.value.wire s.pc.beCompatible) := by
    intro hnumeric
    obtain ⟨type, payload, hvalue, hlen, hcall⟩ :=
      PackingCall.perform_numeric (H := H) hnumeric hrc
    refine ⟨_, .of_eq hcall, ?_⟩
    rw [hvalue]
    exact item_encodeExt type (by omega)
  cases c with
  | call c =>
      have hputs := cwPack_puts H c hrc
      show match c.refusal s.pc.beCompatible with
        | some e => cwPack H c s = packError e s
        | none => ∃ bs, Puts H s bs (cwPack H c s) ∧ Item bs (c.value.wire s.pc.beCompatible)
      cases href : c.refusal s.pc.beCompatible with
      | some e =>
          simp only [PackCall.encoding, href] at hputs
          exact hputs
      | none =>
          have henc : c.encoding s.pc.beCompatible = .ok (encode s.pc.beCompatible c.value) := by
            simp only [PackCall.encoding, href]
          rw [henc] at hputs
          exact ⟨_, hputs, item_encode s.pc.beCompatible (PackCall.encodable_of_ok henc)⟩
  | flush => exact absurd rfl hc
  | extInteger type i => exact hnumeric trivial
  | extFloat type f => exact hnumeric trivial
  | extDouble type d => exact hnumeric trivial

/-- Where all is well after a call, it was before, and the call has stored one item, of its
value. -/
theorem PackingCall.perform_item {c : PackingCall} (hc : c ≠ .flush)
    (h : c.perform H s = some s') (hrc' : s'.pc.returnCode = 0) :
    s.pc.returnCode = 0 ∧
      ∃ bs, Writes H s bs s' ∧ Item bs (c.value.wire s.pc.beCompatible) := by
  by_cases hrc : s.pc.returnCode = 0
  · have hputs := PackingCall.perform_puts (H := H) hc hrc
    cases href : c.refusal s.pc.beCompatible with
    | some e =>
        rw [href] at hputs
        obtain rfl := Option.some.inj (hputs.symm.trans h)
        exact absurd hrc' (PackingCall.refusal_ne_zero href)
    | none =>
        rw [href] at hputs
        obtain ⟨bs, hputs, hitem⟩ := hputs
        rcases Puts.writes hputs h with hwrites | ⟨-, hne⟩
        · exact ⟨hrc, bs, hwrites, hitem⟩
        · exact absurd hrc' hne
  · rw [c.perform_of_stopped hrc] at h
    obtain rfl := Option.some.inj h
    exact absurd hrc' hrc

/-- Where the overflow handler returns, so does every packing call. -/
theorem PackingCall.perform_returns {c : PackingCall} (hc : c ≠ .flush)
    (hreturns : ∀ handler s more, H.handlePackOverflow = some handler → handler s more ≠ none) :
    ∃ s', c.perform H s = some s' := by
  have hnew : ∀ more k, (∀ t, ∃ s', k t = some s') → ∃ s', cwPackNewBuffer H more s k = some s' := by
    intro more k hk
    unfold cwPackNewBuffer
    cases hhandler : H.handlePackOverflow with
    | none => exact ⟨_, rfl⟩
    | some handler =>
        obtain ⟨⟨rc, t⟩, hcall⟩ := Option.ne_none_iff_exists'.mp (hreturns handler s more hhandler)
        simp only [hcall]
        by_cases hrc : rc ≠ 0
        · rw [if_pos hrc]
          exact ⟨_, rfl⟩
        · rw [if_neg hrc]
          exact hk t
  by_cases hrc : s.pc.returnCode = 0
  · have hputs := PackingCall.perform_puts (H := H) hc hrc
    cases href : c.refusal s.pc.beCompatible with
    | some e =>
        rw [href] at hputs
        exact ⟨_, hputs⟩
    | none =>
        rw [href] at hputs
        obtain ⟨bs, hputs, -⟩ := hputs
        generalize c.perform H s = r at hputs
        cases hputs with
        | emit =>
            by_cases hle : s.pc.current + bs.length ≤ s.pc.end_
            · exact ⟨_, emit_of_le H hle⟩
            · rw [emit_of_gt H (Nat.lt_of_not_le hle)]
              exact hnew _ _ fun t => ⟨_, rfl⟩
        | move t =>
            unfold tryMove0
            by_cases hfull : s.pc.current = s.pc.end_
            · rw [if_pos hfull]
              exact hnew _ _ fun t => ⟨_, rfl⟩
            · rw [if_neg hfull]
              exact ⟨_, rfl⟩
  · exact ⟨s, c.perform_of_stopped hrc⟩

end Calls

/-! ## Runs -/

/-- `Produces H calls s chunks s'`: the calls lead from `s` to `s'`, and each stores its chunk. -/
inductive Produces (H : PackHandlers σ) :
    List PackingCall → PackState σ → List (List UInt8) → PackState σ → Prop where
  | done (s : PackState σ) : Produces H [] s [] s
  | call {c : PackingCall} {calls : List PackingCall} {s t s' : PackState σ} {bs : List UInt8}
      {chunks : List (List UInt8)} (hcall : c.perform H s = some t) (hbs : Writes H s bs t)
      (hrest : Produces H calls t chunks s') : Produces H (c :: calls) s (bs :: chunks) s'

/-- In the run of `calls` from `s`, the call `c` is made in the state `t`. -/
def Makes (H : PackHandlers σ) (calls : List PackingCall) (s : PackState σ) (c : PackingCall)
    (t : PackState σ) : Prop :=
  ∃ first rest, calls = first ++ c :: rest ∧ run (PackingCall.perform H) first s = some t

section Runs

variable {H : PackHandlers σ} {calls : List PackingCall} {c c' : PackingCall}
  {s t s' : PackState σ}

theorem makes_head : Makes H (c :: calls) s c s := ⟨[], calls, rfl, rfl⟩

theorem Makes.cons (hcall : c.perform H s = some s') (h : Makes H calls s' c' t) :
    Makes H (c :: calls) s c' t := by
  obtain ⟨first, rest, rfl, hrun⟩ := h
  exact ⟨c :: first, rest, rfl, (run_cons_of_some first hcall).trans hrun⟩

/-- The overflow handler does not touch the bytes behind the cursor. -/
def OnlyMakesRoom (H : PackHandlers σ) : Prop :=
  ∀ handler s more e t, H.handlePackOverflow = some handler → handler s more = some (e, t) →
    t.mem = s.mem ∧ t.pc.current = s.pc.current

/-- Where handlers keep off the buffer, the chunks are stored one behind the other. -/
theorem Writes.bytes {bs : List UInt8} (hoverflow : OnlyMakesRoom H)
    (hflush : H.handleFlush = none) (h : Writes H s bs s') {p : Nat} (hp : p ≤ s.pc.current) :
    s.pc.current ≤ s'.pc.current ∧
      s'.mem.bytes p (s'.pc.current - p) = s.mem.bytes p (s.pc.current - p) ++ bs := by
  cases h with
  | kept => exact ⟨Nat.le_refl _, (List.append_nil _).symm⟩
  | appended => exact ⟨Nat.le_add_right _ _, Memory.bytes_write_append _ _ hp⟩
  | @refilled _ _ t bs hhandler hcall =>
      obtain ⟨hmem, hcurrent⟩ := hoverflow _ _ _ _ _ hhandler hcall
      rw [← hcurrent] at hp ⊢
      rw [← hmem]
      exact ⟨Nat.le_add_right _ _, Memory.bytes_write_append _ _ hp⟩
  | stopped e => exact ⟨Nat.le_refl _, (List.append_nil _).symm⟩
  | @failed _ _ e t hhandler hcall =>
      obtain ⟨hmem, hcurrent⟩ := hoverflow _ _ _ _ _ hhandler hcall
      rw [← hcurrent, ← hmem]
      exact ⟨Nat.le_refl _, (List.append_nil _).symm⟩
  | flushed hhandler _ => simp [hflush] at hhandler

theorem Produces.run_eq {chunks : List (List UInt8)} (h : Produces H calls s chunks s') :
    run (PackingCall.perform H) calls s = some s' := by
  induction h with
  | done s => rfl
  | call hcall _ _ ih => rw [run_cons_of_some _ hcall, ih]

theorem Produces.append {calls calls' : List PackingCall} {chunks chunks' : List (List UInt8)}
    (h : Produces H calls s chunks t) (h' : Produces H calls' t chunks' s') :
    Produces H (calls ++ calls') s (chunks ++ chunks') s' := by
  induction h with
  | done s => exact h'
  | call hcall hbs _ ih => exact .call hcall hbs (ih h')

theorem Produces.bytes {chunks : List (List UInt8)} (hoverflow : OnlyMakesRoom H)
    (hflush : H.handleFlush = none) (h : Produces H calls s chunks s') {p : Nat}
    (hp : p ≤ s.pc.current) :
    s'.mem.bytes p (s'.pc.current - p) = s.mem.bytes p (s.pc.current - p) ++ chunks.flatten := by
  induction h with
  | done s => exact (List.append_nil _).symm
  | call hcall hbs _ ih =>
      obtain ⟨hle, hbytes⟩ := hbs.bytes hoverflow hflush hp
      rw [ih (Nat.le_trans hp hle), hbytes, List.append_assoc, List.flatten_cons]

end Runs

end CWPack.Goodies
