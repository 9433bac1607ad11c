/-
  Core/Requests.lean --- what is asked from an overflow handler, and what is used.

  The macro that reserves space expands its size twice, once added to a pointer
  and once cast to `unsigned long`, where a `uint32_t` operand makes the sum one
  of 32 bits.  `EndsInRoom` says that a call has stayed within the room it had or
  was given.  A handler that gives what it is asked for is enough for that, unless
  the item has `2 ^ 32` bytes or more and does not fit without the handler.
-/
import CWPack.Core.Sink

set_option autoImplicit false

namespace CWPack.Core

open CWPack.Foundation
open CWPack.MessagePack

variable {σ : Type}

/-! ## Room -/

/-- The handler returns OK, with at least the requested number of bytes at the cursor. -/
def GivesRoom (handler : PackOverflowHandler σ) : Prop :=
  ∀ s more, ∃ t, handler s more = some (cwpRcOk, t) ∧ t.pc.current + more ≤ t.pc.end_

/-- A call from `s` has ended in `s'` with the cursor in the buffer.  It has only set the
return code; or it has stored `bs` at the cursor and before the end of `s`, or of the
context that the handler gave when asked for as many bytes as `bs` has. -/
def EndsInRoom (handler : PackOverflowHandler σ) (s s' : PackState σ) : Prop :=
  s'.pc.current ≤ s'.pc.end_ ∧
    ((∃ rc, s' = s.setReturnCode rc) ∨
      ∃ t bs, (t = s ∨ handler s bs.length = some (cwpRcOk, t)) ∧ s' = t.append bs ∧
        t.pc.current + bs.length ≤ t.pc.end_)

/-- Behind its handler, the call has ended in the room there was. -/
def UsesWhatItAsks (H : PackHandlers σ) (handler : PackOverflowHandler σ) (c : PackCall)
    (s : PackState σ) : Prop :=
  ∃ s', cwPack H c s = some s' ∧ EndsInRoom handler s s'

/-- A handler that gives exactly what it is asked for, at address 0. -/
def exactRoom : PackOverflowHandler σ := fun s more =>
  some (cwpRcOk, { s with pc.start := 0, pc.current := 0, pc.end_ := more })

theorem exactRoom_givesRoom : GivesRoom (exactRoom (σ := σ)) := fun _ more =>
  ⟨_, rfl, Nat.le_of_eq (Nat.zero_add more)⟩

/-! ## Emitting -/

section Emitting

variable {handler : PackOverflowHandler σ} {flush : Option (PackFlushHandler σ)}
  {s : PackState σ} {bs : List UInt8}

theorem emit_inRoom_of_fits (hfit : s.pc.current + bs.length ≤ s.pc.end_) :
    ∃ s', emit ⟨some handler, flush⟩ bs s = some s' ∧ EndsInRoom handler s s' :=
  ⟨s.append bs, emit_of_le _ hfit, hfit, Or.inr ⟨s, bs, Or.inl rfl, rfl, hfit⟩⟩

/-- Below `2 ^ 32` bytes the handler is asked for all of them. -/
theorem emit_inRoom_of_lt (hroom : GivesRoom handler) (hlt : bs.length < 2 ^ 32) :
    ∃ s', emit ⟨some handler, flush⟩ bs s = some s' ∧ EndsInRoom handler s s' := by
  by_cases hfit : s.pc.current + bs.length ≤ s.pc.end_
  · exact emit_inRoom_of_fits hfit
  · obtain ⟨t, hcall, hgiven⟩ := hroom s bs.length
    refine ⟨t.append bs, ?_, hgiven, Or.inr ⟨t, bs, Or.inr hcall, rfl, hgiven⟩⟩
    rw [emit_of_gt _ (Nat.lt_of_not_le hfit), Nat.mod_eq_of_lt hlt]
    simp only [cwPackNewBuffer, hcall]
    rfl

/-- From `2 ^ 32` bytes on the request has wrapped. -/
theorem emit_exactRoom (flush : Option (PackFlushHandler σ)) (hlong : 2 ^ 32 ≤ bs.length)
    (hfull : s.pc.end_ < s.pc.current + bs.length) :
    ∃ s', emit ⟨some exactRoom, flush⟩ bs s = some s' ∧ s'.pc.end_ < s'.pc.current := by
  refine ⟨_, (emit_of_gt _ hfull).trans rfl, ?_⟩
  show bs.length % 2 ^ 32 < 0 + bs.length
  have hmod := Nat.mod_lt bs.length (y := 2 ^ 32) (by decide)
  omega

end Emitting

/-! ## The size of an item -/

/-- The size of the 32-bit form of the item, for a call that has one. -/
def PackCall.wideSize : PackCall → Nat
  | .str v => v.length + 5
  | .bin v => v.length + 5
  | .ext _ v => v.length + 6
  | _ => 0

theorem encodeStr_length_wide (compat : Bool) {bs : List UInt8} (h : 0x10000 ≤ bs.length) :
    (encodeStr compat bs).length = bs.length + 5 := by
  rw [encodeStr, if_neg (by omega), if_neg (by omega), if_neg (by omega), List.length_cons,
    List.length_append, bigEndian_length]
  omega

theorem encodeBin_length_wide {bs : List UInt8} (h : 0x10000 ≤ bs.length) :
    (encodeBin bs).length = bs.length + 5 := by
  rw [encodeBin, if_neg (by omega), if_neg (by omega), List.length_cons, List.length_append,
    bigEndian_length]
  omega

theorem encodeExt_length_wide (type : Int8) {bs : List UInt8} (h : 0x10000 ≤ bs.length) :
    (encodeExt type bs).length = bs.length + 6 := by
  have hnone : fixextHeader bs.length = none := by
    unfold fixextHeader
    split <;> first | omega | rfl
  simp only [encodeExt, hnone, if_neg (show ¬ bs.length < 0x100 by omega),
    if_neg (show ¬ bs.length < 0x10000 by omega), List.length_cons, List.length_append,
    bigEndian_length]
  omega

/-- An item of `2 ^ 32` bytes or more is in the 32-bit form, and then that is its size. -/
theorem PackCall.encoding_length_wide {compat : Bool} {c : PackCall} {bs : List UInt8}
    (h : c.encoding compat = .ok bs) :
    (2 ^ 32 ≤ c.wideSize → bs.length = c.wideSize) ∧ (c.wideSize < 2 ^ 32 → bs.length < 2 ^ 32) := by
  have hle := PackCall.encoding_length_le h
  have hbs : bs = encode compat c.value := by
    unfold PackCall.encoding at h
    split at h
    · simp at h
    · exact (Except.ok.inj h).symm
  cases c with
  | str v =>
      have hle' := encodeStr_length_le compat v.bytes
      obtain rfl : bs = encodeStr compat v.bytes := hbs
      refine ⟨fun hwide => encodeStr_length_wide compat ?_, fun hlt => ?_⟩ <;>
        simp only [PackCall.wideSize, Blob.length] at * <;> omega
  | bin v =>
      have hstr := encodeStr_length_le true v.bytes
      have hbin := encodeBin_length_le v.bytes
      cases compat with
      | true =>
          obtain rfl : bs = encodeStr true v.bytes := hbs
          refine ⟨fun hwide => encodeStr_length_wide true ?_, fun hlt => ?_⟩ <;>
            simp only [PackCall.wideSize, Blob.length] at * <;> omega
      | false =>
          obtain rfl : bs = encodeBin v.bytes := hbs
          refine ⟨fun hwide => encodeBin_length_wide ?_, fun hlt => ?_⟩ <;>
            simp only [PackCall.wideSize, Blob.length] at * <;> omega
  | ext type v =>
      have hext := encodeExt_length_le type v.bytes
      obtain rfl : bs = encodeExt type v.bytes := hbs
      refine ⟨fun hwide => encodeExt_length_wide type ?_, fun hlt => ?_⟩ <;>
        simp only [PackCall.wideSize, Blob.length] at * <;> omega
  | _ =>
      simp only [PackCall.payload, PackCall.wideSize] at *
      omega

/-! ## Calls -/

/-- The call writes nothing, or its item has fewer than `2 ^ 32` bytes, or the item fits
without the handler. -/
def CountsIn32Bits (c : PackCall) (s : PackState σ) : Prop :=
  s.pc.returnCode ≠ 0 ∨ (∃ e, c.refusal s.pc.beCompatible = some e) ∨ c.wideSize < 2 ^ 32 ∨
    s.pc.current + c.wideSize ≤ s.pc.end_

/-- With every handler that gives what it is asked for, a call stays within the room it is
given if and only if the size of its item can be counted in 32 bits. -/
theorem uses_what_it_asks_iff (flush : Option (PackFlushHandler σ)) (c : PackCall)
    {s : PackState σ} (hin : s.pc.start ≤ s.pc.current ∧ s.pc.current ≤ s.pc.end_) :
    (∀ handler, GivesRoom handler → UsesWhatItAsks ⟨some handler, flush⟩ handler c s) ↔
      CountsIn32Bits c s := by
  by_cases hrc : s.pc.returnCode = 0
  · cases henc : c.encoding s.pc.beCompatible with
    | error e =>
        -- the call is refused
        have hrefusal : c.refusal s.pc.beCompatible = some e := by
          unfold PackCall.encoding at henc
          split at henc
          · rename_i e' he'
            rw [he', Except.error.inj henc]
          · simp at henc
        refine ⟨fun _ => Or.inr (Or.inl ⟨e, hrefusal⟩), fun _ handler _ => ?_⟩
        have hspec := cwPack_spec ⟨some handler, flush⟩ c hrc hin.2
        rw [henc] at hspec
        exact ⟨s.setReturnCode e, hspec, hin.2, Or.inl ⟨e, rfl⟩⟩
    | ok bs =>
        have hnone : ¬ ∃ e, c.refusal s.pc.beCompatible = some e := by
          rintro ⟨e, he⟩
          simp [PackCall.encoding, he] at henc
        obtain ⟨hwide, hshort⟩ := PackCall.encoding_length_wide henc
        have hspec : ∀ handler : PackOverflowHandler σ,
            cwPack ⟨some handler, flush⟩ c s = emit ⟨some handler, flush⟩ bs s := by
          intro handler
          have h := cwPack_spec ⟨some handler, flush⟩ c hrc hin.2
          rw [henc] at h
          exact h
        constructor
        · intro h
          by_contra hnot
          obtain ⟨hlong, hfull⟩ : 2 ^ 32 ≤ c.wideSize ∧ s.pc.end_ < s.pc.current + c.wideSize := by
            simp only [CountsIn32Bits, not_or, not_lt, not_le] at hnot
            exact hnot.2.2
          have hsize := hwide hlong
          obtain ⟨s', hcall, hover⟩ := emit_exactRoom flush (by rw [hsize]; exact hlong)
            (by rw [hsize]; exact hfull)
          obtain ⟨s'', hcall', hends⟩ := h exactRoom exactRoom_givesRoom
          rw [hspec, hcall] at hcall'
          obtain rfl := Option.some.inj hcall'
          exact absurd hends.1 (Nat.not_le.mpr hover)
        · intro h handler hroom
          unfold UsesWhatItAsks
          rw [hspec]
          rcases h with h | h | h | h
          · exact absurd hrc h
          · exact absurd h hnone
          · exact emit_inRoom_of_lt hroom (hshort h)
          · by_cases hlong : 2 ^ 32 ≤ c.wideSize
            · rw [← hwide hlong] at h
              exact emit_inRoom_of_fits h
            · exact emit_inRoom_of_lt hroom (hshort (Nat.lt_of_not_le hlong))
  · exact ⟨fun _ => Or.inl hrc, fun _ handler _ =>
      ⟨s, cwPack_of_stopped _ c hrc, hin.2, Or.inl ⟨s.pc.returnCode, rfl⟩⟩⟩

/-- A context on a full buffer. -/
def fullContext : PackState Unit := ⟨⟨7, 3, 7, false, 0, 0⟩, fun _ => 0, ()⟩

theorem uses_what_it_asks_for_a_short_string :
    UsesWhatItAsks ⟨some exactRoom, none⟩ exactRoom (.str ⟨[0x61, 0x62], by decide⟩) fullContext :=
  (uses_what_it_asks_iff none (.str ⟨[0x61, 0x62], by decide⟩) (s := fullContext)
    (by decide)).mpr (Or.inr (Or.inr (Or.inl (by decide)))) exactRoom exactRoom_givesRoom

/-- For a string of `2 ^ 32 - 1` bytes four bytes are asked for. -/
theorem str_exactRoom_overruns {v : Blob} (h : v.bytes.length = 2 ^ 32 - 1) :
    ∃ t, cwPack ⟨some exactRoom, none⟩ (.str v) fullContext = some t ∧
      t.pc.end_ < t.pc.current := by
  have hsize : (encodeStr false v.bytes).length = v.bytes.length + 5 :=
    encodeStr_length_wide false (by omega)
  have hspec : cwPack ⟨some exactRoom, none⟩ (.str v) fullContext =
      emit ⟨some exactRoom, none⟩ (encodeStr false v.bytes) fullContext :=
    cwPackStr_spec _ v (s := fullContext) rfl
  rw [hspec]
  refine emit_exactRoom none (by omega) ?_
  show 7 < 7 + _
  omega

/-- The longest blob there is. -/
def longestBlob : Blob := ⟨List.replicate (2 ^ 32 - 1) 0, by rw [List.length_replicate]; decide⟩

theorem longest_string_overruns :
    ¬ ∀ (c : PackCall) (s : PackState Unit),
      s.pc.start ≤ s.pc.current ∧ s.pc.current ≤ s.pc.end_ →
      ∀ handler, GivesRoom handler → UsesWhatItAsks ⟨some handler, none⟩ handler c s := by
  intro h
  obtain ⟨s', hcall, hends⟩ := h (.str longestBlob) fullContext (by decide) exactRoom
    exactRoom_givesRoom
  obtain ⟨t, hspec, hover⟩ := str_exactRoom_overruns (v := longestBlob) List.length_replicate
  obtain rfl := Option.some.inj (hcall.symm.trans hspec)
  exact absurd hends.1 (Nat.not_le.mpr hover)

end CWPack.Core
