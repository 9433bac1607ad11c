/-
  Core/StaticPack.lean --- packing into a static buffer.

  Without an overflow handler a run of calls keeps the encodings that fit, one
  after another, up to the first that is refused or does not fit.  That call
  stores its code and nothing else, and the calls after it do nothing.
-/
import CWPack.Core.Encoding
import CWPack.Foundation.Outcome

set_option autoImplicit false

namespace CWPack.Core

open CWPack.Foundation
open CWPack.MessagePack

variable {σ : Type}

/-! ## The encodings of a run -/

/-- The encodings of the calls of a run, each in the mode that is in force. -/
def encodings (compat : Bool) : List PackOp → List (Except Int (List UInt8))
  | [] => []
  | .call c :: ops => c.encoding compat :: encodings compat ops
  | .insert v :: ops => .ok v.bytes :: encodings compat ops
  | .setCompatibility b :: ops => encodings b ops

/-- The bytes of encodings, one after another. -/
def concat : List (Except Int (List UInt8)) → List UInt8
  | [] => []
  | .ok bs :: encs => bs ++ concat encs
  | .error _ :: encs => concat encs

/-- How many encodings come before the first that is refused or does not fit into what
the ones before it leave of `room`. -/
def fitting (room : Nat) : List (Except Int (List UInt8)) → Nat
  | .ok bs :: encs => if bs.length ≤ room then fitting (room - bs.length) encs + 1 else 0
  | _ => 0

/-- The code a static buffer stops with at an encoding it does not take. -/
def stopCode : Except Int (List UInt8) → Int
  | .ok _ => cwpRcBufferOverflow
  | .error e => e

theorem fitting_le (room : Nat) (encs : List (Except Int (List UInt8))) :
    fitting room encs ≤ encs.length := by
  induction encs generalizing room with
  | nil => exact Nat.le_refl 0
  | cons enc encs ih =>
      cases enc with
      | error e => exact Nat.zero_le _
      | ok bs =>
          simp only [fitting]
          split
          · exact Nat.succ_le_succ (ih _)
          · exact Nat.zero_le _

/-- What is kept fits. -/
theorem concat_fitting_le (room : Nat) (encs : List (Except Int (List UInt8))) :
    (concat (encs.take (fitting room encs))).length ≤ room := by
  induction encs generalizing room with
  | nil => exact Nat.zero_le _
  | cons enc encs ih =>
      cases enc with
      | error e => exact Nat.zero_le _
      | ok bs =>
          simp only [fitting]
          by_cases hfit : bs.length ≤ room
          · have hrest := ih (room - bs.length)
            rw [if_pos hfit, List.take_succ_cons, concat, List.length_append]
            omega
          · rw [if_neg hfit]
            exact Nat.zero_le _

/-- Refusals are not OK. -/
theorem PackCall.encoding_error {compat : Bool} {c : PackCall} {e : Int}
    (h : c.encoding compat = .error e) : e ≠ 0 := by
  unfold PackCall.encoding PackCall.refusal at h
  cases c with
  | ext type v =>
      cases compat <;> simp only [if_true, Bool.false_eq_true, if_false, reduceCtorEq,
        Except.error.injEq] at h
      subst h
      decide
  | time sec nsec =>
      cases compat with
      | true =>
          simp only [if_true, Except.error.injEq] at h
          subst h
          decide
      | false =>
          by_cases hn : nsec.toNat ≥ 1000000000
          · simp only [Bool.false_eq_true, if_false, if_pos hn, Except.error.injEq] at h
            subst h
            decide
          · simp only [Bool.false_eq_true, if_false, if_neg hn, reduceCtorEq] at h
  | _ => simp at h

theorem stopCode_ok_ne_zero (bs : List UInt8) : stopCode (.ok bs) ≠ 0 := by
  show cwpRcBufferOverflow ≠ 0
  decide

theorem stopCode_ne_zero {compat : Bool} {ops : List PackOp} {enc : Except Int (List UInt8)}
    (h : enc ∈ encodings compat ops) : stopCode enc ≠ 0 := by
  induction ops generalizing compat with
  | nil => simp [encodings] at h
  | cons op ops ih =>
      cases op with
      | call c =>
          simp only [encodings, List.mem_cons] at h
          rcases h with rfl | h
          · cases henc : c.encoding compat with
            | ok bs => exact stopCode_ok_ne_zero bs
            | error e => exact PackCall.encoding_error henc
          · exact ih h
      | insert v =>
          simp only [encodings, List.mem_cons] at h
          rcases h with rfl | h
          · exact stopCode_ok_ne_zero v.bytes
          · exact ih h
      | setCompatibility b => exact ih h

/-! ## One call -/

theorem emit_static_of_gt {bs : List UInt8} {s : PackState σ}
    (h : s.pc.end_ < s.pc.current + bs.length) :
    emit (.static σ) bs s = packError cwpRcBufferOverflow s := by
  rw [emit_of_gt _ h]
  rfl

/-- An operation other than an insertion. -/
def PackOp.IsCall : PackOp → Prop
  | .insert _ => False
  | _ => True

/-- Where the context has stopped, a run changes at most the mode. -/
theorem run_of_stopped (H : PackHandlers σ) {ops : List PackOp} (hops : ∀ op ∈ ops, op.IsCall)
    {s : PackState σ} (hrc : s.pc.returnCode ≠ 0) :
    ∃ b, run (PackOp.perform H) ops s = some (cwPackSetCompatibility b s) := by
  induction ops generalizing s with
  | nil => exact ⟨s.pc.beCompatible, rfl⟩
  | cons op ops ih =>
      have hrest : ∀ op ∈ ops, op.IsCall := fun o ho => hops o (List.mem_cons_of_mem op ho)
      cases op with
      | call c =>
          rw [run_cons_of_some ops (cwPack_of_stopped H c hrc)]
          exact ih hrest hrc
      | insert v => exact (hops _ List.mem_cons_self).elim
      | setCompatibility b =>
          obtain ⟨b', hrun⟩ := ih hrest (s := cwPackSetCompatibility b s) hrc
          have hset : PackOp.perform H (.setCompatibility b) s =
              some (cwPackSetCompatibility b s) := rfl
          rw [run_cons_of_some ops hset]
          exact ⟨b', hrun⟩

/-! ## Runs -/

/-- What a run on a static buffer comes to, from a running context. -/
structure Kept (s : PackState σ) (encs : List (Except Int (List UInt8))) (s' : PackState σ) :
    Prop where
  start : s'.pc.start = s.pc.start
  end_ : s'.pc.end_ = s.pc.end_
  current : s'.pc.current = s.pc.current +
    (concat (encs.take (fitting (s.pc.end_ - s.pc.current) encs))).length
  mem : s'.mem = s.mem.write s.pc.current
    (concat (encs.take (fitting (s.pc.end_ - s.pc.current) encs)))
  returnCode : s'.pc.returnCode =
    match encs[fitting (s.pc.end_ - s.pc.current) encs]? with
    | none => 0
    | some enc => stopCode enc

theorem run_static {ops : List PackOp} (hops : ∀ op ∈ ops, op.IsCall) {s : PackState σ}
    (hrc : s.pc.returnCode = 0) (hle : s.pc.current ≤ s.pc.end_) :
    ∃ s', run (PackOp.perform (.static σ)) ops s = some s' ∧
      Kept s (encodings s.pc.beCompatible ops) s' := by
  induction ops generalizing s with
  | nil =>
      refine ⟨s, rfl, rfl, rfl, rfl, ?_, hrc⟩
      exact (Memory.write_nil _ _).symm
  | cons op ops ih =>
      have hrest : ∀ op ∈ ops, op.IsCall := fun o ho => hops o (List.mem_cons_of_mem op ho)
      cases op with
      | insert v => exact (hops _ List.mem_cons_self).elim
      | setCompatibility b =>
          obtain ⟨s', hrun, hkept⟩ := ih hrest (s := cwPackSetCompatibility b s) hrc hle
          refine ⟨s', ?_, hkept.start, hkept.end_, hkept.current, hkept.mem, hkept.returnCode⟩
          have hset : PackOp.perform (.static σ) (.setCompatibility b) s =
              some (cwPackSetCompatibility b s) := rfl
          rw [run_cons_of_some ops hset, hrun]
      | call c =>
          have hspec := cwPack_spec (.static σ) c hrc hle
          simp only [encodings]
          cases henc : c.encoding s.pc.beCompatible with
          | error e =>
              rw [henc] at hspec
              have hcall : PackOp.perform (.static σ) (.call c) s = some (s.setReturnCode e) :=
                hspec
              obtain ⟨b, hrun⟩ := run_of_stopped (.static σ) hrest (s := s.setReturnCode e)
                (PackCall.encoding_error henc)
              refine ⟨cwPackSetCompatibility b (s.setReturnCode e), ?_, rfl, rfl, rfl, ?_, rfl⟩
              · rw [run_cons_of_some ops hcall, hrun]
              · exact (Memory.write_nil _ _).symm
          | ok bs =>
              rw [henc] at hspec
              by_cases hfit : bs.length ≤ s.pc.end_ - s.pc.current
              · let s₁ := (s.setCurrent (s.pc.current + bs.length)).store s.pc.current bs
                have hcall : PackOp.perform (.static σ) (.call c) s = some s₁ :=
                  hspec.trans (emit_of_le _ (by omega))
                have hle₁ : s₁.pc.current ≤ s₁.pc.end_ := by
                  show s.pc.current + bs.length ≤ s.pc.end_
                  omega
                obtain ⟨s', hrun, hkept⟩ := ih hrest (s := s₁) hrc hle₁
                have hroom : s₁.pc.end_ - s₁.pc.current = s.pc.end_ - s.pc.current - bs.length :=
                  Nat.sub_add_eq _ _ _
                have hcur₁ : s₁.pc.current = s.pc.current + bs.length := rfl
                have hmem₁ : s₁.mem = s.mem.write s.pc.current bs := rfl
                obtain ⟨hstart, hend, hcur, hmem, hcode⟩ := hkept
                rw [hroom] at hcur hmem hcode
                refine ⟨s', ?_, hstart, hend, ?_, ?_, ?_⟩
                · rw [run_cons_of_some ops hcall, hrun]
                · rw [hcur, fitting, if_pos hfit, List.take_succ_cons, concat, List.length_append,
                    hcur₁, Nat.add_assoc]
                  rfl
                · rw [hmem, fitting, if_pos hfit, List.take_succ_cons, concat, hmem₁, hcur₁,
                    Memory.write_append]
                  rfl
                · rw [hcode, fitting, if_pos hfit, List.getElem?_cons_succ]
                  rfl
              · have hcall : PackOp.perform (.static σ) (.call c) s =
                    some (s.setReturnCode cwpRcBufferOverflow) :=
                  hspec.trans (emit_static_of_gt (by omega))
                obtain ⟨b, hrun⟩ := run_of_stopped (.static σ) hrest
                  (s := s.setReturnCode cwpRcBufferOverflow) (stopCode_ok_ne_zero bs)
                refine ⟨cwPackSetCompatibility b (s.setReturnCode cwpRcBufferOverflow), ?_, rfl,
                  rfl, ?_, ?_, ?_⟩
                · rw [run_cons_of_some ops hcall, hrun]
                · rw [fitting, if_neg hfit]
                  rfl
                · rw [fitting, if_neg hfit]
                  exact (Memory.write_nil _ _).symm
                · rw [fitting, if_neg hfit]
                  rfl

/-- A run on a static buffer keeps exactly the longest prefix of calls that fits. -/
theorem static_run_keeps_fitting_prefix {ops : List PackOp} (hops : ∀ op ∈ ops, op.IsCall)
    (data n : Nat) (s : PackState σ) :
    ∃ s', run (PackOp.perform (.static σ)) ops (cwPackContextInit data n s) = some s' ∧
      s'.pc.start = data ∧ s'.pc.end_ = data + n ∧
      s'.pc.start ≤ s'.pc.current ∧ s'.pc.current ≤ s'.pc.end_ ∧
      s'.mem.bytes data (s'.pc.current - data) =
        concat ((encodings false ops).take (fitting n (encodings false ops))) ∧
      (∀ a, a < data ∨ data + n ≤ a → s'.mem a = s.mem a) ∧
      (s'.pc.returnCode = cwpRcOk ↔
        fitting n (encodings false ops) = (encodings false ops).length) ∧
      (∀ enc, (encodings false ops)[fitting n (encodings false ops)]? = some enc →
        s'.pc.returnCode = stopCode enc) ∧
      (s'.pc.returnCode ≠ cwpRcOk → ∀ more : List PackOp, (∀ op ∈ more, op.IsCall) →
        ∃ b, run (PackOp.perform (.static σ)) more s' = some (cwPackSetCompatibility b s')) := by
  obtain ⟨s', hrun, hkept⟩ := run_static hops (s := cwPackContextInit data n s) rfl
    (Nat.le_add_right data n)
  have hroom : data + n - data = n := Nat.add_sub_cancel_left data n
  obtain ⟨hstart, hend, hcur, hmem, hcode⟩ := hkept
  have hcompat : (cwPackContextInit data n s).pc.beCompatible = false := rfl
  have hcur₀ : (cwPackContextInit data n s).pc.current = data := rfl
  have hend₀ : (cwPackContextInit data n s).pc.end_ = data + n := rfl
  have hmem₀ : (cwPackContextInit data n s).mem = s.mem := rfl
  rw [hcompat, hcur₀, hend₀, hroom] at hcur hmem hcode
  rw [hmem₀] at hmem
  have hfit := concat_fitting_le n (encodings false ops)
  have hstart' : s'.pc.start = data := hstart
  have hend' : s'.pc.end_ = data + n := hend
  have hlen : s'.pc.current - data =
      (concat ((encodings false ops).take (fitting n (encodings false ops)))).length := by omega
  refine ⟨s', hrun, hstart', hend', by omega, by omega, ?_, ?_, ?_, ?_, ?_⟩
  · rw [hlen, hmem, Memory.bytes_write_self]
  · intro a ha
    rw [hmem]
    rcases ha with ha | ha
    · exact Memory.write_of_lt _ _ ha
    · exact Memory.write_of_ge _ (by omega)
  · have hle := fitting_le n (encodings false ops)
    rw [hcode]
    cases hget : (encodings false ops)[fitting n (encodings false ops)]? with
    | none =>
        have hge := List.getElem?_eq_none_iff.mp hget
        exact ⟨fun _ => by omega, fun _ => rfl⟩
    | some enc =>
        obtain ⟨hlt, rfl⟩ := List.getElem?_eq_some_iff.mp hget
        have hne := stopCode_ne_zero (List.getElem_mem hlt)
        exact ⟨fun h => absurd h hne, fun h => by omega⟩
  · intro enc hget
    rw [hcode, hget]
  · intro hne more hmore
    exact run_of_stopped (.static σ) hmore hne

/-- A context before its initialisation. -/
def blankPack : PackState Unit := ⟨⟨0, 0, 0, false, 0, 0⟩, fun _ => 0, ()⟩

theorem static_run_stops_at_overflow :
    ∃ s', run (PackOp.perform (.static Unit)) [.call .nil, .call (.unsigned 300), .call .nil]
        (cwPackContextInit 0 2 blankPack) = some s' ∧
      s'.pc.returnCode = cwpRcBufferOverflow ∧ s'.mem.bytes 0 (s'.pc.current - 0) = [0xc0] := by
  have hops : ∀ op ∈ [.call .nil, .call (.unsigned 300), .call .nil], PackOp.IsCall op := by
    simp [PackOp.IsCall]
  obtain ⟨s', hrun, -, -, -, -, hbytes, -, -, hstop, -⟩ :=
    static_run_keeps_fitting_prefix hops 0 2 blankPack
  exact ⟨s', hrun, hstop (.ok [0xcd, 0x01, 0x2c]) rfl, hbytes⟩

end CWPack.Core
