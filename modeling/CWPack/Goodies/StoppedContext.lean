/-
  Goodies/StoppedContext.lean --- what the library does to a context that has stopped.

  The README promises that a stopped context returns every call at once without any
  action.  A guard at the top of each routine keeps the promise, except in
  `cw_pack_insert`, which has none.  The promise is therefore kept by exactly the
  calls that are not insertions, and by the insertions that happen to change nothing.
-/
import CWPack.Core.Reader
import CWPack.Core.StaticPack
import CWPack.Goodies.DynamicMemory
import CWPack.Goodies.FilePack
import CWPack.Goodies.NumericExtensions
import CWPack.Goodies.StreamPack
import CWPack.Goodies.Utils

set_option autoImplicit false

namespace CWPack.Goodies

open CWPack.Foundation
open CWPack.Core

variable {σ ρ : Type}

/-! ## The calls -/

/-- The routines on a pack context that pack, insert or flush. -/
inductive PackRoutine where
  | call (c : PackCall)
  | insert (v : Blob)
  | flush
  | extInteger (type : Int8) (i : Int64)
  | extFloat (type : Int8) (f : UInt32)
  | extDouble (type : Int8) (d : UInt64)
  | doubleOpt (d : UInt64)
  | floatOpt (f : UInt32)
  | timeInterval (ti : UInt64)

/-- Perform a call. -/
def PackRoutine.perform (F : FloatUnit) (H : PackHandlers σ) :
    PackRoutine → PackState σ → Option (PackState σ)
  | .call c => cwPack H c
  | .insert v => cwPackInsert H v
  | .flush => cwPackFlush H
  | .extInteger type i => cwPackExtInteger H type i
  | .extFloat type f => cwPackExtFloat H type f
  | .extDouble type d => cwPackExtDouble H type d
  | .doubleOpt d => cwPackDoubleOpt F H d
  | .floatOpt f => cwPackFloatOpt F H f
  | .timeInterval ti => cwPackTimeInterval F H ti

/-- The routines on an unpack context that unpack, skip, look ahead, expect an item of a
kind, or read a number from an extension item. -/
inductive UnpackRoutine where
  | next
  | skipItems (itemCount : Int64)
  | lookAhead
  | nextFloat
  | nextDouble
  | nextNil
  | nextBoolean
  | nextSigned64
  | nextSigned32
  | nextSigned16
  | nextSigned8
  | nextUnsigned64
  | nextUnsigned32
  | nextUnsigned16
  | nextUnsigned8
  | nextTimeInterval
  | nextStrLengh
  | nextBinLengh
  | nextArraySize
  | nextMapSize
  | extInteger
  | extFloat
  | extDouble
  deriving DecidableEq

/-- What a routine returns. -/
inductive Answer where
  | void
  | type (t : ItemType)
  | boolean (b : Bool)
  | integer (v : Int)
  | float (bits : UInt32)
  | double (bits : UInt64)
  deriving DecidableEq

/-- Wrap the value a routine returns. -/
def returning (f : ρ → Answer) (r : Option (ρ × UnpackState σ)) :
    Option (Answer × UnpackState σ) :=
  r.map fun a => (f a.1, a.2)

/-- Perform a call; `fuel` bounds the turns of a skipping loop. -/
def UnpackRoutine.perform (F : FloatUnit) (fuel : Nat) (H : Option (UnpackUnderflowHandler σ))
    (routine : UnpackRoutine) (s : UnpackState σ) : Option (Answer × UnpackState σ) :=
  match routine with
  | .next => (cwUnpackNext H s).map (Answer.void, ·)
  | .skipItems itemCount => (cwSkipItems fuel H itemCount s).map (Answer.void, ·)
  | .lookAhead => returning .type (cwLookAhead H s)
  | .nextFloat => returning .float (cwUnpackNextFloat F H s)
  | .nextDouble => returning .double (cwUnpackNextDouble F H s)
  | .nextNil => returning (fun _ => .void) (cwUnpackNextNil H s)
  | .nextBoolean => returning .boolean (cwUnpackNextBoolean H s)
  | .nextSigned64 => returning .integer (cwUnpackNextSigned64 H s)
  | .nextSigned32 => returning .integer (cwUnpackNextSigned32 H s)
  | .nextSigned16 => returning .integer (cwUnpackNextSigned16 H s)
  | .nextSigned8 => returning .integer (cwUnpackNextSigned8 H s)
  | .nextUnsigned64 => returning .integer (cwUnpackNextUnsigned64 H s)
  | .nextUnsigned32 => returning .integer (cwUnpackNextUnsigned32 H s)
  | .nextUnsigned16 => returning .integer (cwUnpackNextUnsigned16 H s)
  | .nextUnsigned8 => returning .integer (cwUnpackNextUnsigned8 H s)
  | .nextTimeInterval => returning .double (cwUnpackNextTimeInterval F H s)
  | .nextStrLengh => returning .integer (cwUnpackNextStrLengh H s)
  | .nextBinLengh => returning .integer (cwUnpackNextBinLengh H s)
  | .nextArraySize => returning .integer (cwUnpackNextArraySize H s)
  | .nextMapSize => returning .integer (cwUnpackNextMapSize H s)
  | .extInteger => returning .integer (some (getExtInteger s))
  | .extFloat => returning .float (some (getExtFloat s))
  | .extDouble => returning .double (some (getExtDouble s))

/-- What a routine returns from a stopped context. -/
def UnpackRoutine.refusal : UnpackRoutine → Answer
  | .next | .skipItems _ | .nextNil => .void
  | .lookAhead => .type .notAnItem
  | .nextBoolean => .boolean false
  | .nextFloat | .extFloat => .float 0
  | .nextDouble | .nextTimeInterval | .extDouble => .double 0
  | _ => .integer 0

/-! ## Guarded calls -/

section Stopped

variable {H : PackHandlers σ} {handler : Option (UnpackUnderflowHandler σ)}

/-- An expecting routine returns at once. -/
theorem expectNext_of_stopped (zero : ρ) (k : UnpackState σ → ρ × UnpackState σ)
    {s : UnpackState σ} (hrc : s.uc.returnCode ≠ 0) :
    expectNext handler zero k s = some (zero, s) := by
  have hnext : cwUnpackNext handler s = some s := if_pos hrc
  simp only [expectNext, hnext, if_pos hrc]

/-- Every routine on a stopped unpack context returns at once and changes nothing. -/
theorem UnpackRoutine.perform_of_stopped (F : FloatUnit) (fuel : Nat) {s : UnpackState σ}
    (hrc : s.uc.returnCode ≠ 0) (routine : UnpackRoutine) :
    routine.perform F fuel handler s = some (routine.refusal, s) := by
  cases routine with
  | next =>
      have hcall : cwUnpackNext handler s = some s := if_pos hrc
      exact congrArg (Option.map (Answer.void, ·)) hcall
  | skipItems n =>
      have hcall : cwSkipItems fuel handler n s = some s := if_pos hrc
      exact congrArg (Option.map (Answer.void, ·)) hcall
  | lookAhead =>
      have hcall : cwLookAhead handler s = some (.notAnItem, s) := if_pos hrc
      exact congrArg (returning .type) hcall
  | extInteger =>
      have hcall : getExtInteger s = (0, s) := if_pos hrc
      exact congrArg (fun a => returning .integer (some a)) hcall
  | extFloat =>
      have hcall : getExtFloat s = (0, s) := if_pos hrc
      exact congrArg (fun a => returning .float (some a)) hcall
  | extDouble =>
      have hcall : getExtDouble s = (0, s) := if_pos hrc
      exact congrArg (fun a => returning .double (some a)) hcall
  | nextNil => exact congrArg (returning fun _ => .void) (expectNext_of_stopped () _ hrc)
  | _ => exact congrArg (returning _) (expectNext_of_stopped _ _ hrc)

/-- Every routine on a stopped pack context, other than an insertion, changes nothing. -/
theorem PackRoutine.perform_of_stopped (F : FloatUnit) {s : PackState σ}
    (hrc : s.pc.returnCode ≠ 0) {routine : PackRoutine} (hguard : ∀ v, routine ≠ .insert v) :
    routine.perform F H s = some s := by
  cases routine with
  | call c => exact cwPack_of_stopped H c hrc
  | insert v => exact absurd rfl (hguard v)
  | flush => exact if_neg hrc
  | extInteger type i => exact if_pos hrc
  | extFloat type f => exact if_pos hrc
  | extDouble type d => exact if_pos hrc
  | doubleOpt d =>
      obtain ⟨c, hc⟩ := cwPackDoubleOpt_eq_call F H d
      simp only [perform, hc]
      exact cwPack_of_stopped H c hrc
  | floatOpt f =>
      obtain ⟨c, hc⟩ := cwPackFloatOpt_eq_call F H f
      simp only [perform, hc]
      exact cwPack_of_stopped H c hrc
  | timeInterval ti =>
      obtain ⟨c, hc⟩ := cwPackTimeInterval_eq_call F H ti
      simp only [perform, hc]
      exact cwPack_of_stopped H c hrc

end Stopped

/-! ## Insertions -/

/-- The context and all it can reach are as before up to the return code, and the code the
handler fails with is the one the context has stopped with. -/
def FailsAgain (rc : Int) (s s' : PackState σ) : Prop :=
  rc = s.pc.returnCode ∧ s'.setReturnCode s.pc.returnCode = s

/-- The handler has stepped the cursor back over just the bytes the insertion is going to
write again, and changed nothing else. -/
def StepsBack (bs : List UInt8) (s s' : PackState σ) : Prop :=
  s'.pc.current + bs.length = s.pc.current ∧ s'.setCurrent s.pc.current = { s with mem := s'.mem } ∧
    s'.mem.write s'.pc.current bs = s.mem

/-- When a call on a stopped context changes nothing.  A call that is not an insertion
always does.  An insertion does where it is empty and there is room for nothing; where it
finds neither room nor a handler and the context has stopped for just that; or where the
handler, in its turn, undoes what the insertion does. -/
def PackRoutine.Idle (H : PackHandlers σ) (s : PackState σ) : PackRoutine → Prop
  | .insert v =>
      if s.pc.current + v.length ≤ s.pc.end_ then v.length = 0
      else match H.handlePackOverflow with
        | none => s.pc.returnCode = cwpRcBufferOverflow
        | some handler =>
            match handler s v.length with
            | none => False
            | some (rc, s') => if rc ≠ 0 then FailsAgain rc s s' else StepsBack v.bytes s s'
  | _ => True

theorem setReturnCode_eq_self_iff {s : PackState σ} {rc : Int} :
    s.setReturnCode rc = s ↔ s.pc.returnCode = rc := by
  constructor
  · intro h
    rw [← h]
    rfl
  · rintro rfl
    rfl

theorem failsAgain_iff {rc : Int} {s s' : PackState σ} :
    s'.setReturnCode rc = s ↔ FailsAgain rc s s' := by
  constructor
  · intro h
    have hrc : rc = s.pc.returnCode := congrArg (fun t => t.pc.returnCode) h
    exact ⟨hrc, hrc ▸ h⟩
  · intro h
    rw [h.1]
    exact h.2

theorem stepsBack_iff {bs : List UInt8} {s s' : PackState σ} :
    (s'.setCurrent (s'.pc.current + bs.length)).store s'.pc.current bs = s ↔
      StepsBack bs s s' := by
  constructor
  · intro h
    have hcur : s'.pc.current + bs.length = s.pc.current := congrArg (fun t => t.pc.current) h
    have hmem : s'.mem.write s'.pc.current bs = s.mem := congrArg PackState.mem h
    refine ⟨hcur, ?_, hmem⟩
    rw [hcur] at h
    exact congrArg (fun t => { t with mem := s'.mem }) h
  · rintro ⟨hcur, hrest, hmem⟩
    rw [hcur]
    show { s'.setCurrent s.pc.current with mem := s'.mem.write s'.pc.current bs } = s
    rw [hrest, hmem]

/-- The exact condition for an insertion. -/
theorem cwPackInsert_eq_self_iff (H : PackHandlers σ) (v : Blob) (s : PackState σ) :
    cwPackInsert H v s = some s ↔ PackRoutine.Idle H s (.insert v) := by
  have hmore : v.bytes.length % 2 ^ 32 = v.length := Nat.mod_eq_of_lt v.length_lt
  rw [cwPackInsert_eq_emit]
  by_cases hroom : s.pc.current + v.length ≤ s.pc.end_
  · simp only [PackRoutine.Idle, if_pos hroom]
    rw [emit_of_le H hroom, Option.some.injEq]
    constructor
    · intro h
      have hcur : s.pc.current + v.length = s.pc.current :=
        congrArg (fun t => t.pc.current) h
      omega
    · intro h
      have hnil : v.bytes = [] := List.length_eq_zero_iff.mp h
      rw [hnil]
      show ({ s with mem := s.mem.write s.pc.current [] } : PackState σ) = s
      rw [Memory.write_nil]
  · simp only [PackRoutine.Idle, if_neg hroom]
    rw [emit_of_gt H (by show s.pc.end_ < s.pc.current + v.length; omega), hmore, cwPackNewBuffer]
    cases H.handlePackOverflow with
    | none => exact (Option.some.injEq _ _).to_iff.trans setReturnCode_eq_self_iff
    | some handler =>
        cases hcall : handler s v.length with
        | none => simp [hcall]
        | some r =>
            obtain ⟨rc, s'⟩ := r
            simp only [hcall]
            by_cases hrc : rc ≠ 0
            · simp only [if_pos hrc, packError, Option.some.injEq]
              exact failsAgain_iff
            · simp only [if_neg hrc, Option.some.injEq]
              exact stepsBack_iff

/-! ## Runs -/

/-- A call leaves a stopped context as it is exactly when it is idle. -/
theorem PackRoutine.perform_eq_self_iff (F : FloatUnit) (H : PackHandlers σ) {s : PackState σ}
    (hrc : s.pc.returnCode ≠ 0) (routine : PackRoutine) :
    routine.perform F H s = some s ↔ routine.Idle H s := by
  cases routine with
  | insert v => exact cwPackInsert_eq_self_iff H v s
  | _ =>
      refine ⟨fun _ => trivial, fun _ => perform_of_stopped F hrc ?_⟩
      intro v h
      exact PackRoutine.noConfusion h

/-- A stopped context stays as it is in exactly the runs whose calls are idle there; an
unpack context always does. -/
theorem stopped_context_unchanged_iff (F : FloatUnit) (fuel : Nat) (H : PackHandlers σ)
    (handler : Option (UnpackUnderflowHandler σ)) :
    (∀ s : PackState σ, s.pc.returnCode ≠ 0 → ∀ routine : PackRoutine,
      routine.perform F H s = some s ↔ routine.Idle H s) ∧
    (∀ s : UnpackState σ, s.uc.returnCode ≠ 0 → ∀ routine : UnpackRoutine,
      routine.perform F fuel handler s = some (routine.refusal, s)) ∧
    (∀ (first rest : List PackRoutine) (s₀ s : PackState σ),
      run (PackRoutine.perform F H) first s₀ = some s → s.pc.returnCode ≠ 0 →
      ((∀ n, run (PackRoutine.perform F H) (first ++ rest.take n) s₀ = some s) ↔
        ∀ routine ∈ rest, routine.Idle H s)) ∧
    (∀ (first rest : List UnpackRoutine) (s₀ s : UnpackState σ) (answers : List Answer),
      trace (UnpackRoutine.perform F fuel handler) first s₀ = some (answers, s) →
      s.uc.returnCode ≠ 0 →
      trace (UnpackRoutine.perform F fuel handler) (first ++ rest) s₀ =
        some (answers ++ rest.map UnpackRoutine.refusal, s)) := by
  refine ⟨fun s hrc => PackRoutine.perform_eq_self_iff F H hrc,
    fun s hrc => UnpackRoutine.perform_of_stopped F fuel hrc, ?_, ?_⟩
  · intro first rest s₀ s hfirst hrc
    have hsplit : ∀ n, run (PackRoutine.perform F H) (first ++ rest.take n) s₀ =
        run (PackRoutine.perform F H) (rest.take n) s := fun n => by
      rw [run_append, hfirst, Option.bind_some]
    simp only [hsplit, run_take_eq_self_iff]
    exact forall₂_congr fun routine _ => PackRoutine.perform_eq_self_iff F H hrc routine
  · intro first rest s₀ s answers hfirst hrc
    rw [trace_append, hfirst, Option.bind_some,
      trace_of_fixed (UnpackRoutine.perform_of_stopped F fuel hrc) rest]
    rfl

/-- A static context that a flush without a handler has stopped. -/
def flushedPack : PackState Unit := (cwPackContextInit 0 4 blankPack).setReturnCode cwpRcIllegalCall

/-- An empty unpack context. -/
def emptyUnpack : UnpackState Unit := ⟨⟨⟨.notAnItem, .u64 0⟩, 0, 0, 0, 0, 0⟩, fun _ => 0, ()⟩

theorem stopped_context_unchanged_after_flush :
    (PackRoutine.call .nil).perform .native (.static Unit) flushedPack = some flushedPack ∧
    UnpackRoutine.nextSigned32.perform .native 1 none
        (emptyUnpack.setReturnCode cwpRcEndOfInput) =
      some (.integer 0, emptyUnpack.setReturnCode cwpRcEndOfInput) ∧
    run (PackRoutine.perform .native (.static Unit))
        ([.flush] ++ [.call .nil, .insert ⟨[], by decide⟩, .extInteger 1 300])
        (cwPackContextInit 0 4 blankPack) = some flushedPack ∧
    trace (UnpackRoutine.perform .native 1 none) ([.next] ++ [.nextSigned32, .lookAhead])
        emptyUnpack =
      some ([.void, .integer 0, .type .notAnItem],
        emptyUnpack.setReturnCode cwpRcEndOfInput) := by
  obtain ⟨hpack, hunpack, hrun, htrace⟩ :=
    stopped_context_unchanged_iff .native 1 (.static Unit)
      (none : Option (UnpackUnderflowHandler Unit))
  refine ⟨(hpack flushedPack (by decide) _).mpr trivial, hunpack _ (by decide) _, ?_,
    htrace [.next] [.nextSigned32, .lookAhead] emptyUnpack _ [.void] rfl (by decide)⟩
  refine (hrun [.flush] [.call .nil, .insert ⟨[], by decide⟩, .extInteger 1 300] _ flushedPack rfl
    (by decide)).mpr ?_ 3
  intro routine hmem
  simp only [List.mem_cons, List.not_mem_nil, or_false] at hmem
  rcases hmem with rfl | rfl | rfl
  · exact trivial
  · have hroom : flushedPack.pc.current + 0 ≤ flushedPack.pc.end_ := by decide
    simp only [PackRoutine.Idle, Blob.length, List.length_nil, if_pos hroom]
  · exact trivial

/-- After the flush has failed, an insertion still writes and moves the cursor. -/
theorem insert_changes_stopped_context :
    run (PackRoutine.perform .native (.static Unit)) [.flush] (cwPackContextInit 0 4 blankPack) =
      some flushedPack ∧
    flushedPack.pc.returnCode = cwpRcIllegalCall ∧
    (∃ s, (PackRoutine.insert ⟨[0xc0], by decide⟩).perform .native (.static Unit) flushedPack =
        some s ∧
      s.pc.current = 1 ∧ s.mem 0 = 0xc0 ∧ flushedPack.pc.current = 0 ∧ flushedPack.mem 0 = 0) ∧
    ¬ ∀ (routine : PackRoutine) (s : PackState Unit), s.pc.returnCode ≠ 0 →
      routine.perform .native (.static Unit) s = some s := by
  refine ⟨rfl, rfl, ⟨_, rfl, rfl, rfl, rfl, rfl⟩, fun h => ?_⟩
  have hsame := h (.insert ⟨[0xc0], by decide⟩) flushedPack (by decide)
  have hcur : (1 : Nat) = 0 := congrArg (fun s => s.pc.current) (Option.some.inj hsame)
  exact absurd hcur (by decide)

/-! ## Checking at the end -/

/-- The overflow handler leaves the return code to the routine that has called it. -/
def KeepsReturnCode (H : PackHandlers σ) : Prop :=
  ∀ handler, H.handlePackOverflow = some handler → ∀ s more rc s',
    handler s more = some (rc, s') → s'.pc.returnCode = s.pc.returnCode

/-- A call never sets the return code of a stopped context back to OK, even where it is an
insertion. -/
theorem PackRoutine.perform_keeps_failure (F : FloatUnit) {H : PackHandlers σ}
    (hH : KeepsReturnCode H) (routine : PackRoutine) {s s' : PackState σ}
    (hrc : s.pc.returnCode ≠ 0) (h : routine.perform F H s = some s') : s'.pc.returnCode ≠ 0 := by
  cases routine with
  | insert v =>
      have hends : Ends True (fun t => t.pc.returnCode ≠ 0) (emit H v.bytes s) := by
        refine emit_rule v.length_lt (fun _ => hrc) fun _ => ?_
        cases hhandler : H.handlePackOverflow with
        | none => exact stopCode_ok_ne_zero v.bytes
        | some handler =>
            simp only
            cases hcall : handler s v.bytes.length with
            | none => exact trivial
            | some r =>
                have hkeep := hH handler hhandler _ _ _ _ hcall
                rw [ends_some]
                split
                · exact fun hzero => hrc (hkeep.symm.trans hzero)
                · next hne => exact hne
      exact hends.of_eq_some h
  | _ =>
      rw [perform_of_stopped F hrc (fun v heq => PackRoutine.noConfusion heq)] at h
      rw [← Option.some.inj h]
      exact hrc

/-- One check at the end of a run detects any failure before. -/
theorem run_keeps_failure (F : FloatUnit) {H : PackHandlers σ} (hH : KeepsReturnCode H)
    (rest : List PackRoutine) {s s' : PackState σ} (hrc : s.pc.returnCode ≠ 0)
    (h : run (PackRoutine.perform F H) rest s = some s') : s'.pc.returnCode ≠ 0 := by
  have hstep : ∀ (routine : PackRoutine) (t t' : PackState σ), True → t.pc.returnCode ≠ 0 →
      routine.perform F H t = some t' → t'.pc.returnCode ≠ 0 :=
    fun routine _ _ _ hinv => routine.perform_keeps_failure F hH hinv
  exact run_invariant hstep rest s s' (fun _ _ => trivial) hrc h

theorem static_keepsReturnCode : KeepsReturnCode (.static σ) := by
  intro handler h
  simp [PackHandlers.static] at h

theorem dynamicMemory_keepsReturnCode (w : Nat) (realloc : Allocator) :
    KeepsReturnCode (dynamicMemoryPackHandlers w realloc) := by
  intro handler h s more rc s' hcall
  obtain rfl := Option.some.inj h
  simp only [handleMemoryPackOverflow] at hcall
  repeat' split at hcall
  all_goals
    first
    | (obtain ⟨-, rfl⟩ := Prod.mk.inj (Option.some.inj hcall); rfl)
    | simp at hcall

theorem flushStreamPackContext_keepsReturnCode {w : Nat} {disk : FwriteResults} {rc : Int}
    {s s' : PackState StreamPackEnv} (h : flushStreamPackContext w disk s = some (rc, s')) :
    s'.pc.returnCode = s.pc.returnCode := by
  simp only [flushStreamPackContext] at h
  repeat' split at h
  all_goals
    obtain ⟨-, rfl⟩ := Prod.mk.inj (Option.some.inj h)
    rfl

theorem stream_keepsReturnCode (w : Nat) (malloc : Allocator) (disk : FwriteResults) :
    KeepsReturnCode (streamPackHandlers w malloc disk) := by
  intro handler h s more rc s' hcall
  obtain rfl := Option.some.inj h
  simp only [handleStreamPackOverflow] at hcall
  cases hflush : flushStreamPackContext w disk s with
  | none => simp [hflush] at hcall
  | some r =>
      obtain ⟨rc', mid⟩ := r
      rw [← flushStreamPackContext_keepsReturnCode hflush]
      simp only [hflush] at hcall
      repeat' split at hcall
      all_goals
        first
        | (obtain ⟨-, rfl⟩ := Prod.mk.inj (Option.some.inj hcall); rfl)
        | simp at hcall

theorem copyKept_returnCode (dst src kept : Nat) (s : PackState FilePackEnv) :
    (copyKept dst src kept s).pc.returnCode = s.pc.returnCode := by
  unfold copyKept
  split <;> rfl

theorem resumeAfter_returnCode (kept : Nat) (s : PackState FilePackEnv) :
    (resumeAfter kept s).pc.returnCode = s.pc.returnCode := by
  simp only [resumeAfter]
  split <;> rfl

theorem flushFilePackContext_keepsReturnCode {w : Nat} {results : WriteResults} {rc : Int}
    {s s' : PackState FilePackEnv} (h : flushFilePackContext w results s = some (rc, s')) :
    s'.pc.returnCode = s.pc.returnCode := by
  have hkeep : ∀ (bStart : Nat) (t : PackState FilePackEnv),
      (keepFromBarrier w bStart t).pc.returnCode = t.pc.returnCode := by
    intro bStart t
    simp only [keepFromBarrier]
    repeat' split
    all_goals rfl
  simp only [flushFilePackContext] at h
  repeat' split at h
  all_goals
    obtain ⟨-, rfl⟩ := Prod.mk.inj (Option.some.inj h)
    first
    | rfl
    | exact hkeep _ _

theorem file_keepsReturnCode (w : Nat) (malloc : Allocator) (results : WriteResults) :
    KeepsReturnCode (filePackHandlers w malloc results) := by
  intro handler h s more rc s' hcall
  obtain rfl := Option.some.inj h
  simp only [handleFilePackOverflow] at hcall
  cases hflush : flushFilePackContext w results s with
  | none => simp [hflush] at hcall
  | some r =>
      obtain ⟨rc', mid⟩ := r
      rw [← flushFilePackContext_keepsReturnCode hflush]
      simp only [hflush] at hcall
      repeat' split at hcall
      all_goals
        first
        | (obtain ⟨-, rfl⟩ := Prod.mk.inj (Option.some.inj hcall)
           first
           | rfl
           | exact (resumeAfter_returnCode _ _).trans (copyKept_returnCode _ _ _ _))
        | simp at hcall

end CWPack.Goodies
