/-
  Goodies/DynamicMemory.lean --- the dynamic memory pack context of
  `src/goodies/basic-contexts/basic_contexts.c`.

  The overflow handler reallocates the buffer and rebases the three pointers.  The
  buffer from its start to the cursor is always the log, so a run of legal calls
  ends with the encodings of all of them in one block.
-/
import CWPack.Core.Sink
import CWPack.Goodies.Buffer

set_option autoImplicit false

namespace CWPack.Goodies

open CWPack.Foundation
open CWPack.Core

variable {σ τ : Type}

/-! ## The context -/

/-- `dynamic_memory_pack_context` adds no field; the heap counts its requests. -/
structure DynamicMemoryPackEnv where
  requests : Nat
  deriving DecidableEq, Repr

/-- `handle_memory_pack_overflow`.  `realloc` copies what both blocks have room for. -/
def handleMemoryPackOverflow (w : Nat) (realloc : Allocator) :
    PackOverflowHandler DynamicMemoryPackEnv := fun s more =>
  let contains := ulongDiff w s.pc.current s.pc.start
  let totLen := (contains + more) % 2 ^ w
  match growBuffer w totLen (ulongDiff w s.pc.end_ s.pc.start) with
  | none => none
  | some bufferLength =>
      let asked := { s with env.requests := s.env.requests + 1 }
      match realloc s.env.requests bufferLength with
      | none => some (cwpRcBufferOverflow, asked)
      | some newBuffer =>
          let kept := min (s.pc.end_ - s.pc.start) bufferLength
          let moved := { asked with mem := s.mem.move newBuffer s.pc.start kept }
          some (cwpRcOk,
            setBuffer moved newBuffer (newBuffer + contains) (newBuffer + bufferLength))

/-- The handlers of the context. -/
def dynamicMemoryPackHandlers (w : Nat) (realloc : Allocator) :
    PackHandlers DynamicMemoryPackEnv := ⟨some (handleMemoryPackOverflow w realloc), none⟩

/-- `init_dynamic_memory_pack_context` -/
def initDynamicMemoryPackContext (malloc : Allocator) (initialBufferLength : Nat)
    (s : PackState DynamicMemoryPackEnv) : PackState DynamicMemoryPackEnv :=
  let bufferLength := if initialBufferLength > 0 then initialBufferLength else 1024
  let asked := { s with env.requests := s.env.requests + 1 }
  match malloc s.env.requests bufferLength with
  | none => asked.setReturnCode cwpRcMallocError
  | some buffer => cwPackContextInit buffer bufferLength asked

/-! ## The invariant -/

/-- The buffer holds the log, from its start to the cursor. -/
structure DynamicLog (log : List UInt8) (s : PackState DynamicMemoryPackEnv) : Prop where
  returnCode : s.pc.returnCode = 0
  nonempty : s.pc.start < s.pc.end_
  length_lt : s.pc.end_ - s.pc.start < 2 ^ 64
  current : s.pc.current = s.pc.start + log.length
  le : s.pc.current ≤ s.pc.end_
  bytes : s.mem.bytes s.pc.start log.length = log

/-- Nothing outside the buffer has changed. -/
def WritesInside (s s' : PackState σ) : Prop :=
  ∀ a, a < s'.pc.start ∨ s'.pc.end_ ≤ a → s'.mem a = s.mem a

/-- Where the log fits, appending to it writes inside the buffer. -/
theorem DynamicLog.append {log bs : List UInt8} {s : PackState DynamicMemoryPackEnv}
    (h : DynamicLog log s) (hfit : s.pc.current + bs.length ≤ s.pc.end_) :
    DynamicLog (log ++ bs) (s.append bs) ∧ WritesInside s (s.append bs) := by
  have hcur := h.current
  have hlen : (log ++ bs).length = log.length + bs.length := List.length_append
  refine ⟨⟨h.returnCode, h.nonempty, h.length_lt, ?_, hfit, ?_⟩, ?_⟩
  · show s.pc.current + bs.length = s.pc.start + (log ++ bs).length
    omega
  · show (s.mem.write s.pc.current bs).bytes s.pc.start (log ++ bs).length = log ++ bs
    have hwrite := s.mem.bytes_write_append bs (q := s.pc.start) (p := s.pc.current) (by omega)
    have hall : s.pc.current + bs.length - s.pc.start = (log ++ bs).length := by omega
    have hold : s.pc.current - s.pc.start = log.length := by omega
    rw [hall, hold, h.bytes] at hwrite
    exact hwrite
  · intro a ha
    show s.mem.write s.pc.current bs a = s.mem a
    rcases ha with ha | ha
    · have hlo : a < s.pc.start := ha
      exact s.mem.write_of_lt bs (by omega)
    · have hhi : s.pc.end_ ≤ a := ha
      exact s.mem.write_of_ge (by omega)

section Overflow

variable {realloc : Allocator}

/-- The handler moves the log to a block with room for what is asked. -/
theorem handleMemoryPackOverflow_spec (hheap : ∀ i n, (realloc i n).isSome) {log : List UInt8}
    {s : PackState DynamicMemoryPackEnv} (more : Nat) (h : DynamicLog log s)
    (hmore : log.length + more < 2 ^ 62) :
    ∃ s', handleMemoryPackOverflow 64 realloc s more = some (cwpRcOk, s') ∧
      DynamicLog log s' ∧ WritesInside s s' ∧ s'.pc.beCompatible = s.pc.beCompatible ∧
      s'.pc.current + more ≤ s'.pc.end_ := by
  have hcur := h.current
  have hnonempty := h.nonempty
  have hle := h.le
  have hltend := h.length_lt
  have hcontains : ulongDiff 64 s.pc.current s.pc.start = log.length := by
    rw [ulongDiff_of_le (by omega) (by omega)]
    omega
  have hlength : ulongDiff 64 s.pc.end_ s.pc.start = s.pc.end_ - s.pc.start :=
    ulongDiff_of_le (by omega) hltend
  have htot : (log.length + more) % 2 ^ 64 = log.length + more := Nat.mod_eq_of_lt (by omega)
  obtain ⟨n, hgrow, hn, hgrown, hltn⟩ := growBuffer_spec 64 (log.length + more)
    (s.pc.end_ - s.pc.start) (by omega) (by omega) hltend
  obtain ⟨p, hp⟩ := Option.isSome_iff_exists.mp (hheap s.env.requests n)
  have hkept : min (s.pc.end_ - s.pc.start) n = s.pc.end_ - s.pc.start := Nat.min_eq_left hgrown
  let moved : PackState DynamicMemoryPackEnv :=
    { s with
      env.requests := s.env.requests + 1
      mem := s.mem.move p s.pc.start (min (s.pc.end_ - s.pc.start) n) }
  have hcall : handleMemoryPackOverflow 64 realloc s more =
      some (cwpRcOk, setBuffer moved p (p + log.length) (p + n)) := by
    simp only [handleMemoryPackOverflow, hcontains, htot, hlength, hgrow, hp, moved]
  refine ⟨setBuffer moved p (p + log.length) (p + n), hcall,
    ⟨h.returnCode, ?_, ?_, rfl, ?_, ?_⟩, ?_, rfl, ?_⟩
  · show p < p + n
    omega
  · show p + n - p < 2 ^ 64
    omega
  · show p + log.length ≤ p + n
    omega
  · show (s.mem.move p s.pc.start (min (s.pc.end_ - s.pc.start) n)).bytes p log.length = log
    rw [hkept, s.mem.bytes_move_of_le p s.pc.start (by omega), h.bytes]
  · intro a ha
    show s.mem.move p s.pc.start (min (s.pc.end_ - s.pc.start) n) a = s.mem a
    rw [hkept]
    rcases ha with ha | ha
    · exact s.mem.move_of_lt _ _ ha
    · have hhi : p + n ≤ a := ha
      exact s.mem.move_of_ge (by omega)
  · show p + log.length + more ≤ p + n
    omega

theorem WritesInside.append {s s' : PackState σ} {bs : List UInt8} (h : WritesInside s s')
    (h' : WritesInside s' (s'.append bs)) : WritesInside s (s'.append bs) :=
  fun a ha => (h' a ha).trans (h a ha)

/-- As long as the log stays below `2 ^ 62` bytes, the context does not fail. -/
theorem dynamic_sinks (hheap : ∀ i n, (realloc i n).isSome) :
    Sinks (dynamicMemoryPackHandlers 64 realloc) False (2 ^ 62 - 1) DynamicLog
      (fun _ _ => False) WritesInside where
  running := fun h => ⟨h.returnCode, h.le⟩
  mode := fun h =>
    ⟨⟨h.returnCode, h.nonempty, h.length_lt, h.current, h.le, h.bytes⟩, fun _ _ => rfl⟩
  emits := by
    intro log s bs h hlt hlimit
    refine emit_rule hlt (fun hfit => ?_) (fun _ => ?_)
    · obtain ⟨happend, hwrites⟩ := h.append hfit
      exact ⟨rfl, hwrites, Or.inl happend⟩
    · obtain ⟨s', hcall, hlog, hwrites, hmode, hroom⟩ :=
        handleMemoryPackOverflow_spec hheap bs.length h (by omega)
      obtain ⟨happend, hwrites'⟩ := hlog.append hroom
      show Ends _ _ (handleMemoryPackOverflow 64 realloc s bs.length)
      rw [hcall, ends_some, if_pos rfl]
      exact ⟨hmode, hwrites.append hwrites', Or.inl happend⟩

/-- A fresh context holds nothing. -/
theorem dynamicLog_init (hheap : ∀ i n, (realloc i n).isSome) {initialBufferLength : Nat}
    (hlt : initialBufferLength < 2 ^ 64) (s : PackState DynamicMemoryPackEnv) :
    DynamicLog [] (initDynamicMemoryPackContext realloc initialBufferLength s) ∧
      (initDynamicMemoryPackContext realloc initialBufferLength s).pc.beCompatible = false := by
  unfold initDynamicMemoryPackContext
  have hpos := initialLength_bounds 1024 (by decide) hlt
  obtain ⟨p, hp⟩ := Option.isSome_iff_exists.mp (hheap s.env.requests
    (if initialBufferLength > 0 then initialBufferLength else 1024))
  simp only [hp]
  refine ⟨⟨rfl, ?_, ?_, rfl, Nat.le_add_right _ _, rfl⟩, rfl⟩
  · exact Nat.lt_add_of_pos_right hpos.1
  · show p + _ - p < 2 ^ 64
    rw [Nat.add_sub_cancel_left]
    exact hpos.2

end Overflow

/-! ## Runs -/

/-- Dynamic memory packing never fails and loses nothing. -/
theorem dynamic_memory_holds_every_encoding (realloc : Allocator)
    (hheap : ∀ i n, (realloc i n).isSome) (initialBufferLength : Nat)
    (hinit : initialBufferLength < 2 ^ 64) {ops : List PackOp} (hshort : ∀ op ∈ ops, op.Short)
    (hlegal : Legal false ops) (htotal : (concat (encodings false ops)).length < 2 ^ 62)
    (s : PackState DynamicMemoryPackEnv) :
    let H := dynamicMemoryPackHandlers 64 realloc
    let s₀ := initDynamicMemoryPackContext realloc initialBufferLength s
    (∀ first rest, ops = first ++ rest → ∃ s₁, run (PackOp.perform H) first s₀ = some s₁ ∧
      s₁.pc.returnCode = cwpRcOk ∧ s₁.pc.start ≤ s₁.pc.current ∧ s₁.pc.current ≤ s₁.pc.end_ ∧
      s₁.mem.bytes s₁.pc.start (s₁.pc.current - s₁.pc.start) = concat (encodings false first)) ∧
    (∀ first op rest, ops = first ++ op :: rest → ∃ s₁ s₂,
      run (PackOp.perform H) first s₀ = some s₁ ∧ op.perform H s₁ = some s₂ ∧
      WritesInside s₁ s₂) ∧
    (∀ (data n : Nat) (t : PackState τ), (concat (encodings false ops)).length ≤ n →
      ∃ t₁ s₁, run (PackOp.perform (.static τ)) ops (cwPackContextInit data n t) = some t₁ ∧
        run (PackOp.perform H) ops s₀ = some s₁ ∧ t₁.pc.returnCode = cwpRcOk ∧
        t₁.mem.bytes t₁.pc.start (t₁.pc.current - t₁.pc.start) =
          s₁.mem.bytes s₁.pc.start (s₁.pc.current - s₁.pc.start)) := by
  intro H s₀
  have S := dynamic_sinks hheap
  obtain ⟨hlog₀, hcompat₀⟩ := dynamicLog_init hheap hinit s
  have hpart : ∀ first rest, ops = first ++ rest → ∃ s₁,
      run (PackOp.perform H) first s₀ = some s₁ ∧
      DynamicLog (concat (encodings false first)) s₁ ∧
      s₁.pc.beCompatible = first.foldl PackOp.mode false := by
    intro first rest hops
    subst hops
    have hlen := concat_encodings_append_length_le false first rest
    have hrun := S.run first (fun op hop => hshort op (List.mem_append_left _ hop)) hlog₀
      (by rw [hcompat₀]; exact legal_of_append hlegal)
      (by rw [hcompat₀, List.length_nil]; omega)
    rw [hcompat₀] at hrun
    obtain ⟨s₁, hcall, hlog, hmode⟩ := hrun.exists_of_not_stuck
    exact ⟨s₁, hcall, hlog, hmode⟩
  have hbytes : ∀ {log : List UInt8} {s₁ : PackState DynamicMemoryPackEnv}, DynamicLog log s₁ →
      s₁.mem.bytes s₁.pc.start (s₁.pc.current - s₁.pc.start) = log := by
    intro log s₁ h
    rw [h.current, Nat.add_sub_cancel_left, h.bytes]
  refine ⟨?_, ?_, ?_⟩
  · intro first rest hops
    obtain ⟨s₁, hcall, hlog, -⟩ := hpart first rest hops
    refine ⟨s₁, hcall, hlog.returnCode, ?_, hlog.le, hbytes hlog⟩
    rw [hlog.current]
    exact Nat.le_add_right _ _
  · intro first op rest hops
    obtain ⟨s₁, hcall, hlog, hmode⟩ := hpart first (op :: rest) hops
    -- the operation adds what the legal run has for it
    have hone : ops = (first ++ [op]) ++ rest := by rw [hops, List.append_assoc]; rfl
    have hlen := concat_encodings_append_length_le false (first ++ [op]) rest
    rw [← hone, encodings_append, concat_append, List.length_append, ← hmode] at hlen
    have hop : Legal s₁.pc.beCompatible [op] := by
      intro enc henc
      refine hlegal enc ?_
      rw [hone, encodings_append, encodings_append, ← hmode]
      exact List.mem_append_left _ (List.mem_append_right _ henc)
    obtain ⟨bs, henc, -, hconcat⟩ := legal_cons hop
    rw [hconcat, List.length_append] at hlen
    have hstep := S.perform (hshort op (by rw [hops]; simp)) hlog fun bs' hbs' => by
      rw [henc] at hbs'
      obtain rfl := Except.ok.inj hbs'
      omega
    obtain ⟨s₂, hcall₂, -, hcase⟩ := hstep.exists_of_not_stuck
    rw [henc] at hcase
    exact ⟨s₁, s₂, hcall, hcall₂, hcase.1⟩
  · intro data n t hn
    obtain ⟨s₁, hcall, hlog, -⟩ := hpart ops [] (List.append_nil ops).symm
    have hstatic₀ : StaticLog data n [] (cwPackContextInit data n t) :=
      ⟨rfl, rfl, rfl, rfl, Nat.zero_le n, rfl⟩
    have hrun := (static_sinks (σ := τ) data n).run ops hshort hstatic₀ hlegal (by
      rw [List.length_nil, Nat.zero_add]
      exact hn)
    obtain ⟨t₁, hcallt, hstatic, -⟩ := hrun.exists_of_not_stuck
    refine ⟨t₁, s₁, hcallt, hcall, hstatic.returnCode, ?_⟩
    rw [hbytes hlog, hstatic.start, hstatic.current, Nat.add_sub_cancel_left, hstatic.bytes]
    rfl

/-- A context before its initialisation. -/
def blankDynamic : PackState DynamicMemoryPackEnv :=
  ⟨⟨0, 0, 0, false, 0, 0⟩, fun _ => 0, ⟨0⟩⟩

/-- Two calls in a buffer of one byte. -/
theorem dynamic_memory_holds_two_encodings :
    let H := dynamicMemoryPackHandlers 64 (fixedHeap 100)
    ∃ s₁, run (PackOp.perform H) [.call .nil, .call (.unsigned 300)]
        (initDynamicMemoryPackContext (fixedHeap 100) 1 blankDynamic) = some s₁ ∧
      s₁.pc.returnCode = cwpRcOk ∧
      s₁.mem.bytes s₁.pc.start (s₁.pc.current - s₁.pc.start) = [0xc0, 0xcd, 0x01, 0x2c] := by
  intro H
  have hshort : ∀ op ∈ [PackOp.call .nil, .call (.unsigned 300)], op.Short := by
    simp [PackOp.Short, PackCall.payload]
  have hlegal : Legal false [.call .nil, .call (.unsigned 300)] := by
    simp [Legal, encodings, PackCall.encoding, PackCall.refusal]
  have hmain := dynamic_memory_holds_every_encoding (τ := Unit) (fixedHeap 100)
    (fun _ _ => rfl) 1 (by decide) hshort hlegal (by decide) blankDynamic
  obtain ⟨s₁, hrun, hrc, -, -, hbytes⟩ := hmain.1 _ [] (List.append_nil _).symm
  exact ⟨s₁, hrun, hrc, hbytes⟩

end CWPack.Goodies
