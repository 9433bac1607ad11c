/-
  Goodies/FilePack.lean --- the file pack context of
  `src/goodies/basic-contexts/basic_contexts.c`.

  While a barrier is set, a flush writes what lies before it and keeps the rest in
  the buffer.  A descriptor may take less than it is given, or fail.

  `FileLog` places the buffer in the log of all bytes packed so far: the buffer,
  up to the cursor, is the part of the log from `base` on, and the barrier stands
  where it was set.  What the descriptor has accepted is the part before `base`
  as long as the context runs, and never more than the part before the barrier.
-/
import CWPack.Core.Sink
import CWPack.Goodies.Buffer

set_option autoImplicit false

namespace CWPack.Goodies

open CWPack.Foundation
open CWPack.Core

variable {σ : Type}

/-! ## Descriptors -/

/-- What the `i`-th call of `write`, with `n` bytes, comes to: how many bytes the
descriptor would take, or an error number. -/
abbrev WriteResults : Type := Nat → Nat → Except Int Nat

/-- A file descriptor open for writing. -/
structure OutputDescriptor where
  accepted : List UInt8
  writes : Nat
  errno : Int
  deriving DecidableEq, Repr

/-- A descriptor just opened. -/
def OutputDescriptor.opened : OutputDescriptor := ⟨[], 0, 0⟩

/-- `write(fd, ptr, n)` for the `n` bytes `bs` -/
def write (results : WriteResults) (bs : List UInt8) (fd : OutputDescriptor) :
    Int × OutputDescriptor :=
  match results fd.writes bs.length with
  | .error e => (-1, { fd with writes := fd.writes + 1, errno := e })
  | .ok k =>
      ((min k bs.length : Nat),
        { fd with accepted := fd.accepted ++ bs.take k, writes := fd.writes + 1 })

/-! ## The context -/

/-- What `file_pack_context` adds, the requests made to the heap, and the calls of
`memcpy` made so far, each as destination, source and length. -/
structure FilePackEnv where
  fileDescriptor : OutputDescriptor
  barrier : Option Nat
  requests : Nat
  copies : List (Nat × Nat × Nat)
  deriving DecidableEq, Repr

/-- `memcpy(dst, src, n)` -/
def memcpy (dst src n : Nat) (s : PackState FilePackEnv) : PackState FilePackEnv :=
  { s with mem := s.mem.move dst src n, env.copies := s.env.copies ++ [(dst, src, n)] }

/-- `if (kept) memcpy(dst, src, kept);` -/
def copyKept (dst src kept : Nat) (s : PackState FilePackEnv) : PackState FilePackEnv :=
  if kept ≠ 0 then memcpy dst src kept s else s

/-- Set the barrier. -/
def setBarrier (s : PackState FilePackEnv) (barrier : Option Nat) : PackState FilePackEnv :=
  { s with env.barrier := barrier }

/-- The part of `flush_file_pack_context` behind the write. -/
def keepFromBarrier (w bStart : Nat) (s : PackState FilePackEnv) : PackState FilePackEnv :=
  if s.env.barrier.isSome then
    let kept : Int := (s.pc.current : Int) - bStart
    let s := if kept ≠ 0 then memcpy s.pc.start bStart (toPattern w kept) s else s
    let s := setBarrier s (some s.pc.start)
    s.setCurrent ((s.pc.start : Int) + kept).toNat
  else s.setCurrent s.pc.start

/-- `flush_file_pack_context` -/
def flushFilePackContext (w : Nat) (results : WriteResults) : PackFlushHandler FilePackEnv :=
  fun s =>
    let bStart := s.env.barrier.getD s.pc.current
    let contains := ulongDiff w bStart s.pc.start
    if contains ≠ 0 then
      let (rc, fd) := write results (s.mem.bytes s.pc.start contains) s.env.fileDescriptor
      let s := { s with env.fileDescriptor := fd }
      if rc ≠ twosComplement w contains then
        some (cwpRcErrorInHandler, { s with pc.errNo := fd.errno })
      else some (cwpRcOk, keepFromBarrier w bStart s)
    else some (cwpRcOk, keepFromBarrier w bStart s)

/-- The end of `handle_file_pack_overflow`. -/
def resumeAfter (kept : Nat) (s : PackState FilePackEnv) : PackState FilePackEnv :=
  let s := if s.env.barrier.isSome then setBarrier s (some s.pc.start) else s
  s.setCurrent (s.pc.start + kept)

/-- `handle_file_pack_overflow` -/
def handleFilePackOverflow (w : Nat) (malloc : Allocator) (results : WriteResults) :
    PackOverflowHandler FilePackEnv := fun s more =>
  match flushFilePackContext w results s with
  | none => none
  | some (rc, s) =>
      if rc ≠ cwpRcOk then some (rc, s)
      else
        let bStart := s.env.barrier.getD s.pc.current
        let kept := ulongDiff w s.pc.current bStart
        let bufferLength := ulongDiff w s.pc.end_ s.pc.start
        if bufferLength < (more + kept) % 2 ^ w then
          match growBuffer w ((more + kept) % 2 ^ w) bufferLength with
          | none => none
          | some bufferLength =>
              let asked := { s with env.requests := s.env.requests + 1 }
              match malloc s.env.requests bufferLength with
              | none => some (cwpRcBufferOverflow, asked)
              | some newBuffer =>
                  let s := copyKept newBuffer bStart kept asked
                  let s := setBuffer s newBuffer s.pc.current (newBuffer + bufferLength)
                  some (cwpRcOk, resumeAfter kept s)
        else some (cwpRcOk, resumeAfter kept (copyKept s.pc.start bStart kept s))

/-- The handlers of the context. -/
def filePackHandlers (w : Nat) (malloc : Allocator) (results : WriteResults) :
    PackHandlers FilePackEnv :=
  ⟨some (handleFilePackOverflow w malloc results), some (flushFilePackContext w results)⟩

/-- `init_file_pack_context` -/
def initFilePackContext (malloc : Allocator) (initialBufferLength : Nat)
    (fileDescriptor : OutputDescriptor) (s : PackState FilePackEnv) : PackState FilePackEnv :=
  let bufferLength := if initialBufferLength > 32 then initialBufferLength else 4096
  let asked := { s with env.requests := s.env.requests + 1 }
  match malloc s.env.requests bufferLength with
  | none => asked.setReturnCode cwpRcMallocError
  | some buffer =>
      cwPackContextInit buffer bufferLength
        { asked with env.fileDescriptor := fileDescriptor, env.barrier := none }

/-- `file_pack_context_set_barrier` -/
def filePackContextSetBarrier (s : PackState FilePackEnv) : PackState FilePackEnv :=
  setBarrier s (some s.pc.current)

/-- `file_pack_context_release_barrier` -/
def filePackContextReleaseBarrier (s : PackState FilePackEnv) : PackState FilePackEnv :=
  setBarrier s none

/-- `terminate_file_pack_context`, less the release of the buffer -/
def terminateFilePackContext (H : PackHandlers FilePackEnv) (s : PackState FilePackEnv) :
    Option (PackState FilePackEnv) := cwPackFlush H (setBarrier s none)

/-! ## Reachable states -/

/-- The bytes a call has produced: its encoding, if the context ran before and after. -/
def PackOp.produced (op : PackOp) (s s' : PackState σ) : List UInt8 :=
  if s.pc.returnCode = cwpRcOk ∧ s'.pc.returnCode = cwpRcOk then
    concat [op.encoding s.pc.beCompatible]
  else []

/-- The states a file pack context reaches from `s₀`, with the log of the bytes
produced so far and the offset in it at which the active barrier was set. -/
inductive Reaches (H : PackHandlers FilePackEnv) (s₀ : PackState FilePackEnv) :
    List UInt8 → Option Nat → PackState FilePackEnv → Prop where
  | init : Reaches H s₀ [] none s₀
  | pack {log : List UInt8} {mark : Option Nat} {s s' : PackState FilePackEnv} {op : PackOp} :
      Reaches H s₀ log mark s → op.Short → (op.IsCall ∨ s.pc.returnCode = cwpRcOk) →
      op.perform H s = some s' → Reaches H s₀ (log ++ PackOp.produced op s s') mark s'
  | flush {log : List UInt8} {mark : Option Nat} {s s' : PackState FilePackEnv} :
      Reaches H s₀ log mark s → cwPackFlush H s = some s' → Reaches H s₀ log mark s'
  | setBarrier {log : List UInt8} {mark : Option Nat} {s : PackState FilePackEnv} :
      Reaches H s₀ log mark s → Reaches H s₀ log (some log.length) (filePackContextSetBarrier s)
  | releaseBarrier {log : List UInt8} {mark : Option Nat} {s : PackState FilePackEnv} :
      Reaches H s₀ log mark s → Reaches H s₀ log none (filePackContextReleaseBarrier s)

/-! ## The invariant -/

/-- The buffer, up to the cursor, is the log from `base` on; the barrier is at `mark`. -/
structure FileLog (mark : Option Nat) (base : Nat) (log : List UInt8)
    (s : PackState FilePackEnv) : Prop where
  nonempty : s.pc.start < s.pc.end_
  length_lt : s.pc.end_ - s.pc.start < 2 ^ 63
  ge : s.pc.start ≤ s.pc.current
  le : s.pc.current ≤ s.pc.end_
  length : base + (s.pc.current - s.pc.start) = log.length
  bytes : s.mem.bytes s.pc.start (s.pc.current - s.pc.start) = log.drop base
  marked : ∀ b, mark = some b → base ≤ b ∧ b ≤ log.length
  barrier : s.env.barrier = mark.map fun b => s.pc.start + (b - base)

/-- The context runs: the descriptor has accepted what is no longer in the buffer. -/
def FileRuns (mark : Option Nat) (log : List UInt8) (s : PackState FilePackEnv) : Prop :=
  s.pc.returnCode = 0 ∧ ∃ base, FileLog mark base log s ∧
    s.env.fileDescriptor.accepted = log.take base

/-- The context has stopped: the descriptor may have accepted some of the buffer too,
but nothing behind the barrier. -/
def FileStopped (mark : Option Nat) (log : List UInt8) (s : PackState FilePackEnv) : Prop :=
  s.pc.returnCode ≠ 0 ∧ ∃ base n, FileLog mark base log s ∧
    s.env.fileDescriptor.accepted = log.take n ∧ n ≤ mark.getD log.length

namespace FileLog

variable {mark : Option Nat} {base : Nat} {log : List UInt8} {s s' : PackState FilePackEnv}

/-- The invariant is about the buffer and the barrier only. -/
theorem congr (h : FileLog mark base log s) (hstart : s'.pc.start = s.pc.start)
    (hcur : s'.pc.current = s.pc.current) (hend : s'.pc.end_ = s.pc.end_)
    (hmem : s'.mem = s.mem) (hbarrier : s'.env.barrier = s.env.barrier) :
    FileLog mark base log s' where
  nonempty := by rw [hstart, hend]; exact h.nonempty
  length_lt := by rw [hstart, hend]; exact h.length_lt
  ge := by rw [hstart, hcur]; exact h.ge
  le := by rw [hcur, hend]; exact h.le
  length := by rw [hstart, hcur]; exact h.length
  bytes := by rw [hmem, hstart, hcur]; exact h.bytes
  marked := h.marked
  barrier := by rw [hbarrier, hstart]; exact h.barrier

/-- The barrier is between the start and the cursor. -/
theorem cut_le (h : FileLog mark base log s) {cut : Nat} (hcut : cut = mark.getD log.length) :
    base ≤ cut ∧ cut ≤ log.length := by
  have hlength := h.length
  cases mark with
  | none =>
      obtain rfl : cut = log.length := hcut
      omega
  | some b =>
      obtain rfl : cut = b := hcut
      exact h.marked cut rfl

/-- Where the held-back part of the buffer begins. -/
theorem bStart_eq (h : FileLog mark base log s) {cut : Nat} (hcut : cut = mark.getD log.length) :
    s.env.barrier.getD s.pc.current = s.pc.start + (cut - base) := by
  have hlength := h.length
  have hge := h.ge
  rw [h.barrier]
  cases mark with
  | none =>
      obtain rfl : cut = log.length := hcut
      show s.pc.current = s.pc.start + (log.length - base)
      omega
  | some b =>
      obtain rfl : cut = b := hcut
      rfl

/-- Appending to the buffer extends the log. -/
theorem append (h : FileLog mark base log s) {bs : List UInt8}
    (hfit : s.pc.current + bs.length ≤ s.pc.end_) :
    FileLog mark base (log ++ bs) (s.append bs) := by
  have hge := h.ge
  have hlength := h.length
  have hlen : (log ++ bs).length = log.length + bs.length := List.length_append
  refine ⟨h.nonempty, h.length_lt, ?_, hfit, ?_, ?_, ?_, h.barrier⟩
  · show s.pc.start ≤ s.pc.current + bs.length
    omega
  · show base + (s.pc.current + bs.length - s.pc.start) = (log ++ bs).length
    omega
  · show (s.mem.write s.pc.current bs).bytes s.pc.start (s.pc.current + bs.length - s.pc.start) =
      (log ++ bs).drop base
    rw [Memory.bytes_write_append _ _ hge, h.bytes, List.drop_append_of_le_length (by omega)]
  · intro b hb
    obtain ⟨hlo, hhi⟩ := h.marked b hb
    exact ⟨hlo, by omega⟩

/-- Moving the held-back part to the start of a block makes the rest of the log the
part that is no longer in the buffer. -/
theorem moved (h : FileLog mark base log s) {cut : Nat} (hcut : cut = mark.getD log.length)
    (hnonempty : s'.pc.start < s'.pc.end_) (hlt : s'.pc.end_ - s'.pc.start < 2 ^ 63)
    (hcur : s'.pc.current = s'.pc.start + (log.length - cut)) (hle : s'.pc.current ≤ s'.pc.end_)
    (hbytes : s'.mem.bytes s'.pc.start (log.length - cut) =
      s.mem.bytes (s.pc.start + (cut - base)) (log.length - cut))
    (hbarrier : s'.env.barrier = mark.map fun _ => s'.pc.start) : FileLog mark cut log s' := by
  obtain ⟨hlo, hhi⟩ := h.cut_le hcut
  have hlength := h.length
  have hsub : s'.pc.current - s'.pc.start = log.length - cut := by omega
  refine ⟨hnonempty, hlt, by omega, hle, by omega, ?_, ?_, ?_⟩
  · have hrest : s.pc.current - s.pc.start - (cut - base) = log.length - cut := by omega
    have hdrop := s.mem.bytes_drop (p := s.pc.start) (n := s.pc.current - s.pc.start)
      (k := cut - base) (by omega)
    have hall : base + (cut - base) = cut := by omega
    rw [hsub, hbytes, ← hrest, ← hdrop, h.bytes, List.drop_drop, hall]
  · intro b hb
    subst hb
    obtain rfl : cut = b := hcut
    exact ⟨Nat.le_refl _, hhi⟩
  · rw [hbarrier]
    cases mark with
    | none => rfl
    | some b =>
        obtain rfl : cut = b := hcut
        show some s'.pc.start = some (s'.pc.start + (cut - cut))
        rw [Nat.sub_self, Nat.add_zero]

end FileLog

/-! ## Flushing -/

section Handlers

variable {malloc : Allocator} {results : WriteResults}

/-- A write is complete, or some of the bytes have been accepted. -/
theorem write_spec (results : WriteResults) (bs : List UInt8) (fd : OutputDescriptor) :
    ((write results bs fd).1 = bs.length ∧
      (write results bs fd).2.accepted = fd.accepted ++ bs) ∨
    ((write results bs fd).1 ≠ bs.length ∧
      ∃ k, (write results bs fd).2.accepted = fd.accepted ++ bs.take k) := by
  unfold write
  cases hresult : results fd.writes bs.length with
  | error e =>
      refine Or.inr ⟨?_, 0, ?_⟩
      · show (-1 : Int) ≠ bs.length
        omega
      · show fd.accepted = fd.accepted ++ bs.take 0
        rw [List.take_zero, List.append_nil]
  | ok k =>
      by_cases hk : bs.length ≤ k
      · refine Or.inl ⟨?_, ?_⟩
        · show ((min k bs.length : Nat) : Int) = bs.length
          rw [Nat.min_eq_right hk]
        · show fd.accepted ++ bs.take k = fd.accepted ++ bs
          rw [List.take_of_length_le hk]
      · refine Or.inr ⟨?_, k, rfl⟩
        show ((min k bs.length : Nat) : Int) ≠ bs.length
        omega

/-- After the copy the kept bytes are at the destination, whether any were kept or not. -/
theorem copyKept_bytes (dst src kept : Nat) (s : PackState FilePackEnv) :
    (copyKept dst src kept s).mem.bytes dst kept = s.mem.bytes src kept := by
  unfold copyKept
  by_cases hkept : kept = 0
  · rw [hkept]
    rfl
  · rw [if_pos hkept]
    exact s.mem.bytes_move dst src kept

/-- A copy changes the memory and the list of copies only. -/
theorem copyKept_frame (dst src kept : Nat) (s : PackState FilePackEnv) :
    (copyKept dst src kept s).pc = s.pc ∧
      (copyKept dst src kept s).env.barrier = s.env.barrier ∧
      (copyKept dst src kept s).env.fileDescriptor = s.env.fileDescriptor := by
  unfold copyKept
  split <;> exact ⟨rfl, rfl, rfl⟩

/-- A handler leaves the mode and the return code alone. -/
def Resumes (s s' : PackState σ) : Prop :=
  s'.pc.beCompatible = s.pc.beCompatible ∧ s'.pc.returnCode = s.pc.returnCode

/-- Behind the write, what lies behind the barrier is moved to the start. -/
theorem keepFromBarrier_spec {mark : Option Nat} {base cut : Nat} {log : List UInt8}
    {s : PackState FilePackEnv} (h : FileLog mark base log s)
    (hcut : cut = mark.getD log.length) :
    FileLog mark cut log (keepFromBarrier 64 (s.pc.start + (cut - base)) s) ∧
      Resumes s (keepFromBarrier 64 (s.pc.start + (cut - base)) s) ∧
      (keepFromBarrier 64 (s.pc.start + (cut - base)) s).env.fileDescriptor =
        s.env.fileDescriptor := by
  obtain ⟨hlo, hhi⟩ := h.cut_le hcut
  have hlength := h.length
  have hge := h.ge
  have hle := h.le
  have hlt := h.length_lt
  unfold keepFromBarrier
  cases mark with
  | none =>
      obtain rfl : cut = log.length := hcut
      have hbarrier : s.env.barrier = none := h.barrier
      rw [hbarrier, if_neg (by decide)]
      refine ⟨h.moved rfl h.nonempty hlt ?_ ?_ ?_ hbarrier, ⟨rfl, rfl⟩, rfl⟩
      · show s.pc.start = s.pc.start + (log.length - log.length)
        omega
      · show s.pc.start ≤ s.pc.end_
        omega
      · rw [Nat.sub_self]
        rfl
  | some b =>
      obtain rfl : cut = b := hcut
      have hbarrier : s.env.barrier.isSome = true := by rw [h.barrier]; rfl
      have hkept : (s.pc.current : Int) - (s.pc.start + (cut - base) : Nat) =
          ((log.length - cut : Nat) : Int) := by omega
      have hpattern : toPattern 64 ((log.length - cut : Nat) : Int) = log.length - cut := by
        unfold toPattern
        omega
      have hstart : ((s.pc.start : Int) + ((log.length - cut : Nat) : Int)).toNat =
          s.pc.start + (log.length - cut) := by omega
      have hcopy : (if ((log.length - cut : Nat) : Int) ≠ 0 then
          memcpy s.pc.start (s.pc.start + (cut - base)) (log.length - cut) s else s) =
          copyKept s.pc.start (s.pc.start + (cut - base)) (log.length - cut) s := by
        unfold copyKept
        by_cases hzero : log.length - cut = 0
        · rw [if_neg (by omega), if_neg (by omega)]
        · rw [if_pos (by omega), if_pos (by omega)]
      rw [if_pos hbarrier]
      simp only [hkept, hpattern, hcopy]
      obtain ⟨hpc, -, hfd⟩ := copyKept_frame s.pc.start (s.pc.start + (cut - base))
        (log.length - cut) s
      have hcopied := copyKept_bytes s.pc.start (s.pc.start + (cut - base)) (log.length - cut) s
      generalize copyKept s.pc.start (s.pc.start + (cut - base)) (log.length - cut) s = t at *
      obtain ⟨pc, mem, env⟩ := t
      obtain rfl : pc = s.pc := hpc
      refine ⟨h.moved rfl h.nonempty hlt hstart ?_ hcopied rfl, ⟨rfl, rfl⟩, hfd⟩
      show ((s.pc.start : Int) + ((log.length - cut : Nat) : Int)).toNat ≤ s.pc.end_
      omega

/-- What a flush comes to. -/
def Flushed (mark : Option Nat) (base cut : Nat) (log : List UInt8) (s : PackState FilePackEnv)
    (r : Int × PackState FilePackEnv) : Prop :=
  Resumes s r.2 ∧
    if r.1 = 0 then
      FileLog mark cut log r.2 ∧ r.2.env.fileDescriptor.accepted = log.take cut
    else
      FileLog mark base log r.2 ∧ ∃ n, r.2.env.fileDescriptor.accepted = log.take n ∧ n ≤ cut

/-- A flush writes the buffer up to the barrier, and keeps the rest. -/
theorem flushFilePackContext_spec (results : WriteResults) {mark : Option Nat}
    {base cut : Nat} {log : List UInt8}
    {s : PackState FilePackEnv} (h : FileLog mark base log s)
    (hcut : cut = mark.getD log.length)
    (haccepted : s.env.fileDescriptor.accepted = log.take base) :
    Ends False (Flushed mark base cut log s) (flushFilePackContext 64 results s) := by
  obtain ⟨hlo, hhi⟩ := h.cut_le hcut
  have hlength := h.length
  have hlt := h.length_lt
  have hle := h.le
  have hbStart := h.bStart_eq hcut
  -- what is written is the log from `base` to the barrier
  have hcontains : ulongDiff 64 (s.pc.start + (cut - base)) s.pc.start = cut - base := by
    rw [ulongDiff_of_le (by omega) (by omega), Nat.add_sub_cancel_left]
  have hbytes : s.mem.bytes s.pc.start (cut - base) = (log.drop base).take (cut - base) := by
    rw [← h.bytes, Memory.bytes_take _ (by omega)]
  have hsigned : twosComplement 64 (cut - base) = ((cut - base : Nat) : Int) := by
    unfold twosComplement
    rw [if_pos (by omega)]
  simp only [flushFilePackContext, hbStart, hcontains, hsigned]
  by_cases hempty : cut - base = 0
  · obtain rfl : cut = base := by omega
    obtain ⟨hlog, hmode, hfd⟩ := keepFromBarrier_spec h hcut
    rw [if_neg (not_not_intro hempty)]
    refine ⟨hmode, ?_⟩
    rw [if_pos rfl, hfd]
    exact ⟨hlog, haccepted⟩
  · rw [if_pos hempty]
    have hlen : (s.mem.bytes s.pc.start (cut - base)).length = cut - base :=
      Memory.bytes_length _ _ _
    have hwrite := write_spec results (s.mem.bytes s.pc.start (cut - base))
      s.env.fileDescriptor
    rw [hlen] at hwrite
    generalize write results (s.mem.bytes s.pc.start (cut - base)) s.env.fileDescriptor = r
      at hwrite ⊢
    obtain ⟨rc, fd⟩ := r
    have hfd : FileLog mark base log { s with env.fileDescriptor := fd } :=
      h.congr rfl rfl rfl rfl rfl
    rcases hwrite with ⟨hrc, hall⟩ | ⟨hrc, k, hsome⟩
    · obtain ⟨hlog, hmode, hkeep⟩ := keepFromBarrier_spec hfd hcut
      simp only at hrc
      rw [if_neg (not_not_intro hrc)]
      refine ⟨hmode, ?_⟩
      rw [if_pos rfl, hkeep]
      refine ⟨hlog, ?_⟩
      have hsum : base + (cut - base) = cut := by omega
      have hacc : fd.accepted = _ := hall
      show fd.accepted = log.take cut
      rw [hacc, haccepted, hbytes, ← List.take_add, hsum]
    · simp only at hrc
      rw [if_pos hrc]
      refine ⟨⟨rfl, rfl⟩, ?_⟩
      rw [if_neg (by show cwpRcErrorInHandler ≠ 0; decide)]
      refine ⟨h.congr rfl rfl rfl rfl rfl, base + min k (cut - base), ?_, by omega⟩
      have hacc : fd.accepted = _ := hsome
      show fd.accepted = log.take (base + min k (cut - base))
      rw [hacc, haccepted, hbytes, List.take_take, ← List.take_add]

/-! ## Overflow -/

theorem resumeAfter_barrier {mark : Option Nat} {f : Nat → Nat} {kept : Nat}
    {s : PackState FilePackEnv} (h : s.env.barrier = mark.map f) :
    (resumeAfter kept s).env.barrier = mark.map fun _ => s.pc.start := by
  unfold resumeAfter
  rw [h]
  cases mark with
  | none => exact h
  | some b => rfl

theorem resumeAfter_frame (kept : Nat) (s : PackState FilePackEnv) :
    (resumeAfter kept s).pc = { s.pc with current := s.pc.start + kept } ∧
      (resumeAfter kept s).mem = s.mem ∧
      (resumeAfter kept s).env.fileDescriptor = s.env.fileDescriptor := by
  unfold resumeAfter
  split <;> exact ⟨rfl, rfl, rfl⟩

/-- The kept part and an item together are at most twice the buffer, or far below the
width of the lengths: the buffer can be grown. -/
theorem growBuffer_kept (kept more bufferLength : Nat) (hpos : 0 < bufferLength)
    (hlt : bufferLength < 2 ^ 63) (hkept : kept ≤ bufferLength) (hmore : more < 2 ^ 32) :
    ∃ n, growBuffer 64 (more + kept) bufferLength = some n ∧ more + kept ≤ n ∧
      bufferLength ≤ n ∧ n < 2 ^ 64 := by
  by_cases hroom : 2 * (more + kept) ≤ 2 ^ 64
  · exact growBuffer_spec _ _ _ hroom hpos (by omega)
  · exact growBuffer_of_le_twice _ _ _ (by decide) (by omega) (by omega)

/-- What an overflow comes to: room for what is asked, or an error. -/
def Overflowed (mark : Option Nat) (log : List UInt8) (more : Nat) (s : PackState FilePackEnv)
    (r : Int × PackState FilePackEnv) : Prop :=
  r.2.pc.beCompatible = s.pc.beCompatible ∧
    if r.1 = 0 then FileRuns mark log r.2 ∧ r.2.pc.current + more ≤ r.2.pc.end_
    else FileStopped mark log (r.2.setReturnCode r.1)

/-- Where the kept part has been copied to the start of a block with room, work goes on
there. -/
theorem resumeAfter_spec {mark : Option Nat} {cut more : Nat} {log : List UInt8}
    {s s₁ t : PackState FilePackEnv} (h : FileLog mark cut log s₁)
    (hcut : cut = mark.getD log.length)
    (haccepted : t.env.fileDescriptor.accepted = log.take cut) (hrc : t.pc.returnCode = 0)
    (hmode : t.pc.beCompatible = s.pc.beCompatible) (hnonempty : t.pc.start < t.pc.end_)
    (hlt : t.pc.end_ - t.pc.start < 2 ^ 63)
    (hroom : t.pc.start + (log.length - cut) + more ≤ t.pc.end_)
    (hbytes : t.mem.bytes t.pc.start (log.length - cut) =
      s₁.mem.bytes s₁.pc.start (log.length - cut))
    (hbarrier : t.env.barrier = s₁.env.barrier) :
    Overflowed mark log more s (cwpRcOk, resumeAfter (log.length - cut) t) := by
  obtain ⟨hpc, hmem, hfd⟩ := resumeAfter_frame (log.length - cut) t
  have hmarked : (resumeAfter (log.length - cut) t).env.barrier = mark.map fun _ => t.pc.start :=
    resumeAfter_barrier (hbarrier.trans h.barrier)
  generalize resumeAfter (log.length - cut) t = t' at hpc hmem hfd hmarked ⊢
  obtain ⟨pc, mem, env⟩ := t'
  obtain rfl : pc = _ := hpc
  obtain rfl : mem = t.mem := hmem
  refine ⟨hmode, ?_⟩
  rw [if_pos rfl]
  refine ⟨⟨hrc, cut, h.moved hcut hnonempty hlt rfl ?_ ?_ hmarked, ?_⟩, hroom⟩
  · show t.pc.start + (log.length - cut) ≤ t.pc.end_
    omega
  · rw [Nat.sub_self]
    exact hbytes
  · rw [hfd]
    exact haccepted

/-- The overflow handler writes up to the barrier and makes room behind the rest. -/
theorem handleFilePackOverflow_spec (hheap : ∀ i n p, malloc i n = some p → n < 2 ^ 63)
    {mark : Option Nat} {log : List UInt8} {s : PackState FilePackEnv} {more : Nat}
    (hruns : FileRuns mark log s) (hmore : more < 2 ^ 32) :
    Ends False (Overflowed mark log more s)
      (handleFilePackOverflow 64 malloc results s more) := by
  obtain ⟨hrc, base, h, haccepted⟩ := hruns
  obtain ⟨cut, hcut⟩ : ∃ cut, cut = mark.getD log.length := ⟨_, rfl⟩
  obtain ⟨⟨rc, s₁⟩, hflush, ⟨hmode, hrc₁⟩, hcase⟩ :=
    (flushFilePackContext_spec results h hcut haccepted).exists_of_not_stuck
  simp only at hmode hrc₁ hcase
  simp only [handleFilePackOverflow, hflush]
  by_cases hok : rc = 0
  · rw [if_pos hok] at hcase
    obtain ⟨h₁, hacc₁⟩ := hcase
    obtain ⟨hlo, hhi⟩ := h₁.cut_le hcut
    have hlength := h₁.length
    have hge := h₁.ge
    have hle := h₁.le
    have hlt := h₁.length_lt
    have hnonempty := h₁.nonempty
    have hbStart := h₁.bStart_eq hcut
    rw [Nat.sub_self, Nat.add_zero] at hbStart
    have hkept : ulongDiff 64 s₁.pc.current s₁.pc.start = log.length - cut := by
      rw [ulongDiff_of_le hge (by omega)]
      omega
    have hlen : ulongDiff 64 s₁.pc.end_ s₁.pc.start = s₁.pc.end_ - s₁.pc.start :=
      ulongDiff_of_le (by omega) (by omega)
    have hmod : (more + (log.length - cut)) % 2 ^ 64 = more + (log.length - cut) :=
      Nat.mod_eq_of_lt (by omega)
    rw [if_neg (not_not_intro hok)]
    simp only [hbStart, hkept, hlen, hmod]
    by_cases hsmall : s₁.pc.end_ - s₁.pc.start < more + (log.length - cut)
    · rw [if_pos hsmall]
      obtain ⟨n, hgrow, hn, hgrown, -⟩ := growBuffer_kept (log.length - cut) more
        (s₁.pc.end_ - s₁.pc.start) (by omega) hlt (by omega) hmore
      simp only [hgrow]
      cases hp : malloc s₁.env.requests n with
      | none =>
          refine ⟨hmode, ?_⟩
          rw [if_neg (by show cwpRcBufferOverflow ≠ 0; decide)]
          refine ⟨by show cwpRcBufferOverflow ≠ 0; decide, cut, cut,
            h₁.congr rfl rfl rfl rfl rfl, hacc₁, by omega⟩
      | some p =>
          have hltn := hheap _ _ _ hp
          obtain ⟨hpc, hbarrier, hfd⟩ := copyKept_frame p s₁.pc.start (log.length - cut)
            { s₁ with env.requests := s₁.env.requests + 1 }
          have hcopied := copyKept_bytes p s₁.pc.start (log.length - cut)
            { s₁ with env.requests := s₁.env.requests + 1 }
          simp only at hpc hbarrier hfd hcopied ⊢
          refine resumeAfter_spec h₁ hcut ?_ ?_ ?_ ?_ ?_ ?_ hcopied hbarrier
          · show (copyKept _ _ _ _).env.fileDescriptor.accepted = _
            rw [hfd, hacc₁]
          · show (copyKept _ _ _ _).pc.returnCode = 0
            rw [hpc, hrc₁, hrc]
          · show (copyKept _ _ _ _).pc.beCompatible = _
            rw [hpc, hmode]
          · show p < p + n
            omega
          · show p + n - p < 2 ^ 63
            omega
          · show p + (log.length - cut) + more ≤ p + n
            omega
    · rw [if_neg hsmall]
      obtain ⟨hpc, hbarrier, hfd⟩ := copyKept_frame s₁.pc.start s₁.pc.start (log.length - cut) s₁
      have hcopied := copyKept_bytes s₁.pc.start s₁.pc.start (log.length - cut) s₁
      refine resumeAfter_spec h₁ hcut ?_ ?_ ?_ ?_ ?_ ?_ ?_ hbarrier
      · rw [hfd, hacc₁]
      · rw [hpc, hrc₁, hrc]
      · rw [hpc, hmode]
      · rw [hpc]
        exact hnonempty
      · rw [hpc]
        exact hlt
      · rw [hpc]
        omega
      · rw [hpc]
        exact hcopied
  · rw [if_neg hok] at hcase
    obtain ⟨hlog, n, hacc, hn⟩ := hcase
    rw [if_pos hok]
    refine ⟨hmode, ?_⟩
    rw [if_neg hok]
    exact ⟨hok, base, n, hlog.congr rfl rfl rfl rfl rfl, hacc, by omega⟩

/-! ## Steps -/

/-- The context runs or has stopped. -/
def FileState (mark : Option Nat) (log : List UInt8) (s : PackState FilePackEnv) : Prop :=
  FileRuns mark log s ∨ FileStopped mark log s

theorem FileRuns.append {mark : Option Nat} {log bs : List UInt8} {s : PackState FilePackEnv}
    (h : FileRuns mark log s) (hfit : s.pc.current + bs.length ≤ s.pc.end_) :
    FileRuns mark (log ++ bs) (s.append bs) := by
  obtain ⟨hrc, base, hlog, haccepted⟩ := h
  have hlength := hlog.length
  refine ⟨hrc, base, hlog.append hfit, ?_⟩
  rw [List.take_append_of_le_length (by omega)]
  exact haccepted

/-- An error code stops the context where it is. -/
theorem FileRuns.stop {mark : Option Nat} {log : List UInt8} {s : PackState FilePackEnv} {e : Int}
    (h : FileRuns mark log s) (he : e ≠ 0) : FileStopped mark log (s.setReturnCode e) := by
  obtain ⟨-, base, hlog, haccepted⟩ := h
  exact ⟨he, base, base, hlog.congr rfl rfl rfl rfl rfl, haccepted, (hlog.cut_le rfl).1⟩

/-- A file pack context extends its log or stops. -/
theorem file_sinks (hheap : ∀ i n p, malloc i n = some p → n < 2 ^ 63)
    (results : WriteResults) (mark : Option Nat)
    (limit : Nat) :
    Sinks (filePackHandlers 64 malloc results) False limit (FileRuns mark) (FileStopped mark)
      (fun _ _ => True) where
  running := by
    intro log s h
    obtain ⟨hrc, base, hlog, -⟩ := h
    exact ⟨hrc, hlog.le⟩
  mode := by
    intro log s b h
    obtain ⟨hrc, base, hlog, haccepted⟩ := h
    exact ⟨⟨hrc, base, hlog.congr rfl rfl rfl rfl rfl, haccepted⟩, trivial⟩
  emits := by
    intro log s bs h hlt _
    refine emit_rule hlt (fun hfit => ⟨rfl, trivial, Or.inl (h.append hfit)⟩) (fun _ => ?_)
    show Ends _ _ (handleFilePackOverflow 64 malloc results s bs.length)
    refine (handleFilePackOverflow_spec hheap h hlt).mono ?_
    intro r hr
    obtain ⟨hmode, hcase⟩ := hr
    by_cases hok : r.1 = 0
    · rw [if_pos hok] at hcase ⊢
      exact ⟨hmode, trivial, Or.inl (hcase.1.append hcase.2)⟩
    · rw [if_neg hok] at hcase ⊢
      exact ⟨hmode, trivial, Or.inr hcase⟩

theorem PackOp.encoding_error {compat : Bool} {op : PackOp} {e : Int}
    (h : op.encoding compat = .error e) : e ≠ 0 := by
  cases op with
  | call c => exact PackCall.encoding_error h
  | insert v => simp [PackOp.encoding] at h
  | setCompatibility b => simp [PackOp.encoding] at h

/-- A packing operation returns, and extends the log by what it has produced. -/
theorem FileState.perform (hheap : ∀ i n p, malloc i n = some p → n < 2 ^ 63)
    (results : WriteResults) {mark : Option Nat} {log : List UInt8} {s : PackState FilePackEnv}
    (h : FileState mark log s) {op : PackOp} (hop : op.Short)
    (hallowed : op.IsCall ∨ s.pc.returnCode = cwpRcOk) :
    ∃ s', op.perform (filePackHandlers 64 malloc results) s = some s' ∧
      FileState mark (log ++ PackOp.produced op s s') s' := by
  rcases h with hruns | hstopped
  · have hrc : s.pc.returnCode = cwpRcOk := hruns.1
    have S := file_sinks hheap results mark
      (log.length + (concat [op.encoding s.pc.beCompatible]).length)
    obtain ⟨s', hcall, -, hcase⟩ := (S.perform hop hruns fun bs hbs => by
      rw [hbs]
      simp only [concat, List.append_nil]
      exact Nat.le_refl _).exists_of_not_stuck
    refine ⟨s', hcall, ?_⟩
    cases henc : op.encoding s.pc.beCompatible with
    | error e =>
        rw [henc] at hcase
        obtain rfl : s' = s.setReturnCode e := hcase
        have he := PackOp.encoding_error henc
        have hnone : PackOp.produced op s (s.setReturnCode e) = [] := if_neg fun hboth => he hboth.2
        rw [hnone, List.append_nil]
        exact Or.inr (hruns.stop he)
    | ok bs =>
        rw [henc] at hcase
        rcases hcase.2 with hruns' | hfailed
        · have hall : PackOp.produced op s s' = bs := by
            unfold PackOp.produced
            rw [if_pos ⟨hrc, hruns'.1⟩, henc, concat, concat, List.append_nil]
          rw [hall]
          exact Or.inl hruns'
        · have hnone : PackOp.produced op s s' = [] := if_neg fun hboth => hfailed.1 hboth.2
          rw [hnone, List.append_nil]
          exact Or.inr hfailed
  · have hrc := hstopped.1
    have hnone : ∀ s', PackOp.produced op s s' = [] := fun s' => if_neg fun hboth => hrc hboth.1
    cases op with
    | call c =>
        refine ⟨s, cwPack_of_stopped _ c hrc, ?_⟩
        rw [hnone, List.append_nil]
        exact Or.inr hstopped
    | insert v => exact (hallowed.elim id hrc).elim
    | setCompatibility b =>
        refine ⟨cwPackSetCompatibility b s, rfl, ?_⟩
        obtain ⟨-, base, n, hlog, haccepted, hn⟩ := hstopped
        rw [hnone, List.append_nil]
        exact Or.inr ⟨hrc, base, n, hlog.congr rfl rfl rfl rfl rfl, haccepted, hn⟩

/-- A flush returns; if all is well, everything before the barrier has been accepted. -/
theorem FileState.flush (malloc : Allocator) (results : WriteResults) {mark : Option Nat}
    {log : List UInt8} {s : PackState FilePackEnv} (h : FileState mark log s) :
    ∃ s', cwPackFlush (filePackHandlers 64 malloc results) s = some s' ∧ FileState mark log s' ∧
      (s'.pc.returnCode = cwpRcOk →
        s'.env.fileDescriptor.accepted = log.take (mark.getD log.length)) := by
  rcases h with ⟨hrc, base, hlog, haccepted⟩ | hstopped
  · obtain ⟨⟨rc, s₁⟩, hflush, ⟨-, hrc₁⟩, hcase⟩ :=
      (flushFilePackContext_spec results hlog rfl haccepted).exists_of_not_stuck
    have hcall : cwPackFlush (filePackHandlers 64 malloc results) s =
        some (s₁.setReturnCode rc) := by
      simp only [cwPackFlush, filePackHandlers, hflush]
      exact if_pos hrc
    refine ⟨s₁.setReturnCode rc, hcall, ?_⟩
    simp only at hcase
    by_cases hok : rc = 0
    · rw [if_pos hok] at hcase
      obtain ⟨hlog₁, haccepted₁⟩ := hcase
      exact ⟨Or.inl ⟨hok, _, hlog₁.congr rfl rfl rfl rfl rfl, haccepted₁⟩, fun _ => haccepted₁⟩
    · rw [if_neg hok] at hcase
      obtain ⟨hlog₁, n, haccepted₁, hn⟩ := hcase
      exact ⟨Or.inr ⟨hok, base, n, hlog₁.congr rfl rfl rfl rfl rfl, haccepted₁, hn⟩,
        fun hzero => absurd hzero hok⟩
  · have hrc : ¬ s.pc.returnCode = cwpRcOk := hstopped.1
    exact ⟨s, if_neg hrc, Or.inr hstopped, fun hzero => absurd hzero hrc⟩

/-- A barrier can be set anywhere at the end of the log, and released. -/
theorem FileLog.rebar {mark mark' : Option Nat} {base : Nat} {log : List UInt8}
    {s : PackState FilePackEnv} (h : FileLog mark base log s)
    (hmark : mark' = none ∨ mark' = some log.length) :
    FileLog mark' base log (setBarrier s (mark'.map fun _ => s.pc.current)) := by
  have hlength := h.length
  have hge := h.ge
  refine ⟨h.nonempty, h.length_lt, hge, h.le, hlength, h.bytes, ?_, ?_⟩
  · intro b hb
    rcases hmark with rfl | rfl
    · simp at hb
    · obtain rfl := Option.some.inj hb
      omega
  · rcases hmark with rfl | rfl
    · rfl
    · show some s.pc.current = some (s.pc.start + (log.length - base))
      congr 1
      omega

theorem FileState.rebar {mark mark' : Option Nat} {log : List UInt8} {s : PackState FilePackEnv}
    (h : FileState mark log s) (hmark : mark' = none ∨ mark' = some log.length) :
    FileState mark' log (setBarrier s (mark'.map fun _ => s.pc.current)) := by
  have hcut : mark'.getD log.length = log.length := by
    rcases hmark with rfl | rfl <;> rfl
  rcases h with ⟨hrc, base, hlog, haccepted⟩ | ⟨hrc, base, n, hlog, haccepted, hn⟩
  · exact Or.inl ⟨hrc, base, hlog.rebar hmark, haccepted⟩
  · have hle := (hlog.cut_le rfl).2
    exact Or.inr ⟨hrc, base, n, hlog.rebar hmark, haccepted, by rw [hcut]; omega⟩

/-- A fresh context has accepted nothing and holds nothing. -/
theorem fileState_init (hheap : ∀ i n p, malloc i n = some p → n < 2 ^ 63)
    {initialBufferLength : Nat} {s : PackState FilePackEnv}
    (hok : (initFilePackContext malloc initialBufferLength .opened s).pc.returnCode = cwpRcOk) :
    FileState none [] (initFilePackContext malloc initialBufferLength .opened s) := by
  unfold initFilePackContext at hok ⊢
  have hpos : 0 < (if initialBufferLength > 32 then initialBufferLength else 4096) := by
    split <;> omega
  generalize (if initialBufferLength > 32 then initialBufferLength else 4096) = n at hok hpos ⊢
  cases hp : malloc s.env.requests n with
  | none =>
      simp only [hp] at hok
      exact absurd hok (by show ¬ cwpRcMallocError = cwpRcOk; decide)
  | some p =>
      have hlt := hheap _ _ _ hp
      simp only [hp]
      refine Or.inl ⟨rfl, 0, ⟨?_, ?_, Nat.le_refl _, Nat.le_add_right _ _, ?_, ?_, ?_, rfl⟩, rfl⟩
      · show p < p + n
        omega
      · show p + n - p < 2 ^ 63
        omega
      · show 0 + (p - p) = 0
        omega
      · show Memory.bytes _ p (p - p) = []
        rw [Nat.sub_self]
        rfl
      · simp

/-- Every reachable state runs or has stopped. -/
theorem Reaches.state (hheap : ∀ i n p, malloc i n = some p → n < 2 ^ 63)
    {s₀ : PackState FilePackEnv} (hinit : FileState none [] s₀) {log : List UInt8}
    {mark : Option Nat} {s : PackState FilePackEnv}
    (r : Reaches (filePackHandlers 64 malloc results) s₀ log mark s) : FileState mark log s := by
  induction r with
  | init => exact hinit
  | pack _ hop hallowed hcall ih =>
      obtain ⟨s', hcall', hstate⟩ := ih.perform hheap results hop hallowed
      rw [hcall] at hcall'
      obtain rfl := Option.some.inj hcall'
      exact hstate
  | flush _ hcall ih =>
      obtain ⟨s', hcall', hstate, -⟩ := ih.flush malloc results
      rw [hcall] at hcall'
      obtain rfl := Option.some.inj hcall'
      exact hstate
  | setBarrier _ ih => exact ih.rebar (Or.inr rfl)
  | releaseBarrier _ ih => exact ih.rebar (Or.inl rfl)

/-- The barrier stands in the buffer where it was set. -/
theorem FileLog.barrier_spec {b base : Nat} {log : List UInt8} {s : PackState FilePackEnv}
    (h : FileLog (some b) base log s) :
    ∃ p, s.env.barrier = some p ∧ s.pc.start ≤ p ∧ p ≤ s.pc.current ∧
      s.mem.bytes p (s.pc.current - p) = log.drop b := by
  obtain ⟨hlo, hhi⟩ := h.marked b rfl
  have hlength := h.length
  have hge := h.ge
  refine ⟨s.pc.start + (b - base), h.barrier, by omega, by omega, ?_⟩
  have hdrop := s.mem.bytes_drop (p := s.pc.start) (n := s.pc.current - s.pc.start)
    (k := b - base) (by omega)
  have hsub : s.pc.current - (s.pc.start + (b - base)) = s.pc.current - s.pc.start - (b - base) :=
    Nat.sub_add_eq _ _ _
  have hall : base + (b - base) = b := by omega
  rw [hsub, ← hdrop, h.bytes, List.drop_drop, hall]

end Handlers

/-! ## Exactly once -/

/-- File packing writes every byte exactly once, and nothing behind the barrier. -/
theorem file_pack_exactly_once {malloc : Allocator}
    (hheap : ∀ i n p, malloc i n = some p → n < 2 ^ 63) (results : WriteResults)
    (initialBufferLength : Nat) (s₀ : PackState FilePackEnv)
    (hok : (initFilePackContext malloc initialBufferLength .opened s₀).pc.returnCode = cwpRcOk)
    {log : List UInt8} {mark : Option Nat} {s : PackState FilePackEnv}
    (r : Reaches (filePackHandlers 64 malloc results)
      (initFilePackContext malloc initialBufferLength .opened s₀) log mark s) :
    (s.pc.returnCode = cwpRcOk → s.env.fileDescriptor.accepted ++
      s.mem.bytes s.pc.start (s.pc.current - s.pc.start) = log) ∧
    s.env.fileDescriptor.accepted <+: log ∧
    (∀ b, mark = some b → s.env.fileDescriptor.accepted.length ≤ b ∧
      ∃ p, s.env.barrier = some p ∧ s.pc.start ≤ p ∧ p ≤ s.pc.current ∧
        s.mem.bytes p (s.pc.current - p) = log.drop b) ∧
    (∃ s', terminateFilePackContext (filePackHandlers 64 malloc results) s = some s' ∧
      s'.env.fileDescriptor.accepted <+: log ∧
      (s'.pc.returnCode = cwpRcOk → s'.env.fileDescriptor.accepted = log)) ∧
    (∀ op : PackOp, op.Short → (op.IsCall ∨ s.pc.returnCode = cwpRcOk) →
      ∃ s', op.perform (filePackHandlers 64 malloc results) s = some s') ∧
    (∃ s', cwPackFlush (filePackHandlers 64 malloc results) s = some s') := by
  have hstate := r.state hheap (fileState_init hheap hok)
  have hprefix : ∀ {mark : Option Nat} {s : PackState FilePackEnv}, FileState mark log s →
      s.env.fileDescriptor.accepted <+: log := by
    intro mark s h
    rcases h with ⟨-, base, -, haccepted⟩ | ⟨-, base, n, -, haccepted, -⟩
    · rw [haccepted]
      exact List.take_prefix _ _
    · rw [haccepted]
      exact List.take_prefix _ _
  refine ⟨?_, hprefix hstate, ?_, ?_, ?_, ?_⟩
  · intro hrc
    rcases hstate with ⟨-, base, hlog, haccepted⟩ | hstopped
    · rw [haccepted, hlog.bytes, List.take_append_drop]
    · exact absurd hrc hstopped.1
  · intro b hb
    subst hb
    rcases hstate with ⟨-, base, hlog, haccepted⟩ | ⟨-, base, n, hlog, haccepted, hn⟩
    · refine ⟨?_, hlog.barrier_spec⟩
      have hlo := (hlog.marked b rfl).1
      rw [haccepted, List.length_take]
      omega
    · refine ⟨?_, hlog.barrier_spec⟩
      have hle : n ≤ b := hn
      rw [haccepted, List.length_take]
      omega
  · have hreleased : FileState none log (setBarrier s none) := hstate.rebar (Or.inl rfl)
    obtain ⟨s', hflush, hstate', hall⟩ :=
      hreleased.flush malloc results
    refine ⟨s', hflush, hprefix hstate', fun hrc => ?_⟩
    rw [hall hrc]
    exact List.take_length
  · intro op hop hallowed
    obtain ⟨s', hcall, -⟩ := hstate.perform hheap results hop hallowed
    exact ⟨s', hcall⟩
  · obtain ⟨s', hcall, -⟩ := hstate.flush malloc results
    exact ⟨s', hcall⟩

/-- A heap that refuses what no heap has. -/
def boundedHeap (data : Nat) : Allocator := fun _ n => if n < 2 ^ 63 then some data else none

/-- A descriptor that takes one byte at its second call, and all otherwise. -/
def shortSecondWrite : WriteResults := fun i n => if i = 1 then .ok 1 else .ok n

/-- A context before its initialisation. -/
def blankFile : PackState FilePackEnv :=
  ⟨⟨0, 0, 0, false, 0, 0⟩, fun _ => 0, ⟨.opened, none, 0, []⟩⟩

/-- A byte, a barrier, three bytes, and a flush: the first byte is written. -/
theorem file_pack_holds_back_behind_barrier :
    ∃ s, Reaches (filePackHandlers 64 (boundedHeap 0) shortSecondWrite)
        (initFilePackContext (boundedHeap 0) 0 .opened blankFile)
        [0xc0, 0xcd, 0x01, 0x2c] (some 1) s ∧
      s.env.fileDescriptor.accepted ++ s.mem.bytes s.pc.start (s.pc.current - s.pc.start) =
        [0xc0, 0xcd, 0x01, 0x2c] ∧ s.env.fileDescriptor.accepted.length ≤ 1 := by
  have hheap : ∀ i n p, boundedHeap 0 i n = some p → n < 2 ^ 63 := by
    intro i n p h
    unfold boundedHeap at h
    split at h
    · assumption
    · simp at h
  have hshort : (0 : Nat) < 2 ^ 32 - 6 := by decide
  have r₁ := @Reaches.pack (filePackHandlers 64 (boundedHeap 0) shortSecondWrite)
    (initFilePackContext (boundedHeap 0) 0 .opened blankFile) _ _ _ _ (.call .nil) .init hshort
    (Or.inl trivial) rfl
  have r₂ := @Reaches.pack _ _ _ _ _ _ (.call (.unsigned 300)) r₁.setBarrier hshort
    (Or.inl trivial) rfl
  have r₃ := Reaches.flush r₂ rfl
  obtain ⟨hall, -, hmark, -⟩ := file_pack_exactly_once hheap shortSecondWrite 0 blankFile rfl r₃
  exact ⟨_, r₃, hall rfl, (hmark 1 rfl).1⟩

end CWPack.Goodies
