/-
  Goodies/StreamPack.lean --- the stream pack context of
  `src/goodies/basic-contexts/basic_contexts.c`.

  The overflow handler and the user share one flush routine, which writes the
  buffer out and leaves the cursor where it is.  The overflow handler resets the
  cursor afterwards; an explicit `cw_pack_flush` does not, so what it wrote is
  written again by the next flush.

  `StreamLog` counts these bytes.  What a run writes is its log exactly when the
  count is zero, that is, when every explicit flush found the buffer empty.
-/
import CWPack.Core.Sink
import CWPack.Goodies.Buffer

set_option autoImplicit false

namespace CWPack.Goodies

open CWPack.Foundation
open CWPack.Core

variable {σ : Type}

/-! ## Streams -/

/-- What the `i`-th call of `fwrite`, with `n` bytes, comes to: `none` when all are
written, or how many are written and the error indicator. -/
abbrev FwriteResults : Type := Nat → Nat → Option (Nat × Int)

/-- A `FILE` open for writing. -/
structure OutputFile where
  written : List UInt8
  writes : Nat
  error : Int
  deriving DecidableEq, Repr

/-- A `FILE` just opened. -/
def OutputFile.opened : OutputFile := ⟨[], 0, 0⟩

/-- `fwrite(ptr, size, 1, file)` for the `size` bytes `bs` -/
def fwrite (disk : FwriteResults) (bs : List UInt8) (file : OutputFile) : Nat × OutputFile :=
  match disk file.writes bs.length with
  | none => (1, { file with written := file.written ++ bs, writes := file.writes + 1 })
  | some (k, e) =>
      (0, { written := file.written ++ bs.take k, writes := file.writes + 1, error := e })

/-! ## The context -/

/-- What `stream_pack_context` adds, and the requests made to the heap. -/
structure StreamPackEnv where
  file : OutputFile
  requests : Nat
  deriving DecidableEq, Repr

/-- `flush_stream_pack_context` -/
def flushStreamPackContext (w : Nat) (disk : FwriteResults) : PackFlushHandler StreamPackEnv :=
  fun s =>
    let contains := ulongDiff w s.pc.current s.pc.start
    if contains ≠ 0 then
      let (rc, file) := fwrite disk (s.mem.bytes s.pc.start contains) s.env.file
      let s := { s with env.file := file }
      if rc ≠ 1 then some (cwpRcErrorInHandler, { s with pc.errNo := file.error })
      else some (cwpRcOk, s)
    else some (cwpRcOk, s)

/-- `handle_stream_pack_overflow` -/
def handleStreamPackOverflow (w : Nat) (malloc : Allocator) (disk : FwriteResults) :
    PackOverflowHandler StreamPackEnv := fun s more =>
  match flushStreamPackContext w disk s with
  | none => none
  | some (rc, s) =>
      if rc ≠ cwpRcOk then some (rc, s)
      else
        let bufferLength := ulongDiff w s.pc.end_ s.pc.start
        if bufferLength < more then
          match growBuffer w more bufferLength with
          | none => none
          | some bufferLength =>
              let asked := { s with env.requests := s.env.requests + 1 }
              match malloc s.env.requests bufferLength with
              | none => some (cwpRcBufferOverflow, asked)
              | some newBuffer =>
                  some (cwpRcOk, setBuffer asked newBuffer newBuffer (newBuffer + bufferLength))
        else some (cwpRcOk, s.setCurrent s.pc.start)

/-- The handlers of the context. -/
def streamPackHandlers (w : Nat) (malloc : Allocator) (disk : FwriteResults) :
    PackHandlers StreamPackEnv :=
  ⟨some (handleStreamPackOverflow w malloc disk), some (flushStreamPackContext w disk)⟩

/-- `init_stream_pack_context` -/
def initStreamPackContext (malloc : Allocator) (initialBufferLength : Nat) (file : OutputFile)
    (s : PackState StreamPackEnv) : PackState StreamPackEnv :=
  let bufferLength := if initialBufferLength > 0 then initialBufferLength else 4096
  let asked := { s with env.requests := s.env.requests + 1 }
  match malloc s.env.requests bufferLength with
  | none => asked.setReturnCode cwpRcMallocError
  | some buffer => cwPackContextInit buffer bufferLength { asked with env.file := file }

/-- `terminate_stream_pack_context`, less the release of the buffer -/
def terminateStreamPackContext (H : PackHandlers StreamPackEnv) (s : PackState StreamPackEnv) :
    Option (PackState StreamPackEnv) := cwPackFlush H s

/-! ## Runs -/

/-- What a user of a stream pack context can do between initialisation and the end. -/
inductive StreamOp where
  | pack (op : PackOp)
  | flush

/-- Perform an operation. -/
def StreamOp.perform (H : PackHandlers σ) : StreamOp → PackState σ → Option (PackState σ)
  | .pack op, s => op.perform H s
  | .flush, s => cwPackFlush H s

/-- The packing operations of a run. -/
def packs : List StreamOp → List PackOp
  | [] => []
  | .pack op :: ops => op :: packs ops
  | .flush :: ops => packs ops

/-- Every explicit flush of the run finds the buffer empty. -/
def FlushesEmpty (H : PackHandlers σ) : List StreamOp → PackState σ → Prop
  | [], _ => True
  | .pack op :: ops, s => ∀ s', op.perform H s = some s' → FlushesEmpty H ops s'
  | .flush :: ops, s =>
      s.pc.current = s.pc.start ∧ ∀ s', cwPackFlush H s = some s' → FlushesEmpty H ops s'

/-! ## The invariant -/

/-- The file and the buffer together hold the log and `surplus` bytes more. -/
structure StreamLog (surplus : Nat) (log : List UInt8) (s : PackState StreamPackEnv) : Prop where
  returnCode : s.pc.returnCode = 0
  nonempty : s.pc.start < s.pc.end_
  length_lt : s.pc.end_ - s.pc.start < 2 ^ 64
  ge : s.pc.start ≤ s.pc.current
  le : s.pc.current ≤ s.pc.end_
  length : s.env.file.written.length + (s.pc.current - s.pc.start) = log.length + surplus
  content : surplus = 0 →
    s.env.file.written ++ s.mem.bytes s.pc.start (s.pc.current - s.pc.start) = log

/-- Appending to the buffer extends the log. -/
theorem StreamLog.append {surplus : Nat} {log bs : List UInt8} {s : PackState StreamPackEnv}
    (h : StreamLog surplus log s) (hfit : s.pc.current + bs.length ≤ s.pc.end_) :
    StreamLog surplus (log ++ bs) (s.append bs) := by
  have hge := h.ge
  have hlength := h.length
  have hsub : s.pc.current + bs.length - s.pc.start = s.pc.current - s.pc.start + bs.length := by
    omega
  refine ⟨h.returnCode, h.nonempty, h.length_lt, ?_, hfit, ?_, ?_⟩
  · show s.pc.start ≤ s.pc.current + bs.length
    omega
  · show s.env.file.written.length + (s.pc.current + bs.length - s.pc.start) =
      (log ++ bs).length + surplus
    rw [List.length_append]
    omega
  · intro hzero
    show s.env.file.written ++
      (s.mem.write s.pc.current bs).bytes s.pc.start (s.pc.current + bs.length - s.pc.start) =
        log ++ bs
    rw [Memory.bytes_write_append _ _ hge, ← List.append_assoc, h.content hzero]

section Handlers

variable {malloc : Allocator} {disk : FwriteResults}

/-- A flush writes the buffer out and touches neither the buffer nor the cursor. -/
theorem flushStreamPackContext_spec (hdisk : ∀ i n, disk i n = none) {surplus : Nat}
    {log : List UInt8} {s : PackState StreamPackEnv} (h : StreamLog surplus log s) :
    ∃ file, flushStreamPackContext 64 disk s = some (cwpRcOk, { s with env.file := file }) ∧
      file.written = s.env.file.written ++ s.mem.bytes s.pc.start (s.pc.current - s.pc.start) := by
  have hge := h.ge
  have hle := h.le
  have hlt := h.length_lt
  have hcontains : ulongDiff 64 s.pc.current s.pc.start = s.pc.current - s.pc.start :=
    ulongDiff_of_le hge (by omega)
  simp only [flushStreamPackContext, hcontains]
  by_cases hempty : s.pc.current - s.pc.start = 0
  · rw [if_neg (not_not_intro hempty)]
    refine ⟨s.env.file, rfl, ?_⟩
    rw [hempty, Memory.bytes_zero, List.append_nil]
  · rw [if_pos hempty]
    simp only [fwrite, hdisk]
    exact ⟨_, rfl, rfl⟩

/-- With the cursor back at the start of a block, all of the log is in the file. -/
theorem StreamLog.reset {surplus : Nat} {log : List UInt8} {s s' : PackState StreamPackEnv}
    (h : StreamLog surplus log s) (hrc : s'.pc.returnCode = 0)
    (hnonempty : s'.pc.start < s'.pc.end_) (hlt : s'.pc.end_ - s'.pc.start < 2 ^ 64)
    (hcur : s'.pc.current = s'.pc.start)
    (hwritten : s'.env.file.written =
      s.env.file.written ++ s.mem.bytes s.pc.start (s.pc.current - s.pc.start)) :
    StreamLog surplus log s' := by
  have hzero : s'.pc.current - s'.pc.start = 0 := by omega
  refine ⟨hrc, hnonempty, hlt, by omega, by omega, ?_, fun hsurplus => ?_⟩
  · rw [hzero, hwritten, List.length_append, Memory.bytes_length]
    exact h.length
  · rw [hzero, hwritten, Memory.bytes_zero, List.append_nil]
    exact h.content hsurplus

/-- The overflow handler writes the buffer out and makes room in an empty one. -/
theorem handleStreamPackOverflow_spec (hheap : ∀ i n, (malloc i n).isSome)
    (hdisk : ∀ i n, disk i n = none) {surplus : Nat} {log : List UInt8}
    {s : PackState StreamPackEnv} {more : Nat} (h : StreamLog surplus log s)
    (hmore : more < 2 ^ 32) :
    ∃ s', handleStreamPackOverflow 64 malloc disk s more = some (cwpRcOk, s') ∧
      StreamLog surplus log s' ∧ s'.pc.beCompatible = s.pc.beCompatible ∧
      s'.pc.current + more ≤ s'.pc.end_ := by
  obtain ⟨file, hflush, hwritten⟩ := flushStreamPackContext_spec hdisk h
  have hnonempty := h.nonempty
  have hlt := h.length_lt
  have hlength : ulongDiff 64 s.pc.end_ s.pc.start = s.pc.end_ - s.pc.start :=
    ulongDiff_of_le (by omega) hlt
  simp only [handleStreamPackOverflow, hflush, hlength]
  rw [if_neg (not_not_intro rfl)]
  by_cases hsmall : s.pc.end_ - s.pc.start < more
  · rw [if_pos hsmall]
    obtain ⟨n, hgrow, hn, hgrown, hltn⟩ := growBuffer_spec 64 more (s.pc.end_ - s.pc.start)
      (by omega) (by omega) hlt
    obtain ⟨p, hp⟩ := Option.isSome_iff_exists.mp (hheap s.env.requests n)
    simp only [hgrow, hp]
    refine ⟨_, rfl, h.reset h.returnCode ?_ ?_ rfl hwritten, rfl, ?_⟩
    · show p < p + n
      omega
    · show p + n - p < 2 ^ 64
      omega
    · show p + more ≤ p + n
      omega
  · rw [if_neg hsmall]
    refine ⟨_, rfl, h.reset h.returnCode hnonempty hlt rfl hwritten, rfl, ?_⟩
    show s.pc.start + more ≤ s.pc.end_
    omega

/-- With a file and a heap that do not fail, the context does not fail. -/
theorem stream_sinks (hheap : ∀ i n, (malloc i n).isSome) (hdisk : ∀ i n, disk i n = none)
    (surplus limit : Nat) :
    Sinks (streamPackHandlers 64 malloc disk) False limit (StreamLog surplus)
      (fun _ _ => False) (fun _ _ => True) where
  running := fun h => ⟨h.returnCode, h.le⟩
  mode := fun h =>
    ⟨⟨h.returnCode, h.nonempty, h.length_lt, h.ge, h.le, h.length, h.content⟩, trivial⟩
  emits := by
    intro log s bs h hlt _
    refine emit_rule hlt (fun hfit => ⟨rfl, trivial, Or.inl (h.append hfit)⟩) (fun _ => ?_)
    obtain ⟨s', hcall, hlog, hmode, hroom⟩ := handleStreamPackOverflow_spec hheap hdisk h hlt
    show Ends _ _ (handleStreamPackOverflow 64 malloc disk s bs.length)
    rw [hcall, ends_some, if_pos rfl]
    exact ⟨hmode, trivial, Or.inl (hlog.append hroom)⟩

/-- An explicit flush leaves in the buffer what it has written. -/
theorem cwPackFlush_stream (malloc : Allocator) (hdisk : ∀ i n, disk i n = none)
    {surplus : Nat} {log : List UInt8}
    {s : PackState StreamPackEnv} (h : StreamLog surplus log s) :
    ∃ s', cwPackFlush (streamPackHandlers 64 malloc disk) s = some s' ∧
      StreamLog (surplus + (s.pc.current - s.pc.start)) log s' ∧
      s'.pc.beCompatible = s.pc.beCompatible ∧
      s'.env.file.written =
        s.env.file.written ++ s.mem.bytes s.pc.start (s.pc.current - s.pc.start) := by
  obtain ⟨file, hflush, hwritten⟩ := flushStreamPackContext_spec hdisk h
  have hok : s.pc.returnCode = cwpRcOk := h.returnCode
  have hcall : cwPackFlush (streamPackHandlers 64 malloc disk) s =
      some (PackState.setReturnCode { s with env.file := file } cwpRcOk) := by
    simp only [cwPackFlush, streamPackHandlers, hflush]
    rw [if_pos hok]
  refine ⟨_, hcall, ⟨rfl, h.nonempty, h.length_lt, h.ge, h.le, ?_, fun hzero => ?_⟩, rfl, hwritten⟩
  · show file.written.length + (s.pc.current - s.pc.start) = _
    have hlength := h.length
    rw [hwritten, List.length_append, Memory.bytes_length]
    omega
  · show file.written ++ s.mem.bytes s.pc.start (s.pc.current - s.pc.start) = log
    have hempty : s.pc.current - s.pc.start = 0 := by omega
    have hcontent := h.content (by omega)
    rw [hempty, Memory.bytes_zero, List.append_nil] at hcontent hwritten ⊢
    rw [hwritten, hcontent]

/-- A run extends the log by its encodings, and the surplus by what explicit flushes
found in the buffer. -/
theorem stream_run (hheap : ∀ i n, (malloc i n).isSome) (hdisk : ∀ i n, disk i n = none)
    {ops : List StreamOp} (hshort : ∀ op ∈ packs ops, op.Short) {surplus : Nat}
    {log : List UInt8} {s : PackState StreamPackEnv} (h : StreamLog surplus log s)
    (hlegal : Legal s.pc.beCompatible (packs ops)) :
    ∃ s' surplus', run (StreamOp.perform (streamPackHandlers 64 malloc disk)) ops s = some s' ∧
      StreamLog surplus' (log ++ concat (encodings s.pc.beCompatible (packs ops))) s' ∧
      surplus ≤ surplus' ∧
      (surplus' = surplus ↔ FlushesEmpty (streamPackHandlers 64 malloc disk) ops s) := by
  induction ops generalizing surplus log s with
  | nil =>
      refine ⟨s, surplus, rfl, ?_, Nat.le_refl _, fun _ => trivial, fun _ => rfl⟩
      rw [packs, encodings, concat, List.append_nil]
      exact h
  | cons op ops ih =>
      cases op with
      | pack op =>
          obtain ⟨bs, henc, hrest, hconcat⟩ := legal_cons hlegal
          have hstep := (stream_sinks hheap hdisk surplus (log.length + bs.length)).perform
            (hshort op List.mem_cons_self) h fun bs' hbs' => by
              rw [henc] at hbs'
              obtain rfl := Except.ok.inj hbs'
              exact Nat.le_refl _
          obtain ⟨s₁, hcall, hmode, hcase⟩ := hstep.exists_of_not_stuck
          rw [henc] at hcase
          have hlog := hcase.2.resolve_right id
          rw [← hmode] at hrest hconcat
          obtain ⟨s', surplus', hrun, hlog', hle, hiff⟩ :=
            ih (fun o ho => hshort o (List.mem_cons_of_mem op ho)) hlog hrest
          refine ⟨s', surplus', ?_, ?_, hle, ?_⟩
          · have hop : (StreamOp.pack op).perform (streamPackHandlers 64 malloc disk) s = some s₁ :=
              hcall
            rw [run_cons_of_some ops hop, hrun]
          · rw [packs, hconcat, ← List.append_assoc]
            exact hlog'
          · rw [hiff]
            refine ⟨fun hempty t ht => ?_, fun hempty => hempty s₁ hcall⟩
            rw [hcall] at ht
            obtain rfl := Option.some.inj ht
            exact hempty
      | flush =>
          obtain ⟨s₁, hcall, hlog, hmode, -⟩ :=
            cwPackFlush_stream malloc hdisk h
          have hrest : Legal s₁.pc.beCompatible (packs ops) := by
            rw [hmode]
            exact hlegal
          obtain ⟨s', surplus', hrun, hlog', hle, hiff⟩ := ih hshort hlog hrest
          refine ⟨s', surplus', ?_, ?_, by omega, ?_⟩
          · have hop : StreamOp.flush.perform (streamPackHandlers 64 malloc disk) s = some s₁ :=
              hcall
            rw [run_cons_of_some ops hop, hrun]
          · rw [hmode] at hlog'
            exact hlog'
          · have hge := h.ge
            constructor
            · intro heq
              refine ⟨by omega, fun t ht => ?_⟩
              rw [hcall] at ht
              obtain rfl := Option.some.inj ht
              exact hiff.mp (by omega)
            · intro hboth
              obtain ⟨hempty, hall⟩ := hboth
              have hsame := hiff.mpr (hall s₁ hcall)
              omega

/-- A fresh context has written nothing and holds nothing. -/
theorem streamLog_init (hheap : ∀ i n, (malloc i n).isSome) {initialBufferLength : Nat}
    (hlt : initialBufferLength < 2 ^ 64) (s : PackState StreamPackEnv) :
    StreamLog 0 [] (initStreamPackContext malloc initialBufferLength .opened s) ∧
      (initStreamPackContext malloc initialBufferLength .opened s).pc.beCompatible = false := by
  unfold initStreamPackContext
  have hpos := initialLength_bounds 4096 (by decide) hlt
  obtain ⟨p, hp⟩ := Option.isSome_iff_exists.mp (hheap s.env.requests
    (if initialBufferLength > 0 then initialBufferLength else 4096))
  simp only [hp]
  refine ⟨⟨rfl, ?_, ?_, Nat.le_refl _, Nat.le_add_right _ _, ?_, fun _ => ?_⟩, rfl⟩
  · exact Nat.lt_add_of_pos_right hpos.1
  · show p + _ - p < 2 ^ 64
    rw [Nat.add_sub_cancel_left]
    exact hpos.2
  · show 0 + (p - p) = 0 + 0
    rw [Nat.sub_self]
  · show [] ++ Memory.bytes _ p (p - p) = []
    rw [Nat.sub_self]
    rfl

end Handlers

/-! ## What is written -/

/-- Every packing call of the run has an encoding, and the file holds these encodings one after
another. -/
def WritesOnce (ops : List StreamOp) (written : List UInt8) : Prop :=
  ∃ encs : List (List UInt8), encodings false (packs ops) = encs.map .ok ∧ written = encs.flatten

theorem concat_map_ok (encs : List (List UInt8)) : concat (encs.map .ok) = encs.flatten := by
  induction encs with
  | nil => rfl
  | cons bs encs ih => rw [List.map_cons, concat, ih, List.flatten_cons]

theorem exists_map_ok {encs : List (Except Int (List UInt8))}
    (h : ∀ enc ∈ encs, ∃ bs, enc = .ok bs) : ∃ bss : List (List UInt8), encs = bss.map .ok := by
  induction encs with
  | nil => exact ⟨[], rfl⟩
  | cons enc encs ih =>
      obtain ⟨bs, rfl⟩ := h enc List.mem_cons_self
      obtain ⟨bss, rfl⟩ := ih fun e he => h e (List.mem_cons_of_mem _ he)
      exact ⟨bs :: bss, rfl⟩

/-- The encodings are written once each exactly if there are any for all calls, and the file holds
their concatenation. -/
theorem writesOnce_iff {ops : List StreamOp} {written : List UInt8} :
    WritesOnce ops written ↔
      Legal false (packs ops) ∧ written = concat (encodings false (packs ops)) := by
  constructor
  · rintro ⟨encs, hencs, rfl⟩
    refine ⟨fun enc henc => ?_, by rw [hencs, concat_map_ok]⟩
    rw [hencs] at henc
    obtain ⟨bs, -, rfl⟩ := List.mem_map.mp henc
    exact ⟨bs, rfl⟩
  · rintro ⟨hlegal, rfl⟩
    obtain ⟨encs, hencs⟩ := exists_map_ok hlegal
    exact ⟨encs, hencs, by rw [hencs, concat_map_ok]⟩

/-- What a terminated run has written is the encodings of its calls, once each, exactly when no
call is refused and every explicit flush finds the buffer empty.  Where no call is refused the run
ends well in any case. -/
theorem stream_writes_once_iff (malloc : Allocator) (hheap : ∀ i n, (malloc i n).isSome)
    (disk : FwriteResults) (hdisk : ∀ i n, disk i n = none) (initialBufferLength : Nat)
    (hinit : initialBufferLength < 2 ^ 64) (ops : List StreamOp)
    (hshort : ∀ op ∈ packs ops, op.Short) (s : PackState StreamPackEnv) :
    let H := streamPackHandlers 64 malloc disk
    let s₀ := initStreamPackContext malloc initialBufferLength .opened s
    (Legal false (packs ops) → ∃ s₁ s₂, run (StreamOp.perform H) ops s₀ = some s₁ ∧
      terminateStreamPackContext H s₁ = some s₂ ∧ s₂.pc.returnCode = cwpRcOk) ∧
    ((∃ s₁ s₂, run (StreamOp.perform H) ops s₀ = some s₁ ∧
        terminateStreamPackContext H s₁ = some s₂ ∧ WritesOnce ops s₂.env.file.written) ↔
      Legal false (packs ops) ∧ FlushesEmpty H ops s₀) := by
  intro H s₀
  have hends : Legal false (packs ops) → ∃ s₁ s₂, run (StreamOp.perform H) ops s₀ = some s₁ ∧
      terminateStreamPackContext H s₁ = some s₂ ∧ s₂.pc.returnCode = cwpRcOk ∧
      (s₂.env.file.written = concat (encodings false (packs ops)) ↔ FlushesEmpty H ops s₀) := by
    intro hlegal
    obtain ⟨hlog₀, hcompat⟩ := streamLog_init hheap hinit s
    obtain ⟨s₁, surplus, hrun, hlog, -, hiff⟩ := stream_run hheap hdisk hshort hlog₀
      (by rw [hcompat]; exact hlegal)
    rw [hcompat, List.nil_append] at hlog
    obtain ⟨s₂, hflush, hlog₂, -, hwritten⟩ := cwPackFlush_stream malloc hdisk hlog
    refine ⟨s₁, s₂, hrun, hflush, hlog₂.returnCode, ?_⟩
    rw [← hiff, hwritten]
    constructor
    · intro heq
      have hlen := congrArg List.length heq
      have hlength := hlog.length
      rw [List.length_append, Memory.bytes_length] at hlen
      omega
    · intro hzero
      exact hlog.content hzero
  refine ⟨fun hlegal => ?_, ?_, ?_⟩
  · obtain ⟨s₁, s₂, hrun, hterm, hrc, -⟩ := hends hlegal
    exact ⟨s₁, s₂, hrun, hterm, hrc⟩
  · rintro ⟨t₁, t₂, hrun, hterm, honce⟩
    obtain ⟨hlegal, hwritten⟩ := writesOnce_iff.mp honce
    obtain ⟨s₁, s₂, hrun', hterm', -, hiff⟩ := hends hlegal
    obtain rfl := Option.some.inj (hrun.symm.trans hrun')
    obtain rfl := Option.some.inj (hterm.symm.trans hterm')
    exact ⟨hlegal, hiff.mp hwritten⟩
  · rintro ⟨hlegal, hempty⟩
    obtain ⟨s₁, s₂, hrun, hterm, -, hiff⟩ := hends hlegal
    exact ⟨s₁, s₂, hrun, hterm, writesOnce_iff.mpr ⟨hlegal, hiff.mpr hempty⟩⟩

/-- A file that takes everything. -/
def reliableDisk : FwriteResults := fun _ _ => none

/-- A context before its initialisation. -/
def blankStream : PackState StreamPackEnv :=
  ⟨⟨0, 0, 0, false, 0, 0⟩, fun _ => 0, ⟨.opened, 0⟩⟩

/-- A null and a number of two bytes, through a buffer of two bytes. -/
theorem stream_writes_once_without_flush :
    let H := streamPackHandlers 64 (fixedHeap 0) reliableDisk
    let s₀ := initStreamPackContext (fixedHeap 0) 2 .opened blankStream
    ∃ s₁ s₂, run (StreamOp.perform H) [.pack (.call .nil), .pack (.call (.unsigned 300))] s₀ =
        some s₁ ∧ terminateStreamPackContext H s₁ = some s₂ ∧
      WritesOnce [.pack (.call .nil), .pack (.call (.unsigned 300))] s₂.env.file.written := by
  intro H s₀
  have hshort : ∀ op ∈ [PackOp.call .nil, .call (.unsigned 300)], op.Short := by
    simp [PackOp.Short, PackCall.payload]
  have hlegal : Legal false [.call .nil, .call (.unsigned 300)] := by
    simp [Legal, encodings, PackCall.encoding, PackCall.refusal]
  obtain ⟨-, hiff⟩ :=
    stream_writes_once_iff (fixedHeap 0) (fun _ _ => rfl) reliableDisk (fun _ _ => rfl) 2
      (by decide) [.pack (.call .nil), .pack (.call (.unsigned 300))] hshort blankStream
  exact hiff.mpr ⟨hlegal, fun _ _ _ _ => trivial⟩

/-- A flush between a call and the end: the byte is written twice. -/
theorem stream_flush_writes_twice :
    let H := streamPackHandlers 64 (fixedHeap 0) reliableDisk
    let s₀ := initStreamPackContext (fixedHeap 0) 2 .opened blankStream
    ∃ s₁ s₂, run (StreamOp.perform H) [.pack (.call .nil), .flush] s₀ = some s₁ ∧
      terminateStreamPackContext H s₁ = some s₂ ∧
      s₂.env.file.written = [0xc0, 0xc0] ∧
      s₂.env.file.written ≠ concat (encodings false (packs [.pack (.call .nil), .flush])) :=
  ⟨_, _, rfl, rfl, rfl, by decide⟩

end CWPack.Goodies
