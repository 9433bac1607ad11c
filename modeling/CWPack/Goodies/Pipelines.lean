/-
  Goodies/Pipelines.lean --- from a packing context through a file to an unpacking
  context.

  Whatever a descriptor has accepted of a run, at any moment and after any failure,
  spells out a first part of the values packed, up to a piece of one more.  A file
  unpack context on these bytes shows the values that are whole and then stops;
  it never shows a value that was not packed.  Where the run has been terminated
  OK, it shows them all.  The same holds of streams, in runs whose explicit
  flushes find the buffer empty.
-/
import CWPack.Core.Spelling
import CWPack.Goodies.Copies
import CWPack.Goodies.StreamPack
import CWPack.Goodies.StreamReads

set_option autoImplicit false

namespace CWPack.Goodies

open CWPack.Foundation
open CWPack.Core
open CWPack.MessagePack

/-! ## A run of a file pack context -/

/-- The packing operations of a run. -/
def filePacks : List FilePackOp → List PackOp
  | [] => []
  | .pack op :: ops => op :: filePacks ops
  | _ :: ops => filePacks ops

/-- The operations of a run whose values can be read back. -/
def Readable (ops : List FilePackOp) : Prop := ∀ op ∈ filePacks ops, op.RoundTrips ∧ op.Short

theorem readable_cons {op : FilePackOp} {ops : List FilePackOp} (h : Readable (op :: ops)) :
    Readable ops := by
  intro o ho
  cases op with
  | pack op => exact h o (List.mem_cons_of_mem op ho)
  | _ => exact h o ho

section Producer

variable {malloc : Allocator} {results : WriteResults}

/-- A context that has stopped stays so, with the log as it is. -/
theorem FileStopped.run {ops : List FilePackOp} (hops : Readable ops) {mark : Option Nat}
    {log : List UInt8} {s : PackState FilePackEnv} (h : FileStopped mark log s) :
    ∃ s' mark', Foundation.run (FilePackOp.perform (filePackHandlers 64 malloc results)) ops s =
        some s' ∧ FileStopped mark' log s' := by
  induction ops generalizing mark s with
  | nil => exact ⟨s, mark, rfl, h⟩
  | cons op ops ih =>
      have hrc : s.pc.returnCode ≠ 0 := h.1
      have hrest := readable_cons hops
      have hrebar : ∀ {mark' : Option Nat}, mark' = none ∨ mark' = some log.length →
          FileStopped mark' log (Goodies.setBarrier s (mark'.map fun _ => s.pc.current)) := by
        intro mark' hmark
        exact (FileState.rebar (Or.inr h) hmark).resolve_left fun hruns => hrc hruns.1
      cases op with
      | pack op =>
          cases op with
          | insert v => exact ((hops _ List.mem_cons_self).1).elim
          | call c =>
              obtain ⟨s', mark', hrun, hstopped⟩ := ih hrest h
              refine ⟨s', mark', ?_, hstopped⟩
              have hop : (FilePackOp.pack (.call c)).perform (filePackHandlers 64 malloc results) s =
                  some s := cwPack_of_stopped _ c hrc
              rw [run_cons_of_some ops hop, hrun]
          | setCompatibility b =>
              obtain ⟨-, base, n, hlog, haccepted, hn⟩ := h
              have hset : FileStopped mark log (cwPackSetCompatibility b s) :=
                ⟨hrc, base, n, hlog.congr rfl rfl rfl rfl rfl, haccepted, hn⟩
              obtain ⟨s', mark', hrun, hstopped⟩ := ih hrest hset
              refine ⟨s', mark', ?_, hstopped⟩
              have hop : (FilePackOp.pack (.setCompatibility b)).perform
                  (filePackHandlers 64 malloc results) s = some (cwPackSetCompatibility b s) := rfl
              rw [run_cons_of_some ops hop, hrun]
      | flush =>
          obtain ⟨s', mark', hrun, hstopped⟩ := ih hrest h
          refine ⟨s', mark', ?_, hstopped⟩
          have hop : FilePackOp.flush.perform (filePackHandlers 64 malloc results) s = some s :=
            if_neg hrc
          rw [run_cons_of_some ops hop, hrun]
      | setBarrier =>
          obtain ⟨s', mark', hrun, hstopped⟩ := ih hrest (hrebar (Or.inr rfl))
          exact ⟨s', mark', by rw [run_cons_of_some ops rfl]; exact hrun, hstopped⟩
      | releaseBarrier =>
          obtain ⟨s', mark', hrun, hstopped⟩ := ih hrest (hrebar (Or.inl rfl))
          exact ⟨s', mark', by rw [run_cons_of_some ops rfl]; exact hrun, hstopped⟩

/-- A flush keeps the mode. -/
theorem FileRuns.flush (malloc : Allocator) (results : WriteResults) {mark : Option Nat}
    {log : List UInt8} {s : PackState FilePackEnv} (h : FileRuns mark log s) :
    ∃ s', cwPackFlush (filePackHandlers 64 malloc results) s = some s' ∧ FileState mark log s' ∧
      s'.pc.beCompatible = s.pc.beCompatible := by
  obtain ⟨s', hcall, hstate, -⟩ := FileState.flush malloc results (Or.inl h)
  obtain ⟨hrc, base, hlog, haccepted⟩ := h
  obtain ⟨⟨rc, s₁⟩, hflush, ⟨hmode, -⟩, -⟩ :=
    (flushFilePackContext_spec results hlog rfl haccepted).exists_of_not_stuck
  refine ⟨s', hcall, hstate, ?_⟩
  simp only [cwPackFlush, filePackHandlers, hflush] at hcall
  rw [if_pos hrc] at hcall
  obtain rfl := Option.some.inj hcall
  exact hmode

/-- A context starts in the mode that is not compatible. -/
theorem beCompatible_initFilePackContext {initialBufferLength : Nat} {s : PackState FilePackEnv}
    (hok : (initFilePackContext malloc initialBufferLength .opened s).pc.returnCode = cwpRcOk) :
    (initFilePackContext malloc initialBufferLength .opened s).pc.beCompatible = false := by
  unfold initFilePackContext at hok ⊢
  cases hp : malloc s.env.requests
      (if initialBufferLength > 32 then initialBufferLength else 4096) with
  | none =>
      simp only [hp] at hok
      exact absurd hok (by show ¬ cwpRcMallocError = cwpRcOk; decide)
  | some p =>
      simp only [hp]
      rfl

/-- A run spells out a first part of its values in the log, and all of them if it is
still running at its end. -/
theorem FileRuns.run (results : WriteResults)
    (hheap : ∀ i n p, malloc i n = some p → n < 2 ^ 63) {ops : List FilePackOp}
    (hops : Readable ops) {mark : Option Nat} {log : List UInt8} {s : PackState FilePackEnv}
    (h : FileRuns mark log s) {vs : List Value} (hvs : SpellsOut vs log) :
    ∃ s' mark' log' ws,
      Foundation.run (FilePackOp.perform (filePackHandlers 64 malloc results)) ops s = some s' ∧
      FileState mark' log' s' ∧ SpellsOut (vs ++ ws) log' ∧
      ws <+: received s.pc.beCompatible (filePacks ops) ∧
      (s'.pc.returnCode = cwpRcOk → ws = received s.pc.beCompatible (filePacks ops)) := by
  induction ops generalizing mark log s vs with
  | nil =>
      exact ⟨s, mark, log, [], rfl, Or.inl h, by rw [List.append_nil]; exact hvs,
        List.prefix_refl _, fun _ => rfl⟩
  | cons op ops ih =>
      have hrest := readable_cons hops
      -- what follows an operation that adds no value
      have hstep : ∀ {mark₁ : Option Nat} {s₁ : PackState FilePackEnv},
          op.perform (filePackHandlers 64 malloc results) s = some s₁ →
          FileState mark₁ log s₁ →
          (FileRuns mark₁ log s₁ → received s.pc.beCompatible (filePacks (op :: ops)) =
            received s₁.pc.beCompatible (filePacks ops)) →
          ∃ s' mark' log' ws,
            Foundation.run (FilePackOp.perform (filePackHandlers 64 malloc results)) (op :: ops) s =
              some s' ∧
            FileState mark' log' s' ∧ SpellsOut (vs ++ ws) log' ∧
            ws <+: received s.pc.beCompatible (filePacks (op :: ops)) ∧
            (s'.pc.returnCode = cwpRcOk →
              ws = received s.pc.beCompatible (filePacks (op :: ops))) := by
        intro mark₁ s₁ hop hstate hsame
        rcases hstate with hruns | hstopped
        · obtain ⟨s', mark', log', ws, hrun, hstate', hspell, hprefix, hall⟩ := ih hrest hruns hvs
          rw [hsame hruns]
          exact ⟨s', mark', log', ws, by rw [run_cons_of_some ops hop, hrun], hstate', hspell,
            hprefix, hall⟩
        · obtain ⟨s', mark', hrun, hstopped'⟩ := hstopped.run hrest
          exact ⟨s', mark', log, [], by rw [run_cons_of_some ops hop, hrun], Or.inr hstopped',
            by rw [List.append_nil]; exact hvs, List.nil_prefix,
            fun hrc => absurd hrc hstopped'.1⟩
      cases op with
      | flush =>
          obtain ⟨s₁, hcall, hstate, hmode⟩ := h.flush malloc results
          refine hstep hcall hstate fun _ => ?_
          rw [hmode]
          rfl
      | setBarrier => exact hstep rfl (FileState.rebar (Or.inl h) (Or.inr rfl)) fun _ => rfl
      | releaseBarrier => exact hstep rfl (FileState.rebar (Or.inl h) (Or.inl rfl)) fun _ => rfl
      | pack op =>
          obtain ⟨hround, hshort⟩ := hops op List.mem_cons_self
          have S := file_sinks hheap results mark
            (log.length + (concat [op.encoding s.pc.beCompatible]).length)
          obtain ⟨s₁, hcall, hmode, hcase⟩ := (S.perform hshort h fun bs hbs => by
            rw [hbs]
            simp only [concat, List.append_nil]
            exact Nat.le_refl _).exists_of_not_stuck
          cases op with
          | insert v => exact hround.elim
          | setCompatibility b =>
              obtain ⟨-, hcase⟩ := hcase
              rw [List.append_nil] at hcase
              refine hstep hcall hcase fun _ => ?_
              rw [hmode]
              rfl
          | call c =>
              cases henc : (PackOp.call c).encoding s.pc.beCompatible with
              | error e =>
                  rw [henc] at hcase
                  have he := PackOp.encoding_error henc
                  have hstopped : FileStopped mark log s₁ := by
                    rw [hcase]
                    exact h.stop he
                  exact hstep hcall (Or.inr hstopped) fun hruns => absurd hruns.1 hstopped.1
              | ok bs =>
                  rw [henc] at hcase
                  rcases hcase.2 with hruns | hstopped
                  · have hspell := hvs.append (spellsOut_singleton (spells_encoding henc hround))
                    obtain ⟨s', mark', log', ws, hrun, hstate', hspell', hprefix, hall⟩ :=
                      ih hrest hruns hspell
                    rw [hmode] at hprefix hall
                    refine ⟨s', mark', log', c.received s.pc.beCompatible :: ws, ?_, hstate', ?_,
                      ?_, ?_⟩
                    · rw [run_cons_of_some ops hcall, hrun]
                    · rw [List.append_cons]
                      exact hspell'
                    · exact (List.prefix_cons_inj _).mpr hprefix
                    · intro hrc
                      rw [hall hrc]
                      rfl
                  · exact hstep hcall (Or.inr hstopped) fun hruns => absurd hruns.1 hstopped.1

/-- What has been accepted is a part of the log. -/
theorem FileState.accepted_prefix {mark : Option Nat} {log : List UInt8}
    {s : PackState FilePackEnv} (h : FileState mark log s) :
    s.env.fileDescriptor.accepted <+: log := by
  rcases h with ⟨-, base, -, haccepted⟩ | ⟨-, base, n, -, haccepted, -⟩
  · rw [haccepted]
    exact List.take_prefix _ _
  · rw [haccepted]
    exact List.take_prefix _ _

/-- What the descriptor has accepted of a run, at its end and after termination, is a part of a
log that spells out a first part of the values; all of a log of all, where the end is OK. -/
theorem file_pack_spells (hheap : ∀ i n p, malloc i n = some p → n < 2 ^ 63)
    (results : WriteResults) (initialBufferLength : Nat) (s₀ : PackState FilePackEnv)
    (hok : (initFilePackContext malloc initialBufferLength .opened s₀).pc.returnCode = cwpRcOk)
    {ops : List FilePackOp} (hops : Readable ops) :
    let H := filePackHandlers 64 malloc results
    ∃ s₁ s₂ log vs, run (FilePackOp.perform H) ops
        (initFilePackContext malloc initialBufferLength .opened s₀) = some s₁ ∧
      terminateFilePackContext H s₁ = some s₂ ∧ SpellsOut vs log ∧
      vs <+: received false (filePacks ops) ∧
      (∀ s ∈ [s₁, s₂], s.env.fileDescriptor.accepted <+: log) ∧
      (s₂.pc.returnCode = cwpRcOk →
        s₂.env.fileDescriptor.accepted = log ∧ vs = received false (filePacks ops)) := by
  intro H
  have hinit := fileState_init hheap hok
  have hmode := beCompatible_initFilePackContext hok
  have hruns : FileRuns none [] (initFilePackContext malloc initialBufferLength .opened s₀) :=
    hinit.resolve_right fun hstopped => hstopped.1 hok
  have hnone : SpellsOut [] [] := rfl
  obtain ⟨s₁, mark, log, vs, hrun, hstate, hspell, hprefix, hall⟩ :=
    hruns.run results hheap hops hnone
  rw [hmode] at hprefix hall
  rw [List.nil_append] at hspell
  have hreleased : FileState none log (setBarrier s₁ none) := hstate.rebar (Or.inl rfl)
  obtain ⟨s₂, hterm, hstate₂, haccepted⟩ := hreleased.flush malloc results
  refine ⟨s₁, s₂, log, vs, hrun, hterm, hspell, hprefix, ?_, fun hrc =>
    ⟨(haccepted hrc).trans List.take_length, hall ?_⟩⟩
  · intro s hs
    simp only [List.mem_cons, List.not_mem_nil, or_false] at hs
    rcases hs with rfl | rfl
    · exact hstate.accepted_prefix
    · exact hstate₂.accepted_prefix
  · rcases hstate with hruns₁ | hstopped
    · exact hruns₁.1
    · -- a context that has stopped is not flushed
      have hsame : terminateFilePackContext H s₁ = some (setBarrier s₁ none) :=
        if_neg hstopped.1
      have hterm' : terminateFilePackContext H s₁ = some s₂ := hterm
      rw [hterm'] at hsame
      obtain rfl := Option.some.inj hsame
      exact absurd hrc hstopped.1

end Producer

/-! ## Through a file -/

/-- Whoever unpacks these bytes in a file unpack context is shown the values, and then
the code: with any buffer, and however the descriptor hands the bytes out. -/
def FileShows (b : List UInt8) (vs : List Value) (e : Int) : Prop :=
  ∀ (realloc : Allocator) (results : ReadResults) (initialBufferLength errno fuel N : Nat)
    (u : UnpackState FileUnpackEnv), (∀ i n, (realloc i n).isSome) →
    (∀ i n, ∃ k, results i n = .ok k) → initialBufferLength < 2 ^ 64 → b.length < fuel →
    ∃ u', trace (UnpackOp.perform fuel (some (handleFileUnpackUnderflow 64 realloc results)))
      (List.replicate N .next) (initFileUnpackContext realloc initialBufferLength ⟨b, 0, errno⟩ u) =
        some (shown vs e N, u')

/-- A file that holds a part of what spells out the values shows those that are whole. -/
theorem fileShows_part {vs : List Value} {log b : List UInt8} (h : SpellsOut vs log)
    (hb : b <+: log) :
    ∃ k e, k ≤ vs.length ∧ (e = cwpRcEndOfInput ∨ e = cwpRcBufferUnderflow) ∧
      (b = log → k = vs.length ∧ e = cwpRcEndOfInput) ∧ FileShows b (vs.take k) e := by
  obtain ⟨k, e, hk, he, hwhole, hshown⟩ := follow_next_of_part h hb
  refine ⟨k, e, hk, he, hwhole, ?_⟩
  intro realloc results initialBufferLength errno fuel N u hheap hread hinit hfuel
  obtain ⟨hrc, hfed, hbarrier⟩ := fileFed_init hheap hinit ⟨b, 0, errno⟩ u
  obtain ⟨⟨seen, u'⟩, htrace, hseen, -⟩ := (trace_tracks (file_feeds hheap hread) fuel
    (List.replicate N .next) (initFileUnpackContext realloc initialBufferLength ⟨b, 0, errno⟩ u)
    (.ok b) ⟨hrc, ⟨hfed, hbarrier⟩, hfuel⟩).exists_of_not_stuck
  rw [hshown N] at hseen
  obtain rfl : seen = _ := hseen
  exact ⟨u', htrace⟩

/-- At any moment of a run, and after its end, a reader of what the descriptor has
accepted is shown a first part of the values packed; after an end reported OK, all. -/
theorem file_pack_then_file_unpack {malloc : Allocator}
    (hheap : ∀ i n p, malloc i n = some p → n < 2 ^ 63) (results : WriteResults)
    (initialBufferLength : Nat) (s₀ : PackState FilePackEnv)
    (hok : (initFilePackContext malloc initialBufferLength .opened s₀).pc.returnCode = cwpRcOk)
    {ops : List FilePackOp} (hops : Readable ops) :
    let H := filePackHandlers 64 malloc results
    ∃ s₁ s₂, run (FilePackOp.perform H) ops
        (initFilePackContext malloc initialBufferLength .opened s₀) = some s₁ ∧
      terminateFilePackContext H s₁ = some s₂ ∧
      (∀ s ∈ [s₁, s₂], ∃ k e, (e = cwpRcEndOfInput ∨ e = cwpRcBufferUnderflow) ∧
        FileShows s.env.fileDescriptor.accepted ((received false (filePacks ops)).take k) e) ∧
      (s₂.pc.returnCode = cwpRcOk → FileShows s₂.env.fileDescriptor.accepted
        (received false (filePacks ops)) cwpRcEndOfInput) := by
  intro H
  obtain ⟨s₁, s₂, log, vs, hrun, hterm, hspell, ⟨ws, hws⟩, hparts, hend⟩ :=
    file_pack_spells hheap results initialBufferLength s₀ hok hops
  refine ⟨s₁, s₂, hrun, hterm, ?_, fun hrc => ?_⟩
  · intro s hs
    obtain ⟨k, e, hk, he, -, hshows⟩ := fileShows_part hspell (hparts s hs)
    rw [← hws]
    refine ⟨k, e, he, ?_⟩
    rw [List.take_append_of_le_length hk]
    exact hshows
  · obtain ⟨hlog, hvs⟩ := hend hrc
    obtain ⟨k, e, -, -, hwhole, hshows⟩ :=
      fileShows_part hspell (hparts s₂ (List.mem_cons_of_mem _ List.mem_cons_self))
    obtain ⟨rfl, rfl⟩ := hwhole hlog
    rw [List.take_length, hvs] at hshows
    exact hshows

/-- A byte, a barrier, three bytes, and a write that is cut short. -/
theorem file_pack_then_file_unpack_short_write :
    let H := filePackHandlers 64 (boundedHeap 0) shortSecondWrite
    ∃ s₁ s₂, run (FilePackOp.perform H)
        [.pack (.call .nil), .flush, .setBarrier, .pack (.call (.unsigned 300)), .releaseBarrier]
        (initFilePackContext (boundedHeap 0) 0 .opened blankFile) = some s₁ ∧
      terminateFilePackContext H s₁ = some s₂ ∧
      s₂.env.fileDescriptor.accepted = [0xc0, 0xcd] ∧
      ∃ k e, (e = cwpRcEndOfInput ∨ e = cwpRcBufferUnderflow) ∧
        FileShows s₂.env.fileDescriptor.accepted (List.take k [.nil, .int 300]) e := by
  intro H
  have hheap : ∀ i n p, boundedHeap 0 i n = some p → n < 2 ^ 63 := by
    intro i n p h
    unfold boundedHeap at h
    split at h
    · assumption
    · simp at h
  have hops : Readable [.pack (.call .nil), .flush, .setBarrier, .pack (.call (.unsigned 300)),
      .releaseBarrier] := by
    simp [Readable, filePacks, PackOp.RoundTrips, PackCall.IsTimestampExt, PackOp.Short,
      PackCall.payload]
  obtain ⟨s₁, s₂, hrun, hterm, hshows, -⟩ := file_pack_then_file_unpack hheap shortSecondWrite 0
    blankFile rfl hops
  obtain rfl := Option.some.inj hrun
  obtain rfl := Option.some.inj hterm
  exact ⟨_, _, rfl, rfl, rfl, hshows _ (List.mem_cons_of_mem _ List.mem_cons_self)⟩

/-! ## Through a stream -/

/-- At the end of the stream the routine reports the end of the input. -/
theorem cwUnpackNext_stream_end {realloc : Allocator} (hheap : ∀ i n, (realloc i n).isSome)
    {s : UnpackState StreamUnpackEnv} (hrc : s.uc.returnCode = cwpRcOk)
    (hfed : StreamFed [] s.input) :
    ∃ s', cwUnpackNext (some (handleStreamUnpackUnderflow 64 realloc)) s = some s' ∧
      s'.uc.returnCode = cwpRcEndOfInput := by
  have hle : s.uc.current ≤ s.uc.end_ := hfed.le
  have hahead : s.mem.bytes s.uc.current (s.uc.end_ - s.uc.current) ++ s.env.file.unread = [] :=
    hfed.ahead
  have hlen := congrArg List.length hahead
  rw [List.length_append, Memory.bytes_length, List.length_nil] at hlen
  have hcut : ¬ CutOff s 1 := by
    intro hcut
    have hpos := List.length_pos_iff.mpr hcut.1
    omega
  obtain ⟨⟨rc, s₁⟩, hcall, -, -, hcase⟩ :=
    handleStreamUnpackUnderflow_spec hheap hfed (by omega) (by decide) hcut
  rw [if_pos (by simp)] at hcase
  obtain ⟨rfl, -⟩ : rc = cwpRcEndOfInput ∧ _ := hcase
  unfold cwUnpackNext cwUnpackAssertSpace cwUnpackAssertSpaceSub
  have hfull : s.uc.current + 1 > s.uc.end_ := by omega
  rw [if_neg (not_not_intro hrc), if_pos hfull]
  simp only [hcall]
  rw [if_pos (by decide), if_neg (by decide)]
  exact ⟨_, rfl, rfl⟩

/-- A stream that spells out values shows them, and then the end of the input. -/
theorem stream_shows {realloc : Allocator} (hheap : ∀ i n, (realloc i n).isSome) (fuel : Nat)
    {vs : List Value} {b : List UInt8} (h : SpellsOut vs b) {s : UnpackState StreamUnpackEnv}
    (hrc : s.uc.returnCode = cwpRcOk) (hfed : StreamFed b s.input) (N : Nat) :
    ∃ s', trace (UnpackOp.perform fuel (some (handleStreamUnpackUnderflow 64 realloc)))
      (List.replicate N .next) s = some (shown vs cwpRcEndOfInput N, s') := by
  induction N generalizing vs b s with
  | zero => exact ⟨s, rfl⟩
  | succ N ih =>
      cases vs with
      | nil =>
          obtain rfl : b = [] := h
          obtain ⟨s', hcall, hend⟩ := cwUnpackNext_stream_end hheap hrc hfed
          have hne : s'.uc.returnCode ≠ 0 := by
            rw [hend]
            decide
          have hfixed := fun op : UnpackOp =>
            @UnpackOp.perform_of_stopped _ (some (handleStreamUnpackUnderflow 64 realloc)) op fuel
              s' hne
          have hstays := trace_of_fixed hfixed (List.replicate N .next)
          refine ⟨s', ?_⟩
          simp only [List.replicate_succ, trace, UnpackOp.perform, hcall, hstays]
          rw [if_neg hne, hend, shown_nil, List.map_replicate, List.replicate_succ]
          rfl
      | cons v vs =>
          obtain ⟨bs, rest, rfl, hv, hrest⟩ := h
          obtain ⟨s', hcall, hrc', hden, hfed'⟩ := cwUnpackNext_stream hheap hrc hfed (hv rest)
          rw [List.drop_left] at hfed'
          obtain ⟨s'', htail⟩ := ih hrest hrc' hfed'
          refine ⟨s'', ?_⟩
          simp only [List.replicate_succ, trace, UnpackOp.perform, hcall, htail,
            UnpackState.delivered]
          rw [hrc', if_pos rfl, hden.1, hden.2, shown_cons]
          rfl

/-- What a stream pack context has written, a stream unpack context shows, as long as
every explicit flush finds the buffer empty. -/
theorem stream_pack_then_stream_unpack (malloc : Allocator) (hheap : ∀ i n, (malloc i n).isSome)
    (disk : FwriteResults) (hdisk : ∀ i n, disk i n = none) (initialBufferLength : Nat)
    (hinit : initialBufferLength < 2 ^ 64) (ops : List StreamOp)
    (hops : ∀ op ∈ packs ops, op.RoundTrips ∧ op.Short) (hlegal : Legal false (packs ops))
    (s : PackState StreamPackEnv)
    (hempty : FlushesEmpty (streamPackHandlers 64 malloc disk) ops
      (initStreamPackContext malloc initialBufferLength .opened s))
    (realloc : Allocator) (hheap' : ∀ i n, (realloc i n).isSome) (readBufferLength : Nat)
    (hread : readBufferLength < 2 ^ 64) (u : UnpackState StreamUnpackEnv) (N fuel : Nat) :
    let H := streamPackHandlers 64 malloc disk
    ∃ s₁ s₂ u', run (StreamOp.perform H) ops
        (initStreamPackContext malloc initialBufferLength .opened s) = some s₁ ∧
      terminateStreamPackContext H s₁ = some s₂ ∧
      trace (UnpackOp.perform fuel (some (handleStreamUnpackUnderflow 64 realloc)))
        (List.replicate N .next)
        (initStreamUnpackContext realloc readBufferLength ⟨s₂.env.file.written, false, 0⟩ u) =
          some (shown (received false (packs ops)) cwpRcEndOfInput N, u') := by
  intro H
  obtain ⟨hlog₀, hcompat⟩ := streamLog_init hheap hinit s
  obtain ⟨s₁, surplus, hrun, hlog, -, hiff⟩ := stream_run hheap hdisk
    (fun op hop => (hops op hop).2) hlog₀ (by rw [hcompat]; exact hlegal)
  obtain rfl := hiff.mpr hempty
  rw [hcompat, List.nil_append] at hlog
  obtain ⟨s₂, hterm, -, -, hwritten⟩ := cwPackFlush_stream malloc hdisk hlog
  have hspell : SpellsOut (received false (packs ops)) s₂.env.file.written := by
    rw [hwritten, hlog.content rfl]
    exact spellsOut_encodings (fun op hop => (hops op hop).1) hlegal
  obtain ⟨hrc, hfed⟩ := streamFed_init hheap' hread ⟨s₂.env.file.written, false, 0⟩ u
  obtain ⟨u', htrace⟩ := stream_shows hheap' fuel hspell hrc hfed N
  exact ⟨s₁, s₂, u', hrun, hterm, htrace⟩

theorem stream_pack_then_stream_unpack_two_values :
    let H := streamPackHandlers 64 (fixedHeap 0) reliableDisk
    ∃ s₁ s₂ u', run (StreamOp.perform H) [.pack (.call .nil), .pack (.call (.unsigned 300))]
        (initStreamPackContext (fixedHeap 0) 2 .opened blankStream) = some s₁ ∧
      terminateStreamPackContext H s₁ = some s₂ ∧
      trace (UnpackOp.perform 0 (some (handleStreamUnpackUnderflow 64 (fixedHeap 0))))
        [.next, .next, .next]
        (initStreamUnpackContext (fixedHeap 0) 1 ⟨s₂.env.file.written, false, 0⟩
          blankStreamUnpack) = some ([delivery .nil, delivery (.int 300), ⟨-1, none, none⟩], u') :=
  stream_pack_then_stream_unpack (fixedHeap 0) (fun _ _ => rfl) reliableDisk (fun _ _ => rfl) 2
    (by decide) [.pack (.call .nil), .pack (.call (.unsigned 300))]
    (by simp [packs, PackOp.RoundTrips, PackCall.IsTimestampExt, PackOp.Short, PackCall.payload])
    (by simp [Legal, packs, encodings, PackCall.encoding, PackCall.refusal]) blankStream
    (fun _ _ _ _ => trivial) (fixedHeap 0) (fun _ _ => rfl) 1 (by decide) blankStreamUnpack 3 0

end CWPack.Goodies
