/-
  Goodies/StreamUnpack.lean --- the stream unpack context of
  `src/goodies/basic-contexts/basic_contexts.c`.

  The underflow handler reads once.  It reports the end of the input when the read
  gives nothing, but not when the read gives some bytes and fewer than were asked
  for: it then returns OK, and the routine goes on behind the end of the buffer.

  A refill is cut off when the stream has bytes left, but not enough.  A run in
  which no refill is cut off cannot be told from a run on a static buffer that
  holds the stream.
-/
import CWPack.Core.Approximation
import CWPack.Core.StaticUnpack
import CWPack.Goodies.Buffer

set_option autoImplicit false

namespace CWPack.Goodies

open CWPack.Foundation
open CWPack.Core

variable {σ τ : Type}

/-! ## Streams -/

/-- A `FILE` open for reading. -/
structure InputFile where
  unread : List UInt8
  eof : Bool
  error : Int
  deriving DecidableEq, Repr

/-- `fread(ptr, 1, n, file)` for a file that gives all it is asked for before its end -/
def fread (n : Nat) (file : InputFile) : List UInt8 × InputFile :=
  (file.unread.take n,
    { file with unread := file.unread.drop n, eof := file.eof || file.unread.length < n })

/-! ## The context -/

/-- What `stream_unpack_context` adds, and the requests made to the heap. -/
structure StreamUnpackEnv where
  bufferLength : Nat
  file : InputFile
  requests : Nat
  deriving DecidableEq, Repr

/-- The part of `handle_stream_unpack_underflow` behind the growth of the buffer. -/
def fillBuffer (w remains : Nat) (s : UnpackState StreamUnpackEnv) :
    Int × UnpackState StreamUnpackEnv :=
  let end_ := s.uc.start + remains
  let (bs, file) := fread (ulongDiff w s.env.bufferLength remains) s.env.file
  let s := { s with uc.current := s.uc.start, uc.end_ := end_, env.file := file }
  if bs.length = 0 then
    if file.eof then (cwpRcEndOfInput, s)
    else (cwpRcErrorInHandler, { s with uc.errNo := file.error })
  else (cwpRcOk, { s with mem := s.mem.write end_ bs, uc.end_ := end_ + bs.length })

/-- `handle_stream_unpack_underflow` -/
def handleStreamUnpackUnderflow (w : Nat) (realloc : Allocator) :
    UnpackUnderflowHandler StreamUnpackEnv := fun s more =>
  let remains := ulongDiff w s.uc.end_ s.uc.current
  let s := if remains ≠ 0 then { s with mem := s.mem.move s.uc.start s.uc.current remains } else s
  if s.env.bufferLength < more then
    match growBuffer w more s.env.bufferLength with
    | none => none
    | some bufferLength =>
        let asked :=
          { s with env.bufferLength := bufferLength, env.requests := s.env.requests + 1 }
        match realloc s.env.requests bufferLength with
        | none => some (cwpRcBufferUnderflow, asked)
        | some newBuffer =>
            let block := min s.env.bufferLength bufferLength
            some (fillBuffer w remains
              { asked with mem := s.mem.move newBuffer s.uc.start block, uc.start := newBuffer })
  else some (fillBuffer w remains s)

/-- `init_stream_unpack_context` -/
def initStreamUnpackContext (malloc : Allocator) (initialBufferLength : Nat) (file : InputFile)
    (s : UnpackState StreamUnpackEnv) : UnpackState StreamUnpackEnv :=
  let bufferLength := if initialBufferLength > 0 then initialBufferLength else 1024
  let asked := { s with env.requests := s.env.requests + 1 }
  match malloc s.env.requests bufferLength with
  | none => asked.setReturnCode cwpRcMallocError
  | some buffer =>
      cwUnpackContextInit buffer 0
        { asked with env.file := file, env.bufferLength := bufferLength }

/-! ## Refills that are cut off -/

/-- The stream has bytes left, but with them the window is shorter than asked for. -/
def CutOff (s : UnpackState StreamUnpackEnv) (more : Nat) : Prop :=
  s.env.file.unread ≠ [] ∧ s.uc.end_ - s.uc.current + s.env.file.unread.length < more

instance (s : UnpackState StreamUnpackEnv) (more : Nat) : Decidable (CutOff s more) :=
  inferInstanceAs (Decidable (_ ∧ _))

/-- The handler, except that it does not return from a refill that is cut off. -/
def holdAtCutOff (handler : UnpackUnderflowHandler StreamUnpackEnv) :
    UnpackUnderflowHandler StreamUnpackEnv := fun s more =>
  if CutOff s more then none else handler s more

/-- No refill of the run is cut off. -/
def NeverCutOff (fuel : Nat) (handler : UnpackUnderflowHandler StreamUnpackEnv)
    (ops : List UnpackOp) (s : UnpackState StreamUnpackEnv) : Prop :=
  (trace (UnpackOp.perform fuel (some (holdAtCutOff handler))) ops s).isSome

theorem holdAtCutOff_approximates (handler : UnpackUnderflowHandler StreamUnpackEnv)
    (s : UnpackState StreamUnpackEnv) (more : Nat) :
    Approximates (holdAtCutOff handler s more) (handler s more) := by
  unfold holdAtCutOff
  split
  · exact approximates_none _
  · exact Approximates.refl _

/-! ## The invariant -/

/-- Ahead are the window and the unread bytes. -/
structure StreamFed (rest : List UInt8) (x : UnpackInput StreamUnpackEnv) : Prop where
  start_le : x.start ≤ x.current
  le : x.current ≤ x.end_
  room : x.end_ - x.start ≤ x.env.bufferLength
  nonempty : 0 < x.env.bufferLength
  length_lt : x.env.bufferLength < 2 ^ 64
  ahead : x.mem.bytes x.current (x.end_ - x.current) ++ x.env.file.unread = rest

/-- The cursor is inside the buffer. -/
def Inside (x : UnpackInput σ) : Prop := x.current ≤ x.end_

section Handler

variable {realloc : Allocator}

/-- With the remains at the start of a block with room, one read brings in what is asked
for, unless it is cut off. -/
theorem fillBuffer_spec {rest : List UInt8} {remains more : Nat}
    {s : UnpackState StreamUnpackEnv}
    (hahead : s.mem.bytes s.uc.start remains ++ s.env.file.unread = rest)
    (hless : remains < more) (hmore : more ≤ s.env.bufferLength)
    (hlt : s.env.bufferLength < 2 ^ 64)
    (hcut : ¬ (s.env.file.unread ≠ [] ∧ remains + s.env.file.unread.length < more)) :
    Refilled StreamFed Inside rest s more (fillBuffer 64 remains s) := by
  have hlen := congrArg List.length hahead
  rw [List.length_append, Memory.bytes_length] at hlen
  have hfree : ulongDiff 64 s.env.bufferLength remains = s.env.bufferLength - remains :=
    ulongDiff_of_le (by omega) (by omega)
  simp only [fillBuffer, fread, hfree]
  by_cases hempty : (s.env.file.unread.take (s.env.bufferLength - remains)).length = 0
  · -- nothing was read, so the stream has ended
    rw [List.length_take] at hempty
    have hnil : s.env.file.unread.length = 0 := by omega
    rw [if_pos (by rw [List.length_take]; exact hempty)]
    have heof : (s.env.file.eof || decide
        (s.env.file.unread.length < s.env.bufferLength - remains)) = true := by
      rw [decide_eq_true (by omega), Bool.or_true]
    rw [if_pos heof]
    refine ⟨rfl, rfl, ?_⟩
    rw [if_pos (by omega)]
    refine ⟨rfl, ?_⟩
    show s.uc.start ≤ s.uc.start + remains
    omega
  · rw [if_neg hempty]
    rw [List.length_take] at hempty
    have hne : s.env.file.unread ≠ [] := by
      intro hnil
      rw [hnil] at hempty
      exact hempty (Nat.min_zero _)
    have henough : more ≤ remains + s.env.file.unread.length :=
      Nat.not_lt.mp fun hshort => hcut ⟨hne, hshort⟩
    refine ⟨rfl, rfl, ?_⟩
    rw [if_neg (by omega)]
    have hgot : (s.env.file.unread.take (s.env.bufferLength - remains)).length =
        min (s.env.bufferLength - remains) s.env.file.unread.length := List.length_take
    refine ⟨rfl, ⟨Nat.le_refl _, ?_, ?_, ?_, hlt, ?_⟩, ?_⟩
    · show s.uc.start ≤ s.uc.start + remains + _
      omega
    · show s.uc.start + remains +
        (s.env.file.unread.take (s.env.bufferLength - remains)).length - s.uc.start ≤
          s.env.bufferLength
      omega
    · show 0 < s.env.bufferLength
      omega
    · show (s.mem.write (s.uc.start + remains)
          (s.env.file.unread.take (s.env.bufferLength - remains))).bytes s.uc.start
          (s.uc.start + remains +
            (s.env.file.unread.take (s.env.bufferLength - remains)).length - s.uc.start) ++
          s.env.file.unread.drop (s.env.bufferLength - remains) = rest
      rw [Memory.bytes_write_append _ _ (Nat.le_add_right _ _), Nat.add_sub_cancel_left,
        List.append_assoc, List.take_append_drop, hahead]
    · show s.uc.start + more ≤ s.uc.start + remains +
        (s.env.file.unread.take (s.env.bufferLength - remains)).length
      omega

/-- A read that is cut off is reported OK all the same, with too short a window. -/
theorem fillBuffer_cut_off {remains more : Nat} {s : UnpackState StreamUnpackEnv}
    (hless : remains < more) (hmore : more ≤ s.env.bufferLength)
    (hlt : s.env.bufferLength < 2 ^ 64)
    (hcut : s.env.file.unread ≠ [] ∧ remains + s.env.file.unread.length < more) :
    ∃ s', fillBuffer 64 remains s = (cwpRcOk, s') ∧ s'.uc.end_ < s'.uc.current + more := by
  obtain ⟨hne, hshort⟩ := hcut
  have hpos := List.length_pos_iff.mpr hne
  have hfree : ulongDiff 64 s.env.bufferLength remains = s.env.bufferLength - remains :=
    ulongDiff_of_le (by omega) (by omega)
  have hall : s.env.file.unread.take (s.env.bufferLength - remains) = s.env.file.unread :=
    List.take_of_length_le (by omega)
  simp only [fillBuffer, fread, hfree, hall]
  rw [if_neg (by omega)]
  refine ⟨_, rfl, ?_⟩
  show s.uc.start + remains + s.env.file.unread.length < s.uc.start + more
  omega

/-- Before it reads, the handler moves what remains to the start of a block with room. -/
theorem handleStreamUnpackUnderflow_eq (hheap : ∀ i n, (realloc i n).isSome)
    {rest : List UInt8} {more : Nat} {s : UnpackState StreamUnpackEnv}
    (h : StreamFed rest s.input) (hmore : more < 2 ^ 32) :
    ∃ s₁, handleStreamUnpackUnderflow 64 realloc s more =
        some (fillBuffer 64 (s.uc.end_ - s.uc.current) s₁) ∧
      s₁.mem.bytes s₁.uc.start (s.uc.end_ - s.uc.current) ++ s₁.env.file.unread = rest ∧
      more ≤ s₁.env.bufferLength ∧ s₁.env.bufferLength < 2 ^ 64 ∧
      s₁.env.file = s.env.file ∧ s₁.uc.item = s.uc.item ∧
      s₁.uc.returnCode = s.uc.returnCode := by
  have hstart : s.uc.start ≤ s.uc.current := h.start_le
  have hle : s.uc.current ≤ s.uc.end_ := h.le
  have hroom : s.uc.end_ - s.uc.start ≤ s.env.bufferLength := h.room
  have hpos : 0 < s.env.bufferLength := h.nonempty
  have hlt : s.env.bufferLength < 2 ^ 64 := h.length_lt
  have hahead : s.mem.bytes s.uc.current (s.uc.end_ - s.uc.current) ++ s.env.file.unread = rest :=
    h.ahead
  have hremains : ulongDiff 64 s.uc.end_ s.uc.current = s.uc.end_ - s.uc.current :=
    ulongDiff_of_le hle (by omega)
  obtain ⟨m, hmove, hbytes⟩ : ∃ m, (if s.uc.end_ - s.uc.current ≠ 0 then
      { s with mem := s.mem.move s.uc.start s.uc.current (s.uc.end_ - s.uc.current) } else s) =
        { s with mem := m } ∧
      m.bytes s.uc.start (s.uc.end_ - s.uc.current) =
        s.mem.bytes s.uc.current (s.uc.end_ - s.uc.current) := by
    by_cases hzero : s.uc.end_ - s.uc.current = 0
    · rw [if_neg (not_not_intro hzero), hzero]
      exact ⟨s.mem, rfl, rfl⟩
    · rw [if_pos hzero]
      exact ⟨_, rfl, s.mem.bytes_move _ _ _⟩
  rw [← hbytes] at hahead
  simp only [handleStreamUnpackUnderflow, hremains, hmove]
  by_cases hsmall : s.env.bufferLength < more
  · rw [if_pos hsmall]
    obtain ⟨n, hgrow, hn, hgrown, hltn⟩ := growBuffer_spec 64 more s.env.bufferLength (by omega)
      hpos hlt
    obtain ⟨p, hp⟩ := Option.isSome_iff_exists.mp (hheap s.env.requests n)
    simp only [hgrow, hp]
    -- the whole block is moved, and with it what remains
    have hmoved : (m.move p s.uc.start (min s.env.bufferLength n)).bytes p
        (s.uc.end_ - s.uc.current) = m.bytes s.uc.start (s.uc.end_ - s.uc.current) := by
      rw [Nat.min_eq_left hgrown]
      exact m.bytes_move_of_le p s.uc.start (by omega)
    rw [← hmoved] at hahead
    exact ⟨_, rfl, hahead, hn, hltn, rfl, rfl, rfl⟩
  · rw [if_neg hsmall]
    exact ⟨_, rfl, hahead, Nat.not_lt.mp hsmall, hlt, rfl, rfl, rfl⟩

/-- A refill that is not cut off brings in what is asked for, if the stream has it. -/
theorem handleStreamUnpackUnderflow_spec (hheap : ∀ i n, (realloc i n).isSome)
    {rest : List UInt8} {more : Nat} {s : UnpackState StreamUnpackEnv}
    (h : StreamFed rest s.input) (hless : s.uc.end_ < s.uc.current + more)
    (hmore : more < 2 ^ 32) (hcut : ¬ CutOff s more) :
    ∃ r, handleStreamUnpackUnderflow 64 realloc s more = some r ∧
      Refilled StreamFed Inside rest s more r := by
  have hle : s.uc.current ≤ s.uc.end_ := h.le
  obtain ⟨s₁, hcall, hahead, hroom, hlt, hfile, hitem, hrc⟩ :=
    handleStreamUnpackUnderflow_eq hheap h hmore
  rw [CutOff, ← hfile] at hcut
  obtain ⟨hitem', hrc', hcase⟩ := fillBuffer_spec hahead (by omega) hroom hlt hcut
  exact ⟨_, hcall, hitem'.trans hitem, hrc'.trans hrc, hcase⟩

/-- Every refill that is cut off returns OK without the bytes that were asked for. -/
theorem cut_off_refill_returns_ok (hheap : ∀ i n, (realloc i n).isSome) {rest : List UInt8}
    {more : Nat} {s : UnpackState StreamUnpackEnv} (h : StreamFed rest s.input)
    (hmore : more < 2 ^ 32) (hcut : CutOff s more) :
    ∃ s', handleStreamUnpackUnderflow 64 realloc s more = some (cwpRcOk, s') ∧
      s'.uc.end_ < s'.uc.current + more := by
  have hle : s.uc.current ≤ s.uc.end_ := h.le
  obtain ⟨s₁, hcall, -, hroom, hlt, hfile, -, -⟩ := handleStreamUnpackUnderflow_eq hheap h hmore
  rw [CutOff, ← hfile] at hcut
  obtain ⟨s', hfill, hshort⟩ := fillBuffer_cut_off (by omega) hroom hlt hcut
  exact ⟨s', hcall.trans (congrArg some hfill), hshort⟩

/-- The handler feeds the stream, up to a refill that is cut off. -/
theorem stream_feeds (hheap : ∀ i n, (realloc i n).isSome) :
    Feeds (some (holdAtCutOff (handleStreamUnpackUnderflow 64 realloc))) True StreamFed
      Inside where
  window := fun h => ⟨h.le, ⟨_, h.ahead⟩⟩
  advance := by
    intro rest x n h hn
    have hstart := h.start_le
    have hle := h.le
    refine ⟨?_, ?_, h.room, h.nonempty, h.length_lt, ?_⟩
    · show x.start ≤ x.current + n
      omega
    · show x.current + n ≤ x.end_
      omega
    · show x.mem.bytes (x.current + n) (x.end_ - (x.current + n)) ++ x.env.file.unread =
        rest.drop n
      rw [← h.ahead, List.drop_append_of_le_length (by rw [Memory.bytes_length]; exact hn),
        Memory.bytes_drop _ hn, Nat.sub_add_eq]
  stops := fun h => h.le
  refill := by
    intro rest s more h hless hmore
    show Ends True _ (holdAtCutOff _ s more)
    unfold holdAtCutOff
    by_cases hcut : CutOff s more
    · rw [if_pos hcut]
      trivial
    · rw [if_neg hcut]
      obtain ⟨r, hcall, hrefilled⟩ := handleStreamUnpackUnderflow_spec hheap h hless hmore hcut
      rw [hcall, ends_some]
      exact hrefilled

/-- A fresh context has the whole stream ahead. -/
theorem streamFed_init (hheap : ∀ i n, (realloc i n).isSome) {initialBufferLength : Nat}
    (hlt : initialBufferLength < 2 ^ 64) (file : InputFile) (s : UnpackState StreamUnpackEnv) :
    (initStreamUnpackContext realloc initialBufferLength file s).uc.returnCode = 0 ∧
      StreamFed file.unread (initStreamUnpackContext realloc initialBufferLength file s).input := by
  unfold initStreamUnpackContext
  have hpos := initialLength_bounds 1024 (by decide) hlt
  generalize (if initialBufferLength > 0 then initialBufferLength else 1024) = n at hpos ⊢
  obtain ⟨p, hp⟩ := Option.isSome_iff_exists.mp (hheap s.env.requests n)
  simp only [hp]
  refine ⟨rfl, Nat.le_refl _, Nat.le_refl _, ?_, hpos.1, hpos.2, ?_⟩
  · show p - p ≤ n
    omega
  · show Memory.bytes _ p (p - p) ++ file.unread = file.unread
    rw [Nat.sub_self]
    rfl

end Handler

/-! ## Against the static context -/

/-- As long as no refill is cut off, stream unpacking cannot be told from unpacking a
static buffer that holds the stream, and the cursor stays inside the buffer. -/
theorem stream_unpack_refines_static_unless_cut_off (realloc : Allocator)
    (hheap : ∀ i n, (realloc i n).isSome) (initialBufferLength : Nat)
    (hinit : initialBufferLength < 2 ^ 64) (file : InputFile) (s : UnpackState StreamUnpackEnv)
    (data : Nat) (t : UnpackState τ) (hstatic : t.mem.bytes data file.unread.length = file.unread)
    (ops : List UnpackOp) (fuel : Nat) (hfuel : file.unread.length < fuel)
    (hnever : NeverCutOff fuel (handleStreamUnpackUnderflow 64 realloc) ops
      (initStreamUnpackContext realloc initialBufferLength file s)) :
    ∀ first rest, ops = first ++ rest → ∃ seen s' t',
      trace (UnpackOp.perform fuel (some (handleStreamUnpackUnderflow 64 realloc))) first
        (initStreamUnpackContext realloc initialBufferLength file s) = some (seen, s') ∧
      trace (UnpackOp.perform fuel none) first (cwUnpackContextInit data file.unread.length t) =
        some (seen, t') ∧
      s'.uc.current ≤ s'.uc.end_ := by
  intro first rest hops
  subst hops
  obtain ⟨hrc, hfed⟩ := streamFed_init hheap hinit file s
  obtain ⟨⟨seen, s'⟩, hheld⟩ :=
    Option.isSome_iff_exists.mp (trace_isSome_of_append first rest _ hnever)
  have hreal := trace_approximates
    (holdAtCutOff_approximates (handleStreamUnpackUnderflow 64 realloc)) fuel first _ _ hheld
  obtain ⟨hseen, htracks⟩ := (trace_tracks (stream_feeds hheap) fuel first
    (initStreamUnpackContext realloc initialBufferLength file s) (.ok file.unread)
    ⟨hrc, hfed, hfuel⟩).of_eq_some hheld
  obtain ⟨⟨seen', t'⟩, hbuffer, hseen', -⟩ := (trace_tracks (static_feeds _) fuel first
    (cwUnpackContextInit data file.unread.length t) (.ok file.unread)
    (static_tracks data fuel hstatic hfuel)).exists_of_not_stuck
  obtain rfl : seen = _ := hseen
  obtain rfl : seen' = _ := hseen'
  refine ⟨_, s', t', hreal, hbuffer, ?_⟩
  cases hreader : (follow UnpackOp.answer first (.ok file.unread)).2 with
  | ok b =>
      rw [hreader] at htracks
      exact htracks.2.1.le
  | error e =>
      rw [hreader] at htracks
      exact htracks.2.2

/-- A context before its initialisation. -/
def blankStreamUnpack : UnpackState StreamUnpackEnv :=
  ⟨⟨⟨.notAnItem, .u64 0⟩, 0, 0, 0, 0, 0⟩, fun _ => 0, ⟨0, ⟨[], false, 0⟩, 0⟩⟩

theorem stream_unpack_reads_complete_item :
    ∃ seen s' t',
      trace (UnpackOp.perform 4 (some (handleStreamUnpackUnderflow 64 (fixedHeap 0))))
        [.next, .next] (initStreamUnpackContext (fixedHeap 0) 1 ⟨[0xcd, 0x01, 0x2c], false, 0⟩
          blankStreamUnpack) = some (seen, s') ∧
      trace (UnpackOp.perform 4 none) [.next, .next]
        (cwUnpackContextInit 0 3 (staticContext [0xcd, 0x01, 0x2c])) = some (seen, t') ∧
      s'.uc.current ≤ s'.uc.end_ :=
  stream_unpack_refines_static_unless_cut_off (fixedHeap 0) (fun _ _ => rfl) 1 (by decide)
    ⟨[0xcd, 0x01, 0x2c], false, 0⟩ blankStreamUnpack 0 (staticContext [0xcd, 0x01, 0x2c])
    (by decide) [.next, .next] 4 (by decide) rfl [.next, .next] [] rfl

/-- The second byte of a `uint 16` is the last of the stream: the item is reported OK,
with the cursor behind the end of the buffer. -/
theorem stream_unpack_accepts_cut_off_item :
    ∃ o s' o' t',
      trace (UnpackOp.perform 3 (some (handleStreamUnpackUnderflow 64 (fixedHeap 0)))) [.next]
        (initStreamUnpackContext (fixedHeap 0) 1 ⟨[0xcd, 0x01], false, 0⟩ blankStreamUnpack) =
          some ([o], s') ∧
      trace (UnpackOp.perform 3 none) [.next]
        (cwUnpackContextInit 0 2 (staticContext [0xcd, 0x01])) = some ([o'], t') ∧
      o.returnCode = cwpRcOk ∧ o'.returnCode = cwpRcBufferUnderflow ∧
      s'.uc.end_ < s'.uc.current :=
  ⟨_, _, _, _, rfl, rfl, rfl, rfl, by decide⟩

end CWPack.Goodies
