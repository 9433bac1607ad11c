/-
  Goodies/FileUnpack.lean --- the file unpack context of
  `src/goodies/basic-contexts/basic_contexts.c`.

  The underflow handler moves what it must keep to the start of the buffer, grows
  the buffer, and reads until there is enough.  A descriptor may give less than it
  is asked for.

  `FileFed` places the buffer in the stream: the buffer, from the barrier or else
  from the cursor on, and the unread bytes behind it are what is held back
  followed by what is ahead.  The handler keeps this equation, so the context
  feeds the bytes of the stream to the routines, however the stream arrives.
-/
import CWPack.Core.StaticUnpack
import CWPack.Goodies.Buffer

set_option autoImplicit false

namespace CWPack.Goodies

open CWPack.Foundation
open CWPack.Core

variable {σ τ : Type}

/-! ## Descriptors -/

/-- What the `i`-th call of `read`, for `n` bytes, comes to: how many bytes the
descriptor would give, or an error number. -/
abbrev ReadResults : Type := Nat → Nat → Except Int Nat

/-- A file descriptor open for reading. -/
structure InputDescriptor where
  unread : List UInt8
  reads : Nat
  errno : Int
  deriving DecidableEq, Repr

/-- `read(fd, ptr, n)`: the bytes it gives, or `none` for an error.  Before the end of
the stream it gives one byte at least, if it is asked for any. -/
def read (results : ReadResults) (n : Nat) (fd : InputDescriptor) :
    Option (List UInt8) × InputDescriptor :=
  match results fd.reads n with
  | .error e => (none, { fd with reads := fd.reads + 1, errno := e })
  | .ok k =>
      let l := min (max 1 k) n
      (some (fd.unread.take l), { fd with unread := fd.unread.drop l, reads := fd.reads + 1 })

/-! ## The context -/

/-- What `file_unpack_context` adds, the requests made to the heap, and the calls of
`memcpy` made so far, each as destination, source and length. -/
structure FileUnpackEnv where
  bufferLength : Nat
  fileDescriptor : InputDescriptor
  barrier : Option Nat
  requests : Nat
  copies : List (Nat × Nat × Nat)
  deriving DecidableEq, Repr

/-- `if (remains) memcpy(dst, src, remains);` -/
def copyRemains (dst src remains : Nat) (s : UnpackState FileUnpackEnv) :
    UnpackState FileUnpackEnv :=
  if remains ≠ 0 then
    { s with
      mem := s.mem.move dst src remains
      env.copies := s.env.copies ++ [(dst, src, remains)] }
  else s

/-- The loop of `handle_file_unpack_underflow`, with `fuel` tests at most. -/
def readLoop (w : Nat) (results : ReadResults) (more : Nat) :
    Nat → UnpackState FileUnpackEnv → Option (Int × UnpackState FileUnpackEnv)
  | 0, _ => none
  | fuel + 1, s =>
      if ulongDiff w s.uc.end_ s.uc.current < more then
        let n := ulongDiff w s.env.bufferLength (ulongDiff w s.uc.end_ s.uc.start)
        let (given, fd) := read results n s.env.fileDescriptor
        let s := { s with env.fileDescriptor := fd }
        match given with
        | none => some (cwpRcErrorInHandler, { s with uc.errNo := fd.errno })
        | some bs =>
            if bs.length = 0 then some (cwpRcEndOfInput, s)
            else
              readLoop w results more fuel
                { s with mem := s.mem.write s.uc.end_ bs, uc.end_ := s.uc.end_ + bs.length }
      else some (cwpRcOk, s)

/-- The part of `handle_file_unpack_underflow` behind the growth of the buffer.  Every
read but the last takes a byte of the stream. -/
def refill (w : Nat) (results : ReadResults) (more kept remains : Nat)
    (s : UnpackState FileUnpackEnv) : Option (Int × UnpackState FileUnpackEnv) :=
  let barrier := s.env.barrier.map fun _ => s.uc.start
  readLoop w results more (s.env.fileDescriptor.unread.length + 1)
    { s with
      uc.current := s.uc.start + kept
      uc.end_ := s.uc.start + remains
      env.barrier := barrier }

/-- `handle_file_unpack_underflow` -/
def handleFileUnpackUnderflow (w : Nat) (realloc : Allocator) (results : ReadResults) :
    UnpackUnderflowHandler FileUnpackEnv := fun s more =>
  let bStart := s.env.barrier.getD s.uc.current
  let kept := ulongDiff w s.uc.current bStart
  let remains := ulongDiff w s.uc.end_ bStart
  let s := copyRemains s.uc.start bStart remains s
  if s.env.bufferLength < (more + kept) % 2 ^ w then
    match growBuffer w ((more + kept) % 2 ^ w) s.env.bufferLength with
    | none => none
    | some bufferLength =>
        let asked :=
          { s with env.bufferLength := bufferLength, env.requests := s.env.requests + 1 }
        match realloc s.env.requests bufferLength with
        | none => some (cwpRcBufferUnderflow, asked)
        | some newBuffer =>
            let block := min s.env.bufferLength bufferLength
            refill w results more kept remains
              { asked with
                mem := s.mem.move newBuffer s.uc.start block
                uc.start := newBuffer }
  else refill w results more kept remains s

/-- `init_file_unpack_context` -/
def initFileUnpackContext (malloc : Allocator) (initialBufferLength : Nat)
    (fileDescriptor : InputDescriptor) (s : UnpackState FileUnpackEnv) :
    UnpackState FileUnpackEnv :=
  let bufferLength := if initialBufferLength > 0 then initialBufferLength else 1024
  let asked := { s with env.requests := s.env.requests + 1 }
  match malloc s.env.requests bufferLength with
  | none => asked.setReturnCode cwpRcMallocError
  | some buffer =>
      cwUnpackContextInit buffer 0
        { asked with
          env.fileDescriptor := fileDescriptor
          env.barrier := none
          env.bufferLength := bufferLength }

/-! ## The invariant -/

/-- The buffer holds back `held` behind the cursor; ahead, in the buffer and in the
stream, is `rest`. -/
structure FileFed (held rest : List UInt8) (x : UnpackInput FileUnpackEnv) : Prop where
  start_le : x.start ≤ x.env.barrier.getD x.current
  barrier_le : x.env.barrier.getD x.current ≤ x.current
  le : x.current ≤ x.end_
  room : x.end_ - x.start ≤ x.env.bufferLength
  nonempty : 0 < x.env.bufferLength
  length_lt : x.env.bufferLength < 2 ^ 64
  held_length : held.length = x.current - x.env.barrier.getD x.current
  content : x.mem.bytes (x.env.barrier.getD x.current) (x.end_ - x.env.barrier.getD x.current) ++
    x.env.fileDescriptor.unread = held ++ rest

namespace FileFed

variable {held rest : List UInt8} {x : UnpackInput FileUnpackEnv}

/-- The window and the unread bytes are ahead. -/
theorem ahead (h : FileFed held rest x) :
    x.mem.bytes x.current (x.end_ - x.current) ++ x.env.fileDescriptor.unread = rest := by
  have hlo := h.barrier_le
  have hle := h.le
  have hheld := h.held_length
  have hdrop := congrArg (List.drop held.length) h.content
  have hlen := x.mem.bytes_length (x.env.barrier.getD x.current)
    (x.end_ - x.env.barrier.getD x.current)
  have hcur : x.env.barrier.getD x.current + held.length = x.current := by omega
  have hsub : x.end_ - x.env.barrier.getD x.current - held.length = x.end_ - x.current := by omega
  rw [List.drop_left, List.drop_append_of_le_length (by omega),
    Memory.bytes_drop _ (by omega), hcur, hsub] at hdrop
  exact hdrop

theorem ahead_length (h : FileFed held rest x) :
    rest.length = x.end_ - x.current + x.env.fileDescriptor.unread.length := by
  rw [← h.ahead, List.length_append, Memory.bytes_length]

/-- Bytes that come off the stream extend the window. -/
theorem received (h : FileFed held rest x) {bs : List UInt8} {fd : InputDescriptor}
    (hunread : bs ++ fd.unread = x.env.fileDescriptor.unread)
    (hroom : x.end_ - x.start + bs.length ≤ x.env.bufferLength) :
    FileFed held rest
      { x with
        mem := x.mem.write x.end_ bs
        end_ := x.end_ + bs.length
        env.fileDescriptor := fd } := by
  have hlo := h.start_le
  have hbar := h.barrier_le
  have hle := h.le
  refine ⟨hlo, hbar, ?_, ?_, h.nonempty, h.length_lt, h.held_length, ?_⟩
  · show x.current ≤ x.end_ + bs.length
    omega
  · show x.end_ + bs.length - x.start ≤ x.env.bufferLength
    omega
  · show (x.mem.write x.end_ bs).bytes (x.env.barrier.getD x.current)
        (x.end_ + bs.length - x.env.barrier.getD x.current) ++ fd.unread = held ++ rest
    rw [Memory.bytes_write_append _ _ (by omega), List.append_assoc, hunread]
    exact h.content

end FileFed

section Reading

variable {results : ReadResults}

/-- A read that does not fail takes bytes off the stream, one at least before its end if it is
asked for any. -/
theorem read_spec (hread : ∀ i n, ∃ k, results i n = .ok k) (n : Nat) (fd : InputDescriptor) :
    ∃ bs, (read results n fd).1 = some bs ∧ bs.length ≤ n ∧
      bs ++ (read results n fd).2.unread = fd.unread ∧ (bs = [] → fd.unread = [] ∨ n = 0) := by
  obtain ⟨k, hk⟩ := hread fd.reads n
  unfold read
  rw [hk]
  refine ⟨_, rfl, ?_, List.take_append_drop _ _, ?_⟩
  · rw [List.length_take]
    omega
  · intro hnil
    have hlen := congrArg List.length hnil
    rw [List.length_take, List.length_nil] at hlen
    rw [← List.length_eq_zero_iff]
    omega

/-- What the handler comes to: what is held back and what is ahead are kept, the barrier stays
set or not, and either the window is as long as asked, or the stream has ended, or the buffer is
`full`. -/
structure FileRead (full : Prop) (held rest : List UInt8) (more : Nat)
    (s : UnpackState FileUnpackEnv) (r : Int × UnpackState FileUnpackEnv) : Prop where
  item : r.2.uc.item = s.uc.item
  returnCode : r.2.uc.returnCode = s.uc.returnCode
  barrier : r.2.env.barrier.isSome = s.env.barrier.isSome
  fed : FileFed held rest r.2.input
  outcome : (r.1 = cwpRcOk ∧ r.2.uc.current + more ≤ r.2.uc.end_) ∨
    (r.1 = cwpRcEndOfInput ∧ (rest.length < more ∨ full))

/-- The reading loop makes the window as long as asked, unless it finds the end of the stream
or of the buffer. -/
theorem readLoop_spec (hread : ∀ i n, ∃ k, results i n = .ok k) {more : Nat}
    {held rest : List UInt8} :
    ∀ (fuel : Nat) (s : UnpackState FileUnpackEnv), FileFed held rest s.input →
      s.uc.current = s.uc.start + held.length → s.env.fileDescriptor.unread.length < fuel →
      ∃ r, readLoop 64 results more fuel s = some r ∧
        FileRead (s.env.bufferLength < held.length + more) held rest more s r := by
  intro fuel
  induction fuel with
  | zero =>
      intro s _ _ hfuel
      exact absurd hfuel (Nat.not_lt_zero _)
  | succ fuel ih =>
      intro s h hcur hfuel
      have hle : s.uc.current ≤ s.uc.end_ := h.le
      have hroom : s.uc.end_ - s.uc.start ≤ s.env.bufferLength := h.room
      have hlt : s.env.bufferLength < 2 ^ 64 := h.length_lt
      have hahead : rest.length = s.uc.end_ - s.uc.current +
        s.env.fileDescriptor.unread.length := h.ahead_length
      have hwindow : ulongDiff 64 s.uc.end_ s.uc.current = s.uc.end_ - s.uc.current :=
        ulongDiff_of_le hle (by omega)
      have hused : ulongDiff 64 s.uc.end_ s.uc.start = s.uc.end_ - s.uc.start :=
        ulongDiff_of_le (by omega) (by omega)
      have hfree : ulongDiff 64 s.env.bufferLength (s.uc.end_ - s.uc.start) =
          s.env.bufferLength - (s.uc.end_ - s.uc.start) := ulongDiff_of_le hroom (by omega)
      rw [readLoop, hwindow]
      by_cases hshort : s.uc.end_ - s.uc.current < more
      · obtain ⟨bs, hbs, hbslen, hunread, hend⟩ := read_spec hread
          (s.env.bufferLength - (s.uc.end_ - s.uc.start)) s.env.fileDescriptor
        rw [if_pos hshort]
        simp only [hused, hfree, hbs]
        generalize (read results (s.env.bufferLength - (s.uc.end_ - s.uc.start))
          s.env.fileDescriptor).2 = fd at hunread ⊢
        have hreceived := h.received hunread (by
          show s.uc.end_ - s.uc.start + bs.length ≤ s.env.bufferLength
          omega)
        by_cases hempty : bs.length = 0
        · obtain rfl := List.length_eq_zero_iff.mp hempty
          rw [if_pos hempty]
          refine ⟨_, rfl, rfl, rfl, rfl, ?_, Or.inr ⟨rfl, ?_⟩⟩
          · have hsame : s.mem.write s.uc.end_ [] = s.mem := Memory.write_nil _ _
            have hfed : FileFed held rest
                ⟨s.mem.write s.uc.end_ [], { s.env with fileDescriptor := fd }, s.uc.start,
                  s.uc.current, s.uc.end_⟩ := hreceived
            rw [hsame] at hfed
            exact hfed
          · rcases hend rfl with hnil | hfull
            · rw [hnil, List.length_nil] at hahead
              exact Or.inl (by omega)
            · exact Or.inr (by omega)
        · have hlen := congrArg List.length hunread
          rw [List.length_append] at hlen
          rw [if_neg hempty]
          obtain ⟨r, hcall, hitem, hrc, hbarrier, hfed, hout⟩ := ih
            { s with
              mem := s.mem.write s.uc.end_ bs
              uc.end_ := s.uc.end_ + bs.length
              env.fileDescriptor := fd } hreceived hcur
            (by show fd.unread.length < fuel; omega)
          exact ⟨r, hcall, hitem, hrc, hbarrier, hfed, hout⟩
      · rw [if_neg hshort]
        refine ⟨_, rfl, rfl, rfl, rfl, h, Or.inl ⟨rfl, ?_⟩⟩
        show s.uc.current + more ≤ s.uc.end_
        omega

/-- Once the kept bytes are at the start of a block with room, reading goes on there. -/
theorem refill_spec (hread : ∀ i n, ∃ k, results i n = .ok k) {held rest : List UInt8}
    (more : Nat) {remains : Nat} {s : UnpackState FileUnpackEnv}
    (hcontent : s.mem.bytes s.uc.start remains ++ s.env.fileDescriptor.unread = held ++ rest)
    (hheld : held.length ≤ remains) (hnone : s.env.barrier = none → held = [])
    (hremains : remains ≤ s.env.bufferLength)
    (hpos : 0 < s.env.bufferLength) (hlt : s.env.bufferLength < 2 ^ 64) :
    ∃ r, refill 64 results more held.length remains s = some r ∧
      FileRead (s.env.bufferLength < held.length + more) held rest more s r := by
  let t : UnpackState FileUnpackEnv :=
    { s with
      uc.current := s.uc.start + held.length
      uc.end_ := s.uc.start + remains
      env.barrier := s.env.barrier.map fun _ => s.uc.start }
  have hbarrier : t.env.barrier.getD t.uc.current = s.uc.start := by
    show (s.env.barrier.map fun _ => s.uc.start).getD (s.uc.start + held.length) = s.uc.start
    cases hb : s.env.barrier with
    | none =>
        rw [hnone hb]
        rfl
    | some p => rfl
  have hsub : s.uc.start + remains - s.uc.start = remains := Nat.add_sub_cancel_left _ _
  have hfed : FileFed held rest t.input := by
    refine ⟨?_, ?_, ?_, ?_, hpos, hlt, ?_, ?_⟩
    · show s.uc.start ≤ t.env.barrier.getD t.uc.current
      rw [hbarrier]
    · show t.env.barrier.getD t.uc.current ≤ s.uc.start + held.length
      omega
    · show s.uc.start + held.length ≤ s.uc.start + remains
      omega
    · show s.uc.start + remains - s.uc.start ≤ s.env.bufferLength
      omega
    · show held.length = s.uc.start + held.length - t.env.barrier.getD t.uc.current
      omega
    · show s.mem.bytes (t.env.barrier.getD t.uc.current)
        (s.uc.start + remains - t.env.barrier.getD t.uc.current) ++ _ = _
      rw [hbarrier, hsub]
      exact hcontent
  obtain ⟨r, hcall, hitem, hrc, hbar, hfed', hout⟩ := readLoop_spec hread
    (s.env.fileDescriptor.unread.length + 1) t hfed rfl (Nat.lt_succ_self _)
  have hisSome : t.env.barrier.isSome = s.env.barrier.isSome := Option.isSome_map
  exact ⟨r, hcall, hitem, hrc, hbar.trans hisSome, hfed', hout⟩

theorem copyRemains_bytes (dst src remains : Nat) (s : UnpackState FileUnpackEnv) :
    (copyRemains dst src remains s).mem.bytes dst remains = s.mem.bytes src remains := by
  unfold copyRemains
  by_cases hremains : remains = 0
  · rw [hremains]
    rfl
  · rw [if_pos hremains]
    exact s.mem.bytes_move dst src remains

/-- A copy changes the memory and the list of copies only. -/
theorem copyRemains_frame (dst src remains : Nat) (s : UnpackState FileUnpackEnv) :
    ∃ m cs, copyRemains dst src remains s = { s with mem := m, env.copies := cs } := by
  unfold copyRemains
  split
  · exact ⟨_, _, rfl⟩
  · exact ⟨s.mem, s.env.copies, rfl⟩

/-- The underflow handler keeps what is held back and brings in what is asked for, if the
stream has it.  Only a length beyond 63 bits can keep the buffer from growing, and only one
beyond 64 bits makes it seem long enough. -/
theorem handleFileUnpackUnderflow_reads {realloc : Allocator}
    (hheap : ∀ i n, (realloc i n).isSome) (hread : ∀ i n, ∃ k, results i n = .ok k)
    {held rest : List UInt8} {more : Nat} {s : UnpackState FileUnpackEnv}
    (h : FileFed held rest s.input) (hmore : more < 2 ^ 32) :
    Ends (2 ^ 63 < held.length + more)
      (FileRead (2 ^ 64 ≤ held.length + more) held rest more s)
      (handleFileUnpackUnderflow 64 realloc results s more) := by
  have hstart : s.uc.start ≤ s.env.barrier.getD s.uc.current := h.start_le
  have hbarrier : s.env.barrier.getD s.uc.current ≤ s.uc.current := h.barrier_le
  have hle : s.uc.current ≤ s.uc.end_ := h.le
  have hroom : s.uc.end_ - s.uc.start ≤ s.env.bufferLength := h.room
  have hlt : s.env.bufferLength < 2 ^ 64 := h.length_lt
  have hpos : 0 < s.env.bufferLength := h.nonempty
  have hheld : held.length = s.uc.current - s.env.barrier.getD s.uc.current := h.held_length
  have hcontent : s.mem.bytes (s.env.barrier.getD s.uc.current)
      (s.uc.end_ - s.env.barrier.getD s.uc.current) ++ s.env.fileDescriptor.unread =
        held ++ rest := h.content
  have hnone : s.env.barrier = none → held = [] := by
    intro hb
    rw [hb] at hheld
    exact List.length_eq_zero_iff.mp (hheld.trans (Nat.sub_self _))
  have hkept : ulongDiff 64 s.uc.current (s.env.barrier.getD s.uc.current) = held.length := by
    rw [ulongDiff_of_le hbarrier (by omega), hheld]
  have hremains : ulongDiff 64 s.uc.end_ (s.env.barrier.getD s.uc.current) =
      s.uc.end_ - s.env.barrier.getD s.uc.current := ulongDiff_of_le (by omega) (by omega)
  obtain ⟨m, cs, hcopy⟩ := copyRemains_frame s.uc.start (s.env.barrier.getD s.uc.current)
    (s.uc.end_ - s.env.barrier.getD s.uc.current) s
  have hbytes := copyRemains_bytes s.uc.start (s.env.barrier.getD s.uc.current)
    (s.uc.end_ - s.env.barrier.getD s.uc.current) s
  rw [hcopy] at hbytes
  simp only at hbytes
  rw [← hbytes] at hcontent
  simp only [handleFileUnpackUnderflow, hkept, hremains, hcopy]
  by_cases hsmall : s.env.bufferLength < (more + held.length) % 2 ^ 64
  · -- the buffer holds what is held back, so the sum has not wrapped
    have hmod : (more + held.length) % 2 ^ 64 = more + held.length :=
      Nat.mod_eq_of_lt (by omega)
    rw [if_pos hsmall]
    rw [hmod] at hsmall ⊢
    cases hgrow : growBuffer 64 (more + held.length) s.env.bufferLength with
    | none =>
        show 2 ^ 63 < held.length + more
        by_contra hsize
        obtain ⟨n, hn, -⟩ := growBuffer_spec 64 (more + held.length) s.env.bufferLength (by omega)
          hpos hlt
        rw [hgrow] at hn
        simp at hn
    | some n =>
        obtain ⟨hn, hltn⟩ := growBuffer_of_eq_some hlt hgrow
        obtain ⟨p, hp⟩ := Option.isSome_iff_exists.mp (hheap s.env.requests n)
        simp only [hp]
        -- the whole block is moved, and with it what remains
        have hmoved : (m.move p s.uc.start (min s.env.bufferLength n)).bytes p
            (s.uc.end_ - s.env.barrier.getD s.uc.current) =
              m.bytes s.uc.start (s.uc.end_ - s.env.barrier.getD s.uc.current) := by
          rw [Nat.min_eq_left (by omega)]
          exact m.bytes_move_of_le p s.uc.start (by omega)
        rw [← hmoved] at hcontent
        obtain ⟨r, hcall, hitem, hrc, hbar, hfed, hout⟩ := refill_spec hread more (s := { s with
          mem := m.move p s.uc.start (min s.env.bufferLength n)
          uc.start := p
          env.copies := cs
          env.bufferLength := n
          env.requests := s.env.requests + 1 }) hcontent (by omega) hnone
          (by show _ ≤ n; omega) (by show 0 < n; omega) hltn
        rw [hcall]
        refine ⟨hitem, hrc, hbar, hfed, hout.imp_right (And.imp_right (Or.imp_right ?_))⟩
        intro hfull
        have hfull' : n < held.length + more := hfull
        omega
  · rw [if_neg hsmall]
    obtain ⟨r, hcall, hitem, hrc, hbar, hfed, hout⟩ := refill_spec hread more
      (s := { s with mem := m, env.copies := cs }) hcontent (by omega) hnone
      (by show _ ≤ s.env.bufferLength; omega) hpos hlt
    rw [hcall]
    refine ⟨hitem, hrc, hbar, hfed, hout.imp_right (And.imp_right (Or.imp_right ?_))⟩
    intro hfull
    have hfull' : s.env.bufferLength < held.length + more := hfull
    by_contra hfits
    rw [Nat.mod_eq_of_lt (by omega)] at hsmall
    omega

/-- What the handler comes to while the lengths are small: the invariant is kept, and the
barrier stays set or not. -/
abbrev FileRefilled (held rest : List UInt8) (more : Nat) (s : UnpackState FileUnpackEnv)
    (r : Int × UnpackState FileUnpackEnv) : Prop :=
  Refilled (fun rest x => FileFed held rest x ∧ x.env.barrier.isSome = s.env.barrier.isSome)
    (fun _ => True) rest s more r

theorem handleFileUnpackUnderflow_spec {realloc : Allocator}
    (hheap : ∀ i n, (realloc i n).isSome) (hread : ∀ i n, ∃ k, results i n = .ok k)
    {held rest : List UInt8} {more : Nat} {s : UnpackState FileUnpackEnv}
    (h : FileFed held rest s.input) (hmore : more < 2 ^ 32) (hsmall : held.length + more ≤ 2 ^ 63) :
    ∃ rc s', handleFileUnpackUnderflow 64 realloc results s more = some (rc, s') ∧
      FileRefilled held rest more s (rc, s') := by
  obtain ⟨⟨rc, s'⟩, hcall, hitem, hrc, hbar, hfed, hout⟩ :=
    ((handleFileUnpackUnderflow_reads hheap hread h hmore).excuse
      fun hbig => absurd hsmall (Nat.not_le.mpr hbig)).exists_of_not_stuck
  refine ⟨rc, s', hcall, hitem, hrc, ?_⟩
  have hahead : rest.length = s'.uc.end_ - s'.uc.current + s'.env.fileDescriptor.unread.length :=
    hfed.ahead_length
  rcases hout with ⟨hok, hwindow⟩ | ⟨hend, hshort | hfull⟩
  · simp only at hok hwindow
    rw [if_neg (by omega)]
    exact ⟨hok, ⟨hfed, hbar⟩, hwindow⟩
  · rw [if_pos hshort]
    exact ⟨hend, trivial⟩
  · omega

/-- A file unpack context without a barrier is fed by its stream. -/
theorem file_feeds {realloc : Allocator} (hheap : ∀ i n, (realloc i n).isSome)
    (hread : ∀ i n, ∃ k, results i n = .ok k) :
    Feeds (some (handleFileUnpackUnderflow 64 realloc results)) False
      (fun rest x => FileFed [] rest x ∧ x.env.barrier.isSome = false) (fun _ => True) where
  window := by
    intro rest x h
    exact ⟨h.1.le, ⟨_, h.1.ahead⟩⟩
  advance := by
    intro rest x n h hn
    obtain ⟨hfed, hb⟩ := h
    have hnone : x.env.barrier = none := by
      cases hbarrier : x.env.barrier with
      | none => rfl
      | some p =>
          rw [hbarrier] at hb
          exact Bool.noConfusion hb
    have hahead := hfed.ahead
    have hstart := hfed.start_le
    have hle := hfed.le
    rw [hnone] at hstart
    have hstart' : x.start ≤ x.current := hstart
    refine ⟨⟨?_, ?_, ?_, hfed.room, hfed.nonempty, hfed.length_lt, ?_, ?_⟩, hb⟩
    · show x.start ≤ x.env.barrier.getD (x.current + n)
      rw [hnone]
      show x.start ≤ x.current + n
      omega
    · show x.env.barrier.getD (x.current + n) ≤ x.current + n
      rw [hnone]
      exact Nat.le_refl _
    · show x.current + n ≤ x.end_
      omega
    · show 0 = x.current + n - x.env.barrier.getD (x.current + n)
      rw [hnone]
      exact (Nat.sub_self _).symm
    · show x.mem.bytes (x.env.barrier.getD (x.current + n))
        (x.end_ - x.env.barrier.getD (x.current + n)) ++ _ = [] ++ rest.drop n
      rw [hnone]
      show x.mem.bytes (x.current + n) (x.end_ - (x.current + n)) ++ _ = rest.drop n
      rw [← hahead, List.drop_append_of_le_length (by rw [Memory.bytes_length]; exact hn),
        Memory.bytes_drop _ hn, Nat.sub_add_eq]
      rfl
  stops := fun _ => trivial
  refill := by
    intro rest s more h _ hmore
    obtain ⟨hfed, hb⟩ := h
    have hb' : s.env.barrier.isSome = false := hb
    have hsize : ([] : List UInt8).length + more ≤ 2 ^ 63 := by
      show 0 + more ≤ 2 ^ 63
      omega
    obtain ⟨rc, s', hcall, hrefilled⟩ :=
      handleFileUnpackUnderflow_spec hheap hread hfed hmore hsize
    show Ends False _ (handleFileUnpackUnderflow 64 realloc results s more)
    rw [hcall, ends_some]
    unfold FileRefilled at hrefilled
    rw [hb'] at hrefilled
    exact hrefilled

/-- A fresh context has the whole stream ahead. -/
theorem fileFed_init {malloc : Allocator} (hheap : ∀ i n, (malloc i n).isSome)
    {initialBufferLength : Nat} (hlt : initialBufferLength < 2 ^ 64) (fd : InputDescriptor)
    (s : UnpackState FileUnpackEnv) :
    (initFileUnpackContext malloc initialBufferLength fd s).uc.returnCode = 0 ∧
      FileFed [] fd.unread (initFileUnpackContext malloc initialBufferLength fd s).input ∧
      (initFileUnpackContext malloc initialBufferLength fd s).env.barrier.isSome = false := by
  unfold initFileUnpackContext
  have hpos := initialLength_bounds 1024 (by decide) hlt
  generalize (if initialBufferLength > 0 then initialBufferLength else 1024) = n at hpos ⊢
  obtain ⟨p, hp⟩ := Option.isSome_iff_exists.mp (hheap s.env.requests n)
  simp only [hp]
  refine ⟨rfl, ⟨Nat.le_refl _, Nat.le_refl _, Nat.le_refl _, ?_, hpos.1, hpos.2, ?_, ?_⟩, rfl⟩
  · show p - p ≤ n
    omega
  · show 0 = p - p
    omega
  · show Memory.bytes _ p (p - p) ++ fd.unread = [] ++ fd.unread
    rw [Nat.sub_self]
    rfl

end Reading

/-! ## Against the static context -/

/-- File unpacking cannot be told from unpacking a static buffer that holds the stream. -/
theorem file_unpack_refines_static (realloc : Allocator) (hheap : ∀ i n, (realloc i n).isSome)
    (results : ReadResults) (hread : ∀ i n, ∃ k, results i n = .ok k) (initialBufferLength : Nat)
    (hinit : initialBufferLength < 2 ^ 64) (fd : InputDescriptor) (s : UnpackState FileUnpackEnv)
    (data : Nat) (t : UnpackState τ) (hstatic : t.mem.bytes data fd.unread.length = fd.unread)
    (ops : List UnpackOp) (fuel : Nat) (hfuel : fd.unread.length < fuel) :
    ∃ seen s' t',
      trace (UnpackOp.perform fuel (some (handleFileUnpackUnderflow 64 realloc results))) ops
        (initFileUnpackContext realloc initialBufferLength fd s) = some (seen, s') ∧
      trace (UnpackOp.perform fuel none) ops (cwUnpackContextInit data fd.unread.length t) =
        some (seen, t') := by
  obtain ⟨hrc, hfed, hbarrier⟩ := fileFed_init hheap hinit fd s
  obtain ⟨⟨seen, s'⟩, hfile, hseen, -⟩ := (trace_tracks (file_feeds hheap hread) fuel ops
    (initFileUnpackContext realloc initialBufferLength fd s) (.ok fd.unread)
    ⟨hrc, ⟨hfed, hbarrier⟩, hfuel⟩).exists_of_not_stuck
  obtain ⟨⟨seen', t'⟩, hbuffer, hseen', -⟩ := (trace_tracks (static_feeds _) fuel ops
    (cwUnpackContextInit data fd.unread.length t) (.ok fd.unread)
    (static_tracks data fuel hstatic hfuel)).exists_of_not_stuck
  obtain rfl : seen = _ := hseen
  obtain rfl : seen' = _ := hseen'
  exact ⟨_, s', t', hfile, hbuffer⟩

/-- A descriptor that gives one byte at a time. -/
def byteByByte : ReadResults := fun _ _ => .ok 1

/-- A context before its initialisation. -/
def blankFileUnpack : UnpackState FileUnpackEnv :=
  ⟨⟨⟨.notAnItem, .u64 0⟩, 0, 0, 0, 0, 0⟩, fun _ => 0, ⟨0, ⟨[], 0, 0⟩, none, 0, []⟩⟩

theorem file_unpack_reads_byte_by_byte :
    ∃ seen s' t',
      trace (UnpackOp.perform 4 (some (handleFileUnpackUnderflow 64 (fixedHeap 0) byteByByte)))
        [.next, .next] (initFileUnpackContext (fixedHeap 0) 1 ⟨[0xcd, 0x01, 0x2c], 0, 0⟩
          blankFileUnpack) = some (seen, s') ∧
      trace (UnpackOp.perform 4 none) [.next, .next]
        (cwUnpackContextInit 0 3 (staticContext [0xcd, 0x01, 0x2c])) = some (seen, t') :=
  file_unpack_refines_static (fixedHeap 0) (fun _ _ => rfl) byteByByte (fun _ _ => ⟨1, rfl⟩) 1
    (by decide) ⟨[0xcd, 0x01, 0x2c], 0, 0⟩ blankFileUnpack 0 (staticContext [0xcd, 0x01, 0x2c])
    (by decide) [.next, .next] 4 (by decide)

end CWPack.Goodies
