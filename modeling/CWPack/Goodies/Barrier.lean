/-
  Goodies/Barrier.lean --- rescanning a file unpack context from its barrier.

  While a barrier is active the buffer holds everything from the barrier on.
  `BarrierAt base` says so of a state: what is held back and what is ahead are
  together `base`, the bytes that came after the barrier was set.  No call takes
  anything from `base`, so going back to the barrier brings all of it ahead again,
  and the context answers every further call as it did the first time.
-/
import CWPack.Goodies.FileUnpack

set_option autoImplicit false

namespace CWPack.Goodies

open CWPack.Foundation
open CWPack.Core

/-! ## The calls -/

/-- `file_unpack_context_set_barrier` -/
def fileUnpackContextSetBarrier (s : UnpackState FileUnpackEnv) : UnpackState FileUnpackEnv :=
  { s with env.barrier := some s.uc.current }

/-- `file_unpack_context_rescan_from_barrier`; without a barrier the cursor is `NULL`. -/
def fileUnpackContextRescanFromBarrier (s : UnpackState FileUnpackEnv) :
    UnpackState FileUnpackEnv :=
  s.setCurrent (s.env.barrier.getD 0)

/-- `file_unpack_context_release_barrier` -/
def fileUnpackContextReleaseBarrier (s : UnpackState FileUnpackEnv) :
    UnpackState FileUnpackEnv :=
  { s with env.barrier := none }

/-- The bytes from the position of the context on: those in the window and those
unread. -/
def coming (s : UnpackState FileUnpackEnv) : List UInt8 :=
  s.mem.bytes s.uc.current (s.uc.end_ - s.uc.current) ++ s.env.fileDescriptor.unread

/-- How many bytes of the stream have been consumed. -/
def position (stream : List UInt8) (s : UnpackState FileUnpackEnv) : Nat :=
  stream.length - (coming s).length

/-- The states of a run on `stream`, with the position of the active barrier.  A barrier is set
while all is well, and only an active barrier is gone back to. -/
inductive FileUnpackReaches (fuel : Nat) (H : Option (UnpackUnderflowHandler FileUnpackEnv))
    (s₀ : UnpackState FileUnpackEnv) (stream : List UInt8) :
    Option Nat → UnpackState FileUnpackEnv → Prop where
  | init : FileUnpackReaches fuel H s₀ stream none s₀
  | call {mark : Option Nat} {s s' : UnpackState FileUnpackEnv} {op : UnpackOp} {o : Observation} :
      FileUnpackReaches fuel H s₀ stream mark s → op.perform fuel H s = some (o, s') →
      FileUnpackReaches fuel H s₀ stream mark s'
  | setBarrier {mark : Option Nat} {s : UnpackState FileUnpackEnv} :
      FileUnpackReaches fuel H s₀ stream mark s → s.uc.returnCode = cwpRcOk →
      FileUnpackReaches fuel H s₀ stream (some (position stream s)) (fileUnpackContextSetBarrier s)
  | releaseBarrier {mark : Option Nat} {s : UnpackState FileUnpackEnv} :
      FileUnpackReaches fuel H s₀ stream mark s →
      FileUnpackReaches fuel H s₀ stream none (fileUnpackContextReleaseBarrier s)
  | rescan {k : Nat} {s : UnpackState FileUnpackEnv} :
      FileUnpackReaches fuel H s₀ stream (some k) s →
      FileUnpackReaches fuel H s₀ stream (some k) (fileUnpackContextRescanFromBarrier s)

/-- What may be done while a barrier is active. -/
inductive ScanOp where
  | call (op : UnpackOp)
  | rescan
  deriving DecidableEq

def ScanOp.perform (fuel : Nat) (H : Option (UnpackUnderflowHandler FileUnpackEnv)) :
    ScanOp → UnpackState FileUnpackEnv → Option (Observation × UnpackState FileUnpackEnv)
  | .call op, s => op.perform fuel H s
  | .rescan, s => some (⟨s.uc.returnCode, none, none⟩, fileUnpackContextRescanFromBarrier s)

/-! ## The bytes from the barrier on -/

/-- A barrier is active, and `base` is what is held back behind it and what is ahead. -/
def BarrierAt (base : List UInt8) (x : UnpackInput FileUnpackEnv) : Prop :=
  ∃ held rest, FileFed held rest x ∧ x.env.barrier.isSome = true ∧ held ++ rest = base

/-- `BarrierAt`, with the bytes ahead as the routines find them: a buffer ends before the
`2 ^ 64`-th byte behind the barrier. -/
def BarrierFed (base ahead : List UInt8) (x : UnpackInput FileUnpackEnv) : Prop :=
  ∃ held rest, FileFed held rest x ∧ x.env.barrier.isSome = true ∧ held ++ rest = base ∧
    ahead = rest.take (2 ^ 64 - 1 - held.length)

theorem BarrierFed.barrierAt {base ahead : List UInt8} {x : UnpackInput FileUnpackEnv}
    (h : BarrierFed base ahead x) : BarrierAt base x := by
  obtain ⟨held, rest, hfed, hbarrier, hbase, -⟩ := h
  exact ⟨held, rest, hfed, hbarrier, hbase⟩

namespace FileFed

variable {held rest : List UInt8} {x : UnpackInput FileUnpackEnv}

/-- The buffer, from the barrier on, has fewer than `2 ^ 64` bytes. -/
theorem window_lt (h : FileFed held rest x) : held.length + (x.end_ - x.current) < 2 ^ 64 := by
  have hlo := h.start_le
  have hbar := h.barrier_le
  have hle := h.le
  have hroom := h.room
  have hlt := h.length_lt
  have hheld := h.held_length
  omega

/-- A barrier at the cursor: nothing is held back. -/
theorem setBarrier (h : FileFed held rest x) :
    FileFed [] rest { x with env.barrier := some x.current } where
  start_le := Nat.le_trans h.start_le h.barrier_le
  barrier_le := Nat.le_refl _
  le := h.le
  room := h.room
  nonempty := h.nonempty
  length_lt := h.length_lt
  held_length := (Nat.sub_self _).symm
  content := h.ahead

/-- Without a barrier nothing is held back. -/
theorem releaseBarrier (h : FileFed held rest x) :
    FileFed [] rest { x with env.barrier := none } where
  start_le := Nat.le_trans h.start_le h.barrier_le
  barrier_le := Nat.le_refl _
  le := h.le
  room := h.room
  nonempty := h.nonempty
  length_lt := h.length_lt
  held_length := (Nat.sub_self _).symm
  content := h.ahead

/-- Back at the barrier, what was held back is ahead. -/
theorem rescan (h : FileFed held rest x) (hbarrier : x.env.barrier.isSome = true) :
    FileFed [] (held ++ rest) (x.seek (x.env.barrier.getD 0)) := by
  obtain ⟨p, hp⟩ := Option.isSome_iff_exists.mp hbarrier
  obtain ⟨hstart, hlo, hle, hroom, hpos, hlt, -, hcontent⟩ := h
  rw [hp, Option.getD_some] at hstart hlo hcontent
  have hget : ∀ d, x.env.barrier.getD d = p := by
    intro d
    rw [hp, Option.getD_some]
  rw [hget]
  refine ⟨?_, ?_, Nat.le_trans hlo hle, hroom, hpos, hlt, ?_, ?_⟩
  · show x.start ≤ x.env.barrier.getD p
    rwa [hget]
  · show x.env.barrier.getD p ≤ p
    rw [hget]
  · show 0 = p - x.env.barrier.getD p
    rw [hget, Nat.sub_self]
  · show x.mem.bytes (x.env.barrier.getD p) (x.end_ - x.env.barrier.getD p) ++ _ = _
    rw [hget]
    exact hcontent

/-- Reading on behind a barrier holds back what is read. -/
theorem advance (h : FileFed held rest x) (hbarrier : x.env.barrier.isSome = true) {n : Nat}
    (hn : n ≤ x.end_ - x.current) :
    FileFed (held ++ rest.take n) (rest.drop n) (x.seek (x.current + n)) := by
  obtain ⟨p, hp⟩ := Option.isSome_iff_exists.mp hbarrier
  have hlen := h.ahead_length
  have hle := h.le
  have hheld := h.held_length
  obtain ⟨hstart, hlo, -, hroom, hpos, hlt, -, hcontent⟩ := h
  have hget : ∀ d, x.env.barrier.getD d = p := by
    intro d
    rw [hp, Option.getD_some]
  rw [hget] at hstart hlo hheld hcontent
  refine ⟨?_, ?_, ?_, hroom, hpos, hlt, ?_, ?_⟩
  · show x.start ≤ x.env.barrier.getD (x.current + n)
    rwa [hget]
  · show x.env.barrier.getD (x.current + n) ≤ x.current + n
    rw [hget]
    omega
  · show x.current + n ≤ x.end_
    omega
  · show (held ++ rest.take n).length = x.current + n - x.env.barrier.getD (x.current + n)
    rw [hget, List.length_append, List.length_take]
    omega
  · show x.mem.bytes (x.env.barrier.getD (x.current + n))
      (x.end_ - x.env.barrier.getD (x.current + n)) ++ _ = _
    rw [hget, List.append_assoc, List.take_append_drop]
    exact hcontent

end FileFed

theorem BarrierAt.rescan {base : List UInt8} {s : UnpackState FileUnpackEnv}
    (h : BarrierAt base s.input) :
    FileFed [] base (fileUnpackContextRescanFromBarrier s).input ∧
      (fileUnpackContextRescanFromBarrier s).env.barrier.isSome = true := by
  obtain ⟨held, rest, hfed, hbarrier, rfl⟩ := h
  exact ⟨hfed.rescan hbarrier, hbarrier⟩

/-- With nothing held back, everything from the barrier on is ahead. -/
theorem FileFed.barrierFed {base : List UInt8} {x : UnpackInput FileUnpackEnv}
    (h : FileFed [] base x) (hbarrier : x.env.barrier.isSome = true) :
    BarrierFed base (base.take (2 ^ 64 - 1)) x :=
  ⟨[], base, h, hbarrier, rfl, rfl⟩

section Reading

variable {realloc : Allocator} {results : ReadResults}

/-- A file unpack context with a barrier is fed by what comes after it.  Only more than
`2 ^ 63` bytes can keep the buffer from growing. -/
theorem barrier_feeds (hheap : ∀ i n, (realloc i n).isSome)
    (hread : ∀ i n, ∃ k, results i n = .ok k) (base : List UInt8) :
    Feeds (some (handleFileUnpackUnderflow 64 realloc results)) (2 ^ 63 < base.length + 2 ^ 32)
      (BarrierFed base) (BarrierAt base) where
  window := by
    intro ahead x h
    obtain ⟨held, rest, hfed, -, -, rfl⟩ := h
    have hlt := hfed.window_lt
    refine ⟨hfed.le, ?_⟩
    rw [List.prefix_take_iff, Memory.bytes_length]
    exact ⟨⟨_, hfed.ahead⟩, by omega⟩
  advance := by
    intro ahead x n h hn
    obtain ⟨held, rest, hfed, hbarrier, hbase, rfl⟩ := h
    have hlen := hfed.ahead_length
    refine ⟨_, _, hfed.advance hbarrier hn, hbarrier, ?_, ?_⟩
    · rw [List.append_assoc, List.take_append_drop, hbase]
    · rw [List.drop_take, List.length_append, List.length_take, Nat.min_eq_left (by omega),
        Nat.sub_add_eq]
  stops := fun h => h.barrierAt
  refill := by
    intro ahead s more h _ hmore
    obtain ⟨held, rest, hfed, hbarrier, hbase, rfl⟩ := h
    have hlen := congrArg List.length hbase
    rw [List.length_append] at hlen
    show Ends _ _ (handleFileUnpackUnderflow 64 realloc results s more)
    refine ((handleFileUnpackUnderflow_reads hheap hread hfed hmore).excuse (by omega)).mono ?_
    intro r hr
    obtain ⟨hitem, hrc, hkept, hfed', hout⟩ := hr
    have hbarrier' : r.2.env.barrier.isSome = true := hkept.trans hbarrier
    have hahead : rest.length = r.2.uc.end_ - r.2.uc.current +
      r.2.env.fileDescriptor.unread.length := hfed'.ahead_length
    have hlt : held.length + (r.2.uc.end_ - r.2.uc.current) < 2 ^ 64 := hfed'.window_lt
    refine ⟨hitem, hrc, ?_⟩
    rw [List.length_take]
    rcases hout with ⟨hok, hwindow⟩ | ⟨hend, hshort | hfull⟩
    · rw [if_neg (by omega)]
      exact ⟨hok, ⟨held, rest, hfed', hbarrier', hbase, rfl⟩, hwindow⟩
    · rw [if_pos (by omega)]
      exact ⟨hend, held, rest, hfed', hbarrier', hbase⟩
    · rw [if_pos (by omega)]
      exact ⟨hend, held, rest, hfed', hbarrier', hbase⟩

/-! ### A barrier at the beginning of the buffer -/

/-- The buffer begins at the barrier. -/
def BeginsAtBarrier (x : UnpackInput FileUnpackEnv) : Prop := x.env.barrier = some x.start

theorem readLoop_beginsAtBarrier {w more : Nat} :
    ∀ (fuel : Nat) (s : UnpackState FileUnpackEnv), BeginsAtBarrier s.input →
      Ends True (fun r => BeginsAtBarrier r.2.input) (readLoop w results more fuel s) := by
  intro fuel
  induction fuel with
  | zero => exact fun _ _ => True.intro
  | succ fuel ih =>
      intro s h
      rw [readLoop]
      split
      · simp only
        split
        · exact h
        · split
          · exact h
          · exact ih _ h
      · exact h

theorem refill_beginsAtBarrier {w more kept remains : Nat} {s : UnpackState FileUnpackEnv}
    (hbarrier : s.env.barrier.isSome = true) :
    Ends True (fun r => BeginsAtBarrier r.2.input) (refill w results more kept remains s) := by
  obtain ⟨p, hp⟩ := Option.isSome_iff_exists.mp hbarrier
  refine readLoop_beginsAtBarrier _ _ ?_
  show s.env.barrier.map (fun _ => s.uc.start) = some s.uc.start
  rw [hp, Option.map_some]

/-- The handler keeps the barrier at the beginning of the buffer, which may move. -/
theorem handleFileUnpackUnderflow_beginsAtBarrier {w : Nat} {s : UnpackState FileUnpackEnv}
    (h : BeginsAtBarrier s.input) (more : Nat) :
    Ends True (fun r => BeginsAtBarrier r.2.input)
      (handleFileUnpackUnderflow w realloc results s more) := by
  have hcopy : ∀ dst src n, BeginsAtBarrier (copyRemains dst src n s).input := by
    intro dst src n
    unfold copyRemains
    split
    · exact h
    · exact h
  have hstart := hcopy s.uc.start (s.env.barrier.getD s.uc.current)
    (ulongDiff w s.uc.end_ (s.env.barrier.getD s.uc.current))
  simp only [handleFileUnpackUnderflow]
  generalize copyRemains s.uc.start (s.env.barrier.getD s.uc.current)
    (ulongDiff w s.uc.end_ (s.env.barrier.getD s.uc.current)) s = t at hstart ⊢
  split
  · split
    · exact True.intro
    · split
      · exact hstart
      · exact refill_beginsAtBarrier (Option.isSome_of_eq_some hstart)
  · exact refill_beginsAtBarrier (Option.isSome_of_eq_some hstart)

/-- A buffer that begins at the barrier goes on to do so. -/
theorem beginsAtBarrier_feeds (hheap : ∀ i n, (realloc i n).isSome)
    (hread : ∀ i n, ∃ k, results i n = .ok k) (base : List UInt8) :
    Feeds (some (handleFileUnpackUnderflow 64 realloc results)) (2 ^ 63 < base.length + 2 ^ 32)
      (fun b x => BarrierFed base b x ∧ BeginsAtBarrier x) (BarrierAt base) :=
  (barrier_feeds hheap hread base).frame (fun _ _ h => h) fun _ hhandler s more r h hcall => by
    obtain rfl := Option.mem_some_iff.mp hhandler
    exact (handleFileUnpackUnderflow_beginsAtBarrier h more).of_eq_some hcall

end Reading

/-! ## A reader that can go back -/

/-- What a reader of `base` answers that can go back to its beginning. -/
def ScanOp.answer (base : List UInt8) : ScanOp → Reader → Observation × Reader
  | .call op, r => op.answer r
  | .rescan, .ok _ => (⟨cwpRcOk, none, none⟩, .ok base)
  | .rescan, .error e => (⟨e, none, none⟩, .error e)

section Replay

variable {H : Option (UnpackUnderflowHandler FileUnpackEnv)} {stuck : Prop} {base : List UInt8}
  {fuel : Nat}

/-- A context with a barrier is in step with a reader of what comes after it. -/
abbrev Replays (fuel : Nat) (base : List UInt8) (s : UnpackState FileUnpackEnv) (r : Reader) :
    Prop :=
  Tracks (BarrierFed base) (BarrierAt base) fuel s r

theorem Replays.barrierAt {s : UnpackState FileUnpackEnv} {r : Reader} (h : Replays fuel base s r) :
    BarrierAt base s.input := by
  cases r with
  | ok b => exact h.2.1.barrierAt
  | error e => exact h.2.2

theorem Replays.exists_of_barrierAt {s : UnpackState FileUnpackEnv} (h : BarrierAt base s.input)
    (hfuel : base.length < fuel) : ∃ r, Replays fuel base s r := by
  by_cases hrc : s.uc.returnCode = 0
  · obtain ⟨held, rest, hfed, hbarrier, hbase⟩ := h
    refine ⟨.ok (rest.take (2 ^ 64 - 1 - held.length)), hrc,
      ⟨held, rest, hfed, hbarrier, hbase, rfl⟩, ?_⟩
    rw [← hbase, List.length_append] at hfuel
    rw [List.length_take]
    omega
  · exact ⟨.error s.uc.returnCode, hrc, rfl, h⟩

/-- With nothing held back the reader has everything ahead. -/
theorem Replays.of_fed {s : UnpackState FileUnpackEnv} (hrc : s.uc.returnCode = cwpRcOk)
    (hfed : FileFed [] base s.input) (hbarrier : s.env.barrier.isSome = true)
    (hfuel : base.length < fuel) : Replays fuel base s (.ok (base.take (2 ^ 64 - 1))) := by
  refine ⟨hrc, hfed.barrierFed hbarrier, ?_⟩
  rw [List.length_take]
  omega

theorem ScanOp.perform_spec (F : Feeds H stuck (BarrierFed base) (BarrierAt base))
    (hfuel : base.length < fuel) (op : ScanOp) (s : UnpackState FileUnpackEnv) (r : Reader)
    (h : Replays fuel base s r) :
    Ends stuck
      (fun a => a.1 = (op.answer (base.take (2 ^ 64 - 1)) r).1 ∧
        Replays fuel base a.2 (op.answer (base.take (2 ^ 64 - 1)) r).2)
      (op.perform fuel H s) := by
  cases op with
  | call op => exact op.perform_spec F fuel s r h
  | rescan =>
      obtain ⟨hfed, hbarrier⟩ := h.barrierAt.rescan
      cases r with
      | ok b =>
          have hrc : s.uc.returnCode = cwpRcOk := h.1
          refine ⟨?_, Replays.of_fed hrc hfed hbarrier hfuel⟩
          show (⟨s.uc.returnCode, none, none⟩ : Observation) = ⟨cwpRcOk, none, none⟩
          rw [hrc]
      | error e =>
          obtain ⟨he, rfl, -⟩ := h
          exact ⟨rfl, he, rfl, [], base, hfed, hbarrier, rfl⟩

/-- Whole scans are answered alike. -/
theorem scan_replays (F : Feeds H stuck (BarrierFed base) (BarrierAt base))
    (hfuel : base.length < fuel) (ops : List ScanOp) (s : UnpackState FileUnpackEnv) (r : Reader)
    (h : Replays fuel base s r) :
    Ends stuck
      (fun a => a.1 = (follow (ScanOp.answer (base.take (2 ^ 64 - 1))) ops r).1 ∧
        Replays fuel base a.2 (follow (ScanOp.answer (base.take (2 ^ 64 - 1))) ops r).2)
      (trace (ScanOp.perform fuel H) ops s) :=
  trace_follows (fun op s r hrel => op.perform_spec F hfuel s r hrel) ops s r h

end Replay

/-! ## Reachable states -/

/-- A call leaves a rest of what was ahead. -/
theorem answer_suffix {op : UnpackOp} {b b' : List UInt8} (h : (op.answer (.ok b)).2 = .ok b') :
    b' <:+ b := by
  cases op with
  | next =>
      simp only [UnpackOp.answer] at h
      cases hread : readItem b with
      | error e => simp [hread] at h
      | ok a =>
          simp only [hread, Except.ok.injEq] at h
          rw [← h]
          exact List.drop_suffix _ _
  | lookAhead =>
      simp only [UnpackOp.answer] at h
      cases hlook : lookItem b with
      | error e => simp [hlook] at h
      | ok t =>
          simp only [hlook, Except.ok.injEq] at h
          exact h ▸ List.suffix_refl b
  | skip itemCount =>
      have hrest := skipItems_spec itemCount b
      simp only [UnpackOp.answer] at h
      cases hskip : skipItems itemCount b with
      | error e => simp [hskip] at h
      | ok rest =>
          rw [hskip] at hrest
          obtain ⟨n, rfl⟩ := hrest
          simp only [hskip, Except.ok.injEq] at h
          rw [← h]
          exact List.drop_suffix _ _

/-- Where a reachable context stands in the stream.  Once it has stopped without a barrier,
nothing more is known. -/
def FilePlace (stream : List UInt8) : Option Nat → UnpackState FileUnpackEnv → Prop
  | none, s => s.uc.returnCode = cwpRcOk →
      FileFed [] (coming s) s.input ∧ s.env.barrier.isSome = false ∧ coming s <:+ stream
  | some k, s => k ≤ stream.length ∧ BarrierAt (stream.drop k) s.input

theorem FileFed.coming_eq {held rest : List UInt8} {s : UnpackState FileUnpackEnv}
    (h : FileFed held rest s.input) : coming s = rest :=
  h.ahead

namespace FilePlace

variable {stream : List UInt8} {mark : Option Nat} {s : UnpackState FileUnpackEnv}

/-- While all is well the handler's invariant holds, and what is coming is a rest of the
stream. -/
theorem fed (h : FilePlace stream mark s) (hrc : s.uc.returnCode = cwpRcOk) :
    ∃ held, FileFed held (coming s) s.input ∧ coming s <:+ stream := by
  cases mark with
  | none =>
      obtain ⟨hfed, -, hsuffix⟩ := h hrc
      exact ⟨[], hfed, hsuffix⟩
  | some k =>
      obtain ⟨-, held, rest, hfed, -, hbase⟩ := h
      obtain rfl := hfed.coming_eq
      exact ⟨held, hfed, (List.suffix_append held _).trans (hbase ▸ List.drop_suffix k stream)⟩

theorem setBarrier (h : FilePlace stream mark s) (hrc : s.uc.returnCode = cwpRcOk) :
    FilePlace stream (some (position stream s)) (fileUnpackContextSetBarrier s) := by
  obtain ⟨held, hfed, hsuffix⟩ := h.fed hrc
  refine ⟨Nat.sub_le _ _, [], coming s, hfed.setBarrier, rfl, ?_⟩
  exact List.suffix_iff_eq_drop.mp hsuffix

theorem releaseBarrier (h : FilePlace stream mark s) :
    FilePlace stream none (fileUnpackContextReleaseBarrier s) := by
  intro hrc
  obtain ⟨held, hfed, hsuffix⟩ := h.fed hrc
  exact ⟨hfed.releaseBarrier, rfl, hsuffix⟩

/-- The barrier stands where it was set, and the buffer from there on is what came after. -/
theorem barrier_spec {k : Nat} (h : FilePlace stream (some k) s) :
    ∃ p, s.env.barrier = some p ∧ p ≤ s.uc.current ∧ s.uc.current ≤ s.uc.end_ ∧
      s.mem.bytes p (s.uc.end_ - p) ++ s.env.fileDescriptor.unread = stream.drop k ∧
      position stream s = k + (s.uc.current - p) := by
  obtain ⟨hk, held, rest, hfed, hbarrier, hbase⟩ := h
  obtain ⟨p, hp⟩ := Option.isSome_iff_exists.mp hbarrier
  have hget : s.input.env.barrier.getD s.input.current = p := by
    rw [hp, Option.getD_some]
  have hlo := hfed.barrier_le
  have hheld := hfed.held_length
  have hcontent := hfed.content
  rw [hget] at hlo hheld hcontent
  have hheld' : held.length = s.uc.current - p := hheld
  have hlen := congrArg List.length hbase
  rw [List.length_append, List.length_drop] at hlen
  refine ⟨p, hp, hlo, hfed.le, hcontent.trans hbase, ?_⟩
  unfold position
  rw [hfed.coming_eq]
  omega

end FilePlace

section Runs

variable {realloc : Allocator} {results : ReadResults}

/-- A call leaves the barrier where it is in the stream. -/
theorem FilePlace.call (hheap : ∀ i n, (realloc i n).isSome)
    (hread : ∀ i n, ∃ k, results i n = .ok k) {stream : List UInt8} {fuel : Nat}
    (hfuel : stream.length < fuel) {mark : Option Nat} {s s' : UnpackState FileUnpackEnv}
    {op : UnpackOp} {o : Observation} (h : FilePlace stream mark s)
    (hcall : op.perform fuel (some (handleFileUnpackUnderflow 64 realloc results)) s =
      some (o, s')) : FilePlace stream mark s' := by
  cases mark with
  | none =>
      intro hrc'
      by_cases hrc : s.uc.returnCode = cwpRcOk
      · obtain ⟨hfed, hbarrier, hsuffix⟩ := h hrc
        have htracks := ((op.perform_spec (file_feeds hheap hread) fuel s (.ok (coming s))
          ⟨hrc, ⟨hfed, hbarrier⟩, Nat.lt_of_le_of_lt hsuffix.length_le hfuel⟩).of_eq_some hcall).2
        cases hreader : (op.answer (.ok (coming s))).2 with
        | error e =>
            rw [hreader] at htracks
            obtain ⟨he, hrce, -⟩ := htracks
            exact absurd (hrce.symm.trans hrc') he
        | ok b =>
            rw [hreader] at htracks
            obtain ⟨-, ⟨hfed', hbarrier'⟩, -⟩ := htracks
            obtain rfl := hfed'.coming_eq
            exact ⟨hfed', hbarrier', (answer_suffix hreader).trans hsuffix⟩
      · rw [op.perform_of_stopped fuel hrc] at hcall
        obtain rfl : s = s' := congrArg Prod.snd (Option.some.inj hcall)
        exact absurd hrc' hrc
  | some k =>
      obtain ⟨hk, hat⟩ := h
      have hlen : (stream.drop k).length ≤ stream.length := (List.drop_suffix k stream).length_le
      obtain ⟨r, hr⟩ := Replays.exists_of_barrierAt hat (Nat.lt_of_le_of_lt hlen hfuel)
      have hreplays : Replays fuel (stream.drop k) s' (op.answer r).2 :=
        ((op.perform_spec (barrier_feeds hheap hread (stream.drop k)) fuel s r hr).of_eq_some
          hcall).2
      exact ⟨hk, hreplays.barrierAt⟩

/-- Every reachable state has its place in the stream. -/
theorem FileUnpackReaches.place (hheap : ∀ i n, (realloc i n).isSome)
    (hread : ∀ i n, ∃ k, results i n = .ok k) {stream : List UInt8} {fuel : Nat}
    (hfuel : stream.length < fuel) {s₀ : UnpackState FileUnpackEnv}
    (hinit : FilePlace stream none s₀) {mark : Option Nat} {s : UnpackState FileUnpackEnv}
    (r : FileUnpackReaches fuel (some (handleFileUnpackUnderflow 64 realloc results)) s₀ stream
      mark s) : FilePlace stream mark s := by
  induction r with
  | init => exact hinit
  | call _ hcall ih => exact ih.call hheap hread hfuel hcall
  | setBarrier _ hrc ih => exact ih.setBarrier hrc
  | releaseBarrier _ ih => exact ih.releaseBarrier
  | rescan _ ih =>
      obtain ⟨hk, hat⟩ := ih
      obtain ⟨hfed, hbarrier⟩ := hat.rescan
      exact ⟨hk, [], _, hfed, hbarrier, rfl⟩

end Runs

/-! ## Rescanning -/

/-- Rescanning from the barrier replays the stream. -/
theorem rescan_replays_from_barrier {realloc : Allocator} (hheap : ∀ i n, (realloc i n).isSome)
    {results : ReadResults} (hread : ∀ i n, ∃ k, results i n = .ok k) {initialBufferLength : Nat}
    (hinit : initialBufferLength < 2 ^ 64) (fd : InputDescriptor) (s₀ : UnpackState FileUnpackEnv)
    {fuel : Nat} (hfuel : fd.unread.length < fuel) {mark : Option Nat}
    {s : UnpackState FileUnpackEnv}
    (r : FileUnpackReaches fuel (some (handleFileUnpackUnderflow 64 realloc results))
      (initFileUnpackContext realloc initialBufferLength fd s₀) fd.unread mark s) :
    (∀ k, mark = some k → ∃ p, s.env.barrier = some p ∧ p ≤ s.uc.current ∧
      s.uc.current ≤ s.uc.end_ ∧
      s.mem.bytes p (s.uc.end_ - p) ++ s.env.fileDescriptor.unread = fd.unread.drop k ∧
      position fd.unread s = k + (s.uc.current - p)) ∧
    (s.uc.returnCode = cwpRcOk → ∀ first seen s₁,
      trace (ScanOp.perform fuel (some (handleFileUnpackUnderflow 64 realloc results))) first
        (fileUnpackContextSetBarrier s) = some (seen, s₁) →
      s₁.uc.returnCode = cwpRcOk →
      coming (fileUnpackContextRescanFromBarrier s₁) = coming (fileUnpackContextSetBarrier s) ∧
      coming (fileUnpackContextSetBarrier s) = fd.unread.drop (position fd.unread s) ∧
      ∀ further : List ScanOp,
        (∀ a a', trace (ScanOp.perform fuel (some (handleFileUnpackUnderflow 64 realloc results)))
            further (fileUnpackContextSetBarrier s) = some a →
          trace (ScanOp.perform fuel (some (handleFileUnpackUnderflow 64 realloc results)))
            further (fileUnpackContextRescanFromBarrier s₁) = some a' → a'.1 = a.1) ∧
        (fd.unread.length + 2 ^ 32 ≤ 2 ^ 63 →
          (trace (ScanOp.perform fuel (some (handleFileUnpackUnderflow 64 realloc results)))
            further (fileUnpackContextSetBarrier s)).isSome ∧
          (trace (ScanOp.perform fuel (some (handleFileUnpackUnderflow 64 realloc results)))
            further (fileUnpackContextRescanFromBarrier s₁)).isSome)) := by
  obtain ⟨hrc₀, hfed₀, hbarrier₀⟩ := fileFed_init hheap hinit fd s₀
  have hplace := r.place hheap hread hfuel (by
    intro _
    rw [hfed₀.coming_eq]
    exact ⟨hfed₀, hbarrier₀, List.suffix_refl _⟩)
  refine ⟨?_, ?_⟩
  · rintro k rfl
    exact hplace.barrier_spec
  · intro hrc first seen s₁ hfirst hrc₁
    obtain ⟨held, hfed, hsuffix⟩ := hplace.fed hrc
    have hlen : (coming s).length ≤ fd.unread.length := hsuffix.length_le
    have hfuel' : (coming s).length < fuel := Nat.lt_of_le_of_lt hlen hfuel
    have F := barrier_feeds hheap hread (coming s)
    have hset : Replays fuel (coming s) (fileUnpackContextSetBarrier s)
        (.ok ((coming s).take (2 ^ 64 - 1))) := .of_fed hrc hfed.setBarrier rfl hfuel'
    -- the run from the barrier on loses nothing of what came after it
    have hreplays₁ := ((scan_replays F hfuel' first _ _ hset).of_eq_some hfirst).2
    obtain ⟨hfed₁, hbarrier₁⟩ := (Replays.barrierAt hreplays₁).rescan
    have hback : Replays fuel (coming s) (fileUnpackContextRescanFromBarrier s₁)
        (.ok ((coming s).take (2 ^ 64 - 1))) := .of_fed hrc₁ hfed₁ hbarrier₁ hfuel'
    refine ⟨hfed₁.coming_eq, List.suffix_iff_eq_drop.mp hsuffix, fun further => ?_⟩
    have hthere := scan_replays F hfuel' further _ _ hset
    have hagain := scan_replays F hfuel' further _ _ hback
    refine ⟨?_, ?_⟩
    · intro a a' ha ha'
      exact (hagain.of_eq_some ha').1.trans (hthere.of_eq_some ha).1.symm
    · intro hsmall
      have hnot : 2 ^ 63 < (coming s).length + 2 ^ 32 → False := by omega
      obtain ⟨a, ha, -⟩ := (hthere.excuse hnot).exists_of_not_stuck
      obtain ⟨a', ha', -⟩ := (hagain.excuse hnot).exists_of_not_stuck
      exact ⟨Option.isSome_of_eq_some ha, Option.isSome_of_eq_some ha'⟩

/-- A stream of two integers, read byte by byte: the first is scanned again. -/
theorem rescan_replays_byte_by_byte :
    ∃ s seen s₁ a a',
      trace (ScanOp.perform 5 (some (handleFileUnpackUnderflow 64 (fixedHeap 0) byteByByte)))
        [.call .next, .rescan, .call .next, .call .lookAhead] (fileUnpackContextSetBarrier s) =
          some (seen, s₁) ∧
      coming (fileUnpackContextRescanFromBarrier s₁) = [0xcd, 0x01, 0x2c, 0x2a] ∧
      trace (ScanOp.perform 5 (some (handleFileUnpackUnderflow 64 (fixedHeap 0) byteByByte)))
        [.call .next, .call .next] (fileUnpackContextRescanFromBarrier s₁) = some a' ∧
      trace (ScanOp.perform 5 (some (handleFileUnpackUnderflow 64 (fixedHeap 0) byteByByte)))
        [.call .next, .call .next] (fileUnpackContextSetBarrier s) = some a ∧ a'.1 = a.1 := by
  have r := @FileUnpackReaches.init 5
    (some (handleFileUnpackUnderflow 64 (fixedHeap 0) byteByByte))
    (initFileUnpackContext (fixedHeap 0) 1 ⟨[0xcd, 0x01, 0x2c, 0x2a], 0, 0⟩ blankFileUnpack)
    [0xcd, 0x01, 0x2c, 0x2a]
  obtain ⟨-, hreplay⟩ := rescan_replays_from_barrier (fun _ _ => rfl) (fun _ _ => ⟨1, rfl⟩)
    (by decide) ⟨[0xcd, 0x01, 0x2c, 0x2a], 0, 0⟩ blankFileUnpack (by decide) r
  obtain ⟨hcoming, hposition, hfurther⟩ := hreplay rfl
    [.call .next, .rescan, .call .next, .call .lookAhead] _ _ rfl rfl
  have hsame := (hfurther [.call .next, .call .next]).1 _ _ rfl rfl
  exact ⟨initFileUnpackContext (fixedHeap 0) 1 ⟨[0xcd, 0x01, 0x2c, 0x2a], 0, 0⟩ blankFileUnpack,
    _, _, _, _, rfl, hcoming.trans hposition, rfl, rfl, hsame⟩

end CWPack.Goodies
