/-
  Goodies/Copies.lean --- the calls of `memcpy` in
  `src/goodies/basic-contexts/basic_contexts.c`.

  `memcpy` wants ranges that do not overlap.  The file contexts move what they
  keep to the start of their buffer with it, and the ranges are apart only where
  what is kept is no longer than the way it moves.  `FlushApart`, `OverflowApart`
  and `RefillApart` say so of the state in which a handler is called.

  The handlers that do not return elsewhere approximate those of the contexts, so
  a run with them is a run of the context in which every call of a handler meets
  its condition.  All copies of such a run are between ranges that are apart.
-/
import CWPack.Core.Approximation
import CWPack.Core.Upkeep
import CWPack.Goodies.Barrier
import CWPack.Goodies.FilePack

set_option autoImplicit false

namespace CWPack.Goodies

open CWPack.Foundation
open CWPack.Core

/-! ## Ranges -/

/-- The ranges `[dst, dst + n)` and `[src, src + n)` of a copy have no address in common. -/
def Apart (copy : Nat × Nat × Nat) : Prop :=
  ∀ a, ¬ ((copy.1 ≤ a ∧ a < copy.1 + copy.2.2) ∧ (copy.2.1 ≤ a ∧ a < copy.2.1 + copy.2.2))

theorem apart_of_le {dst src n : Nat} (h : dst + n ≤ src ∨ src + n ≤ dst) :
    Apart (dst, src, n) := by
  rintro a ⟨hdst, hsrc⟩
  simp only at hdst hsrc
  omega

/-- What moves down is apart from where it goes if it is no longer than the way. -/
theorem apart_down_iff {dst src n : Nat} (hle : dst ≤ src) (hn : 0 < n) :
    Apart (dst, src, n) ↔ n ≤ src - dst := by
  constructor
  · intro h
    have hsrc := h src
    simp only at hsrc
    omega
  · intro h
    exact apart_of_le (Or.inl (by omega))

/-! ## Packing -/

/-- How many bytes lie behind the barrier, before the cursor. -/
def keptLength (s : PackState FilePackEnv) : Nat :=
  s.pc.current - s.env.barrier.getD s.pc.current

/-- The descriptor takes all that a flush gives it. -/
def Accepts (w : Nat) (results : WriteResults) (s : PackState FilePackEnv) : Prop :=
  let contains := ulongDiff w (s.env.barrier.getD s.pc.current) s.pc.start
  contains ≠ 0 → (write results (s.mem.bytes s.pc.start contains) s.env.fileDescriptor).1 =
    twosComplement w contains

/-- A flush that goes on to its copy keeps no more bytes than it has written. -/
def FlushApart (results : WriteResults) (s : PackState FilePackEnv) : Prop :=
  Accepts 64 results s → keptLength s ≤ s.env.barrier.getD s.pc.current - s.pc.start

/-- An overflow copies behind its flush too: there is nothing to keep, or it goes to a new
block. -/
def OverflowApart (results : WriteResults) (s : PackState FilePackEnv) (more : Nat) : Prop :=
  FlushApart results s ∧ (Accepts 64 results s → keptLength s = 0 ∨
    (s.pc.current ≤ s.pc.end_ ∧ s.pc.end_ - s.pc.start < (more + keptLength s) % 2 ^ 64))

instance (w : Nat) (results : WriteResults) (s : PackState FilePackEnv) :
    Decidable (Accepts w results s) :=
  inferInstanceAs (Decidable (_ → _))

instance (results : WriteResults) (s : PackState FilePackEnv) :
    Decidable (FlushApart results s) :=
  inferInstanceAs (Decidable (_ → _))

instance (results : WriteResults) (s : PackState FilePackEnv) (more : Nat) :
    Decidable (OverflowApart results s more) :=
  inferInstanceAs (Decidable (_ ∧ _))

/-- The handlers of the context, except that they do not return where a copy would overlap. -/
def holdAtOverlap (malloc : Allocator) (results : WriteResults) : PackHandlers FilePackEnv :=
  ⟨some fun s more =>
      if OverflowApart results s more then handleFilePackOverflow 64 malloc results s more
      else none,
    some fun s => if FlushApart results s then flushFilePackContext 64 results s else none⟩

/-- What is done with a file pack context. -/
inductive FilePackOp where
  | pack (op : PackOp)
  | flush
  | setBarrier
  | releaseBarrier

def FilePackOp.perform (H : PackHandlers FilePackEnv) :
    FilePackOp → PackState FilePackEnv → Option (PackState FilePackEnv)
  | .pack op, s => op.perform H s
  | .flush, s => cwPackFlush H s
  | .setBarrier, s => some (filePackContextSetBarrier s)
  | .releaseBarrier, s => some (filePackContextReleaseBarrier s)

/-- A new block lies apart from the one in use, which is the last that was given before it. -/
def BlocksApart (malloc : Allocator) : Prop :=
  ∀ i j n m p q, i < j → (∀ k, i < k → k < j → ∃ l, malloc k l = none) →
    malloc i n = some p → malloc j m = some q → p + n ≤ q ∨ q + m ≤ p

/-- The buffer is the last block of the heap that was given. -/
def InBlock (malloc : Allocator) (s : PackState FilePackEnv) : Prop :=
  ∃ i n, i < s.env.requests ∧ (∀ k, i < k → k < s.env.requests → ∃ l, malloc k l = none) ∧
    n < 2 ^ 64 ∧ malloc i n = some s.pc.start ∧ s.pc.end_ = s.pc.start + n

/-- The buffer is a block of the heap, with the barrier between its start and the cursor,
and the copies so far were between ranges that are apart. -/
structure PackPlaced (malloc : Allocator) (s : PackState FilePackEnv) : Prop where
  start_le : s.pc.start ≤ s.env.barrier.getD s.pc.current
  barrier_le : s.env.barrier.getD s.pc.current ≤ s.pc.current
  block : InBlock malloc s
  copies : ∀ copy ∈ s.env.copies, Apart copy

section Packing

variable {malloc : Allocator} {results : WriteResults} {s t : PackState FilePackEnv}

/-- The context between the flush and the growth of an overflow: as after a flush, with
`n` bytes kept. -/
structure Moved (s t : PackState FilePackEnv) : Prop where
  start : t.pc.start = s.pc.start
  end_ : t.pc.end_ = s.pc.end_
  requests : t.env.requests = s.env.requests
  barrier : t.env.barrier = s.env.barrier.map fun _ => s.pc.start
  current : t.pc.current = s.pc.start + keptLength s

theorem memcpy_copies (dst src n : Nat) (s : PackState FilePackEnv) :
    (memcpy dst src n s).env.copies = s.env.copies ++ [(dst, src, n)] := rfl

/-- Behind the write: the kept bytes are copied, if there are any. -/
theorem keepFromBarrier_moved (w : Nat) (hle : s.env.barrier.getD s.pc.current ≤ s.pc.current) :
    Moved s (keepFromBarrier w (s.env.barrier.getD s.pc.current) s) ∧
      (keepFromBarrier w (s.env.barrier.getD s.pc.current) s).env.copies =
        if keptLength s = 0 then s.env.copies
        else s.env.copies ++
          [(s.pc.start, s.env.barrier.getD s.pc.current, keptLength s % 2 ^ w)] := by
  have hkept : (s.pc.current : Int) - (s.env.barrier.getD s.pc.current : Nat) =
      (keptLength s : Nat) := by
    unfold keptLength
    omega
  have hcurrent : ((s.pc.start : Int) + (keptLength s : Nat)).toNat =
      s.pc.start + keptLength s := by omega
  have hpattern : toPattern w (keptLength s : Nat) = keptLength s % 2 ^ w := toPattern_natCast w _
  unfold keepFromBarrier
  by_cases hbarrier : s.env.barrier.isSome
  · obtain ⟨b, hb⟩ := Option.isSome_iff_exists.mp hbarrier
    rw [if_pos hbarrier]
    simp only [hkept, hpattern]
    by_cases hzero : keptLength s = 0
    · have hint : ¬ ((keptLength s : Nat) : Int) ≠ 0 := by omega
      rw [if_neg hint, if_pos hzero]
      exact ⟨⟨rfl, rfl, rfl, by rw [hb]; rfl, hcurrent⟩, rfl⟩
    · have hint : ((keptLength s : Nat) : Int) ≠ 0 := by omega
      rw [if_pos hint, if_neg hzero]
      exact ⟨⟨rfl, rfl, rfl, by rw [hb]; rfl, hcurrent⟩, rfl⟩
  · have hnone : s.env.barrier = none := by simpa using hbarrier
    have hzero : keptLength s = 0 := by
      unfold keptLength
      rw [hnone]
      exact Nat.sub_self _
    rw [if_neg hbarrier, if_pos hzero]
    refine ⟨⟨rfl, rfl, rfl, ?_, ?_⟩, rfl⟩
    · exact hnone.trans (by rw [hnone]; rfl)
    · rw [hzero]
      rfl

/-- A flush goes on to its copy exactly if the descriptor takes what it is given. -/
theorem flushFilePackContext_cases {w : Nat}
    (hle : s.env.barrier.getD s.pc.current ≤ s.pc.current) {rc : Int}
    (hcall : flushFilePackContext w results s = some (rc, t)) :
    (Accepts w results s ∧ rc = cwpRcOk ∧ Moved s t ∧ t.env.copies =
      if keptLength s = 0 then s.env.copies
      else s.env.copies ++
        [(s.pc.start, s.env.barrier.getD s.pc.current, keptLength s % 2 ^ w)]) ∨
    (¬ Accepts w results s ∧ rc = cwpRcErrorInHandler ∧
      ∃ fd, t = { s with env.fileDescriptor := fd, pc.errNo := fd.errno }) := by
  unfold flushFilePackContext at hcall
  unfold Accepts
  simp only at hcall ⊢
  generalize ulongDiff w (s.env.barrier.getD s.pc.current) s.pc.start = contains at hcall ⊢
  by_cases hempty : contains = 0
  · rw [if_neg (not_not_intro hempty)] at hcall
    obtain ⟨rfl, rfl⟩ := Prod.mk.inj (Option.some.inj hcall)
    obtain ⟨hmoved, hcopies⟩ := keepFromBarrier_moved w hle
    exact Or.inl ⟨fun hne => absurd hempty hne, rfl, hmoved, hcopies⟩
  · rw [if_pos hempty] at hcall
    generalize write results (s.mem.bytes s.pc.start contains) s.env.fileDescriptor = r
      at hcall ⊢
    obtain ⟨written, fd⟩ := r
    simp only at hcall ⊢
    by_cases hall : written = twosComplement w contains
    · rw [if_neg (not_not_intro hall)] at hcall
      obtain ⟨rfl, rfl⟩ := Prod.mk.inj (Option.some.inj hcall)
      have hle' : ({ s with env.fileDescriptor := fd } : PackState FilePackEnv).env.barrier.getD
          s.pc.current ≤ s.pc.current := hle
      obtain ⟨hmoved, hcopies⟩ := keepFromBarrier_moved w hle'
      exact Or.inl ⟨fun _ => hall, rfl,
        ⟨hmoved.start, hmoved.end_, hmoved.requests, hmoved.barrier, hmoved.current⟩, hcopies⟩
    · rw [if_pos hall] at hcall
      obtain ⟨rfl, rfl⟩ := Prod.mk.inj (Option.some.inj hcall)
      exact Or.inr ⟨fun haccepts => hall (haccepts hempty), rfl, fd, rfl⟩

/-- The barrier of a moved context is at the start. -/
theorem Moved.bStart (h : Moved s t) : t.env.barrier.getD t.pc.current = t.pc.start := by
  rw [h.barrier, h.start]
  cases hb : s.env.barrier with
  | none =>
      show t.pc.current = s.pc.start
      rw [h.current]
      unfold keptLength
      rw [hb]
      exact congrArg _ (Nat.sub_self _)
  | some b => rfl

/-- A request that is refused leaves the last block that was given. -/
theorem InBlock.refused (h : InBlock malloc s) {n : Nat} (hp : malloc s.env.requests n = none) :
    InBlock malloc { s with env.requests := s.env.requests + 1 } := by
  obtain ⟨i, l, hi, hlast, hl, hblock, hend⟩ := h
  refine ⟨i, l, Nat.lt_succ_of_lt hi, ?_, hl, hblock, hend⟩
  intro k hik hk
  rcases Nat.lt_succ_iff_lt_or_eq.mp hk with hk | rfl
  · exact hlast k hik hk
  · exact ⟨n, hp⟩

/-- A block that is given is not the one in use. -/
theorem InBlock.apart (h : InBlock malloc s) (hblocks : BlocksApart malloc) {n p : Nat}
    (hp : malloc s.env.requests n = some p) : s.pc.end_ ≤ p ∨ p + n ≤ s.pc.start := by
  obtain ⟨i, l, hi, hlast, -, hblock, hend⟩ := h
  rw [hend]
  exact hblocks i s.env.requests l n s.pc.start p hi hlast hblock hp

/-- The block that is given is the last. -/
theorem inBlock_given {n i : Nat} (hn : n < 2 ^ 64) (hp : malloc i n = some t.pc.start)
    (hrequests : t.env.requests = i + 1) (hend : t.pc.end_ = t.pc.start + n) :
    InBlock malloc t := by
  refine ⟨i, n, by omega, ?_, hn, hp, hend⟩
  intro k hlo hhi
  omega

theorem InBlock.start_le (h : InBlock malloc s) : s.pc.start ≤ s.pc.end_ := by
  obtain ⟨-, n, -, -, -, -, hend⟩ := h
  omega

theorem InBlock.length_lt (h : InBlock malloc s) : s.pc.end_ - s.pc.start < 2 ^ 64 := by
  obtain ⟨-, n, -, -, hn, -, hend⟩ := h
  omega

/-- A flush that fails leaves everything in its place. -/
theorem PackPlaced.refused (h : PackPlaced malloc s) (fd : OutputDescriptor) :
    PackPlaced malloc { s with env.fileDescriptor := fd, pc.errNo := fd.errno } :=
  ⟨h.start_le, h.barrier_le, h.block, h.copies⟩

theorem Moved.placed (h : Moved s t) (hs : PackPlaced malloc s)
    (hcopies : ∀ copy ∈ t.env.copies, Apart copy) : PackPlaced malloc t := by
  have hcurrent := h.current
  have hstart := h.start
  refine ⟨Nat.le_of_eq h.bStart.symm, ?_, ?_, hcopies⟩
  · rw [h.bStart]
    omega
  · unfold InBlock
    rw [h.requests, h.start, h.end_]
    exact hs.block

/-- The copy of a flush is between ranges that are apart where `FlushApart` says so. -/
theorem flush_copies_apart (h : PackPlaced malloc s) {rc : Int}
    (hcall : flushFilePackContext 64 results s = some (rc, t)) (hapart : FlushApart results s) :
    ∀ copy ∈ t.env.copies, Apart copy := by
  rcases flushFilePackContext_cases h.barrier_le hcall with
    ⟨haccepts, -, -, hcopies⟩ | ⟨-, -, fd, rfl⟩
  · have hshort := hapart haccepts
    have hstart := h.start_le
    rw [hcopies]
    split
    · exact h.copies
    · intro copy hcopy
      rcases List.mem_append.mp hcopy with hcopy | hcopy
      · exact h.copies copy hcopy
      · obtain rfl := List.mem_singleton.mp hcopy
        have hmod := Nat.mod_le (keptLength s) (2 ^ 64)
        exact apart_of_le (Or.inl (by omega))
  · exact h.copies

/-- The copy of a flush overlaps elsewhere. -/
theorem flushApart_of_copies (h : PackPlaced malloc s) {rc : Int}
    (hcall : flushFilePackContext 64 results s = some (rc, t)) (hlt : keptLength s < 2 ^ 64)
    (hcopies : ∀ copy ∈ t.env.copies, Apart copy) : FlushApart results s := by
  intro haccepts
  rcases flushFilePackContext_cases h.barrier_le hcall with ⟨-, -, -, hall⟩ | ⟨hrefused, -⟩
  · by_cases hzero : keptLength s = 0
    · omega
    · rw [hall, if_neg hzero, Nat.mod_eq_of_lt hlt] at hcopies
      exact (apart_down_iff h.start_le (Nat.pos_of_ne_zero hzero)).mp
        (hcopies _ (List.mem_append_right _ (List.mem_singleton.mpr rfl)))
  · exact absurd haccepts hrefused

/-- With the kept bytes at the start of a block, work goes on behind them. -/
theorem resumeAfter_placed {kept : Nat}
    (hblock : InBlock malloc t) (hcopies : ∀ copy ∈ t.env.copies, Apart copy) :
    PackPlaced malloc (resumeAfter kept t) := by
  unfold resumeAfter
  split
  · exact ⟨Nat.le_refl _, Nat.le_add_right _ _, hblock, hcopies⟩
  · rename_i hbarrier
    have hnone : t.env.barrier = none := by simpa using hbarrier
    refine ⟨?_, ?_, hblock, hcopies⟩
    · show t.pc.start ≤ t.env.barrier.getD (t.pc.start + kept)
      rw [hnone]
      exact Nat.le_add_right _ _
    · show t.env.barrier.getD (t.pc.start + kept) ≤ t.pc.start + kept
      rw [hnone]
      exact Nat.le_refl _

/-- A copy adds itself to the copies, if it is one of anything. -/
theorem copyKept_copies {dst src kept : Nat} {s : PackState FilePackEnv}
    (h : ∀ copy ∈ s.env.copies, Apart copy) (hapart : kept ≠ 0 → Apart (dst, src, kept)) :
    ∀ copy ∈ (copyKept dst src kept s).env.copies, Apart copy := by
  unfold copyKept
  split
  · rename_i hkept
    rw [memcpy_copies]
    intro copy hcopy
    rcases List.mem_append.mp hcopy with hcopy | hcopy
    · exact h copy hcopy
    · obtain rfl := List.mem_singleton.mp hcopy
      exact hapart hkept
  · exact h

theorem mem_copyKept {dst src kept : Nat} {s : PackState FilePackEnv} {copy : Nat × Nat × Nat}
    (h : copy ∈ s.env.copies) : copy ∈ (copyKept dst src kept s).env.copies := by
  unfold copyKept
  split
  · exact List.mem_append_left _ h
  · exact h

theorem copyKept_requests (dst src kept : Nat) (s : PackState FilePackEnv) :
    (copyKept dst src kept s).env.requests = s.env.requests := by
  unfold copyKept
  split <;> rfl

/-- The flush of an overflow that goes on. -/
structure FlushMoves (results : WriteResults) (s t : PackState FilePackEnv) : Prop
    extends Moved s t where
  accepts : Accepts 64 results s
  call : flushFilePackContext 64 results s = some (cwpRcOk, t)

/-- The ways in which an overflow ends: the flush is refused, what is asked for fits in the
buffer, or a larger block is asked for, in vain or not. -/
inductive OverflowEnds (malloc : Allocator) (results : WriteResults) (s : PackState FilePackEnv)
    (more : Nat) : PackState FilePackEnv → Prop
  | refused (fd : OutputDescriptor) (hrefused : ¬ Accepts 64 results s) :
      OverflowEnds malloc results s more
        { s with env.fileDescriptor := fd, pc.errNo := fd.errno }
  | fits {t : PackState FilePackEnv} (hflushed : FlushMoves results s t)
      (hfits : ¬ s.pc.end_ - s.pc.start < (more + keptLength s) % 2 ^ 64) :
      OverflowEnds malloc results s more
        (resumeAfter (keptLength s) (copyKept t.pc.start t.pc.start (keptLength s) t))
  | noBlock {t : PackState FilePackEnv} {n : Nat} (hflushed : FlushMoves results s t)
      (hgrows : s.pc.end_ - s.pc.start < (more + keptLength s) % 2 ^ 64)
      (hp : malloc t.env.requests n = none) :
      OverflowEnds malloc results s more { t with env.requests := t.env.requests + 1 }
  | newBlock {t u : PackState FilePackEnv} {n p : Nat} (hflushed : FlushMoves results s t)
      (hgrows : s.pc.end_ - s.pc.start < (more + keptLength s) % 2 ^ 64)
      (hroom : (more + keptLength s) % 2 ^ 64 ≤ n) (hn : n < 2 ^ 64)
      (hp : malloc t.env.requests n = some p)
      (hu : u = copyKept p t.pc.start (keptLength s)
        { t with env.requests := t.env.requests + 1 }) :
      OverflowEnds malloc results s more
        (resumeAfter (keptLength s) (setBuffer u p u.pc.current (p + n)))

theorem handleFilePackOverflow_ends (h : PackPlaced malloc s) {more : Nat} {rc : Int}
    (hkept_le : Accepts 64 results s → keptLength s ≤ s.pc.end_ - s.pc.start)
    (hcall : handleFilePackOverflow 64 malloc results s more = some (rc, t)) :
    OverflowEnds malloc results s more t := by
  unfold handleFilePackOverflow at hcall
  cases hflush : flushFilePackContext 64 results s with
  | none =>
      rw [hflush] at hcall
      simp at hcall
  | some r =>
      obtain ⟨rc₁, s₁⟩ := r
      rw [hflush] at hcall
      simp only at hcall
      rcases flushFilePackContext_cases h.barrier_le hflush with
        ⟨haccepts, rfl, hmoved, -⟩ | ⟨hrefused, rfl, fd, rfl⟩
      · have hflushed : FlushMoves results s s₁ := ⟨hmoved, haccepts, hflush⟩
        have hle := hkept_le haccepts
        have hstart := hmoved.start
        have hend := hmoved.end_
        have hcurrent := hmoved.current
        have hse := h.block.start_le
        have hlt := h.block.length_lt
        have hlength : ulongDiff 64 s₁.pc.end_ s₁.pc.start = s.pc.end_ - s.pc.start := by
          rw [ulongDiff_of_le (by omega) (by omega), hstart, hend]
        have hkept : ulongDiff 64 s₁.pc.current s₁.pc.start = keptLength s := by
          rw [ulongDiff_of_le (by omega) (by omega)]
          omega
        rw [if_neg (not_not_intro rfl), hmoved.bStart, hlength, hkept] at hcall
        by_cases hgrows : s.pc.end_ - s.pc.start < (more + keptLength s) % 2 ^ 64
        · rw [if_pos hgrows] at hcall
          cases hn' : growBuffer 64 ((more + keptLength s) % 2 ^ 64)
              (s.pc.end_ - s.pc.start) with
          | none =>
              rw [hn'] at hcall
              simp at hcall
          | some n =>
              obtain ⟨hroom, hn⟩ := growBuffer_of_eq_some hlt hn'
              rw [hn'] at hcall
              simp only at hcall
              cases hp : malloc s₁.env.requests n with
              | none =>
                  rw [hp] at hcall
                  obtain ⟨-, rfl⟩ := Prod.mk.inj (Option.some.inj hcall)
                  exact .noBlock hflushed hgrows hp
              | some p =>
                  rw [hp] at hcall
                  obtain ⟨-, rfl⟩ := Prod.mk.inj (Option.some.inj hcall)
                  exact .newBlock hflushed hgrows hroom hn hp rfl
        · rw [if_neg hgrows] at hcall
          obtain ⟨-, rfl⟩ := Prod.mk.inj (Option.some.inj hcall)
          exact .fits hflushed hgrows
      · rw [if_pos (by decide)] at hcall
        obtain ⟨-, rfl⟩ := Prod.mk.inj (Option.some.inj hcall)
        exact .refused fd hrefused

/-- The overflow handler keeps to ranges that are apart where `OverflowApart` says so. -/
theorem handleFilePackOverflow_placed (hblocks : BlocksApart malloc) (h : PackPlaced malloc s)
    {more : Nat} {rc : Int} (hapart : OverflowApart results s more)
    (hcall : handleFilePackOverflow 64 malloc results s more = some (rc, t)) :
    PackPlaced malloc t := by
  obtain ⟨hflushApart, hapart⟩ := hapart
  have hlo := h.start_le
  have hkept_le : Accepts 64 results s → keptLength s ≤ s.pc.end_ - s.pc.start := by
    intro haccepts
    rcases hapart haccepts with hzero | ⟨hle, -⟩
    · omega
    · unfold keptLength
      omega
  have hflushed_placed : ∀ {u}, FlushMoves results s u → PackPlaced malloc u := fun hflushed =>
    hflushed.placed h (flush_copies_apart h hflushed.call hflushApart)
  cases handleFilePackOverflow_ends h hkept_le hcall with
  | refused fd => exact h.refused fd
  | @fits s₁ hflushed hfits =>
      have hs₁ := hflushed_placed hflushed
      have hzero : keptLength s = 0 :=
        (hapart hflushed.accepts).resolve_right fun hgrows => hfits hgrows.2
      rw [hzero]
      exact resumeAfter_placed hs₁.block hs₁.copies
  | @noBlock s₁ n hflushed _ hp =>
      have hs₁ := hflushed_placed hflushed
      exact ⟨hs₁.start_le, hs₁.barrier_le, hs₁.block.refused hp, hs₁.copies⟩
  | @newBlock s₁ u n p hflushed hgrows hroom hn hp hu =>
      subst hu
      have hs₁ := hflushed_placed hflushed
      have hle := hkept_le hflushed.accepts
      have hend := hflushed.end_
      have hstart := hflushed.start
      -- the new block is not the old one
      have hother := hs₁.block.apart hblocks hp
      have hse := hs₁.block.start_le
      refine resumeAfter_placed (inBlock_given hn hp (copyKept_requests _ _ _ _) rfl) ?_
      exact copyKept_copies hs₁.copies fun _ => apart_of_le (by omega)

theorem resumeAfter_copies (kept : Nat) (s : PackState FilePackEnv) :
    (resumeAfter kept s).env.copies = s.env.copies := by
  unfold resumeAfter
  split <;> rfl

/-- Some copy of an overflow overlaps elsewhere. -/
theorem overflowApart_of_copies (h : PackPlaced malloc s) {more : Nat} {rc : Int}
    (hcall : handleFilePackOverflow 64 malloc results s more = some (rc, t))
    (hle : s.pc.current ≤ s.pc.end_) (hcopies : ∀ copy ∈ t.env.copies, Apart copy) :
    OverflowApart results s more := by
  have hlo := h.start_le
  have hlt := h.block.length_lt
  have hkept_le : keptLength s ≤ s.pc.end_ - s.pc.start := by
    unfold keptLength
    omega
  cases handleFilePackOverflow_ends h (fun _ => hkept_le) hcall with
  | refused fd hrefused =>
      exact ⟨fun haccepts => absurd haccepts hrefused, fun haccepts => absurd haccepts hrefused⟩
  | @fits s₁ hflushed hfits =>
      rw [resumeAfter_copies] at hcopies
      refine ⟨flushApart_of_copies h hflushed.call (by omega) fun copy hcopy =>
        hcopies copy (mem_copyKept hcopy), fun _ => Or.inl ?_⟩
      -- what is kept would be copied to where it lies
      by_contra hne
      rw [copyKept, if_pos hne, memcpy_copies] at hcopies
      have hself := hcopies _ (List.mem_append_right _ (List.mem_singleton.mpr rfl))
      exact hself s₁.pc.start ⟨⟨Nat.le_refl _, by simp only; omega⟩,
        ⟨Nat.le_refl _, by simp only; omega⟩⟩
  | noBlock hflushed hgrows hp =>
      exact ⟨flushApart_of_copies h hflushed.call (by omega) hcopies,
        fun _ => Or.inr ⟨hle, hgrows⟩⟩
  | newBlock hflushed hgrows hroom hn hp hu =>
      subst hu
      rw [resumeAfter_copies] at hcopies
      exact ⟨flushApart_of_copies h hflushed.call (by omega) fun copy hcopy =>
        hcopies copy (mem_copyKept hcopy), fun _ => Or.inr ⟨hle, hgrows⟩⟩

theorem holdAtOverlap_keeps (hblocks : BlocksApart malloc) :
    KeepsPacked (holdAtOverlap malloc results) (PackPlaced malloc) where
  append := by
    intro s bs h
    have hstart := h.start_le
    have hbarrier := h.barrier_le
    refine ⟨?_, ?_, h.block, h.copies⟩
    · show s.pc.start ≤ s.env.barrier.getD (s.pc.current + bs.length)
      cases hb : s.env.barrier with
      | none =>
          rw [hb] at hstart
          exact Nat.le_add_right_of_le hstart
      | some b =>
          rw [hb] at hstart
          exact hstart
    · show s.env.barrier.getD (s.pc.current + bs.length) ≤ s.pc.current + bs.length
      cases hb : s.env.barrier with
      | none => exact Nat.le_refl _
      | some b =>
          rw [hb] at hbarrier
          exact Nat.le_add_right_of_le hbarrier
  returnCode := fun _ h => ⟨h.start_le, h.barrier_le, h.block, h.copies⟩
  mode := fun _ h => ⟨h.start_le, h.barrier_le, h.block, h.copies⟩
  overflow := by
    intro handler s more rc t hhandler h hcall
    obtain rfl := Option.some.inj hhandler
    simp only at hcall
    split at hcall
    · rename_i hapart
      exact handleFilePackOverflow_placed hblocks h hapart hcall
    · simp at hcall
  flush := by
    intro handler s rc t hhandler h hcall
    obtain rfl := Option.some.inj hhandler
    simp only at hcall
    split at hcall
    · rename_i hapart
      have hcopies := flush_copies_apart h hcall hapart
      rcases flushFilePackContext_cases h.barrier_le hcall with
        ⟨-, -, hmoved, -⟩ | ⟨-, -, fd, rfl⟩
      · exact hmoved.placed h hcopies
      · exact h.refused fd
    · simp at hcall

theorem holdAtOverlap_approximates (op : FilePackOp) (s : PackState FilePackEnv) :
    Approximates (op.perform (holdAtOverlap malloc results) s)
      (op.perform (filePackHandlers 64 malloc results) s) := by
  cases op with
  | pack op =>
      refine PackOp.perform_approximates (fun s more => ?_) op s
      split
      · exact Approximates.refl _
      · exact approximates_none _
  | flush =>
      simp only [FilePackOp.perform, cwPackFlush, holdAtOverlap, filePackHandlers]
      split
      · split
        · exact approximates_none _
        · rename_i hcall
          split at hcall
          · rw [hcall]
            exact Approximates.refl _
          · simp at hcall
      · exact Approximates.refl _
  | setBarrier => exact Approximates.refl _
  | releaseBarrier => exact Approximates.refl _

theorem FilePackOp.perform_placed (hblocks : BlocksApart malloc) (op : FilePackOp)
    (h : PackPlaced malloc s) (hcall : op.perform (holdAtOverlap malloc results) s = some t) :
    PackPlaced malloc t := by
  have K : KeepsPacked (holdAtOverlap malloc results) (PackPlaced malloc) :=
    holdAtOverlap_keeps hblocks
  cases op with
  | pack op => exact K.perform op h hcall
  | flush => exact K.cwPackFlush h hcall
  | setBarrier =>
      obtain rfl := Option.some.inj hcall
      exact ⟨Nat.le_trans h.start_le h.barrier_le, Nat.le_refl _, h.block, h.copies⟩
  | releaseBarrier =>
      obtain rfl := Option.some.inj hcall
      exact ⟨Nat.le_trans h.start_le h.barrier_le, Nat.le_refl _, h.block, h.copies⟩

/-- A fresh context stands at the start of its block. -/
theorem packPlaced_init {initialBufferLength : Nat} (hlt : initialBufferLength < 2 ^ 64)
    (fd : OutputDescriptor) (hnone : s.env.copies = [])
    (hinit : (initFilePackContext malloc initialBufferLength fd s).pc.returnCode = cwpRcOk) :
    PackPlaced malloc (initFilePackContext malloc initialBufferLength fd s) := by
  unfold initFilePackContext at hinit ⊢
  have hsize : (if initialBufferLength > 32 then initialBufferLength else 4096) < 2 ^ 64 := by
    split <;> omega
  generalize (if initialBufferLength > 32 then initialBufferLength else 4096) = n at *
  simp only at hinit ⊢
  cases hp : malloc s.env.requests n with
  | none =>
      rw [hp] at hinit
      exact absurd hinit (by show ¬ cwpRcMallocError = cwpRcOk; decide)
  | some p =>
      refine ⟨Nat.le_refl _, Nat.le_refl _,
        ⟨s.env.requests, n, Nat.lt_succ_self _, ?_, hsize, hp, rfl⟩, ?_⟩
      · intro k hlo hhi
        exact absurd hhi (Nat.not_lt.mpr hlo)
      intro copy hcopy
      have hnil : copy ∈ s.env.copies := hcopy
      rw [hnone] at hnil
      simp at hnil

end Packing

/-! ## Unpacking -/

/-- A refill keeps no more bytes than there are before them in the buffer. -/
def RefillApart (s : UnpackState FileUnpackEnv) : Prop :=
  s.uc.end_ - s.env.barrier.getD s.uc.current ≤ s.env.barrier.getD s.uc.current - s.uc.start

instance (s : UnpackState FileUnpackEnv) : Decidable (RefillApart s) :=
  inferInstanceAs (Decidable (_ ≤ _))

/-- The handler of the context, except that it does not return where its copy would overlap. -/
def holdRefillAtOverlap (realloc : Allocator) (results : ReadResults) :
    UnpackUnderflowHandler FileUnpackEnv := fun s more =>
  if RefillApart s then handleFileUnpackUnderflow 64 realloc results s more else none

/-- What is done with a file unpack context. -/
inductive FileUnpackOp where
  | call (op : UnpackOp)
  | setBarrier
  | releaseBarrier
  | rescan

/-- Perform an operation; `fuel` bounds the turns of a skipping loop.  Only an active barrier
is gone back to: without one the cursor would be `NULL`. -/
def FileUnpackOp.perform (fuel : Nat) (H : UnpackUnderflowHandler FileUnpackEnv) :
    FileUnpackOp → UnpackState FileUnpackEnv → Option (UnpackState FileUnpackEnv)
  | .call op, s => (op.perform fuel (some H) s).map Prod.snd
  | .setBarrier, s => some (fileUnpackContextSetBarrier s)
  | .releaseBarrier, s => some (fileUnpackContextReleaseBarrier s)
  | .rescan, s =>
      if s.env.barrier.isSome then some (fileUnpackContextRescanFromBarrier s) else none

/-- The barrier and the cursor are in the window, the window is in the buffer, and the copies
so far were between ranges that are apart. -/
structure UnpackPlaced (x : UnpackInput FileUnpackEnv) : Prop where
  start_le : x.start ≤ x.env.barrier.getD x.current
  barrier_le : x.env.barrier.getD x.current ≤ x.current
  le : x.current ≤ x.end_
  room : x.end_ - x.start ≤ x.env.bufferLength
  length_lt : x.env.bufferLength < 2 ^ 64
  copies : ∀ copy ∈ x.env.copies, Apart copy

/-- What a refill comes to, whatever the heap and the descriptor do. -/
structure RefillPlaced (more : Nat) (s : UnpackState FileUnpackEnv)
    (r : Int × UnpackState FileUnpackEnv) : Prop where
  item : r.2.uc.item = s.uc.item
  placed : UnpackPlaced r.2.input
  room : r.1 = cwpRcOk → r.2.uc.current + more ≤ r.2.uc.end_

section Unpacking

variable {realloc : Allocator} {results : ReadResults} {s t : UnpackState FileUnpackEnv}

theorem read_length_le (n : Nat) (fd : InputDescriptor) {bs : List UInt8}
    (h : (read results n fd).1 = some bs) : bs.length ≤ n := by
  unfold read at h
  split at h
  · simp at h
  · obtain rfl := Option.some.inj h
    rw [List.length_take]
    omega

/-- The induction is on the bound of the loop: what is read stays in the buffer. -/
theorem readLoop_placed {more : Nat} :
    ∀ (fuel : Nat) (s : UnpackState FileUnpackEnv) {r : Int × UnpackState FileUnpackEnv},
      UnpackPlaced s.input → readLoop 64 results more fuel s = some r → RefillPlaced more s r := by
  intro fuel
  induction fuel with
  | zero =>
      intro s r _ hcall
      simp [readLoop] at hcall
  | succ fuel ih =>
      intro s r h hcall
      have hstart : s.uc.start ≤ s.env.barrier.getD s.uc.current := h.start_le
      have hbarrier : s.env.barrier.getD s.uc.current ≤ s.uc.current := h.barrier_le
      have hle : s.uc.current ≤ s.uc.end_ := h.le
      have hroom : s.uc.end_ - s.uc.start ≤ s.env.bufferLength := h.room
      have hlt : s.env.bufferLength < 2 ^ 64 := h.length_lt
      have hwindow : ulongDiff 64 s.uc.end_ s.uc.current = s.uc.end_ - s.uc.current :=
        ulongDiff_of_le hle (by omega)
      have hused : ulongDiff 64 s.uc.end_ s.uc.start = s.uc.end_ - s.uc.start :=
        ulongDiff_of_le (by omega) (by omega)
      have hfree : ulongDiff 64 s.env.bufferLength (s.uc.end_ - s.uc.start) =
          s.env.bufferLength - (s.uc.end_ - s.uc.start) := ulongDiff_of_le hroom (by omega)
      rw [readLoop, hwindow] at hcall
      by_cases hshort : s.uc.end_ - s.uc.current < more
      · rw [if_pos hshort] at hcall
        simp only [hused, hfree] at hcall
        have hlen : ∀ bs, (read results (s.env.bufferLength - (s.uc.end_ - s.uc.start))
            s.env.fileDescriptor).1 = some bs → _ := fun _ => read_length_le _ _
        generalize read results (s.env.bufferLength - (s.uc.end_ - s.uc.start))
          s.env.fileDescriptor = given at hcall hlen
        obtain ⟨given, fd⟩ := given
        have hplaced : UnpackPlaced { s.input with env.fileDescriptor := fd } :=
          ⟨hstart, hbarrier, hle, hroom, hlt, h.copies⟩
        cases given with
        | none =>
            obtain rfl := Option.some.inj hcall
            exact ⟨rfl, hplaced, fun hrc =>
              absurd hrc (by show ¬ cwpRcErrorInHandler = cwpRcOk; decide)⟩
        | some bs =>
            have hlen := hlen bs rfl
            simp only at hcall
            by_cases hempty : bs.length = 0
            · rw [if_pos hempty] at hcall
              obtain rfl := Option.some.inj hcall
              exact ⟨rfl, hplaced, fun hrc =>
                absurd hrc (by show ¬ cwpRcEndOfInput = cwpRcOk; decide)⟩
            · rw [if_neg hempty] at hcall
              obtain ⟨hitem, hplaced', hroom'⟩ := ih _ (by
                refine ⟨hstart, hbarrier, ?_, ?_, hlt, h.copies⟩
                · show s.uc.current ≤ s.uc.end_ + bs.length
                  omega
                · show s.uc.end_ + bs.length - s.uc.start ≤ s.env.bufferLength
                  omega) hcall
              exact ⟨hitem, hplaced', hroom'⟩
      · rw [if_neg hshort] at hcall
        obtain rfl := Option.some.inj hcall
        refine ⟨rfl, h, fun _ => ?_⟩
        show s.uc.current + more ≤ s.uc.end_
        omega

/-- Once the kept bytes are at the start of a block with room, reading goes on there. -/
theorem refill_placed {more kept remains : Nat} {r : Int × UnpackState FileUnpackEnv}
    (hcall : refill 64 results more kept remains s = some r) (hkept : kept ≤ remains)
    (hremains : remains ≤ s.env.bufferLength) (hlt : s.env.bufferLength < 2 ^ 64)
    (hcopies : ∀ copy ∈ s.env.copies, Apart copy) : RefillPlaced more s r := by
  unfold refill at hcall
  obtain ⟨hitem, hplaced, hroom⟩ := readLoop_placed _ _ (by
    refine ⟨?_, ?_, ?_, ?_, hlt, hcopies⟩
    · show s.uc.start ≤ (s.env.barrier.map fun _ => s.uc.start).getD (s.uc.start + kept)
      cases s.env.barrier with
      | none => exact Nat.le_add_right _ _
      | some b => exact Nat.le_refl _
    · show (s.env.barrier.map fun _ => s.uc.start).getD (s.uc.start + kept) ≤ s.uc.start + kept
      cases s.env.barrier with
      | none => exact Nat.le_refl _
      | some b => exact Nat.le_add_right _ _
    · show s.uc.start + kept ≤ s.uc.start + remains
      omega
    · show s.uc.start + remains - s.uc.start ≤ s.env.bufferLength
      omega) hcall
  exact ⟨hitem, hplaced, hroom⟩

theorem copyRemains_copies {dst src remains : Nat} {s : UnpackState FileUnpackEnv}
    (h : ∀ copy ∈ s.env.copies, Apart copy) (hapart : Apart (dst, src, remains)) :
    ∀ copy ∈ (copyRemains dst src remains s).env.copies, Apart copy := by
  unfold copyRemains
  split
  · intro copy hcopy
    rcases List.mem_append.mp hcopy with hcopy | hcopy
    · exact h copy hcopy
    · obtain rfl := List.mem_singleton.mp hcopy
      exact hapart
  · exact h

/-- The underflow handler copies between ranges that are apart where `RefillApart` says so. -/
theorem handleFileUnpackUnderflow_placed {more : Nat} {r : Int × UnpackState FileUnpackEnv}
    (h : UnpackPlaced s.input) (hapart : RefillApart s)
    (hcall : handleFileUnpackUnderflow 64 realloc results s more = some r) :
    RefillPlaced more s r := by
  have hstart : s.uc.start ≤ s.env.barrier.getD s.uc.current := h.start_le
  have hbarrier : s.env.barrier.getD s.uc.current ≤ s.uc.current := h.barrier_le
  have hle : s.uc.current ≤ s.uc.end_ := h.le
  have hroom : s.uc.end_ - s.uc.start ≤ s.env.bufferLength := h.room
  have hlt : s.env.bufferLength < 2 ^ 64 := h.length_lt
  have hkept : ulongDiff 64 s.uc.current (s.env.barrier.getD s.uc.current) =
      s.uc.current - s.env.barrier.getD s.uc.current := ulongDiff_of_le hbarrier (by omega)
  have hremains : ulongDiff 64 s.uc.end_ (s.env.barrier.getD s.uc.current) =
      s.uc.end_ - s.env.barrier.getD s.uc.current := ulongDiff_of_le (by omega) (by omega)
  have hdown : Apart (s.uc.start, s.env.barrier.getD s.uc.current,
      s.uc.end_ - s.env.barrier.getD s.uc.current) := by
    refine apart_of_le (Or.inl ?_)
    unfold RefillApart at hapart
    omega
  have hcopies := copyRemains_copies h.copies hdown
  obtain ⟨m, cs, hcopy⟩ := copyRemains_frame s.uc.start (s.env.barrier.getD s.uc.current)
    (s.uc.end_ - s.env.barrier.getD s.uc.current) s
  simp only [handleFileUnpackUnderflow, hkept, hremains] at hcall
  rw [hcopy] at hcall hcopies
  simp only at hcall hcopies
  generalize hk : s.uc.current - s.env.barrier.getD s.uc.current = kept at *
  generalize hr : s.uc.end_ - s.env.barrier.getD s.uc.current = remains at *
  by_cases hsmall : s.env.bufferLength < (more + kept) % 2 ^ 64
  · rw [if_pos hsmall] at hcall
    cases hgrow : growBuffer 64 ((more + kept) % 2 ^ 64) s.env.bufferLength with
    | none =>
        rw [hgrow] at hcall
        simp at hcall
    | some n =>
        obtain ⟨hn, hltn⟩ := growBuffer_of_eq_some hlt hgrow
        rw [hgrow] at hcall
        simp only at hcall
        cases hp : realloc s.env.requests n with
        | none =>
            rw [hp] at hcall
            obtain rfl := Option.some.inj hcall
            refine ⟨rfl, ⟨hstart, hbarrier, hle, ?_, hltn, hcopies⟩,
              fun hrc => absurd hrc (by show ¬ cwpRcBufferUnderflow = cwpRcOk; decide)⟩
            show s.uc.end_ - s.uc.start ≤ n
            omega
        | some p =>
            rw [hp] at hcall
            obtain ⟨hitem, hplaced, hroom'⟩ := refill_placed hcall (by omega)
              (by show remains ≤ n; omega) hltn hcopies
            exact ⟨hitem, hplaced, hroom'⟩
  · rw [if_neg hsmall] at hcall
    obtain ⟨hitem, hplaced, hroom'⟩ := refill_placed hcall (by omega)
      (by show remains ≤ s.env.bufferLength; omega) hlt hcopies
    exact ⟨hitem, hplaced, hroom'⟩

/-- Reading copies nothing. -/
theorem readLoop_copies {more : Nat} :
    ∀ (fuel : Nat) (s : UnpackState FileUnpackEnv) {r : Int × UnpackState FileUnpackEnv},
      readLoop 64 results more fuel s = some r → r.2.env.copies = s.env.copies := by
  intro fuel
  induction fuel with
  | zero =>
      intro s r hcall
      simp [readLoop] at hcall
  | succ fuel ih =>
      intro s r hcall
      rw [readLoop] at hcall
      split at hcall
      · simp only at hcall
        split at hcall
        · obtain rfl := Option.some.inj hcall
          rfl
        · split at hcall
          · obtain rfl := Option.some.inj hcall
            rfl
          · have hcopies := ih _ hcall
            exact hcopies
      · obtain rfl := Option.some.inj hcall
        rfl

/-- The copy of a refill overlaps elsewhere. -/
theorem refillApart_of_copies {more : Nat} {r : Int × UnpackState FileUnpackEnv}
    (h : UnpackPlaced s.input)
    (hcall : handleFileUnpackUnderflow 64 realloc results s more = some r)
    (hcopies : ∀ copy ∈ r.2.env.copies, Apart copy) : RefillApart s := by
  have hstart : s.uc.start ≤ s.env.barrier.getD s.uc.current := h.start_le
  have hbarrier : s.env.barrier.getD s.uc.current ≤ s.uc.current := h.barrier_le
  have hle : s.uc.current ≤ s.uc.end_ := h.le
  have hroom : s.uc.end_ - s.uc.start ≤ s.env.bufferLength := h.room
  have hlt : s.env.bufferLength < 2 ^ 64 := h.length_lt
  have hremains : ulongDiff 64 s.uc.end_ (s.env.barrier.getD s.uc.current) =
      s.uc.end_ - s.env.barrier.getD s.uc.current := ulongDiff_of_le (by omega) (by omega)
  by_cases hzero : s.uc.end_ - s.env.barrier.getD s.uc.current = 0
  · unfold RefillApart
    omega
  refine (apart_down_iff hstart (Nat.pos_of_ne_zero hzero)).mp (hcopies _ ?_)
  have hmem : (s.uc.start, s.env.barrier.getD s.uc.current,
      s.uc.end_ - s.env.barrier.getD s.uc.current) ∈
      (copyRemains s.uc.start (s.env.barrier.getD s.uc.current)
        (s.uc.end_ - s.env.barrier.getD s.uc.current) s).env.copies := by
    rw [copyRemains, if_pos hzero]
    exact List.mem_append_right _ (List.mem_singleton.mpr rfl)
  obtain ⟨m, cs, hcopy⟩ := copyRemains_frame s.uc.start (s.env.barrier.getD s.uc.current)
    (s.uc.end_ - s.env.barrier.getD s.uc.current) s
  simp only [handleFileUnpackUnderflow, hremains] at hcall
  rw [hcopy] at hcall hmem
  simp only at hcall hmem
  split at hcall
  · split at hcall
    · simp at hcall
    · split at hcall
      · obtain rfl := Option.some.inj hcall
        exact hmem
      · rw [readLoop_copies _ _ hcall]
        exact hmem
  · rw [readLoop_copies _ _ hcall]
    exact hmem

theorem holdRefillAtOverlap_keeps :
    Keeps (holdRefillAtOverlap realloc results) UnpackPlaced where
  advance := by
    intro x n h hle
    have hstart := h.start_le
    have hbarrier := h.barrier_le
    refine ⟨?_, ?_, hle, h.room, h.length_lt, h.copies⟩
    · show x.start ≤ x.env.barrier.getD (x.current + n)
      cases hb : x.env.barrier with
      | none =>
          rw [hb] at hstart
          exact Nat.le_add_right_of_le hstart
      | some b =>
          rw [hb] at hstart
          exact hstart
    · show x.env.barrier.getD (x.current + n) ≤ x.current + n
      cases hb : x.env.barrier with
      | none => exact Nat.le_refl _
      | some b =>
          rw [hb] at hbarrier
          exact Nat.le_add_right_of_le hbarrier
  refill := by
    intro s more rc t h _ hcall
    unfold holdRefillAtOverlap at hcall
    split at hcall
    · rename_i hapart
      obtain ⟨hitem, hplaced, hroom⟩ := handleFileUnpackUnderflow_placed h hapart hcall
      exact ⟨hitem, hplaced, hroom⟩
    · simp at hcall

theorem holdRefillAtOverlap_approximates (fuel : Nat) (op : FileUnpackOp)
    (s : UnpackState FileUnpackEnv) :
    Approximates (op.perform fuel (holdRefillAtOverlap realloc results) s)
      (op.perform fuel (handleFileUnpackUnderflow 64 realloc results) s) := by
  have hhold : ∀ s more, Approximates (holdRefillAtOverlap realloc results s more)
      (handleFileUnpackUnderflow 64 realloc results s more) := by
    intro s more
    unfold holdRefillAtOverlap
    split
    · exact Approximates.refl _
    · exact approximates_none _
  cases op with
  | call op =>
      intro t hcall
      simp only [FileUnpackOp.perform, Option.map_eq_some_iff] at hcall ⊢
      obtain ⟨a, ha, rfl⟩ := hcall
      exact ⟨a, op.perform_approximates hhold fuel s a ha, rfl⟩
  | setBarrier => exact Approximates.refl _
  | releaseBarrier => exact Approximates.refl _
  | rescan => exact Approximates.refl _

theorem FileUnpackOp.perform_placed (fuel : Nat) (op : FileUnpackOp) (h : UnpackPlaced s.input)
    (hcall : op.perform fuel (holdRefillAtOverlap realloc results) s = some t) :
    UnpackPlaced t.input := by
  have hstart := h.start_le
  have hbarrier := h.barrier_le
  cases op with
  | call op =>
      simp only [FileUnpackOp.perform, Option.map_eq_some_iff] at hcall
      obtain ⟨⟨o, t'⟩, hperform, rfl⟩ := hcall
      exact holdRefillAtOverlap_keeps.perform fuel op h hperform
  | setBarrier =>
      obtain rfl := Option.some.inj hcall
      exact ⟨Nat.le_trans hstart hbarrier, Nat.le_refl _, h.le, h.room, h.length_lt, h.copies⟩
  | releaseBarrier =>
      obtain rfl := Option.some.inj hcall
      exact ⟨Nat.le_trans hstart hbarrier, Nat.le_refl _, h.le, h.room, h.length_lt, h.copies⟩
  | rescan =>
      simp only [FileUnpackOp.perform] at hcall
      split at hcall
      · rename_i hset
        obtain rfl := Option.some.inj hcall
        obtain ⟨b, hb⟩ := Option.isSome_iff_exists.mp hset
        have hget : ∀ d, s.input.env.barrier.getD d = b := fun d => by
          show s.env.barrier.getD d = b
          rw [hb]
          rfl
        rw [hget] at hstart hbarrier
        have hcursor : (fileUnpackContextRescanFromBarrier s).uc.current = b := by
          show s.env.barrier.getD 0 = b
          rw [hb]
          rfl
        refine ⟨?_, ?_, ?_, h.room, h.length_lt, h.copies⟩
        · show s.uc.start ≤ s.input.env.barrier.getD _
          rw [hget]
          exact hstart
        · show s.input.env.barrier.getD _ ≤ (fileUnpackContextRescanFromBarrier s).uc.current
          rw [hget, hcursor]
        · show (fileUnpackContextRescanFromBarrier s).uc.current ≤ s.uc.end_
          rw [hcursor]
          exact Nat.le_trans hbarrier h.le
      · simp at hcall

theorem unpackPlaced_init {initialBufferLength : Nat} (hlt : initialBufferLength < 2 ^ 64)
    (fd : InputDescriptor) (hnone : s.env.copies = [])
    (hinit : (initFileUnpackContext realloc initialBufferLength fd s).uc.returnCode = cwpRcOk) :
    UnpackPlaced (initFileUnpackContext realloc initialBufferLength fd s).input := by
  unfold initFileUnpackContext at hinit ⊢
  have hsize := initialLength_bounds 1024 (by decide) hlt
  generalize (if initialBufferLength > 0 then initialBufferLength else 1024) = n at *
  simp only at hinit ⊢
  cases hp : realloc s.env.requests n with
  | none =>
      rw [hp] at hinit
      exact absurd hinit (by show ¬ cwpRcMallocError = cwpRcOk; decide)
  | some p =>
      refine ⟨Nat.le_refl _, Nat.le_refl _, Nat.le_refl _, ?_, hsize.2, ?_⟩
      · show p - p ≤ n
        omega
      · intro copy hcopy
        have hnil : copy ∈ s.env.copies := hcopy
        rw [hnone] at hnil
        simp at hnil

end Unpacking

/-! ## Runs -/

/-- In a run of either file context whose handlers are called only where their conditions hold,
every copy is between ranges that are apart.  The blocks of `malloc` are apart; a block that
`realloc` has grown may be where it was. -/
theorem file_contexts_copy_apart (malloc realloc : Allocator) (hblocks : BlocksApart malloc)
    (written : WriteResults) (given : ReadResults) {packLength unpackLength : Nat}
    (hpack : packLength < 2 ^ 64) (hunpack : unpackLength < 2 ^ 64) (out : OutputDescriptor)
    (inp : InputDescriptor) (s : PackState FilePackEnv) (u : UnpackState FileUnpackEnv)
    (hs : s.env.copies = []) (hu : u.env.copies = [])
    (hsinit : (initFilePackContext malloc packLength out s).pc.returnCode = cwpRcOk)
    (huinit : (initFileUnpackContext malloc unpackLength inp u).uc.returnCode = cwpRcOk)
    (fuel : Nat) :
    (∀ (ops : List FilePackOp) (s' : PackState FilePackEnv),
      run (FilePackOp.perform (holdAtOverlap malloc written)) ops
        (initFilePackContext malloc packLength out s) = some s' →
      run (FilePackOp.perform (filePackHandlers 64 malloc written)) ops
        (initFilePackContext malloc packLength out s) = some s' ∧
      ∀ copy ∈ s'.env.copies, Apart copy) ∧
    (∀ (ops : List FileUnpackOp) (u' : UnpackState FileUnpackEnv),
      run (FileUnpackOp.perform fuel (holdRefillAtOverlap realloc given)) ops
        (initFileUnpackContext malloc unpackLength inp u) = some u' →
      run (FileUnpackOp.perform fuel (handleFileUnpackUnderflow 64 realloc given)) ops
        (initFileUnpackContext malloc unpackLength inp u) = some u' ∧
      ∀ copy ∈ u'.env.copies, Apart copy) := by
  refine ⟨fun ops s' hrun => ⟨?_, ?_⟩, fun ops u' hrun => ⟨?_, ?_⟩⟩
  · exact Approximates.run holdAtOverlap_approximates ops _ s' hrun
  · have hstep : ∀ (op : FilePackOp) (t t' : PackState FilePackEnv), True → PackPlaced malloc t →
        op.perform (holdAtOverlap malloc written) t = some t' → PackPlaced malloc t' :=
      fun op _ _ _ h hcall => op.perform_placed hblocks h hcall
    exact (run_invariant hstep ops _ s' (fun _ _ => trivial)
      (packPlaced_init hpack out hs hsinit) hrun).copies
  · exact Approximates.run (holdRefillAtOverlap_approximates fuel) ops _ u' hrun
  · have hstep : ∀ (op : FileUnpackOp) (t t' : UnpackState FileUnpackEnv), True →
        UnpackPlaced t.input → op.perform fuel (holdRefillAtOverlap realloc given) t = some t' →
        UnpackPlaced t'.input :=
      fun op _ _ _ h hcall => op.perform_placed fuel h hcall
    exact (run_invariant hstep ops _ u' (fun _ _ => trivial)
      (unpackPlaced_init hunpack inp hu huinit) hrun).copies

/-- A heap of blocks of one mebibyte each. -/
def mebibytes : Allocator := fun i n => if n ≤ 2 ^ 20 then some ((i + 1) * 2 ^ 20) else none

theorem mebibytes_apart : BlocksApart mebibytes := by
  intro i j n m p q hij _ hi hj
  unfold mebibytes at hi hj
  split at hi
  · split at hj
    · obtain rfl := Option.some.inj hi
      obtain rfl := Option.some.inj hj
      have hsucc : (i + 1 + 1) * 2 ^ 20 ≤ (j + 1) * 2 ^ 20 :=
        Nat.mul_le_mul_right _ (Nat.succ_le_succ hij)
      omega
    · simp at hj
  · simp at hi

/-- A descriptor that takes all it is given. -/
def takesAll : WriteResults := fun _ n => .ok n

/-- A descriptor that gives at most `k` bytes at a time. -/
def givesUpTo (k : Nat) : ReadResults := fun _ n => .ok (min k n)

/-- Two bytes before the barrier and one behind it; four items before a string that is cut and
for which the buffer grows where it is. -/
theorem file_contexts_copy_one_byte_apart :
    ∃ s' u', run (FilePackOp.perform (filePackHandlers 64 mebibytes takesAll))
        [.pack (.call .nil), .pack (.call .nil), .setBarrier, .pack (.call .nil), .flush]
        (initFilePackContext mebibytes 0 .opened blankFile) = some s' ∧
      (∀ copy ∈ s'.env.copies, Apart copy) ∧
      run (FileUnpackOp.perform 0
          (handleFileUnpackUnderflow 64 (fixedHeap (2 ^ 20)) (givesUpTo 8)))
        [.call .next, .call .next, .call .next, .call .next, .call .next]
        (initFileUnpackContext mebibytes 8
          ⟨[0xc0, 0xc0, 0xc0, 0xc0, 0xa9, 1, 2, 3, 4, 5, 6, 7, 8, 9], 0, 0⟩ blankFileUnpack) =
          some u' ∧
      u'.env.bufferLength = 16 ∧ u'.uc.start = 2 ^ 20 ∧ u'.env.copies = [(2 ^ 20, 2 ^ 20 + 5, 3)] ∧
      ∀ copy ∈ u'.env.copies, Apart copy := by
  have hzero : 0 < 2 ^ 64 := by decide
  have height : 8 < 2 ^ 64 := by decide
  obtain ⟨hpack, hunpack⟩ := file_contexts_copy_apart mebibytes (fixedHeap (2 ^ 20))
    mebibytes_apart takesAll (givesUpTo 8) hzero height .opened
    ⟨[0xc0, 0xc0, 0xc0, 0xc0, 0xa9, 1, 2, 3, 4, 5, 6, 7, 8, 9], 0, 0⟩ blankFile blankFileUnpack
    rfl rfl rfl rfl 0
  obtain ⟨hpackRun, hpackApart⟩ := hpack
    [.pack (.call .nil), .pack (.call .nil), .setBarrier, .pack (.call .nil), .flush] _ rfl
  obtain ⟨hunpackRun, hunpackApart⟩ :=
    hunpack [.call .next, .call .next, .call .next, .call .next, .call .next] _ rfl
  exact ⟨_, _, hpackRun, hpackApart, hunpackRun, rfl, rfl, rfl, hunpackApart⟩

/-- A byte packed behind a barrier at the start is copied onto itself by a flush, and two
bytes of an item that is cut after three go to where one of them is. -/
theorem file_contexts_copy_onto_themselves :
    (∃ s', run (FilePackOp.perform (filePackHandlers 64 mebibytes takesAll))
        [.setBarrier, .pack (.call .nil), .flush]
        (initFilePackContext mebibytes 0 .opened blankFile) = some s' ∧
      ∃ copy ∈ s'.env.copies, 0 < copy.2.2 ∧ ¬ Apart copy) ∧
    ∃ u', run (FileUnpackOp.perform 0 (handleFileUnpackUnderflow 64 mebibytes (givesUpTo 3)))
        [.call .next]
        (initFileUnpackContext mebibytes 0 ⟨[0xce, 0x01, 0x02, 0x03, 0x04], 0, 0⟩
          blankFileUnpack) = some u' ∧
      ∃ copy ∈ u'.env.copies, 0 < copy.2.2 ∧ ¬ Apart copy := by
  refine ⟨⟨_, rfl, (2 ^ 20, 2 ^ 20, 1), List.mem_cons_self, by decide, ?_⟩,
    ⟨_, rfl, (2 ^ 20, 2 ^ 20 + 1, 2), List.mem_cons_self, by decide, ?_⟩⟩
  · intro hapart
    exact hapart (2 ^ 20) (by decide)
  · intro hapart
    exact hapart (2 ^ 20 + 1) (by decide)

end CWPack.Goodies
