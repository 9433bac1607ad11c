/-
  Goodies/Growth.lean --- the doubling loops of
  `src/goodies/basic-contexts/basic_contexts.c`, for any width of `unsigned long`.

  Doubling is modulo `2 ^ w`, and so is the sum of what is kept and what is asked
  for.  The loop ends with room for both exactly if some doubling of the length
  covers their sum, which no sum above `2 ^ (w - 1)` can rely on: a length that is
  a power of two goes to zero, and stays there.
-/
import CWPack.Goodies.Copies
import CWPack.Goodies.DynamicMemory
import CWPack.Goodies.StreamPack
import CWPack.Goodies.StreamUnpack

set_option autoImplicit false

namespace CWPack.Goodies

open CWPack.Foundation
open CWPack.Core

variable {σ : Type}

/-! ## Lengths that double -/

/-- Some doubling of a length of `w` bits covers `sum`. -/
def Covers (w len sum : Nat) : Prop := ∃ k, sum ≤ 2 ^ k * len % 2 ^ w

theorem Covers.lt {w len sum : Nat} (h : Covers w len sum) : sum < 2 ^ w := by
  obtain ⟨k, hk⟩ := h
  exact Nat.lt_of_le_of_lt hk (Nat.mod_lt _ (Nat.two_pow_pos w))

/-- A length covers what it has room for. -/
theorem covers_of_le {w len sum : Nat} (hlt : len < 2 ^ w) (h : sum ≤ len) :
    Covers w len sum := by
  refine ⟨0, ?_⟩
  rw [Nat.pow_zero, Nat.one_mul, Nat.mod_eq_of_lt hlt]
  exact h

/-- The loop ends with room for the sum exactly if the length covers it.  The bound is the sum
itself, or what is left of it in `w` bits. -/
theorem growBuffer_covers_iff {w len sum target : Nat} (hlt : len < 2 ^ w)
    (htarget : target = sum ∨ target = sum % 2 ^ w) :
    (∃ n, growBuffer w target len = some n ∧ sum ≤ n) ↔ Covers w len sum := by
  have hexact : sum < 2 ^ w → target = sum := by
    intro hsum
    rcases htarget with htarget | htarget
    · exact htarget
    · rw [htarget, Nat.mod_eq_of_lt hsum]
  constructor
  · rintro ⟨n, hgrow, hle⟩
    obtain ⟨-, hltn⟩ := growBuffer_of_eq_some hlt hgrow
    obtain rfl := hexact (Nat.lt_of_le_of_lt hle hltn)
    by_contra hnone
    have hall : ∀ k, 2 ^ k * len % 2 ^ w < target :=
      fun k => Nat.lt_of_not_le fun hk => hnone ⟨k, hk⟩
    rw [(growBuffer_eq_none_iff hlt).mpr hall] at hgrow
    simp at hgrow
  · intro hcovers
    obtain rfl := hexact hcovers.lt
    obtain ⟨k, hk⟩ := hcovers
    cases hgrow : growBuffer w target len with
    | none => exact absurd ((growBuffer_eq_none_iff hlt).mp hgrow k) (Nat.not_lt.mpr hk)
    | some n => exact ⟨n, rfl, (growBuffer_of_eq_some hlt hgrow).1⟩

/-- Any length covers a sum of at most half the range. -/
theorem covers_of_le_half {w len sum : Nat} (hpos : 0 < len) (hlt : len < 2 ^ w)
    (hhalf : 2 * sum ≤ 2 ^ w) : Covers w len sum := by
  obtain ⟨n, hgrow, hn, -, -⟩ := growBuffer_spec w sum len hhalf hpos hlt
  exact (growBuffer_covers_iff hlt (Or.inl rfl)).mp ⟨n, hgrow, hn⟩

/-- A power of two covers no more. -/
theorem covers_two_pow_iff {w a sum : Nat} (ha : a < w) :
    Covers w (2 ^ a) sum ↔ 2 * sum ≤ 2 ^ w := by
  constructor
  · rintro ⟨k, hk⟩
    rw [← Nat.pow_add] at hk
    by_cases hsmall : k + a < w
    · rw [Nat.mod_eq_of_lt (Nat.pow_lt_pow_right (by decide) hsmall)] at hk
      have hstep : 2 ^ (k + a + 1) ≤ 2 ^ w := Nat.pow_le_pow_right (by decide) hsmall
      rw [Nat.pow_succ] at hstep
      omega
    · rw [Nat.mod_eq_zero_of_dvd (Nat.pow_dvd_pow 2 (Nat.not_lt.mp hsmall))] at hk
      have hpos := Nat.two_pow_pos w
      omega
  · exact covers_of_le_half (Nat.two_pow_pos a) (Nat.pow_lt_pow_right (by decide) ha)

/-- Doubling a length comes to the sum.  It does up to half of the range; beyond, it does where the
lowest bits of the length, shifted to the top, are no less than the sum. -/
def Suffices (w len sum : Nat) : Prop :=
  (0 < len ∧ 2 * sum ≤ 2 ^ w) ∨ ∃ k ≤ w, sum ≤ 2 ^ k * (len % 2 ^ (w - k))

/-- A doubled length, in `w` bits, is what is left of its lowest bits. -/
theorem two_pow_mul_mod {w k : Nat} (hk : k ≤ w) (len : Nat) :
    2 ^ k * len % 2 ^ w = 2 ^ k * (len % 2 ^ (w - k)) := by
  have hsplit : 2 ^ w = 2 ^ k * 2 ^ (w - k) := by
    rw [← Nat.pow_add, Nat.add_sub_cancel' hk]
  rw [hsplit, Nat.mul_mod_mul_left]

theorem covers_iff_suffices {w len sum : Nat} (hlt : len < 2 ^ w) :
    Covers w len sum ↔ Suffices w len sum := by
  constructor
  · rintro ⟨k, hk⟩
    by_cases hle : k ≤ w
    · rw [two_pow_mul_mod hle] at hk
      exact Or.inr ⟨k, hle, hk⟩
    · -- all the bits are shifted out
      have hdvd : 2 ^ w ∣ 2 ^ k := Nat.pow_dvd_pow 2 (Nat.le_of_not_le hle)
      have hzero : 2 ^ k * len % 2 ^ w = 0 :=
        Nat.mod_eq_zero_of_dvd (Nat.dvd_mul_right_of_dvd hdvd len)
      exact Or.inr ⟨w, Nat.le_refl w, by omega⟩
  · rintro (⟨hpos, hhalf⟩ | ⟨k, hle, hk⟩)
    · exact covers_of_le_half hpos hlt hhalf
    · rw [← two_pow_mul_mod hle] at hk
      exact ⟨k, hk⟩

/-- A power of two suffices for half of the range, and for no more. -/
theorem suffices_two_pow_iff {w a sum : Nat} (ha : a < w) :
    Suffices w (2 ^ a) sum ↔ 2 * sum ≤ 2 ^ w := by
  rw [← covers_iff_suffices (Nat.pow_lt_pow_right (by decide) ha)]
  exact covers_two_pow_iff ha

theorem ulongDiff_lt (w a b : Nat) : ulongDiff w a b < 2 ^ w := toPattern_lt w _

theorem ulongDiff_add_left {w n : Nat} (p : Nat) (hn : n < 2 ^ w) : ulongDiff w (p + n) p = n := by
  rw [ulongDiff_of_le (Nat.le_add_right p n) (by omega)]
  omega

/-! ## Growth -/

section Growth

variable {ρ : Type} {w len sum target : Nat} {keep : Option ρ} {grow : Nat → Option ρ}
  {good : ρ → Prop}

/-- What the handlers do with a length that may be too short: `grow` where it is, with the
length the loop ends with, and `keep` elsewhere. -/
def growTo (w target len : Nat) (keep : Option ρ) (grow : Nat → Option ρ) : Option ρ :=
  if len < target then (growBuffer w target len).bind grow else keep

/-- The loop may be left out where it has no turns. -/
theorem growTo_self (w target len : Nat) (grow : Nat → Option ρ) :
    growTo w target len (grow len) grow = (growBuffer w target len).bind grow := by
  unfold growTo
  split
  · rfl
  · rename_i hstop
    rw [growBuffer, growLoop, if_neg hstop]
    rfl

/-- Where the length covers the sum, it is enough to be good with room for the sum. -/
theorem growTo_of_covers (hlt : len < 2 ^ w) (htarget : target = sum ∨ target = sum % 2 ^ w)
    (hkeep : sum ≤ len → ∃ r, keep = some r ∧ good r)
    (hgrow : ∀ n, n < 2 ^ w → sum ≤ n → ∃ r, grow n = some r ∧ good r)
    (hcovers : Covers w len sum) : ∃ r, growTo w target len keep grow = some r ∧ good r := by
  unfold growTo
  split
  · obtain ⟨n, hgrown, hle⟩ := (growBuffer_covers_iff hlt htarget).mpr hcovers
    rw [hgrown]
    exact hgrow n (growBuffer_of_eq_some hlt hgrown).2 hle
  · rename_i hstop
    refine hkeep ?_
    rcases htarget with rfl | rfl
    · exact Nat.not_lt.mp hstop
    · rw [Nat.mod_eq_of_lt hcovers.lt] at hstop
      exact Nat.not_lt.mp hstop

/-- Where what is good has room for the sum, the length covers it. -/
theorem covers_of_growTo (hlt : len < 2 ^ w) (htarget : target = sum ∨ target = sum % 2 ^ w)
    (hkeep : ∀ r, keep = some r → good r → sum ≤ len)
    (hgrow : ∀ n, n < 2 ^ w → ∀ r, grow n = some r → good r → sum ≤ n)
    (h : ∃ r, growTo w target len keep grow = some r ∧ good r) : Covers w len sum := by
  obtain ⟨r, hcall, hgood⟩ := h
  unfold growTo at hcall
  split at hcall
  · obtain ⟨n, hgrown, hr⟩ := Option.bind_eq_some_iff.mp hcall
    exact (growBuffer_covers_iff hlt htarget).mp
      ⟨n, hgrown, hgrow n (growBuffer_of_eq_some hlt hgrown).2 r hr hgood⟩
  · exact covers_of_le hlt (hkeep r hcall hgood)

end Growth

/-! ## Packing -/

/-- A call of the handler ends, and with a buffer of `sum` bytes if all went well. -/
def EndsWithRoom (w sum : Nat) (r : Option (Int × PackState σ)) : Prop :=
  ∃ a, r = some a ∧ (a.1 = cwpRcOk → sum ≤ ulongDiff w a.2.pc.end_ a.2.pc.start)

/-- The handler gets a block where the heap has one. -/
def getBlock (block : Option Nat) (asked : PackState σ) (granted : Nat → PackState σ) :
    Option (Int × PackState σ) :=
  match block with
  | none => some (cwpRcBufferOverflow, asked)
  | some newBuffer => some (cwpRcOk, granted newBuffer)

theorem EndsWithRoom.of_getBlock {w sum n : Nat} {block : Option Nat} {asked : PackState σ}
    {granted : Nat → PackState σ} (hsome : block.isSome)
    (hn : ∀ p, ulongDiff w (granted p).pc.end_ (granted p).pc.start = n)
    (h : EndsWithRoom w sum (getBlock block asked granted)) : sum ≤ n := by
  obtain ⟨p, rfl⟩ := Option.isSome_iff_exists.mp hsome
  obtain ⟨a, hcall, hgood⟩ := h
  obtain rfl := Option.some.inj hcall
  rw [← hn p]
  exact hgood rfl

theorem getBlock_endsWithRoom {w sum n : Nat} (block : Option Nat) {asked : PackState σ}
    {granted : Nat → PackState σ}
    (hn : ∀ p, ulongDiff w (granted p).pc.end_ (granted p).pc.start = n) (hle : sum ≤ n) :
    EndsWithRoom w sum (getBlock block asked granted) := by
  cases block with
  | none =>
      refine ⟨_, rfl, fun hrc => ?_⟩
      exact absurd hrc (by show ¬ cwpRcBufferOverflow = cwpRcOk; decide)
  | some p =>
      refine ⟨_, rfl, fun _ => ?_⟩
      rw [hn p]
      exact hle

/-- Growth with any heap: the buffer is as long as the loop says. -/
theorem endsWithRoom_growTo_iff {w sum target len i : Nat} {asked : PackState σ}
    {first : Allocator → Option Nat} {kept : Nat → PackState σ} {granted : Nat → Nat → PackState σ}
    (hlt : len < 2 ^ w) (htarget : target = sum ∨ target = sum % 2 ^ w)
    (hfirst : (first (fixedHeap 0)).isSome)
    (hkept : ∀ p, ulongDiff w (kept p).pc.end_ (kept p).pc.start = len)
    (hgranted : ∀ n, n < 2 ^ w → ∀ p,
      ulongDiff w (granted n p).pc.end_ (granted n p).pc.start = n) :
    (∀ malloc : Allocator, EndsWithRoom w sum (growTo w target len
      (getBlock (first malloc) asked kept) fun n => getBlock (malloc i n) asked (granted n))) ↔
      Covers w len sum := by
  constructor
  · intro h
    refine covers_of_growTo hlt htarget ?_ ?_ (h (fixedHeap 0))
    · intro r hr hgood
      exact EndsWithRoom.of_getBlock hfirst hkept ⟨r, hr, hgood⟩
    · intro n hn r hr hgood
      exact EndsWithRoom.of_getBlock rfl (hgranted n hn) ⟨r, hr, hgood⟩
  · intro hcovers malloc
    refine growTo_of_covers hlt htarget ?_ ?_ hcovers
    · exact fun hle => getBlock_endsWithRoom _ hkept hle
    · exact fun n hn hle => getBlock_endsWithRoom _ (hgranted n hn) hle

/-- The handler of the dynamic memory context. -/
theorem handleMemoryPackOverflow_room_iff (w : Nat) (s : PackState DynamicMemoryPackEnv)
    (more : Nat) :
    (∀ realloc, EndsWithRoom w (ulongDiff w s.pc.current s.pc.start + more)
      (handleMemoryPackOverflow w realloc s more)) ↔
    Covers w (ulongDiff w s.pc.end_ s.pc.start) (ulongDiff w s.pc.current s.pc.start + more) := by
  let contains := ulongDiff w s.pc.current s.pc.start
  let len := ulongDiff w s.pc.end_ s.pc.start
  let asked : PackState DynamicMemoryPackEnv := { s with env.requests := s.env.requests + 1 }
  let granted (n p : Nat) : PackState DynamicMemoryPackEnv :=
    setBuffer { asked with mem := s.mem.move p s.pc.start (min (s.pc.end_ - s.pc.start) n) }
      p (p + contains) (p + n)
  have heq : ∀ realloc : Allocator, handleMemoryPackOverflow w realloc s more =
      growTo w ((contains + more) % 2 ^ w) len
        (getBlock (realloc s.env.requests len) asked (granted len))
        fun n => getBlock (realloc s.env.requests n) asked (granted n) := by
    intro realloc
    refine Eq.trans ?_ (growTo_self w _ len fun n =>
      getBlock (realloc s.env.requests n) asked (granted n)).symm
    show handleMemoryPackOverflow w realloc s more =
      (growBuffer w ((contains + more) % 2 ^ w) len).bind _
    unfold handleMemoryPackOverflow
    simp only
    cases growBuffer w ((contains + more) % 2 ^ w) len with
    | none => rfl
    | some n => cases realloc s.env.requests n <;> rfl
  simp only [heq]
  have hgranted : ∀ n, n < 2 ^ w → ∀ p, ulongDiff w (p + n) p = n :=
    fun n hn p => ulongDiff_add_left p hn
  exact endsWithRoom_growTo_iff (ulongDiff_lt w _ _) (Or.inr rfl) rfl
    (hgranted len (ulongDiff_lt w _ _)) hgranted

/-- A flush of a stream leaves the buffer where it is. -/
theorem flushStreamPackContext_frame {w : Nat} {disk : FwriteResults} {s t : PackState StreamPackEnv}
    {rc : Int} (h : flushStreamPackContext w disk s = some (rc, t)) :
    t.pc.start = s.pc.start ∧ t.pc.end_ = s.pc.end_ := by
  unfold flushStreamPackContext at h
  simp only at h
  split at h
  · split at h <;>
    · obtain ⟨-, rfl⟩ := Prod.mk.inj (Option.some.inj h)
      exact ⟨rfl, rfl⟩
  · obtain ⟨-, rfl⟩ := Prod.mk.inj (Option.some.inj h)
    exact ⟨rfl, rfl⟩

/-- A disk that takes all. -/
def endlessDisk : FwriteResults := fun _ _ => none

theorem flushStreamPackContext_isSome (w : Nat) (disk : FwriteResults)
    (s : PackState StreamPackEnv) : (flushStreamPackContext w disk s).isSome := by
  unfold flushStreamPackContext
  simp only
  split
  · split <;> rfl
  · rfl

theorem flushStreamPackContext_endless (w : Nat) (s : PackState StreamPackEnv) :
    ∃ t, flushStreamPackContext w endlessDisk s = some (cwpRcOk, t) := by
  unfold flushStreamPackContext
  simp only
  split
  · exact ⟨_, rfl⟩
  · exact ⟨_, rfl⟩

/-- The handler of the stream pack context: the flush keeps nothing. -/
theorem handleStreamPackOverflow_room_iff (w : Nat) (s : PackState StreamPackEnv) (more : Nat) :
    (∀ malloc disk, EndsWithRoom w more (handleStreamPackOverflow w malloc disk s more)) ↔
    Covers w (ulongDiff w s.pc.end_ s.pc.start) more := by
  have hflushed : ∀ (disk : FwriteResults) (t : PackState StreamPackEnv),
      flushStreamPackContext w disk s = some (cwpRcOk, t) →
      ((∀ malloc, EndsWithRoom w more (handleStreamPackOverflow w malloc disk s more)) ↔
        Covers w (ulongDiff w s.pc.end_ s.pc.start) more) := by
    intro disk t hflush
    obtain ⟨hstart, hend⟩ := flushStreamPackContext_frame hflush
    let len := ulongDiff w t.pc.end_ t.pc.start
    let asked : PackState StreamPackEnv := { t with env.requests := t.env.requests + 1 }
    have heq : ∀ malloc : Allocator, handleStreamPackOverflow w malloc disk s more =
        growTo w more len (getBlock (some 0) asked fun _ => t.setCurrent t.pc.start)
          fun n => getBlock (malloc t.env.requests n) asked fun p => setBuffer asked p p (p + n) := by
      intro malloc
      unfold handleStreamPackOverflow
      rw [hflush]
      simp only
      rw [if_neg (not_not_intro rfl)]
      unfold growTo
      split
      · cases growBuffer w more len with
        | none => rfl
        | some n => cases malloc t.env.requests n <;> rfl
      · rfl
    rw [← hstart, ← hend]
    simp only [heq]
    exact endsWithRoom_growTo_iff (ulongDiff_lt w _ _) (Or.inl rfl) rfl (fun _ => rfl)
      fun n hn p => ulongDiff_add_left p hn
  constructor
  · intro h
    obtain ⟨t, hflush⟩ := flushStreamPackContext_endless w s
    exact (hflushed endlessDisk t hflush).mp fun malloc => h malloc endlessDisk
  · intro hcovers malloc disk
    obtain ⟨⟨rc, t⟩, hflush⟩ :=
      Option.isSome_iff_exists.mp (flushStreamPackContext_isSome w disk s)
    by_cases hrc : rc = cwpRcOk
    · subst hrc
      exact (hflushed disk t hflush).mpr hcovers malloc
    · unfold handleStreamPackOverflow
      rw [hflush]
      simp only [if_pos hrc]
      exact ⟨_, rfl, fun hok => absurd hok hrc⟩

/-! ## The barrier of a file pack context -/

/-- The barrier is not behind the cursor. -/
def BarrierBehind (s : PackState FilePackEnv) : Prop :=
  s.env.barrier.getD s.pc.current ≤ s.pc.current

theorem barrierBehind_of_none {s : PackState FilePackEnv} (h : s.env.barrier = none) :
    BarrierBehind s := by
  unfold BarrierBehind
  rw [h]
  exact Nat.le_refl _

section Barrier

variable {w : Nat} {malloc : Allocator} {results : WriteResults} {s t : PackState FilePackEnv}

theorem resumeAfter_barrierBehind (kept : Nat) (s : PackState FilePackEnv) :
    BarrierBehind (resumeAfter kept s) := by
  unfold resumeAfter
  split
  · exact Nat.le_add_right _ _
  · rename_i hbarrier
    have hnone : s.env.barrier = none := by simpa using hbarrier
    exact barrierBehind_of_none hnone

theorem flushFilePackContext_barrierBehind (h : BarrierBehind s) {rc : Int}
    (hcall : flushFilePackContext w results s = some (rc, t)) : BarrierBehind t := by
  rcases flushFilePackContext_cases h hcall with ⟨-, -, hmoved, -⟩ | ⟨-, -, fd, rfl⟩
  · unfold BarrierBehind
    have hcurrent := hmoved.current
    have hstart := hmoved.start
    rw [hmoved.bStart]
    omega
  · exact h

theorem handleFilePackOverflow_barrierBehind (h : BarrierBehind s) {more : Nat} {rc : Int}
    (hcall : handleFilePackOverflow w malloc results s more = some (rc, t)) :
    BarrierBehind t := by
  unfold handleFilePackOverflow at hcall
  cases hflush : flushFilePackContext w results s with
  | none =>
      rw [hflush] at hcall
      simp at hcall
  | some r =>
      obtain ⟨rc₁, s₁⟩ := r
      have hs₁ := flushFilePackContext_barrierBehind h hflush
      rw [hflush] at hcall
      simp only at hcall
      split at hcall
      · obtain ⟨-, rfl⟩ := Prod.mk.inj (Option.some.inj hcall)
        exact hs₁
      · split at hcall
        · split at hcall
          · simp at hcall
          · split at hcall
            · obtain ⟨-, rfl⟩ := Prod.mk.inj (Option.some.inj hcall)
              exact hs₁
            · obtain ⟨-, rfl⟩ := Prod.mk.inj (Option.some.inj hcall)
              exact resumeAfter_barrierBehind _ _
        · obtain ⟨-, rfl⟩ := Prod.mk.inj (Option.some.inj hcall)
          exact resumeAfter_barrierBehind _ _

theorem filePackHandlers_keep_barrierBehind :
    KeepsPacked (filePackHandlers w malloc results) BarrierBehind where
  append := by
    intro s bs h
    show s.env.barrier.getD (s.pc.current + bs.length) ≤ s.pc.current + bs.length
    cases hb : s.env.barrier with
    | none => exact Nat.le_refl _
    | some b =>
        unfold BarrierBehind at h
        rw [hb] at h
        exact Nat.le_add_right_of_le h
  returnCode := fun _ h => h
  mode := fun _ h => h
  overflow := by
    intro handler s more rc t hhandler h hcall
    obtain rfl := Option.some.inj hhandler
    exact handleFilePackOverflow_barrierBehind h hcall
  flush := by
    intro handler s rc t hhandler h hcall
    obtain rfl := Option.some.inj hhandler
    exact flushFilePackContext_barrierBehind h hcall

/-- Nothing that is done with the context moves the cursor before the barrier. -/
theorem barrierBehind_of_run {initialBufferLength : Nat} {fd : OutputDescriptor}
    (hinit : (initFilePackContext malloc initialBufferLength fd s).pc.returnCode = cwpRcOk)
    {ops : List FilePackOp} (hrun : run (FilePackOp.perform (filePackHandlers w malloc results)) ops
      (initFilePackContext malloc initialBufferLength fd s) = some t) : BarrierBehind t := by
  have K : KeepsPacked (filePackHandlers w malloc results) BarrierBehind :=
    filePackHandlers_keep_barrierBehind
  have hstep : ∀ (op : FilePackOp) (t t' : PackState FilePackEnv), True → BarrierBehind t →
      op.perform (filePackHandlers w malloc results) t = some t' → BarrierBehind t' := by
    intro op t t' _ h hcall
    cases op with
    | pack op => exact K.perform op h hcall
    | flush => exact K.cwPackFlush h hcall
    | setBarrier =>
        obtain rfl := Option.some.inj hcall
        exact Nat.le_refl _
    | releaseBarrier =>
        obtain rfl := Option.some.inj hcall
        exact barrierBehind_of_none rfl
  refine run_invariant hstep ops _ t (fun _ _ => trivial) ?_ hrun
  unfold initFilePackContext at hinit ⊢
  simp only at hinit ⊢
  split at hinit
  · exact absurd hinit (by show ¬ cwpRcMallocError = cwpRcOk; decide)
  · exact barrierBehind_of_none rfl

theorem flushFilePackContext_isSome (w : Nat) (results : WriteResults)
    (s : PackState FilePackEnv) : (flushFilePackContext w results s).isSome := by
  unfold flushFilePackContext
  simp only
  split
  · split <;> rfl
  · rfl

/-- The handler of the file pack context, where the cursor is not before the barrier. -/
theorem handleFilePackOverflow_room_iff (h : BarrierBehind s) (more : Nat) :
    (∀ malloc, EndsWithRoom w
      (ulongDiff w s.pc.current (s.env.barrier.getD s.pc.current) + more)
      (handleFilePackOverflow w malloc results s more)) ↔
    (Accepts w results s → Covers w (ulongDiff w s.pc.end_ s.pc.start)
      (ulongDiff w s.pc.current (s.env.barrier.getD s.pc.current) + more)) := by
  obtain ⟨⟨rc, t⟩, hflush⟩ :=
    Option.isSome_iff_exists.mp (flushFilePackContext_isSome w results s)
  rcases flushFilePackContext_cases h hflush with
    ⟨haccepts, rfl, hmoved, -⟩ | ⟨hrefused, rfl, fd, rfl⟩
  · have hbStart := hmoved.bStart
    have hcurrent := hmoved.current
    have hkept : ulongDiff w t.pc.current (t.env.barrier.getD t.pc.current) =
        ulongDiff w s.pc.current (s.env.barrier.getD s.pc.current) := by
      have hle : s.env.barrier.getD s.pc.current ≤ s.pc.current := h
      have hdiff : (t.pc.current : Int) - t.pc.start =
          (s.pc.current : Int) - (s.env.barrier.getD s.pc.current : Nat) := by
        rw [hcurrent, hmoved.start]
        unfold keptLength
        omega
      rw [hbStart]
      unfold ulongDiff
      rw [hdiff]
    rw [← hkept, ← hmoved.start, ← hmoved.end_]
    generalize hk : ulongDiff w t.pc.current (t.env.barrier.getD t.pc.current) = kept
    let asked : PackState FilePackEnv := { t with env.requests := t.env.requests + 1 }
    let copied (p : Nat) (u : PackState FilePackEnv) : PackState FilePackEnv :=
      copyKept p (t.env.barrier.getD t.pc.current) kept u
    have heq : ∀ malloc : Allocator, handleFilePackOverflow w malloc results s more =
        growTo w ((more + kept) % 2 ^ w) (ulongDiff w t.pc.end_ t.pc.start)
          (getBlock (some t.pc.start) asked fun p => resumeAfter kept (copied p t))
          fun n => getBlock (malloc t.env.requests n) asked fun p =>
            resumeAfter kept (setBuffer (copied p asked) p (copied p asked).pc.current (p + n)) := by
      intro malloc
      unfold handleFilePackOverflow
      rw [hflush]
      simp only
      rw [if_neg (not_not_intro rfl), hk]
      unfold growTo
      split
      · cases growBuffer w ((more + kept) % 2 ^ w) (ulongDiff w t.pc.end_ t.pc.start) with
        | none => rfl
        | some n => cases malloc t.env.requests n <;> rfl
      · rfl
    simp only [heq]
    rw [endsWithRoom_growTo_iff (ulongDiff_lt w _ _) (Or.inr (by rw [Nat.add_comm])) rfl ?_ ?_]
    · exact ⟨fun hcovers _ => hcovers, fun hcovers => hcovers haccepts⟩
    · intro p
      rw [(resumeAfter_frame kept _).1, (copyKept_frame _ _ kept t).1]
    · intro n hn p
      rw [(resumeAfter_frame kept _).1]
      exact ulongDiff_add_left p hn
  · have heq : ∀ malloc : Allocator, handleFilePackOverflow w malloc results s more =
        some (cwpRcErrorInHandler,
          { s with env.fileDescriptor := fd, pc.errNo := fd.errno }) := by
      intro malloc
      unfold handleFilePackOverflow
      rw [hflush]
      rfl
    refine ⟨fun _ haccepts => absurd haccepts hrefused, fun _ malloc => ?_⟩
    rw [heq malloc]
    exact ⟨_, rfl, fun hrc => absurd hrc (by show ¬ cwpRcErrorInHandler = cwpRcOk; decide)⟩

end Barrier

/-! ## Unpacking -/

/-- Growth with a heap and a stream: the field with the length is what the loop says, whatever
becomes of the request and of the read. -/
theorem refills_growTo_iff {ρ : Type} {w sum target len : Nat} {size : ρ → Nat} {keep : Option ρ}
    {grow : Nat → Option ρ} (hlt : len < 2 ^ w) (htarget : target = sum ∨ target = sum % 2 ^ w)
    (hkeep : ∃ r, keep = some r ∧ size r = len)
    (hgrow : ∀ n, ∃ r, grow n = some r ∧ size r = n) :
    (∃ r, growTo w target len keep grow = some r ∧ sum ≤ size r) ↔ Covers w len sum := by
  constructor
  · refine covers_of_growTo hlt htarget ?_ ?_
    · intro r hr hle
      obtain ⟨a, ha, hsize⟩ := hkeep
      obtain rfl := Option.some.inj (ha.symm.trans hr)
      omega
    · intro n _ r hr hle
      obtain ⟨a, ha, hsize⟩ := hgrow n
      obtain rfl := Option.some.inj (ha.symm.trans hr)
      omega
  · refine growTo_of_covers hlt htarget ?_ ?_
    · intro hle
      obtain ⟨a, ha, hsize⟩ := hkeep
      exact ⟨a, ha, by omega⟩
    · intro n _ hle
      obtain ⟨a, ha, hsize⟩ := hgrow n
      exact ⟨a, ha, by omega⟩

theorem fillBuffer_bufferLength (w remains : Nat) (s : UnpackState StreamUnpackEnv) :
    (fillBuffer w remains s).2.env.bufferLength = s.env.bufferLength := by
  unfold fillBuffer
  simp only
  split
  · split <;> rfl
  · rfl

/-- The handler of the stream unpack context. -/
theorem handleStreamUnpackUnderflow_room_iff {w : Nat} (realloc : Allocator)
    {s : UnpackState StreamUnpackEnv} (hlt : s.env.bufferLength < 2 ^ w) (more : Nat) :
    (∃ r, handleStreamUnpackUnderflow w realloc s more = some r ∧
      more ≤ r.2.env.bufferLength) ↔ Covers w s.env.bufferLength more := by
  let remains := ulongDiff w s.uc.end_ s.uc.current
  obtain ⟨m, hmoved⟩ : ∃ m, (if remains ≠ 0 then
      { s with mem := s.mem.move s.uc.start s.uc.current remains } else s) = { s with mem := m } := by
    split
    · exact ⟨_, rfl⟩
    · exact ⟨s.mem, rfl⟩
  let asked (n : Nat) : UnpackState StreamUnpackEnv :=
    { s with mem := m, env.bufferLength := n, env.requests := s.env.requests + 1 }
  have heq : handleStreamUnpackUnderflow w realloc s more =
      growTo w more s.env.bufferLength (some (fillBuffer w remains { s with mem := m }))
        fun n => (realloc s.env.requests n).elim (some (cwpRcBufferUnderflow, asked n)) fun p =>
          some (fillBuffer w remains
            { asked n with
              mem := m.move p s.uc.start (min s.env.bufferLength n), uc.start := p }) := by
    unfold handleStreamUnpackUnderflow
    simp only
    rw [hmoved]
    unfold growTo
    simp only
    split
    · cases growBuffer w more s.env.bufferLength with
      | none => rfl
      | some n =>
          simp only [Option.bind_some]
          cases realloc s.env.requests n <;> rfl
    · rfl
  rw [heq]
  refine refills_growTo_iff hlt (Or.inl rfl) ⟨_, rfl, fillBuffer_bufferLength w remains _⟩ ?_
  intro n
  cases realloc s.env.requests n with
  | none => exact ⟨_, rfl, rfl⟩
  | some p => exact ⟨_, rfl, fillBuffer_bufferLength w remains _⟩

/-- A read that gives bytes takes them off the stream. -/
theorem read_unread {results : ReadResults} {n : Nat} {fd : InputDescriptor} {bs : List UInt8}
    (h : (read results n fd).1 = some bs) :
    bs.length + (read results n fd).2.unread.length = fd.unread.length := by
  unfold read at h ⊢
  split at h
  · simp at h
  · rename_i heq
    obtain rfl := Option.some.inj h
    simp only [List.length_take, List.length_drop]
    omega

/-- The reading loop ends, and keeps the length.  The induction is on the bound: a turn that
goes on takes a byte of the stream. -/
theorem readLoop_ends (w : Nat) (results : ReadResults) (more : Nat) :
    ∀ (fuel : Nat) (s : UnpackState FileUnpackEnv), s.env.fileDescriptor.unread.length < fuel →
      ∃ r, readLoop w results more fuel s = some r ∧
        r.2.env.bufferLength = s.env.bufferLength := by
  intro fuel
  induction fuel with
  | zero =>
      intro s hfuel
      exact absurd hfuel (Nat.not_lt_zero _)
  | succ fuel ih =>
      intro s hfuel
      rw [readLoop]
      split
      · have htaken : ∀ bs, (read results (ulongDiff w s.env.bufferLength
            (ulongDiff w s.uc.end_ s.uc.start)) s.env.fileDescriptor).1 = some bs → _ :=
          fun _ => read_unread
        simp only
        generalize read results (ulongDiff w s.env.bufferLength
          (ulongDiff w s.uc.end_ s.uc.start)) s.env.fileDescriptor = given at htaken ⊢
        obtain ⟨given, fd⟩ := given
        cases given with
        | none => exact ⟨_, rfl, rfl⟩
        | some bs =>
            have htaken := htaken bs rfl
            simp only at htaken ⊢
            by_cases hempty : bs.length = 0
            · rw [if_pos hempty]
              exact ⟨_, rfl, rfl⟩
            · rw [if_neg hempty]
              have hrest := ih { s with
                mem := s.mem.write s.uc.end_ bs
                uc.end_ := s.uc.end_ + bs.length
                env.fileDescriptor := fd } (by show fd.unread.length < fuel; omega)
              exact hrest
      · exact ⟨_, rfl, rfl⟩

theorem refill_ends (w : Nat) (results : ReadResults) (more kept remains : Nat)
    (s : UnpackState FileUnpackEnv) :
    ∃ r, refill w results more kept remains s = some r ∧
      r.2.env.bufferLength = s.env.bufferLength :=
  readLoop_ends w results more _ _ (Nat.lt_succ_self _)

/-- The handler of the file unpack context. -/
theorem handleFileUnpackUnderflow_room_iff {w : Nat} (realloc : Allocator) (results : ReadResults)
    {s : UnpackState FileUnpackEnv} (hlt : s.env.bufferLength < 2 ^ w) (more : Nat) :
    (∃ r, handleFileUnpackUnderflow w realloc results s more = some r ∧
      ulongDiff w s.uc.current (s.env.barrier.getD s.uc.current) + more ≤
        r.2.env.bufferLength) ↔
    Covers w s.env.bufferLength
      (ulongDiff w s.uc.current (s.env.barrier.getD s.uc.current) + more) := by
  let kept := ulongDiff w s.uc.current (s.env.barrier.getD s.uc.current)
  let remains := ulongDiff w s.uc.end_ (s.env.barrier.getD s.uc.current)
  obtain ⟨m, cs, hcopy⟩ := copyRemains_frame s.uc.start (s.env.barrier.getD s.uc.current) remains s
  let copied : UnpackState FileUnpackEnv := { s with mem := m, env.copies := cs }
  let asked (n : Nat) : UnpackState FileUnpackEnv :=
    { copied with env.bufferLength := n, env.requests := s.env.requests + 1 }
  have heq : handleFileUnpackUnderflow w realloc results s more =
      growTo w ((more + kept) % 2 ^ w) s.env.bufferLength
        (refill w results more kept remains copied)
        fun n => (realloc s.env.requests n).elim (some (cwpRcBufferUnderflow, asked n)) fun p =>
          refill w results more kept remains
            { asked n with
              mem := m.move p s.uc.start (min s.env.bufferLength n), uc.start := p } := by
    unfold handleFileUnpackUnderflow
    simp only
    rw [hcopy]
    unfold growTo
    simp only
    split
    · cases growBuffer w ((more + kept) % 2 ^ w) s.env.bufferLength with
      | none => rfl
      | some n =>
          simp only [Option.bind_some]
          cases realloc s.env.requests n <;> rfl
    · rfl
  rw [heq]
  refine refills_growTo_iff hlt (Or.inr (by rw [Nat.add_comm])) ?_ ?_
  · exact refill_ends w results more kept remains copied
  · intro n
    cases realloc s.env.requests n with
    | none => exact ⟨_, rfl, rfl⟩
    | some p => exact refill_ends w results more kept remains _

/-! ## All handlers -/

/-- Each loop ends, with room for what is kept and what is asked for, exactly if the
buffer length suffices for the sum of both.  The file pack context flushes first, and does not
come to its loop where the descriptor refuses.  Of a length that is a power of two, as the default
lengths are, the sum must not exceed half of the range. -/
theorem growth_makes_room_iff (w more : Nat) :
    (∀ s : PackState DynamicMemoryPackEnv,
      (∀ realloc, EndsWithRoom w (ulongDiff w s.pc.current s.pc.start + more)
        (handleMemoryPackOverflow w realloc s more)) ↔
      Suffices w (ulongDiff w s.pc.end_ s.pc.start) (ulongDiff w s.pc.current s.pc.start + more)) ∧
    (∀ s : PackState StreamPackEnv,
      (∀ malloc disk, EndsWithRoom w more (handleStreamPackOverflow w malloc disk s more)) ↔
      Suffices w (ulongDiff w s.pc.end_ s.pc.start) more) ∧
    (∀ (malloc : Allocator) (results : WriteResults) (initialBufferLength : Nat)
      (fd : OutputDescriptor) (s₀ s : PackState FilePackEnv) (ops : List FilePackOp),
      (initFilePackContext malloc initialBufferLength fd s₀).pc.returnCode = cwpRcOk →
      run (FilePackOp.perform (filePackHandlers w malloc results)) ops
        (initFilePackContext malloc initialBufferLength fd s₀) = some s →
      ((∀ malloc, EndsWithRoom w
        (ulongDiff w s.pc.current (s.env.barrier.getD s.pc.current) + more)
        (handleFilePackOverflow w malloc results s more)) ↔
      (Accepts w results s → Suffices w (ulongDiff w s.pc.end_ s.pc.start)
        (ulongDiff w s.pc.current (s.env.barrier.getD s.pc.current) + more)))) ∧
    (∀ (realloc : Allocator) (s : UnpackState StreamUnpackEnv), s.env.bufferLength < 2 ^ w →
      ((∃ r, handleStreamUnpackUnderflow w realloc s more = some r ∧
        more ≤ r.2.env.bufferLength) ↔ Suffices w s.env.bufferLength more)) ∧
    (∀ (realloc : Allocator) (results : ReadResults) (s : UnpackState FileUnpackEnv),
      s.env.bufferLength < 2 ^ w →
      ((∃ r, handleFileUnpackUnderflow w realloc results s more = some r ∧
        ulongDiff w s.uc.current (s.env.barrier.getD s.uc.current) + more ≤
          r.2.env.bufferLength) ↔
      Suffices w s.env.bufferLength
        (ulongDiff w s.uc.current (s.env.barrier.getD s.uc.current) + more))) ∧
    ∀ a sum, a < w → (Suffices w (2 ^ a) sum ↔ 2 * sum ≤ 2 ^ w) := by
  refine ⟨?_, ?_, ?_, ?_, ?_, fun a sum ha => suffices_two_pow_iff ha⟩
  · intro s
    rw [handleMemoryPackOverflow_room_iff w s more, covers_iff_suffices (ulongDiff_lt w _ _)]
  · intro s
    rw [handleStreamPackOverflow_room_iff w s more, covers_iff_suffices (ulongDiff_lt w _ _)]
  · intro malloc results initialBufferLength fd s₀ s ops hinit hrun
    rw [handleFilePackOverflow_room_iff (barrierBehind_of_run hinit hrun) more,
      covers_iff_suffices (ulongDiff_lt w _ _)]
  · intro realloc s hlt
    rw [handleStreamUnpackUnderflow_room_iff realloc hlt more, covers_iff_suffices hlt]
  · intro realloc results s hlt
    rw [handleFileUnpackUnderflow_room_iff realloc results hlt more, covers_iff_suffices hlt]

/-- Five thousand bytes more find room in fresh contexts, whose buffers are doubled. -/
theorem growth_makes_room_for_five_thousand_bytes :
    (∀ malloc, EndsWithRoom 32 (ulongDiff 32 0 0 + 5000)
      (handleFilePackOverflow 32 malloc takesAll
        (initFilePackContext (fixedHeap 0) 0 .opened blankFile) 5000)) ∧
    ∃ r, handleFileUnpackUnderflow 32 (fixedHeap 0) (givesUpTo 5)
        (initFileUnpackContext (fixedHeap 0) 0 ⟨[0xc0], 0, 0⟩ blankFileUnpack) 5000 = some r ∧
      ulongDiff 32 0 0 + 5000 ≤ r.2.env.bufferLength := by
  obtain ⟨-, -, hpack, -, hunpack, -⟩ := growth_makes_room_iff 32 5000
  constructor
  · exact (hpack (fixedHeap 0) takesAll 0 .opened blankFile _ [] rfl rfl).mpr
      fun _ => Or.inl (by decide)
  · exact (hunpack (fixedHeap 0) (givesUpTo 5) _ (by decide)).mpr (Or.inl (by decide))

/-- The header of a long item makes the file unpack context double its length for ever, where
`unsigned long` has 32 bits. -/
theorem hostile_length_doubles_for_ever :
    cwUnpackNext (some (handleFileUnpackUnderflow 32 (fixedHeap 0) (givesUpTo 5)))
      (initFileUnpackContext (fixedHeap 0) 0 ⟨[0xc6, 0x80, 0x00, 0x00, 0x01], 0, 0⟩
        blankFileUnpack) = none ∧
    ∀ k, 2 ^ k * 1024 % 2 ^ 32 < 2 ^ 31 + 1 := by
  refine ⟨rfl, ?_⟩
  exact (growBuffer_eq_none_iff (w := 32) (by decide)).mp (by decide)

end CWPack.Goodies
