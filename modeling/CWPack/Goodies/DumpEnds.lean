/-
  Goodies/DumpEnds.lean --- where a dump ends, and whether it does.

  A dump that ends well has read complete items, an array with an object marker as
  any other, so `cw_skip_items` ends in the same place.  The tool ends on every
  input but those in which a loop over 2^31 items or more is entered: the counter of
  these loops is an `int`, and the loops do not look at the return code.
-/
import CWPack.Goodies.DumpReads

set_option autoImplicit false

namespace CWPack.Goodies

open CWPack.Foundation
open CWPack.Core
open CWPack.MessagePack

variable {σ : Type}

/-! ## One item -/

section Item

variable {H : Option (UnpackUnderflowHandler σ)} {stuck : Prop}
  {inv : List UInt8 → UnpackInput σ → Prop} {stopped : UnpackInput σ → Prop} {o : DumpOptions}
  {unit : FloatUnit} {fuel : Nat} {tabLevel : Int32} {d d' : Dumper σ} {b : List UInt8}

/-- A dump that returns has read an item, or has stopped. -/
theorem dumpNextItem_of_eq_some (F : Feeds H stuck inv stopped) (h : ReadTo inv b d)
    (hcall : dumpNextItem H (dumpItem unit H o fuel) tabLevel d = some d') :
    PastItems inv stopped o.recognizeObjects 1 b d'.context := by
  have hitem := dumpItem_spec F unit fuel (o := o) b.length True (fun _ => True.intro)
    fun _ => True.intro
  exact (dumpNextItem_spec F (fun _ => True.intro) hitem tabLevel (Nat.le_refl _)
    (pastItems_zero h.1 h.2)).of_eq_some hcall

/-- Where a dump ends well, skipping one item leaves the same bytes ahead. -/
theorem dumpNextItem_skips (F : Feeds H stuck inv stopped) (h : ReadTo inv b d)
    (hlen : b.length < 2 ^ 31)
    (hcall : dumpNextItem H (dumpItem unit H o fuel) tabLevel d = some d')
    (hok : d'.returnCode = 0) :
    ∃ b', inv b' d'.context.input ∧ ∀ n, b.length < n →
      Ends stuck (fun t => t.uc.returnCode = 0 ∧ inv b' t.input) (cwSkipItems n H 1 d.context) := by
  rcases dumpNextItem_of_eq_some F h hcall with ⟨-, b', hthrough, hinv⟩ | ⟨hrc, -, -⟩
  · have hskips := skipItems_of_through (through_itemHeader hthrough) (by omega) 0 (by omega)
    have hdone : skipItems (Int64.ofNat 0) b' = .ok b' := skipItems_of_le (by decide)
    have hone : Int64.ofNat (0 + 1) = 1 := rfl
    rw [hone, hdone] at hskips
    refine ⟨b', hinv, fun n hn => ?_⟩
    have hspec := cwSkipItems_spec F 1 hn h.2 h.1
    rw [hskips] at hspec
    exact hspec
  · exact absurd hok hrc

end Item

/-! ## The tool -/

/-- What `main` has come to after some turns of its loop. -/
inductive DumpReaches (unit : FloatUnit) (H : Option (UnpackUnderflowHandler FileUnpackEnv))
    (o : DumpOptions) (s₀ : UnpackState FileUnpackEnv) : Dumper FileUnpackEnv → Prop where
  | start : DumpReaches unit H o s₀ ⟨s₀, []⟩
  | turn {d d' : Dumper FileUnpackEnv} {fuel : Nat} (h : DumpReaches unit H o s₀ d)
      (hrc : d.returnCode = 0)
      (hcall : dumpNextItem H (dumpItem unit H o fuel) 0 (newLine o 0 d) = some d') :
      DumpReaches unit H o s₀ d'

section Tool

variable {realloc : Allocator} {results : ReadResults} {unit : FloatUnit} {o : DumpOptions}

/-- The loop of `main` starts with the whole input ahead. -/
theorem dumpContext_fed (hheap : ∀ i n, (realloc i n).isSome) (stdin : InputDescriptor)
    (s : UnpackState FileUnpackEnv) :
    (dumpContext realloc stdin s).uc.returnCode = 0 ∧
      BarrierFed stdin.unread (stdin.unread.take (2 ^ 64 - 1))
        (dumpContext realloc stdin s).input := by
  have hinit : 4096 < 2 ^ 64 := by decide
  obtain ⟨hrc, hfed, -⟩ := fileFed_init hheap hinit stdin s
  exact ⟨hrc, hfed.setBarrier.barrierFed rfl⟩

theorem DumpReaches.fed (hheap : ∀ i n, (realloc i n).isSome)
    (hread : ∀ i n, ∃ k, results i n = .ok k) {stdin : InputDescriptor}
    {s : UnpackState FileUnpackEnv} {d : Dumper FileUnpackEnv}
    (h : DumpReaches unit (some (handleFileUnpackUnderflow 64 realloc results)) o
      (dumpContext realloc stdin s) d) (hrc : d.returnCode = 0) :
    ∃ b, BarrierFed stdin.unread b d.context.input := by
  induction h with
  | start => exact ⟨_, (dumpContext_fed hheap stdin s).2⟩
  | @turn d d' _ _ hrc₀ hcall ih =>
      obtain ⟨b, hfed⟩ := ih hrc₀
      rcases dumpNextItem_of_eq_some (d := newLine o 0 d)
        (barrier_feeds hheap hread stdin.unread) ⟨hrc₀, hfed⟩ hcall with
        ⟨-, b', -, hfed'⟩ | ⟨hstop, -, -⟩
      · exact ⟨b', hfed'⟩
      · exact absurd hrc hstop

/-- The bytes ahead tell the position in the stream. -/
theorem BarrierFed.position_eq {base b : List UInt8} {s : UnpackState FileUnpackEnv}
    (h : BarrierFed base b s.input) (hlen : base.length < 2 ^ 64) :
    position base s = base.length - b.length := by
  obtain ⟨held, rest, hfed, -, hbase, rfl⟩ := h
  have hsum := congrArg List.length hbase
  rw [List.length_append] at hsum
  unfold position
  rw [hfed.coming_eq, List.length_take]
  omega

theorem BarrierFed.length_le {base b : List UInt8} {x : UnpackInput FileUnpackEnv}
    (h : BarrierFed base b x) : b.length ≤ base.length := by
  obtain ⟨held, rest, -, -, hbase, rfl⟩ := h
  have hsum := congrArg List.length hbase
  rw [List.length_append] at hsum
  rw [List.length_take]
  omega

end Tool

/-- A dump that ends well ends where `cw_skip_items` does. -/
theorem dump_consumes_one_item (unit : FloatUnit) (o : DumpOptions) :
    (∀ (fuel : Nat) (tabLevel : Int32) (d d' : Dumper σ), d.returnCode = cwpRcOk →
      d.context.uc.start ≤ d.context.uc.current → d.context.uc.current ≤ d.context.uc.end_ →
      d.context.uc.end_ - d.context.uc.start < 2 ^ 31 →
      dumpNextItem none (dumpItem unit none o fuel) tabLevel d = some d' →
      d'.returnCode = cwpRcOk →
      ∃ turns, ∀ n, turns ≤ n → ∃ t, cwSkipItems n none 1 d.context = some t ∧
        t.uc.returnCode = cwpRcOk ∧ t.uc.current = d'.context.uc.current) ∧
    (∀ (realloc : Allocator) (results : ReadResults), (∀ i n, (realloc i n).isSome) →
      (∀ i n, ∃ k, results i n = .ok k) →
      ∀ (stdin : InputDescriptor) (s₀ : UnpackState FileUnpackEnv), stdin.unread.length < 2 ^ 31 →
      ∀ (fuel : Nat) (tabLevel : Int32) (d d' : Dumper FileUnpackEnv),
      DumpReaches unit (some (handleFileUnpackUnderflow 64 realloc results)) o
        (dumpContext realloc stdin s₀) d → d.returnCode = cwpRcOk →
      dumpNextItem (some (handleFileUnpackUnderflow 64 realloc results))
        (dumpItem unit (some (handleFileUnpackUnderflow 64 realloc results)) o fuel) tabLevel d =
          some d' → d'.returnCode = cwpRcOk →
      ∃ turns, ∀ n, turns ≤ n → ∃ t,
        cwSkipItems n (some (handleFileUnpackUnderflow 64 realloc results)) 1 d.context = some t ∧
        t.uc.returnCode = cwpRcOk ∧
        position stdin.unread t = position stdin.unread d'.context) := by
  constructor
  · intro fuel tabLevel d d' hrc hlo hhi hlen hcall hok
    have hahead : d.context.ahead.length = d.context.uc.end_ - d.context.uc.current :=
      Memory.bytes_length _ _ _
    obtain ⟨b', hinv, hskip⟩ := dumpNextItem_skips (static_feeds d.context.input)
      ⟨hrc, staticInput_ahead hhi⟩ (by omega) hcall hok
    refine ⟨d.context.ahead.length + 1, fun n hn => ?_⟩
    obtain ⟨t, hcallt, hokt, hinvt⟩ := (hskip n hn).exists_of_not_stuck
    refine ⟨t, hcallt, hokt, ?_⟩
    have hlength : d'.context.uc.current + b'.length = d.context.uc.end_ := hinv.length
    have hlengtht : t.uc.current + b'.length = d.context.uc.end_ := hinvt.length
    omega
  · intro realloc results hheap hread stdin s₀ hlen fuel tabLevel d d' hreach hrc hcall hok
    obtain ⟨b, hfed⟩ := hreach.fed hheap hread hrc
    have hb := hfed.length_le
    obtain ⟨b', hinv, hskip⟩ := dumpNextItem_skips (barrier_feeds hheap hread stdin.unread)
      ⟨hrc, hfed⟩ (by omega) hcall hok
    refine ⟨b.length + 1, fun n hn => ?_⟩
    have hnot : 2 ^ 63 < stdin.unread.length + 2 ^ 32 → False := by omega
    obtain ⟨t, hcallt, hokt, hinvt⟩ := ((hskip n hn).excuse hnot).exists_of_not_stuck
    refine ⟨t, hcallt, hokt, ?_⟩
    rw [hinvt.position_eq (by omega), hinv.position_eq (by omega)]

/-- A labelled item: an array of an object marker and a number, dumped with `-r` from a buffer
and as the first item of a stream. -/
theorem dump_consumes_labelled_item :
    (∃ d' turns, dumpNextItem none (dumpItem .native none ⟨0, true⟩ 4) 0
        ⟨staticContext [0x92, 0xd4, 0x7f, 0xff, 0x2a], []⟩ = some d' ∧
      ∀ n, turns ≤ n → ∃ t,
        cwSkipItems n none 1 (staticContext [0x92, 0xd4, 0x7f, 0xff, 0x2a]) = some t ∧
        t.uc.returnCode = cwpRcOk ∧ t.uc.current = d'.context.uc.current) ∧
    ∃ d' turns,
      dumpNextItem (some (handleFileUnpackUnderflow 64 (fixedHeap 0) byteByByte))
        (dumpItem .native (some (handleFileUnpackUnderflow 64 (fixedHeap 0) byteByByte)) ⟨0, true⟩ 4)
        0 ⟨dumpContext (fixedHeap 0) ⟨[0x92, 0xd4, 0x7f, 0xff, 0x2a], 0, 0⟩ blankFileUnpack, []⟩ =
          some d' ∧
      ∀ n, turns ≤ n → ∃ t,
        cwSkipItems n (some (handleFileUnpackUnderflow 64 (fixedHeap 0) byteByByte)) 1
          (dumpContext (fixedHeap 0) ⟨[0x92, 0xd4, 0x7f, 0xff, 0x2a], 0, 0⟩ blankFileUnpack) =
            some t ∧
        t.uc.returnCode = cwpRcOk ∧
        position [0x92, 0xd4, 0x7f, 0xff, 0x2a] t =
          position [0x92, 0xd4, 0x7f, 0xff, 0x2a] d'.context := by
  obtain ⟨hbuffer, -⟩ := dump_consumes_one_item (σ := Unit) .native ⟨0, true⟩
  obtain ⟨-, hstream⟩ := dump_consumes_one_item (σ := Unit) .native ⟨0, true⟩
  obtain ⟨turns, hturns⟩ := hbuffer 4 0 ⟨staticContext [0x92, 0xd4, 0x7f, 0xff, 0x2a], []⟩ _ rfl
    (by decide) (by decide) (by decide) rfl rfl
  obtain ⟨turns', hturns'⟩ := hstream (fixedHeap 0) byteByByte (fun _ _ => rfl)
    (fun _ _ => ⟨1, rfl⟩) ⟨[0x92, 0xd4, 0x7f, 0xff, 0x2a], 0, 0⟩ blankFileUnpack (by decide) 4 0 _ _
    .start rfl rfl rfl
  exact ⟨⟨_, turns, rfl, hturns⟩, _, turns', rfl, hturns'⟩

/-! ## The end of the dump -/

section Main

variable {H : Option (UnpackUnderflowHandler σ)} {stuck : Prop}
  {inv : List UInt8 → UnpackInput σ → Prop} {stopped : UnpackInput σ → Prop} {o : DumpOptions}

/-- The loop of `main`, which goes on until the context has stopped. -/
theorem dumpLoop_spec (F : Feeds H stuck inv stopped) (unit : FloatUnit) :
    ∀ (fuel : Nat) (d : Dumper σ) (b : List UInt8), ReadTo inv b d →
      Ends (stuck ∨ fuel ≤ 2 ^ 31 + b.length + 1 ∨
          ∃ n, Endless (dumpHeader o.recognizeObjects) n b)
        (fun _ => ∀ n, ¬ Endless (dumpHeader o.recognizeObjects) n b)
        (dumpLoop unit H o fuel d) := by
  intro fuel
  induction fuel with
  | zero =>
      intro d b _
      exact Or.inr (Or.inl (Nat.zero_le _))
  | succ fuel ih =>
      intro d b h
      have hitem := dumpItem_spec F unit fuel (o := o) b.length
        (stuck ∨ fuel + 1 ≤ 2 ^ 31 + b.length + 1) Or.inl fun h => Or.inr (by omega)
      have hnext := dumpNextItem_spec (d := newLine o 0 d) F Or.inl hitem 0 (Nat.le_refl _)
        (pastItems_zero h.1 h.2)
      have hrc : d.returnCode = 0 := h.1
      rw [dumpLoop, if_pos hrc]
      refine Ends.bind (hnext.excuse ?_) fun d' hd' => ?_
      · rintro ((hstuck | hfuel) | hendless)
        · exact Or.inl hstuck
        · exact Or.inr (Or.inl hfuel)
        · exact Or.inr (Or.inr ⟨_, hendless⟩)
      · rcases hd' with ⟨hrc', b', hthrough, hinv'⟩ | ⟨hrc', -, hwithin⟩
        · have hsize := hthrough.size_le List.length dumpHeader_size
          refine ((ih d' b' ⟨hrc', hinv'⟩).excuse ?_).mono fun _ hends n hendless => ?_
          · rintro (hstuck | hfuel | ⟨n, hendless⟩)
            · exact Or.inl hstuck
            · exact Or.inr (Or.inl (by omega))
            · exact Or.inr (Or.inr ⟨_, endless_add_iff.mpr (Or.inr ⟨b', hthrough, hendless⟩)⟩)
          · rcases endless_add_iff.mp (endless_of_le (Nat.le_add_left n (0 + 1)) hendless) with
              hfirst | ⟨b₁, hthrough', hrest⟩
            · exact hthrough.not_endless hfirst
            · obtain rfl := hthrough.unique hthrough'
              exact hends n hrest
        · cases fuel with
          | zero => exact Or.inr (Or.inl (by omega))
          | succ fuel =>
              have hne : ¬ d'.returnCode = 0 := hrc'
              rw [dumpLoop, if_neg hne]
              intro n hendless
              exact (hwithin.add n).2 (endless_of_le (Nat.le_add_left n (0 + 1)) hendless)

end Main

section Tool

variable {realloc : Allocator} {results : ReadResults}

/-- What is known of a run of the tool. -/
theorem dumpMain_spec (hheap : ∀ i n, (realloc i n).isSome)
    (hread : ∀ i n, ∃ k, results i n = .ok k) (unit : FloatUnit) (o : DumpOptions) (fuel : Nat)
    (stdin : InputDescriptor) (hlen : stdin.unread.length + 2 ^ 32 ≤ 2 ^ 63)
    (s : UnpackState FileUnpackEnv) :
    Ends (fuel ≤ 2 ^ 31 + stdin.unread.length + 1 ∨
        ∃ n, Endless (dumpHeader o.recognizeObjects) n stdin.unread)
      (fun _ => ∀ n, ¬ Endless (dumpHeader o.recognizeObjects) n stdin.unread)
      (dumpMain unit realloc results o fuel stdin s) := by
  obtain ⟨hrc, hfed⟩ := dumpContext_fed hheap stdin s
  rw [List.take_of_length_le (by omega)] at hfed
  have hloop := dumpLoop_spec (o := o) (barrier_feeds hheap hread stdin.unread) unit fuel
    ⟨dumpContext realloc stdin s, []⟩ stdin.unread ⟨hrc, hfed⟩
  refine Ends.bind (hloop.excuse ?_) fun d hd => ?_
  · rintro (hstuck | hrest)
    · omega
    · exact hrest
  · show Ends _ _ (if _ then _ else _)
    split
    · exact hd
    · exact hd

/-- The tool ends exactly on the inputs in which no loop without an end is entered. -/
theorem dump_terminates_iff (hheap : ∀ i n, (realloc i n).isSome)
    (hread : ∀ i n, ∃ k, results i n = .ok k) (unit : FloatUnit) (o : DumpOptions)
    (stdin : InputDescriptor) (hlen : stdin.unread.length + 2 ^ 32 ≤ 2 ^ 63)
    (s : UnpackState FileUnpackEnv) :
    (∃ fuel, (dumpMain unit realloc results o fuel stdin s).isSome) ↔
      ¬ ∃ n, Endless (dumpHeader o.recognizeObjects) n stdin.unread := by
  constructor
  · rintro ⟨fuel, hends⟩ ⟨n, hendless⟩
    obtain ⟨d, hd⟩ := Option.isSome_iff_exists.mp hends
    exact (dumpMain_spec hheap hread unit o fuel stdin hlen s).of_eq_some hd n hendless
  · intro hends
    refine ⟨2 ^ 31 + stdin.unread.length + 2, ?_⟩
    have hspec := dumpMain_spec hheap hread unit o (2 ^ 31 + stdin.unread.length + 2) stdin hlen s
    have hnot : ¬ (2 ^ 31 + stdin.unread.length + 2 ≤ 2 ^ 31 + stdin.unread.length + 1 ∨
        ∃ n, Endless (dumpHeader o.recognizeObjects) n stdin.unread) := by
      rintro (hfuel | hendless)
      · omega
      · exact hends hendless
    obtain ⟨d, hd, -⟩ := (hspec.excuse hnot).exists_of_not_stuck
    exact Option.isSome_of_eq_some hd

theorem dump_terminates_labelled_item :
    (∃ fuel, (dumpMain .native (fixedHeap 0) byteByByte ⟨2, true⟩ fuel
        ⟨[0x92, 0xd4, 0x7f, 0xff, 0x2a], 0, 0⟩ blankFileUnpack).isSome) ↔
      ¬ ∃ n, Endless (dumpHeader true) n [0x92, 0xd4, 0x7f, 0xff, 0x2a] :=
  dump_terminates_iff (fun _ _ => rfl) (fun _ _ => ⟨1, rfl⟩) .native ⟨2, true⟩
    ⟨[0x92, 0xd4, 0x7f, 0xff, 0x2a], 0, 0⟩ (by decide) blankFileUnpack

/-- A header that declares a map of `2 ^ 31` pairs, and nothing behind it. -/
theorem dump_of_bare_map_header_never_ends :
    ¬ ∃ fuel, (dumpMain .native (fixedHeap 0) byteByByte ⟨0, false⟩ fuel
      ⟨[0xdf, 0x80, 0x00, 0x00, 0x00], 0, 0⟩ blankFileUnpack).isSome := by
  rintro ⟨fuel, hends⟩
  obtain ⟨d, hd⟩ := Option.isSome_iff_exists.mp hends
  have hheap : ∀ i n, (fixedHeap 0 i n).isSome := fun _ _ => rfl
  have hread : ∀ i n, ∃ k, byteByByte i n = .ok k := fun _ _ => ⟨1, rfl⟩
  have hheader : dumpHeader false [0xdf, 0x80, 0x00, 0x00, 0x00] = .endless := by decide
  exact (dumpMain_spec hheap hread .native ⟨0, false⟩ fuel
    ⟨[0xdf, 0x80, 0x00, 0x00, 0x00], 0, 0⟩ (by decide) blankFileUnpack).of_eq_some hd 1 (.here hheader)

end Tool

end CWPack.Goodies
