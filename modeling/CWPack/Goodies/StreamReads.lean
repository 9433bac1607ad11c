/-
  Goodies/StreamReads.lean --- what is complete in a stream is read.

  The underflow handler of the stream context is wrong about refills that are cut
  off, and about nothing else.  A handler that reports the end of the input at
  such a refill feeds every stream, and the handler of the source agrees with it
  wherever it reports OK.  So the calls that are answered OK on a static buffer
  that holds the stream are answered alike by the stream context, whatever lies
  behind the items they read.
-/
import CWPack.Goodies.StreamUnpack

set_option autoImplicit false

namespace CWPack.Goodies

open CWPack.Foundation
open CWPack.Core
open CWPack.MessagePack

variable {τ : Type}

/-! ## A handler that is right about the end -/

/-- The handler, except that a refill that is cut off is the end of the input. -/
def endAtCutOff (handler : UnpackUnderflowHandler StreamUnpackEnv) :
    UnpackUnderflowHandler StreamUnpackEnv := fun s more =>
  if CutOff s more then some (cwpRcEndOfInput, s) else handler s more

theorem endAtCutOff_agreesOn (handler : UnpackUnderflowHandler StreamUnpackEnv)
    (s : UnpackState StreamUnpackEnv) (more : Nat) :
    AgreesOn (fun r => Settled False r.1) (endAtCutOff handler s more) (handler s more) := by
  unfold endAtCutOff
  by_cases hcut : CutOff s more
  · intro a ha hok
    rw [if_pos hcut] at ha
    obtain rfl := Option.some.inj ha
    have hend : cwpRcEndOfInput = cwpRcOk := hok.resolve_left id
    exact absurd hend (by decide)
  · rw [if_neg hcut]
    exact AgreesOn.refl _ _

section Reading

variable {realloc : Allocator}

/-- With that handler every stream is fed. -/
theorem stream_feeds_to_the_end (hheap : ∀ i n, (realloc i n).isSome) :
    Feeds (some (endAtCutOff (handleStreamUnpackUnderflow 64 realloc))) False StreamFed
      Inside where
  window := (stream_feeds hheap).window
  advance := (stream_feeds hheap).advance
  stops := (stream_feeds hheap).stops
  refill := by
    intro rest s more h hless hmore
    show Ends False _ (endAtCutOff _ s more)
    unfold endAtCutOff
    by_cases hcut : CutOff s more
    · have hle : s.uc.current ≤ s.uc.end_ := h.le
      have hlen := congrArg List.length h.ahead
      rw [List.length_append, Memory.bytes_length] at hlen
      have hshort : rest.length < more := by
        have hlen' : s.uc.end_ - s.uc.current + s.env.file.unread.length = rest.length := hlen
        have hcut' := hcut.2
        omega
      rw [if_pos hcut, ends_some]
      refine ⟨rfl, rfl, ?_⟩
      rw [if_pos hshort]
      exact ⟨rfl, hle⟩
    · obtain ⟨r, hcall, hrefilled⟩ := handleStreamUnpackUnderflow_spec hheap h hless hmore hcut
      rw [if_neg hcut, hcall, ends_some]
      exact hrefilled

/-- An item that is complete in the stream is delivered. -/
theorem cwUnpackNext_stream (hheap : ∀ i n, (realloc i n).isSome) {b : List UInt8} {v : Value}
    {n : Nat} {s : UnpackState StreamUnpackEnv} (hrc : s.uc.returnCode = cwpRcOk)
    (hfed : StreamFed b s.input) (hread : readItem b = .ok (v, n)) :
    ∃ s', cwUnpackNext (some (handleStreamUnpackUnderflow 64 realloc)) s = some s' ∧
      s'.uc.returnCode = cwpRcOk ∧ s'.Denotes v ∧ StreamFed (b.drop n) s'.input := by
  have hspec := cwUnpackNext_spec (stream_feeds_to_the_end hheap) hfed hrc
  rw [hread] at hspec
  obtain ⟨s', hcall, hrc', hden, hfed'⟩ := hspec.exists_of_not_stuck
  refine ⟨s', ?_, hrc', hden, hfed'⟩
  exact cwUnpackNext_agreesOn (endAtCutOff_agreesOn _) s s' hcall (Or.inr hrc')

/-- A run is answered as the reader of the stream answers it, if the reader never stops. -/
theorem trace_stream (hheap : ∀ i n, (realloc i n).isSome) {fuel : Nat} {b rest : List UInt8}
    {s : UnpackState StreamUnpackEnv} (hrc : s.uc.returnCode = cwpRcOk)
    (hfed : StreamFed b s.input) (hfuel : b.length < fuel) {ops : List UnpackOp}
    (hok : (follow UnpackOp.answer ops (.ok b)).2 = .ok rest) :
    ∃ s', trace (UnpackOp.perform fuel (some (handleStreamUnpackUnderflow 64 realloc))) ops s =
        some ((follow UnpackOp.answer ops (.ok b)).1, s') ∧
      s'.uc.returnCode = cwpRcOk ∧ StreamFed rest s'.input := by
  obtain ⟨⟨seen, s'⟩, hcall, hseen, htracks⟩ :=
    (trace_tracks (stream_feeds_to_the_end hheap) fuel ops s (.ok b)
      ⟨hrc, hfed, hfuel⟩).exists_of_not_stuck
  obtain rfl : seen = _ := hseen
  rw [hok] at htracks
  obtain ⟨hrc', hfed', -⟩ := htracks
  exact ⟨s', trace_agreesOn (endAtCutOff_agreesOn _) fuel ops s _ hcall (Or.inr hrc'), hrc', hfed'⟩

end Reading

/-! ## Against the static context -/

/-- As long as a static buffer that holds the stream answers OK, the stream context
shows the same, and afterwards has the same bytes ahead. -/
theorem stream_unpack_reads_what_is_complete (realloc : Allocator)
    (hheap : ∀ i n, (realloc i n).isSome) (initialBufferLength : Nat)
    (hinit : initialBufferLength < 2 ^ 64) (file : InputFile) (s : UnpackState StreamUnpackEnv)
    (data : Nat) (t t' : UnpackState τ)
    (hstatic : t.mem.bytes data file.unread.length = file.unread) (ops : List UnpackOp)
    (fuel : Nat) (hfuel : file.unread.length < fuel) (seen : List Observation)
    (hcalls : trace (UnpackOp.perform fuel none) ops
      (cwUnpackContextInit data file.unread.length t) = some (seen, t'))
    (hok : t'.uc.returnCode = cwpRcOk) :
    ∃ s', trace (UnpackOp.perform fuel (some (handleStreamUnpackUnderflow 64 realloc))) ops
        (initStreamUnpackContext realloc initialBufferLength file s) = some (seen, s') ∧
      s'.uc.returnCode = cwpRcOk ∧ s'.uc.current ≤ s'.uc.end_ ∧
      s'.ahead ++ s'.env.file.unread = t'.ahead := by
  obtain ⟨hrc, hfed⟩ := streamFed_init hheap hinit file s
  obtain ⟨hseen, htracks⟩ := (trace_tracks (static_feeds _) fuel ops
    (cwUnpackContextInit data file.unread.length t) (.ok file.unread)
    (static_tracks data fuel hstatic hfuel)).of_eq_some hcalls
  cases hreader : (follow UnpackOp.answer ops (.ok file.unread)).2 with
  | error e =>
      rw [hreader] at htracks
      obtain ⟨he, hrc', -⟩ := htracks
      exact absurd (hrc'.symm.trans hok) he
  | ok rest =>
      rw [hreader] at htracks
      obtain ⟨-, hinput, -⟩ := htracks
      obtain ⟨s', hcall, hrc', hfed'⟩ := trace_stream hheap hrc hfed hfuel hreader
      rw [← hseen] at hcall
      exact ⟨s', hcall, hrc', hfed'.le, hfed'.ahead.trans hinput.ahead_eq.symm⟩

/-- The `uint 16` behind the first item is cut off. -/
theorem stream_unpack_reads_up_to_a_cut_off_item :
    ∃ s', trace (UnpackOp.perform 4 (some (handleStreamUnpackUnderflow 64 (fixedHeap 0))))
        [.next] (initStreamUnpackContext (fixedHeap 0) 1 ⟨[0x07, 0xcd, 0x01], false, 0⟩
          blankStreamUnpack) = some ([⟨0, none, some (.positiveInteger, some (.int 7))⟩], s') ∧
      s'.uc.returnCode = cwpRcOk ∧ s'.uc.current ≤ s'.uc.end_ ∧
      s'.ahead ++ s'.env.file.unread = [0xcd, 0x01] :=
  stream_unpack_reads_what_is_complete (fixedHeap 0) (fun _ _ => rfl) 1 (by decide)
    ⟨[0x07, 0xcd, 0x01], false, 0⟩ blankStreamUnpack 0 (staticContext [0x07, 0xcd, 0x01]) _
    (by decide) [.next] 4 (by decide) _ rfl rfl

end CWPack.Goodies
