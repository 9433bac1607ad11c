/-
  Swift/Packers.lean --- `src/goodies/swift/CWPack.swift`.

  A packer is a pack context, and an unpacker an unpack context, of the C library.
  What an unpacker gives is what the reader of its bytes gives.  So the values
  that a `CWDataPacker` has packed come back, and of what a `CWFilePacker` has
  brought to its file, at any moment and after any failure, the first values come
  back and then everything throws.
-/
import CWPack.Goodies.DynamicMemory
import CWPack.Goodies.Pipelines
import CWPack.Swift.RoundTrip

set_option autoImplicit false

namespace CWPack.Swift

open CWPack.Foundation
open CWPack.Core
open CWPack.Goodies
open CWPack.MessagePack

variable {σ : Type}

/-! ## Packers -/

/-- `CWDataPacker()` -/
def cwDataPacker (malloc : Allocator) (s : PackState DynamicMemoryPackEnv) :
    PackState DynamicMemoryPackEnv :=
  initDynamicMemoryPackContext malloc 1024 s

/-- `data` of a `CWDataPacker` -/
def packedData (s : PackState DynamicMemoryPackEnv) : List UInt8 :=
  s.mem.bytes s.pc.start (s.pc.current - s.pc.start)

/-- `CWFilePacker(to:)`, with the descriptor open; `deinit` is `terminateFilePackContext`. -/
def cwFilePacker (malloc : Allocator) (s : PackState FilePackEnv) : PackState FilePackEnv :=
  initFilePackContext malloc 1024 .opened s

/-- What a `CWFilePacker` is asked to do. -/
inductive FilePackerOp (R : Runtime) where
  /-- `packer + x` -/
  | pack (x : Packable R)
  | flush

/-- Do it. -/
def FilePackerOp.perform {R : Runtime} (H : PackHandlers FilePackEnv) :
    FilePackerOp R → PackState FilePackEnv → Option (PackState FilePackEnv)
  | pack x => x.cwPack H
  | flush => cwPackFlush H

/-! ## Unpackers -/

/-- `CWDataUnpacker(from:)`: the data are copied to `buffer`. -/
def cwDataUnpacker (buffer : Nat) (data : List UInt8) (s : UnpackState σ) : UnpackState σ :=
  cwUnpackContextInit buffer data.length { s with mem := s.mem.write buffer data }

/-- `CWFileUnpacker(from:)` -/
def cwFileUnpacker (malloc : Allocator) (fileDescriptor : InputDescriptor)
    (s : UnpackState FileUnpackEnv) : UnpackState FileUnpackEnv :=
  initFileUnpackContext malloc 1024 fileDescriptor s

section Giving

variable (R : Runtime)

/-- Whoever asks a `CWDataUnpacker` with these data for values of the types gets this. -/
def DataGives (data : List UInt8) (ts : List PackableType) (seen : List (Result R)) : Prop :=
  ∀ (σ : Type) (buffer : Nat) (u : UnpackState σ),
    ∃ u', trace (caught fun t => t.unpack R none) ts (cwDataUnpacker buffer data u) =
      some (seen, u')

/-- Whoever asks a `CWFileUnpacker` on a file of these bytes for values of the types gets
this, however the descriptor hands the bytes out. -/
def FileGives (b : List UInt8) (ts : List PackableType) (seen : List (Result R)) : Prop :=
  ∀ (realloc : Allocator) (results : ReadResults) (errno : Nat) (u : UnpackState FileUnpackEnv),
    (∀ i n, (realloc i n).isSome) → (∀ i n, ∃ k, results i n = .ok k) →
    ∃ u', trace
      (caught fun t => t.unpack R (some (handleFileUnpackUnderflow 64 realloc results))) ts
      (cwFileUnpacker realloc ⟨b, 0, errno⟩ u) = some (seen, u')

variable {R}

theorem dataUnpacker_gives {b : List UInt8} {ts : List PackableType} {seen : List (Result R)}
    {r : Reader} (h : trace (caught (PackableType.reads R)) ts (.ok b) = some (seen, r)) :
    DataGives R b ts seen := by
  intro σ buffer u
  have hbytes : (u.mem.write buffer b).bytes buffer b.length = b := Memory.bytes_write_self _ _ _
  have htracks := static_tracks (t := { u with mem := u.mem.write buffer b }) buffer
    (b.length + 1) hbytes (Nat.lt_succ_self _)
  obtain ⟨u', htrace, -⟩ := trace_caught_of_follows
    (PackableType.unpack_follows (static_feeds _) (b.length + 1)) ts _ _ htracks seen r h
  exact ⟨u', htrace⟩

theorem fileUnpacker_gives {b : List UInt8} {ts : List PackableType} {seen : List (Result R)}
    {r : Reader} (h : trace (caught (PackableType.reads R)) ts (.ok b) = some (seen, r)) :
    FileGives R b ts seen := by
  intro realloc results errno u hheap hread
  have hlt : (1024 : Nat) < 2 ^ 64 := by decide
  obtain ⟨hrc, hfed, hbarrier⟩ := fileFed_init hheap hlt ⟨b, 0, errno⟩ u
  obtain ⟨u', htrace, -⟩ := trace_caught_of_follows
    (PackableType.unpack_follows (file_feeds hheap hread) (b.length + 1)) ts
    (cwFileUnpacker realloc ⟨b, 0, errno⟩ u) (.ok b)
    ⟨hrc, ⟨hfed, hbarrier⟩, Nat.lt_succ_self _⟩ seen r h
  exact ⟨u', htrace⟩

end Giving

/-! ## A host -/

theorem fromUTF8?_utf8 (x : String) : String.fromUTF8? ⟨(utf8 x).toArray⟩ = some x := by
  have hbytes : (⟨(utf8 x).toArray⟩ : ByteArray) = x.toByteArray := by
    rw [← String.utf8Encode_toList, List.utf8Encode, utf8]
    ext1
    simp
  rw [hbytes]
  exact dif_pos x.isValidUTF8

/-- `==` of IEEE 754, on bit patterns with the sign bit `sign`: no NaN equals anything, and the
zeros are equal. -/
def numberEq (sign infinity a b : Nat) : Bool :=
  decide (a % sign ≤ infinity ∧ b % sign ≤ infinity ∧ (a = b ∨ a % sign = 0 ∧ b % sign = 0))

/-- The machine Lean runs on, with the comparisons and the conversions of `int` written out; a
date is its time interval. -/
def hostRuntime : Runtime where
  floatUnit := { FloatUnit.native with
    floatOfInt := fun i =>
      if 0 ≤ i.toInt then FloatUnit.native.floatOfUInt64 (.ofNat i.toInt.toNat)
      else FloatUnit.native.floatOfInt64 (.ofInt i.toInt)
    doubleOfInt := fun i =>
      if 0 ≤ i.toInt then FloatUnit.native.doubleOfUInt64 (.ofNat i.toInt.toNat)
      else FloatUnit.native.doubleOfInt64 (.ofInt i.toInt)
    floatEq := fun a b => numberEq 0x80000000 0x7f800000 a.toNat b.toNat
    doubleEq := fun a b => numberEq 0x8000000000000000 0x7ff0000000000000 a.toNat b.toNat }
  nsString bytes := String.fromUTF8? ⟨bytes.toArray⟩
  stringEq := (· == ·)
  timeIntervalSince1970 d := d
  dateSince1970 ti := ti

theorem hostRuntime_decodesUtf8 : hostRuntime.DecodesUtf8 := fun x _ => fromUTF8?_utf8 x

/-! ## What unpackers give -/

/-- Both unpackers give what the reader of the bytes gives, in whatever order types are asked
for: the same values, and the same errors. -/
theorem unpackers_give_what_is_read {R : Runtime} {b : List UInt8} {ts : List PackableType}
    {seen : List (Result R)} {r : Reader}
    (h : trace (caught (PackableType.reads R)) ts (.ok b) = some (seen, r)) :
    DataGives R b ts seen ∧ FileGives R b ts seen :=
  ⟨dataUnpacker_gives h, fileUnpacker_gives h⟩

/-- Two flags; then a number too large for the type asked for, which stops everything. -/
theorem unpackers_refuse_after_flags :
    let b := [0x92, 0xc3, 0xc2, 0xcd, 0x01, 0x2c, 0xc0]
    let flags := PackableType.array (.basic .bool)
    let byte := PackableType.basic (.integer .int8)
    let seen : List (Result hostRuntime) := [⟨flags, .ok [true, false]⟩,
      ⟨byte, .error (.unpackerError "Int8")⟩, ⟨.basic .cwNil, .error (.unpackerError "CWNil")⟩]
    DataGives hostRuntime b [flags, byte, .basic .cwNil] seen ∧
      FileGives hostRuntime b [flags, byte, .basic .cwNil] seen :=
  unpackers_give_what_is_read rfl

/-! ## Bytes that values have been packed to -/

section Packed

variable {R : Runtime} {xs : List (Packable R)}

/-- The bytes of the calls. -/
def encoded (cs : List PackCall) : List UInt8 := concat (encodings false (cs.map .call))

theorem received_calls (cs : List PackCall) :
    received false (cs.map .call) = cs.map (PackCall.received false) := by
  induction cs with
  | nil => rfl
  | cons c cs ih => exact congrArg _ ih

theorem legal_calls {cs : List PackCall} (h : ∀ c ∈ cs, Sound c) :
    Legal false (cs.map .call) := by
  induction cs with
  | nil => exact fun enc henc => absurd henc List.not_mem_nil
  | cons c cs ih =>
      intro enc henc
      rcases List.mem_cons.mp henc with rfl | henc
      · exact (h c List.mem_cons_self).legal
      · exact ih (fun d hd => h d (List.mem_cons_of_mem c hd)) enc henc

theorem spellsOut_calls {cs : List PackCall} (h : ∀ c ∈ cs, Sound c) :
    SpellsOut (cs.map (PackCall.received false)) (encoded cs) := by
  rw [← received_calls]
  refine spellsOut_encodings (fun op hop => ?_) (legal_calls h)
  obtain ⟨c, hc, rfl⟩ := List.mem_map.mp hop
  exact (h c hc).notTime

/-- The values come back, and then everything throws. -/
theorem reads_returned (hutf8 : R.DecodesUtf8) (h : ∀ x ∈ xs, x.Fits) {b : List UInt8}
    (hb : SpellsOut ((xs.flatMap Packable.calls).map (PackCall.received false)) b)
    (more : List PackableType) :
    ∃ thrown r, trace (caught (PackableType.reads R)) (xs.map Packable.type ++ more) (.ok b) =
      some (xs.map Packable.returned ++ thrown, r) ∧ ∀ o ∈ thrown, Threw o := by
  obtain ⟨-, -, hreads⟩ := Packable.spoken hutf8 h
  rw [← List.append_nil (List.map _ _)] at hb
  obtain ⟨b', htrace, hrest⟩ := hreads [] b hb
  obtain rfl : b' = [] := hrest
  obtain ⟨thrown, r, hmore, hthrew, -⟩ := trace_caught_of_broken
    PackableType.reads_of_exhausted more (.ok []) (Or.inl rfl)
  refine ⟨thrown, r, ?_, hthrew⟩
  rw [trace_append, htrace, Option.bind_some, hmore]
  rfl

/-- Of a part of the bytes the first values come back, and then everything throws. -/
theorem reads_of_part_returned (hutf8 : R.DecodesUtf8) (h : ∀ x ∈ xs, x.Fits) {b p : List UInt8}
    (hb : SpellsOut ((xs.flatMap Packable.calls).map (PackCall.received false)) b)
    (hp : p <+: b) (more : List PackableType) :
    ∃ k thrown r, trace (caught (PackableType.reads R)) (xs.map Packable.type ++ more) (.ok p) =
      some ((xs.map Packable.returned).take k ++ thrown, r) ∧ ∀ o ∈ thrown, Threw o := by
  obtain ⟨thrown, r, hwhole, hthrew⟩ := reads_returned hutf8 h hb more
  obtain ⟨k, thrown', r', hpart, hthrew', -⟩ := trace_caught_of_follows_or_broken
    PackableType.reads_of_part PackableType.reads_of_exhausted _ (.ok p) (.ok b)
    (Or.inl ⟨p, b, rfl, rfl, hp⟩) _ r hwhole
  rw [List.take_append, List.append_assoc] at hpart
  refine ⟨k, _, r', hpart, fun o ho => ?_⟩
  rcases List.mem_append.mp ho with ho | ho
  · exact hthrew o (List.mem_of_mem_take ho)
  · exact hthrew' o ho

end Packed

/-! ## Through a block of data -/

/-- The data are the encodings of the values. -/
theorem cwDataPacker_packs {R : Runtime} (hutf8 : R.DecodesUtf8) {malloc : Allocator}
    (hheap : ∀ i n, (malloc i n).isSome) {xs : List (Packable R)} (h : ∀ x ∈ xs, x.Fits)
    (hsize : (encoded (xs.flatMap Packable.calls)).length < 2 ^ 62)
    (s : PackState DynamicMemoryPackEnv) :
    ∃ s', run (Packable.cwPack (dynamicMemoryPackHandlers 64 malloc)) xs (cwDataPacker malloc s) =
        some s' ∧ s'.pc.returnCode = cwpRcOk ∧
      packedData s' = encoded (xs.flatMap Packable.calls) := by
  obtain ⟨hsound, hpacks, -⟩ := Packable.spoken hutf8 h
  have hlt : (1024 : Nat) < 2 ^ 64 := by decide
  obtain ⟨hlog, hcompat⟩ := dynamicLog_init hheap hlt s
  have hrun := (dynamic_sinks hheap).run ((xs.flatMap Packable.calls).map .call)
    (fun op hop => by
      obtain ⟨c, hc, rfl⟩ := List.mem_map.mp hop
      exact (hsound c hc).short) hlog (by rw [hcompat]; exact legal_calls hsound)
    (by
      rw [hcompat, List.length_nil]
      unfold encoded at hsize
      omega)
  obtain ⟨s', hcall, hlog', -⟩ := hrun.exists_of_not_stuck
  rw [hcompat, List.nil_append] at hlog'
  refine ⟨s', (hpacks _ _ _).trans hcall, hlog'.returnCode, ?_⟩
  rw [packedData, hlog'.current, Nat.add_sub_cancel_left]
  exact hlog'.bytes

/-- What a `CWDataPacker` has packed comes back from its data, through either unpacker; a plain
value as it was.  What is asked for behind the values is refused. -/
theorem cwDataPacker_then_unpackers {R : Runtime} (hutf8 : R.DecodesUtf8) {malloc : Allocator}
    (hheap : ∀ i n, (malloc i n).isSome) {xs : List (Packable R)} (h : ∀ x ∈ xs, x.Fits)
    (hsize : (encoded (xs.flatMap Packable.calls)).length < 2 ^ 62)
    (s : PackState DynamicMemoryPackEnv) :
    ∃ s', run (Packable.cwPack (dynamicMemoryPackHandlers 64 malloc)) xs (cwDataPacker malloc s) =
        some s' ∧ s'.pc.returnCode = cwpRcOk ∧
      (∀ more, ∃ thrown : List (Result R), (∀ o ∈ thrown, Threw o) ∧
        DataGives R (packedData s') (xs.map Packable.type ++ more)
          (xs.map Packable.returned ++ thrown) ∧
        FileGives R (packedData s') (xs.map Packable.type ++ more)
          (xs.map Packable.returned ++ thrown)) ∧
      ∀ x ∈ xs, x.type.Plain R x.optimizeReal x.value → x.returned = ⟨x.type, .ok x.value⟩ := by
  obtain ⟨hsound, -, -⟩ := Packable.spoken hutf8 h
  obtain ⟨s', hcall, hrc, hdata⟩ := cwDataPacker_packs hutf8 hheap h hsize s
  refine ⟨s', hcall, hrc, fun more => ?_, fun x hx hplain => ?_⟩
  · obtain ⟨thrown, r, htrace, hthrew⟩ := reads_returned hutf8 h (spellsOut_calls hsound) more
    rw [hdata]
    exact ⟨thrown, hthrew, dataUnpacker_gives htrace, fileUnpacker_gives htrace⟩
  · rw [Packable.returned, x.type.received_of_plain hutf8 (h x hx) hplain]

/-- A dictionary and an array in one block. -/
theorem cwDataPacker_then_unpackers_dictionary :
    let ages : PackableType := .dictionary .string (.basic (.integer .uint16))
    let d : Dictionary hostRuntime .string (Integer .uint16) :=
      ⟨[("Ada", .returned _ 300), ("Bo", .returned _ 7)], by decide⟩
    let xs : List (Packable hostRuntime) :=
      [⟨true, ages, d⟩, ⟨false, .array (.basic .string), ["Ada"]⟩]
    ∃ s', run (Packable.cwPack (dynamicMemoryPackHandlers 64 (fixedHeap 0))) xs
        (cwDataPacker (fixedHeap 0) blankDynamic) = some s' ∧ s'.pc.returnCode = cwpRcOk ∧
      (∀ more, ∃ thrown : List (Result hostRuntime), (∀ o ∈ thrown, Threw o) ∧
        DataGives hostRuntime (packedData s') (xs.map Packable.type ++ more)
          (xs.map Packable.returned ++ thrown) ∧
        FileGives hostRuntime (packedData s') (xs.map Packable.type ++ more)
          (xs.map Packable.returned ++ thrown)) ∧
      ∀ x ∈ xs, x.type.Plain hostRuntime x.optimizeReal x.value →
        x.returned = ⟨x.type, .ok x.value⟩ := by
  intro ages d xs
  refine cwDataPacker_then_unpackers hostRuntime_decodesUtf8 (fun _ _ => rfl) ?_ (by decide) _
  intro x hx
  simp only [xs, List.mem_cons, List.not_mem_nil, or_false] at hx
  rcases hx with rfl | rfl
  · refine ⟨by decide, fun e he => ?_⟩
    simp only [d, List.mem_cons, List.not_mem_nil, or_false] at he
    rcases he with rfl | rfl <;> exact ⟨⟨by decide, by decide⟩, by decide, trivial⟩
  · refine ⟨by decide, fun e he => ?_⟩
    obtain rfl := List.mem_singleton.mp he
    exact ⟨by decide, by decide⟩

/-! ## Through a file -/

namespace FilePackerOp

variable {R : Runtime}

/-- The value that is packed. -/
def value : FilePackerOp R → List (Packable R)
  | pack x => [x]
  | flush => []

/-- The operations on the context. -/
def contextOps : FilePackerOp R → List FilePackOp
  | pack x => x.calls.map fun c => .pack (.call c)
  | flush => [.flush]

/-- The values that are packed. -/
abbrev values (ops : List (FilePackerOp R)) : List (Packable R) := ops.flatMap value

theorem filePacks_append (ops ops' : List FilePackOp) :
    filePacks (ops ++ ops') = filePacks ops ++ filePacks ops' := by
  induction ops with
  | nil => rfl
  | cons op ops ih =>
      cases op with
      | pack op => exact congrArg _ ih
      | _ => exact ih

theorem filePacks_calls (cs : List PackCall) :
    filePacks (cs.map fun c => .pack (.call c)) = cs.map .call := by
  induction cs with
  | nil => rfl
  | cons c cs ih => exact congrArg _ ih

/-- The context packs the calls of the values. -/
theorem filePacks_contextOps (ops : List (FilePackerOp R)) :
    filePacks (ops.flatMap contextOps) = ((values ops).flatMap Packable.calls).map .call := by
  induction ops with
  | nil => rfl
  | cons op ops ih =>
      have hvalues : values (op :: ops) = op.value ++ values ops := List.flatMap_cons
      rw [hvalues, List.flatMap_cons, filePacks_append, ih, List.flatMap_append, List.map_append]
      cases op with
      | pack x =>
          rw [contextOps, filePacks_calls, value, List.flatMap_singleton]
      | flush => rfl

/-- A packer does to its context what its operations say. -/
theorem run_perform (hutf8 : R.DecodesUtf8) (H : PackHandlers FilePackEnv)
    {ops : List (FilePackerOp R)} (h : ∀ x ∈ values ops, x.Fits) (s : PackState FilePackEnv) :
    run (perform H) ops s = run (FilePackOp.perform H) (ops.flatMap contextOps) s := by
  induction ops generalizing s with
  | nil => rfl
  | cons op ops ih =>
      have hrest : ∀ x ∈ values ops, x.Fits := fun x hx => h x (by
        rw [values, List.flatMap_cons]
        exact List.mem_append_right _ hx)
      have hone : perform H op s = run (FilePackOp.perform H) op.contextOps s := by
        cases op with
        | pack x =>
            have hx : x.Fits := h x (by simp [values, value])
            rw [contextOps, run_map]
            refine ((x.type.spoken x.optimizeReal hutf8 hx).packs _ H s).trans ?_
            rw [run_map]
            rfl
        | flush =>
            show cwPackFlush H s = run (FilePackOp.perform H) [.flush] s
            simp only [run, FilePackOp.perform]
            cases cwPackFlush H s <;> rfl
      rw [List.flatMap_cons, run_append, ← hone, run]
      cases perform H op s with
      | none => rfl
      | some s' => exact ih hrest s'

end FilePackerOp

/-- At any moment of a run, and after the packer is gone, a `CWFileUnpacker` on what the
descriptor has accepted gives the first values packed, and then throws; where the run has ended
OK, it gives them all. -/
theorem cwFilePacker_then_cwFileUnpacker {R : Runtime} (hutf8 : R.DecodesUtf8)
    {malloc : Allocator} (hheap : ∀ i n p, malloc i n = some p → n < 2 ^ 63)
    (results : WriteResults) (s₀ : PackState FilePackEnv)
    (hok : (cwFilePacker malloc s₀).pc.returnCode = cwpRcOk) {ops : List (FilePackerOp R)}
    (h : ∀ x ∈ FilePackerOp.values ops, x.Fits) :
    let H := filePackHandlers 64 malloc results
    let returned := (FilePackerOp.values ops).map Packable.returned
    let types := (FilePackerOp.values ops).map Packable.type
    ∃ s₁ s₂, run (FilePackerOp.perform H) ops (cwFilePacker malloc s₀) = some s₁ ∧
      terminateFilePackContext H s₁ = some s₂ ∧
      (∀ s ∈ [s₁, s₂], ∀ more, ∃ k, ∃ thrown : List (Result R), (∀ o ∈ thrown, Threw o) ∧
        FileGives R s.env.fileDescriptor.accepted (types ++ more) (returned.take k ++ thrown)) ∧
      (s₂.pc.returnCode = cwpRcOk → ∀ more, ∃ thrown : List (Result R), (∀ o ∈ thrown, Threw o) ∧
        FileGives R s₂.env.fileDescriptor.accepted (types ++ more) (returned ++ thrown)) := by
  intro H returned types
  obtain ⟨hsound, -, -⟩ := Packable.spoken hutf8 h
  have hpacks := FilePackerOp.filePacks_contextOps ops
  have hreadable : Readable (ops.flatMap FilePackerOp.contextOps) := by
    intro op hop
    rw [hpacks] at hop
    obtain ⟨c, hc, rfl⟩ := List.mem_map.mp hop
    exact ⟨(hsound c hc).notTime, (hsound c hc).short⟩
  obtain ⟨s₁, s₂, log, vs, hrun, hterm, hspell, hprefix, hparts, hend⟩ :=
    file_pack_spells hheap results 1024 s₀ hok hreadable
  rw [hpacks, received_calls] at hprefix hend
  refine ⟨s₁, s₂, (FilePackerOp.run_perform hutf8 H h _).trans hrun, hterm, ?_, ?_⟩
  · intro s hs more
    obtain ⟨ws, hws⟩ := hprefix
    -- the log goes on to what spells out all the values
    have hrest : ws = (((FilePackerOp.values ops).flatMap Packable.calls).drop vs.length).map
        (PackCall.received false) := by
      rw [List.map_drop, ← hws, List.drop_left]
    have hall := hspell.append (spellsOut_calls fun c hc =>
      hsound c (List.mem_of_mem_drop (i := vs.length) hc))
    rw [← hrest, hws] at hall
    obtain ⟨k, thrown, r, htrace, hthrew⟩ := reads_of_part_returned hutf8 h hall
      ((hparts s hs).trans (List.prefix_append _ _)) more
    exact ⟨k, thrown, hthrew, fileUnpacker_gives htrace⟩
  · intro hrc more
    obtain ⟨hlog, rfl⟩ := hend hrc
    rw [hlog]
    obtain ⟨thrown, r, htrace, hthrew⟩ := reads_returned hutf8 h hspell more
    exact ⟨thrown, hthrew, fileUnpacker_gives htrace⟩

/-- A descriptor that takes one byte at its second call. -/
theorem cwFilePacker_then_cwFileUnpacker_short_write :
    let H := filePackHandlers 64 (boundedHeap 0) shortSecondWrite
    let ops : List (FilePackerOp hostRuntime) := [.pack ⟨true, .array (.basic .bool), [true, false]⟩,
      .flush, .pack ⟨true, .basic .data, [1, 2, 3]⟩]
    let returned := (FilePackerOp.values ops).map Packable.returned
    let types := (FilePackerOp.values ops).map Packable.type
    ∃ s₁ s₂, run (FilePackerOp.perform H) ops (cwFilePacker (boundedHeap 0) blankFile) = some s₁ ∧
      terminateFilePackContext H s₁ = some s₂ ∧
      (∀ s ∈ [s₁, s₂], ∀ more, ∃ k, ∃ thrown : List (Result hostRuntime),
        (∀ o ∈ thrown, Threw o) ∧ FileGives hostRuntime s.env.fileDescriptor.accepted
          (types ++ more) (returned.take k ++ thrown)) ∧
      (s₂.pc.returnCode = cwpRcOk → ∀ more, ∃ thrown : List (Result hostRuntime),
        (∀ o ∈ thrown, Threw o) ∧ FileGives hostRuntime s₂.env.fileDescriptor.accepted
          (types ++ more) (returned ++ thrown)) := by
  have hheap : ∀ i n p, boundedHeap 0 i n = some p → n < 2 ^ 63 := by
    intro i n p h
    unfold boundedHeap at h
    split at h
    · assumption
    · simp at h
  refine cwFilePacker_then_cwFileUnpacker hostRuntime_decodesUtf8 hheap shortSecondWrite blankFile
    rfl fun x hx => ?_
  simp only [FilePackerOp.values, FilePackerOp.value, List.flatMap_cons, List.flatMap_nil,
    List.append_nil, List.nil_append, List.singleton_append, List.mem_cons, List.not_mem_nil,
    or_false] at hx
  rcases hx with rfl | rfl
  · exact ⟨by decide, fun _ _ => trivial⟩
  · exact (by decide : 3 < 2 ^ 32 - 6)

end CWPack.Swift
