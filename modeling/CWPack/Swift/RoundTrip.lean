/-
  Swift/RoundTrip.lean --- what is packed is unpacked again.

  `Spoken pack read y cs`: packing performs the calls `cs`, and reading what they
  spell out gives `y`.  It goes through sequencing and loops, so a packable type
  is spoken if its elements are.  `received` is the value that comes back: what a
  basic type makes of the value it has packed, element by element.  A plain value
  comes back as it was.
-/
import Mathlib.Data.List.TakeWhile
import CWPack.Core.Spelling
import CWPack.Foundation.Utf8
import CWPack.Swift.Reading

set_option autoImplicit false

namespace CWPack.Swift

open CWPack.Foundation
open CWPack.Core
open CWPack.Goodies
open CWPack.MessagePack

variable {σ α β ι : Type}

/-! ## Spoken values -/

/-- A call that is encoded, and read back. -/
structure Sound (c : PackCall) : Prop where
  legal : ∃ bs, c.encoding false = .ok bs
  short : (PackOp.call c).Short
  notTime : ¬ c.IsTimestampExt

/-- The packing performs the calls, and the reader makes `y` of what they spell out. -/
structure Spoken (pack : (σ : Type) → PackHandlers σ → PackState σ → Option (PackState σ))
    (read : Throwing CWPackError Reader β) (y : β) (cs : List PackCall) : Prop where
  packs : ∀ (σ : Type) (H : PackHandlers σ) (s : PackState σ),
    pack σ H s = run (PackOp.perform H) (cs.map .call) s
  sound : ∀ c ∈ cs, Sound c
  reads : ∀ (vs : List Value) (b : List UInt8),
    SpellsOut (cs.map (PackCall.received false) ++ vs) b →
      ∃ b', read.perform (.ok b) = some (.ok y, .ok b') ∧ SpellsOut vs b'

namespace Spoken

theorem pure (y : β) : Spoken (fun _ _ s => some s) (Pure.pure y) y [] where
  packs := fun _ _ _ => rfl
  sound := fun _ hc => absurd hc List.not_mem_nil
  reads := fun _ b h => ⟨b, rfl, h⟩

/-- One after the other. -/
theorem bind {pack pack' : (σ : Type) → PackHandlers σ → PackState σ → Option (PackState σ)}
    {read : Throwing CWPackError Reader α} {k : α → Throwing CWPackError Reader β} {x : α} {y : β}
    {cs cs' : List PackCall} (h : Spoken pack read x cs) (h' : Spoken pack' (k x) y cs') :
    Spoken (fun σ H s => (pack σ H s).bind (pack' σ H)) (read >>= k) y (cs ++ cs') where
  packs := by
    intro σ H s
    rw [List.map_append, run_append, h.packs]
    exact congrArg _ (funext fun s => h'.packs σ H s)
  sound := fun c hc => (List.mem_append.mp hc).elim (h.sound c) (h'.sound c)
  reads := by
    intro vs b hb
    rw [List.map_append, List.append_assoc] at hb
    obtain ⟨b', hread, hb'⟩ := h.reads _ b hb
    obtain ⟨b'', hread', hb''⟩ := h'.reads vs b' hb'
    exact ⟨b'', by rw [perform_bind_of_ok hread, hread'], hb''⟩

/-- The same, with what is read changed. -/
theorem map {pack : (σ : Type) → PackHandlers σ → PackState σ → Option (PackState σ)}
    {read : Throwing CWPackError Reader α} {x : α} {cs : List PackCall} (h : Spoken pack read x cs)
    (f : α → β) : Spoken pack (do let x ← read; return f x) (f x) cs where
  packs := h.packs
  sound := h.sound
  reads := by
    intro vs b hb
    obtain ⟨b', hread, hb'⟩ := h.reads vs b hb
    exact ⟨b', perform_bind_of_ok hread _, hb'⟩

/-- A loop over items against a counting loop. -/
theorem loop {p : ι → (σ : Type) → PackHandlers σ → PackState σ → Option (PackState σ)}
    {k : β → Throwing CWPackError Reader β} {f : β → ι → β} {c : ι → List PackCall}
    {items : List ι} (h : ∀ i ∈ items, ∀ acc, Spoken (p i) (k acc) (f acc i) (c i)) (acc : β) :
    Spoken (fun σ H s => run (fun i s => p i σ H s) items s)
      (repeated k items.length acc) (items.foldl f acc) (items.flatMap c) := by
  induction items generalizing acc with
  | nil => exact pure acc
  | cons i items ih =>
      have hone := h i List.mem_cons_self acc
      have hrest := ih (fun j hj => h j (List.mem_cons_of_mem i hj)) (f acc i)
      refine ⟨?_, (hone.bind hrest).sound, (hone.bind hrest).reads⟩
      intro σ H s
      refine Eq.trans ?_ ((hone.bind hrest).packs σ H s)
      simp only [run]
      cases p i σ H s <;> rfl

end Spoken

/-! ## Basic types -/

section Basic

variable (R : Runtime) (optimizeReal : Bool)

/-- The call of `cw_pack_float_opt`. -/
def floatOptCall (F : FloatUnit) (f : UInt32) : PackCall :=
  let i := F.intOfFloat f
  if F.floatEq (F.floatOfInt i) f ∧ i.toInt ≥ -2 ^ 15 ∧ i.toInt ≤ 2 ^ 16 - 1 then
    .signed i.toInt64
  else .float f

/-- The call of `cw_pack_double_opt`. -/
def doubleOptCall (F : FloatUnit) (d : UInt64) : PackCall :=
  let i := F.intOfDouble d
  if F.doubleEq (F.doubleOfInt i) d ∧ i.toInt ≥ -2 ^ 31 ∧ i.toUInt32.toNat ≤ 2 ^ 32 - 1 then
    .signed i.toInt64
  else if F.doubleEq (F.doubleOfFloat (F.floatOfDouble d)) d then .float (F.floatOfDouble d)
  else .double d

/-- The seconds and nanoseconds of `cw_pack_time_interval`. -/
def timeIntervalParts (F : FloatUnit) (ti : UInt64) : Int64 × UInt32 :=
  let sec := F.int64OfDouble (F.floor ti)
  (sec, F.uint32OfDouble (F.mul (F.sub ti (F.doubleOfInt64 sec)) doubleBillion))

/-- The call of a basic type; `none` where it traps. -/
def BasicType.call : (t : BasicType) → t.Carrier → Option PackCall
  | cwNil, _ => some .nil
  | arrayHeader, x => (exactUInt32 x.count).map .arraySize
  | dictionaryHeader, x => some (.mapSize x.count)
  | msgPackExt, x => (exactBlob x.data).map (.ext x.type)
  | bool, b => some (.boolean b)
  | integer t, i =>
      some (if t.isSigned then .signed (.ofInt i.value) else .unsigned (.ofNat i.value.toNat))
  | float, f => some (if optimizeReal then floatOptCall R.floatUnit f else .float f)
  | double, d => some (if optimizeReal then doubleOptCall R.floatUnit d else .double d)
  | date, d =>
      let parts := timeIntervalParts R.floatUnit (R.timeIntervalSince1970 d)
      some (.time parts.1 parts.2)
  | data, bytes => (exactBlob bytes).map .bin
  | string, x => (exactBlob ((utf8 x).takeWhile (· ≠ 0))).map .str

variable {R optimizeReal}

theorem cwPackFloatOpt_eq (F : FloatUnit) (H : PackHandlers σ) (f : UInt32) (s : PackState σ) :
    cwPackFloatOpt F H f s = Core.cwPack H (floatOptCall F f) s := by
  unfold cwPackFloatOpt floatOptCall
  simp only
  split <;> rfl

theorem cwPackDoubleOpt_eq (F : FloatUnit) (H : PackHandlers σ) (d : UInt64) (s : PackState σ) :
    cwPackDoubleOpt F H d s = Core.cwPack H (doubleOptCall F d) s := by
  unfold cwPackDoubleOpt doubleOptCall
  simp only
  split
  · rfl
  · split <;> rfl

/-- A basic type packs by its call. -/
theorem BasicType.cwPack_eq (H : PackHandlers σ) (t : BasicType) (x : t.Carrier)
    (s : PackState σ) : t.cwPack R optimizeReal H x s =
      (t.call R optimizeReal x).bind fun c => Core.cwPack H c s := by
  cases t with
  | arrayHeader =>
      simp only [cwPack, call]
      cases exactUInt32 x.count <;> rfl
  | msgPackExt =>
      simp only [cwPack, call]
      cases exactBlob x.data <;> rfl
  | data =>
      simp only [cwPack, call]
      cases exactBlob x <;> rfl
  | string =>
      simp only [cwPack, call]
      cases exactBlob ((utf8 x).takeWhile (· ≠ 0)) <;> rfl
  | integer t =>
      simp only [cwPack, call, Option.bind_some]
      cases t.isSigned <;> rfl
  | float =>
      simp only [cwPack, call, Option.bind_some]
      cases optimizeReal
      · rfl
      · exact cwPackFloatOpt_eq _ _ _ _
  | double =>
      simp only [cwPack, call, Option.bind_some]
      cases optimizeReal
      · rfl
      · exact cwPackDoubleOpt_eq _ _ _ _
  | _ => rfl

/-- The value that comes back: what the type makes of the one it packs. -/
def BasicType.received (R : Runtime) (optimizeReal : Bool) (t : BasicType) (x : t.Carrier) :
    t.Carrier :=
  (((t.call R optimizeReal x).bind fun c => t.accept R (c.received false)).bind
    Except.toOption).getD x

/-- The characters before the first NUL. -/
def beforeNul (x : String) : String := .ofList (x.toList.takeWhile (· ≠ '\x00'))

/-- What can be packed and unpacked.  A payload leaves room for its header, an extension is
no timestamp, a string does not begin with a byte order mark, and the nanoseconds of a
date are less than a second. -/
def BasicType.Fits (R : Runtime) : (t : BasicType) → t.Carrier → Prop
  | arrayHeader, x => 0 ≤ x.count ∧ x.count < 2 ^ 32
  | msgPackExt, x => x.type ≠ -1 ∧ x.data.length < 2 ^ 32 - 6
  | date, d =>
      (timeIntervalParts R.floatUnit (R.timeIntervalSince1970 d)).2.toNat < 1000000000
  | data, bytes => bytes.length < 2 ^ 32 - 6
  | string, x => x.toList.head? ≠ some '\ufeff' ∧ (utf8 (beforeNul x)).length < 2 ^ 32 - 6
  | _, _ => True

/-- What comes back as it was: no date, no string with a NUL in it, and a real number only
where it is packed as it is. -/
def BasicType.Plain (optimizeReal : Bool) : (t : BasicType) → t.Carrier → Prop
  | float, _ => optimizeReal = false
  | double, _ => optimizeReal = false
  | date, _ => False
  | string, x => '\x00' ∉ x.toList
  | _, _ => True

/-- Foundation decodes UTF-8; it takes a byte order mark at the beginning for no part of the
string. -/
def Runtime.DecodesUtf8 (R : Runtime) : Prop :=
  ∀ x : String, x.toList.head? ≠ some '\ufeff' → R.nsString (utf8 x) = some x

theorem utf8_beforeNul (x : String) : (utf8 x).takeWhile (· ≠ 0) = utf8 (beforeNul x) := by
  rw [utf8, takeWhile_ne_zero_utf8, utf8, beforeNul, String.toList_ofList]

theorem beforeNul_of_not_mem {x : String} (h : '\x00' ∉ x.toList) : beforeNul x = x := by
  have htake : x.toList.takeWhile (· ≠ '\x00') = x.toList :=
    List.takeWhile_eq_self_iff.mpr fun u hu => decide_eq_true fun hzero => h (hzero ▸ hu)
  rw [beforeNul, htake, String.ofList_toList]

theorem head_beforeNul {x : String} {u : Char} (h : x.toList.head? ≠ some u) :
    (beforeNul x).toList.head? ≠ some u := by
  rw [beforeNul, String.toList_ofList]
  cases hx : x.toList with
  | nil => simp
  | cons c cs =>
      rw [hx] at h
      by_cases hc : c = '\x00'
      · simp [hc]
      · rw [List.takeWhile_cons_of_pos (by simpa using hc)]
        exact h

/-- Every character takes a byte at least. -/
theorem eq_empty_of_utf8 {x : String} (h : (utf8 x).length = 0) : x = "" := by
  rw [← String.toList_inj]
  cases hx : x.toList with
  | nil => rfl
  | cons u us =>
      have hpos := Char.utf8Size_pos u
      rw [utf8, hx, List.flatMap_cons, List.length_append, String.length_utf8EncodeChar] at h
      omega

theorem exactBlob_of_lt {bytes : List UInt8} (h : bytes.length < 2 ^ 32) :
    exactBlob bytes = some ⟨bytes, h⟩ := dif_pos h

/-- A number is packed as a number, whatever the machine computes. -/
theorem floatOptCall_cases (F : FloatUnit) (f : UInt32) :
    (∃ i : Int32, F.floatEq (F.floatOfInt i) f ∧ floatOptCall F f = .signed i.toInt64) ∨
      floatOptCall F f = .float f := by
  unfold floatOptCall
  simp only
  split
  · rename_i hint
    exact Or.inl ⟨_, hint.1, rfl⟩
  · exact Or.inr rfl

theorem doubleOptCall_cases (F : FloatUnit) (d : UInt64) :
    (∃ i : Int32, F.doubleEq (F.doubleOfInt i) d ∧ doubleOptCall F d = .signed i.toInt64) ∨
      (∃ f, F.doubleEq (F.doubleOfFloat f) d ∧ doubleOptCall F d = .float f) ∨
      doubleOptCall F d = .double d := by
  unfold doubleOptCall
  simp only
  split
  · rename_i hint
    exact Or.inl ⟨_, hint.1, rfl⟩
  · split
    · rename_i hfloat
      exact Or.inr (Or.inl ⟨_, hfloat, rfl⟩)
    · exact Or.inr (Or.inr rfl)

theorem sound_of_payload_zero {c : PackCall} (hrefusal : c.refusal false = none)
    (hpayload : c.payload = 0) (htime : ¬ c.IsTimestampExt) : Sound c where
  legal := ⟨encode false c.value, by rw [PackCall.encoding, hrefusal]⟩
  short := by
    show c.payload < 2 ^ 32 - 6
    rw [hpayload]
    decide
  notTime := htime

theorem sound_str (v : Blob) (h : v.bytes.length < 2 ^ 32 - 6) : Sound (.str v) :=
  ⟨⟨_, rfl⟩, h, id⟩

theorem exactUInt32_natCast {n : Nat} (h : n < 2 ^ 32) :
    exactUInt32 (n : Int) = some (.ofNat n) := by
  rw [exactUInt32, if_pos ⟨Int.natCast_nonneg n, by omega⟩, Int.toNat_natCast]

/-- A number of an integer type is packed as itself. -/
theorem Integer.call_value {t : IntegerType} (i : Integer t) :
    (if t.isSigned then PackCall.signed (.ofInt i.value) else .unsigned (.ofNat i.value.toNat)).received
      false = .int i.value := by
  have hlo := i.least_le
  have hhi := i.le_greatest
  have hsigned : t.isSigned = true → -2 ^ 63 ≤ t.routine.least ∧ t.routine.greatest < 2 ^ 63 := by
    cases t <;> decide
  have hunsigned : t.isSigned = false → t.routine.least = 0 ∧ t.routine.greatest < 2 ^ 64 := by
    cases t <;> decide
  cases hsign : t.isSigned with
  | true =>
      obtain ⟨hleast, hgreatest⟩ := hsigned hsign
      exact congrArg Value.int (Int64.toInt_ofInt_of_le (by omega) (by omega))
  | false =>
      obtain ⟨hleast, hgreatest⟩ := hunsigned hsign
      have hlt : i.value.toNat < UInt64.size := by
        show i.value.toNat < 2 ^ 64
        omega
      have hvalue : ((UInt64.ofNat i.value.toNat).toNat : Int) = i.value := by
        rw [UInt64.toNat_ofNat_of_lt' hlt]
        omega
      exact congrArg Value.int hvalue

/-- Of the bytes of a string the type makes the string. -/
theorem accept_str (hutf8 : R.DecodesUtf8) (v : Blob) {x : String} (hv : v.bytes = utf8 x)
    (h : x.toList.head? ≠ some '\ufeff') :
    BasicType.string.accept R ((PackCall.str v).received false) = some (.ok x) := by
  show (if v.bytes.length > 0 then (R.nsString v.bytes).map Except.ok else some (.ok "")) = _
  rw [hv]
  split
  · rw [hutf8 x h]
    rfl
  · rename_i hpos
    rw [eq_empty_of_utf8 (Nat.eq_zero_of_not_pos hpos)]

variable (optimizeReal) in
/-- What fits is packed by a sound call, of which the type makes a value; of a plain value it
makes the same one. -/
theorem BasicType.call_accepted (hutf8 : R.DecodesUtf8) (t : BasicType) {x : t.Carrier}
    (h : t.Fits R x) : ∃ c y, t.call R optimizeReal x = some c ∧ Sound c ∧
      t.accept R (c.received false) = some (.ok y) ∧ (t.Plain optimizeReal x → y = x) := by
  cases t with
  | cwNil => exact ⟨.nil, _, rfl, sound_of_payload_zero rfl rfl id, rfl, fun _ => rfl⟩
  | arrayHeader =>
      obtain ⟨hlo, hhi⟩ := h
      obtain ⟨n, hn⟩ := Int.eq_ofNat_of_zero_le hlo
      have hlt : n < UInt32.size := by
        show n < 2 ^ 32
        omega
      refine ⟨.arraySize (.ofNat n), _, ?_, sound_of_payload_zero rfl rfl id, rfl, fun _ => ?_⟩
      · rw [call, hn, exactUInt32_natCast hlt]
        rfl
      · rw [UInt32.toNat_ofNat_of_lt' hlt]
        exact congrArg ArrayHeader.mk hn.symm
  | dictionaryHeader =>
      exact ⟨_, _, rfl, sound_of_payload_zero rfl rfl id, rfl, fun _ =>
        congrArg DictionaryHeader.mk UInt32.ofNat_toNat⟩
  | msgPackExt =>
      obtain ⟨htype, hlen⟩ := h
      refine ⟨.ext x.type ⟨x.data, by omega⟩, _, ?_, ⟨⟨_, rfl⟩, hlen, htype⟩, rfl, fun _ => rfl⟩
      rw [call, exactBlob_of_lt (by omega)]
      rfl
  | bool => exact ⟨_, _, rfl, sound_of_payload_zero rfl rfl id, rfl, fun _ => rfl⟩
  | integer t =>
      refine ⟨_, .returned t x.value, rfl, ?_, ?_, fun _ => ?_⟩
      · cases t.isSigned <;> exact sound_of_payload_zero rfl rfl id
      · rw [x.call_value]
        have hexpected : t.routine.expected (.int x.value) = (x.value, cwpRcOk) :=
          expectedIn_of_mem x.least_le x.le_greatest
        simp only [accept, hexpected, if_true]
      · exact dif_pos ⟨x.least_le, x.le_greatest⟩
  | float =>
      cases optimizeReal with
      | false =>
          exact ⟨.float x, _, rfl, sound_of_payload_zero rfl rfl id, rfl, fun _ => UInt32.ofNat_toNat⟩
      | true =>
          rcases floatOptCall_cases R.floatUnit x with ⟨i, -, hcall⟩ | hcall <;>
            exact ⟨_, _, congrArg some hcall, sound_of_payload_zero rfl rfl id, rfl,
              fun hplain => Bool.noConfusion hplain⟩
  | double =>
      cases optimizeReal with
      | false =>
          exact ⟨.double x, _, rfl, sound_of_payload_zero rfl rfl id, rfl, fun _ =>
            UInt64.ofNat_toNat⟩
      | true =>
          rcases doubleOptCall_cases R.floatUnit x with ⟨i, -, hcall⟩ | ⟨f, -, hcall⟩ | hcall <;>
            exact ⟨_, _, congrArg some hcall, sound_of_payload_zero rfl rfl id, rfl,
              fun hplain => Bool.noConfusion hplain⟩
  | date =>
      have hnsec : ¬ (timeIntervalParts R.floatUnit (R.timeIntervalSince1970 x)).2.toNat ≥
        1000000000 := Nat.not_le.mpr h
      exact ⟨_, _, rfl, sound_of_payload_zero (if_neg hnsec) rfl id, rfl, False.elim⟩
  | data =>
      have hlen : x.length < 2 ^ 32 - 6 := h
      refine ⟨.bin ⟨x, by omega⟩, _, ?_, ⟨⟨_, rfl⟩, hlen, id⟩, rfl, fun _ => rfl⟩
      rw [call, exactBlob_of_lt (by omega)]
      rfl
  | string =>
      obtain ⟨hhead, hlen⟩ := h
      have hlt : (utf8 (beforeNul x)).length < 2 ^ 32 := by omega
      have hcall : string.call R optimizeReal x = some (.str ⟨utf8 (beforeNul x), hlt⟩) := by
        rw [call, utf8_beforeNul, exactBlob_of_lt hlt]
        rfl
      exact ⟨_, beforeNul x, hcall, sound_str ⟨_, hlt⟩ hlen,
        accept_str hutf8 ⟨_, hlt⟩ rfl (head_beforeNul hhead), beforeNul_of_not_mem⟩

/-- The value accepted is the one that comes back. -/
theorem BasicType.received_eq {t : BasicType} {x y : t.Carrier} {c : PackCall}
    (hcall : t.call R optimizeReal x = some c)
    (haccept : t.accept R (c.received false) = some (.ok y)) : t.received R optimizeReal x = y := by
  rw [received, hcall, Option.bind_some, haccept]
  rfl

variable (optimizeReal) in
theorem BasicType.received_of_plain (hutf8 : R.DecodesUtf8) (t : BasicType) {x : t.Carrier}
    (h : t.Fits R x) (hplain : t.Plain optimizeReal x) : t.received R optimizeReal x = x := by
  obtain ⟨c, y, hcall, -, haccept, hsame⟩ := t.call_accepted optimizeReal hutf8 h
  exact (received_eq hcall haccept).trans (hsame hplain)

variable (optimizeReal) in
/-- A basic value is spoken by one call. -/
theorem BasicType.spoken (hutf8 : R.DecodesUtf8) (t : BasicType) {x : t.Carrier}
    (h : t.Fits R x) : Spoken (fun _ H s => t.cwPack R optimizeReal H x s) (t.reads R)
      (t.received R optimizeReal x) (t.call R optimizeReal x).toList := by
  obtain ⟨c, y, hcall, hsound, haccept, -⟩ := t.call_accepted optimizeReal hutf8 h
  rw [BasicType.received_eq hcall haccept, hcall]
  refine ⟨?_, ?_, ?_⟩
  · intro σ H s
    rw [t.cwPack_eq, hcall]
    show Core.cwPack H c s = run (PackOp.perform H) [.call c] s
    simp only [run, PackOp.perform]
    cases Core.cwPack H c s <;> rfl
  · intro c' hc'
    obtain rfl := List.mem_singleton.mp hc'
    exact hsound
  · rintro vs b ⟨bs, rest, rfl, hspells, hrest⟩
    refine ⟨rest, ?_, hrest⟩
    rw [t.reads_of_ok (hspells rest), haccept, List.drop_left]
    rfl

end Basic

/-! ## Packable types -/

/-- The dictionary that results from setting the entries in order. -/
def Dictionary.ofEntries {R : Runtime} {k : HashableType} (entries : List (k.basic.Carrier × α)) :
    Dictionary R k α :=
  entries.foldl (fun d e => d.set e.1 e.2) .empty

/-- The calls that pack a value, element by element. -/
def PackableType.calls (R : Runtime) (optimizeReal : Bool) :
    (t : PackableType) → t.Carrier R → List PackCall
  | basic t, x => (t.call R optimizeReal x).toList
  | array t, xs =>
      (BasicType.arrayHeader.call R optimizeReal ⟨xs.length⟩).toList ++
        xs.flatMap (t.calls R optimizeReal)
  | dictionary k t, d =>
      (BasicType.dictionaryHeader.call R optimizeReal ⟨.ofNat d.entries.length⟩).toList ++
        d.entries.flatMap fun e =>
          (k.basic.call R optimizeReal e.1).toList ++ t.calls R optimizeReal e.2

/-- The value that comes back, element by element. -/
def PackableType.received (R : Runtime) (optimizeReal : Bool) :
    (t : PackableType) → t.Carrier R → t.Carrier R
  | basic t, x => t.received R optimizeReal x
  | array t, xs => xs.map (t.received R optimizeReal)
  | dictionary k t, d => .ofEntries (d.entries.map fun e =>
      (k.basic.received R optimizeReal e.1, t.received R optimizeReal e.2))

/-- What can be packed and unpacked: a number of elements of 32 bits, all of which can be.  A
key is found under itself. -/
def PackableType.Fits (R : Runtime) : (t : PackableType) → t.Carrier R → Prop
  | basic t, x => t.Fits R x
  | array t, xs => xs.length < 2 ^ 32 ∧ ∀ x ∈ xs, t.Fits R x
  | dictionary k t, d => d.entries.length < 2 ^ 32 ∧
      ∀ e ∈ d.entries, k.basic.Fits R e.1 ∧ k.eq R e.1 e.1 = true ∧ t.Fits R e.2

section Packable

variable {R : Runtime} {optimizeReal : Bool}

/-- The entries of a dictionary are found under their keys. -/
theorem Dictionary.get_of_mem {k : HashableType} {d : Dictionary R k α}
    {e : k.basic.Carrier × α} (he : e ∈ d.entries) (hself : k.eq R e.1 e.1 = true) :
    d.get e.1 = some e.2 := by
  obtain ⟨entries, hdistinct⟩ := d
  have hfind : entries.find? (fun e' => k.eq R e'.1 e.1) = some e := by
    induction entries with
    | nil => exact absurd he List.not_mem_nil
    | cons e' entries ih =>
        obtain ⟨hfirst, hrest⟩ := List.pairwise_cons.mp hdistinct
        rcases List.mem_cons.mp he with rfl | he
        · exact List.find?_cons_of_pos hself
        · rw [List.find?_cons_of_neg (by simp [hfirst e he])]
          exact ih hrest he
  rw [get, hfind]
  rfl

theorem foldl_append_singleton (f : α → β) (xs : List α) (acc : List β) :
    xs.foldl (fun acc x => acc ++ [f x]) acc = acc ++ xs.map f := by
  induction xs generalizing acc with
  | nil => rw [List.foldl_nil, List.map_nil, List.append_nil]
  | cons x xs ih => rw [List.foldl_cons, ih, List.append_assoc, List.map_cons]; rfl

variable (optimizeReal) in
/-- What fits is spoken by its calls. -/
theorem PackableType.spoken (hutf8 : R.DecodesUtf8) (t : PackableType) {x : t.Carrier R}
    (h : t.Fits R x) : Spoken (fun _ H s => t.cwPack R optimizeReal H x s) (t.reads R)
      (t.received R optimizeReal x) (t.calls R optimizeReal x) := by
  induction t with
  | basic t => exact t.spoken optimizeReal hutf8 h
  | array t ih =>
      obtain ⟨hlen, hall⟩ := h
      have hfits : BasicType.arrayHeader.Fits R ⟨x.length⟩ :=
        ⟨Int.natCast_nonneg _, Int.ofNat_lt.mpr hlen⟩
      have hhead := BasicType.spoken optimizeReal hutf8 _ hfits
      rw [BasicType.received_of_plain optimizeReal hutf8 _ hfits trivial] at hhead
      have hloop := Spoken.loop
        (fun e he acc => (ih (hall e he)).map fun e => acc ++ [e]) ([] : List (t.Carrier R))
      rw [foldl_append_singleton, List.nil_append] at hloop
      exact hhead.bind hloop
  | dictionary k t ih =>
      obtain ⟨hlen, hall⟩ := h
      have hfits : BasicType.dictionaryHeader.Fits R ⟨.ofNat x.entries.length⟩ := trivial
      have hhead := BasicType.spoken optimizeReal hutf8 _ hfits
      rw [BasicType.received_of_plain optimizeReal hutf8 _ hfits trivial] at hhead
      have hentry : ∀ e ∈ x.entries, ∀ d : Dictionary R k (t.Carrier R),
          Spoken (fun _ H s => (k.basic.cwPack R optimizeReal H e.1 s).bind fun s =>
              (x.get e.1).bind fun value => t.cwPack R optimizeReal H value s)
            (do
              let key ← k.basic.reads R
              let value ← t.reads R
              return d.set key value)
            (d.set (k.basic.received R optimizeReal e.1) (t.received R optimizeReal e.2))
            ((k.basic.call R optimizeReal e.1).toList ++ t.calls R optimizeReal e.2) := by
        intro e he d
        obtain ⟨hkey, hself, hvalue⟩ := hall e he
        simp only [Dictionary.get_of_mem he hself, Option.bind_some]
        exact (k.basic.spoken optimizeReal hutf8 hkey).bind
          ((ih hvalue).map fun value => d.set _ value)
      have hloop := Spoken.loop hentry .empty
      have hcount : (UInt32.ofNat x.entries.length).toNat = x.entries.length :=
        UInt32.toNat_ofNat_of_lt' hlen
      rw [← hcount] at hloop
      have hboth : Spoken _ ((PackableType.dictionary k t).reads R) _ _ := hhead.bind hloop
      rw [received, Dictionary.ofEntries, List.foldl_map]
      refine ⟨?_, hboth.sound, hboth.reads⟩
      intro σ H s
      refine Eq.trans ?_ (hboth.packs σ H s)
      simp only [cwPack, exactUInt32_natCast hlen, Option.bind_some, run_map]

/-- Plain values all the way down. -/
def PackableType.Plain (R : Runtime) (optimizeReal : Bool) :
    (t : PackableType) → t.Carrier R → Prop
  | basic t, x => t.Plain optimizeReal x
  | array t, xs => ∀ x ∈ xs, t.Plain R optimizeReal x
  | dictionary k t, d =>
      ∀ e ∈ d.entries, k.basic.Plain optimizeReal e.1 ∧ t.Plain R optimizeReal e.2

/-- Entries with keys of their own are set one behind the other. -/
theorem Dictionary.entries_foldl_set {k : HashableType} (entries : List (k.basic.Carrier × α))
    (d : Dictionary R k α)
    (h : (d.entries ++ entries).Pairwise fun e e' => k.eq R e.1 e'.1 = false) :
    (entries.foldl (fun d e => d.set e.1 e.2) d).entries = d.entries ++ entries := by
  induction entries generalizing d with
  | nil => rw [List.foldl_nil, List.append_nil]
  | cons e entries ih =>
      have hnew : ∀ e' ∈ d.entries, k.eq R e'.1 e.1 = false := fun e' he' =>
        (List.pairwise_append.mp h).2.2 e' he' e List.mem_cons_self
      have hset : (d.set e.1 e.2).entries = d.entries ++ [e] := by rw [set, dif_pos hnew]
      have hall : d.entries ++ e :: entries = (d.set e.1 e.2).entries ++ entries := by
        rw [hset, List.append_assoc, List.singleton_append]
      rw [List.foldl_cons, ih (d.set e.1 e.2) (hall ▸ h), hall]

theorem Dictionary.ofEntries_entries {k : HashableType} (d : Dictionary R k α) :
    ofEntries d.entries = d := by
  have hentries := entries_foldl_set d.entries (.empty : Dictionary R k α) d.distinct
  exact Dictionary.ext hentries

/-- A plain value comes back as it was. -/
theorem PackableType.received_of_plain (hutf8 : R.DecodesUtf8) (t : PackableType)
    {x : t.Carrier R} (h : t.Fits R x) (hplain : t.Plain R optimizeReal x) :
    t.received R optimizeReal x = x := by
  induction t with
  | basic t => exact t.received_of_plain optimizeReal hutf8 h hplain
  | array t ih =>
      show x.map (t.received R optimizeReal) = x
      rw [List.map_congr_left fun e he => ih (h.2 e he) (hplain e he), List.map_id']
  | dictionary k t ih =>
      have hall : x.entries.map (fun e =>
          (k.basic.received R optimizeReal e.1, t.received R optimizeReal e.2)) = x.entries := by
        refine (List.map_congr_left fun e he => ?_).trans (List.map_id _)
        obtain ⟨hkey, -, hvalue⟩ := h.2 e he
        obtain ⟨hkeyPlain, hvaluePlain⟩ := hplain e he
        rw [k.basic.received_of_plain optimizeReal hutf8 hkey hkeyPlain, ih hvalue hvaluePlain]
        rfl
      rw [received, hall, Dictionary.ofEntries_entries]

end Packable

/-! ## Values one after the other -/

/-- A value with its type, and `optimizeReal` of the packer it comes to. -/
structure Packable (R : Runtime) where
  optimizeReal : Bool
  type : PackableType
  value : type.Carrier R

/-- What the `init` of a type gives or throws. -/
abbrev Result (R : Runtime) : Type := Σ t : PackableType, Except CWPackError (t.Carrier R)

namespace Packable

variable {R : Runtime}

/-- `packer + self` -/
def cwPack (H : PackHandlers σ) (x : Packable R) (s : PackState σ) : Option (PackState σ) :=
  x.type.cwPack R x.optimizeReal H x.value s

/-- The calls that pack the value. -/
def calls (x : Packable R) : List PackCall := x.type.calls R x.optimizeReal x.value

/-- What comes back of a value. -/
def returned (x : Packable R) : Result R :=
  ⟨x.type, .ok (x.type.received R x.optimizeReal x.value)⟩

/-- The value can be packed and unpacked. -/
def Fits (x : Packable R) : Prop := x.type.Fits R x.value

/-- What is packed one after the other is read one after the other. -/
theorem spoken (hutf8 : R.DecodesUtf8) {xs : List (Packable R)} (h : ∀ x ∈ xs, x.Fits) :
    (∀ c ∈ xs.flatMap calls, Sound c) ∧
      (∀ (σ : Type) (H : PackHandlers σ) (s : PackState σ),
        run (cwPack H) xs s = run (PackOp.perform H) ((xs.flatMap calls).map .call) s) ∧
      ∀ (vs : List Value) (b : List UInt8),
        SpellsOut ((xs.flatMap calls).map (PackCall.received false) ++ vs) b →
          ∃ b', trace (caught (PackableType.reads R)) (xs.map type) (.ok b) =
            some (xs.map returned, .ok b') ∧ SpellsOut vs b' := by
  induction xs with
  | nil => exact ⟨fun _ hc => absurd hc List.not_mem_nil, fun _ _ _ => rfl,
      fun _ b hb => ⟨b, rfl, hb⟩⟩
  | cons x xs ih =>
      have hone := x.type.spoken x.optimizeReal hutf8 (h x List.mem_cons_self)
      obtain ⟨hsound, hpacks, hreads⟩ := ih fun y hy => h y (List.mem_cons_of_mem x hy)
      rw [List.flatMap_cons]
      refine ⟨fun c hc => (List.mem_append.mp hc).elim (hone.sound c) (hsound c), ?_, ?_⟩
      · intro σ H s
        have hfirst : cwPack H x s = run (PackOp.perform H) (x.calls.map .call) s :=
          hone.packs σ H s
        rw [List.map_append, run_append, ← hfirst, run]
        cases cwPack H x s with
        | none => rfl
        | some s' => exact hpacks σ H s'
      · intro vs b hb
        rw [List.map_append, List.append_assoc] at hb
        obtain ⟨b', hread, hb'⟩ := hone.reads _ b hb
        obtain ⟨b'', hreads', hb''⟩ := hreads vs b' hb'
        refine ⟨b'', ?_, hb''⟩
        simp only [List.map_cons, trace, caught_of_perform hread, hreads']
        rfl

end Packable

end CWPack.Swift
