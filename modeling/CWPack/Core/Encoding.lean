/-
  Core/Encoding.lean --- what every packing routine writes.

  The routines reserve space, store bytes and move the cursor, each with its own
  sizes.  `emit` does that for a given list of bytes.  `cwPack_spec` says that a
  call on a running context is a refusal, or `emit` of the bytes the format
  prescribes for the value of the call.  Nothing after this file opens the
  definition of a packing routine again.
-/
import CWPack.Core.Pack
import CWPack.MessagePack.Encode

set_option autoImplicit false

namespace CWPack.Core

open CWPack.Foundation
open CWPack.MessagePack

variable {σ : Type}

/-! ## Emitting bytes -/

/-- Reserve space for `bs`, store it, and move the cursor past it. -/
def emit (H : PackHandlers σ) (bs : List UInt8) (s : PackState σ) : Option (PackState σ) :=
  cwPackReserveSpace H bs.length 0 s fun p s => some (s.store p bs)

theorem reserve_eq_emit (H : PackHandlers σ) {l c : Nat} {bs : List UInt8} (s : PackState σ)
    (h : l + c = bs.length) :
    (cwPackReserveSpace H l c s fun p s => some (s.store p bs)) = emit H bs s := by
  simp only [emit, cwPackReserveSpace, Nat.add_assoc, h, Nat.add_zero]

/-- The one-byte macro tests for equality; with the cursor inside the buffer that
is the test of the others. -/
theorem tryMove0_eq_emit (H : PackHandlers σ) (t : Nat) {s : PackState σ}
    (h : s.pc.current ≤ s.pc.end_) : tryMove0 H t s = emit H [UInt8.ofNat t] s := by
  simp only [tryMove0, emit, cwPackReserveSpace, List.length_singleton, Nat.add_zero]
  by_cases hfull : s.pc.current = s.pc.end_
  · rw [if_pos hfull, if_pos (by omega)]
    rfl
  · rw [if_neg hfull, if_neg (by omega)]
    rfl

/-- The routine emits the bytes, or moves the only one. -/
inductive Puts (H : PackHandlers σ) (s : PackState σ) :
    List UInt8 → Option (PackState σ) → Prop where
  | emit (bs : List UInt8) : Puts H s bs (emit H bs s)
  | move (t : Nat) : Puts H s [UInt8.ofNat t] (tryMove0 H t s)

theorem Puts.of_eq {H : PackHandlers σ} {s : PackState σ} {bs : List UInt8}
    {r : Option (PackState σ)} (h : r = CWPack.Core.emit H bs s) : Puts H s bs r :=
  h ▸ .emit bs

/-- With the cursor inside its buffer there is no difference. -/
theorem Puts.eq_emit {H : PackHandlers σ} {s : PackState σ} {bs : List UInt8}
    {r : Option (PackState σ)} (h : Puts H s bs r) (hle : s.pc.current ≤ s.pc.end_) :
    r = CWPack.Core.emit H bs s := by
  cases h with
  | emit => rfl
  | move t => exact tryMove0_eq_emit H t hle

/-- Inserting bytes is emitting them, stopped or not. -/
theorem cwPackInsert_eq_emit (H : PackHandlers σ) (v : Blob) (s : PackState σ) :
    cwPackInsert H v s = emit H v.bytes s := rfl

/-- Emitting within the buffer asks no handler. -/
theorem emit_of_le (H : PackHandlers σ) {bs : List UInt8} {s : PackState σ}
    (h : s.pc.current + bs.length ≤ s.pc.end_) :
    emit H bs s =
      some ((s.setCurrent (s.pc.current + bs.length)).store s.pc.current bs) := by
  have hle : ¬ s.pc.current + bs.length > s.pc.end_ := by omega
  simp only [emit, cwPackReserveSpace, Nat.add_zero, hle, if_false]

/-- Emitting past the end is up to the overflow handler. -/
theorem emit_of_gt (H : PackHandlers σ) {bs : List UInt8} {s : PackState σ}
    (h : s.pc.end_ < s.pc.current + bs.length) :
    emit H bs s = cwPackNewBuffer H (bs.length % 2 ^ 32) s fun s =>
      some ((s.setCurrent (s.pc.current + bs.length)).store s.pc.current bs) := by
  have hgt : s.pc.current + bs.length > s.pc.end_ := h
  simp only [emit, cwPackReserveSpace, Nat.add_zero, hgt, if_true]

/-! ## Stores are big-endian numerals -/

theorem cwStore16_eq (d : Nat) : cwStore16 d = bigEndian 2 d := by
  simp [cwStore16, bigEndian, Nat.shiftRight_eq_div_pow]

theorem cwStore32_eq (d : Nat) : cwStore32 d = bigEndian 4 d := by
  simp [cwStore32, bigEndian, Nat.shiftRight_eq_div_pow]

theorem cwStore64_eq (z : Nat) : cwStore64 z = bigEndian 8 z := by
  simp [cwStore64, bigEndian, Nat.shiftRight_eq_div_pow]

theorem bigEndian_one (n : Nat) : bigEndian 1 n = [UInt8.ofNat n] := by
  simp [bigEndian]

/-- The cast of a signed operand is its two's complement pattern. -/
theorem toUInt64_toNat (i : Int64) : i.toUInt64.toNat = toPattern 64 i.toInt := by
  have hcond := BitVec.toInt_eq_toNat_cond i.toBitVec
  have hint : i.toInt = i.toBitVec.toInt := rfl
  have hnat : i.toUInt64.toNat = i.toBitVec.toNat := rfl
  have hlt := i.toBitVec.isLt
  unfold toPattern
  rw [hint, hnat]
  split at hcond <;> omega

/-- A nonnegative number is its own pattern. -/
theorem toPattern_of_nonneg {v : Int} (hlo : 0 ≤ v) (hhi : v < 2 ^ 64) :
    toPattern 64 v = v.toNat := by
  unfold toPattern
  omega

/-- The low-order bytes of a 64-bit pattern are a narrower pattern. -/
theorem bigEndian_toPattern (k : Nat) (v : Int) (hk : k ≤ 8) :
    bigEndian k (toPattern (8 * k) v) = bigEndian k (toPattern 64 v) := by
  have hpow : (256 : Nat) ^ k = 2 ^ (8 * k) := by
    rw [show (256 : Nat) = 2 ^ 8 from rfl, ← Nat.pow_mul]
  have hdvd : (2 ^ (8 * k) : Int) ∣ 2 ^ 64 := by
    refine ⟨2 ^ (64 - 8 * k), ?_⟩
    rw [← Int.pow_add]
    congr 1
    omega
  have hmod : toPattern (8 * k) v = toPattern 64 v % 256 ^ k := by
    have hpos : (0 : Int) < 2 ^ 64 := by decide
    have hge := Int.emod_nonneg v (Int.ne_of_gt hpos)
    have hcast : ((2 ^ (8 * k) : Nat) : Int) = 2 ^ (8 * k) := by simp
    unfold toPattern
    rw [hpow]
    apply Int.ofNat.inj
    show ((v % 2 ^ (8 * k)).toNat : Int) = (((v % 2 ^ 64).toNat % 2 ^ (8 * k) : Nat) : Int)
    rw [Int.natCast_emod, Int.toNat_of_nonneg hge, hcast, Int.emod_emod_of_dvd _ hdvd,
      Int.toNat_of_nonneg (Int.emod_nonneg _ (by omega))]
  rw [hmod, bigEndian_mod k _ k (Nat.le_refl k)]

/-- The cast to a byte keeps a pattern's low-order byte. -/
theorem ofNat_toPattern (v : Int) : UInt8.ofNat (toPattern 64 v) = UInt8.ofNat (toPattern 8 v) := by
  have h := bigEndian_toPattern 1 v (by omega)
  rw [bigEndian_one, bigEndian_one] at h
  exact (List.cons.inj h).1.symm

/-! ## The meaning of a call -/

/-- The value a call packs. -/
def PackCall.value : PackCall → Value
  | .nil => .nil
  | .true_ => .bool true
  | .false_ => .bool false
  | .boolean b => .bool b
  | .unsigned i => .int i.toNat
  | .signed i => .int i.toInt
  | .float f => .float f.toNat
  | .double d => .double d.toNat
  | .arraySize n => .array n.toNat
  | .mapSize n => .map n.toNat
  | .str v => .str v.bytes
  | .bin v => .bin v.bytes
  | .ext type v => .ext type v.bytes
  | .time sec nsec => .timestamp sec.toInt nsec.toNat

/-- The code with which a call is refused in the given mode, whatever the space. -/
def PackCall.refusal (compat : Bool) : PackCall → Option Int
  | .ext _ _ => if compat then some cwpRcIllegalCall else none
  | .time _ nsec =>
      if compat then some cwpRcIllegalCall
      else if nsec.toNat ≥ 1000000000 then some cwpRcValueError
      else none
  | _ => none

/-- The bytes of a call, or the code with which it is refused. -/
def PackCall.encoding (compat : Bool) (c : PackCall) : Except Int (List UInt8) :=
  match c.refusal compat with
  | some e => .error e
  | none => .ok (encode compat c.value)

theorem PackCall.encodable_of_ok {compat : Bool} {c : PackCall} {bs : List UInt8}
    (h : c.encoding compat = .ok bs) : c.value.Encodable := by
  cases c with
  | unsigned i =>
      have hi := i.toNat_lt
      exact ⟨by omega, by omega⟩
  | signed i =>
      have hlo := i.le_toInt
      have hhi := i.toInt_lt
      exact ⟨hlo, by omega⟩
  | float f => exact f.toNat_lt
  | double d => exact d.toNat_lt
  | arraySize n => exact n.toNat_lt
  | mapSize n => exact n.toNat_lt
  | str v => exact v.length_lt
  | bin v => exact v.length_lt
  | ext type v => exact v.length_lt
  | time sec nsec =>
      refine ⟨sec.le_toInt, sec.toInt_lt, ?_⟩
      by_cases hn : nsec.toNat ≥ 1000000000
      · cases compat <;> simp [PackCall.encoding, PackCall.refusal, hn] at h
      · omega
  | _ => trivial

/-! ## One lemma for each routine

Each says what the routine does on a running context. -/

section Routines

variable (H : PackHandlers σ) {s : PackState σ}

/-- `tryMove1` writes a tag and a byte. -/
theorem tryMove1_eq_emit (t d : Nat) :
    tryMove1 H t d s = emit H (UInt8.ofNat t :: bigEndian 1 d) s := by
  rw [bigEndian_one]
  exact reserve_eq_emit H s rfl

/-- `tryMove2` writes a tag and a two-byte numeral. -/
theorem tryMove2_eq_emit (t d : Nat) :
    tryMove2 H t d s = emit H (UInt8.ofNat t :: bigEndian 2 d) s := by
  rw [← cwStore16_eq]
  exact reserve_eq_emit H s rfl

/-- `tryMove4` writes a tag and a four-byte numeral. -/
theorem tryMove4_eq_emit (t d : Nat) :
    tryMove4 H t d s = emit H (UInt8.ofNat t :: bigEndian 4 d) s := by
  rw [← cwStore32_eq]
  exact reserve_eq_emit H s rfl

/-- `tryMove8` writes a tag and an eight-byte numeral. -/
theorem tryMove8_eq_emit (t d : Nat) :
    tryMove8 H t d s = emit H (UInt8.ofNat t :: bigEndian 8 d) s := by
  rw [← cwStore64_eq]
  exact reserve_eq_emit H s rfl

/-- To choose between two routines that emit is to emit one of two byte strings. -/
theorem ite_eq_emit {p : Prop} [Decidable p] {a b : Option (PackState σ)} {as bs : List UInt8}
    (ha : p → a = emit H as s) (hb : ¬ p → b = emit H bs s) :
    (if p then a else b) = emit H (if p then as else bs) s := by
  by_cases h : p
  · rw [if_pos h, if_pos h, ha h]
  · rw [if_neg h, if_neg h, hb h]

/-- To choose between two routines is to choose between their bytes. -/
theorem Puts.ite {p : Prop} [Decidable p] {a b : Option (PackState σ)} {as bs : List UInt8}
    (ha : p → Puts H s as a) (hb : ¬ p → Puts H s bs b) :
    Puts H s (if p then as else bs) (if p then a else b) := by
  by_cases h : p
  · rw [if_pos h, if_pos h]
    exact ha h
  · rw [if_neg h, if_neg h]
    exact hb h

theorem cwPackUnsigned_spec (i : UInt64) (hrc : s.pc.returnCode = 0) :
    Puts H s (encodeUInt i.toNat) (cwPackUnsigned H i s) := by
  have hne : ¬ s.pc.returnCode ≠ 0 := by simp [hrc]
  rw [cwPackUnsigned, if_neg hne, encodeUInt]
  refine Puts.ite H (fun _ => .move _) fun _ => ?_
  refine Puts.ite H (fun _ => .of_eq (tryMove1_eq_emit H _ _)) fun _ => ?_
  refine Puts.ite H (fun _ => .of_eq (tryMove2_eq_emit H _ _)) fun _ => ?_
  exact Puts.ite H (fun _ => .of_eq (tryMove4_eq_emit H _ _)) fun _ =>
    .of_eq (tryMove8_eq_emit H _ _)

/-- Above 127 the signed packer does what the unsigned one does. -/
theorem cwPackSigned_of_big (i : Int64) (hrc : s.pc.returnCode = 0) (hbig : i.toInt > 127) :
    cwPackSigned H i s = emit H (encodeUInt i.toInt.toNat) s := by
  have hne : ¬ s.pc.returnCode ≠ 0 := by simp [hrc]
  have hhi := i.toInt_lt
  have hpat : toPattern 64 i.toInt = i.toInt.toNat := toPattern_of_nonneg (by omega) (by omega)
  have h0 : ¬ i.toInt.toNat < 0x80 := by omega
  have t1 : i.toInt.toNat < 0x100 ↔ i.toInt < 256 := by omega
  have t2 : i.toInt.toNat < 0x10000 ↔ i.toInt < 0x10000 := by omega
  have t4 : i.toInt.toNat < 0x100000000 ↔ i.toInt < 0x100000000 := by omega
  simp only [cwPackSigned, if_neg hne, if_pos hbig, encodeUInt, toUInt64_toNat, hpat, if_neg h0,
    t1, t2, t4]
  refine ite_eq_emit H (fun _ => tryMove1_eq_emit H _ _) fun _ => ?_
  refine ite_eq_emit H (fun _ => tryMove2_eq_emit H _ _) fun _ => ?_
  exact ite_eq_emit H (fun _ => tryMove4_eq_emit H _ _) fun _ => tryMove8_eq_emit H _ _

/-- Below zero the formats are the signed ones. -/
theorem cwPackSigned_of_negative (i : Int64) (hrc : s.pc.returnCode = 0) (hneg : i.toInt < 0) :
    Puts H s (encodeNegative i.toInt) (cwPackSigned H i s) := by
  have hne : ¬ s.pc.returnCode ≠ 0 := by simp [hrc]
  have hbig : ¬ i.toInt > 127 := by omega
  -- a store sees the low-order bytes of the 64-bit pattern
  have h1 := bigEndian_toPattern 1 i.toInt (by omega)
  have h2 := bigEndian_toPattern 2 i.toInt (by omega)
  have h4 := bigEndian_toPattern 4 i.toInt (by omega)
  simp only [cwPackSigned, if_neg hne, if_neg hbig, encodeNegative, toUInt64_toNat, ge_iff_le]
  refine Puts.ite H (fun _ => ?_) fun _ => ?_
  · rw [← ofNat_toPattern]
    exact .move _
  refine Puts.ite H (fun _ => .of_eq ((tryMove1_eq_emit H _ _).trans ?_)) fun _ => ?_
  · rw [← h1]
    rfl
  refine Puts.ite H (fun _ => .of_eq ((tryMove2_eq_emit H _ _).trans ?_)) fun _ => ?_
  · rw [← h2]
    rfl
  refine Puts.ite H (fun _ => .of_eq ((tryMove4_eq_emit H _ _).trans ?_)) fun _ =>
    .of_eq (tryMove8_eq_emit H _ _)
  rw [← h4]
  rfl

theorem cwPackSigned_spec (i : Int64) (hrc : s.pc.returnCode = 0) :
    Puts H s (encodeInt i.toInt) (cwPackSigned H i s) := by
  unfold encodeInt
  by_cases hpos : 0 ≤ i.toInt
  · rw [if_pos hpos]
    by_cases hbig : i.toInt > 127
    · exact .of_eq (cwPackSigned_of_big H i hrc hbig)
    · have hne : ¬ s.pc.returnCode ≠ 0 := by simp [hrc]
      have hfix : i.toInt ≥ -32 := by omega
      have hlt : i.toInt.toNat < 0x80 := by omega
      simp only [cwPackSigned, if_neg hne, if_neg hbig, if_pos hfix, toUInt64_toNat, encodeUInt,
        if_pos hlt]
      rw [toPattern_of_nonneg hpos (by omega)]
      exact .move _
  · rw [if_neg hpos]
    exact cwPackSigned_of_negative H i hrc (by omega)

/-- The two container headers differ in their three tags only. -/
theorem container_spec {fix wide wider : Nat} {n : Nat} (hfix : fix ||| n = fix + n ∨ ¬ n < 16) :
    Puts H s (if n < 0x10 then [UInt8.ofNat (fix + n)]
      else if n < 0x10000 then UInt8.ofNat wide :: bigEndian 2 n
      else UInt8.ofNat wider :: bigEndian 4 n)
    (if n < 16 then tryMove0 H (fix ||| n) s
      else if n < 65536 then tryMove2 H wide n s else tryMove4 H wider n s) := by
  refine Puts.ite H (fun h => ?_) fun _ => ?_
  · have hor : fix ||| n = fix + n := hfix.resolve_right (not_not_intro h)
    rw [hor]
    exact .move _
  · exact Puts.ite H (fun _ => .of_eq (tryMove2_eq_emit H _ _)) fun _ =>
      .of_eq (tryMove4_eq_emit H _ _)

/-- Below 16 the low half of a tag is free for the count. -/
theorem or_fix_eq_add {n : Nat} : (0x80 ||| n = 0x80 + n ∧ 0x90 ||| n = 0x90 + n) ∨ ¬ n < 16 := by
  by_cases h : n < 16
  · have hall : ∀ n < 16, 0x80 ||| n = 0x80 + n ∧ 0x90 ||| n = 0x90 + n := by decide
    exact Or.inl (hall n h)
  · exact Or.inr h

theorem cwPackArraySize_spec (n : UInt32) (hrc : s.pc.returnCode = 0) :
    Puts H s (encodeArray n.toNat) (cwPackArraySize H n s) := by
  have hne : ¬ s.pc.returnCode ≠ 0 := by simp [hrc]
  rw [cwPackArraySize, if_neg hne]
  exact container_spec H (or_fix_eq_add.imp And.right id)

theorem cwPackMapSize_spec (n : UInt32) (hrc : s.pc.returnCode = 0) :
    Puts H s (encodeMap n.toNat) (cwPackMapSize H n s) := by
  have hne : ¬ s.pc.returnCode ≠ 0 := by simp [hrc]
  rw [cwPackMapSize, if_neg hne]
  exact container_spec H (or_fix_eq_add.imp And.left id)

theorem cwPackStr_spec (v : Blob) (hrc : s.pc.returnCode = 0) :
    cwPackStr H v s = emit H (encodeStr s.pc.beCompatible v.bytes) s := by
  have hne : ¬ s.pc.returnCode ≠ 0 := by simp [hrc]
  simp only [cwPackStr, if_neg hne, encodeStr, Blob.length, Bool.not_eq_true', bigEndian_one,
    ← cwStore16_eq, ← cwStore32_eq]
  refine ite_eq_emit H (fun _ => reserve_eq_emit H s rfl) fun _ => ?_
  refine ite_eq_emit H (fun _ => reserve_eq_emit H s rfl) fun _ => ?_
  refine ite_eq_emit H (fun _ => ?_) fun _ => ?_
  · exact reserve_eq_emit H s (by simp [cwStore16])
  · exact reserve_eq_emit H s (by simp [cwStore32])

theorem cwPackBin_spec (v : Blob) (hrc : s.pc.returnCode = 0) :
    cwPackBin H v s = emit H (encode s.pc.beCompatible (.bin v.bytes)) s := by
  have hne : ¬ s.pc.returnCode ≠ 0 := by simp [hrc]
  simp only [cwPackBin, if_neg hne, encode]
  refine ite_eq_emit H (fun hc => ?_) fun _ => ?_
  · rw [cwPackStr_spec H v hrc, hc]
  simp only [encodeBin, Blob.length, bigEndian_one, ← cwStore16_eq, ← cwStore32_eq]
  refine ite_eq_emit H (fun _ => reserve_eq_emit H s rfl) fun _ => ?_
  refine ite_eq_emit H (fun _ => ?_) fun _ => ?_
  · exact reserve_eq_emit H s (by simp [cwStore16])
  · exact reserve_eq_emit H s (by simp [cwStore32])

theorem cwPackExt_spec (type : Int8) (v : Blob) (hrc : s.pc.returnCode = 0)
    (hc : s.pc.beCompatible = false) :
    cwPackExt H type v s = emit H (encodeExt type v.bytes) s := by
  have hne : ¬ s.pc.returnCode ≠ 0 := by simp [hrc]
  simp only [cwPackExt, if_neg hne, hc, Bool.false_eq_true, if_false]
  split
  · rename_i h1
    obtain ⟨b, hb⟩ := List.length_eq_one_iff.mp h1
    simp only [encodeExt, hb, List.length_singleton, fixextHeader, List.headD_cons]
    exact reserve_eq_emit H s rfl
  · rename_i h2
    simp only [encodeExt, h2, fixextHeader]
    exact reserve_eq_emit H s (by simp [h2])
  · rename_i h4
    simp only [encodeExt, h4, fixextHeader]
    exact reserve_eq_emit H s (by simp [h4])
  · rename_i h8
    simp only [encodeExt, h8, fixextHeader]
    exact reserve_eq_emit H s (by simp [h8])
  · rename_i h16
    simp only [encodeExt, h16, fixextHeader]
    exact reserve_eq_emit H s (by simp [h16])
  · rename_i h1 h2 h4 h8 h16
    have hnone : fixextHeader v.bytes.length = none := by
      unfold fixextHeader
      split <;> first | rfl | contradiction
    simp only [encodeExt, hnone, bigEndian_one, ← cwStore16_eq, ← cwStore32_eq]
    refine ite_eq_emit H (fun _ => reserve_eq_emit H s rfl) fun _ => ?_
    refine ite_eq_emit H (fun _ => ?_) fun _ => ?_
    · exact reserve_eq_emit H s (by simp [cwStore16])
    · exact reserve_eq_emit H s (by simp [cwStore32])

/-- Masking with the high bits tests for a large number. -/
theorem and_highMask_eq_zero {x w k : Nat} (hx : x < 2 ^ w) :
    x &&& ((2 ^ (w - k) - 1) <<< k) = 0 ↔ x < 2 ^ k := by
  constructor
  · intro h
    refine Nat.lt_of_not_le fun hge => ?_
    obtain ⟨i, hi, hbit⟩ := Nat.exists_ge_and_testBit_of_ge_two_pow hge
    have hiw : i < w := by
      refine Nat.lt_of_not_le fun hwi => ?_
      have hfalse := Nat.testBit_lt_two_pow
        (Nat.lt_of_lt_of_le hx (Nat.pow_le_pow_right (by decide) hwi))
      rw [hbit] at hfalse
      exact Bool.noConfusion hfalse
    have hzero := congrArg (fun y => Nat.testBit y i) h
    simp only [Nat.testBit_and, Nat.testBit_shiftLeft, Nat.testBit_two_pow_sub_one,
      Nat.zero_testBit, hbit, Bool.true_and, Bool.and_eq_false_iff, decide_eq_false_iff_not] at hzero
    omega
  · intro h
    apply Nat.eq_of_testBit_eq
    intro i
    rw [Nat.zero_testBit, Nat.testBit_and, Nat.testBit_shiftLeft]
    by_cases hi : i < k
    · simp [Nat.not_le.mpr hi]
    · have hfalse := Nat.testBit_lt_two_pow
        (Nat.lt_of_lt_of_le h (Nat.pow_le_pow_right (by decide) (Nat.not_lt.mp hi)))
      simp [hfalse]

/-- The three payloads of a timestamp have a header each. -/
theorem encodeExt_timestamp32 (n : Nat) :
    encodeExt (-1) (bigEndian 4 n) = 0xd6 :: 0xff :: bigEndian 4 n := by
  simp only [encodeExt, bigEndian_length, fixextHeader]
  rfl

theorem encodeExt_timestamp64 (n : Nat) :
    encodeExt (-1) (bigEndian 8 n) = 0xd7 :: 0xff :: bigEndian 8 n := by
  simp only [encodeExt, bigEndian_length, fixextHeader]
  rfl

theorem encodeExt_timestamp96 (nsec sec : Nat) :
    encodeExt (-1) (bigEndian 4 nsec ++ bigEndian 8 sec) =
      0xc7 :: 12 :: 0xff :: (bigEndian 4 nsec ++ bigEndian 8 sec) := by
  simp only [encodeExt, List.length_append, bigEndian_length, fixextHeader]
  rfl

/-- The seconds are below `2^34` as a pattern exactly when they are as a number. -/
theorem toUInt64_lt_iff (sec : Int64) :
    sec.toUInt64.toNat < 2 ^ 34 ↔ 0 ≤ sec.toInt ∧ sec.toInt < 2 ^ 34 := by
  have hlo := sec.le_toInt
  have hhi := sec.toInt_lt
  rw [toUInt64_toNat]
  unfold toPattern
  omega

/-- The word of a 64-bit timestamp. -/
theorem timestampData_toNat {sec : Int64} (nsec : UInt32) (hn : nsec.toNat < 1000000000)
    (hsmall : sec.toUInt64.toNat < 2 ^ 34) :
    ((nsec.toUInt64 <<< 34) ||| sec.toUInt64).toNat = nsec.toNat * 2 ^ 34 + sec.toInt.toNat := by
  have hrange := (toUInt64_lt_iff sec).mp hsmall
  have hsec : sec.toUInt64.toNat = sec.toInt.toNat := by
    rw [toUInt64_toNat, toPattern_of_nonneg hrange.1 (by omega)]
  have hshift : nsec.toNat <<< 34 < 2 ^ 64 := by
    rw [Nat.shiftLeft_eq]
    omega
  have h34 : (34 : UInt64).toNat % 64 = 34 := rfl
  rw [UInt64.toNat_or, UInt64.toNat_shiftLeft, UInt32.toNat_toUInt64, h34,
    Nat.mod_eq_of_lt hshift, ← Nat.shiftLeft_add_eq_or_of_lt hsmall, Nat.shiftLeft_eq, hsec]

/-- The tests of `cw_pack_time` mask the high bits. -/
theorem mask34_iff (x : UInt64) : x &&& 0xfffffffc00000000 ≠ 0 ↔ ¬ x.toNat < 2 ^ 34 := by
  rw [← and_highMask_eq_zero (k := 34) x.toNat_lt, ne_eq, ← UInt64.toNat_inj, UInt64.toNat_and]
  rfl

theorem mask32_iff (x : UInt64) : x &&& 0xffffffff00000000 ≠ 0 ↔ ¬ x.toNat < 2 ^ 32 := by
  rw [← and_highMask_eq_zero (k := 32) x.toNat_lt, ne_eq, ← UInt64.toNat_inj, UInt64.toNat_and]
  rfl

theorem cwPackTime_spec (sec : Int64) (nsec : UInt32) (hrc : s.pc.returnCode = 0)
    (hc : s.pc.beCompatible = false) (hn : nsec.toNat < 1000000000) :
    cwPackTime H sec nsec s =
      emit H (encodeExt (-1) (timestampPayload sec.toInt nsec.toNat)) s := by
  have hne : ¬ s.pc.returnCode ≠ 0 := by simp [hrc]
  have hnsec : ¬ nsec.toNat ≥ 1000000000 := by omega
  simp only [cwPackTime, if_neg hne, hc, Bool.false_eq_true, if_false, if_neg hnsec, mask34_iff,
    mask32_iff]
  by_cases hsmall : sec.toUInt64.toNat < 2 ^ 34
  · have hdata := timestampData_toNat nsec hn hsmall
    have hrange := (toUInt64_lt_iff sec).mp hsmall
    rw [if_neg (not_not_intro hsmall), hdata, timestampPayload, if_pos hrange]
    by_cases h32 : nsec.toNat * 2 ^ 34 + sec.toInt.toNat < 2 ^ 32
    · -- timestamp 32: there are no nanoseconds, so the word is the seconds
      have hdata32 :
          ((nsec.toUInt64 <<< 34) ||| sec.toUInt64).toUInt32.toNat = sec.toInt.toNat := by
        rw [UInt64.toNat_toUInt32, hdata, Nat.mod_eq_of_lt h32]
        omega
      rw [if_neg (not_not_intro h32), if_pos h32, hdata32, cwStore32_eq, encodeExt_timestamp32]
      exact reserve_eq_emit H s (by simp)
    · rw [if_pos h32, if_neg h32, cwStore64_eq, encodeExt_timestamp64]
      exact reserve_eq_emit H s (by simp)
  · have hrange : ¬ (0 ≤ sec.toInt ∧ sec.toInt < 2 ^ 34) := fun h =>
      hsmall ((toUInt64_lt_iff sec).mpr h)
    rw [if_pos hsmall, timestampPayload, if_neg hrange, cwStore32_eq, cwStore64_eq, toUInt64_toNat,
      encodeExt_timestamp96]
    exact reserve_eq_emit H s (by simp)

end Routines

/-! ## One lemma for all of them -/

/-- A call on a running context refuses, or puts its encoding. -/
theorem cwPack_puts (H : PackHandlers σ) (c : PackCall) {s : PackState σ}
    (hrc : s.pc.returnCode = 0) :
    match c.encoding s.pc.beCompatible with
    | .error e => cwPack H c s = packError e s
    | .ok bs => Puts H s bs (cwPack H c s) := by
  have hne : ¬ s.pc.returnCode ≠ 0 := by simp [hrc]
  cases c with
  | nil =>
      simp only [cwPack, cwPackNil, if_neg hne]
      exact .move _
  | true_ =>
      simp only [cwPack, cwPackTrue, if_neg hne]
      exact .move _
  | false_ =>
      simp only [cwPack, cwPackFalse, if_neg hne]
      exact .move _
  | boolean b =>
      simp only [cwPack, cwPackBoolean, if_neg hne]
      cases b <;> exact .move _
  | unsigned i =>
      have hpos : (0 : Int) ≤ (i.toNat : Int) := by omega
      simp only [PackCall.encoding, PackCall.refusal, PackCall.value, encode, encodeInt,
        if_pos hpos, Int.toNat_natCast]
      exact cwPackUnsigned_spec H i hrc
  | signed i => exact cwPackSigned_spec H i hrc
  | float f =>
      simp only [cwPack, cwPackFloat, if_neg hne]
      exact .of_eq (tryMove4_eq_emit H _ _)
  | double d =>
      simp only [cwPack, cwPackDouble, if_neg hne]
      exact .of_eq (tryMove8_eq_emit H _ _)
  | arraySize n => exact cwPackArraySize_spec H n hrc
  | mapSize n => exact cwPackMapSize_spec H n hrc
  | str v => exact .of_eq (cwPackStr_spec H v hrc)
  | bin v => exact .of_eq (cwPackBin_spec H v hrc)
  | ext type v =>
      cases hc : s.pc.beCompatible with
      | false => exact .of_eq (cwPackExt_spec H type v hrc hc)
      | true => simp [cwPack, cwPackExt, hrc, hc, PackCall.encoding, PackCall.refusal]
  | time sec nsec =>
      cases hc : s.pc.beCompatible with
      | false =>
          by_cases hn : nsec.toNat ≥ 1000000000
          · simp [cwPack, cwPackTime, hrc, hc, hn, PackCall.encoding, PackCall.refusal]
          · simp only [PackCall.encoding, PackCall.refusal, Bool.false_eq_true, if_false,
              if_neg hn]
            exact .of_eq (cwPackTime_spec H sec nsec hrc hc (by omega))
      | true => simp [cwPack, cwPackTime, hrc, hc, PackCall.encoding, PackCall.refusal]

/-- With the cursor inside the buffer, what is put is emitted. -/
theorem cwPack_spec (H : PackHandlers σ) (c : PackCall) {s : PackState σ}
    (hrc : s.pc.returnCode = 0) (hle : s.pc.current ≤ s.pc.end_) :
    cwPack H c s =
      match c.encoding s.pc.beCompatible with
      | .error e => packError e s
      | .ok bs => emit H bs s := by
  have hputs := cwPack_puts H c hrc
  cases henc : c.encoding s.pc.beCompatible with
  | error e =>
      rw [henc] at hputs
      exact hputs
  | ok bs =>
      rw [henc] at hputs
      exact Puts.eq_emit hputs hle

/-- A call on a stopped context does nothing. -/
theorem cwPack_of_stopped (H : PackHandlers σ) (c : PackCall) {s : PackState σ}
    (hrc : s.pc.returnCode ≠ 0) : cwPack H c s = some s := by
  cases c <;>
    simp only [cwPack, cwPackNil, cwPackTrue, cwPackFalse, cwPackBoolean, cwPackUnsigned,
      cwPackSigned, cwPackFloat, cwPackDouble, cwPackArraySize, cwPackMapSize, cwPackStr,
      cwPackBin, cwPackExt, cwPackTime, if_pos hrc]

end CWPack.Core
