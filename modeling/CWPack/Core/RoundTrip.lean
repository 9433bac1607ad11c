/-
  Core/RoundTrip.lean --- what was packed is unpacked.

  A run of packing calls that all succeed leaves the concatenation of the
  encodings.  Unpacking these bytes yields the values of the calls, one item a
  call and in order, and then the end of the input.
-/
import CWPack.Core.StaticPack
import CWPack.Core.StaticUnpack

set_option autoImplicit false

namespace CWPack.Core

open CWPack.Foundation
open CWPack.MessagePack

variable {σ τ : Type}

/-! ## Timestamps -/

/-- Reading a timestamp payload gives back the time. -/
theorem timestampValue_timestampPayload {sec : Int} {nsec : Nat} (hlo : -2 ^ 63 ≤ sec)
    (hhi : sec < 2 ^ 63) (hn : nsec < 2 ^ 30) :
    timestampValue (timestampPayload sec nsec) = .timestamp sec nsec := by
  unfold timestampPayload
  by_cases hsmall : 0 ≤ sec ∧ sec < 2 ^ 34
  · rw [if_pos hsmall]
    have hsec : ((sec.toNat : Nat) : Int) = sec := Int.toNat_of_nonneg hsmall.1
    by_cases h32 : nsec * 2 ^ 34 + sec.toNat < 2 ^ 32
    · -- below 2^32 there is no room for nanoseconds
      have hzero : nsec = 0 := by omega
      rw [if_pos h32, timestampValue, if_pos (bigEndian_length _ _),
        ofBigEndian_bigEndian_of_lt (by omega), hsec, hzero]
    · have hlow : (nsec * 2 ^ 34 + sec.toNat) % 2 ^ 34 = sec.toNat := by omega
      have hhigh : (nsec * 2 ^ 34 + sec.toNat) / 2 ^ 34 = nsec := by omega
      rw [if_neg h32, timestampValue, if_neg (by rw [bigEndian_length]; decide),
        if_pos (bigEndian_length _ _), ofBigEndian_bigEndian_of_lt (by omega), hlow, hhigh, hsec]
  · have hlen : (bigEndian 4 nsec ++ bigEndian 8 (toPattern 64 sec)).length = 12 := by
      rw [List.length_append, bigEndian_length, bigEndian_length]
    have htake : (bigEndian 4 nsec ++ bigEndian 8 (toPattern 64 sec)).take 4 = bigEndian 4 nsec :=
      List.take_left' (bigEndian_length 4 nsec)
    have hdrop : (bigEndian 4 nsec ++ bigEndian 8 (toPattern 64 sec)).drop 4 =
        bigEndian 8 (toPattern 64 sec) := List.drop_left' (bigEndian_length 4 nsec)
    have hnsec : ofBigEndian (bigEndian 4 nsec) = nsec := ofBigEndian_bigEndian_of_lt (by omega)
    have hsec : ofBigEndian (bigEndian 8 (toPattern 64 sec)) = toPattern 64 sec :=
      ofBigEndian_bigEndian_of_lt (toPattern_lt 64 sec)
    rw [if_neg hsmall, timestampValue, if_neg (by omega), if_neg (by omega), htake, hdrop, hnsec,
      hsec, twosComplement_toPattern (by omega) (by omega)]

theorem timestampPayload_length (sec : Int) (nsec : Nat) :
    (timestampPayload sec nsec).length = 4 ∨ (timestampPayload sec nsec).length = 8 ∨
      (timestampPayload sec nsec).length = 12 := by
  unfold timestampPayload
  split
  · split
    · exact Or.inl (bigEndian_length _ _)
    · exact Or.inr (Or.inl (bigEndian_length _ _))
  · exact Or.inr (Or.inr (by rw [List.length_append, bigEndian_length, bigEndian_length]))

/-- An extension item of type -1 with a payload of 4, 8 or 12 bytes is read as a time. -/
theorem readItem_timestamp {payload : List UInt8}
    (hlen : payload.length = 4 ∨ payload.length = 8 ∨ payload.length = 12) (rest : List UInt8) :
    readItem (encodeExt (-1) payload ++ rest) =
      .ok (timestampValue payload, (encodeExt (-1) payload).length) := by
  have hminus : UInt8.toInt8 0xff = -1 := rfl
  have hfix : ∀ {c : UInt8} {n : Nat}, format c = some (.fixext n) → payload.length = n →
      (n = 4 ∨ n = 8) → readItem (c :: 0xff :: (payload ++ rest)) =
        .ok (timestampValue payload, 2 + n) := by
    intro c n hf hn hcase
    have hshort : ¬ (0xff :: (payload ++ rest)).length < n + 1 := by
      simp only [List.length_cons, List.length_append]
      omega
    have htake : (payload ++ rest).take n = payload := List.take_left' hn
    simp only [readItem, hf, readRest, if_neg hshort, List.headD_cons, hminus, if_true,
      if_pos hcase, List.drop_succ_cons, List.drop_zero, htake]
  rcases hlen with hlen | hlen | hlen
  · have henc : encodeExt (-1) payload = 0xd6 :: 0xff :: payload := by
      simp only [encodeExt, hlen, fixextHeader]
      rfl
    rw [henc, List.cons_append, List.cons_append, hfix rfl hlen (Or.inl rfl)]
    simp only [List.length_cons, hlen]
  · have henc : encodeExt (-1) payload = 0xd7 :: 0xff :: payload := by
      simp only [encodeExt, hlen, fixextHeader]
      rfl
    rw [henc, List.cons_append, List.cons_append, hfix rfl hlen (Or.inr rfl)]
    simp only [List.length_cons, hlen]
  · have henc : encodeExt (-1) payload = 0xc7 :: 12 :: 0xff :: payload := by
      simp only [encodeExt, hlen, fixextHeader]
      rfl
    have hall : (payload ++ rest).length = 12 + rest.length := by
      rw [List.length_append, hlen]
    have htake : (payload ++ rest).take 12 = payload := List.take_left' hlen
    have hf : format 0xc7 = some (.ext 1) := rfl
    have htwelve : (12 : UInt8).toNat = 12 := rfl
    rw [henc, List.cons_append, List.cons_append, List.cons_append]
    simp only [readItem, hf, readRest, List.headD_cons, List.drop_succ_cons, List.drop_zero,
      hminus, if_true, htwelve, htake, List.length_cons, hlen, hall]
    rw [if_neg (by omega), if_neg (by omega)]

/-! ## Calls -/

/-- What a user reads back from a call packed in the given mode: in compatible mode a
binary string is packed as a string. -/
def PackCall.received (compat : Bool) : PackCall → Value
  | .bin v => if compat then .str v.bytes else .bin v.bytes
  | c => c.value

/-- The one extension type that is not the user's. -/
def PackCall.IsTimestampExt : PackCall → Prop
  | .ext type _ => type = -1
  | _ => False

/-- The encoding of a call is read as its value. -/
theorem readItem_encoding {compat : Bool} {c : PackCall} {bs : List UInt8}
    (henc : c.encoding compat = .ok bs) (hext : ¬ c.IsTimestampExt) (rest : List UInt8) :
    readItem (bs ++ rest) = .ok (c.received compat, bs.length) := by
  have hencodable := PackCall.encodable_of_ok henc
  have hbs : bs = encode compat c.value := by
    unfold PackCall.encoding at henc
    split at henc
    · simp at henc
    · exact (Except.ok.inj henc).symm
  by_cases htime : ∃ sec nsec, c.value = .timestamp sec nsec
  · obtain ⟨sec, nsec, htime⟩ := htime
    have hreceived : c.received compat = .timestamp sec nsec := by
      rw [← htime]
      cases c <;> simp_all [PackCall.received, PackCall.value]
    rw [htime] at hencodable hbs
    obtain ⟨hlo, hhi, hn⟩ := hencodable
    have hread := readItem_timestamp (timestampPayload_length sec nsec) rest
    rw [timestampValue_timestampPayload hlo hhi hn] at hread
    rw [hbs, hreceived]
    exact hread
  · have hdec := decode_of_item (item_encode compat hencodable) rest
    have hwire : c.value.wire compat = c.received compat := by
      cases c <;> simp_all [PackCall.received, PackCall.value, Value.wire]
    have htype : extType (bs ++ rest) ≠ some (-1) := by
      intro hminus
      rw [hbs] at hminus
      obtain ⟨payload, hpayload⟩ := value_of_extType hminus hdec
      rw [hwire] at hpayload
      cases c with
      | ext type v =>
          obtain ⟨ht, -⟩ := Value.ext.inj hpayload
          exact hext ht
      | bin v => cases compat <;> simp [PackCall.received] at hpayload
      | _ => simp [PackCall.received, PackCall.value] at hpayload
    rw [readItem_eq_decode htype, hbs, hdec, hwire]
    rfl

/-! ## Runs -/

/-- What a user reads back from a run, in the modes that were in force. -/
def received (compat : Bool) : List PackOp → List Value
  | [] => []
  | .call c :: ops => c.received compat :: received compat ops
  | .insert _ :: ops => received compat ops
  | .setCompatibility b :: ops => received b ops

/-- `cw_unpack_next` yields the values, one OK item each, and then the end of the input. -/
def Yields : List Value → UnpackState τ → Prop
  | [], s => ∃ s', cwUnpackNext none s = some s' ∧ s'.uc.returnCode = cwpRcEndOfInput
  | v :: vs, s => ∃ s', cwUnpackNext none s = some s' ∧ s'.uc.returnCode = cwpRcOk ∧
      s'.Denotes v ∧ Yields vs s'

/-- An operation of the round trip: a call, other than an extension of type -1. -/
def PackOp.RoundTrips : PackOp → Prop
  | .call c => ¬ c.IsTimestampExt
  | .insert _ => False
  | .setCompatibility _ => True

theorem PackOp.RoundTrips.isCall {op : PackOp} (h : op.RoundTrips) : op.IsCall := by
  cases op with
  | insert v => exact h
  | _ => trivial

/-- Where all encodings fit, none is refused. -/
theorem encs_ok_of_fitting {room : Nat} {encs : List (Except Int (List UInt8))}
    (h : fitting room encs = encs.length) : ∀ enc ∈ encs, ∃ bs, enc = .ok bs := by
  induction encs generalizing room with
  | nil => simp
  | cons enc encs ih =>
      cases enc with
      | error e => simp [fitting] at h
      | ok bs =>
          simp only [fitting, List.length_cons] at h
          split at h
          · intro enc henc
            rcases List.mem_cons.mp henc with rfl | henc
            · exact ⟨bs, rfl⟩
            · exact ih (Nat.succ.inj h) enc henc
          · omega

/-- What is ahead is yielded. -/
theorem yields_of_ahead {ops : List PackOp} (hops : ∀ op ∈ ops, op.RoundTrips) {compat : Bool}
    {s : UnpackState τ} (hrc : s.uc.returnCode = cwpRcOk) (hle : s.uc.current ≤ s.uc.end_)
    (hok : ∀ enc ∈ encodings compat ops, ∃ bs, enc = .ok bs)
    (hahead : s.ahead = concat (encodings compat ops)) : Yields (received compat ops) s := by
  induction ops generalizing compat s with
  | nil =>
      obtain ⟨s', hcall, hdel⟩ := cwUnpackNext_static hrc hle
      rw [hahead] at hdel
      exact ⟨s', hcall, hdel.returnCode⟩
  | cons op ops ih =>
      have hrest : ∀ op ∈ ops, op.RoundTrips := fun o ho => hops o (List.mem_cons_of_mem op ho)
      cases op with
      | insert v => exact (hops _ List.mem_cons_self).elim
      | setCompatibility b => exact ih hrest hrc hle hok hahead
      | call c =>
          obtain ⟨bs, hbs⟩ := hok _ List.mem_cons_self
          have hext : ¬ c.IsTimestampExt := hops _ List.mem_cons_self
          have htail : ∀ enc ∈ encodings compat ops, ∃ bs, enc = .ok bs := fun enc henc =>
            hok enc (List.mem_cons_of_mem _ henc)
          simp only [encodings, hbs, concat] at hahead
          have hread := readItem_encoding hbs hext (concat (encodings compat ops))
          obtain ⟨s', hcall, hdel⟩ := cwUnpackNext_static hrc hle
          rw [hahead, hread] at hdel
          obtain ⟨hrc', hden, hinv⟩ := hdel
          rw [List.drop_left] at hinv
          have hle' := hinv.current_le
          exact ⟨s', hcall, hrc', hden, ih hrest hrc' hle' htail hinv.ahead_eq⟩

/-- The round trip over whole runs. -/
theorem pack_then_unpack {ops : List PackOp} (hops : ∀ op ∈ ops, op.RoundTrips) (data n : Nat)
    (s : PackState σ) :
    ∃ s', run (PackOp.perform (.static σ)) ops (cwPackContextInit data n s) = some s' ∧
      (s'.pc.returnCode = cwpRcOk → ∀ u : UnpackState τ, u.mem = s'.mem →
        Yields (received false ops)
          (cwUnpackContextInit s'.pc.start (s'.pc.current - s'.pc.start) u)) := by
  obtain ⟨s', hrun, hstart, -, -, -, hbytes, -, hok, -⟩ :=
    static_run_keeps_fitting_prefix (fun op hop => (hops op hop).isCall) data n s
  refine ⟨s', hrun, fun hrc u hmem => ?_⟩
  have hall := hok.mp hrc
  rw [hall, List.take_length] at hbytes
  refine yields_of_ahead hops rfl (Nat.le_add_right _ _) (encs_ok_of_fitting hall) ?_
  rw [hstart, ← hbytes, ← hmem]
  show u.mem.bytes data (data + (s'.pc.current - data) - data) = _
  rw [Nat.add_sub_cancel_left]

theorem pack_then_unpack_bin :
    ∃ s', run (PackOp.perform (.static Unit))
        [.call (.signed (-33)), .setCompatibility true, .call (.bin ⟨[0xff], by decide⟩)]
        (cwPackContextInit 0 4 blankPack) = some s' ∧
      Yields [.int (-33), .str [0xff]]
        (cwUnpackContextInit 0 4 { staticContext [] with mem := s'.mem }) := by
  have hops : ∀ op ∈ [.call (.signed (-33)), .setCompatibility true,
      .call (.bin ⟨[0xff], by decide⟩)], PackOp.RoundTrips op := by
    simp [PackOp.RoundTrips, PackCall.IsTimestampExt]
  obtain ⟨s', hrun, hyields⟩ := pack_then_unpack (τ := Unit) hops 0 4 blankPack
  obtain rfl := Option.some.inj hrun
  exact ⟨_, rfl, hyields rfl _ rfl⟩

end CWPack.Core
