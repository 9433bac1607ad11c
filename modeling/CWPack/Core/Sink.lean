/-
  Core/Sink.lean --- where the packed bytes go.

  A packing routine writes into a window of memory and asks the overflow handler
  when the window is too short.  `Sinks` states what a context must do for its
  user to see one growing log of bytes: emitting bytes either extends the log or
  fails.  What the handler did with the bytes before is up to the invariant.

  `Sinks.perform` is the rule for one operation and `Sinks.run` the rule for a
  run whose calls are all legal.
-/
import CWPack.Core.StaticPack

set_option autoImplicit false

namespace CWPack.Core

open CWPack.Foundation
open CWPack.MessagePack

variable {σ : Type}

/-! ## What an operation adds -/

/-- The bytes an operation adds in the given mode, or the code with which it is refused. -/
def PackOp.encoding (compat : Bool) : PackOp → Except Int (List UInt8)
  | .call c => c.encoding compat
  | .insert v => .ok v.bytes
  | .setCompatibility _ => .ok []

/-- The mode after an operation. -/
def PackOp.mode (compat : Bool) : PackOp → Bool
  | .setCompatibility b => b
  | _ => compat

/-- The length of the blob a call carries. -/
def PackCall.payload : PackCall → Nat
  | .str v => v.length
  | .bin v => v.length
  | .ext _ v => v.length
  | _ => 0

/-- The blob leaves room for a header in 32 bits. -/
def PackOp.Short : PackOp → Prop
  | .call c => c.payload < 2 ^ 32 - 6
  | .insert v => v.length < 2 ^ 32 - 6
  | .setCompatibility _ => True

/-- Every call of the run has an encoding. -/
def Legal (compat : Bool) (ops : List PackOp) : Prop :=
  ∀ enc ∈ encodings compat ops, ∃ bs, enc = .ok bs

theorem legal_cons {compat : Bool} {op : PackOp} {ops : List PackOp}
    (h : Legal compat (op :: ops)) :
    ∃ bs, op.encoding compat = .ok bs ∧ Legal (op.mode compat) ops ∧
      concat (encodings compat (op :: ops)) =
        bs ++ concat (encodings (op.mode compat) ops) := by
  cases op with
  | call c =>
      obtain ⟨bs, hbs⟩ := h _ List.mem_cons_self
      refine ⟨bs, hbs, fun enc henc => h enc (List.mem_cons_of_mem _ henc), ?_⟩
      rw [encodings, hbs, concat]
      rfl
  | insert v =>
      exact ⟨v.bytes, rfl, fun enc henc => h enc (List.mem_cons_of_mem _ henc), rfl⟩
  | setCompatibility b => exact ⟨[], rfl, h, rfl⟩

theorem encodings_append (compat : Bool) (first second : List PackOp) :
    encodings compat (first ++ second) =
      encodings compat first ++ encodings (first.foldl PackOp.mode compat) second := by
  induction first generalizing compat with
  | nil => rfl
  | cons op first ih =>
      cases op with
      | call c => exact congrArg _ (ih compat)
      | insert v => exact congrArg _ (ih compat)
      | setCompatibility b => exact ih b

/-- The first part of a legal run is legal, and not longer. -/
theorem legal_of_append {compat : Bool} {first rest : List PackOp}
    (h : Legal compat (first ++ rest)) : Legal compat first := by
  intro enc henc
  refine h enc ?_
  rw [encodings_append]
  exact List.mem_append_left _ henc

theorem concat_append (as bs : List (Except Int (List UInt8))) :
    concat (as ++ bs) = concat as ++ concat bs := by
  induction as with
  | nil => rfl
  | cons enc as ih =>
      cases enc with
      | error e => exact ih
      | ok b =>
          rw [List.cons_append, concat, ih, concat, List.append_assoc]

theorem concat_encodings_append_length_le (compat : Bool) (first rest : List PackOp) :
    (concat (encodings compat first)).length ≤
      (concat (encodings compat (first ++ rest))).length := by
  rw [encodings_append, concat_append, List.length_append]
  exact Nat.le_add_right _ _

/-! ## Lengths -/

theorem encodeUInt_length_le (n : Nat) : (encodeUInt n).length ≤ 9 := by
  unfold encodeUInt
  repeat' split
  all_goals simp

theorem encodeNegative_length_le (v : Int) : (encodeNegative v).length ≤ 9 := by
  unfold encodeNegative
  repeat' split
  all_goals simp

theorem encodeStr_length_le (compat : Bool) (bs : List UInt8) :
    (encodeStr compat bs).length ≤ bs.length + 5 := by
  unfold encodeStr
  repeat' split
  all_goals
    simp only [List.length_cons, List.length_append, bigEndian_length]
    omega

theorem encodeBin_length_le (bs : List UInt8) : (encodeBin bs).length ≤ bs.length + 5 := by
  unfold encodeBin
  repeat' split
  all_goals
    simp only [List.length_cons, List.length_append, bigEndian_length]
    omega

theorem encodeExt_length_le (type : Int8) (bs : List UInt8) :
    (encodeExt type bs).length ≤ bs.length + 6 := by
  unfold encodeExt
  repeat' split
  all_goals
    simp only [List.length_cons, List.length_append, bigEndian_length]
    omega

/-- A header takes six bytes at most, and what has no blob is short. -/
theorem PackCall.encoding_length_le {compat : Bool} {c : PackCall} {bs : List UInt8}
    (h : c.encoding compat = .ok bs) : bs.length ≤ c.payload + 18 ∧
      (0 < c.payload → bs.length ≤ c.payload + 6) := by
  have hbs : bs = encode compat c.value := by
    unfold PackCall.encoding at h
    split at h
    · simp at h
    · exact (Except.ok.inj h).symm
  subst hbs
  have hint : ∀ v : Int, (encodeInt v).length ≤ 9 := by
    intro v
    unfold encodeInt
    split
    · exact encodeUInt_length_le _
    · exact encodeNegative_length_le _
  cases c with
  | str v =>
      have hle := encodeStr_length_le compat v.bytes
      simp only [PackCall.value, encode, PackCall.payload, Blob.length]
      omega
  | bin v =>
      have hstr := encodeStr_length_le compat v.bytes
      have hbin := encodeBin_length_le v.bytes
      simp only [PackCall.value, encode, PackCall.payload, Blob.length]
      split <;> omega
  | ext type v =>
      have hle := encodeExt_length_le type v.bytes
      simp only [PackCall.value, encode, PackCall.payload, Blob.length]
      omega
  | time sec nsec =>
      have hpayload := timestampPayload_length_le sec.toInt nsec.toNat
      have hle := encodeExt_length_le (-1) (timestampPayload sec.toInt nsec.toNat)
      simp only [PackCall.value, encode, PackCall.payload]
      omega
  | unsigned i =>
      have hle := hint i.toNat
      simp only [PackCall.value, encode, PackCall.payload]
      omega
  | signed i =>
      have hle := hint i.toInt
      simp only [PackCall.value, encode, PackCall.payload]
      omega
  | boolean b => cases b <;> simp [PackCall.value, encode, PackCall.payload]
  | arraySize n =>
      simp only [PackCall.value, encode, encodeArray, PackCall.payload]
      repeat' split
      all_goals simp
  | mapSize n =>
      simp only [PackCall.value, encode, encodeMap, PackCall.payload]
      repeat' split
      all_goals simp
  | _ => simp [PackCall.value, encode, PackCall.payload]

/-- What a short operation adds has a 32-bit length. -/
theorem PackOp.encoding_length_lt {compat : Bool} {op : PackOp} {bs : List UInt8}
    (hop : op.Short) (h : op.encoding compat = .ok bs) : bs.length < 2 ^ 32 := by
  cases op with
  | call c =>
      have hle := PackCall.encoding_length_le (c := c) h
      have hshort : c.payload < 2 ^ 32 - 6 := hop
      by_cases hpos : 0 < c.payload
      · have hbound := hle.2 hpos
        omega
      · omega
  | insert v =>
      obtain rfl := Except.ok.inj h
      exact v.length_lt
  | setCompatibility b =>
      obtain rfl := Except.ok.inj h
      exact Nat.pow_pos (by decide)

/-! ## Emitting -/

/-- Store bytes at the cursor and move it past them. -/
def PackState.append (s : PackState σ) (bs : List UInt8) : PackState σ :=
  (s.setCurrent (s.pc.current + bs.length)).store s.pc.current bs

/-- The rule for emitting: the bytes fit, or the handler is asked for room. -/
theorem emit_rule {H : PackHandlers σ} {stuck : Prop} {post : PackState σ → Prop}
    {bs : List UInt8} {s : PackState σ} (hlt : bs.length < 2 ^ 32)
    (hfit : s.pc.current + bs.length ≤ s.pc.end_ → post (s.append bs))
    (hfull : s.pc.end_ < s.pc.current + bs.length →
      match H.handlePackOverflow with
      | none => post (s.setReturnCode cwpRcBufferOverflow)
      | some handler =>
          Ends stuck (fun r => if r.1 = 0 then post (r.2.append bs)
            else post (r.2.setReturnCode r.1)) (handler s bs.length)) :
    Ends stuck post (emit H bs s) := by
  by_cases hle : s.pc.current + bs.length ≤ s.pc.end_
  · rw [emit_of_le H hle]
    exact hfit hle
  · have hgt : s.pc.end_ < s.pc.current + bs.length := by omega
    have hcase := hfull hgt
    rw [emit_of_gt H hgt, Nat.mod_eq_of_lt hlt]
    unfold cwPackNewBuffer
    cases hH : H.handlePackOverflow with
    | none =>
        rw [hH] at hcase
        exact hcase
    | some handler =>
        rw [hH] at hcase
        simp only at hcase ⊢
        cases hcall : handler s bs.length with
        | none =>
            rw [hcall] at hcase
            exact hcase
        | some r =>
            obtain ⟨rc, s'⟩ := r
            rw [hcall, ends_some] at hcase
            simp only at hcase ⊢
            by_cases hrc : rc = 0
            · rw [if_pos hrc] at hcase
              rw [if_neg (not_not_intro hrc)]
              exact hcase
            · rw [if_neg hrc] at hcase
              rw [if_pos hrc]
              exact hcase

/-! ## Sinks -/

/-- `inv log s`: the context runs and the bytes so far are `log`.  `failed log s`: a
handler has stopped it there.  Every step that emits guarantees `guar`.  Logs up to
`limit` are considered. -/
structure Sinks (H : PackHandlers σ) (stuck : Prop) (limit : Nat)
    (inv failed : List UInt8 → PackState σ → Prop) (guar : PackState σ → PackState σ → Prop) :
    Prop where
  running : ∀ {log s}, inv log s → s.pc.returnCode = 0 ∧ s.pc.current ≤ s.pc.end_
  mode : ∀ {log s b}, inv log s →
    inv log (cwPackSetCompatibility b s) ∧ guar s (cwPackSetCompatibility b s)
  emits : ∀ {log s bs}, inv log s → bs.length < 2 ^ 32 → log.length + bs.length ≤ limit →
    Ends stuck (fun s' => s'.pc.beCompatible = s.pc.beCompatible ∧ guar s s' ∧
      (inv (log ++ bs) s' ∨ failed log s')) (emit H bs s)

/-- What an operation comes to. -/
def Packed (inv failed : List UInt8 → PackState σ → Prop)
    (guar : PackState σ → PackState σ → Prop) (log : List UInt8) (op : PackOp)
    (s s' : PackState σ) : Prop :=
  s'.pc.beCompatible = op.mode s.pc.beCompatible ∧
    match op.encoding s.pc.beCompatible with
    | .error e => s' = s.setReturnCode e
    | .ok bs => guar s s' ∧ (inv (log ++ bs) s' ∨ failed log s')

section Rules

variable {H : PackHandlers σ} {stuck : Prop} {limit : Nat}
  {inv failed : List UInt8 → PackState σ → Prop} {guar : PackState σ → PackState σ → Prop}
  {log : List UInt8} {s : PackState σ}

/-- The rule for one operation. -/
theorem Sinks.perform (S : Sinks H stuck limit inv failed guar) {op : PackOp} (hop : op.Short)
    (hinv : inv log s)
    (hlimit : ∀ bs, op.encoding s.pc.beCompatible = .ok bs → log.length + bs.length ≤ limit) :
    Ends stuck (Packed inv failed guar log op s) (op.perform H s) := by
  obtain ⟨hrc, hle⟩ := S.running hinv
  cases op with
  | setCompatibility b =>
      obtain ⟨hmode, hguar⟩ := S.mode (b := b) hinv
      refine ⟨rfl, hguar, Or.inl ?_⟩
      rw [List.append_nil]
      exact hmode
  | insert v =>
      exact (S.emits hinv v.length_lt (hlimit _ rfl)).mono fun s' hs' => hs'
  | call c =>
      have hspec := cwPack_spec H c hrc hle
      have hcall : (PackOp.call c).perform H s = cwPack H c s := rfl
      rw [hcall, hspec]
      cases henc : c.encoding s.pc.beCompatible with
      | error e =>
          refine ⟨rfl, ?_⟩
          show match c.encoding s.pc.beCompatible with
            | .error e => _
            | .ok bs => _
          rw [henc]
      | ok bs =>
          refine (S.emits hinv (PackOp.encoding_length_lt hop henc) (hlimit _ henc)).mono ?_
          intro s' hs'
          refine ⟨hs'.1, ?_⟩
          show match c.encoding s.pc.beCompatible with
            | .error e => _
            | .ok bs => _
          rw [henc]
          exact hs'.2

/-- The rule for a run of legal calls in a context whose handler does not fail. -/
theorem Sinks.run (S : Sinks H stuck limit inv (fun _ _ => False) guar) (ops : List PackOp)
    (hops : ∀ op ∈ ops, op.Short) (hinv : inv log s) (hlegal : Legal s.pc.beCompatible ops)
    (hlimit : log.length + (concat (encodings s.pc.beCompatible ops)).length ≤ limit) :
    Ends stuck (fun s' => inv (log ++ concat (encodings s.pc.beCompatible ops)) s' ∧
      s'.pc.beCompatible = ops.foldl PackOp.mode s.pc.beCompatible)
      (Foundation.run (PackOp.perform H) ops s) := by
  induction ops generalizing log s with
  | nil =>
      refine ⟨?_, rfl⟩
      rw [encodings, concat, List.append_nil]
      exact hinv
  | cons op ops ih =>
      obtain ⟨bs, henc, hrest, hconcat⟩ := legal_cons hlegal
      rw [hconcat, List.length_append] at hlimit
      have hstep := S.perform (hops op List.mem_cons_self) hinv fun bs' hbs' => by
        rw [henc] at hbs'
        obtain rfl := Except.ok.inj hbs'
        omega
      unfold Foundation.run
      cases hcall : op.perform H s with
      | none =>
          rw [hcall] at hstep
          exact hstep
      | some s' =>
          rw [hcall] at hstep
          obtain ⟨hmode, hcase⟩ := hstep
          rw [henc] at hcase
          have hinv' : inv (log ++ bs) s' := hcase.2.resolve_right id
          rw [hconcat, ← List.append_assoc, List.foldl_cons]
          rw [← hmode] at hrest hlimit ⊢
          refine ih (fun o ho => hops o (List.mem_cons_of_mem op ho)) hinv' hrest ?_
          rw [List.length_append]
          omega

end Rules

/-! ## The static buffer as a sink -/

/-- The static buffer of `n` bytes at `data` holds the log. -/
structure StaticLog (data n : Nat) (log : List UInt8) (s : PackState σ) : Prop where
  returnCode : s.pc.returnCode = 0
  start : s.pc.start = data
  end_ : s.pc.end_ = data + n
  current : s.pc.current = data + log.length
  le : log.length ≤ n
  bytes : s.mem.bytes data log.length = log

/-- As long as the log fits, a static buffer does not fail. -/
theorem static_sinks (data n : Nat) :
    Sinks (.static σ) False n (StaticLog data n) (fun _ _ => False) (fun _ _ => True) where
  running := by
    intro log s h
    refine ⟨h.returnCode, ?_⟩
    have hle := h.le
    rw [h.current, h.end_]
    omega
  mode := fun h => ⟨⟨h.returnCode, h.start, h.end_, h.current, h.le, h.bytes⟩, trivial⟩
  emits := by
    intro log s bs h hlt hlimit
    have hcur := h.current
    have hend := h.end_
    refine emit_rule hlt (fun hfit => ⟨rfl, trivial, Or.inl ?_⟩) (fun hfull => by omega)
    have hlen : (log ++ bs).length = log.length + bs.length := List.length_append
    refine ⟨h.returnCode, h.start, hend, ?_, by omega, ?_⟩
    · show s.pc.current + bs.length = data + (log ++ bs).length
      omega
    · show (s.mem.write s.pc.current bs).bytes data (log ++ bs).length = log ++ bs
      have hsub : log.length + bs.length = data + log.length + bs.length - data := by omega
      have hwrite := s.mem.bytes_write_append bs (q := data) (p := data + log.length) (by omega)
      rw [Nat.add_sub_cancel_left] at hwrite
      rw [hlen, hsub, hcur, hwrite, h.bytes]

end CWPack.Core
