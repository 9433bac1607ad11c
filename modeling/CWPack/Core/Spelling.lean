/-
  Core/Spelling.lean --- bytes that spell out values, and what is read of a part.

  A list of bytes spells out a list of values if it is made of one piece for each
  value, from which the value is read whatever follows.  Encodings are such
  pieces.  A reader of the whole list is shown the values and then the end of the
  input.  A reader of a part of it is shown the values whose pieces are in the
  part, and then the end of the input or, if the part ends inside a piece, a
  buffer underflow: a value is shown whole or not at all.
-/
import CWPack.Core.Accepted
import CWPack.Core.RoundTrip

set_option autoImplicit false

namespace CWPack.Core

open CWPack.Foundation
open CWPack.MessagePack

/-! ## Pieces -/

/-- The value is read from the piece, whatever follows. -/
def Spells (bs : List UInt8) (v : Value) : Prop := ∀ rest, readItem (bs ++ rest) = .ok (v, bs.length)

/-- A piece for each value, one after the other. -/
def SpellsOut : List Value → List UInt8 → Prop
  | [], b => b = []
  | v :: vs, b => ∃ bs rest, b = bs ++ rest ∧ Spells bs v ∧ SpellsOut vs rest

theorem SpellsOut.append {vs ws : List Value} {b b' : List UInt8} (h : SpellsOut vs b)
    (h' : SpellsOut ws b') : SpellsOut (vs ++ ws) (b ++ b') := by
  induction vs generalizing b with
  | nil =>
      obtain rfl : b = [] := h
      exact h'
  | cons v vs ih =>
      obtain ⟨bs, rest, rfl, hv, hrest⟩ := h
      exact ⟨bs, rest ++ b', List.append_assoc _ _ _, hv, ih hrest⟩

theorem spellsOut_singleton {bs : List UInt8} {v : Value} (h : Spells bs v) :
    SpellsOut [v] bs :=
  ⟨bs, [], (List.append_nil bs).symm, h, rfl⟩

/-- What is read is read from the bytes of the item alone. -/
theorem spells_of_readItem {b : List UInt8} {v : Value} {n : Nat} (h : readItem b = .ok (v, n)) :
    n ≤ b.length ∧ Spells (b.take n) v := by
  obtain ⟨x, hdec⟩ := decode_of_readItem h
  obtain ⟨hn, hitem⟩ := item_of_decode hdec
  refine ⟨hn, fun rest => ?_⟩
  have hwhole := h
  rw [← List.take_append_drop n b] at hwhole
  obtain ⟨rfl, -⟩ := readItem_eq_asRead hitem hwhole
  by_cases hminus : ∃ payload, x = .ext (-1) payload
  · obtain ⟨payload, rfl⟩ := hminus
    by_cases hlayout : TimestampLayout (b.take n) payload
    · rw [readItem_of_layout hitem hlayout rest, asRead_of_layout hlayout]
    · by_cases hwide : (b.take n).head? = some 0xc8 ∨ (b.take n).head? = some 0xc9
      · rw [readItem_of_wide hitem hwide rest, asRead_of_not_layout hlayout]
      · obtain ⟨hnarrow, hnarrow'⟩ := not_or.mp hwide
        rw [readItem_of_rejected hitem hlayout hnarrow hnarrow'] at hwhole
        simp at hwhole
  · have hne : ∀ payload, x ≠ .ext (-1) payload := fun payload heq => hminus ⟨payload, heq⟩
    rw [readItem_of_item_ne hitem hne rest, asRead_of_ne hne]

/-- The encoding of a call spells out what is received. -/
theorem spells_encoding {compat : Bool} {c : PackCall} {bs : List UInt8}
    (henc : c.encoding compat = .ok bs) (hext : ¬ c.IsTimestampExt) :
    Spells bs (c.received compat) := readItem_encoding henc hext

theorem spellsOut_encodings {ops : List PackOp} (hops : ∀ op ∈ ops, op.RoundTrips)
    {compat : Bool} (hlegal : ∀ enc ∈ encodings compat ops, ∃ bs, enc = .ok bs) :
    SpellsOut (received compat ops) (concat (encodings compat ops)) := by
  induction ops generalizing compat with
  | nil => rfl
  | cons op ops ih =>
      have hrest : ∀ op ∈ ops, op.RoundTrips := fun o ho => hops o (List.mem_cons_of_mem op ho)
      cases op with
      | insert v => exact (hops _ List.mem_cons_self).elim
      | setCompatibility b => exact ih hrest hlegal
      | call c =>
          obtain ⟨bs, hbs⟩ := hlegal _ List.mem_cons_self
          simp only [encodings, hbs, concat]
          exact ⟨bs, _, rfl, spells_encoding hbs (hops _ List.mem_cons_self),
            ih hrest fun enc henc => hlegal enc (List.mem_cons_of_mem _ henc)⟩

/-! ## Parts of a piece -/

/-- An extension that is read is reported as cut off wherever it is cut. -/
theorem readRest_ext_cut {v t : List UInt8} {w n : Nat} {x : Value}
    (hread : readRest (v ++ t) (.ext w) = .ok (x, n)) (hcut : v.length + 1 < n)
    (htrunc : decodeRest v (.ext w) = .truncated) :
    readRest v (.ext w) = .error cwpRcBufferUnderflow := by
  by_cases hw : w = 1
  · subst hw
    simp only [readRest]
    by_cases htwo : v.length < 2
    · exact if_pos htwo
    rw [if_neg htwo]
    have hlen : (v ++ t).length = v.length + t.length := List.length_append
    have htype : ((v ++ t).drop 1).headD 0 = (v.drop 1).headD 0 := by
      rw [List.drop_append_of_le_length (by omega)]
      cases hdrop : v.drop 1 with
      | nil =>
          have hd := congrArg List.length hdrop
          rw [List.length_drop, List.length_nil] at hd
          omega
      | cons a l => rfl
    by_cases hminus : ((v.drop 1).headD 0).toInt8 = -1
    · -- what is read is a time of twelve bytes, so its length byte says twelve
      simp only [readRest] at hread
      rw [if_neg (by omega), htype, if_pos hminus] at hread
      have hhead : (v ++ t).headD 0 = v.headD 0 := by
        cases v with
        | nil => simp at htwo
        | cons a l => rfl
      rw [hhead] at hread
      split at hread
      swap
      · simp at hread
      rename_i htwelve
      split at hread
      · simp at hread
      simp only [Except.ok.injEq, Prod.mk.injEq] at hread
      rw [if_pos hminus, if_pos htwelve, if_pos (by omega)]
    · rw [if_neg hminus, htrunc]
      rfl
  · rw [readRest_ext_of_ne v hw, htrunc]
    rfl

/-- A part of a piece, but not all of it, is too short. -/
theorem readItem_of_cut {bs p t : List UInt8} {v : Value} (h : Spells bs v) (hbs : bs = p ++ t)
    (hp : p ≠ []) (ht : t ≠ []) : readItem p = .error cwpRcBufferUnderflow := by
  have hread := h []
  rw [List.append_nil] at hread
  obtain ⟨x, hdec⟩ := decode_of_readItem hread
  obtain ⟨-, hitem⟩ := item_of_decode hdec
  rw [List.take_length, hbs] at hitem
  have htrunc : decode p = .truncated := decode_eq_truncated_iff.mpr ⟨hp, t, x, ht, hitem⟩
  have htpos := List.length_pos_iff.mpr ht
  subst hbs
  by_cases hext : extType p = some (-1)
  · cases p with
    | nil => exact absurd rfl hp
    | cons c w =>
        simp only [List.cons_append, readItem, decode] at hread htrunc ⊢
        cases hf : format c with
        | none => simp [hf] at hread
        | some f =>
            rw [hf] at hread htrunc
            simp only [List.length_cons, List.length_append] at hread htrunc ⊢
            simp only [extType, hf] at hext
            cases f with
            | fixext n =>
                have hlen := restRead_of_readRest hread
                generalize hn : w.length + t.length + 1 = m at hlen
                cases hlen with
                | fixext _ _ _ => exact if_pos (by omega)
            | ext k => exact readRest_ext_cut hread (by omega) htrunc
            | _ => simp at hext
  · rw [readItem_eq_decode hext, htrunc]
    rfl

/-! ## Readers -/

/-- What a call that delivers the value shows. -/
def delivery (v : Value) : Observation := ⟨0, none, some (itemType v, some v)⟩

/-- What `N` calls of `cw_unpack_next` show: the values, and then the code for ever. -/
def shown (vs : List Value) (e : Int) (N : Nat) : List Observation :=
  (vs.map delivery ++ List.replicate N (UnpackOp.next.refused e)).take N

theorem shown_nil (e : Int) (N : Nat) :
    shown [] e N = List.replicate N (UnpackOp.next.refused e) := by
  simp [shown]

theorem shown_cons (v : Value) (vs : List Value) (e : Int) (N : Nat) :
    shown (v :: vs) e (N + 1) = delivery v :: shown vs e N := by
  simp only [shown, List.map_cons, List.cons_append, List.take_succ_cons]
  congr 1
  rw [List.take_append, List.take_append, List.take_replicate, List.take_replicate]
  congr 2
  omega

/-- A reader that has stopped answers the same for ever. -/
theorem follow_next_of_stopped (e : Int) (N : Nat) :
    (follow UnpackOp.answer (List.replicate N .next) (.error e)).1 = shown [] e N := by
  rw [shown_nil]
  induction N with
  | zero => rfl
  | succ N ih =>
      simp only [List.replicate_succ, follow, UnpackOp.answer]
      rw [ih]

theorem follow_next_of_error {b : List UInt8} {e : Int} (h : readItem b = .error e) (N : Nat) :
    (follow UnpackOp.answer (List.replicate N .next) (.ok b)).1 = shown [] e N := by
  cases N with
  | zero => rfl
  | succ N =>
      simp only [List.replicate_succ, follow, UnpackOp.answer, h]
      rw [follow_next_of_stopped, shown_nil, shown_nil, List.replicate_succ]

theorem follow_next_of_spells {bs : List UInt8} {v : Value} (h : Spells bs v)
    (rest : List UInt8) (N : Nat) :
    (follow UnpackOp.answer (List.replicate (N + 1) .next) (.ok (bs ++ rest))).1 =
      delivery v :: (follow UnpackOp.answer (List.replicate N .next) (.ok rest)).1 := by
  simp only [List.replicate_succ, follow, UnpackOp.answer, h rest, List.drop_left]
  rfl

/-- A reader of a part is shown the values in it, in order and whole, and then why it ends. -/
theorem follow_next_of_part {vs : List Value} {b : List UInt8} (h : SpellsOut vs b)
    {p : List UInt8} (hp : p <+: b) :
    ∃ k e, k ≤ vs.length ∧ (e = cwpRcEndOfInput ∨ e = cwpRcBufferUnderflow) ∧
      (p = b → k = vs.length ∧ e = cwpRcEndOfInput) ∧
      ∀ N, (follow UnpackOp.answer (List.replicate N .next) (.ok p)).1 = shown (vs.take k) e N := by
  induction vs generalizing b p with
  | nil =>
      obtain rfl : b = [] := h
      obtain rfl := List.prefix_nil.mp hp
      exact ⟨0, cwpRcEndOfInput, Nat.le_refl _, Or.inl rfl, fun _ => ⟨rfl, rfl⟩,
        fun N => follow_next_of_error rfl N⟩
  | cons v vs ih =>
      obtain ⟨bs, rest, rfl, hv, hrest⟩ := h
      by_cases hle : bs.length ≤ p.length
      · obtain ⟨q, rfl⟩ := List.prefix_of_prefix_length_le (List.prefix_append bs rest) hp hle
        obtain ⟨k, e, hk, he, hwhole, hshown⟩ := ih hrest ((List.prefix_append_right_inj bs).mp hp)
        refine ⟨k + 1, e, Nat.succ_le_succ hk, he, fun heq => ?_, fun N => ?_⟩
        · obtain ⟨hk', he'⟩ := hwhole (List.append_cancel_left heq)
          exact ⟨congrArg (· + 1) hk', he'⟩
        · cases N with
          | zero => rfl
          | succ N => rw [follow_next_of_spells hv, hshown N, List.take_succ_cons, shown_cons]
      · -- the part ends before the first value does
        obtain ⟨t, hbs⟩ := List.prefix_of_prefix_length_le hp (List.prefix_append bs rest) (by omega)
        have hlen := congrArg List.length hbs
        rw [List.length_append] at hlen
        have hne : p ≠ bs ++ rest := by
          intro heq
          have hlen' := congrArg List.length heq
          rw [List.length_append] at hlen'
          omega
        have ht : t ≠ [] := List.length_pos_iff.mp (by omega)
        cases p with
        | nil =>
            exact ⟨0, cwpRcEndOfInput, Nat.zero_le _, Or.inl rfl, fun heq => absurd heq hne,
              fun N => follow_next_of_error rfl N⟩
        | cons c w =>
            exact ⟨0, cwpRcBufferUnderflow, Nat.zero_le _, Or.inr rfl, fun heq => absurd heq hne,
              fun N => follow_next_of_error (readItem_of_cut hv hbs.symm (by simp) ht) N⟩

end CWPack.Core
