/-
  Core/Upkeep.lean --- what every handler keeps, every routine keeps.

  `Keeps h inv` says of an underflow handler that it keeps a predicate of the
  input side of a state, and that a refill it calls good is one.  Nothing is said
  of the bytes, and the handler may fail as it likes.  Every call then keeps the
  predicate, on every input.  `KeepsPacked H inv` is the same for packing.
-/
import CWPack.Core.Reader
import CWPack.Core.Sink

set_option autoImplicit false

namespace CWPack.Core

open CWPack.Foundation

variable {σ ρ : Type}

/-- The handler keeps `inv`, and moving the cursor inside the window does. -/
structure Keeps (h : UnpackUnderflowHandler σ) (inv : UnpackInput σ → Prop) : Prop where
  advance : ∀ {x n}, inv x → x.current + n ≤ x.end_ → inv (x.seek (x.current + n))
  refill : ∀ {s more rc t}, inv s.input → s.uc.end_ < s.uc.current + more →
    h s more = some (rc, t) →
    t.uc.item = s.uc.item ∧ inv t.input ∧ (rc = cwpRcOk → t.uc.current + more ≤ t.uc.end_)

/-- Where a computation returns, `inv` holds. -/
abbrev Leaves (inv : UnpackInput σ → Prop) (r : Option (UnpackState σ)) : Prop :=
  Ends True (fun s => inv s.input) r

section Macros

variable {h : UnpackUnderflowHandler σ} {inv : UnpackInput σ → Prop} {s : UnpackState σ}

/-- The rule for `cw_unpack_assert_space_sub`. -/
theorem Keeps.assertSpaceSub (K : Keeps h inv) {code : Int} {more : UnpackContext → Nat}
    {abort : UnpackState σ → ρ} {k : Nat → UnpackState σ → Option ρ} {post : ρ → Prop}
    (hinv : inv s.input) (hmore : ∀ uc : UnpackContext, uc.item = s.uc.item → more uc = more s.uc)
    (habort : ∀ s', inv s'.input → post (abort s'))
    (hk : ∀ p s', inv (s'.input.seek p) → inv s'.input → s'.uc.current = p + more s.uc →
      Ends True post (k p s')) :
    Ends True post (cwUnpackAssertSpaceSub (some h) code more abort s k) := by
  unfold cwUnpackAssertSpaceSub
  by_cases hgt : s.uc.current + more s.uc > s.uc.end_
  · simp only [if_pos hgt]
    cases hcall : h s (more s.uc) with
    | none => trivial
    | some r =>
        obtain ⟨rc, t⟩ := r
        obtain ⟨hitem, hinv', hroom⟩ := K.refill hinv hgt hcall
        simp only
        by_cases hrc : rc = cwpRcOk
        · rw [if_neg (not_not_intro hrc), hmore t.uc hitem]
          exact hk _ _ hinv' (K.advance hinv' (hroom hrc)) rfl
        · rw [if_pos hrc]
          split <;> exact habort _ hinv'
  · simp only [if_neg hgt]
    exact hk _ _ hinv (K.advance hinv (Nat.not_lt.mp hgt)) rfl

theorem Keeps.assertSpace (K : Keeps h inv) {code : Int} {n : Nat}
    {k : Nat → UnpackState σ → Option (UnpackState σ)} (hinv : inv s.input)
    (hk : ∀ p s', inv s'.input → Leaves inv (k p s')) :
    Leaves inv (cwUnpackAssertSpace (some h) code n s k) :=
  K.assertSpaceSub hinv (fun _ _ => rfl) (fun _ hinv' => hinv') fun p s' _ hinv' _ =>
    hk p s' hinv'

theorem Keeps.assertBlob (K : Keeps h inv) (hinv : inv s.input) :
    Leaves inv (cwUnpackAssertBlob (some h) s) :=
  K.assertSpaceSub hinv (fun uc huc => by rw [huc]) (fun _ hinv' => hinv') fun _ _ _ hinv' _ =>
    hinv'

theorem Keeps.load (K : Keeps h inv) {w : Nat} {load : Memory → Nat → Nat} {typ : ItemType}
    {store : Nat → ItemAs → ItemAs} {k : UnpackState σ → Option (UnpackState σ)}
    (hinv : inv s.input) (hk : ∀ s' : UnpackState σ, inv s'.input → Leaves inv (k s')) :
    Leaves inv (getDDItemLoad (some h) w load typ store s k) :=
  K.assertSpace hinv fun _ _ hinv' => hk _ hinv'

theorem Keeps.fix (K : Keeps h inv) (len : Nat) (hinv : inv s.input) :
    Leaves inv (getDDItemFix (some h) len s) := by
  refine K.assertSpace hinv fun p s' hinv' => ?_
  simp only
  repeat' split
  all_goals exact hinv'

theorem Keeps.retagSigned (hinv : inv s.input) : Leaves inv (retagSigned s) := by
  unfold CWPack.Core.retagSigned
  split <;> exact hinv

end Macros

/-! ## Routines -/

section Routines

variable {h : UnpackUnderflowHandler σ} {inv : UnpackInput σ → Prop} {s : UnpackState σ}

theorem Keeps.unpackSwitch (K : Keeps h inv) (c : Nat) (hinv : inv s.input) :
    Leaves inv (unpackSwitch (some h) c s) := by
  have hblob : ∀ s' : UnpackState σ, inv s'.input → Leaves inv (cwUnpackAssertBlob (some h) s') :=
    fun _ => K.assertBlob
  unfold CWPack.Core.unpackSwitch
  repeat' split
  all_goals first
    | exact hinv
    | exact hblob _ hinv
    | exact K.fix _ hinv
    | exact K.load hinv fun _ hinv' => hinv'
    | exact K.load hinv hblob
    | exact K.load hinv fun _ => Keeps.retagSigned
    | -- the extension formats read their type byte next
      refine K.load hinv fun s' hinv' => K.assertSpace hinv' fun p s' hinv' => ?_
  · simp only
    split
    · split
      · exact K.assertSpace hinv' fun _ _ hinv' => K.assertSpace hinv' fun _ _ hinv' => hinv'
      · exact hinv'
    · exact hblob _ hinv'
  · exact hblob _ hinv'
  · exact hblob _ hinv'

theorem Keeps.cwUnpackNext (K : Keeps h inv) (hinv : inv s.input) :
    Leaves inv (cwUnpackNext (some h) s) := by
  unfold CWPack.Core.cwUnpackNext
  split
  · exact hinv
  · exact K.assertSpace hinv fun _ _ hinv' => K.unpackSwitch _ hinv'

theorem Keeps.skipSwitch (K : Keeps h inv)
    {loop : Int64 → UnpackState σ → Option (UnpackState σ)}
    (hloop : ∀ n s', inv s'.input → Leaves inv (loop n s')) (c : Nat) (n : Int64)
    (hinv : inv s.input) : Leaves inv (skipSwitch (some h) c n s loop) := by
  have hskip : ∀ k (s' : UnpackState σ), inv s'.input → Leaves inv
      (cwUnpackAssertSpace (some h) cwpRcBufferUnderflow k s' fun _ s => loop n s) :=
    fun k s' hinv' => K.assertSpace hinv' fun _ s hinv' => hloop n s hinv'
  unfold CWPack.Core.skipSwitch
  simp only
  repeat' split
  all_goals first
    | exact hloop _ _ hinv
    | exact hskip _ _ hinv
    | exact K.assertSpace hinv fun _ _ hinv' => hskip _ _ hinv'
    | exact K.assertSpace hinv fun _ _ hinv' => hloop _ _ hinv'
    | exact hinv

/-- The induction is on the bound of the loop. -/
theorem Keeps.skipLoop (K : Keeps h inv) (fuel : Nat) :
    ∀ (n : Int64) (s : UnpackState σ), inv s.input → Leaves inv (skipLoop (some h) fuel n s) := by
  induction fuel with
  | zero => exact fun _ _ _ => trivial
  | succ fuel ih =>
      intro n s hinv
      unfold CWPack.Core.skipLoop
      split
      · exact K.assertSpace hinv fun _ _ hinv' => K.skipSwitch ih _ _ hinv'
      · exact hinv

/-- Looking ahead steps back to where space was asserted. -/
theorem Keeps.lookSwitch (K : Keeps h inv) (c : Nat) (hinv : inv s.input) :
    Ends True (fun r => inv r.2.input) (lookSwitch (some h) c s) := by
  have hback : ∀ (n : Nat) (k : Nat → UnpackState σ → Option (ItemType × UnpackState σ)),
      (∀ p (s' : UnpackState σ), inv (s'.setCurrent (s'.uc.current - n)).input →
        Ends True (fun r => inv r.2.input) (k p s')) →
      Ends True (fun r => inv r.2.input)
        (cwUnpackAssertSpaceSub (some h) cwpRcBufferUnderflow (fun _ => n)
          (ItemType.notAnItem, ·) s k) := by
    intro n k hk
    refine K.assertSpaceSub hinv (fun _ _ => rfl) (fun _ hinv' => hinv') fun p s' hp _ hcur => ?_
    refine hk p s' ?_
    have hsub : s'.uc.current - n = p := by omega
    rw [UnpackState.input_setCurrent, hsub]
    exact hp
  unfold CWPack.Core.lookSwitch
  simp only
  repeat' split
  all_goals first
    | exact hinv
    | exact hback _ _ fun p s' hs' => hs'

theorem Keeps.cwLookAhead (K : Keeps h inv) (hinv : inv s.input) :
    Ends True (fun r => inv r.2.input) (cwLookAhead (some h) s) := by
  unfold CWPack.Core.cwLookAhead
  split
  · exact hinv
  · refine K.assertSpaceSub hinv (fun _ _ => rfl) (fun _ hinv' => hinv') fun p s' hp _ hcur => ?_
    refine K.lookSwitch _ ?_
    have hsub : s'.uc.current - 1 = p := by omega
    rw [UnpackState.input_setCurrent, hsub]
    exact hp

/-- Every call keeps what every refill keeps. -/
theorem Keeps.perform (K : Keeps h inv) (fuel : Nat) (op : UnpackOp) {s s' : UnpackState σ}
    {o : Observation} (hinv : inv s.input) (hcall : op.perform fuel (some h) s = some (o, s')) :
    inv s'.input := by
  cases op with
  | next =>
      have hkept := K.cwUnpackNext hinv
      cases hnext : CWPack.Core.cwUnpackNext (some h) s with
      | none => simp [UnpackOp.perform, hnext] at hcall
      | some t =>
          obtain ⟨-, rfl⟩ : _ ∧ t = s' := by simpa [UnpackOp.perform, hnext] using hcall
          exact hkept.of_eq_some hnext
  | lookAhead =>
      have hkept := K.cwLookAhead hinv
      cases hlook : CWPack.Core.cwLookAhead (some h) s with
      | none => simp [UnpackOp.perform, hlook] at hcall
      | some r =>
          obtain ⟨-, rfl⟩ : _ ∧ r.2 = s' := by simpa [UnpackOp.perform, hlook] using hcall
          exact hkept.of_eq_some hlook
  | skip n =>
      have hkept : Leaves inv (cwSkipItems fuel (some h) n s) := by
        unfold cwSkipItems
        split
        · exact hinv
        · exact K.skipLoop fuel n s hinv
      cases hskip : cwSkipItems fuel (some h) n s with
      | none => simp [UnpackOp.perform, hskip] at hcall
      | some t =>
          obtain ⟨-, rfl⟩ : _ ∧ t = s' := by simpa [UnpackOp.perform, hskip] using hcall
          exact hkept.of_eq_some hskip

end Routines

/-! ## Packing -/

/-- The handlers keep `inv`, and appending bytes at the cursor does. -/
structure KeepsPacked (H : PackHandlers σ) (inv : PackState σ → Prop) : Prop where
  append : ∀ {s} (bs), inv s → inv (s.append bs)
  returnCode : ∀ {s} (rc), inv s → inv (s.setReturnCode rc)
  mode : ∀ {s} (b), inv s → inv (cwPackSetCompatibility b s)
  overflow : ∀ {handler s more rc t}, H.handlePackOverflow = some handler → inv s →
    handler s more = some (rc, t) → inv t
  flush : ∀ {handler s rc t}, H.handleFlush = some handler → inv s →
    handler s = some (rc, t) → inv t

section Packing

variable {H : PackHandlers σ} {inv : PackState σ → Prop} {s s' : PackState σ}

theorem KeepsPacked.newBuffer (K : KeepsPacked H inv) {more : Nat} {bs : List UInt8}
    (hinv : inv s) : Ends True inv (cwPackNewBuffer H more s fun s => some (s.append bs)) := by
  unfold cwPackNewBuffer
  cases hH : H.handlePackOverflow with
  | none => exact K.returnCode _ hinv
  | some handler =>
      simp only
      cases hcall : handler s more with
      | none => trivial
      | some r =>
          have hinv' := K.overflow hH hinv hcall
          simp only
          split
          · exact K.returnCode _ hinv'
          · exact K.append bs hinv'

theorem KeepsPacked.emit (K : KeepsPacked H inv) {bs : List UInt8} (hinv : inv s) :
    Ends True inv (emit H bs s) := by
  by_cases hfit : s.pc.current + bs.length ≤ s.pc.end_
  · rw [emit_of_le H hfit]
    exact K.append bs hinv
  · rw [emit_of_gt H (Nat.lt_of_not_le hfit)]
    exact K.newBuffer hinv

theorem KeepsPacked.puts (K : KeepsPacked H inv) {bs : List UInt8} {r : Option (PackState σ)}
    (hputs : Puts H s bs r) (hinv : inv s) : Ends True inv r := by
  cases hputs with
  | emit => exact K.emit hinv
  | move t =>
      unfold tryMove0
      simp only
      split
      · show Ends True inv (cwPackNewBuffer H 1 s fun s => some (s.append [UInt8.ofNat t]))
        exact K.newBuffer hinv
      · exact K.append [UInt8.ofNat t] hinv

/-- Every operation keeps what the handlers keep. -/
theorem KeepsPacked.perform (K : KeepsPacked H inv) (op : PackOp) (hinv : inv s)
    (hcall : op.perform H s = some s') : inv s' := by
  cases op with
  | call c =>
      by_cases hrc : s.pc.returnCode = 0
      · have hputs := cwPack_puts H c hrc
        cases henc : c.encoding s.pc.beCompatible with
        | error e =>
            rw [henc] at hputs
            obtain rfl := Option.some.inj (hputs.symm.trans hcall)
            exact K.returnCode e hinv
        | ok bs =>
            rw [henc] at hputs
            exact (K.puts hputs hinv).of_eq_some hcall
      · obtain rfl := Option.some.inj ((cwPack_of_stopped H c hrc).symm.trans hcall)
        exact hinv
  | insert v => exact (K.emit hinv).of_eq_some hcall
  | setCompatibility b =>
      obtain rfl := Option.some.inj hcall
      exact K.mode b hinv

theorem KeepsPacked.cwPackFlush (K : KeepsPacked H inv) (hinv : inv s)
    (hcall : cwPackFlush H s = some s') : inv s' := by
  unfold CWPack.Core.cwPackFlush at hcall
  by_cases hrc : s.pc.returnCode = cwpRcOk
  · rw [if_pos hrc] at hcall
    cases hH : H.handleFlush with
    | none =>
        rw [hH] at hcall
        obtain rfl := Option.some.inj hcall
        exact K.returnCode _ hinv
    | some handler =>
        simp only [hH] at hcall
        cases hflush : handler s with
        | none => simp [hflush] at hcall
        | some r =>
            simp only [hflush] at hcall
            obtain rfl := Option.some.inj hcall
            exact K.returnCode _ (K.flush hH hinv hflush)
  · rw [if_neg hrc] at hcall
    obtain rfl := Option.some.inj hcall
    exact hinv

end Packing

end CWPack.Core
