/-
  Core/Approximation.lean --- handlers that return less often.

  Where a handler approximates another one, so do the routines with these
  handlers: as long as a run with the first returns, the run with the second is
  the same.  A claim about runs that never ask a handler for some kind of refill
  is a claim about the handler that does not return from such a refill.  The same
  holds of packing and the overflow handler.
-/
import CWPack.Core.Reader

set_option autoImplicit false

namespace CWPack.Core

open CWPack.Foundation

variable {σ ρ : Type}

/-! ## Unpacking macros -/

/-- What the handlers are known to agree on: everything under `lax`, and else the code OK. -/
def Settled (lax : Prop) (rc : Int) : Prop := lax ∨ rc = cwpRcOk

section Macros

variable {lax : Prop} {h h' : UnpackUnderflowHandler σ}
  (hh : ∀ s n, AgreesOn (fun r => Settled lax r.1) (h s n) (h' s n))
include hh

/-- Where the handlers need not agree, the routine stops with a code that is not OK. -/
theorem cwUnpackAssertSpaceSub_agreesOn {good : ρ → Prop} {code : Int}
    (hcode : code ≠ cwpRcOk) {more : UnpackContext → Nat} {abort : UnpackState σ → ρ}
    (habort : ∀ s : UnpackState σ, good (abort s) → Settled lax s.uc.returnCode)
    {s : UnpackState σ} {k k' : Nat → UnpackState σ → Option ρ}
    (hk : ∀ p s, AgreesOn good (k p s) (k' p s)) :
    AgreesOn good (cwUnpackAssertSpaceSub (some h) code more abort s k)
      (cwUnpackAssertSpaceSub (some h') code more abort s k') := by
  unfold cwUnpackAssertSpaceSub
  by_cases hgt : s.uc.current + more s.uc > s.uc.end_
  · simp only [if_pos hgt]
    cases hcall : h s (more s.uc) with
    | none => exact agreesOn_none _ _
    | some r =>
        obtain ⟨rc, s'⟩ := r
        simp only
        by_cases hsettled : Settled lax rc
        · rw [hh s _ _ hcall hsettled]
          simp only
          by_cases hrc : rc ≠ cwpRcOk
          · rw [if_pos hrc, if_pos hrc]
            exact AgreesOn.refl _ _
          · rw [if_neg hrc, if_neg hrc]
            exact hk _ _
        · have hlax : ¬ lax := fun hl => hsettled (Or.inl hl)
          have hrc : rc ≠ cwpRcOk := fun hok => hsettled (Or.inr hok)
          intro a ha hgood
          rw [if_pos hrc] at ha
          by_cases hend : rc ≠ cwpRcEndOfInput
          · rw [if_pos hend] at ha
            obtain rfl := Option.some.inj ha
            exact absurd ((habort _ hgood).resolve_left hlax) hrc
          · rw [if_neg hend] at ha
            obtain rfl := Option.some.inj ha
            exact absurd ((habort _ hgood).resolve_left hlax) hcode
  · simp only [if_neg hgt]
    exact hk _ _

theorem cwUnpackAssertSpace_agreesOn {code : Int} (hcode : code ≠ cwpRcOk) {more : Nat}
    {s : UnpackState σ} {k k' : Nat → UnpackState σ → Option (UnpackState σ)}
    (hk : ∀ p s, AgreesOn (fun s => Settled lax s.uc.returnCode) (k p s) (k' p s)) :
    AgreesOn (fun s => Settled lax s.uc.returnCode) (cwUnpackAssertSpace (some h) code more s k)
      (cwUnpackAssertSpace (some h') code more s k') :=
  cwUnpackAssertSpaceSub_agreesOn hh hcode (by exact fun _ hgood => hgood) hk

theorem cwUnpackAssertBlob_agreesOn (s : UnpackState σ) :
    AgreesOn (fun s => Settled lax s.uc.returnCode) (cwUnpackAssertBlob (some h) s)
      (cwUnpackAssertBlob (some h') s) :=
  cwUnpackAssertSpaceSub_agreesOn hh (by decide) (by exact fun _ hgood => hgood)
    fun _ _ => AgreesOn.refl _ _

theorem getDDItemLoad_agreesOn {w : Nat} {load : Memory → Nat → Nat} {typ : ItemType}
    {store : Nat → ItemAs → ItemAs} {s : UnpackState σ}
    {k k' : UnpackState σ → Option (UnpackState σ)}
    (hk : ∀ s, AgreesOn (fun s => Settled lax s.uc.returnCode) (k s) (k' s)) :
    AgreesOn (fun s => Settled lax s.uc.returnCode) (getDDItemLoad (some h) w load typ store s k)
      (getDDItemLoad (some h') w load typ store s k') := by
  unfold getDDItemLoad
  exact cwUnpackAssertSpace_agreesOn hh (by decide) fun _ _ => hk _

theorem getDDItemFix_agreesOn (len : Nat) (s : UnpackState σ) :
    AgreesOn (fun s => Settled lax s.uc.returnCode) (getDDItemFix (some h) len s)
      (getDDItemFix (some h') len s) := by
  unfold getDDItemFix
  exact cwUnpackAssertSpace_agreesOn hh (by decide) fun _ _ => AgreesOn.refl _ _

end Macros

/-! ## Unpacking routines -/

section Routines

variable {lax : Prop} {h h' : UnpackUnderflowHandler σ}
  (hh : ∀ s n, AgreesOn (fun r => Settled lax r.1) (h s n) (h' s n))
include hh

theorem unpackSwitch_agreesOn (c : Nat) (s : UnpackState σ) :
    AgreesOn (fun s => Settled lax s.uc.returnCode) (unpackSwitch (some h) c s)
      (unpackSwitch (some h') c s) := by
  have hblob := fun s => cwUnpackAssertBlob_agreesOn hh s
  unfold unpackSwitch
  repeat' split
  all_goals first
    | exact AgreesOn.refl _ _
    | exact hblob _
    | exact getDDItemFix_agreesOn hh _ _
    | exact getDDItemLoad_agreesOn hh fun _ => AgreesOn.refl _ _
    | exact getDDItemLoad_agreesOn hh hblob
    | -- the extension formats read their type byte next
      refine getDDItemLoad_agreesOn hh fun s =>
        cwUnpackAssertSpace_agreesOn hh (by decide) fun p s => ?_
  · simp only
    split
    · split
      · exact cwUnpackAssertSpace_agreesOn hh (by decide) fun _ _ =>
          cwUnpackAssertSpace_agreesOn hh (by decide) fun _ _ => AgreesOn.refl _ _
      · exact AgreesOn.refl _ _
    · exact hblob _
  · exact hblob _
  · exact hblob _

theorem cwUnpackNext_agreesOn (s : UnpackState σ) :
    AgreesOn (fun s => Settled lax s.uc.returnCode) (cwUnpackNext (some h) s)
      (cwUnpackNext (some h') s) := by
  unfold cwUnpackNext
  split
  · exact AgreesOn.refl _ _
  · exact cwUnpackAssertSpace_agreesOn hh (by decide) fun _ _ => unpackSwitch_agreesOn hh _ _

theorem skipSwitch_agreesOn {loop loop' : Int64 → UnpackState σ → Option (UnpackState σ)}
    (hloop : ∀ n s, AgreesOn (fun s => Settled lax s.uc.returnCode) (loop n s) (loop' n s))
    (c : Nat) (n : Int64) (s : UnpackState σ) :
    AgreesOn (fun s => Settled lax s.uc.returnCode) (skipSwitch (some h) c n s loop)
      (skipSwitch (some h') c n s loop') := by
  have hskip : ∀ k s, AgreesOn (fun s => Settled lax s.uc.returnCode)
      (cwUnpackAssertSpace (some h) cwpRcBufferUnderflow k s fun _ s => loop n s)
      (cwUnpackAssertSpace (some h') cwpRcBufferUnderflow k s fun _ s => loop' n s) :=
    fun k s => cwUnpackAssertSpace_agreesOn hh (by decide) fun _ s => hloop n s
  unfold skipSwitch
  simp only
  repeat' split
  all_goals first
    | exact hloop _ _
    | exact hskip _ _
    | exact cwUnpackAssertSpace_agreesOn hh (by decide) fun _ _ => hskip _ _
    | exact cwUnpackAssertSpace_agreesOn hh (by decide) fun _ _ => hloop _ _
    | exact AgreesOn.refl _ _

/-- The induction is on the bound of the loop. -/
theorem skipLoop_agreesOn (fuel : Nat) :
    ∀ (n : Int64) (s : UnpackState σ),
      AgreesOn (fun s => Settled lax s.uc.returnCode) (skipLoop (some h) fuel n s)
        (skipLoop (some h') fuel n s) := by
  induction fuel with
  | zero =>
      intro n s
      exact agreesOn_none _ _
  | succ fuel ih =>
      intro n s
      unfold skipLoop
      split
      · exact cwUnpackAssertSpace_agreesOn hh (by decide) fun _ _ =>
          skipSwitch_agreesOn hh ih _ _ _
      · exact AgreesOn.refl _ _

theorem lookSwitch_agreesOn (c : Nat) (s : UnpackState σ) :
    AgreesOn (fun r => Settled lax r.2.uc.returnCode) (lookSwitch (some h) c s)
      (lookSwitch (some h') c s) := by
  unfold lookSwitch
  simp only
  repeat' split
  all_goals first
    | exact AgreesOn.refl _ _
    | exact cwUnpackAssertSpaceSub_agreesOn hh (by decide) (by exact fun _ hgood => hgood)
        fun _ _ => AgreesOn.refl _ _

theorem cwLookAhead_agreesOn (s : UnpackState σ) :
    AgreesOn (fun r => Settled lax r.2.uc.returnCode) (cwLookAhead (some h) s)
      (cwLookAhead (some h') s) := by
  unfold cwLookAhead
  split
  · exact AgreesOn.refl _ _
  · exact cwUnpackAssertSpaceSub_agreesOn hh (by decide) (by exact fun _ hgood => hgood)
      fun _ _ => lookSwitch_agreesOn hh _ _

/-- Where a call with the first handler is settled, the call with the second is the same. -/
theorem UnpackOp.perform_agreesOn (fuel : Nat) (op : UnpackOp) (s : UnpackState σ) :
    AgreesOn (fun r => Settled lax r.2.uc.returnCode) (op.perform fuel (some h) s)
      (op.perform fuel (some h') s) := by
  cases op with
  | next =>
      simp only [UnpackOp.perform]
      intro a ha hgood
      cases hcall : cwUnpackNext (some h) s with
      | none => simp [hcall] at ha
      | some s' =>
          rw [hcall] at ha
          obtain rfl := Option.some.inj ha
          rw [cwUnpackNext_agreesOn hh s _ hcall hgood]
  | lookAhead =>
      simp only [UnpackOp.perform]
      intro a ha hgood
      cases hcall : cwLookAhead (some h) s with
      | none => simp [hcall] at ha
      | some r =>
          rw [hcall] at ha
          obtain rfl := Option.some.inj ha
          rw [cwLookAhead_agreesOn hh s _ hcall hgood]
  | skip n =>
      have hskip : AgreesOn (fun s => Settled lax s.uc.returnCode)
          (cwSkipItems fuel (some h) n s) (cwSkipItems fuel (some h') n s) := by
        unfold cwSkipItems
        split
        · exact AgreesOn.refl _ _
        · exact skipLoop_agreesOn hh fuel n s
      simp only [UnpackOp.perform]
      intro a ha hgood
      cases hcall : cwSkipItems fuel (some h) n s with
      | none => simp [hcall] at ha
      | some s' =>
          rw [hcall] at ha
          obtain rfl := Option.some.inj ha
          rw [hskip _ hcall hgood]

/-- A code that is not OK stays: a run that is settled at its end was so all along. -/
theorem trace_agreesOn (fuel : Nat) (ops : List UnpackOp) (s : UnpackState σ) :
    AgreesOn (fun r => Settled lax r.2.uc.returnCode)
      (trace (UnpackOp.perform fuel (some h)) ops s)
      (trace (UnpackOp.perform fuel (some h')) ops s) := by
  induction ops generalizing s with
  | nil => exact AgreesOn.refl _ _
  | cons op ops ih =>
      intro a ha hgood
      simp only [trace] at ha ⊢
      cases hop : op.perform fuel (some h) s with
      | none => simp [hop] at ha
      | some r =>
          obtain ⟨o, mid⟩ := r
          rw [hop] at ha
          simp only at ha
          cases htail : trace (UnpackOp.perform fuel (some h)) ops mid with
          | none => simp [htail] at ha
          | some r' =>
              obtain ⟨os, last⟩ := r'
              rw [htail] at ha
              obtain rfl := Option.some.inj ha
              have hmid : Settled lax mid.uc.returnCode := by
                by_cases hrc : mid.uc.returnCode = cwpRcOk
                · exact Or.inr hrc
                · have hfixed := trace_of_fixed
                    (fun o => o.perform_of_stopped (H := some h) fuel hrc) ops
                  rw [htail] at hfixed
                  obtain ⟨-, rfl⟩ := Prod.mk.inj (Option.some.inj hfixed)
                  exact hgood
              rw [op.perform_agreesOn hh fuel s _ hop hmid]
              simp only
              rw [ih mid _ htail hgood]

end Routines

/-! ## Handlers that approximate -/

section Approximating

variable {h h' : UnpackUnderflowHandler σ}
  (hh : ∀ s n, Approximates (h s n) (h' s n))
include hh

theorem UnpackOp.perform_approximates (fuel : Nat) (op : UnpackOp) (s : UnpackState σ) :
    Approximates (op.perform fuel (some h) s) (op.perform fuel (some h') s) :=
  have hagree : ∀ s n, AgreesOn (fun r => Settled True r.1) (h s n) (h' s n) :=
    fun s n a ha _ => hh s n a ha
  fun a ha => op.perform_agreesOn hagree fuel s a ha (Or.inl trivial)

/-- Whole runs agree as long as the first returns. -/
theorem trace_approximates (fuel : Nat) (ops : List UnpackOp) (s : UnpackState σ) :
    Approximates (trace (UnpackOp.perform fuel (some h)) ops s)
      (trace (UnpackOp.perform fuel (some h')) ops s) :=
  Approximates.trace (fun op s => op.perform_approximates hh fuel s) ops s

end Approximating

/-! ## Packing -/

section Packing

variable {h h' : PackOverflowHandler σ} {f f' : Option (PackFlushHandler σ)}
  (hh : ∀ s n, Approximates (h s n) (h' s n))
include hh

theorem cwPackNewBuffer_approximates {more : Nat} {s : PackState σ}
    {k : PackState σ → Option (PackState σ)} :
    Approximates (cwPackNewBuffer ⟨some h, f⟩ more s k) (cwPackNewBuffer ⟨some h', f'⟩ more s k) := by
  unfold cwPackNewBuffer
  simp only
  cases hcall : h s more with
  | none => exact approximates_none _
  | some r =>
      rw [hh s _ _ hcall]
      exact Approximates.refl _

theorem cwPackReserveSpace_approximates {l c : Nat} {s : PackState σ}
    {k : Nat → PackState σ → Option (PackState σ)} :
    Approximates (cwPackReserveSpace ⟨some h, f⟩ l c s k)
      (cwPackReserveSpace ⟨some h', f'⟩ l c s k) := by
  unfold cwPackReserveSpace
  simp only
  split
  · exact cwPackNewBuffer_approximates hh
  · exact Approximates.refl _

theorem tryMove0_approximates (t : Nat) (s : PackState σ) :
    Approximates (tryMove0 ⟨some h, f⟩ t s) (tryMove0 ⟨some h', f'⟩ t s) := by
  unfold tryMove0
  simp only
  split
  · exact cwPackNewBuffer_approximates hh
  · exact Approximates.refl _

/-- A string is packed by one reservation, as a binary blob is in the old format. -/
theorem cwPackStr_approximates (v : Blob) (s : PackState σ) :
    Approximates (cwPackStr ⟨some h, f⟩ v s) (cwPackStr ⟨some h', f'⟩ v s) := by
  unfold cwPackStr
  simp only
  repeat' split
  all_goals first
    | exact Approximates.refl _
    | exact cwPackReserveSpace_approximates hh

theorem cwPack_approximates (c : PackCall) (s : PackState σ) :
    Approximates (cwPack ⟨some h, f⟩ c s) (cwPack ⟨some h', f'⟩ c s) := by
  have hmove : ∀ t, Approximates (tryMove0 ⟨some h, f⟩ t s) (tryMove0 ⟨some h', f'⟩ t s) :=
    fun t => tryMove0_approximates hh t s
  have hstr : ∀ v, Approximates (cwPackStr ⟨some h, f⟩ v s) (cwPackStr ⟨some h', f'⟩ v s) :=
    fun v => cwPackStr_approximates hh v s
  cases c
  all_goals
    simp only [cwPack, cwPackNil, cwPackTrue, cwPackFalse, cwPackBoolean, cwPackUnsigned,
      cwPackSigned, cwPackFloat, cwPackDouble, cwPackArraySize, cwPackMapSize, cwPackBin,
      cwPackExt, cwPackTime, tryMove1, tryMove2, tryMove4, tryMove8]
    repeat' split
  all_goals first
    | exact Approximates.refl _
    | exact hmove _
    | exact hstr _
    | exact cwPackReserveSpace_approximates hh

theorem PackOp.perform_approximates (op : PackOp) (s : PackState σ) :
    Approximates (op.perform ⟨some h, f⟩ s) (op.perform ⟨some h', f'⟩ s) := by
  cases op with
  | call c => exact cwPack_approximates hh c s
  | insert v =>
      simp only [PackOp.perform, cwPackInsert]
      exact cwPackReserveSpace_approximates hh
  | setCompatibility b => exact Approximates.refl _

end Packing

end CWPack.Core
