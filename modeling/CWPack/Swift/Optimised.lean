/-
  Swift/Optimised.lean --- what `optimizeReal` changes.

  With `optimizeReal` a packer writes a real number as an integer, or a double as
  a float, where that is the same number.  So every value comes back from it as
  from a packer without, up to numbers that are equal, and its data are no longer.
-/
import Mathlib.Algebra.Order.BigOperators.Group.List
import Mathlib.Algebra.Order.Group.Nat
import Mathlib.Data.List.Forall2
import CWPack.Core.Canonical
import CWPack.Swift.Packers

set_option autoImplicit false

namespace CWPack.Swift

open CWPack.Foundation
open CWPack.Core
open CWPack.Goodies
open CWPack.MessagePack

variable {α β : Type}

/-! ## Equal numbers -/

/-- `y` is `x`, or equal to it as a number. -/
def SameNumber (eq : α → α → Bool) (y x : α) : Prop := y = x ∨ eq y x = true

/-- What a machine does with numbers: an integer converts alike, of whatever type it is, and
`==` is symmetric and transitive. -/
structure Arithmetic (F : FloatUnit) : Prop where
  floatOfInt : ∀ i : Int32, F.floatOfInt i =
    if 0 ≤ i.toInt then F.floatOfUInt64 (.ofNat i.toInt.toNat) else F.floatOfInt64 (.ofInt i.toInt)
  doubleOfInt : ∀ i : Int32, F.doubleOfInt i =
    if 0 ≤ i.toInt then F.doubleOfUInt64 (.ofNat i.toInt.toNat) else F.doubleOfInt64 (.ofInt i.toInt)
  floatEq_symm : ∀ a b, F.floatEq a b = true → F.floatEq b a = true
  floatEq_trans : ∀ a b c, F.floatEq a b = true → F.floatEq b c = true → F.floatEq a c = true
  doubleEq_symm : ∀ a b, F.doubleEq a b = true → F.doubleEq b a = true
  doubleEq_trans : ∀ a b c, F.doubleEq a b = true → F.doubleEq b c = true → F.doubleEq a c = true

/-- The same numbers compare alike. -/
theorem SameNumber.eq_congr {eq : α → α → Bool} (symm : ∀ a b, eq a b = true → eq b a = true)
    (trans : ∀ a b c, eq a b = true → eq b c = true → eq a c = true) {a' a b' b : α}
    (ha : SameNumber eq a' a) (hb : SameNumber eq b' b) : eq a' b' = eq a b := by
  have hleft : eq a' b' = eq a b' := by
    rcases ha with rfl | ha
    · rfl
    · exact Bool.eq_iff_iff.mpr ⟨trans _ _ _ (symm _ _ ha), trans _ _ _ ha⟩
  rcases hb with rfl | hb
  · exact hleft
  · refine hleft.trans (Bool.eq_iff_iff.mpr ⟨fun h => ?_, fun h => ?_⟩)
    · exact trans _ _ _ h hb
    · exact trans _ _ _ h (symm _ _ hb)

/-! ## Values that are alike -/

section Alike

variable (R : Runtime)

/-- Real numbers are the same numbers, and all else is equal. -/
def BasicType.Alike : (t : BasicType) → t.Carrier → t.Carrier → Prop
  | float, y, x => SameNumber R.floatUnit.floatEq y x
  | double, y, x => SameNumber R.floatUnit.doubleEq y x
  | _, y, x => y = x

/-- Alike element by element. -/
def PackableType.Alike : (t : PackableType) → t.Carrier R → t.Carrier R → Prop
  | basic t, y, x => t.Alike R y x
  | array t, ys, xs => List.Forall₂ t.Alike ys xs
  | dictionary k t, d', d =>
      List.Forall₂ (fun e' e => k.basic.Alike R e'.1 e.1 ∧ t.Alike e'.2 e.2) d'.entries d.entries

variable {R}

/-- Keys that are alike compare alike. -/
theorem HashableType.eq_congr (hF : Arithmetic R.floatUnit) (k : HashableType)
    {a' a b' b : k.basic.Carrier} (ha : k.basic.Alike R a' a) (hb : k.basic.Alike R b' b) :
    k.eq R a' b' = k.eq R a b := by
  cases k with
  | float => exact SameNumber.eq_congr hF.floatEq_symm hF.floatEq_trans ha hb
  | double => exact SameNumber.eq_congr hF.doubleEq_symm hF.doubleEq_trans ha hb
  | _ =>
      obtain rfl : a' = a := ha
      obtain rfl : b' = b := hb
      rfl

theorem forall_mem_iff_of_forall₂ {r : α → β → Prop} {p : α → Prop} {q : β → Prop}
    (hpq : ∀ a b, r a b → (p a ↔ q b)) {as : List α} {bs : List β} (h : List.Forall₂ r as bs) :
    (∀ a ∈ as, p a) ↔ ∀ b ∈ bs, q b := by
  induction h with
  | nil => simp only [List.not_mem_nil, false_implies, implies_true]
  | cons hab _ ih => rw [List.forall_mem_cons, List.forall_mem_cons, hpq _ _ hab, ih]

/-- Setting a key keeps dictionaries alike: it is new in both, or in neither. -/
theorem PackableType.Alike.set (hF : Arithmetic R.floatUnit) {k : HashableType} {t : PackableType}
    {d' d : Dictionary R k (t.Carrier R)} (h : (dictionary k t).Alike R d' d)
    {key' key : k.basic.Carrier} (hkey : k.basic.Alike R key' key) {value' value : t.Carrier R}
    (hvalue : t.Alike R value' value) :
    (dictionary k t).Alike R (d'.set key' value') (d.set key value) := by
  have hentries : List.Forall₂ (fun e' e => k.basic.Alike R e'.1 e.1 ∧ t.Alike R e'.2 e.2)
    d'.entries d.entries := h
  have hnew := forall_mem_iff_of_forall₂ (p := fun e' => k.eq R e'.1 key' = false)
    (q := fun e => k.eq R e.1 key = false)
    (fun e' e he => by rw [k.eq_congr hF he.1 hkey]) hentries
  show List.Forall₂ _ (d'.set key' value').entries (d.set key value).entries
  unfold Dictionary.set
  by_cases hall : ∀ e ∈ d.entries, k.eq R e.1 key = false
  · rw [dif_pos hall, dif_pos (hnew.mpr hall)]
    exact List.rel_append hentries (.cons ⟨hkey, hvalue⟩ .nil)
  · rw [dif_neg hall, dif_neg fun hall' => hall (hnew.mp hall')]
    refine List.rel_map (fun e' e he => ⟨he.1, ?_⟩) hentries
    show t.Alike R (if k.eq R e'.1 key' then value' else e'.2) (if k.eq R e.1 key then value else e.2)
    rw [k.eq_congr hF he.1 hkey]
    split
    · exact hvalue
    · exact he.2

end Alike

/-! ## Both packers' calls -/

section Calls

variable {R : Runtime}

theorem encode_signed_length_le (i : Int32) :
    (encode false (PackCall.signed i.toInt64).value).length ≤ 5 := by
  have hlo := i.le_toInt
  have hhi := i.toInt_lt
  show (encodeInt i.toInt64.toInt).length ≤ 5
  rw [Int32.toInt_toInt64, encodeInt]
  split
  · exact encodeUInt_length_le_of_lt (w := 4) (by decide) (by omega)
  · exact encodeNegative_length_le_of_le (w := 4) (by decide) (by omega)

/-- How many bytes the calls take. -/
def size (cs : List PackCall) : Nat := (cs.map fun c => (encode false c.value).length).sum

theorem size_append (cs cs' : List PackCall) : size (cs ++ cs') = size cs + size cs' := by
  rw [size, List.map_append, List.sum_append]
  rfl

theorem size_flatMap (f : α → List PackCall) (xs : List α) :
    size (xs.flatMap f) = (xs.map fun x => size (f x)).sum := by
  induction xs with
  | nil => rfl
  | cons x xs ih => rw [List.flatMap_cons, size_append, ih, List.map_cons, List.sum_cons]

theorem Sound.encoding_eq {c : PackCall} (h : Sound c) :
    c.encoding false = .ok (encode false c.value) := by
  obtain ⟨bs, hbs⟩ := h.legal
  unfold PackCall.encoding at hbs ⊢
  split at hbs
  · exact absurd hbs (by simp)
  · rfl

theorem encoded_length {cs : List PackCall} (h : ∀ c ∈ cs, Sound c) :
    (encoded cs).length = size cs := by
  induction cs with
  | nil => rfl
  | cons c cs ih =>
      have hone := (h c List.mem_cons_self).encoding_eq
      have hcons : encoded (c :: cs) = encode false c.value ++ encoded cs := by
        simp only [encoded, List.map_cons, encodings, hone, concat]
      rw [hcons, List.length_append, ih fun d hd => h d (List.mem_cons_of_mem c hd)]
      rfl

/-- A number in its shortest form is the same number. -/
theorem BasicType.received_alike (hF : Arithmetic R.floatUnit) (t : BasicType) (x : t.Carrier) :
    t.Alike R (t.received R true x) (t.received R false x) := by
  cases t with
  | float =>
      have hplain : float.received R false x = x :=
        received_eq (c := .float x) rfl (congrArg (some <| Except.ok ·) UInt32.ofNat_toNat)
      rw [hplain]
      rcases floatOptCall_cases R.floatUnit x with ⟨i, heq, hcall⟩ | hcall
      · have hreceived : float.received R true x = R.floatUnit.floatOfInt i := by
          refine received_eq (congrArg some hcall) ?_
          rw [hF.floatOfInt, ← Int32.toInt_toInt64]
          rfl
        rw [hreceived]
        exact Or.inr heq
      · exact Or.inl (received_eq (congrArg some hcall)
          (congrArg (some <| Except.ok ·) UInt32.ofNat_toNat))
  | double =>
      have hplain : double.received R false x = x :=
        received_eq (c := .double x) rfl (congrArg (some <| Except.ok ·) UInt64.ofNat_toNat)
      rw [hplain]
      rcases doubleOptCall_cases R.floatUnit x with ⟨i, heq, hcall⟩ | ⟨f, heq, hcall⟩ | hcall
      · have hreceived : double.received R true x = R.floatUnit.doubleOfInt i := by
          refine received_eq (congrArg some hcall) ?_
          rw [hF.doubleOfInt, ← Int32.toInt_toInt64]
          rfl
        rw [hreceived]
        exact Or.inr heq
      · have hreceived : double.received R true x = R.floatUnit.doubleOfFloat f := by
          refine received_eq (congrArg some hcall) ?_
          show some (Except.ok (R.floatUnit.doubleOfFloat (.ofNat f.toNat))) = _
          rw [UInt32.ofNat_toNat]
        rw [hreceived]
        exact Or.inr heq
      · exact Or.inl (received_eq (congrArg some hcall)
          (congrArg (some <| Except.ok ·) UInt64.ofNat_toNat))
  | _ => rfl

theorem BasicType.size_call_le (t : BasicType) (x : t.Carrier) :
    size (t.call R true x).toList ≤ size (t.call R false x).toList := by
  cases t with
  | float =>
      show size [floatOptCall R.floatUnit x] ≤ 5
      rcases floatOptCall_cases R.floatUnit x with ⟨i, -, hcall⟩ | hcall
      · rw [hcall]
        exact encode_signed_length_le i
      · rw [hcall]
        exact Nat.le_refl 5
  | double =>
      show size [doubleOptCall R.floatUnit x] ≤ 9
      rcases doubleOptCall_cases R.floatUnit x with ⟨i, -, hcall⟩ | ⟨f, -, hcall⟩ | hcall
      · rw [hcall]
        exact Nat.le_trans (encode_signed_length_le i) (by decide)
      · rw [hcall]
        exact (by decide : 5 ≤ 9)
      · rw [hcall]
        exact Nat.le_refl 9
  | _ => exact Nat.le_refl _

/-- What comes back of a value is alike, element by element. -/
theorem PackableType.received_alike (hF : Arithmetic R.floatUnit) (t : PackableType)
    (x : t.Carrier R) : t.Alike R (t.received R true x) (t.received R false x) := by
  induction t with
  | basic t => exact t.received_alike hF x
  | array t ih =>
      show List.Forall₂ _ (x.map (t.received R true)) (x.map (t.received R false))
      refine List.forall₂_map_left_iff.mpr (List.forall₂_map_right_iff.mpr ?_)
      exact List.forall₂_same.mpr fun e _ => ih e
  | dictionary k t ih =>
      have hempty : (dictionary k t).Alike R .empty .empty := List.Forall₂.nil
      have hset : ∀ ⦃d' d : Dictionary R k (t.Carrier R)⦄, (dictionary k t).Alike R d' d →
          ∀ ⦃e' e : k.basic.Carrier × t.Carrier R⦄,
            k.basic.Alike R e'.1 e.1 ∧ t.Alike R e'.2 e.2 →
              (dictionary k t).Alike R (d'.set e'.1 e'.2) (d.set e.1 e.2) :=
        fun d' d hd e' e he => hd.set hF he.1 he.2
      refine List.rel_foldl hset hempty ?_
      refine List.forall₂_map_left_iff.mpr (List.forall₂_map_right_iff.mpr ?_)
      exact List.forall₂_same.mpr fun e _ => ⟨k.basic.received_alike hF e.1, ih e.2⟩

/-- And it is packed in no more bytes. -/
theorem PackableType.size_calls_le (t : PackableType) (x : t.Carrier R) :
    size (t.calls R true x) ≤ size (t.calls R false x) := by
  induction t with
  | basic t => exact t.size_call_le x
  | array t ih =>
      rw [calls, calls, size_append, size_append, size_flatMap, size_flatMap]
      exact Nat.add_le_add (BasicType.size_call_le _ _) (List.sum_le_sum fun e _ => ih e)
  | dictionary k t ih =>
      rw [calls, calls, size_append, size_append, size_flatMap, size_flatMap]
      refine Nat.add_le_add (BasicType.size_call_le _ _) (List.sum_le_sum fun e _ => ?_)
      rw [size_append, size_append]
      exact Nat.add_le_add (BasicType.size_call_le _ _) (ih e.2)

end Calls

/-! ## Both packers' data -/

section Packers

variable {R : Runtime}

/-- The value, as it comes to a packer with this `optimizeReal`. -/
def Packable.withOptimizeReal (b : Bool) (x : Packable R) : Packable R :=
  { x with optimizeReal := b }

/-- Values of one type that are alike. -/
def Result.Alike (o' o : Result R) : Prop :=
  ∃ t y x, o' = ⟨t, .ok y⟩ ∧ o = ⟨t, .ok x⟩ ∧ t.Alike R y x

/-- The same values packed with and without `optimizeReal`: the data are no longer, and what
either unpacker gives of them is alike.  Without, plain values come back as they were. -/
theorem optimised_packer_agrees (hutf8 : R.DecodesUtf8) (hF : Arithmetic R.floatUnit)
    {malloc : Allocator} (hheap : ∀ i n, (malloc i n).isSome) {xs : List (Packable R)}
    (h : ∀ x ∈ xs, x.Fits)
    (hsize : (encoded ((xs.map (.withOptimizeReal false)).flatMap Packable.calls)).length < 2 ^ 62)
    (s : PackState DynamicMemoryPackEnv) :
    ∃ s' s'' seen' seen, run (Packable.cwPack (dynamicMemoryPackHandlers 64 malloc))
        (xs.map (.withOptimizeReal true)) (cwDataPacker malloc s) = some s' ∧
      run (Packable.cwPack (dynamicMemoryPackHandlers 64 malloc))
        (xs.map (.withOptimizeReal false)) (cwDataPacker malloc s) = some s'' ∧
      s'.pc.returnCode = cwpRcOk ∧ s''.pc.returnCode = cwpRcOk ∧
      (packedData s').length ≤ (packedData s'').length ∧
      (DataGives R (packedData s') (xs.map Packable.type) seen' ∧
        FileGives R (packedData s') (xs.map Packable.type) seen') ∧
      (DataGives R (packedData s'') (xs.map Packable.type) seen ∧
        FileGives R (packedData s'') (xs.map Packable.type) seen) ∧
      List.Forall₂ Result.Alike seen' seen ∧
      ((∀ x ∈ xs, x.type.Plain R false x.value) →
        seen = xs.map fun x => ⟨x.type, .ok x.value⟩) := by
  have hfits : ∀ b, ∀ x ∈ xs.map (Packable.withOptimizeReal b), x.Fits := by
    intro b x hx
    obtain ⟨y, hy, rfl⟩ := List.mem_map.mp hx
    exact h y hy
  have hsound : ∀ b, ∀ c ∈ (xs.map (Packable.withOptimizeReal b)).flatMap Packable.calls, Sound c :=
    fun b => (Packable.spoken hutf8 (hfits b)).1
  have htypes : ∀ b, (xs.map (Packable.withOptimizeReal b)).map Packable.type =
      xs.map Packable.type := fun b => List.map_map
  have hshorter : (encoded ((xs.map (.withOptimizeReal true)).flatMap Packable.calls)).length ≤
      (encoded ((xs.map (.withOptimizeReal false)).flatMap Packable.calls)).length := by
    rw [encoded_length (hsound true), encoded_length (hsound false), List.flatMap_map,
      List.flatMap_map, size_flatMap, size_flatMap]
    exact List.sum_le_sum fun x _ => x.type.size_calls_le x.value
  have hgives : ∀ b s', packedData s' =
      encoded ((xs.map (Packable.withOptimizeReal b)).flatMap Packable.calls) →
      DataGives R (packedData s') (xs.map Packable.type)
          ((xs.map (Packable.withOptimizeReal b)).map Packable.returned) ∧
        FileGives R (packedData s') (xs.map Packable.type)
          ((xs.map (Packable.withOptimizeReal b)).map Packable.returned) := by
    intro b s' hdata
    have hspell := spellsOut_calls (hsound b)
    rw [← List.append_nil (List.map _ _)] at hspell
    obtain ⟨b', htrace, -⟩ := (Packable.spoken hutf8 (hfits b)).2.2 [] _ hspell
    rw [htypes] at htrace
    rw [hdata]
    exact ⟨dataUnpacker_gives htrace, fileUnpacker_gives htrace⟩
  obtain ⟨s', hrun', hrc', hdata'⟩ := cwDataPacker_packs hutf8 hheap (hfits true)
    (Nat.lt_of_le_of_lt hshorter hsize) s
  obtain ⟨s'', hrun'', hrc'', hdata''⟩ := cwDataPacker_packs hutf8 hheap (hfits false) hsize s
  refine ⟨s', s'', _, _, hrun', hrun'', hrc', hrc'', ?_, hgives true s' hdata',
    hgives false s'' hdata'', ?_, fun hplain => ?_⟩
  · rw [hdata', hdata'']
    exact hshorter
  · rw [List.map_map, List.map_map]
    refine List.forall₂_map_left_iff.mpr (List.forall₂_map_right_iff.mpr ?_)
    exact List.forall₂_same.mpr fun x _ =>
      ⟨x.type, _, _, rfl, rfl, x.type.received_alike hF x.value⟩
  · rw [List.map_map]
    refine List.map_congr_left fun x hx => ?_
    show (⟨x.type, .ok (x.type.received R false x.value)⟩ : Result R) = _
    rw [x.type.received_of_plain hutf8 (h x hx) (hplain x hx)]

end Packers

theorem numberEq_symm {sign infinity a b : Nat} (h : numberEq sign infinity a b = true) :
    numberEq sign infinity b a = true := by
  simp only [numberEq, decide_eq_true_eq] at *
  omega

theorem numberEq_trans {sign infinity a b c : Nat} (h : numberEq sign infinity a b = true)
    (h' : numberEq sign infinity b c = true) : numberEq sign infinity a c = true := by
  simp only [numberEq, decide_eq_true_eq] at *
  rcases h with ⟨ha, -, rfl | h⟩ <;> rcases h' with ⟨-, hc, rfl | h'⟩
  · exact ⟨ha, hc, Or.inl rfl⟩
  · exact ⟨ha, hc, Or.inr h'⟩
  · exact ⟨ha, hc, Or.inr h⟩
  · exact ⟨ha, hc, Or.inr ⟨h.1, h'.2⟩⟩

theorem hostRuntime_arithmetic : Arithmetic hostRuntime.floatUnit where
  floatOfInt _ := rfl
  doubleOfInt _ := rfl
  floatEq_symm _ _ := numberEq_symm
  floatEq_trans _ _ _ := numberEq_trans
  doubleEq_symm _ _ := numberEq_symm
  doubleEq_trans _ _ _ := numberEq_trans

/-- The float 300, and 0.5 under the double 300. -/
theorem optimised_packer_agrees_three_numbers :
    let table : PackableType := .dictionary .double (.basic .float)
    let d : Dictionary hostRuntime .double UInt32 := ⟨[(0x4072c00000000000, 0x3f000000)], by decide⟩
    let xs : List (Packable hostRuntime) :=
      [⟨true, .basic .float, (0x43960000 : UInt32)⟩, ⟨true, table, d⟩]
    ∃ s' s'' seen' seen, run (Packable.cwPack (dynamicMemoryPackHandlers 64 (fixedHeap 0)))
        (xs.map (.withOptimizeReal true)) (cwDataPacker (fixedHeap 0) blankDynamic) = some s' ∧
      run (Packable.cwPack (dynamicMemoryPackHandlers 64 (fixedHeap 0)))
        (xs.map (.withOptimizeReal false)) (cwDataPacker (fixedHeap 0) blankDynamic) = some s'' ∧
      s'.pc.returnCode = cwpRcOk ∧ s''.pc.returnCode = cwpRcOk ∧
      (packedData s').length ≤ (packedData s'').length ∧
      (DataGives hostRuntime (packedData s') (xs.map Packable.type) seen' ∧
        FileGives hostRuntime (packedData s') (xs.map Packable.type) seen') ∧
      (DataGives hostRuntime (packedData s'') (xs.map Packable.type) seen ∧
        FileGives hostRuntime (packedData s'') (xs.map Packable.type) seen) ∧
      List.Forall₂ Result.Alike seen' seen ∧
      ((∀ x ∈ xs, x.type.Plain hostRuntime false x.value) →
        seen = xs.map fun x => ⟨x.type, .ok x.value⟩) := by
  intro table d xs
  refine optimised_packer_agrees hostRuntime_decodesUtf8 hostRuntime_arithmetic (fun _ _ => rfl) ?_
    (by decide) _
  intro x hx
  simp only [xs, List.mem_cons, List.not_mem_nil, or_false] at hx
  rcases hx with rfl | rfl
  · trivial
  · refine ⟨by decide, fun e he => ?_⟩
    obtain rfl := List.mem_singleton.mp he
    exact ⟨trivial, by decide, trivial⟩

end CWPack.Swift
