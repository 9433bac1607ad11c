/-
  ObjC/Framing.lean --- packed objects as MessagePack items.

  A container header is written from a count, and the content later by a method of
  the object's class.  `Emits` says what the method of each class stores when its
  parts are one complete item each; where the two counts are the same, that is one
  complete item again.

  They are not the same for a nonempty counted set, and the number NO is two items.
-/
import CWPack.Core.SkipCount
import CWPack.ObjC.Recording

set_option autoImplicit false

namespace CWPack.ObjC

open CWPack.Foundation
open CWPack.Core
open CWPack.MessagePack
open CWPack.Goodies

/-! ## Stored bytes -/

/-- Where the calls are made and all is well at the end, it was at the start, and the bytes
they store satisfy `Q`. -/
def Stores (Q : List UInt8 → Prop) (calls : List PackingCall) : Prop :=
  ∀ (σ : Type) (H : PackHandlers σ) (s s' : PackState σ),
    run (PackingCall.perform H) calls s = some s' → s'.pc.returnCode = 0 →
    s.pc.returnCode = 0 ∧ ∃ chunks, Produces H calls s chunks s' ∧ Q chunks.flatten

/-- The calls put down between `log` and `log'` store bytes that satisfy `Q`. -/
def Adds (Q : List UInt8 → Prop) (log log' : List PackingCall) : Prop :=
  ∃ calls, log' = log ++ calls ∧ Stores Q calls

section Adding

variable {Q R S : List UInt8 → Prop} {as bs cs : List PackingCall}

theorem Stores.append (h : Stores Q as) (h' : Stores R bs)
    (himp : ∀ xs ys, Q xs → R ys → S (xs ++ ys)) : Stores S (as ++ bs) := by
  intro σ H s s' hrun hrc
  rw [run_append] at hrun
  obtain ⟨t, hfirst, hsecond⟩ := Option.bind_eq_some_iff.mp hrun
  obtain ⟨hrc', ys, hproduces', hR⟩ := h' σ H t s' hsecond hrc
  obtain ⟨hrc'', xs, hproduces, hQ⟩ := h σ H s t hfirst hrc'
  refine ⟨hrc'', xs ++ ys, hproduces.append hproduces', ?_⟩
  rw [List.flatten_append]
  exact himp _ _ hQ hR

theorem Adds.refl (h : Q []) : Adds Q as as := by
  refine ⟨[], (List.append_nil as).symm, fun σ H s s' hrun hrc => ?_⟩
  obtain rfl := Option.some.inj hrun
  exact ⟨hrc, [], .done s, h⟩

theorem Adds.append (h : Adds Q as bs) (h' : Adds R bs cs)
    (himp : ∀ xs ys, Q xs → R ys → S (xs ++ ys)) : Adds S as cs := by
  obtain ⟨first, rfl, hfirst⟩ := h
  obtain ⟨second, rfl, hsecond⟩ := h'
  exact ⟨first ++ second, List.append_assoc _ _ _, hfirst.append hsecond himp⟩

theorem Adds.mono (h : Adds Q as bs) (himp : ∀ xs, Q xs → R xs) : Adds R as bs := by
  obtain ⟨calls, rfl, hstores⟩ := h
  refine ⟨calls, rfl, fun σ H s s' hrun hrc => ?_⟩
  obtain ⟨hrc', chunks, hproduces, hQ⟩ := hstores σ H s s' hrun hrc
  exact ⟨hrc', chunks, hproduces, himp _ hQ⟩

end Adding

/-! ## Calls on the context -/

section Calls

variable {P : Value → Prop} {ctx ctx' : Recorded}

/-- A call on the context stores one item. -/
theorem onContext_adds {c : PackingCall} (hc : c ≠ .flush)
    (h : onContext record c ctx = some ctx') :
    Adds (fun bs => ∃ compat, Item bs (c.value.wire compat)) ctx.context ctx'.context := by
  obtain rfl := Option.some.inj h
  refine ⟨[c], rfl, fun σ H s s' hrun hrc => ?_⟩
  obtain ⟨t, hcall, hdone⟩ := run_cons_eq_some hrun
  obtain rfl := Option.some.inj hdone
  obtain ⟨hrc', bs, hbs, hitem⟩ := PackingCall.perform_item hc hcall hrc
  refine ⟨hrc', [bs], .call hcall hbs (.done t), s.pc.beCompatible, ?_⟩
  rwa [List.flatten_cons, List.flatten_nil, List.append_nil]

theorem children_wire (compat : Bool) (v : Value) : (v.wire compat).children = v.children := by
  cases v with
  | bin bs => cases compat <;> rfl
  | _ => rfl

/-- A call that announces no content stores one complete item. -/
theorem onContext_leaf {c : PackingCall} (hc : c ≠ .flush) (hleaf : c.value.children = 0)
    (hP : ∀ compat, P (c.value.wire compat)) (h : onContext record c ctx = some ctx') :
    Adds (Complete P 1) ctx.context ctx'.context := by
  refine (onContext_adds hc h).mono ?_
  rintro bs ⟨compat, hitem⟩
  exact .single hitem (hP compat) (by rw [children_wire, hleaf])

/-- One method call for each of a list stores `k` complete items each time. -/
theorem forEach_adds {α : Type} {method : α → Packing (List PackingCall)} {k : Nat} :
    ∀ {as : List α} {ctx ctx' : Recorded},
      (∀ a ∈ as, ∀ ctx ctx', method a ctx = some ctx' →
        Adds (Complete P k) ctx.context ctx'.context) →
      forEach method as ctx = some ctx' →
      Adds (Complete P (k * as.length)) ctx.context ctx'.context := by
  intro as
  induction as with
  | nil =>
      intro ctx ctx' _ h
      obtain rfl := Option.some.inj h
      exact .refl .done
  | cons a as ih =>
      intro ctx ctx' hmethod h
      obtain ⟨mid, ha, has⟩ := Option.bind_eq_some_iff.mp h
      have hfirst := hmethod a List.mem_cons_self ctx mid ha
      have hrest := ih (fun b hb => hmethod b (List.mem_cons_of_mem a hb)) has
      refine hfirst.append hrest fun xs ys hxs hys => ?_
      have hcount : k * (a :: as).length = k + k * as.length := by
        rw [List.length_cons, Nat.mul_succ, Nat.add_comm]
      rw [hcount]
      exact hxs.append hys

end Calls

/-! ## Headers and content -/

/-- The header declares `D` items, and `E` complete items follow. -/
def Framed (P : Value → Prop) (D E : Nat) (bs : List UInt8) : Prop :=
  ∃ head content v, bs = head ++ content ∧ Item head v ∧ P v ∧ v.children = D ∧
    Complete P E content

/-- A header and its content are one complete item exactly when there is as much content as the
header declares. -/
theorem framed_complete_iff {P : Value → Prop} {D E : Nat} {bs : List UInt8}
    (h : Framed P D E bs) : Complete P 1 bs ↔ D = E := by
  obtain ⟨head, content, v, rfl, hitem, hv, rfl, hcontent⟩ := h
  constructor
  · intro hone
    generalize hbytes : head ++ content = bytes at hone
    cases hone with
    | @item n head' content' rest' v' h' _ hc' hrest =>
        cases hrest
        rw [List.append_nil] at hbytes
        obtain ⟨rfl, rfl⟩ := Item.prefix_unique hitem h' hbytes
        obtain rfl := List.append_cancel_left hbytes
        exact hc'.count_unique hcontent
  · rintro rfl
    exact .container hitem hv hcontent

/-- The number of items that `cwPackSub:` packs. -/
def Object.subCount : Object → Nat
  | .set elements => elements.length
  | .countedSet elements => 2 * elements.length
  | .genericClass _ attributes => attributes.length
  | _ => 0

/-- What packing an object stores when its parts are one complete item each. -/
def Emits (P : Value → Prop) (object : Object) (bs : List UInt8) : Prop :=
  match object with
  | .number (.char value) => if value = 0 then Complete P 2 bs else Complete P 1 bs
  | .dictionary entries => Framed P (2 * (entries.length % 2 ^ 32)) (2 * entries.length) bs
  | .set _ => Framed P (arraySize object).toNat (2 + object.subCount) bs
  | .countedSet _ => Framed P (arraySize object).toNat (2 + object.subCount) bs
  | .genericClass _ _ => Framed P (arraySize object).toNat (2 + object.subCount) bs
  | _ => Complete P 1 bs

/-- The objects that declare other numbers of items than they pack: the number NO, every counted
set that is not empty, and collections whose size does not fit in 32 bits. -/
def Object.Miscounts : Object → Prop
  | .number (.char value) => value = 0
  | .dictionary entries => 2 ^ 32 ≤ entries.length
  | .set elements => 2 ^ 32 ≤ 2 + elements.length
  | .countedSet elements => elements ≠ []
  | .genericClass _ attributes => 2 ^ 32 ≤ 2 + attributes.length
  | _ => False

/-- The size declared for a user object is computed in 32 bits. -/
theorem arraySize_toNat (object : Object) :
    (arraySize object).toNat =
      match object with
      | .set elements => (2 + elements.length) % 2 ^ 32
      | .countedSet elements => (2 + 3 * elements.length) % 2 ^ 32
      | .genericClass _ attributes => (2 + attributes.length) % 2 ^ 32
      | _ => 2 := by
  have hcast : ∀ n : Nat, (Int32.ofNat n).toUInt32.toNat = n % 2 ^ 32 := by
    intro n
    rw [Int32.toUInt32_ofNat', UInt32.toNat_ofNat']
  have htwo : (2 : Int32).toUInt32.toNat = 2 := rfl
  have hzero : (0 : Int32).toUInt32.toNat = 0 := rfl
  cases object with
  | set elements =>
      simp only [arraySize, Object.persistentAttributeCount, Object.setAttributeCount,
        Int32.toUInt32_add, UInt32.toNat_add, hcast, htwo, hzero]
      omega
  | countedSet elements =>
      simp only [arraySize, Object.persistentAttributeCount, Object.countedSetAttributeCount,
        Object.setAttributeCount, Int32.toUInt32_add, Int32.toUInt32_mul, UInt32.toNat_add,
        UInt32.toNat_mul, hcast, htwo, hzero]
      omega
  | genericClass name attributes =>
      simp only [arraySize, Object.persistentAttributeCount, Int32.toUInt32_add, UInt32.toNat_add,
        hcast, htwo]
      omega
  | _ => rfl

/-- What an object stores is one complete item unless the object miscounts. -/
theorem emits_complete_iff {P : Value → Prop} {object : Object} {bs : List UInt8}
    (h : Emits P object bs) : Complete P 1 bs ↔ ¬ object.Miscounts := by
  have hsize := arraySize_toNat object
  cases object with
  | number value =>
      cases value with
      | char value =>
          simp only [Emits] at h
          by_cases hzero : value = 0
          · rw [if_pos hzero] at h
            exact iff_of_false (fun hone => absurd (h.count_unique hone) (by decide))
              (not_not_intro hzero)
          · rw [if_neg hzero] at h
            exact iff_of_true h hzero
      | _ => exact iff_of_true h id
  | dictionary entries =>
      rw [framed_complete_iff h]
      show 2 * (entries.length % 2 ^ 32) = 2 * entries.length ↔ ¬ 2 ^ 32 ≤ entries.length
      omega
  | set elements =>
      rw [framed_complete_iff h, hsize]
      show (2 + elements.length) % 2 ^ 32 = 2 + elements.length ↔ ¬ 2 ^ 32 ≤ 2 + elements.length
      omega
  | countedSet elements =>
      rw [framed_complete_iff h, hsize]
      show (2 + 3 * elements.length) % 2 ^ 32 = 2 + 2 * elements.length ↔ ¬ elements ≠ []
      rw [not_not, ← List.length_eq_zero_iff]
      omega
  | genericClass name attributes =>
      rw [framed_complete_iff h, hsize]
      show (2 + attributes.length) % 2 ^ 32 = 2 + attributes.length ↔
        ¬ 2 ^ 32 ≤ 2 + attributes.length
      omega
  | _ => exact iff_of_true h id

/-! ## The methods of the classes -/

/-- The objects that pack an item `cw_skip_items` does not get right. -/
def Object.WrapsSkip : Object → Prop
  | .dictionary entries => 2 ^ 31 ≤ entries.length
  | .externalItem _ bytes => bytes.length % 2 ^ 32 = 2 ^ 32 - 1
  | _ => False

/-- The item fits `cw_skip_items`, where that is asked for. -/
def Fits (skips : Prop) (v : Value) : Prop := skips → FitsSkip v

section Classes

variable {skips : Prop} {ctx ctx' : Recorded}

/-- Packing a number stores one complete item, or two. -/
theorem cwPackNumber_emits {value : Number} (h : cwPackNumber record value ctx = some ctx') :
    Adds (Emits (Fits skips) (.number value)) ctx.context ctx'.context := by
  cases value with
  | integer type n =>
      exact onContext_leaf (c := .call (.signed n)) (by simp) rfl (fun _ _ => trivial) h
  | float type f =>
      exact onContext_leaf (c := .call (.float f)) (by simp) rfl (fun _ _ => trivial) h
  | double type d =>
      exact onContext_leaf (c := .call (.double d)) (by simp) rfl (fun _ _ => trivial) h
  | char value =>
      rw [cwPackNumber] at h
      obtain ⟨mid, hmid, hlast⟩ := Option.bind_eq_some_iff.mp h
      have hsecond : Adds (Complete (Fits skips) 1) mid.context ctx'.context := by
        by_cases hone : value = 1
        · rw [if_pos hone] at hlast
          exact onContext_leaf (c := .call (.boolean true)) (by simp) rfl (fun _ _ => trivial) hlast
        · rw [if_neg hone] at hlast
          exact onContext_leaf (c := .call (.signed _)) (by simp) rfl (fun _ _ => trivial) hlast
      by_cases hzero : value = 0
      · rw [if_pos hzero] at hmid
        have hfirst : Adds (Complete (Fits skips) 1) ctx.context mid.context :=
          onContext_leaf (c := .call (.boolean false)) (by simp) rfl (fun _ _ => trivial) hmid
        refine hfirst.append hsecond fun as bs has hbs => ?_
        show if value = 0 then _ else _
        rw [if_pos hzero]
        exact has.append hbs
      · rw [if_neg hzero] at hmid
        obtain rfl := Option.some.inj hmid
        refine hsecond.mono fun bs hbs => ?_
        show if value = 0 then _ else _
        rwa [if_neg hzero]

variable {pack : ObjectId → Packing (List PackingCall)}

/-- The objects an object consists of are one complete item each. -/
def PacksParts (skips : Prop) (pack : ObjectId → Packing (List PackingCall))
    (object : Object) : Prop :=
  ∀ q ∈ object.children, ∀ ctx ctx', pack q ctx = some ctx' →
    Adds (Complete (Fits skips) 1) ctx.context ctx'.context

/-- `cwPackPackerTo:` of each class stores what `Emits` says. -/
theorem cwPackPackerTo_emits {F : FloatUnit} {object : Object}
    (hparts : PacksParts skips pack object) (hskip : skips → ¬ object.WrapsSkip)
    (h : cwPackPackerTo F record pack object ctx = some ctx') :
    Adds (Emits (Fits skips) object) ctx.context ctx'.context := by
  cases object with
  | null => exact onContext_leaf (c := .call .nil) (by simp) rfl (fun _ _ => trivial) h
  | string characters => exact onContext_leaf (c := .call (.str _)) (by simp) rfl (fun _ _ => trivial) h
  | data bytes =>
      exact onContext_leaf (c := .call (.bin _)) (by simp) rfl
        (fun compat _ => by cases compat <;> trivial) h
  | date timeInterval =>
      have hcall : timeIntervalCall F timeInterval ≠ .flush := by simp [timeIntervalCall]
      refine onContext_leaf hcall rfl (fun _ _ => ?_) h
      exact Nat.ne_of_lt (Nat.lt_of_le_of_lt (timestampPayload_length_le _ _) (by decide))
  | number value => exact cwPackNumber_emits h
  | array elements =>
      rw [cwPackPackerTo] at h
      obtain ⟨mid, hsize, helements⟩ := Option.bind_eq_some_iff.mp h
      have hhead := onContext_adds (c := .call (.arraySize _)) (by simp) hsize
      have hcontent := forEach_adds (k := 1) hparts helements
      refine hhead.append hcontent ?_
      rintro head content ⟨compat, hitem⟩ hcomplete
      refine .container hitem (fun _ => trivial) ?_
      have hchildren : (Value.array (UInt32.ofNat elements.length).toNat).children =
          1 * (elements.take (UInt32.ofNat elements.length).toNat).length := by
        have hle : (UInt32.ofNat elements.length).toNat ≤ elements.length := by
          rw [UInt32.toNat_ofNat']
          exact Nat.mod_le _ _
        rw [Nat.one_mul, List.length_take, Nat.min_eq_left hle]
        rfl
      rw [children_wire]
      exact hchildren ▸ hcomplete
  | dictionary entries =>
      rw [cwPackPackerTo] at h
      obtain ⟨mid, hsize, hentries⟩ := Option.bind_eq_some_iff.mp h
      have hhead := onContext_adds (c := .call (.mapSize _)) (by simp) hsize
      have hcontent := forEach_adds (k := 2) (P := Fits skips) (fun entry hentry c c' hpair => by
        obtain ⟨between, hkey, hvalue⟩ := Option.bind_eq_some_iff.mp hpair
        have hkeyMem : entry.1 ∈ (Object.dictionary entries).children :=
          List.mem_flatMap.mpr ⟨entry, hentry, List.mem_cons_self⟩
        have hvalueMem : entry.2 ∈ (Object.dictionary entries).children :=
          List.mem_flatMap.mpr ⟨entry, hentry, List.mem_cons_of_mem _ List.mem_cons_self⟩
        exact (hparts _ hkeyMem _ _ hkey).append (hparts _ hvalueMem _ _ hvalue)
          fun as bs has hbs => has.append hbs) hentries
      refine hhead.append hcontent ?_
      rintro head content ⟨compat, hitem⟩ hcomplete
      refine ⟨head, content, _, rfl, hitem, ?_, ?_, hcomplete⟩
      · intro hskips
        have hlt := hskip hskips
        show (UInt32.ofNat entries.length).toNat < 2 ^ 31
        rw [UInt32.toNat_ofNat']
        exact Nat.lt_of_le_of_lt (Nat.mod_le _ _) (Nat.lt_of_not_le hlt)
      · rw [children_wire]
        show 2 * (UInt32.ofNat entries.length).toNat = _
        rw [UInt32.toNat_ofNat']
  | externalItem type bytes =>
      refine onContext_leaf (c := .call (.ext _ _)) (by simp) rfl (fun compat hskips => ?_) h
      have hlen := hskip hskips
      show ((castBlob bytes).bytes).length ≠ 2 ^ 32 - 1
      show (bytes.take (bytes.length % 2 ^ 32)).length ≠ 2 ^ 32 - 1
      rw [List.length_take, Nat.min_eq_left (Nat.mod_le _ _)]
      exact hlen
  | set elements => simp [cwPackPackerTo] at h
  | countedSet elements => simp [cwPackPackerTo] at h
  | genericClass name attributes => simp [cwPackPackerTo] at h

/-- `cwPackSub:` packs as many items as it counts. -/
theorem cwPackSub_adds {object : Object} (hparts : PacksParts skips pack object)
    (h : cwPackSub record pack object ctx = some ctx') :
    Adds (Complete (Fits skips) object.subCount) ctx.context ctx'.context := by
  cases object with
  | set elements =>
      have hadds := forEach_adds (k := 1) hparts h
      rwa [Nat.one_mul] at hadds
  | countedSet elements =>
      refine forEach_adds (k := 2) (fun element helement c c' hpair => ?_) h
      obtain ⟨between, hobject, hcount⟩ := Option.bind_eq_some_iff.mp hpair
      have hmem : element.1 ∈ (Object.countedSet elements).children :=
        List.mem_map_of_mem helement
      have hnumber : Adds (Complete (Fits skips) 1) between.context c'.context :=
        onContext_leaf (c := .call (.signed _)) (by simp) rfl (fun _ _ => trivial) hcount
      exact (hparts _ hmem _ _ hobject).append hnumber fun as bs has hbs => has.append hbs
  | genericClass name attributes =>
      have hadds := forEach_adds (k := 1) hparts h
      rwa [Nat.one_mul] at hadds
  | _ => simp [cwPackSub] at h

theorem packMarker_adds {label : Int64}
    (h : onContext record (.extInteger cwpItemObjectMarker label) ctx = some ctx') :
    Adds (Complete (Fits skips) 1) ctx.context ctx'.context := by
  refine onContext_leaf (c := .extInteger _ _) (by simp) rfl (fun _ _ => ?_) h
  exact Nat.ne_of_lt (Nat.lt_of_le_of_lt (extIntegerPayload_length_le _) (by decide))

/-- A user object is its class name and its parts. -/
theorem packUserObject_adds {object : Object} (hparts : PacksParts skips pack object)
    (h : packUserObject record pack object ctx = some ctx') :
    Adds (Complete (Fits skips) (1 + object.subCount)) ctx.context ctx'.context := by
  unfold packUserObject at h
  cases hname : object.packerClassName with
  | none => simp [hname] at h
  | some name =>
      simp only [hname] at h
      obtain ⟨mid, hstr, hsub⟩ := Option.bind_eq_some_iff.mp h
      have hclass : Adds (Complete (Fits skips) 1) ctx.context mid.context :=
        onContext_leaf (c := .call (.str _)) (by simp) rfl (fun _ _ => trivial) hstr
      exact hclass.append (cwPackSub_adds hparts hsub) fun as bs has hbs => has.append hbs

/-- An array header, a marker and what follows them. -/
theorem array_marker_framed {size : UInt32} {n : Nat} {s t u : List PackingCall}
    (hsize : Adds (fun bs => ∃ compat, Item bs ((Value.array size.toNat).wire compat)) s t)
    (hmarker : ∃ r, Adds (Complete (Fits skips) 1) t r ∧ Adds (Complete (Fits skips) n) r u) :
    Adds (Framed (Fits skips) size.toNat (1 + n)) s u := by
  obtain ⟨r, hmarker, hrest⟩ := hmarker
  have hcontent : Adds (Complete (Fits skips) (1 + n)) t u :=
    hmarker.append hrest fun as bs has hbs => has.append hbs
  refine hsize.append hcontent ?_
  rintro head content ⟨compat, hitem⟩ hcomplete
  exact ⟨head, content, _, rfl, hitem, fun _ => trivial, rfl, hcomplete⟩

/-- The frame of a user object is what `Emits` says. -/
theorem emits_of_framed {object : Object} {bs : List UInt8} (huser : object.isMsgpackObject = false)
    (h : Framed (Fits skips) (arraySize object).toNat (1 + (1 + object.subCount)) bs) :
    Emits (Fits skips) object bs := by
  rw [← Nat.add_assoc] at h
  cases object with
  | set elements => exact h
  | countedSet elements => exact h
  | genericClass name attributes => exact h
  | _ => simp [Object.isMsgpackObject] at huser

end Classes

/-! ## Objects inside objects -/

section Objects

variable {F : FloatUnit} {heap : Heap} {skips : Prop} {depth : Nat} {p : ObjectId}
  {ctx ctx' : Recorded}

/-- Without labels, an object is packed as its class does it. -/
theorem packObject_emits (hparts : PacksParts skips (packObject F record heap depth) (heap p))
    (hskip : skips → ¬ (heap p).WrapsSkip) (hlabels : ctx.useLabels = false)
    (h : packObject F record heap (depth + 1) p ctx = some ctx') :
    Adds (Emits (Fits skips) (heap p)) ctx.context ctx'.context := by
  rw [packObject] at h
  simp only [hlabels, Bool.false_eq_true, if_false] at h
  cases hclass : (heap p).isMsgpackObject with
  | true =>
      simp only [hclass, if_true] at h
      exact cwPackPackerTo_emits hparts hskip h
  | false =>
      simp only [hclass, Bool.false_eq_true, if_false] at h
      obtain ⟨mid, hsize, h⟩ := Option.bind_eq_some_iff.mp h
      obtain ⟨mid', hmarker, h⟩ := Option.bind_eq_some_iff.mp h
      have hhead := onContext_adds (c := .call (.arraySize _)) (by simp) hsize
      exact (array_marker_framed hhead
        ⟨_, packMarker_adds hmarker, packUserObject_adds hparts h⟩).mono
          fun bs hbs => emits_of_framed hclass hbs

/-- With or without labels, an object that counts right is packed as one complete item. -/
theorem packObject_adds_item (hparts : PacksParts skips (packObject F record heap depth) (heap p))
    (hcounts : ¬ (heap p).Miscounts) (hskip : skips → ¬ (heap p).WrapsSkip)
    (h : packObject F record heap (depth + 1) p ctx = some ctx') :
    Adds (Complete (Fits skips) 1) ctx.context ctx'.context := by
  cases hlabels : ctx.useLabels with
  | false =>
      exact (packObject_emits hparts hskip hlabels h).mono
        fun bs hbs => (emits_complete_iff hbs).mpr hcounts
  | true =>
      rw [packObject] at h
      simp only [hlabels, if_true] at h
      by_cases hlabel : ctx.labelForObject p ≠ 0
      · rw [if_pos hlabel] at h
        obtain ⟨mid, hsize, h⟩ := Option.bind_eq_some_iff.mp h
        have hhead := onContext_adds (c := .call (.arraySize _)) (by simp) hsize
        have hmarker : Adds (Complete (Fits skips) 1) mid.context ctx'.context :=
          packMarker_adds h
        have hframed := array_marker_framed (n := 0) hhead ⟨_, hmarker, .refl .done⟩
        exact hframed.mono fun bs hbs => (framed_complete_iff hbs).mpr rfl
      · rw [if_neg hlabel] at h
        obtain ⟨mid, hsize, h⟩ := Option.bind_eq_some_iff.mp h
        obtain ⟨mid', hmarker, h⟩ := Option.bind_eq_some_iff.mp h
        have hhead := onContext_adds (c := .call (.arraySize _)) (by simp) hsize
        have hlabelled : Adds (Complete (Fits skips) 1) _ mid'.context := packMarker_adds hmarker
        rw [assignLabelForObject_context] at hlabelled
        cases hclass : (heap p).isMsgpackObject with
        | true =>
            simp only [hclass, if_true] at h
            have hitem := (cwPackPackerTo_emits hparts hskip h).mono
              fun bs hbs => (emits_complete_iff hbs).mpr hcounts
            have hframed := array_marker_framed hhead ⟨_, hlabelled, hitem⟩
            refine hframed.mono fun bs hbs => (framed_complete_iff hbs).mpr ?_
            rw [arraySize_toNat]
            cases hobject : heap p with
            | set elements => simp [hobject, Object.isMsgpackObject] at hclass
            | countedSet elements => simp [hobject, Object.isMsgpackObject] at hclass
            | genericClass name attributes => simp [hobject, Object.isMsgpackObject] at hclass
            | _ => rfl
        | false =>
            simp only [hclass, Bool.false_eq_true, if_false] at h
            exact (array_marker_framed hhead
              ⟨_, hlabelled, packUserObject_adds hparts h⟩).mono
                fun bs hbs => (emits_complete_iff (emits_of_framed hclass hbs)).mpr hcounts

end Objects

end CWPack.ObjC
