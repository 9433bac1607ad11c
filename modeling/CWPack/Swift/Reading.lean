/-
  Swift/Reading.lean --- what is unpacked depends on the bytes alone.

  `BasicType.accept` is what a type makes of a value, and `BasicType.reads` is its
  `init` on an abstract reader.  On every context whose handler feeds some bytes,
  the `init` of a basic type follows that of the reader of these bytes; the
  generic types do because their elements do.  So where the reader comes to an
  answer, the same calls on a `CWDataUnpacker` and on a `CWFileUnpacker` with the
  same bytes give the same values and throw the same errors.
-/
import CWPack.Core.Spelling
import CWPack.Goodies.ExtNumbers
import CWPack.Goodies.FileUnpack
import CWPack.ObjC.Incoming
import CWPack.Swift.Packable

set_option autoImplicit false

namespace CWPack.Swift

open CWPack.Foundation
open CWPack.Core
open CWPack.Goodies
open CWPack.MessagePack
open CWPack.ObjC (blobBytes denotes_str denotes_bin)

variable {σ τ ρ α β : Type}

/-! ## The abstract reader -/

/-- The text of the error. -/
def BasicType.errorName : BasicType → String
  | cwNil => "CWNil"
  | arrayHeader => "ArrayHeader"
  | dictionaryHeader => "DictionaryHeader"
  | msgPackExt => "MsgPackExt"
  | bool => "Bool"
  | integer t => t.name
  | float => "Float"
  | double => "Double"
  | date => "Date"
  | data => "Data"
  | string => "String"

/-- What a routine that takes any number makes of a value. -/
def converted (unsigned : Nat → ρ) (signed : Int → ρ) (float double : Nat → ρ) :
    Value → Except Int ρ
  | .int v => .ok (if 0 ≤ v then unsigned v.toNat else signed v)
  | .float bits => .ok (float bits)
  | .double bits => .ok (double bits)
  | _ => .error cwpRcTypeError

/-- What a basic type makes of a value: a value of its own, or the code that is left.  With
`none` the program traps, or reads the union as what it does not hold. -/
def BasicType.accept (R : Runtime) : (t : BasicType) → Value → Option (Except Int t.Carrier)
  | cwNil, .nil => some (.ok ⟨⟩)
  | arrayHeader, .array n => some (.ok ⟨n⟩)
  | dictionaryHeader, .map n => some (.ok ⟨.ofNat n⟩)
  | msgPackExt, .ext type payload => some (.ok ⟨type, payload⟩)
  | msgPackExt, .timestamp _ _ => none
  | msgPackExt, _ => some (.error cwpRcOk)
  | bool, .bool b => some (.ok b)
  | integer t, v =>
      let r := t.routine.expected v
      some (if r.2 = cwpRcOk then .ok (.returned t r.1) else .error r.2)
  | float, v => some (converted (R.floatUnit.floatOfUInt64 <| .ofNat ·)
      (R.floatUnit.floatOfInt64 <| .ofInt ·) .ofNat (R.floatUnit.floatOfDouble <| .ofNat ·) v)
  | double, v => some (converted (R.floatUnit.doubleOfUInt64 <| .ofNat ·)
      (R.floatUnit.doubleOfInt64 <| .ofInt ·) (R.floatUnit.doubleOfFloat <| .ofNat ·) .ofNat v)
  | date, .timestamp sec nsec => some (.ok (R.dateSince1970 (R.floatUnit.add
      (R.floatUnit.doubleOfInt64 (.ofInt sec))
      (R.floatUnit.div (R.floatUnit.doubleOfUInt32 (.ofNat nsec)) doubleBillion))))
  | date, .ext type _ => if type = -1 then none else some (.error cwpRcTypeError)
  | data, .bin bs => some (.ok bs)
  | string, .str bs => if bs.length > 0 then (R.nsString bs).map .ok else some (.ok "")
  | _, _ => some (.error cwpRcTypeError)

/-- A verdict with `rest` behind the item. -/
def BasicType.verdict (t : BasicType) (rest : List UInt8) :
    Except Int t.Carrier → Except CWPackError t.Carrier × Reader
  | .ok x => (.ok x, .ok rest)
  | .error rc => (.error (.unpackerError t.errorName), if rc = cwpRcOk then .ok rest else .error rc)

/-- `init` of a basic type on a reader. -/
def BasicType.reads (R : Runtime) (t : BasicType) : Throwing CWPackError Reader t.Carrier
  | .error e => some (.error (.unpackerError t.errorName), .error e)
  | .ok b =>
      match readItem b with
      | .error e => some (.error (.unpackerError t.errorName), .error e)
      | .ok (v, n) => (t.accept R v).map (t.verdict (b.drop n))

theorem BasicType.reads_of_error {R : Runtime} (t : BasicType) {b : List UInt8} {e : Int}
    (h : readItem b = .error e) :
    (t.reads R).perform (.ok b) = some (.error (.unpackerError t.errorName), .error e) := by
  show t.reads R (.ok b) = _
  rw [reads, h]

theorem BasicType.reads_of_ok {R : Runtime} (t : BasicType) {b : List UInt8} {v : Value} {n : Nat}
    (h : readItem b = .ok (v, n)) :
    (t.reads R).perform (.ok b) = (t.accept R v).map (t.verdict (b.drop n)) := by
  show t.reads R (.ok b) = _
  rw [reads, h]

/-- `init` of a packable type on a reader. -/
def PackableType.reads (R : Runtime) (t : PackableType) :
    Throwing CWPackError Reader (t.Carrier R) :=
  t.unpackWith R (BasicType.reads R)

/-! ## Generic types follow their elements -/

section Generic

variable {R : Runtime} {S T : Type} {rel : S → T → Prop} {broken : S → Prop}

/-- The generic types use nothing of a context but the basic types. -/
theorem PackableType.unpackWith_follows
    {basic : (t : BasicType) → Throwing CWPackError S t.Carrier}
    {basic' : (t : BasicType) → Throwing CWPackError T t.Carrier}
    (h : ∀ t, Follows rel broken (basic t) (basic' t)) (t : PackableType) :
    Follows rel broken (t.unpackWith R basic) (t.unpackWith R basic') := by
  induction t with
  | basic t => exact h t
  | array t ih =>
      unfold unpackWith
      refine (h .arrayHeader).bind fun ah => Follows.repeated (fun xs => ?_) _ _
      exact ih.bind fun e => Follows.pure _
  | dictionary k t ih =>
      unfold unpackWith
      refine (h .dictionaryHeader).bind fun ah => Follows.repeated (fun d => ?_) _ _
      exact (h k.basic).bind fun key => ih.bind fun value => Follows.pure _

end Generic

/-! ## Basic types follow the reader -/

/-- The computation has come to the verdict behind the item. -/
def Comes (f : Throwing CWPackError (UnpackState σ) α) (name : String) (s s' : UnpackState σ) :
    Except Int α → Prop
  | .ok x => f.perform s = some (.ok x, s')
  | .error rc => f.perform s = some (.error (.unpackerError name), s'.setReturnCode rc)

/-- What has thrown is not gone on with. -/
theorem Comes.throws {f : Throwing CWPackError (UnpackState σ) α} {name : String}
    {s s' : UnpackState σ} {rc : Int} (h : Comes f name s s' (.error rc))
    (k : α → Throwing CWPackError (UnpackState σ) β) : Comes (f >>= k) name s s' (.error rc) := by
  have hperform : f.perform s = some (.error (.unpackerError name), s'.setReturnCode rc) := h
  show (f >>= k).perform s = _
  rw [perform_bind, hperform]
  rfl

theorem Comes.map {f : Throwing CWPackError (UnpackState σ) α} {name : String}
    {s s' : UnpackState σ} {r : Except Int α} (h : Comes f name s s' r) (g : α → β) :
    Comes (do let x ← f; return g x) name s s' (r.map g) := by
  cases r with
  | ok x =>
      have hperform : f.perform s = some (.ok x, s') := h
      exact (perform_bind_of_ok hperform _).trans rfl
  | error rc => exact h.throws _

/-- The body of such a routine. -/
def convert (zero : ρ) (unsigned : Nat → ρ) (signed : Int → ρ) (float double : Nat → ρ)
    (s : UnpackState σ) : ρ × UnpackState σ :=
  match s.uc.item.type with
  | .positiveInteger => (unsigned s.uc.item.as.front, s)
  | .negativeInteger => (signed s.uc.item.as.i64, s)
  | .float => (float s.uc.item.as.front, s)
  | .double => (double s.uc.item.as.front, s)
  | _ => (zero, s.setReturnCode cwpRcTypeError)

section Routines

variable {H : Option (UnpackUnderflowHandler σ)} {s s' : UnpackState σ} {v : Value}

theorem expectNext_of_fail {zero : ρ} {k : UnpackState σ → ρ × UnpackState σ}
    (hnext : cwUnpackNext H s = some s') (hfail : s'.uc.returnCode ≠ cwpRcOk) :
    expectNext H zero k s = some (zero, s') := by
  unfold expectNext
  rw [hnext]
  exact if_pos hfail

/-- Where there is no item, a guarded routine throws. -/
theorem perform_guarded_of_fail {name : String} {zero : ρ}
    {routine : UnpackState σ → Option (ρ × UnpackState σ)} (h : routine s = some (zero, s'))
    (hfail : s'.uc.returnCode ≠ cwpRcOk) :
    (guarded name routine).perform s = some (.error (.unpackerError name), s') := by
  show (routine s).map _ = _
  rw [h, Option.map_some, if_neg hfail]

/-- The item behind which the routines look. -/
structure Fetched (H : Option (UnpackUnderflowHandler σ)) (s s' : UnpackState σ) (v : Value) :
    Prop where
  next : cwUnpackNext H s = some s'
  ok : s'.uc.returnCode = cwpRcOk
  denotes : s'.Denotes v
  read : ∃ b n, readItem b = .ok (v, n)

namespace Fetched

variable {name : String} {zero x : ρ} {k : UnpackState σ → ρ × UnpackState σ}

theorem comes_ok (h : Fetched H s s' v) (hk : k s' = (x, s')) :
    Comes (guarded name (expectNext H zero k)) name s s' (.ok x) := by
  show (expectNext H zero k s).map _ = _
  rw [expectNext_of_ok h.next h.ok, hk, Option.map_some, if_pos h.ok]

theorem comes_error (h : Fetched H s s' v) {rc : Int} (hrc : rc ≠ cwpRcOk)
    (hk : k s' = (x, s'.setReturnCode rc)) :
    Comes (guarded name (expectNext H zero k)) name s s' (.error rc) := by
  show (expectNext H zero k s).map _ = _
  rw [expectNext_of_ok h.next h.ok, hk, Option.map_some]
  exact congrArg some (congrArg (·, _) (if_neg hrc))

/-- The seconds of a time are a number of 64 bits. -/
theorem sec (h : Fetched H s s' v) {sec : Int} {nsec : Nat} (hv : v = .timestamp sec nsec) :
    -2 ^ 63 ≤ sec ∧ sec < 2 ^ 63 := by
  subst hv
  obtain ⟨b, n, hread⟩ := h.read
  rcases readItem_cases hread with hdec | ⟨payload, hvalue, hlen, -, -⟩
  · exact absurd rfl (ne_timestamp_of_item (item_of_decode hdec).2 sec nsec)
  · exact timestampValue_sec hlen hvalue.symm

theorem type_ne (h : Fetched H s s' v) {t : ItemType} (hv : itemType v ≠ t) :
    s'.uc.item.type ≠ t := by
  rw [h.denotes.1]
  exact hv

variable {R : Runtime}

theorem cwNil (h : Fetched H s s' v) : ∃ r, BasicType.cwNil.accept R v = some r ∧
    Comes (BasicType.cwNil.unpack R H) "CWNil" s s' r := by
  cases v with
  | nil => exact ⟨_, rfl, (h.comes_ok (if_pos h.denotes.1)).map _⟩
  | _ => exact ⟨_, rfl, (h.comes_error (by decide) (if_neg (h.type_ne (by grind [itemType])))).map _⟩

theorem arrayHeader (h : Fetched H s s' v) : ∃ r, BasicType.arrayHeader.accept R v = some r ∧
    Comes (BasicType.arrayHeader.unpack R H) "ArrayHeader" s s' r := by
  cases v with
  | array n =>
      obtain ⟨htype, hfront⟩ := denotes_array h.denotes
      refine ⟨_, rfl, (h.comes_ok (x := (n : Int)) ?_).map _⟩
      rw [if_pos htype, hfront]
  | _ => exact ⟨_, rfl, (h.comes_error (by decide) (if_neg (h.type_ne (by grind [itemType])))).map _⟩

theorem dictionaryHeader (h : Fetched H s s' v) :
    ∃ r, BasicType.dictionaryHeader.accept R v = some r ∧
      Comes (BasicType.dictionaryHeader.unpack R H) "DictionaryHeader" s s' r := by
  cases v with
  | map n =>
      obtain ⟨htype, hfront⟩ := denotes_map h.denotes
      refine ⟨_, rfl, (h.comes_ok (x := (n : Int)) ?_).map _⟩
      rw [if_pos htype, hfront]
  | _ => exact ⟨_, rfl, (h.comes_error (by decide) (if_neg (h.type_ne (by grind [itemType])))).map _⟩

theorem bool (h : Fetched H s s' v) : ∃ r, BasicType.bool.accept R v = some r ∧
    Comes (BasicType.bool.unpack R H) "Bool" s s' r := by
  cases v with
  | bool b =>
      obtain ⟨htype, hfront⟩ := denotes_boolean h.denotes
      refine ⟨_, rfl, h.comes_ok (x := b) ?_⟩
      rw [if_pos htype, hfront]
      cases b <;> rfl
  | _ => exact ⟨_, rfl, h.comes_error (by decide) (if_neg (h.type_ne (by grind [itemType])))⟩

/-- A routine that takes any number, whatever it makes of one. -/
theorem number (h : Fetched H s s' v) {zero : ρ} {unsigned float double : Nat → ρ}
    {signed : Int → ρ} :
    Comes (guarded name (expectNext H zero (convert zero unsigned signed float double))) name s s'
      (converted unsigned signed float double v) := by
  cases v with
  | int n =>
      by_cases hn : 0 ≤ n
      · obtain ⟨htype, hfront⟩ := denotes_nonneg hn h.denotes
        rw [converted, if_pos hn, ← hfront]
        exact h.comes_ok (by rw [convert, htype]; rfl)
      · obtain ⟨htype, hi64⟩ := denotes_negative (Int.not_le.mp hn) h.denotes
        rw [converted, if_neg hn, ← hi64]
        exact h.comes_ok (by rw [convert, htype])
  | float bits =>
      obtain ⟨htype, hfront⟩ := denotes_float h.denotes
      exact h.comes_ok (by rw [convert, htype, hfront])
  | double bits =>
      obtain ⟨htype, hfront⟩ := denotes_double h.denotes
      exact h.comes_ok (by rw [convert, htype, hfront])
  | _ => exact h.comes_error (by decide) (by rw [convert, h.denotes.1]; rfl)

theorem integer (t : IntegerType) (h : Fetched H s s' v) :
    ∃ r, (BasicType.integer t).accept R v = some r ∧
      Comes ((BasicType.integer t).unpack R H) t.name s s' r := by
  have hreturns : Returns (t.routine.perform H s) s' (t.routine.expected v) := by
    by_cases htime : ∃ sec nsec, v = .timestamp sec nsec
    · -- a time is no number, like nil
      obtain ⟨sec, nsec, rfl⟩ := htime
      have hfound : Found s' .nil := .other (fun v heq => by simp at heq)
        (h.type_ne (by simp [itemType])) (h.type_ne (by simp [itemType]))
      have hnil := t.routine.perform_returns h.next h.ok hfound trivial
      exact hnil
    · obtain ⟨b, n, hread⟩ := h.read
      exact t.routine.perform_returns h.next h.ok (found_of_denotes h.denotes)
        (encodable_of_readItem hread fun sec nsec hv => absurd ⟨sec, nsec, hv⟩ htime)
  refine ⟨_, rfl, ?_⟩
  have hguarded : (guarded t.name (t.routine.perform H)).perform s =
      some (if (t.routine.expected v).2 = cwpRcOk then .ok (t.routine.expected v).1
        else .error (.unpackerError t.name), s'.setReturnCode (t.routine.expected v).2) := by
    show (t.routine.perform H s).map _ = _
    rw [hreturns]
    rfl
  by_cases hok : (t.routine.expected v).2 = cwpRcOk
  · rw [if_pos hok, hok, setReturnCode_of_eq h.ok] at hguarded
    rw [if_pos hok]
    exact (perform_bind_of_ok hguarded _).trans rfl
  · rw [if_neg hok] at hguarded
    rw [if_neg hok]
    exact Comes.map (f := guarded t.name (t.routine.perform H)) (r := .error _) hguarded _

theorem date (h : Fetched H s s' v) (hv : ∀ payload, v ≠ .ext (-1) payload) :
    ∃ r, BasicType.date.accept R v = some r ∧ Comes (BasicType.date.unpack R H) "Date" s s' r := by
  cases v with
  | timestamp sec nsec =>
      have has := as_of_denotes_timestamp h.denotes
      have hi64 : s'.uc.item.as.i64 = sec := by
        rw [has]
        obtain ⟨hlo, hhi⟩ := h.sec rfl
        exact twosComplement_toPattern (by omega) (by omega)
      refine ⟨_, rfl, (h.comes_ok (x := R.floatUnit.add (R.floatUnit.doubleOfInt64 (.ofInt sec))
        (R.floatUnit.div (R.floatUnit.doubleOfUInt32 (.ofNat nsec)) doubleBillion)) ?_).map _⟩
      rw [if_pos (show s'.uc.item.type = .timestamp from h.denotes.1), hi64, has]
      rfl
  | ext type payload =>
      have htype : type ≠ -1 := fun heq => hv payload (by rw [heq])
      refine ⟨_, if_neg htype, (h.comes_error (by decide) (if_neg (h.type_ne ?_))).map _⟩
      intro heq
      exact htype (ItemType.ext.inj heq)
  | _ => exact ⟨_, rfl, (h.comes_error (by decide) (if_neg (h.type_ne (by grind [itemType])))).map _⟩

/-- A routine that returns the length of a blob. -/
theorem length_of_blob (h : Fetched H s s' v) (name : String) {type : ItemType} {bs : List UInt8}
    (htype : s'.uc.item.type = type) (hbytes : blobBytes s' = bs) :
    (guarded name (unpackNextSize type ItemAs.back H)).perform s = some (.ok (bs.length : Int), s') := by
  have hback : s'.uc.item.as.back = bs.length := by
    rw [← hbytes, blobBytes, Memory.bytes_length]
  exact h.comes_ok (by rw [if_pos htype, hback])

/-- The bytes of a blob, by its pointer and the length returned. -/
theorem bytes_of_blob {bs : List UInt8} (hbytes : blobBytes s' = bs) :
    s'.mem.bytes s'.uc.item.as.front (bs.length : Int).toNat = bs := by
  rw [Int.toNat_natCast]
  rw [blobBytes] at hbytes
  have hback : s'.uc.item.as.back = bs.length := by rw [← hbytes, Memory.bytes_length]
  rw [← hback, hbytes]

theorem data (h : Fetched H s s' v) : ∃ r, BasicType.data.accept R v = some r ∧
    Comes (BasicType.data.unpack R H) "Data" s s' r := by
  cases v with
  | bin bs =>
      obtain ⟨htype, hbytes⟩ := denotes_bin h.denotes
      refine ⟨_, rfl, (perform_bind_of_ok (h.length_of_blob _ htype hbytes) _).trans ?_⟩
      have hall : (if (bs.length : Int) > 0 then
          s'.mem.bytes s'.uc.item.as.front (bs.length : Int).toNat else []) = bs := by
        rw [bytes_of_blob hbytes]
        cases bs with
        | nil => rfl
        | cons c bs => exact if_pos (Int.natCast_pos.mpr (Nat.succ_pos _))
      exact congrArg (fun x => some (Except.ok x, s')) hall
  | _ =>
      have hlength : Comes (guarded "Data" (cwUnpackNextBinLengh H)) "Data" s s'
          (.error cwpRcTypeError) :=
        h.comes_error (by decide) (if_neg (h.type_ne (by grind [itemType])))
      exact ⟨_, rfl, hlength.throws _⟩

theorem string (h : Fetched H s s' v) {r : Except Int String}
    (hr : BasicType.string.accept R v = some r) :
    Comes (BasicType.string.unpack R H) "String" s s' r := by
  cases v with
  | str bs =>
      obtain ⟨htype, hbytes⟩ := denotes_str h.denotes
      have hbind := fun k => perform_bind_of_ok
        (h.length_of_blob "String" htype hbytes) (β := String) k
      rw [BasicType.accept] at hr
      cases bs with
      | nil =>
          obtain rfl := Option.some.inj hr
          exact (hbind _).trans rfl
      | cons c bs =>
          have hpos : ((c :: bs).length : Int) > 0 := Int.natCast_pos.mpr (Nat.succ_pos _)
          have hlength : (c :: bs).length > 0 := Nat.succ_pos _
          rw [if_pos hlength] at hr
          cases hstring : R.nsString (c :: bs) with
          | none => simp [hstring] at hr
          | some x =>
              rw [hstring] at hr
              obtain rfl := Option.some.inj hr
              refine (hbind _).trans ?_
              show (if _ then _ else _ : Throwing CWPackError (UnpackState σ) String).perform s' = _
              rw [if_pos hpos]
              simp only [bytes_of_blob hbytes, hstring]
              rfl
  | _ =>
      have hlength : Comes (guarded "String" (cwUnpackNextStrLengh H)) "String" s s'
          (.error cwpRcTypeError) :=
        h.comes_error (by decide) (if_neg (h.type_ne (by grind [itemType])))
      obtain rfl := Option.some.inj hr
      exact hlength.throws _

theorem msgPackExt (h : Fetched H s s' v) {r : Except Int MsgPackExt}
    (hr : BasicType.msgPackExt.accept R v = some r) :
    Comes (BasicType.msgPackExt.unpack R H) "MsgPackExt" s s' r := by
  have hperform : (BasicType.msgPackExt.unpack R H).perform s =
      if s'.uc.returnCode = cwpRcOk ∧ s'.uc.item.type.code ≤ cwpItemMaxUserExt then
        (msgPackExtOf s').map fun x => (.ok x, s')
      else some (.error (.unpackerError "MsgPackExt"), s') := by
    show (cwUnpackNext H s).bind _ = _
    rw [h.next, Option.bind_some]
  have hnone : ∀ {x : Value}, s'.Denotes x → (∀ type, itemType x ≠ .ext type) →
      (BasicType.msgPackExt.unpack R H).perform s =
        some (.error (.unpackerError "MsgPackExt"), s'.setReturnCode cwpRcOk) := by
    intro x hden hx
    rw [hperform, setReturnCode_of_eq h.ok]
    refine if_neg fun hboth => ?_
    have hcode := hboth.2
    rw [hden.1] at hcode
    cases hitem : itemType x with
    | ext type => exact hx type hitem
    | _ => simp [hitem, ItemType.code, cwpItemMaxUserExt] at hcode
  cases v with
  | ext type payload =>
      obtain rfl := Option.some.inj hr
      obtain ⟨start, hitem, hbytes⟩ := blob_of_denotes_ext h.denotes
      have hcode : (ItemType.ext type).code ≤ cwpItemMaxUserExt := Int.not_lt.mp (code_ext_le type)
      refine hperform.trans ?_
      rw [hitem, if_pos ⟨h.ok, hcode⟩, msgPackExtOf, hitem]
      simp only [hbytes]
      rfl
  | timestamp sec nsec => simp [BasicType.accept] at hr
  | _ =>
      obtain rfl := Option.some.inj hr
      exact hnone h.denotes (by grind [itemType])

end Fetched

/-- The verdict of a basic type on the item behind which it looks. -/
theorem BasicType.unpack_comes {R : Runtime} (h : Fetched H s s' v) (t : BasicType)
    {r : Except Int t.Carrier} (hr : t.accept R v = some r) :
    Comes (t.unpack R H) t.errorName s s' r := by
  have hof : (∃ r, t.accept R v = some r ∧ Comes (t.unpack R H) t.errorName s s' r) →
      Comes (t.unpack R H) t.errorName s s' r := by
    rintro ⟨r', hr', hcomes⟩
    obtain rfl := Option.some.inj (hr.symm.trans hr')
    exact hcomes
  cases t with
  | cwNil => exact hof h.cwNil
  | arrayHeader => exact hof h.arrayHeader
  | dictionaryHeader => exact hof h.dictionaryHeader
  | msgPackExt => exact h.msgPackExt hr
  | bool => exact hof h.bool
  | integer t => exact hof (h.integer t)
  | float => exact hof ⟨_, rfl, h.number⟩
  | double => exact hof ⟨_, rfl, h.number⟩
  | date =>
      refine hof (h.date fun payload hv => ?_)
      subst hv
      simp [accept] at hr
  | data => exact hof h.data
  | string => exact h.string hr

/-- Where there is no item every basic type throws. -/
theorem BasicType.unpack_of_fail (R : Runtime) (t : BasicType) (hnext : cwUnpackNext H s = some s')
    (hfail : s'.uc.returnCode ≠ cwpRcOk) :
    (t.unpack R H).perform s = some (.error (.unpackerError t.errorName), s') := by
  have hexpect : ∀ {ρ α : Type} {zero : ρ} {k : UnpackState σ → ρ × UnpackState σ} {name : String}
      (l : ρ → Throwing CWPackError (UnpackState σ) α),
      (guarded name (expectNext H zero k) >>= l).perform s =
        some (.error (.unpackerError name), s') := by
    intro ρ α zero k name l
    rw [perform_bind, perform_guarded_of_fail (expectNext_of_fail hnext hfail) hfail]
    rfl
  cases t with
  | msgPackExt =>
      show (cwUnpackNext H s).bind _ = _
      rw [hnext, Option.bind_some, if_neg fun hboth => hfail hboth.1]
      rfl
  | bool => exact perform_guarded_of_fail (expectNext_of_fail hnext hfail) hfail
  | float => exact perform_guarded_of_fail (expectNext_of_fail hnext hfail) hfail
  | double => exact perform_guarded_of_fail (expectNext_of_fail hnext hfail) hfail
  | integer t => cases t <;> exact hexpect _
  | _ => exact hexpect _

end Routines

section Following

variable {R : Runtime} {H : Option (UnpackUnderflowHandler σ)}
  {inv : List UInt8 → UnpackInput σ → Prop} {stopped : UnpackInput σ → Prop}

/-- On a context that is fed, the `init` of a basic type follows that of the reader. -/
theorem BasicType.unpack_follows (F : Feeds H False inv stopped) (fuel : Nat) (t : BasicType) :
    Follows (Tracks inv stopped fuel) (fun _ => False) (t.unpack R H) (t.reads R) := by
  rintro s (e | b) h
  · obtain ⟨he, hrc, hstop⟩ := h
    have hnext : cwUnpackNext H s = some s := if_pos (by rw [hrc]; exact he)
    rw [t.unpack_of_fail R hnext (by rw [hrc]; exact he)]
    exact .same ⟨he, hrc, hstop⟩
  · obtain ⟨hrc, hinv, hfuel⟩ := h
    obtain ⟨s', hnext, hdel⟩ := (cwUnpackNext_spec F hinv hrc).exists_of_not_stuck
    cases hread : readItem b with
    | error e =>
        rw [hread] at hdel
        have he := readItem_error hread
        rw [t.reads_of_error hread, t.unpack_of_fail R hnext (by rw [hdel.returnCode]; exact he)]
        exact .same ⟨he, hdel.returnCode, hdel.input⟩
    | ok x =>
        obtain ⟨v, n⟩ := x
        rw [hread] at hdel
        obtain ⟨hok, hden, hinv'⟩ := hdel
        have hfetched : Fetched H s s' v := ⟨hnext, hok, hden, b, n, hread⟩
        have hfuel' : (b.drop n).length < fuel := by
          rw [List.length_drop]
          omega
        rw [t.reads_of_ok hread]
        cases haccept : t.accept R v with
        | none => exact .undefined
        | some r =>
            have hcomes := t.unpack_comes hfetched haccept
            cases r with
            | ok x =>
                have hperform : (t.unpack R H).perform s = some (.ok x, s') := hcomes
                rw [hperform]
                exact .same ⟨hok, hinv', hfuel'⟩
            | error rc =>
                have hperform : (t.unpack R H).perform s =
                  some (.error (.unpackerError t.errorName), s'.setReturnCode rc) := hcomes
                rw [hperform]
                refine .same ?_
                by_cases hrc' : rc = cwpRcOk
                · rw [if_pos hrc']
                  exact ⟨hrc', hinv', hfuel'⟩
                · rw [if_neg hrc']
                  exact ⟨hrc', rfl, F.stops hinv'⟩

theorem PackableType.unpack_follows (F : Feeds H False inv stopped) (fuel : Nat)
    (t : PackableType) :
    Follows (Tracks inv stopped fuel) (fun _ => False) (t.unpack R H) (t.reads R) :=
  PackableType.unpackWith_follows (BasicType.unpack_follows F fuel) t

end Following

/-! ## A part of the bytes -/

/-- The one reader has the first bytes of the other, or both have stopped. -/
def Part (r r' : Reader) : Prop :=
  (∃ p b, r = .ok p ∧ r' = .ok b ∧ p <+: b) ∨ ∃ e, r = .error e ∧ r' = .error e

/-- The reader has stopped, or has nothing ahead. -/
def Exhausted (r : Reader) : Prop := r = .ok [] ∨ ∃ e, r = .error e

/-- A reader of a part reads the same item, or stops. -/
theorem readItem_of_prefix {p b : List UInt8} (h : p <+: b) :
    (∃ v n, readItem p = .ok (v, n) ∧ readItem b = .ok (v, n) ∧ p.drop n <+: b.drop n) ∨
      ∃ e, readItem p = .error e := by
  cases hp : readItem p with
  | error e => exact Or.inr ⟨e, rfl⟩
  | ok x =>
      obtain ⟨v, n⟩ := x
      obtain ⟨hn, hspells⟩ := spells_of_readItem hp
      obtain ⟨t, rfl⟩ := h
      refine Or.inl ⟨v, n, rfl, ?_, ?_⟩
      · have hread := hspells (p.drop n ++ t)
        rw [← List.append_assoc, List.take_append_drop, List.length_take, Nat.min_eq_left hn] at hread
        exact hread
      · rw [List.drop_append_of_le_length hn]
        exact List.prefix_append _ _

section Parts

variable {R : Runtime}

/-- An exhausted reader throws, whatever is asked of it, and stays exhausted. -/
theorem PackableType.reads_of_exhausted (t : PackableType) (r : Reader) (h : Exhausted r) :
    ∃ e r', (t.reads R).perform r = some (.error e, r') ∧ Exhausted r' := by
  rcases h with rfl | ⟨e, rfl⟩ <;> cases t <;> exact ⟨_, _, rfl, Or.inr ⟨_, rfl⟩⟩

theorem BasicType.reads_of_part (t : BasicType) : Follows Part Exhausted (t.reads R) (t.reads R) := by
  rintro r r' (⟨p, b, rfl, rfl, hprefix⟩ | ⟨e, rfl, rfl⟩)
  · rcases readItem_of_prefix hprefix with ⟨v, n, hp, hb, hrest⟩ | ⟨e, hp⟩
    · rw [t.reads_of_ok hp, t.reads_of_ok hb]
      cases t.accept R v with
      | none => exact .undefined
      | some x =>
          cases x with
          | ok x => exact .same (Or.inl ⟨_, _, rfl, rfl, hrest⟩)
          | error rc =>
              refine .same ?_
              by_cases hrc : rc = cwpRcOk
              · rw [if_pos hrc, if_pos hrc]
                exact Or.inl ⟨_, _, rfl, rfl, hrest⟩
              · rw [if_neg hrc, if_neg hrc]
                exact Or.inr ⟨rc, rfl, rfl⟩
    · rw [t.reads_of_error hp]
      exact .broke (Or.inr ⟨e, rfl⟩)
  · exact .same (Or.inr ⟨e, rfl, rfl⟩)

/-- A reader of a part gives what a reader of the whole gives, and then throws. -/
theorem PackableType.reads_of_part (t : PackableType) :
    Follows Part Exhausted (t.reads R) (t.reads R) :=
  PackableType.unpackWith_follows BasicType.reads_of_part t

end Parts

end CWPack.Swift
