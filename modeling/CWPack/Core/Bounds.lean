/-
  Core/Bounds.lean --- unpacking a static buffer stays in the buffer.

  The routines of `Core/Unpack.lean` load from a memory that is defined
  everywhere.  Here they are written once more with every load guarded: a load
  that is not inside `[start, end)` does not return.  On a static buffer with the
  cursor inside, the guarded routines do what the others do, so no load of theirs
  leaves the buffer.

  Over a run of calls the cursor stays inside and never steps back, and the blob
  of an item lies in the bytes that its call has consumed.
-/
import CWPack.Core.LookAhead

set_option autoImplicit false

namespace CWPack.Core

open CWPack.Foundation
open CWPack.MessagePack

variable {σ ρ : Type}

/-! ## The routines with their loads guarded -/

namespace Guarded

/-- The loads of `n` bytes at `p` are inside the buffer. -/
def load (p n : Nat) (s : UnpackState σ) (k : Option ρ) : Option ρ :=
  if s.uc.start ≤ p ∧ p + n ≤ s.uc.end_ then k else none

/-- The macros that load a number of `w` bytes and store it -/
def getDDItemLoad (w : Nat) (load : Memory → Nat → Nat) (typ : ItemType)
    (store : Nat → ItemAs → ItemAs) (s : UnpackState σ)
    (k : UnpackState σ → Option (UnpackState σ)) : Option (UnpackState σ) :=
  cwUnpackAssertSpace none cwpRcBufferUnderflow w (s.setType typ) fun p s =>
    Guarded.load p w s (k (s.setAs (store (load s.mem p) s.uc.item.as)))

/-- `getDDItem1(typ,var,cast)` -/
def getDDItem1 (typ : ItemType) (store : Nat → ItemAs → ItemAs) (s : UnpackState σ)
    (k : UnpackState σ → Option (UnpackState σ)) : Option (UnpackState σ) :=
  getDDItemLoad 1 (fun m p => (m p).toNat) typ store s k

/-- `getDDItem2(typ,var,cast)` -/
def getDDItem2 (typ : ItemType) (store : Nat → ItemAs → ItemAs) (s : UnpackState σ)
    (k : UnpackState σ → Option (UnpackState σ)) : Option (UnpackState σ) :=
  getDDItemLoad 2 cwLoad16 typ store s k

/-- `getDDItem4(typ,var,cast)` -/
def getDDItem4 (typ : ItemType) (store : Nat → ItemAs → ItemAs) (s : UnpackState σ)
    (k : UnpackState σ → Option (UnpackState σ)) : Option (UnpackState σ) :=
  getDDItemLoad 4 cwLoad32 typ store s k

/-- `getDDItem8(typ)` -/
def getDDItem8 (typ : ItemType) (s : UnpackState σ)
    (k : UnpackState σ → Option (UnpackState σ)) : Option (UnpackState σ) :=
  getDDItemLoad 8 cwLoad64 typ storeU64 s k

/-- `getDDItemFix(len)` -/
def getDDItemFix (len : Nat) (s : UnpackState σ) : Option (UnpackState σ) :=
  cwUnpackAssertSpace none cwpRcBufferUnderflow (len + 1) s fun p s =>
    load p 1 s <|
      let s := s.setType (.ext (s.mem p).toInt8)
      let p := p + 1
      if s.uc.item.type = .timestamp then
        if len = 4 then
          load p 4 s <|
            let s := s.setAs (s.uc.item.as.setTvSec (cwLoad32 s.mem p))
            some (s.setAs (s.uc.item.as.setTvNsec 0))
        else if len = 8 then
          load p 8 s <|
            let tmpu64 := cwLoad64 s.mem p
            let s := s.setAs (s.uc.item.as.setTvSec ((tmpu64 &&& 0x00000003ffffffff : Nat) : Int))
            some (s.setAs (s.uc.item.as.setTvNsec (tmpu64 >>> 34)))
        else unpackError cwpRcWrongTimestampLength s
      else
        let s := s.setAs (s.uc.item.as.setLength len)
        some (s.setAs (s.uc.item.as.setStart p))

/-- The switch of `cw_unpack_next` on the first byte. -/
def unpackSwitch (c : Nat) (s : UnpackState σ) : Option (UnpackState σ) :=
  if c < 0x80 then some (getDDItem .positiveInteger (fun _ => .ofI64 c) s)
  else if c < 0x90 then some (getDDItem .map (storeSize (c &&& 0x0f)) s)
  else if c < 0xa0 then some (getDDItem .array (storeSize (c &&& 0x0f)) s)
  else if c < 0xc0 then cwUnpackAssertBlob none (getDDItem .str (storeLength (c &&& 0x1f)) s)
  else if 0xe0 ≤ c then some (getDDItem .negativeInteger (storeI64 8 c) s)
  else match c with
    | 0xc0 => some (s.setType .nil)
    | 0xc2 => some (getDDItem .boolean (fun _ => .boolean false) s)
    | 0xc3 => some (getDDItem .boolean (fun _ => .boolean true) s)
    | 0xc4 => getDDItem1 .bin storeLength s (cwUnpackAssertBlob none)
    | 0xc5 => getDDItem2 .bin storeLength s (cwUnpackAssertBlob none)
    | 0xc6 => getDDItem4 .bin storeLength s (cwUnpackAssertBlob none)
    | 0xc7 =>
        getDDItem1 .extItem storeLength s fun s =>
        cwUnpackAssertSpace none cwpRcBufferUnderflow 1 s fun p s =>
        load p 1 s <|
        let s := s.setType (.ext (s.mem p).toInt8)
        if s.uc.item.type = .timestamp then
          if s.uc.item.as.back = 12 then
            cwUnpackAssertSpace none cwpRcBufferUnderflow 4 s fun p s =>
            load p 4 s <|
            let s := s.setAs (s.uc.item.as.setTvNsec (cwLoad32 s.mem p))
            cwUnpackAssertSpace none cwpRcBufferUnderflow 8 s fun p s =>
            load p 8 s <|
            some (s.setAs (s.uc.item.as.setTvSec (twosComplement 64 (cwLoad64 s.mem p))))
          else unpackError cwpRcWrongTimestampLength s
        else cwUnpackAssertBlob none s
    | 0xc8 =>
        getDDItem2 .extItem storeLength s fun s =>
        cwUnpackAssertSpace none cwpRcBufferUnderflow 1 s fun p s =>
        load p 1 s <| cwUnpackAssertBlob none (s.setType (.ext (s.mem p).toInt8))
    | 0xc9 =>
        getDDItem4 .extItem storeLength s fun s =>
        cwUnpackAssertSpace none cwpRcBufferUnderflow 1 s fun p s =>
        load p 1 s <| cwUnpackAssertBlob none (s.setType (.ext (s.mem p).toInt8))
    | 0xca => getDDItem4 .float (fun n _ => .real n) s some
    | 0xcb => getDDItem8 .double s some
    | 0xcc => getDDItem1 .positiveInteger storeU64 s some
    | 0xcd => getDDItem2 .positiveInteger storeU64 s some
    | 0xce => getDDItem4 .positiveInteger storeU64 s some
    | 0xcf => getDDItem8 .positiveInteger s some
    | 0xd0 => getDDItem1 .negativeInteger (storeI64 8) s retagSigned
    | 0xd1 => getDDItem2 .negativeInteger (storeI64 16) s retagSigned
    | 0xd2 => getDDItem4 .negativeInteger (storeI64 32) s retagSigned
    | 0xd3 => getDDItem8 .negativeInteger s retagSigned
    | 0xd4 => getDDItemFix 1 s
    | 0xd5 => getDDItemFix 2 s
    | 0xd6 => getDDItemFix 4 s
    | 0xd7 => getDDItemFix 8 s
    | 0xd8 => getDDItemFix 16 s
    | 0xd9 => getDDItem1 .str storeLength s (cwUnpackAssertBlob none)
    | 0xda => getDDItem2 .str storeLength s (cwUnpackAssertBlob none)
    | 0xdb => getDDItem4 .str storeLength s (cwUnpackAssertBlob none)
    | 0xdc => getDDItem2 .array storeSize s some
    | 0xdd => getDDItem4 .array storeSize s some
    | 0xde => getDDItem2 .map storeSize s some
    | 0xdf => getDDItem4 .map storeSize s some
    | _ => unpackError cwpRcMalformedInput s

/-- `cw_unpack_next` -/
def cwUnpackNext (s : UnpackState σ) : Option (UnpackState σ) :=
  if s.uc.returnCode ≠ 0 then some s
  else cwUnpackAssertSpace none cwpRcEndOfInput 1 s fun p s =>
    load p 1 s <| unpackSwitch (s.mem p).toNat s

/-- The switch of `cw_skip_items`; `loop` is the next turn of the loop. -/
def skipSwitch (c : Nat) (itemCount : Int64) (s : UnpackState σ)
    (loop : Int64 → UnpackState σ → Option (UnpackState σ)) : Option (UnpackState σ) :=
  let assertSpace := cwUnpackAssertSpace none cwpRcBufferUnderflow
  let cwSkipBytes (n : Nat) (s : UnpackState σ) := assertSpace n s fun _ s => loop itemCount s
  let addItems (n : Nat) (s : UnpackState σ) := loop (itemCount + Int64.ofNat n) s
  if c < 0x80 then loop itemCount s
  else if c < 0x90 then addItems (2 * (c &&& 15)) s
  else if c < 0xa0 then addItems (c &&& 15) s
  else if c < 0xc0 then cwSkipBytes (c &&& 0x1f) s
  else if 0xe0 ≤ c then loop itemCount s
  else match c with
    | 0xc0 | 0xc2 | 0xc3 => loop itemCount s
    | 0xcc | 0xd0 => cwSkipBytes 1 s
    | 0xcd | 0xd1 | 0xd4 => cwSkipBytes 2 s
    | 0xd5 => cwSkipBytes 3 s
    | 0xca | 0xce | 0xd2 => cwSkipBytes 4 s
    | 0xd6 => cwSkipBytes 5 s
    | 0xcb | 0xcf | 0xd3 => cwSkipBytes 8 s
    | 0xd7 => cwSkipBytes 9 s
    | 0xd8 => cwSkipBytes 17 s
    | 0xd9 | 0xc4 => assertSpace 1 s fun p s => load p 1 s <| cwSkipBytes (s.mem p).toNat s
    | 0xda | 0xc5 => assertSpace 2 s fun p s => load p 2 s <| cwSkipBytes (cwLoad16 s.mem p) s
    | 0xdb | 0xc6 => assertSpace 4 s fun p s => load p 4 s <| cwSkipBytes (cwLoad32 s.mem p) s
    | 0xdc => assertSpace 2 s fun p s => load p 2 s <| addItems (cwLoad16 s.mem p) s
    | 0xde => assertSpace 2 s fun p s => load p 2 s <| addItems (2 * cwLoad16 s.mem p) s
    | 0xdd => assertSpace 4 s fun p s => load p 4 s <| addItems (cwLoad32 s.mem p) s
    | 0xdf =>
        assertSpace 4 s fun p s => load p 4 s <| addItems (2 * cwLoad32 s.mem p % 2 ^ 32) s
    | 0xc7 => assertSpace 1 s fun p s => load p 1 s <| cwSkipBytes ((s.mem p).toNat + 1) s
    | 0xc8 => assertSpace 2 s fun p s => load p 2 s <| cwSkipBytes (cwLoad16 s.mem p + 1) s
    | 0xc9 =>
        assertSpace 4 s fun p s => load p 4 s <| cwSkipBytes ((cwLoad32 s.mem p + 1) % 2 ^ 32) s
    | _ => unpackError cwpRcMalformedInput s

/-- The loop of `cw_skip_items` -/
def skipLoop : Nat → Int64 → UnpackState σ → Option (UnpackState σ)
  | 0, _, _ => none
  | fuel + 1, itemCount, s =>
      if itemCount > 0 then
        cwUnpackAssertSpace none cwpRcEndOfInput 1 s fun p s =>
          load p 1 s <| skipSwitch (s.mem p).toNat (itemCount - 1) s (skipLoop fuel)
      else some s

/-- `cw_skip_items` -/
def cwSkipItems (fuel : Nat) (itemCount : Int64) (s : UnpackState σ) : Option (UnpackState σ) :=
  if s.uc.returnCode ≠ 0 then some s else skipLoop fuel itemCount s

/-- The switch of `cw_look_ahead`; the cursor has been stepped back. -/
def lookSwitch (c : Nat) (s : UnpackState σ) : Option (ItemType × UnpackState σ) :=
  let assertSpaceSub (more : Nat) (s : UnpackState σ) :=
    cwUnpackAssertSpaceSub none cwpRcBufferUnderflow (fun _ => more) (ItemType.notAnItem, ·) s
  let stepBack (n : Nat) (s : UnpackState σ) := s.setCurrent (s.uc.current - n)
  if c < 0x80 then some (.positiveInteger, s)
  else if c < 0x90 then some (.map, s)
  else if c < 0xa0 then some (.array, s)
  else if c < 0xc0 then some (.str, s)
  else if 0xe0 ≤ c then some (.negativeInteger, s)
  else match c with
    | 0xc0 => some (.nil, s)
    | 0xc2 | 0xc3 => some (.boolean, s)
    | 0xc4 | 0xc5 | 0xc6 => some (.bin, s)
    | 0xc7 =>
        assertSpaceSub 3 s fun p s =>
          let s := stepBack 3 s
          load (p + 2) 1 s <|
            if ((s.mem (p + 2)).toNat : Int) = ItemType.timestamp.code then some (.timestamp, s)
            else some (.ext (s.mem (p + 2)).toInt8, s)
    | 0xc8 =>
        assertSpaceSub 4 s fun p s =>
          load (p + 3) 1 s <| some (.ext (s.mem (p + 3)).toInt8, stepBack 4 s)
    | 0xc9 =>
        assertSpaceSub 6 s fun p s =>
          load (p + 5) 1 s <| some (.ext (s.mem (p + 5)).toInt8, stepBack 6 s)
    | 0xca => some (.float, s)
    | 0xcb => some (.double, s)
    | 0xcc | 0xcd | 0xce | 0xcf => some (.positiveInteger, s)
    | 0xd0 | 0xd1 | 0xd2 | 0xd3 => some (.negativeInteger, s)
    | 0xd4 | 0xd5 | 0xd6 | 0xd7 | 0xd8 =>
        assertSpaceSub 2 s fun p s =>
          load (p + 1) 1 s <| some (.ext (s.mem (p + 1)).toInt8, stepBack 2 s)
    | 0xd9 | 0xda | 0xdb => some (.str, s)
    | 0xdc | 0xdd => some (.array, s)
    | 0xde | 0xdf => some (.map, s)
    | _ => some (.notAnItem, s)

/-- `cw_look_ahead` -/
def cwLookAhead (s : UnpackState σ) : Option (ItemType × UnpackState σ) :=
  if s.uc.returnCode ≠ 0 then some (.notAnItem, s)
  else cwUnpackAssertSpaceSub none cwpRcEndOfInput (fun _ => 1) (ItemType.notAnItem, ·) s fun p s =>
    load p 1 s <| lookSwitch (s.mem p).toNat (s.setCurrent (s.uc.current - 1))

/-- Perform a call. -/
def perform (fuel : Nat) : UnpackOp → UnpackState σ → Option (Observation × UnpackState σ)
  | .next, s =>
      match cwUnpackNext s with
      | none => none
      | some s =>
          some (⟨s.uc.returnCode, none, if s.uc.returnCode = 0 then some s.delivered else none⟩, s)
  | .lookAhead, s =>
      match cwLookAhead s with
      | none => none
      | some (t, s) => some (⟨s.uc.returnCode, some t, none⟩, s)
  | .skip itemCount, s =>
      match cwSkipItems fuel itemCount s with
      | none => none
      | some s => some (⟨s.uc.returnCode, none, none⟩, s)

end Guarded

/-! ## No load leaves the buffer -/

namespace Guarded

section Agree

variable {s : UnpackState σ}

theorem load_of_inside {p n : Nat} {k : Option ρ} (hlo : s.uc.start ≤ p)
    (hhi : p + n ≤ s.uc.end_) : load p n s k = k :=
  if_pos ⟨hlo, hhi⟩

/-- After space has been asserted, the continuations need to agree on what is behind the
cursor only. -/
theorem assertSpaceSub_congr {code : Int} {n : Nat} {abort : UnpackState σ → ρ}
    {k k' : Nat → UnpackState σ → Option ρ}
    (h : s.uc.current + n ≤ s.uc.end_ → k s.uc.current (s.setCurrent (s.uc.current + n)) =
      k' s.uc.current (s.setCurrent (s.uc.current + n))) :
    cwUnpackAssertSpaceSub none code (fun _ => n) abort s k =
      cwUnpackAssertSpaceSub none code (fun _ => n) abort s k' := by
  rw [assertSpaceSub_static, assertSpaceSub_static]
  split
  · rfl
  · exact h (by omega)

/-- Space for `n` bytes that are loaded at once. -/
theorem assertSpace_load {code : Int} {n : Nat}
    {k k' : Nat → UnpackState σ → Option (UnpackState σ)} (hlo : s.uc.start ≤ s.uc.current)
    (h : ∀ (p : Nat) (s' : UnpackState σ), s'.uc.start ≤ s'.uc.current → k p s' = k' p s') :
    (cwUnpackAssertSpace none code n s fun p s => load p n s (k p s)) =
      cwUnpackAssertSpace none code n s k' := by
  refine assertSpaceSub_congr fun hhi => (load_of_inside hlo hhi).trans (h _ _ ?_)
  exact Nat.le_trans hlo (Nat.le_add_right _ _)

theorem getDDItemLoad_eq {w : Nat} {load : Memory → Nat → Nat} {typ : ItemType}
    {store : Nat → ItemAs → ItemAs} {k k' : UnpackState σ → Option (UnpackState σ)}
    (hlo : s.uc.start ≤ s.uc.current)
    (h : ∀ s' : UnpackState σ, s'.uc.start ≤ s'.uc.current → k s' = k' s') :
    getDDItemLoad w load typ store s k = Core.getDDItemLoad none w load typ store s k' := by
  have hlo' : (s.setType typ).uc.start ≤ (s.setType typ).uc.current := hlo
  exact assertSpace_load (k := fun p s => k (s.setAs (store (load s.mem p) s.uc.item.as))) hlo'
    fun p s' hs' => h _ hs'

theorem getDDItemFix_eq (len : Nat) (hlo : s.uc.start ≤ s.uc.current) :
    getDDItemFix len s = Core.getDDItemFix none len s := by
  unfold getDDItemFix Core.getDDItemFix
  refine assertSpaceSub_congr fun hhi => ?_
  have hhi' : s.uc.current + 1 ≤ s.uc.end_ := by omega
  refine (load_of_inside hlo hhi').trans ?_
  have hlo' : s.uc.start ≤ s.uc.current + 1 := Nat.le_succ_of_le hlo
  simp only
  split
  · split
    · rename_i h4
      have hhi4 : s.uc.current + 1 + 4 ≤ s.uc.end_ := by omega
      exact load_of_inside hlo' hhi4
    · split
      · rename_i h8
        have hhi8 : s.uc.current + 1 + 8 ≤ s.uc.end_ := by omega
        exact load_of_inside hlo' hhi8
      · rfl
  · rfl

theorem unpackSwitch_eq (c : Nat) (hlo : s.uc.start ≤ s.uc.current) :
    unpackSwitch c s = Core.unpackSwitch none c s := by
  have hload : ∀ {w : Nat} {load : Memory → Nat → Nat} {typ : ItemType}
      {store : Nat → ItemAs → ItemAs} (k : UnpackState σ → Option (UnpackState σ)),
      getDDItemLoad w load typ store s k = Core.getDDItemLoad none w load typ store s k :=
    fun k => getDDItemLoad_eq hlo fun _ _ => rfl
  have htype : ∀ {w : Nat} {load : Memory → Nat → Nat},
      (getDDItemLoad w load .extItem storeLength s fun s =>
        cwUnpackAssertSpace none cwpRcBufferUnderflow 1 s fun p s =>
        Guarded.load p 1 s <| cwUnpackAssertBlob none (s.setType (.ext (s.mem p).toInt8))) =
      Core.getDDItemLoad none w load .extItem storeLength s fun s =>
        cwUnpackAssertSpace none cwpRcBufferUnderflow 1 s fun p s =>
        cwUnpackAssertBlob none (s.setType (.ext (s.mem p).toInt8)) :=
    getDDItemLoad_eq hlo fun s hs => assertSpace_load hs fun _ _ _ => rfl
  unfold unpackSwitch Core.unpackSwitch
  split
  · rfl
  split
  · rfl
  split
  · rfl
  split
  · rfl
  split
  · rfl
  split
  case h_1 => rfl
  case h_2 => rfl
  case h_3 => rfl
  case h_7 =>
    refine getDDItemLoad_eq hlo fun s hs => assertSpace_load hs fun p s hs => ?_
    simp only
    split
    · split
      · exact assertSpace_load hs fun p s hs => assertSpace_load hs fun _ _ _ => rfl
      · rfl
    · rfl
  case h_8 => exact htype
  case h_9 => exact htype
  case h_20 => exact getDDItemFix_eq _ hlo
  case h_21 => exact getDDItemFix_eq _ hlo
  case h_22 => exact getDDItemFix_eq _ hlo
  case h_23 => exact getDDItemFix_eq _ hlo
  case h_24 => exact getDDItemFix_eq _ hlo
  case h_32 => grind
  all_goals exact hload _

theorem cwUnpackNext_eq (hlo : s.uc.start ≤ s.uc.current) :
    cwUnpackNext s = Core.cwUnpackNext none s := by
  unfold cwUnpackNext Core.cwUnpackNext
  split
  · rfl
  · exact assertSpace_load hlo fun p s' hs' => unpackSwitch_eq _ hs'

theorem skipSwitch_eq {loop loop' : Int64 → UnpackState σ → Option (UnpackState σ)}
    (c : Nat) (itemCount : Int64) (hlo : s.uc.start ≤ s.uc.current)
    (hloop : ∀ (n : Int64) (s' : UnpackState σ), s'.uc.start ≤ s'.uc.current →
      loop n s' = loop' n s') :
    skipSwitch c itemCount s loop = Core.skipSwitch none c itemCount s loop' := by
  have hskip : ∀ (n : Nat) (s : UnpackState σ), s.uc.start ≤ s.uc.current →
      (cwUnpackAssertSpace none cwpRcBufferUnderflow n s fun _ s => loop itemCount s) =
        cwUnpackAssertSpace none cwpRcBufferUnderflow n s fun _ s => loop' itemCount s :=
    fun n s hs => assertSpaceSub_congr fun _ =>
      hloop _ _ (Nat.le_trans hs (Nat.le_add_right _ _))
  have hblob : ∀ {w : Nat} (load : Memory → Nat → Nat),
      (cwUnpackAssertSpace none cwpRcBufferUnderflow w s fun p s => Guarded.load p w s <|
        cwUnpackAssertSpace none cwpRcBufferUnderflow (load s.mem p) s fun _ s =>
          loop itemCount s) =
      cwUnpackAssertSpace none cwpRcBufferUnderflow w s fun p s =>
        cwUnpackAssertSpace none cwpRcBufferUnderflow (load s.mem p) s fun _ s =>
          loop' itemCount s :=
    fun load => assertSpace_load hlo fun p s' hs' => hskip _ s' hs'
  have hsize : ∀ {w : Nat} (load : Memory → Nat → Nat),
      (cwUnpackAssertSpace none cwpRcBufferUnderflow w s fun p s => Guarded.load p w s <|
        loop (itemCount + Int64.ofNat (load s.mem p)) s) =
      cwUnpackAssertSpace none cwpRcBufferUnderflow w s fun p s =>
        loop' (itemCount + Int64.ofNat (load s.mem p)) s :=
    fun load => assertSpace_load hlo fun p s' hs' => hloop _ s' hs'
  unfold skipSwitch Core.skipSwitch
  simp only
  split
  · exact hloop _ s hlo
  split
  · exact hloop _ s hlo
  split
  · exact hloop _ s hlo
  split
  · exact hskip _ s hlo
  split
  · exact hloop _ s hlo
  split
  case h_1 => exact hloop _ s hlo
  case h_2 => exact hloop _ s hlo
  case h_3 => exact hloop _ s hlo
  case h_19 => exact hblob fun m p => (m p).toNat
  case h_20 => exact hblob fun m p => (m p).toNat
  case h_21 => exact hblob cwLoad16
  case h_22 => exact hblob cwLoad16
  case h_23 => exact hblob cwLoad32
  case h_24 => exact hblob cwLoad32
  case h_25 => exact hsize cwLoad16
  case h_26 => exact hsize fun m p => 2 * cwLoad16 m p
  case h_27 => exact hsize cwLoad32
  case h_28 => exact hsize fun m p => 2 * cwLoad32 m p % 2 ^ 32
  case h_29 => exact hblob fun m p => (m p).toNat + 1
  case h_30 => exact hblob fun m p => cwLoad16 m p + 1
  case h_31 => exact hblob fun m p => (cwLoad32 m p + 1) % 2 ^ 32
  case h_32 => grind
  all_goals exact hskip _ s hlo

/-- The induction is on the bound of the loop. -/
theorem skipLoop_eq (fuel : Nat) :
    ∀ (itemCount : Int64) (s : UnpackState σ), s.uc.start ≤ s.uc.current →
      skipLoop fuel itemCount s = Core.skipLoop none fuel itemCount s := by
  induction fuel with
  | zero =>
      intro _ _ _
      rfl
  | succ fuel ih =>
      intro itemCount s hlo
      unfold skipLoop Core.skipLoop
      split
      · exact assertSpace_load hlo fun p s' hs' => skipSwitch_eq _ _ hs' ih
      · rfl

/-- The byte that is looked at lies inside the space asserted, and the cursor is back. -/
theorem lookType_eq {code : Int} {n i : Nat} {k : UnpackState σ → UInt8 → ItemType}
    (hlo : s.uc.start ≤ s.uc.current) (hi : i < n) :
    (cwUnpackAssertSpaceSub none code (fun _ => n) (ItemType.notAnItem, ·) s fun p s =>
      load (p + i) 1 s <| some (k s (s.mem (p + i)), s.setCurrent (s.uc.current - n))) =
    cwUnpackAssertSpaceSub none code (fun _ => n) (ItemType.notAnItem, ·) s fun p s =>
      some (k s (s.mem (p + i)), s.setCurrent (s.uc.current - n)) := by
  refine assertSpaceSub_congr fun hhi => ?_
  have hlo' : s.uc.start ≤ s.uc.current + i := Nat.le_trans hlo (Nat.le_add_right _ _)
  have hhi' : s.uc.current + i + 1 ≤ s.uc.end_ := by omega
  exact load_of_inside hlo' hhi'

theorem lookSwitch_eq (c : Nat) (hlo : s.uc.start ≤ s.uc.current) :
    lookSwitch c s = Core.lookSwitch none c s := by
  have htype : ∀ {n i : Nat}, i < n →
      (cwUnpackAssertSpaceSub none cwpRcBufferUnderflow (fun _ => n) (ItemType.notAnItem, ·) s
        fun p s => load (p + i) 1 s <|
          some (.ext (s.mem (p + i)).toInt8, s.setCurrent (s.uc.current - n))) =
      cwUnpackAssertSpaceSub none cwpRcBufferUnderflow (fun _ => n) (ItemType.notAnItem, ·) s
        fun p s => some (.ext (s.mem (p + i)).toInt8, s.setCurrent (s.uc.current - n)) :=
    fun hi => lookType_eq (k := fun _ b => .ext b.toInt8) hlo hi
  unfold lookSwitch Core.lookSwitch
  simp only
  split
  · rfl
  split
  · rfl
  split
  · rfl
  split
  · rfl
  split
  · rfl
  split
  case h_7 =>
    refine assertSpaceSub_congr fun hhi => ?_
    have hlo' : s.uc.start ≤ s.uc.current + 2 := Nat.le_trans hlo (Nat.le_add_right _ _)
    have hhi' : s.uc.current + 2 + 1 ≤ s.uc.end_ := by omega
    exact load_of_inside hlo' hhi'
  case h_8 => exact htype (by decide)
  case h_9 => exact htype (by decide)
  case h_20 => exact htype (by decide)
  case h_21 => exact htype (by decide)
  case h_22 => exact htype (by decide)
  case h_23 => exact htype (by decide)
  case h_24 => exact htype (by decide)
  case h_32 => grind
  all_goals rfl

theorem cwLookAhead_eq (hlo : s.uc.start ≤ s.uc.current) :
    cwLookAhead s = Core.cwLookAhead none s := by
  unfold cwLookAhead Core.cwLookAhead
  split
  · rfl
  · refine assertSpaceSub_congr fun hhi => (load_of_inside hlo hhi).trans ?_
    refine lookSwitch_eq _ ?_
    show s.uc.start ≤ s.uc.current + 1 - 1
    omega

/-- On a static buffer, with the cursor behind its start, no load of a call leaves it. -/
theorem perform_eq (fuel : Nat) (op : UnpackOp) (hlo : s.uc.start ≤ s.uc.current) :
    perform fuel op s = op.perform fuel none s := by
  cases op with
  | next =>
      cases hcall : Core.cwUnpackNext none s with
      | none => simp only [perform, UnpackOp.perform, cwUnpackNext_eq hlo, hcall]
      | some u => simp only [perform, UnpackOp.perform, cwUnpackNext_eq hlo, hcall]
  | lookAhead =>
      cases hcall : Core.cwLookAhead none s with
      | none => simp only [perform, UnpackOp.perform, cwLookAhead_eq hlo, hcall]
      | some u =>
          obtain ⟨t, u⟩ := u
          simp only [perform, UnpackOp.perform, cwLookAhead_eq hlo, hcall]
  | skip itemCount =>
      have hskip : cwSkipItems fuel itemCount s = Core.cwSkipItems fuel none itemCount s := by
        unfold cwSkipItems Core.cwSkipItems
        rw [skipLoop_eq fuel itemCount s hlo]
      cases hcall : Core.cwSkipItems fuel none itemCount s with
      | none => simp only [perform, UnpackOp.perform, hskip, hcall]
      | some u => simp only [perform, UnpackOp.perform, hskip, hcall]

end Agree

end Guarded

/-! ## The blob of an item -/

/-- The types of items whose value is a slice of the buffer: strings, binary strings, and
extensions other than timestamps. -/
def ItemType.isBlob : ItemType → Bool
  | .str => true
  | .bin => true
  | .ext type => type != -1
  | _ => false

/-- The slice of an item of such a type, if there is one, lies from `lo` on and ends at the
cursor. -/
def HoldsSlice (lo : Nat) (s : UnpackState σ) : Prop :=
  s.uc.returnCode = cwpRcOk → s.uc.item.type.isBlob = true →
    ∃ p n, s.uc.item.as = .blob p n ∧ lo ≤ p ∧ p + n = s.uc.current

section Slices

variable {lo : Nat} {s : UnpackState σ}

theorem holdsSlice_of_not_blob (h : s.uc.item.type.isBlob = false) : HoldsSlice lo s := by
  intro _ hblob
  rw [h] at hblob
  exact Bool.noConfusion hblob

/-- Where space is short, no item is held. -/
theorem assertSpaceSub_holdsSlice {code : Int} {more : UnpackContext → Nat}
    {k : Nat → UnpackState σ → Option (UnpackState σ)}
    (h : Ends False (HoldsSlice lo) (k s.uc.current (s.setCurrent (s.uc.current + more s.uc)))) :
    Ends False (HoldsSlice lo) (cwUnpackAssertSpaceSub none code more id s k) := by
  rw [assertSpaceSub_static]
  split
  · exact holdsSlice_of_not_blob rfl
  · exact h

theorem assertBlob_holdsSlice (hlo : lo ≤ s.uc.current) :
    Ends False (HoldsSlice lo) (cwUnpackAssertBlob none s) :=
  assertSpaceSub_holdsSlice fun _ _ => ⟨_, _, rfl, hlo, rfl⟩

theorem getDDItemLoad_holdsSlice {w : Nat} {load : Memory → Nat → Nat} {typ : ItemType}
    {store : Nat → ItemAs → ItemAs} {k : UnpackState σ → Option (UnpackState σ)}
    (hlo : lo ≤ s.uc.current)
    (h : ∀ s' : UnpackState σ, s'.uc.item.type = typ → lo ≤ s'.uc.current →
      Ends False (HoldsSlice lo) (k s')) :
    Ends False (HoldsSlice lo) (getDDItemLoad none w load typ store s k) := by
  unfold getDDItemLoad cwUnpackAssertSpace
  exact assertSpaceSub_holdsSlice (h _ rfl (Nat.le_trans hlo (Nat.le_add_right _ _)))

theorem retagSigned_holdsSlice (h : s.uc.item.type = .negativeInteger) :
    Ends False (HoldsSlice lo) (retagSigned s) := by
  unfold retagSigned
  split
  · exact holdsSlice_of_not_blob rfl
  · exact holdsSlice_of_not_blob (by rw [h]; rfl)

theorem getDDItemFix_holdsSlice (len : Nat) (hlo : lo ≤ s.uc.current) :
    Ends False (HoldsSlice lo) (getDDItemFix none len s) := by
  unfold getDDItemFix cwUnpackAssertSpace
  refine assertSpaceSub_holdsSlice ?_
  simp only
  split
  · -- the times
    rename_i htype
    have hnot : ItemType.isBlob ((s.setCurrent (s.uc.current + (len + 1))).setType
        (.ext (s.mem s.uc.current).toInt8)).uc.item.type = false := congrArg ItemType.isBlob htype
    split
    · exact holdsSlice_of_not_blob hnot
    · split
      · exact holdsSlice_of_not_blob hnot
      · exact holdsSlice_of_not_blob rfl
  · intro _ _
    refine ⟨s.uc.current + 1, len, rfl, Nat.le_succ_of_le hlo, ?_⟩
    show s.uc.current + 1 + len = s.uc.current + (len + 1)
    omega

theorem unpackSwitch_holdsSlice (c : Nat) (hlo : lo ≤ s.uc.current) :
    Ends False (HoldsSlice lo) (unpackSwitch none c s) := by
  have hblob : ∀ {w : Nat} {load : Memory → Nat → Nat} {typ : ItemType}
      {store : Nat → ItemAs → ItemAs}, Ends False (HoldsSlice lo)
        (getDDItemLoad none w load typ store s (cwUnpackAssertBlob none)) :=
    getDDItemLoad_holdsSlice hlo fun s' _ hs' => assertBlob_holdsSlice hs'
  have hplain : ∀ {w : Nat} {load : Memory → Nat → Nat} {typ : ItemType}
      {store : Nat → ItemAs → ItemAs}, typ.isBlob = false → Ends False (HoldsSlice lo)
        (getDDItemLoad none w load typ store s some) :=
    fun htyp => getDDItemLoad_holdsSlice hlo fun s' hs' _ =>
      holdsSlice_of_not_blob (by rw [hs']; exact htyp)
  have hsigned : ∀ {w : Nat} {load : Memory → Nat → Nat} {store : Nat → ItemAs → ItemAs},
      Ends False (HoldsSlice lo)
        (getDDItemLoad none w load .negativeInteger store s retagSigned) :=
    getDDItemLoad_holdsSlice hlo fun s' hs' _ => retagSigned_holdsSlice hs'
  have htype : ∀ {w : Nat} {load : Memory → Nat → Nat} {store : Nat → ItemAs → ItemAs},
      Ends False (HoldsSlice lo) (getDDItemLoad none w load .extItem store s fun s =>
        cwUnpackAssertSpace none cwpRcBufferUnderflow 1 s fun p s =>
        cwUnpackAssertBlob none (s.setType (.ext (s.mem p).toInt8))) := by
    refine getDDItemLoad_holdsSlice hlo fun s' _ hs' => ?_
    unfold cwUnpackAssertSpace
    exact assertSpaceSub_holdsSlice
      (assertBlob_holdsSlice (Nat.le_trans hs' (Nat.le_add_right _ _)))
  unfold unpackSwitch
  split
  · exact holdsSlice_of_not_blob rfl
  split
  · exact holdsSlice_of_not_blob rfl
  split
  · exact holdsSlice_of_not_blob rfl
  split
  · exact assertBlob_holdsSlice hlo
  split
  · exact holdsSlice_of_not_blob rfl
  split
  case h_1 => exact holdsSlice_of_not_blob rfl
  case h_2 => exact holdsSlice_of_not_blob rfl
  case h_3 => exact holdsSlice_of_not_blob rfl
  case h_7 =>
    refine getDDItemLoad_holdsSlice hlo fun s' _ hs' => ?_
    unfold cwUnpackAssertSpace
    refine assertSpaceSub_holdsSlice ?_
    simp only
    split
    · rename_i htype'
      split
      · refine assertSpaceSub_holdsSlice (assertSpaceSub_holdsSlice ?_)
        exact holdsSlice_of_not_blob (congrArg ItemType.isBlob htype')
      · exact holdsSlice_of_not_blob rfl
    · exact assertBlob_holdsSlice (Nat.le_trans hs' (Nat.le_add_right _ _))
  case h_8 => exact htype
  case h_9 => exact htype
  case h_10 => exact hplain rfl
  case h_11 => exact hplain rfl
  case h_12 => exact hplain rfl
  case h_13 => exact hplain rfl
  case h_14 => exact hplain rfl
  case h_15 => exact hplain rfl
  case h_16 => exact hsigned
  case h_17 => exact hsigned
  case h_18 => exact hsigned
  case h_19 => exact hsigned
  case h_20 => exact getDDItemFix_holdsSlice _ hlo
  case h_21 => exact getDDItemFix_holdsSlice _ hlo
  case h_22 => exact getDDItemFix_holdsSlice _ hlo
  case h_23 => exact getDDItemFix_holdsSlice _ hlo
  case h_24 => exact getDDItemFix_holdsSlice _ hlo
  case h_28 => exact hplain rfl
  case h_29 => exact hplain rfl
  case h_30 => exact hplain rfl
  case h_31 => exact hplain rfl
  case h_32 => exact holdsSlice_of_not_blob rfl
  all_goals exact hblob

/-- An item that a read delivers lies in the bytes it has consumed. -/
theorem cwUnpackNext_holdsSlice (hrc : s.uc.returnCode = cwpRcOk) :
    Ends False (HoldsSlice s.uc.current) (cwUnpackNext none s) := by
  unfold cwUnpackNext cwUnpackAssertSpace
  rw [if_neg (not_not_intro hrc)]
  exact assertSpaceSub_holdsSlice (unpackSwitch_holdsSlice _ (Nat.le_add_right _ _))

end Slices

/-! ## Runs -/

/-- The buffer of `x` is that of `x₀`, and the cursor has not stepped back. -/
def Ahead (x₀ : UnpackInput σ) (x : UnpackInput σ) : Prop :=
  StaticStopped x₀ x ∧ x₀.current ≤ x.current

/-- A static buffer feeds its bytes, and the cursor does not step back. -/
theorem ahead_feeds (x₀ : UnpackInput σ) :
    Feeds none False (fun rest x => StaticInput x₀ rest x ∧ x₀.current ≤ x.current)
      (Ahead x₀) where
  window := fun h => (static_feeds x₀).window h.1
  advance := fun h hn => ⟨(static_feeds x₀).advance h.1 hn, Nat.le_trans h.2 (Nat.le_add_right _ _)⟩
  stops := fun h => ⟨(static_feeds x₀).stops h.1, h.2⟩
  refill := fun h hgt hn =>
    have hshort := (static_feeds x₀).refill h.1 hgt hn
    ⟨hshort.1, hshort.2, h.2⟩

/-- A call returns, and the cursor has moved towards the end at most. -/
theorem UnpackOp.perform_ahead {fuel : Nat} (op : UnpackOp) {s : UnpackState σ}
    (hle : s.uc.current ≤ s.uc.end_) (hfuel : s.uc.end_ - s.uc.current < fuel) :
    ∃ o s', op.perform fuel none s = some (o, s') ∧ Ahead s.input s'.input := by
  by_cases hrc : s.uc.returnCode = cwpRcOk
  · have hlen : s.ahead.length = s.uc.end_ - s.uc.current := Memory.bytes_length _ _ _
    have htracks : Tracks (fun rest x => StaticInput s.input rest x ∧ s.uc.current ≤ x.current)
        (Ahead s.input) fuel s (.ok s.ahead) :=
      ⟨hrc, ⟨staticInput_ahead hle, Nat.le_refl _⟩, by omega⟩
    obtain ⟨⟨o, s'⟩, hcall, -, hafter⟩ :=
      (op.perform_spec (ahead_feeds s.input) fuel s _ htracks).exists_of_not_stuck
    refine ⟨o, s', hcall, ?_⟩
    cases hanswer : (op.answer (.ok s.ahead)).2 with
    | ok rest =>
        rw [hanswer] at hafter
        exact (ahead_feeds s.input).stops hafter.2.1
    | error e =>
        rw [hanswer] at hafter
        exact hafter.2.2
  · exact ⟨_, s, op.perform_of_stopped fuel hrc, ⟨rfl, rfl, rfl, rfl, hle⟩, Nat.le_refl _⟩

/-- A call of a run, with the state before it and the state after it. -/
structure Call (σ : Type) where
  before : UnpackState σ
  op : UnpackOp
  seen : Observation
  after : UnpackState σ

/-- The calls of a run. -/
def calls (fuel : Nat) : List UnpackOp → UnpackState σ → Option (List (Call σ))
  | [], _ => some []
  | op :: ops, s =>
      match op.perform fuel none s with
      | none => none
      | some (o, s') => (calls fuel ops s').map (⟨s, op, o, s'⟩ :: ·)

/-- Address and length of the string, binary string or extension other than a timestamp that the
call has delivered. -/
def Call.slice (c : Call σ) : Option (Nat × Nat) :=
  if c.op = .next ∧ c.after.uc.returnCode = cwpRcOk ∧ c.after.uc.item.type.isBlob = true then
    match c.after.uc.item.as with
    | .blob start length => some (start, length)
    | _ => none
  else none

/-- The call stays in the buffer of `s`: no load leaves it, nothing is changed in it, the cursor
moves towards the end, and what the call delivers lies in what it has consumed. -/
structure Call.StaysInside (fuel : Nat) (s : UnpackState σ) (c : Call σ) : Prop where
  loads : Guarded.perform fuel c.op c.before = some (c.seen, c.after)
  mem : c.after.mem = s.mem
  start : c.after.uc.start = s.uc.start
  end_ : c.after.uc.end_ = s.uc.end_
  lo : s.uc.start ≤ c.before.uc.current
  forward : c.before.uc.current ≤ c.after.uc.current
  hi : c.after.uc.current ≤ s.uc.end_
  delivers : c.op = .next → c.after.uc.returnCode = cwpRcOk →
    c.after.uc.item.type.isBlob = true → ∃ start length, c.slice = some (start, length)
  slice : ∀ start length, c.slice = some (start, length) →
    c.before.uc.current ≤ start ∧ start + length ≤ c.after.uc.current

/-- One call. -/
theorem UnpackOp.staysInside {fuel : Nat} (op : UnpackOp) {s : UnpackState σ}
    (hlo : s.uc.start ≤ s.uc.current) (hhi : s.uc.current ≤ s.uc.end_)
    (hfuel : s.uc.end_ - s.uc.start < fuel) :
    ∃ o s', op.perform fuel none s = some (o, s') ∧ Ahead s.input s'.input ∧
      Call.StaysInside fuel s ⟨s, op, o, s'⟩ := by
  have hfuel' : s.uc.end_ - s.uc.current < fuel := by omega
  obtain ⟨o, s', hcall, hahead⟩ := op.perform_ahead hhi hfuel'
  have hholds : op = .next → s'.uc.returnCode = cwpRcOk → HoldsSlice s.uc.current s' := by
    rintro rfl hok
    have hnext : cwUnpackNext none s = some s' := by
      simp only [UnpackOp.perform] at hcall
      split at hcall
      · simp at hcall
      · rename_i s₁ hs₁
        obtain ⟨-, rfl⟩ := Prod.mk.inj (Option.some.inj hcall)
        exact hs₁
    by_cases hrc : s.uc.returnCode = cwpRcOk
    · exact (cwUnpackNext_holdsSlice hrc).of_eq_some hnext
    · have hsame : cwUnpackNext none s = some s := if_pos hrc
      obtain rfl := Option.some.inj (hsame.symm.trans hnext)
      exact absurd hok hrc
  refine ⟨o, s', hcall, hahead, ?_⟩
  obtain ⟨hstop, hforward⟩ := hahead
  refine ⟨(Guarded.perform_eq fuel op hlo).trans hcall, hstop.mem, hstop.start, hstop.end_, hlo,
    hforward, hstop.current, ?_, ?_⟩
  · intro hop hok hblob
    obtain ⟨p, n, has, -⟩ := hholds hop hok hok hblob
    refine ⟨p, n, (if_pos ⟨hop, hok, hblob⟩).trans ?_⟩
    simp only [has]
  · intro p n hslice
    unfold Call.slice at hslice
    split at hslice
    · rename_i h
      obtain ⟨hop, hok, hblob⟩ := h
      obtain ⟨p', n', has, hp, hn⟩ := hholds hop hok hok hblob
      simp only [has, Option.some.injEq, Prod.mk.injEq] at hslice
      obtain ⟨rfl, rfl⟩ := hslice
      exact ⟨hp, Nat.le_of_eq hn⟩
    · simp at hslice

/-- A later call stays in the buffer of an earlier state. -/
theorem Call.StaysInside.of_ahead {fuel : Nat} {s s' : UnpackState σ} {c : Call σ}
    (h : c.StaysInside fuel s') (hahead : Ahead s.input s'.input) : c.StaysInside fuel s where
  loads := h.loads
  mem := h.mem.trans hahead.1.mem
  start := h.start.trans hahead.1.start
  end_ := h.end_.trans hahead.1.end_
  lo := by
    have hstart : s'.uc.start = s.uc.start := hahead.1.start
    rw [← hstart]
    exact h.lo
  forward := h.forward
  hi := by
    have hend : s'.uc.end_ = s.uc.end_ := hahead.1.end_
    rw [← hend]
    exact h.hi
  delivers := h.delivers
  slice := h.slice

/-- Every call of every run stays in the buffer, and the slices delivered are disjoint and in
order. -/
theorem static_run_stays_in_bounds {fuel : Nat} (ops : List UnpackOp) {s : UnpackState σ}
    (hlo : s.uc.start ≤ s.uc.current) (hhi : s.uc.current ≤ s.uc.end_)
    (hfuel : s.uc.end_ - s.uc.start < fuel) :
    ∃ cs, calls fuel ops s = some cs ∧ cs.map Call.op = ops ∧
      (∀ c ∈ cs, c.StaysInside fuel s ∧ s.uc.current ≤ c.before.uc.current) ∧
      (cs.filterMap Call.slice).Pairwise fun a b => a.1 + a.2 ≤ b.1 := by
  induction ops generalizing s with
  | nil => exact ⟨[], rfl, rfl, fun _ h => absurd h List.not_mem_nil, List.Pairwise.nil⟩
  | cons op ops ih =>
      obtain ⟨o, s', hcall, hahead, hinside⟩ := op.staysInside hlo hhi hfuel
      have hstart : s'.uc.start = s.uc.start := hinside.start
      have hend : s'.uc.end_ = s.uc.end_ := hinside.end_
      have hforward : s.uc.current ≤ s'.uc.current := hinside.forward
      have hhi' : s'.uc.current ≤ s.uc.end_ := hinside.hi
      obtain ⟨cs, hcalls, hops, hall, hsorted⟩ :=
        ih (s := s') (by omega) (by omega) (by omega)
      refine ⟨⟨s, op, o, s'⟩ :: cs, ?_, ?_, ?_, ?_⟩
      · simp only [calls, hcall, hcalls, Option.map_some]
      · rw [List.map_cons, hops]
      · intro c hc
        rcases List.mem_cons.mp hc with rfl | hc
        · exact ⟨hinside, Nat.le_refl _⟩
        · obtain ⟨hc', hbefore⟩ := hall c hc
          exact ⟨hc'.of_ahead hahead, Nat.le_trans hforward hbefore⟩
      · cases hslice : Call.slice ⟨s, op, o, s'⟩ with
        | none => rwa [List.filterMap_cons_none hslice]
        | some a =>
            obtain ⟨p, n⟩ := a
            rw [List.filterMap_cons_some hslice]
            refine List.Pairwise.cons ?_ hsorted
            rintro ⟨q, m⟩ hmem
            obtain ⟨c, hc, hcslice⟩ := List.mem_filterMap.mp hmem
            obtain ⟨hc', hbefore⟩ := hall c hc
            have hmine : p + n ≤ s'.uc.current := (hinside.slice p n hslice).2
            have htheirs := (hc'.slice q m hcslice).1
            show p + n ≤ q
            omega

/-- The header of a string of 2^32-1 bytes, with five bytes behind it. -/
theorem static_run_stays_in_bounds_hostile :
    ∃ cs, calls 11 [.lookAhead, .next, .skip (-1)]
        (staticContext [0xdb, 0xff, 0xff, 0xff, 0xff, 1, 2, 3, 4, 5]) = some cs ∧
      cs.map Call.op = [.lookAhead, .next, .skip (-1)] ∧
      (∀ c ∈ cs, c.StaysInside 11 (staticContext [0xdb, 0xff, 0xff, 0xff, 0xff, 1, 2, 3, 4, 5]) ∧
        0 ≤ c.before.uc.current) ∧
      (cs.filterMap Call.slice).Pairwise fun a b => a.1 + a.2 ≤ b.1 :=
  static_run_stays_in_bounds _
    (s := staticContext [0xdb, 0xff, 0xff, 0xff, 0xff, 1, 2, 3, 4, 5])
    (by decide) (by decide) (by decide)

end CWPack.Core
