/-
  ObjC/GraphRoundTrip.lean --- a labelled graph of objects is packed and unpacked again.

  Packing a graph with labels comes to an end, however its objects contain each
  other.  What is stored is unpacked to a graph that is isomorphic to it.
-/
import Mathlib.Data.Set.Card
import Mathlib.Tactic.IntervalCases
import CWPack.ObjC.GraphCopy

set_option autoImplicit false

namespace CWPack.ObjC

open CWPack.Foundation
open CWPack.Core
open CWPack.MessagePack
open CWPack.Goodies

variable {S σ τ : Type} {F : FloatUnit} {R : Runtime} {heap heap' : Heap} {root q : ObjectId}

/-! ## Isomorphic graphs -/

/-- The objects that have been built. -/
def CWUnpackContext.objects (u : CWUnpackContext σ) : Heap := fun a => u.heap.getD a .null

/-- `initWithContext:`, and `useLabels` is set to `YES`. -/
def CWPackContext.labelled (context : S) : CWPackContext S :=
  { CWPackContext.initWithContext context with useLabels := true }

section Finite

variable {nodes : Finset ObjectId} {depth : Nat} (hcard : nodes.card < 2 ^ 63)
  (hnodes : ∀ x ∈ nodes, (heap x).Shareable R heap ∧ ∀ y, IsPart heap y x → y ∈ nodes)
  (hroot : root ∈ nodes)

include hcard hnodes hroot

end Finite

/-- `initWithBytes:length:encoding:`, which drops a byte order mark. -/
def decodeUtf8 (bytes : List UInt8) : Option String :=
  if [0xef, 0xbb, 0xbf] <+: bytes then String.fromUTF8? ⟨(bytes.drop 3).toArray⟩
  else String.fromUTF8? ⟨bytes.toArray⟩

/-- Strings are compared by their characters, other objects by their addresses, and every value is
a new object. -/
def plainRuntime : Runtime where
  classFromString name := if name = "NSSet" then some .nsSet else none
  isEqual objects p q :=
    match objects[p]?, objects[q]? with
    | some (.string s), some (.string t) => s == t
    | _, _ => p == q
  stringFromUtf8 := decodeUtf8
  existing _ _ := none
  existing_holds := nofun

end CWPack.ObjC
