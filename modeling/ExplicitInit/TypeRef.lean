namespace ExplicitInit

structure TypeId where
  number : UInt32
deriving DecidableEq, Inhabited

structure TypeRef where
  id : TypeId
  name : String
deriving DecidableEq, Inhabited

def TypeId.text (t : TypeId) : String :=
  "type" ++ toString t.number.toNat

namespace TypeRef

/-- Two references mean the same type when their identities agree, whatever their names. -/
def same (a b : TypeRef) : Bool :=
  a.id == b.id

@[simp] theorem same_iff {a b : TypeRef} : a.same b = true ↔ a.id = b.id := by
  simp [same]

def distinctIds (ts : List TypeRef) : List TypeId :=
  (ts.map id).eraseDups

def sortedIds (ts : List TypeRef) : List TypeId :=
  (ts.map id).mergeSort fun a b => a.number ≤ b.number

end TypeRef

/-- The number of a member in its class. It has 32 bits, so only the low bits of a larger position
are kept. -/
structure MemberId where
  number : UInt32
deriving DecidableEq, Inhabited

namespace MemberId

def ofPosition (position : Nat) : MemberId :=
  ⟨UInt32.ofNat position⟩

def position (m : MemberId) : Nat :=
  m.number.toNat

def text (m : MemberId) : String :=
  "member" ++ toString m.position

theorem position_ofPosition {n : Nat} (h : n < UInt32.size) : (ofPosition n).position = n := by
  simpa [ofPosition, position, UInt32.toNat_ofNat'] using h

end MemberId

end ExplicitInit
