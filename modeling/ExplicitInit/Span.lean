namespace ExplicitInit

structure Span where
  start : Nat
  stop : Nat
  line : Nat
  column : Nat
deriving DecidableEq, Inhabited

namespace Span

def synthetic : Span := ⟨0, 0, 0, 0⟩

def length (s : Span) : Nat :=
  s.stop - s.start

def isEmpty (s : Span) : Bool :=
  s.start == s.stop

/-- The smallest region over both, placed at the line and column of the one that begins first. -/
def merge (a b : Span) : Span :=
  let first := if a.start ≤ b.start then a else b
  ⟨min a.start b.start, max a.stop b.stop, first.line, first.column⟩

end Span

end ExplicitInit
