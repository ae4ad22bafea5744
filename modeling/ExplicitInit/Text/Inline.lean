namespace ExplicitInit

/-- Whether a code unit may stand as it is in a string literal of the target text: tab, line ends,
printable ASCII, and the basic plane from the no-break space on, less its surrogates and the two
code units at its end. -/
def isInline (u : UInt16) : Bool :=
  u == 0x09 || u == 0x0a || u == 0x0d || (0x20 ≤ u && u ≤ 0x7e) || (0xa0 ≤ u && u ≤ 0xd7ff) ||
    (0xe000 ≤ u && u ≤ 0xfffd)

def allInline (units : List UInt16) : Bool :=
  units.all isInline

end ExplicitInit
