namespace ExplicitInit.Utf16

def isHighSurrogate (u : UInt16) : Bool :=
  0xd800 ≤ u && u ≤ 0xdbff

def isLowSurrogate (u : UInt16) : Bool :=
  0xdc00 ≤ u && u ≤ 0xdfff

def isSurrogate (u : UInt16) : Bool :=
  0xd800 ≤ u && u ≤ 0xdfff

/-- A character of UTF-16 text, or a surrogate without its partner. -/
inductive Piece where
  | char (c : Char)
  | lone (u : UInt16)
deriving DecidableEq

def joined (high low : UInt16) : Char :=
  Char.ofNat (0x10000 + (high.toNat - 0xd800) * 0x400 + (low.toNat - 0xdc00))

def pieces : List UInt16 → List Piece
  | [] => []
  | [u] => if isSurrogate u then [.lone u] else [.char (Char.ofNat u.toNat)]
  | u :: v :: rest =>
    if isHighSurrogate u && isLowSurrogate v then .char (joined u v) :: pieces rest
    else if isSurrogate u then .lone u :: pieces (v :: rest)
    else .char (Char.ofNat u.toNat) :: pieces (v :: rest)

def encodeChar (c : Char) : List UInt16 :=
  if c.toNat < 0x10000 then [UInt16.ofNat c.toNat]
  else
    let offset := c.toNat - 0x10000
    [UInt16.ofNat (0xd800 + offset / 0x400), UInt16.ofNat (0xdc00 + offset % 0x400)]

def encode (text : String) : List UInt16 :=
  text.toList.flatMap encodeChar

def Piece.readable : Piece → Char
  | .char c => c
  | .lone _ => Char.ofNat 0xfffd

def lossy (units : List UInt16) : String :=
  String.ofList ((pieces units).map Piece.readable)

end ExplicitInit.Utf16
