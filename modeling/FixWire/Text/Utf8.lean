import FixWire.Bytes

/-!
# UTF-8

A byte sequence is cut into pieces : characters, and fragments that belong to none. A fragment is as long
as it is the start of some character, and one byte otherwise, so that reading goes on at the first byte
that can start a character again. A text is valid if it has no fragment.
-/

namespace FixWire.Utf8

/-- A character, or a fragment of one, and the number of bytes it takes up. -/
structure Piece where
  char? : Option Char
  width : Nat
  deriving DecidableEq, Repr

/-- A byte in a range of continuation bytes. -/
def isTail (low high b : UInt8) : Bool :=
  low ≤ b && b ≤ high

/-- What the first byte of a character of several bytes says : how many more follow, the range of the
first of them, and the bits it adds. No other byte can start such a character. -/
def lead (b : UInt8) : Option (Nat × UInt8 × UInt8 × Nat) :=
  if 0xc2 ≤ b && b ≤ 0xdf then some (1, 0x80, 0xbf, b.toNat % 0x20)
  else if b = 0xe0 then some (2, 0xa0, 0xbf, 0)
  else if b = 0xed then some (2, 0x80, 0x9f, 0xd)
  else if 0xe1 ≤ b && b ≤ 0xef then some (2, 0x80, 0xbf, b.toNat % 0x10)
  else if b = 0xf0 then some (3, 0x90, 0xbf, 0)
  else if 0xf1 ≤ b && b ≤ 0xf3 then some (3, 0x80, 0xbf, b.toNat % 0x8)
  else if b = 0xf4 then some (3, 0x80, 0x8f, 4)
  else none

/-- The piece after `seen` bytes with the value `bits`, when `owed` more bytes are due and the next of
them has to be in the given range. -/
def follow : Nat → UInt8 → UInt8 → Nat → Nat → Bytes → Piece
  | 0, _, _, bits, seen, _ => ⟨some (Char.ofNat bits), seen⟩
  | _ + 1, _, _, _, seen, [] => ⟨none, seen⟩
  | owed + 1, low, high, bits, seen, b :: rest =>
    if isTail low high b then follow owed 0x80 0xbf (bits * 0x40 + b.toNat % 0x40) (seen + 1) rest
    else ⟨none, seen⟩

/-- The piece that starts with the byte `b`. -/
def piece (b : UInt8) (rest : Bytes) : Piece :=
  if b < 0x80 then ⟨some (Char.ofNat b.toNat), 1⟩
  else
    match lead b with
    | some (owed, low, high, bits) => follow owed low high bits 1 rest
    | none => ⟨none, 1⟩

/-- All pieces, in order. -/
def pieces : Bytes → List Piece
  | [] => []
  | b :: rest => piece b rest :: pieces (rest.drop ((piece b rest).width - 1))
termination_by bytes => bytes.length
decreasing_by rw [List.length_drop, List.length_cons]; omega

/-- The characters, if the bytes are valid. -/
def decode? (bytes : Bytes) : Option (List Char) :=
  (pieces bytes).mapM Piece.char?

/-- The characters, with U+FFFD in place of every fragment. -/
def decodeLossy (bytes : Bytes) : List Char :=
  (pieces bytes).map fun p => p.char?.getD '\ufffd'

/-- The number of bytes before the first fragment. -/
def validLength (bytes : Bytes) : Nat :=
  ((pieces bytes).takeWhile fun p => p.char?.isSome).foldr (fun p n => p.width + n) 0

end FixWire.Utf8
