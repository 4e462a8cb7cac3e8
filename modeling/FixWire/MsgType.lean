import FixWire.Bytes

/-!
# Message type keys

Messages are dispatched on a 64-bit key made of the first eight bytes of their type, the first one
lowest. Types that agree in these bytes share a key, and so do types that differ only in NUL bytes at
the end; whoever looks a type up by its key compares the type itself as well.
-/

namespace FixWire.MsgType

/-- The number whose base-256 digits, from the lowest, are the bytes. -/
def pack : Bytes → Nat
  | [] => 0
  | b :: rest => b.toNat + 256 * pack rest

/-- The key of a message type. -/
def key (type : Bytes) : Nat :=
  pack (type.take 8)

end FixWire.MsgType
