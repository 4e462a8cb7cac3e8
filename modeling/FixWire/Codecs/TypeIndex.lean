import FixWire.Codecs
import Mathlib.Tactic.Common

/-!
# The index of message types

Codecs find a message in a table from the keys of message types to positions. The key of a type has 64 bits, in which
each of the first eight bytes is shifted to a place of its own. The table is filled message by message, and filling it
ends with the first key that is there already.
-/

namespace FixWire

namespace MsgType

/-- A key with one more byte, which is shifted to its place. -/
def place (key : UInt64) (entry : UInt8 × Nat) : UInt64 :=
  key ||| entry.1.toUInt64 <<< UInt64.ofNat (8 * entry.2)

/-- The key of a message type, put together from its bytes. -/
def packed (type : Bytes) : UInt64 :=
  (type.take 8).zipIdx.foldl place 0

end MsgType

/-- Messages, and the positions at which they stand by the keys of their types. -/
structure TypeIndex where
  messages : List MessageLayout
  positions : Std.HashMap UInt64 Nat
  lt_length {key : UInt64} {position : Nat} (h : positions[key]? = some position) : position < messages.length

namespace TypeIndex

/-- The index of no messages. -/
def empty : TypeIndex where
  messages := []
  positions := ∅
  lt_length h := by simp at h

theorem lt_length_add (t : TypeIndex) (m : MessageLayout) (key : UInt64) {key' : UInt64} {position : Nat}
    (h : (t.positions.insert key t.messages.length)[key']? = some position) :
    position < (t.messages ++ [m]).length := by
  rw [Std.HashMap.getElem?_insert] at h
  rw [List.length_append, List.length_singleton]
  split_ifs at h
  · exact Option.some.inj h ▸ Nat.lt_succ_self _
  · exact Nat.lt_succ_of_lt (t.lt_length h)

/-- The index with one more message; if the key of its type is there already, the types of both messages. -/
def add (t : TypeIndex) (m : MessageLayout) : Except (String × String) TypeIndex :=
  match h : t.positions[MsgType.packed m.typeBytes]? with
  | some previous => .error ((t.messages.get ⟨previous, t.lt_length h⟩).type, m.type)
  | none => .ok ⟨t.messages ++ [m], t.positions.insert (MsgType.packed m.typeBytes) t.messages.length, t.lt_length_add m _⟩

/-- The index of some messages. -/
def build (messages : List MessageLayout) : Except (String × String) TypeIndex :=
  messages.foldlM add empty

/-- The message with the type, found by its key. -/
def find? (t : TypeIndex) (type : Bytes) : Option MessageLayout :=
  match h : t.positions[MsgType.packed type]? with
  | some position => (some (t.messages.get ⟨position, t.lt_length h⟩)).filter fun m => m.typeBytes == type
  | none => none

end TypeIndex

end FixWire
