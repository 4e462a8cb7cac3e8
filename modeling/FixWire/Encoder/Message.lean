import FixWire.Encoder.Cell

/-!
# Encoders

An encoder is made once and used for one message after another. It sets the version and the type of the
message itself, and computes two fields each time a message is written : the number of bytes from after its
own field up to the field of the checksum, and the checksum of all bytes before its own field.
-/

namespace FixWire

open Encoder

/-- An encoder of messages of one type. -/
structure MessageEncoder where
  layout : MessageLayout
  beginString : String
  header : List Cell
  body : List Cell
  trailer : List Cell

namespace MessageEncoder

/-- The encoder with the version and the type of its messages set. -/
def identify (e : MessageEncoder) : MessageEncoder :=
  { e with
    header := setFirst (Cell.isNamed "MsgType") e.layout.typeBytes <|
      setFirst (Cell.isNamed "BeginString") (Bytes.ofString e.beginString) e.header }

/-- A new encoder. -/
def make (layout : MessageLayout) (beginString : String) : MessageEncoder :=
  identify ⟨layout, beginString, blank layout.header.members, blank layout.body.members,
    blank layout.trailer.members⟩

/-- The encoder as if it had not been used. -/
def reset (e : MessageEncoder) : MessageEncoder :=
  identify { e with header := clear e.header, body := clear e.body, trailer := clear e.trailer }

/-- The cells of one part. -/
def part (e : MessageEncoder) : Part → List Cell
  | .header => e.header
  | .body => e.body
  | .trailer => e.trailer

/-- The encoder with the cells of one part replaced. -/
def setPart (e : MessageEncoder) (part : Part) (cells : List Cell) : MessageEncoder :=
  match part with
  | .header => { e with header := cells }
  | .body => { e with body := cells }
  | .trailer => { e with trailer := cells }

/-- The text of the message. -/
def render (e : MessageEncoder) : String :=
  Outline.renderMessage e.layout.name (outline e.header) (outline e.body) (outline e.trailer)

/-! ## Writing -/

/-- The cells before the field that is computed in this way, the tag of that field, and the cells after
it. Without the field all cells are before it. -/
def split (d : Derived) (cells : List Cell) : List Cell × Option Tag × List Cell :=
  let before := cells.takeWhile fun c => !c.isDerived d
  match cells.drop before.length with
  | [] => (before, none, [])
  | c :: after => (before, some c.tag, after)

/-- The number of bytes between the fields of the body length and of the checksum. -/
def bodyLength (e : MessageEncoder) : Nat :=
  writtenLength (split .bodyLength e.header).2.2 + writtenLength e.body +
    writtenLength (split .checkSum e.trailer).1

/-- The number of bytes of a field whose value has the given length, and none without a field. -/
def computedLength (tag : Option Tag) (length : Nat) : Nat :=
  match tag with
  | some tag => fieldLength tag length
  | none => 0

/-- The number of bytes that are written for the message. -/
def encodedLength (e : MessageEncoder) : Nat :=
  let (beforeLength, lengthTag, _) := split .bodyLength e.header
  let (_, sumTag, afterSum) := split .checkSum e.trailer
  writtenLength beforeLength + computedLength lengthTag (Natural.digitCount e.bodyLength) +
    e.bodyLength + computedLength sumTag 3 + writtenLength afterSum

/-- Writes the message and stores the checksum, which is that of the bytes from `offset` on. -/
def writeParts (e : MessageEncoder) (offset : Nat) : ExceptT FieldError (StateM (MessageEncoder × Cursor)) Unit := do
  let put (w : Write Unit) : ExceptT FieldError (StateM (MessageEncoder × Cursor)) Unit := fun (e, c) =>
    let (result, c) := w.run c
    (result, (e, c))
  let (beforeSum, sumTag, afterSum) := split .checkSum e.trailer
  put (write e.header)
  put (write e.body)
  put (write beforeSum)
  if let some tag := sumTag then
    let sum := (← get).2.checksumSince offset
    modify fun (e, c) =>
      ({ e with trailer := setFirst (Cell.isDerived .checkSum) (checksumText sum) e.trailer }, c)
    put (Write.checksum tag sum)
  put (write afterSum)

/-- Writes the message into a buffer at `offset`, if there is room for all of it : the number of bytes
written, the encoder with the computed fields stored, and the buffer. -/
def encode (e : MessageEncoder) (buffer : Bytes) (offset : Nat) :
    Except FieldError Nat × MessageEncoder × Bytes :=
  let cursor := Cursor.start buffer offset
  match cursor.ensure e.encodedLength with
  | .error cause => (.error cause, e, buffer)
  | .ok () =>
    let length := Natural.digits e.bodyLength
    let e := { e with header := setFirst (Cell.isDerived .bodyLength) length e.header }
    let (result, e, cursor) := (e.writeParts offset).run (e, cursor)
    (result.map fun _ => cursor.written, e, cursor.buffer)

end MessageEncoder

end FixWire
