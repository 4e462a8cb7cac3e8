import FixWire.CodecsError
import FixWire.Decoder.Message
import FixWire.Dictionary.Compile
import FixWire.Encoder.Message
import FixWire.Layout.Flatten
import FixWire.MsgType

/-!
# The codecs of a dictionary

A dictionary without faults gives a decoder and an encoder for each of its messages, if no two message types
have the same key. Messages are looked up by the key of their type; the type itself is compared after that,
except in a registry, which holds one decoder for each type and is asked by key alone.
-/

namespace FixWire

/-- The codecs of a dictionary. Decoders judge messages if `validating` is set. -/
structure Codecs where
  dictionary : Dictionary
  messages : List MessageLayout
  validating : Bool

/-- One decoder for each message type. `typeTag` is the tag of the message type. -/
structure Registry where
  decoders : List MessageDecoder
  typeTag : Tag

/-- The key under which the message is looked up. -/
def MessageLayout.key (m : MessageLayout) : Nat :=
  MsgType.key m.typeBytes

/-- The first message of which an earlier one, among the given ones and those before it, has the key : the
types of the two. -/
def keyClash? (earlier : List MessageLayout) : List MessageLayout → Option (String × String)
  | [] => none
  | m :: rest =>
    match earlier.find? fun m' => m'.key == m.key with
    | some m' => some (m'.type, m.type)
    | none => keyClash? (m :: earlier) rest

namespace Codecs

/-- The codecs of a dictionary. -/
def ofDictionary (d : Dictionary) (validating : Bool) : Except CodecsError Codecs :=
  match d.fault? with
  | some cause => .error (.schema cause)
  | none =>
    match keyClash? [] d.messageLayouts with
    | some (first, second) => .error (.keyClash first second)
    | none => .ok ⟨d, d.messageLayouts, validating⟩

/-- The codecs of the dictionary that a document describes. -/
def ofDocument (text : String) (validating : Bool) : Except CodecsError Codecs :=
  match Dictionary.compile text with
  | .error cause => .error (.document cause)
  | .ok d => ofDictionary d validating

/-- The layout of the header of every message. -/
def header (c : Codecs) : Layout :=
  c.dictionary.layoutOf .header

/-- The tags of the dictionary. -/
def legalTags (c : Codecs) : List Tag :=
  c.dictionary.fields.map Field.number

/-- The tags with which every message has to start : those of the first three fields of the header. -/
def order (c : Codecs) : List Tag :=
  (c.header.fields.take 3).map FieldSlot.tag

/-- The tag of the message type : that of the header, or else 35. -/
def typeTag (c : Codecs) : Tag :=
  (c.header.tagOf? "MsgType").getD 35

/-- The message with the type. -/
def message? (c : Codecs) (type : Bytes) : Option MessageLayout :=
  (c.messages.find? fun m => m.key == MsgType.key type).filter fun m => m.typeBytes == type

/-- The message with the type, which there has to be. -/
def require (c : Codecs) (type : Bytes) : Except CodecsError MessageLayout :=
  match c.message? type with
  | some m => .ok m
  | none => .error (.unknownType type)

/-- A new decoder for a message. -/
def newDecoder (c : Codecs) (m : MessageLayout) : MessageDecoder :=
  .make m c.legalTags c.order c.validating

/-- A new decoder for a message type. -/
def decoder (c : Codecs) (type : String) : Except CodecsError MessageDecoder :=
  (c.require (Bytes.ofString type)).map c.newDecoder

/-- A new encoder for a message type. -/
def encoder (c : Codecs) (type : String) : Except CodecsError MessageEncoder :=
  (c.require (Bytes.ofString type)).map fun m => .make m c.dictionary.beginString

/-- A new decoder for the type that a message tells. -/
def decoderFor (c : Codecs) (message : Bytes) : Except CodecsError MessageDecoder :=
  match Pair.valueOf? c.typeTag message with
  | none => .error .noType
  | some type => (c.require type).map c.newDecoder

/-- A new registry. -/
def registry (c : Codecs) : Registry :=
  ⟨c.messages.map c.newDecoder, c.typeTag⟩

end Codecs

namespace Registry

/-- The position of the decoder whose message type has the same key. -/
def find? (r : Registry) (type : Bytes) : Option Nat :=
  r.decoders.findIdx? fun d => d.layout.key == MsgType.key type

/-- The decoder whose message type has the same key. -/
def decoder? (r : Registry) (type : Bytes) : Option MessageDecoder :=
  (r.find? type).bind fun index => r.decoders[index]?

/-- The registry with the decoder whose message type has the same key replaced. -/
def set (r : Registry) (type : Bytes) (d : MessageDecoder) : Registry :=
  match r.find? type with
  | some index => { r with decoders := r.decoders.set index d }
  | none => r

/-- The registry after the decoder for the type that a message tells has read the message from a window of
bytes, and that decoder; none if the type is not told or has no decoder. -/
def decode (r : Registry) (window : Bytes) : Option (Registry × MessageDecoder) := do
  let type ← Pair.valueOf? r.typeTag window
  let d ← r.decoder? type
  let d := (d.decode window).1
  return (r.set type d, d)

end Registry

end FixWire
