import FixWire.Decoder.Access
import FixWire.Decoder.Reading

/-!
# Decoders

A decoder is made once and used for one message after another. Decoding never fails : what is wrong with
the message is logged, and `validate` judges it. Values stay until they are overwritten or the decoder is
reset; the log is that of the last message.
-/

namespace FixWire

open Decoder

/-- A decoder of messages of one type. `legal` are the tags of the dictionary, and `order` those with which
a message has to start. -/
structure MessageDecoder where
  layout : MessageLayout
  legal : List Tag
  order : List Tag
  parts : Parts
  log : Log
  outcome : Outcome

namespace MessageDecoder

/-- A new decoder, which judges messages if `validating` is set. -/
def make (layout : MessageLayout) (legal order : List Tag) (validating : Bool) : MessageDecoder where
  layout := layout
  legal := legal
  order := order
  parts := ⟨.blank layout.header, .blank layout.body, .blank layout.trailer⟩
  log := .empty validating
  outcome := .valid

/-- The decoder after reading a message from a window of bytes, and the number of bytes read. -/
def decode (d : MessageDecoder) (window : Bytes) : MessageDecoder × Nat :=
  let r := readParts d.legal false d.parts.nextCycle (.empty d.log.enabled) window
  ({ d with parts := r.value, log := r.log }, window.length - r.rest.length)

/-- The decoder with its verdict on the last message. -/
def validate (d : MessageDecoder) : MessageDecoder :=
  { d with outcome := d.log.judge d.order d.parts.missing? }

/-- The decoder as if it had not been used. -/
def reset (d : MessageDecoder) : MessageDecoder :=
  { d with parts := d.parts.clear, log := .empty d.log.enabled, outcome := .valid }

/-- One part of the last message. -/
def part (d : MessageDecoder) (part : Part) : Aggregate :=
  d.parts.get part

/-- The text of the last message. -/
def render (d : MessageDecoder) : String :=
  Outline.renderMessage d.layout.name (outline d.parts.header.cells) (outline d.parts.body.cells)
    (outline d.parts.trailer.cells)

end MessageDecoder

/-- A decoder of an aggregate on its own, without a message around it. -/
structure AggregateDecoder where
  root : Aggregate
  log : Log
  outcome : Outcome

namespace AggregateDecoder

/-- A new decoder, which judges what it reads if `validating` is set. -/
def make (layout : Layout) (validating : Bool) : AggregateDecoder :=
  ⟨.blank layout, .empty validating, .valid⟩

/-- The decoder after reading the aggregate from a window of bytes up to the first tag that does not belong
to it, and the number of bytes read. -/
def decode (d : AggregateDecoder) (window : Bytes) : AggregateDecoder × Nat :=
  let root := d.root.nextCycle
  let r := readAggregate root.stamp root.cells (.empty d.log.enabled) window
  ({ d with root := { root with cells := r.value }, log := r.log }, window.length - r.rest.length)

/-- The decoder with its verdict on what it read last. An aggregate does not start with a fixed order of
tags. -/
def validate (d : AggregateDecoder) : AggregateDecoder :=
  { d with outcome := d.log.judge [] (missing? d.root.cells) }

/-- The decoder as if it had not been used. -/
def reset (d : AggregateDecoder) : AggregateDecoder :=
  ⟨d.root.clear, .empty d.log.enabled, .valid⟩

end AggregateDecoder

end FixWire
