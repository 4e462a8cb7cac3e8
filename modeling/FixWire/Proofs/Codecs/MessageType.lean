import FixWire.Proofs.Codecs.Dispatch
import FixWire.Proofs.Decoder.HeaderField
import FixWire.Proofs.Layout.Header

/-!
# The type of an accepted message

The decoder for a message is chosen by the first pair with the tag of the message type, in a look at all pairs of the
buffer that knows neither groups nor parts nor the end of the message. What the header holds as the type is what the
decoder has read into it, by parts and groups and up to the end of the message. If the header requires the type, and
no group has its tag, the two agree in every message that is accepted (`Codecs.messageType_of_isValid`).
-/

namespace FixWire.Codecs

open Decoder

variable {text : String} {c : Codecs} {slot : FieldSlot}

/-- The message type is looked for under the tag that it has in the header. -/
theorem typeTag_eq {validating : Bool} (hc : ofDocument text validating = .ok c) (hslot : slot ∈ c.header.fields)
    (hname : slot.name = "MsgType") : c.typeTag = slot.tag := by
  obtain ⟨slot', hfind⟩ : ∃ slot', (c.header.fields.find? fun s => s.name == "MsgType") = some slot' :=
    Option.isSome_iff_exists.1 (List.find?_isSome.2 ⟨slot, hslot, by simp [hname]⟩)
  have hname' : slot'.name = "MsgType" := by simpa using List.find?_some hfind
  have hfield := field_eq_of_name hc hslot (List.mem_of_find?_eq_some hfind) (hname'.trans hname.symm)
  rw [typeTag, Layout.tagOf?, hfind]
  exact congrArg Field.number hfield

/-- In codecs of a document that judge messages, let the header have the message type as a required field, whose tag
is in no group of a message at any depth. If a buffer finds a decoder, and this decoder reads the buffer and accepts
the message, then its header has a message type, which is exactly the one that the decoder is for. -/
theorem messageType_of_isValid (hc : ofDocument text true = .ok c) (hslot : slot ∈ c.header.fields)
    (hname : slot.name = "MsgType") (hrequired : slot.required = true)
    (hgroups : ∀ l ∈ c.messages, ∀ part, ∀ g ∈ (l.part part).groups, mention slot.tag g.2 = false) {buffer : Bytes}
    {d : MessageDecoder} (hd : c.decoderFor buffer = .ok d)
    (hvalid : (d.decode buffer).1.validate.outcome.isValid = true) :
    let header := (d.decode buffer).1.validate.part .header
    header.has slot.tag = true ∧ header.getBytes slot.tag = .ok d.layout.typeBytes := by
  obtain ⟨type, l, htype, hl, rfl⟩ := decoderFor_eq_ok_iff.1 hd
  have hvalidating : c.validating = true := by
    obtain ⟨d, -, -, -, rfl⟩ := ofDocument_eq_ok_iff.1 hc
    rfl
  have hheaded : l.HeadedBy slot := ⟨memberOf?_header hc (mem_of_require hl) hslot, hgroups l (mem_of_require hl)⟩
  have hverdict : verdict c (flatly l buffer) = none := by
    rw [MessageDecoder.outcome_decode_new hvalidating] at hvalid
    exact Option.isNone_iff_eq_none.1 hvalid
  -- Both scans see the same first pair.
  obtain ⟨value, hvalue, hnode⟩ := header_of_verdict hheaded hrequired hverdict
  obtain rfl : type = value := by
    rw [typeTag_eq hc hslot hname] at htype
    exact Option.some.inj (htype.symm.trans hvalue)
  have hlayout : l.typeBytes = type := (require_eq_ok_iff.1 hl).2
  -- The cell of the decoder has what the node of the machine has.
  rw [← (MessageDecoder.decode_new (c := c) buffer).1 .header, nodes_eq_map, List.find?_map] at hnode
  obtain ⟨cell, hcell, hnode⟩ := Option.map_eq_some_iff.1 hnode
  simp only [Function.comp_def, Cell.tag_node] at hcell
  cases cell with
  | group => cases hnode
  | field slot' value stamp =>
    obtain ⟨rfl, rfl⟩ := Node.field.inj hnode
    have hfind : find? ((((c.newDecoder l).decode buffer).1.validate.part .header)).cells slot'.tag =
        some (.field slot' (Value.ofBytes slot'.kind type) stamp) := hcell
    refine ⟨?_, ?_⟩
    · rw [Aggregate.has, hfind]
      rfl
    · rw [Aggregate.getBytes, Aggregate.field, hfind]
      exact congrArg Except.ok hlayout.symm

/-- A message that is followed by the start of another one, which tells another type. -/
theorem messageType_of_isValid_window :
    let buffer := Sample.window ++ Sample.bytes "8=FIX.4.4|9=5|35=Z|"
    let slot : FieldSlot := ⟨Sample.field 35 "MsgType", true⟩
    let d := Sample.codecs.newDecoder Sample.layout
    let header := (d.decode buffer).1.validate.part .header
    ofDocument Sample.document true = .ok Sample.codecs ∧ slot ∈ Sample.codecs.header.fields ∧
      Sample.codecs.decoderFor buffer = .ok d ∧ (d.decode buffer).1.validate.outcome.isValid = true ∧
      header.has 35 = true ∧ header.getBytes 35 = .ok (Bytes.ofString "S") := by
  intro buffer slot d header
  have hslot : slot ∈ Sample.codecs.header.fields := by decide +kernel
  have hd : Sample.codecs.decoderFor buffer = .ok d :=
    decoderFor_eq_ok_iff.2 ⟨Bytes.ofString "S", Sample.layout, by decide +kernel, Sample.require_layout, rfl⟩
  have hvalid : (d.decode buffer).1.validate.outcome.isValid = true := by
    have hverdict : (verdict Sample.codecs (flatly Sample.layout buffer)).isNone = true := by decide +kernel
    rw [MessageDecoder.outcome_decode_new (c := Sample.codecs) rfl]
    exact hverdict
  have hgroups : ∀ l ∈ Sample.codecs.messages, ∀ part, ∀ g ∈ (l.part part).groups, mention slot.tag g.2 = false := by
    intro l hl part
    obtain rfl := List.mem_singleton.1 hl
    cases part <;> decide +kernel
  exact ⟨Sample.ofDocument_document, hslot, hd, hvalid,
    messageType_of_isValid Sample.ofDocument_document hslot rfl rfl hgroups hd hvalid⟩

end FixWire.Codecs
