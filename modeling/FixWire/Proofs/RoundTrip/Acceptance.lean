import FixWire.Proofs.Keys
import FixWire.Proofs.RoundTrip.Messages

/-!
# Messages accepted

A decoder that judges messages accepts what an encoder writes, if the encoder has been given what the message needs
(`MessageEncoder.validate_encode`). None of the seven checks then finds anything. The header begins with the fields that
it has to begin with; no tag is unknown, because every pair is read into the cell that it was written for; no tag comes
twice, because the cell has been blank before; no value is empty or wrong, because the encoder holds none that is, and
counters are those of the entries; and what is required is always written.
-/

namespace FixWire

namespace Decoder

/-! ## The verdict -/

/-- Tags come in order if they begin with those that have to come first. -/
theorem misplaced?_append (order more : List Tag) : Log.misplaced? order (order ++ more) = none := by
  induction order with
  | nil => simp [Log.misplaced?]
  | cons tag order ih => simpa [Log.misplaced?] using ih

end Decoder

namespace Encoder

/-! ## What is required is written -/

mutual

theorem Cell.missing?_decoded (cycle : UInt32) : ∀ c : Cell, (c.decoded cycle).missing? = none
  | .field slot value => by
    rw [Cell.decoded]
    split_ifs with h
    · simp [Decoder.Cell.missing?, Decoder.Value.ofBytes, Decoder.Value.isPresent]
    · simp_all [Decoder.Cell.missing?]
  | .group slot body live spare => by
    rw [Cell.decoded]
    split_ifs with h
    · simp [Decoder.Cell.missing?, missing?_decodedEntries live]
    · simp_all [Decoder.Cell.missing?, Decoder.missingInAny?]

/-- No required member is missing after reading what is written for some cells. -/
theorem missing?_decoded (cycle : UInt32) : ∀ cells : List Cell, Decoder.missing? (decoded cycle cells) = none
  | [] => rfl
  | c :: rest => by rw [decoded, Decoder.missing?, c.missing?_decoded, missing?_decoded, Option.none_or]

theorem missing?_decodedEntries : ∀ entries : List (List Cell), Decoder.missingInAny? (decodedEntries entries) = none
  | [] => rfl
  | cells :: rest => by
    rw [decodedEntries, Decoder.missingInAny?, missing?_decoded, missing?_decodedEntries, Option.none_or]

end

/-! ## Values that are accepted -/

/-- The field is set if it is required. -/
def Cell.Filled : Cell → Prop
  | .field slot value => slot.required = true → value.isSome = true
  | .group _ _ _ _ => True

/-- The value of the field, if it is set, is not empty, does not have the byte that ends fields, is one of the kind of
the field, and is among the values that the field enumerates, if it does. -/
def Cell.Proper : Cell → Prop
  | .field slot (some value) =>
    value ≠ [] ∧ soh ∉ value ∧ Decoder.Content.ofBytes slot.kind value ≠ .malformed ∧ slot.accepts value = true
  | _ => True

theorem Cell.Proper.plain {c : Cell} (h : c.Proper) : c.Plain := by
  rcases c with ⟨slot, _ | value⟩ | ⟨slot, body, live, spare⟩
  · exact List.not_mem_nil
  · exact h.2.1
  · exact soh_notMem_digits _

theorem Cell.Everywhere.imp {P Q : Cell → Prop} (h : ∀ c, P c → Q c) {c : Cell} (hc : c.Everywhere P) :
    c.Everywhere Q := by
  induction hc with
  | field hc => exact .field (h _ hc)
  | group hc _ ih => exact .group (h _ hc) ih

theorem Cell.faults_field {slot : FieldSlot} {value : Option Bytes} (hfilled : (Cell.field slot value).Filled)
    (hproper : (Cell.field slot value).Proper) : (Cell.field slot value).faults = [] := by
  cases value with
  | none =>
    have hoptional : ¬slot.required = true := fun h => by simpa using hfilled h
    exact if_neg (by simpa using hoptional)
  | some value =>
    obtain ⟨hne, -, hkind, haccepts⟩ := hproper
    simp [Cell.faults, Decoder.valueFaults, hne, hkind, haccepts]

mutual

theorem Cell.faults_eq_nil : ∀ c : Cell, c.Everywhere Cell.Filled → c.Everywhere Cell.Proper → c.faults = []
  | .field slot value, hfilled, hproper =>
    Cell.faults_field (Cell.everywhere_field.1 hfilled) (Cell.everywhere_field.1 hproper)
  | .group slot body live spare, hfilled, hproper => by
    rw [Cell.faults, entriesFaults_eq_nil live (Cell.everywhere_group.1 hfilled).2 (Cell.everywhere_group.1 hproper).2,
      ite_self]

/-- Nothing is wrong with what is written for cells that are filled properly. -/
theorem faults_eq_nil : ∀ cells : List Cell, (∀ c ∈ cells, c.Everywhere Cell.Filled) →
    (∀ c ∈ cells, c.Everywhere Cell.Proper) → faults cells = []
  | [], _, _ => rfl
  | c :: rest, hfilled, hproper => by
    rw [List.forall_mem_cons] at hfilled hproper
    rw [faults, c.faults_eq_nil hfilled.1 hproper.1, faults_eq_nil rest hfilled.2 hproper.2, List.append_nil]

theorem entriesFaults_eq_nil : ∀ entries : List (List Cell),
    (∀ cells ∈ entries, ∀ c ∈ cells, c.Everywhere Cell.Filled) →
      (∀ cells ∈ entries, ∀ c ∈ cells, c.Everywhere Cell.Proper) → entriesFaults entries = []
  | [], _, _ => rfl
  | cells :: rest, hfilled, hproper => by
    rw [List.forall_mem_cons] at hfilled hproper
    rw [entriesFaults, faults_eq_nil cells hfilled.1 hproper.1, entriesFaults_eq_nil rest hfilled.2 hproper.2,
      List.append_nil]

end

/-! ## Tags that come first -/

/-- Cells of which every one is written. -/
theorem tagsWritten_of_forall {cells : List Cell} (h : ∀ c ∈ cells, c.isWritten = true) :
    tagsWritten cells = cells.map Cell.tag := by
  rw [tagsWritten, List.filter_eq_self.2 h]

theorem tagsWritten_append (cells cells' : List Cell) :
    tagsWritten (cells ++ cells') = tagsWritten cells ++ tagsWritten cells' := by
  rw [tagsWritten, List.filter_append, List.map_append]
  rfl

theorem isWritten_of_isPresent {c : Cell} (h : c.isPresent = true) : c.isWritten = true := by
  cases c with
  | field slot value => exact Bool.or_eq_true_iff.2 (.inl h)
  | group slot body live spare => exact Bool.or_eq_true_iff.2 (.inl h)

/-- What is written begins with the fields that come first in the layout, if all of them are set. -/
theorem tagsWritten_leading {members : List Member} {cells : List Cell} {leading : List FieldSlot}
    (hfit : Fit members cells) (hnodup : (members.map Member.tag).Nodup) (hfirst : leading.map Member.field <+: members)
    (hset : ∀ slot ∈ leading, has cells slot.tag = true) :
    ∃ more, tagsWritten cells = leading.map FieldSlot.tag ++ more := by
  obtain ⟨others, hmembers⟩ := hfirst
  rw [← hfit.map_member] at hmembers
  obtain ⟨first, rest, rfl, hfirst, -⟩ := List.map_eq_append_iff.1 hmembers.symm
  rw [← map_tag_eq hfit.map_member] at hnodup
  have htags : first.map Cell.tag = leading.map FieldSlot.tag := by
    rw [map_tag_eq hfirst, List.map_map]
    rfl
  have hwritten : ∀ c ∈ first, c.isWritten = true := fun c hc => by
    obtain ⟨slot, hslot, htag⟩ := List.mem_map.1 (htags ▸ List.mem_map_of_mem hc)
    have hhas := hset slot hslot
    rw [has, htag, find?, (find?_key_eq_some_iff hnodup).2 ⟨List.mem_append_left _ hc, rfl⟩] at hhas
    exact isWritten_of_isPresent hhas
  exact ⟨tagsWritten rest, by rw [tagsWritten_append, tagsWritten_of_forall hwritten, htags]⟩

end Encoder

/-! ## Messages -/

/-- The fields with which every message has to start : the first three of the header, or all if it has fewer. -/
def MessageLayout.leading (l : MessageLayout) : List FieldSlot :=
  l.header.fields.take 3

namespace Codecs

variable {c : Codecs} {type : String} {l : MessageLayout}

/-- A decoder asks for the leading fields of its own layout. -/
theorem order_of_require {text : String} {validating : Bool} (hc : ofDocument text validating = .ok c)
    (hl : c.require (Bytes.ofString type) = .ok l) : c.order = l.leading.map FieldSlot.tag := by
  have hmem := mem_of_require hl
  obtain ⟨d, -, -, -, rfl⟩ := ofDocument_eq_ok_iff.1 hc
  rw [Dictionary.messageLayouts, List.mem_mapIdx] at hmem
  obtain ⟨index, -, rfl⟩ := hmem
  rfl

end Codecs

namespace MessageEncoder

open Encoder

variable {e e₀ : MessageEncoder}

/-- A decoder finds nothing wrong with what is written. -/
theorem Suitable.outcome_validate {d : MessageDecoder} (h : e.Suitable d.parts.nextCycle) {window : Bytes}
    (hw : window = written e.header ++ written e.body ++ written e.trailer) {more : List Tag}
    (horder : e.tagsWritten = d.order ++ more) (hfaults : e.faults = []) :
    (d.decode window).1.validate.outcome = .valid := by
  have hmissing : (e.readInto d.parts.nextCycle).missing? = none := by
    have hpart (part : Part) : Decoder.missing? ((e.readInto d.parts.nextCycle).get part).cells = none := by
      cases part <;> exact missing?_decoded _ _
    have hheader := hpart .header
    have hbody := hpart .body
    have htrailer := hpart .trailer
    simp only [Decoder.Parts.get] at hheader hbody htrailer
    simp [Decoder.Parts.missing?, hheader, hbody, htrailer]
  have hmisplaced : Decoder.Log.misplaced? d.order e.tagsWritten = none := by
    rw [horder, Decoder.misplaced?_append]
  rw [h.decode_eq hw, MessageDecoder.validate]
  dsimp only
  rw [hmissing, hfaults, Decoder.Log.add_nil]
  simp [Decoder.Log.judge, Decoder.Log.failure?, Decoder.Log.seeAll, Decoder.Log.empty, hmisplaced,
    Decoder.Outcome.valid]

/-- A decoder that judges messages accepts what an encoder writes, if that is filled properly. The encoder has been used
in any way, and it is what it holds when the message is written that counts : the fields that have to come first are
set, and so is every required field of the message and of its entries; every entry is written with its delimiter; and
every value is a proper one of its field. Computed fields are set by then. -/
theorem validate_encode {text type : String} {c : Codecs} {d : MessageDecoder} {buffer : Bytes} {offset : Nat}
    (hc : Codecs.ofDocument text true = .ok c) (he₀ : c.encoder type = .ok e₀) (hd : c.decoder type = .ok d)
    (hapart : e₀.layout.Apart) (hfirst : e₀.layout.leading.map Member.field <+: e₀.layout.header.members)
    (hused : Used e₀ e) (hset : ∀ slot ∈ e₀.layout.leading, has e.computed.header slot.tag = true)
    (hfilled : e.computed.Everywhere Cell.Filled) (hdelimited : e.computed.Everywhere Cell.Delimited)
    (hproper : e.computed.Everywhere Cell.Proper) (hroom : e.encodedLength ≤ buffer.length - offset)
    (hsize : buffer.length < Integer.limit) :
    ∃ n buffer', e.encode buffer offset = (.ok n, e.computed, buffer') ∧
      let outcome := (d.decode (buffer'.window offset n)).1.validate.outcome
      outcome.isValid = true ∧ outcome.reason? = none ∧ outcome.invalidTag = Decoder.Outcome.noError := by
  obtain ⟨l, hl, rfl⟩ := Codecs.encoder_eq_ok_iff.1 he₀
  obtain rfl := Codecs.decoder_of_require hl hd
  have hsound := Codecs.sound_of_require hc hl
  have hsuits := (hused.suits (suits_make l c.dictionary.beginString)).computed
  have hlength : e.wire.length < Integer.limit := by
    rw [length_wire]
    omega
  have hsuitable : e.computed.Suitable (c.newDecoder l).parts.nextCycle := by
    refine suitable hsound hapart hsuits.fit (fun part c hc => (hproper part c hc).imp fun _ => Cell.Proper.plain)
      hdelimited (fun part => ?_) (fun part => ?_)
      fun part => ?_
    · exact Nat.lt_of_le_of_lt (e.length_part_le part) hlength
    · cases part <;> rfl
    · cases part <;> exact (by decide : (1 : UInt32) ≠ 0)
  have hfaults : e.computed.faults = [] := by
    have hpart (part : Part) : Encoder.faults (e.computed.part part) = [] :=
      faults_eq_nil _ (hfilled part) (hproper part)
    rw [faults, show Encoder.faults e.computed.header = [] from hpart .header,
      show Encoder.faults e.computed.body = [] from hpart .body,
      show Encoder.faults e.computed.trailer = [] from hpart .trailer]
    rfl
  obtain ⟨more, horder⟩ := tagsWritten_leading (hsuits.fit .header) (hsound.nodup .header) hfirst hset
  have hwindow : (buffer.overwrite offset e.wire).window offset e.encodedLength = e.wire := by
    rw [← length_wire] at hroom ⊢
    exact Bytes.window_overwrite hroom
  have horder' : (c.newDecoder l).order = l.leading.map FieldSlot.tag := Codecs.order_of_require hc hl
  have htags : e.computed.tagsWritten = (c.newDecoder l).order ++
      (more ++ (Encoder.tagsWritten e.computed.body ++ Encoder.tagsWritten e.computed.trailer)) := by
    rw [tagsWritten, show Encoder.tagsWritten e.computed.header = _ from horder, List.append_assoc, horder']
    rfl
  have houtcome := hsuitable.outcome_validate (rfl : e.wire = _) htags hfaults
  refine ⟨e.encodedLength, buffer.overwrite offset e.wire, encode_of_room hroom, ?_⟩
  rw [hwindow, houtcome]
  exact ⟨rfl, rfl, rfl⟩

/-- A quote with one leg that has another name, with everything set that is required. -/
def offer : MessageEncoder :=
  { quote with
    body := [.group Sample.legs Sample.leg
        [[.field ⟨Sample.field 600 "LegSymbol", false⟩ (some (Bytes.ofString "A")),
          .field ⟨Sample.field 602 "LegSecurityID", true⟩ (some (Bytes.ofString "B")),
          .group Sample.altIDs Sample.altID
            [[.field ⟨Sample.field 605 "LegAltID", false⟩ (some (Bytes.ofString "X"))]] []]] [],
      .field ⟨Sample.field 55 "Symbol", true⟩ (some (Bytes.ofString "E"))] }

theorem used_offer : Used (make Sample.layout "FIX.4.4") offer := by
  have h₀ : Used (make Sample.layout "FIX.4.4") (make Sample.layout "FIX.4.4") := .new
  have h₁ := h₀.change .body [] (.nextEntry 555) rfl rfl
  have h₂ := h₁.change .body [(555, 0)] (.text 600 "A") rfl rfl
  have h₃ := h₂.change .body [(555, 0)] (.text 602 "B") rfl rfl
  have h₄ := h₃.change .body [(555, 0)] (.nextEntry 604) rfl rfl
  have h₅ := h₄.change .body [(555, 0), (604, 0)] (.text 605 "X") rfl rfl
  exact h₅.change .body [] (.text 55 "E") rfl rfl

theorem computed_offer : offer.computed = { offer with
    header := [.field ⟨Sample.field 8 "BeginString", true⟩ (some (Bytes.ofString "FIX.4.4")),
      .field ⟨Sample.length, true⟩ (some (Bytes.ofString "40")),
      .field ⟨Sample.field 35 "MsgType", true⟩ (some (Bytes.ofString "S"))]
    trailer := [.field ⟨Sample.field 10 "CheckSum", true⟩ (some (Bytes.ofString "087"))] } := by
  have hlength : Natural.digits offer.bodyLength = Bytes.ofString "40" := by decide +kernel
  have hsum : checksumText (checksum offer.summed) = Bytes.ofString "087" := by decide +kernel
  rw [computed, measured, hlength, hsum]
  rfl

/-- The offer, written at an offset, read back and judged. -/
theorem validate_encode_offer :
    let d := Sample.codecs.newDecoder Sample.layout
    Codecs.ofDocument Sample.document true = .ok Sample.codecs ∧ Used (make Sample.layout "FIX.4.4") offer ∧
      ∃ n buffer', offer.encode (List.replicate 100 0) 7 = (.ok n, offer.computed, buffer') ∧
        let outcome := (d.decode (buffer'.window 7 n)).1.validate.outcome
        outcome.isValid = true ∧ outcome.reason? = none ∧ outcome.invalidTag = Decoder.Outcome.noError := by
  intro d
  have hversion : Sample.codecs.dictionary.beginString = "FIX.4.4" := by decide +kernel
  have hencoder : Sample.codecs.encoder "S" = .ok (make Sample.layout "FIX.4.4") :=
    Codecs.encoder_eq_ok_iff.2 ⟨Sample.layout, Sample.require_layout, hversion ▸ rfl⟩
  have hdecoder : Sample.codecs.decoder "S" = .ok d := by
    rw [Codecs.decoder, Sample.require_layout]
    rfl
  have hset : ∀ slot ∈ Sample.layout.leading, has offer.computed.header slot.tag = true := by
    rw [computed_offer]
    decide +kernel
  have hfilled : offer.computed.Everywhere Cell.Filled := by
    rw [computed_offer]
    intro part
    cases part <;>
      simp [MessageEncoder.part, offer, Cell.Filled]
  have hdelimited : offer.computed.Everywhere Cell.Delimited := by
    rw [computed_offer]
    intro part
    cases part <;>
      simp only [MessageEncoder.part, offer, List.forall_mem_cons, Cell.everywhere_field, Cell.everywhere_group,
        Cell.Delimited, List.not_mem_nil, false_implies, implies_true, and_true, true_and]
    exact ⟨⟨_, List.mem_cons_self, rfl, rfl⟩, _, List.mem_cons_self, rfl, rfl⟩
  have hproper : offer.computed.Everywhere Cell.Proper := by
    rw [computed_offer]
    intro part
    cases part <;>
      simp only [MessageEncoder.part, offer, List.forall_mem_cons, Cell.everywhere_field, Cell.everywhere_group,
        Cell.Proper, List.not_mem_nil, false_implies, implies_true, and_true, true_and] <;>
      decide +kernel
  refine ⟨Sample.ofDocument_document, used_offer, ?_⟩
  exact validate_encode Sample.ofDocument_document hencoder hdecoder apart_layout (List.prefix_rfl) used_offer hset
    hfilled hdelimited hproper (by decide +kernel) (by decide)

end MessageEncoder

end FixWire
