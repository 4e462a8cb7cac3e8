import FixWire.Proofs.Codecs.TypeKeys
import FixWire.Proofs.Decoder.Timestamps
import FixWire.Proofs.Dictionary.Declared
import FixWire.Proofs.Xml.Escaping

/-!
# Enumerated values from document to wire

The representation of an enumerated value is what the attribute of its element says in the document, and of a field with
one value decoders accept the bytes of that text only (`Field.enumerates_of_values`). References are not replaced on the
way, so a text that has to be escaped in the document does not arrive : its escaping does
(`Dictionary.enumerates_escape`).
-/

namespace FixWire

open Decoder

/-! ## Decoders -/

namespace Decoder

/-- Where the check of values finds something on an event or nothing, the message is rejected for what an earlier check
finds, or this one on the events before, then on this event, then on those after it, and at last for a required member
that is missing. -/
def Judged (before after : List Event) (found : Option (Tag × RejectReason)) (o : Outcome) : Prop :=
  ∃ first last : Option (Tag × RejectReason),
    (∀ x, first = some x → x.2 ∈ earlierReasons) ∧ (∀ x, last = some x → x.2 = .requiredTagMissing) ∧
      o.failure = (first.or ((firstOf incorrect [] before).or (found.or (firstOf incorrect [] after)))).or last

end Decoder

theorem MessageDecoder.Used.judged {c : Codecs} {l : MessageLayout} {d : MessageDecoder} (hu : Used (c.newDecoder l) d)
    (hv : c.validating = true) {window : Bytes} {before after : List Event} {e : Event}
    (hevents : (flatly l window).events = before ++ e :: after) :
    Judged before after (incorrect before e) (d.decode window).1.validate.outcome := by
  obtain ⟨first, last, hearlier, -, hlast, houtcome⟩ := hu.exists_failure hv window
  rw [hevents, firstOf_append, firstOf, firstOf_incorrect (([] ++ before) ++ [e])] at houtcome
  exact ⟨first, last, hearlier, hlast, houtcome⟩

/-! ## Fields with one value -/

namespace Field

/-- The text is the only value of the field, and decoders that judge messages, whatever they have been used for, accept
its bytes for the field and report every other value that is not empty. -/
structure Enumerates (f : Field) (s : String) : Prop where
  representation : f.values.map EnumValue.representation = [s]
  judged {c : Codecs} {l : MessageLayout} {d : MessageDecoder} {window value : Bytes} {before after : List Event}
    {owner : Instance} {slot : FieldSlot} : c.validating = true → MessageDecoder.Used (c.newDecoder l) d →
      (flatly l window).events = before ++ .field owner slot value :: after → slot.field = f → value ≠ [] →
      Judged before after (if value = Bytes.ofString s then none else some (slot.tag, .valueIsIncorrect))
        (d.decode window).1.validate.outcome

theorem accepts_of_values {slot : FieldSlot} {s : String} (htype : slot.field.type = .string)
    (hvalues : slot.field.values.map EnumValue.representation = [s]) (value : Bytes) :
    slot.accepts value = true ↔ value = Bytes.ofString s := by
  obtain ⟨v, hv, rfl⟩ := List.map_eq_singleton_iff.1 hvalues
  have henum : slot.field.isEnum = true := by
    rw [isEnum, hv]
    rfl
  rw [FieldSlot.accepts, henum, htype, hasValue, value?, hv]
  by_cases h : value = Bytes.ofString v.representation
  · simp [h, FieldType.isMultiValue]
  · simp [h, FieldType.isMultiValue, Ne.symm h]

theorem enumerates_of_values {f : Field} {s : String} (htype : f.type = .string)
    (hvalues : f.values.map EnumValue.representation = [s]) : f.Enumerates s where
  representation := hvalues
  judged {c l d window value before after owner slot} hv hu hevents hslot hne := by
    subst hslot
    have hjudged := hu.judged hv hevents
    have htext : Content.ofBytes slot.kind value ≠ .malformed := by
      rw [FieldSlot.kind, htype, Content.ofBytes, if_neg hne]
      exact Content.noConfusion
    rw [incorrect, if_neg hne, if_neg htext] at hjudged
    simpa only [accepts_of_values htype hvalues] using hjudged

end Field

/-! ## Declared values -/

/-- The elements of a document that declare fields. -/
def Xml.fieldElements (text : String) : List Xml.Element :=
  ((Xml.root? text).join.map fun root => Declarations.inSections root "fields" "field").getD []

theorem representations_of_readValues {es : List Xml.Element} {values : List EnumValue} (h : readValues es = .ok values) :
    es.map (·.attribute? "enum") = values.map fun v => some v.representation := by
  induction es generalizing values with
  | nil =>
    cases h
    rfl
  | cons e es ih =>
    obtain ⟨representation, hrepresentation, h⟩ := exists_of_bind h
    obtain ⟨description, -, h⟩ := exists_of_bind h
    obtain ⟨others, hothers, h⟩ := exists_of_bind h
    cases h
    rw [List.map_cons, List.map_cons, attribute?_of_require hrepresentation, ih hothers]

/-- What the element of a field says of its name, its type and its values. -/
theorem declared_of_readField {known : List Field} {e : Xml.Element} {f : Field} (h : readField known e = .ok f) :
    e.attribute? "name" = some f.name ∧
      (∀ type, (e.attribute? "type").bind FieldType.ofName? = some type → type ≠ .char → f.type = type) ∧
      (e.childrenNamed "value").map (·.attribute? "enum") = f.values.map fun v => some v.representation := by
  obtain ⟨number, -, h⟩ := exists_of_bind h
  obtain ⟨name, hname, h⟩ := exists_of_bind h
  obtain ⟨typeName, htypeName, h⟩ := exists_of_bind h
  split at h
  · rename_i type htype
    obtain ⟨values, hvalues, h⟩ := exists_of_bind h
    dsimp only at h
    split_ifs at h <;> cases h
    have hsettled : (Field.settled ⟨number, name, type, values⟩).values = values := by
      rw [Field.settled]
      split_ifs <;> rfl
    refine ⟨?_, fun type' htype' hchar => ?_, ?_⟩
    · rw [Field.name_settled]
      exact attribute?_of_require hname
    · rw [attribute?_of_require htypeName, Option.bind_some, htype, Option.some.injEq] at htype'
      subst htype'
      rw [Field.settled, if_neg fun hc => hchar hc.1]
    · rw [hsettled]
      exact representations_of_readValues hvalues
  · cases h

theorem exists_of_readFields {es : List Xml.Element} {known fields : List Field}
    (h : readFields known es = .ok fields) :
    known ⊆ fields ∧ ∀ e ∈ es, ∃ f ∈ fields, ∃ known', readField known' e = .ok f := by
  induction es generalizing known with
  | nil =>
    cases h
    exact ⟨List.Subset.refl _, fun e he => absurd he List.not_mem_nil⟩
  | cons e es ih =>
    obtain ⟨f, hf, h⟩ := exists_of_bind h
    obtain ⟨hknown, hfields⟩ := ih h
    have hmem : f ∈ fields := hknown (List.mem_append_right _ List.mem_cons_self)
    exact ⟨fun g hg => hknown (List.mem_append_left _ hg), List.forall_mem_cons.2 ⟨⟨f, hmem, known, hf⟩, hfields⟩⟩

namespace Dictionary

/-- Every element that declares a field has been read as a field of the dictionary. -/
theorem exists_field_of_compile {text : String} {d : Dictionary} (h : compile text = .ok d) {e : Xml.Element}
    (he : e ∈ Xml.fieldElements text) : ∃ f ∈ d.fields, ∃ known, readField known e = .ok f := by
  obtain ⟨declared, hdeclared, -, rfl⟩ := exists_ofDocument h
  unfold Declarations.ofDocument at hdeclared
  split at hdeclared
  · cases hdeclared
  · cases hdeclared
  · rename_i root hroot
    rw [Declarations.ofRoot_eq] at hdeclared
    obtain ⟨declared', hread, hdeclared⟩ := exists_of_bind hdeclared
    obtain rfl : declared' = declared := by
      split at hdeclared
      · cases hdeclared
      · exact Except.ok.inj hdeclared
    obtain ⟨-, -, -, hfields, -⟩ := Declarations.read_eq_ok_iff.1 hread
    rw [Xml.fieldElements, hroot] at he
    rw [normalize, fields_repeat_splice]
    exact (exists_of_readFields hfields).2 e he

/-- A field for text whose one value has an escaped text for its representation in the document has the escaped text for
its value, and decoders accept that alone. It is the text that has been escaped only if no character of it has a
reference. -/
theorem enumerates_escape {text : String} {d : Dictionary} (h : compile text = .ok d) {e : Xml.Element}
    (he : e ∈ Xml.fieldElements text) {s : String} (htype : (e.attribute? "type").bind FieldType.ofName? = some .string)
    (hvalue : (e.childrenNamed "value").map (·.attribute? "enum") = [some (Xml.escape s)]) :
    (∀ rest, Xml.attributeValue ('"' :: (Xml.escape s).toList ++ '"' :: rest) = (some (Xml.escape s).toList, rest)) ∧
      ∃ f ∈ d.fields, e.attribute? "name" = some f.name ∧ f.type = .string ∧ f.Enumerates (Xml.escape s) ∧
        (f.Enumerates s ↔ ∀ c ∈ s.toList, c ∉ Xml.escaped) := by
  obtain ⟨f, hf, known, hread⟩ := exists_field_of_compile h he
  obtain ⟨hname, hsettled, hvalues⟩ := declared_of_readField hread
  have hstring : f.type = .string := hsettled _ htype (by decide)
  have hrepresentation : f.values.map EnumValue.representation = [Xml.escape s] := by
    rw [hvalue] at hvalues
    obtain ⟨v, hv, hescape⟩ := List.map_eq_singleton_iff.1 hvalues.symm
    rw [hv, List.map_singleton, Option.some.inj hescape]
  refine ⟨fun rest => Xml.attributeValue_escape s rest (.inl rfl), f, hf, hname, hstring,
    Field.enumerates_of_values hstring hrepresentation, ?_⟩
  rw [← Xml.escape_eq_self_iff]
  constructor
  · intro henumerates
    exact List.singleton_inj.1 (hrepresentation.symm.trans henumerates.representation)
  · intro hescape
    exact Field.enumerates_of_values hstring (hescape ▸ hrepresentation)

end Dictionary

/-! ## An ampersand -/

namespace Sample

/-- A document with two enumerated fields for text, one of them with a reference in its value. -/
def texts : String :=
  "<fix major='4' minor='4'>
    <fields>
      <field number='8' name='BeginString' type='STRING'/>
      <field number='9' name='BodyLength' type='LENGTH'/>
      <field number='10' name='CheckSum' type='STRING'/>
      <field number='35' name='MsgType' type='STRING'/>
      <field number='55' name='Symbol' type='STRING'><value enum='AB' description='PLAIN'/></field>
      <field number='58' name='Text' type='STRING'><value enum='A&amp;B' description='ESCAPED'/></field>
    </fields>
    <header>
      <field name='BeginString' required='Y'/>
      <field name='BodyLength' required='Y'/>
      <field name='MsgType' required='Y'/>
    </header>
    <trailer><field name='CheckSum' required='Y'/></trailer>
    <messages>
      <message name='Quote' msgtype='S' msgcat='app'><field name='Symbol'/><field name='Text'/></message>
    </messages>
  </fix>"

/-- The field without a reference. -/
def plainText : Field :=
  ⟨55, "Symbol", .string, [⟨"AB", "PLAIN"⟩]⟩

/-- The field with a reference. -/
def escapedText : Field :=
  ⟨58, "Text", .string, [⟨"A&amp;B", "ESCAPED"⟩]⟩

/-- The dictionary of the document. -/
def textsDictionary : Dictionary where
  major := 4
  minor := 4
  fields := [field 8 "BeginString", length, field 10 "CheckSum", field 35 "MsgType", plainText, escapedText]
  groups := []
  components := []
  spliced := []
  messages := [⟨"Quote", "S", .app, [⟨false, .field plainText⟩, ⟨false, .field escapedText⟩]⟩]
  header := [⟨true, .field (field 8 "BeginString")⟩, ⟨true, .field length⟩, ⟨true, .field (field 35 "MsgType")⟩]
  trailer := [⟨true, .field (field 10 "CheckSum")⟩]

/-- The codecs of the dictionary. -/
def textsCodecs : Codecs :=
  ⟨textsDictionary, textsDictionary.messageLayouts, true⟩

/-- The layout of the message. -/
def textsLayout : MessageLayout :=
  ⟨"Quote", "S", .app, textsDictionary.layoutOf .header, textsDictionary.layoutOf (.message 0),
    textsDictionary.layoutOf .trailer⟩

set_option maxRecDepth 8000 in
theorem compile_texts : Dictionary.compile texts = .ok textsDictionary :=
  Dictionary.compile_ofList (by decide +kernel)

/-- What the elements of the fields say of their types and values. -/
def said (e : Xml.Element) : Option String × Option FieldType × List (Option String) :=
  (e.attribute? "name", (e.attribute? "type").bind FieldType.ofName?,
    (e.childrenNamed "value").map (·.attribute? "enum"))

set_option maxRecDepth 8000 in
theorem said_texts : (some "Symbol", some .string, [some "AB"]) ∈ (Xml.fieldElements texts).map said ∧
    (some "Text", some .string, [some "A&amp;B"]) ∈ (Xml.fieldElements texts).map said := by
  change _ ∈ (Xml.fieldElements (String.ofList _)).map said ∧ _ ∈ (Xml.fieldElements (String.ofList _)).map said
  rw [Xml.fieldElements, Xml.root?_ofList]
  decide +kernel

end Sample

namespace Dictionary

/-- The value `AB` needs no reference, and arrives. -/
theorem enumerates_escape_plain :
    ∃ d, compile Sample.texts = .ok d ∧ ∃ f ∈ d.fields, f.name = "Symbol" ∧ f.Enumerates "AB" := by
  obtain ⟨e, he, hsaid⟩ := List.mem_map.1 Sample.said_texts.1
  obtain ⟨hname, htype, hvalue⟩ : e.attribute? "name" = some "Symbol" ∧
      (e.attribute? "type").bind FieldType.ofName? = some .string ∧
      (e.childrenNamed "value").map (·.attribute? "enum") = [some "AB"] := by
    simpa [Sample.said] using hsaid
  have hescape : Xml.escape "AB" = "AB" := by decide +kernel
  obtain ⟨-, f, hf, hfname, -, -, hiff⟩ :=
    enumerates_escape Sample.compile_texts he (s := "AB") htype (by rw [hescape]; exact hvalue)
  exact ⟨_, Sample.compile_texts, f, hf, Option.some.inj (hfname.symm.trans hname),
    hiff.2 ((Xml.escape_eq_self_iff "AB").1 hescape)⟩

/-- A value with an ampersand is escaped in the document and stays so : the representation is not the text, the text is
reported when it is received, and its escaping is accepted. -/
theorem not_enumerates_ampersand :
    let decoder := Sample.textsCodecs.newDecoder Sample.textsLayout
    compile Sample.texts = .ok Sample.textsDictionary ∧ Codecs.ofDocument Sample.texts true = .ok Sample.textsCodecs ∧
      (∃ e ∈ Xml.fieldElements Sample.texts, e.attribute? "name" = some "Text" ∧
        (e.attribute? "type").bind FieldType.ofName? = some .string ∧
        (e.childrenNamed "value").map (·.attribute? "enum") = [some (Xml.escape "A&B")]) ∧
      Sample.textsDictionary.fieldNamed? "Text" = some Sample.escapedText ∧
      Sample.escapedText.values.map EnumValue.representation ≠ ["A&B"] ∧ ¬Sample.escapedText.Enumerates "A&B" ∧
      (decoder.decode (Sample.bytes "8=F|9=5|35=S|58=A&B|10=000|")).1.validate.outcome.failure =
        some (58, .valueIsIncorrect) ∧
      (decoder.decode (Sample.bytes "8=F|9=5|35=S|58=A&amp;B|10=000|")).1.validate.outcome.isValid = true := by
  intro decoder
  have hescape : Xml.escape "A&B" = "A&amp;B" := by decide +kernel
  have hvalues : Sample.escapedText.values.map EnumValue.representation ≠ ["A&B"] := by decide +kernel
  have hcodecs : Codecs.ofDocument Sample.texts true = .ok Sample.textsCodecs :=
    Codecs.ofDocument_eq_ok_iff.2 ⟨_, Sample.compile_texts, by decide +kernel, by decide +kernel, rfl⟩
  obtain ⟨e, he, hsaid⟩ := List.mem_map.1 Sample.said_texts.2
  have hdeclared : e.attribute? "name" = some "Text" ∧
      (e.attribute? "type").bind FieldType.ofName? = some .string ∧
      (e.childrenNamed "value").map (·.attribute? "enum") = [some (Xml.escape "A&B")] := by
    rw [hescape]
    simpa [Sample.said] using hsaid
  refine ⟨Sample.compile_texts, hcodecs, ⟨e, he, hdeclared⟩, by decide +kernel, hvalues,
    fun h => hvalues h.representation, ?_, ?_⟩
  · rw [MessageDecoder.outcome_decode_new rfl]
    decide +kernel
  · rw [MessageDecoder.outcome_decode_new rfl]
    decide +kernel

end Dictionary

end FixWire
