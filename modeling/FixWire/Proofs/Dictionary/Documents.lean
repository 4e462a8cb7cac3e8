import FixWire.Codecs
import FixWire.Proofs.Refusal

/-!
# Codecs of documents

Codecs are made from a document if it describes a dictionary without faults in which no two message types have the
same key (`Codecs.ofDocument_eq_ok_iff`). They have a layout for a message type if the first message with its key is
of that type (`Codecs.require_eq_ok_iff`).
-/

namespace FixWire

/-! ## Documents as lists of characters

Taking a literal apart character by character is slow to evaluate, so documents are evaluated as lists. -/

/-- The root of a document, from its characters. -/
def Xml.rootOf? (cs : List Char) : Option (Option Element) := do
  let tags ← markup? (if cs.head? = some '\ufeff' then cs.drop 1 else cs)
  let reader ← tags.foldlM TreeReader.read? ⟨[], none⟩
  pure reader.root

theorem Xml.root?_ofList (cs : List Char) : root? (String.ofList cs) = rootOf? cs := by
  rw [root?, String.toList_ofList]
  rfl

/-- The dictionary that the root of a document describes. -/
def Dictionary.ofRoot? (root : Option (Option Xml.Element)) : Option Dictionary :=
  root.join.bind fun root => (Declarations.ofRoot root).toOption.map fun d => (ofDeclarations d).normalize

theorem Dictionary.compile_ofList {cs : List Char} {d : Dictionary} (h : ofRoot? (Xml.rootOf? cs) = some d) :
    compile (String.ofList cs) = .ok d := by
  obtain ⟨root, hroot, h⟩ := Option.bind_eq_some_iff.1 h
  obtain ⟨declared, hdeclared, rfl⟩ := Option.map_eq_some_iff.1 h
  rw [compile, Declarations.ofDocument, Xml.root?_ofList, Option.join_eq_some_iff.1 hroot]
  dsimp only
  rw [eq_ok_of_toOption hdeclared]
  rfl

namespace Codecs

theorem ofDictionary_eq_ok_iff {d : Dictionary} {validating : Bool} {c : Codecs} :
    ofDictionary d validating = .ok c ↔
      d.fault? = none ∧ keyClash? [] d.messageLayouts = none ∧ ⟨d, d.messageLayouts, validating⟩ = c := by
  rw [ofDictionary]
  cases d.fault? with
  | some cause => simp
  | none =>
    cases keyClash? [] d.messageLayouts with
    | some types => simp
    | none => simp

/-- The document has to describe a dictionary, without faults and with different keys. -/
theorem ofDocument_eq_ok_iff {text : String} {validating : Bool} {c : Codecs} :
    ofDocument text validating = .ok c ↔
      ∃ d, Dictionary.compile text = .ok d ∧ d.fault? = none ∧ keyClash? [] d.messageLayouts = none ∧
        ⟨d, d.messageLayouts, validating⟩ = c := by
  rw [ofDocument]
  cases Dictionary.compile text with
  | error cause => simp
  | ok d => simp [ofDictionary_eq_ok_iff]

/-- The message with the key has to be of the type. -/
theorem require_eq_ok_iff {c : Codecs} {type : Bytes} {l : MessageLayout} :
    c.require type = .ok l ↔
      (c.messages.find? fun m => m.key == MsgType.key type) = some l ∧ l.typeBytes = type := by
  rw [require, message?]
  cases c.messages.find? fun m => m.key == MsgType.key type with
  | none => simp
  | some m =>
    by_cases hm : m.typeBytes = type
    · simp only [Option.filter_some, hm, beq_self_eq_true, if_true, Except.ok.injEq, Option.some.injEq, iff_self_and]
      exact fun h => h ▸ hm
    · simp only [Option.filter_some, beq_iff_eq, hm, if_false, reduceCtorEq, Option.some.injEq, false_iff, not_and]
      exact fun h => h ▸ hm

theorem encoder_eq_ok_iff {c : Codecs} {type : String} {e : MessageEncoder} : c.encoder type = .ok e ↔
    ∃ l, c.require (Bytes.ofString type) = .ok l ∧ MessageEncoder.make l c.dictionary.beginString = e := by
  rw [encoder]
  cases c.require (Bytes.ofString type) <;> simp [Except.map]

theorem decoder_of_require {c : Codecs} {type : String} {l : MessageLayout} {d : MessageDecoder}
    (hl : c.require (Bytes.ofString type) = .ok l) (hd : c.decoder type = .ok d) : c.newDecoder l = d := by
  rw [decoder, hl] at hd
  exact Except.ok.inj hd

end Codecs

/-! ## A sample -/

namespace Sample

/-- A field for text. -/
def field (number : Tag) (name : String) : Field :=
  ⟨number, name, .string, []⟩

/-- A counter. -/
def counter (number : Tag) (name : String) : Field :=
  ⟨number, name, .numInGroup, []⟩

/-- The length of the body. -/
def length : Field :=
  ⟨9, "BodyLength", .length, []⟩

/-- A dictionary with one message, which has a group of legs, each of which has a group of other names. -/
def dictionary : Dictionary where
  major := 4
  minor := 4
  fields := [field 8 "BeginString", length, field 10 "CheckSum", field 35 "MsgType", field 55 "Symbol",
    counter 555 "NoLegs", field 600 "LegSymbol", field 602 "LegSecurityID", counter 604 "NoLegAltIDs",
    field 605 "LegAltID"]
  groups := [⟨"LegAltIDs", counter 604 "NoLegAltIDs", [⟨false, .field (field 605 "LegAltID")⟩]⟩,
    ⟨"Legs", counter 555 "NoLegs", [⟨false, .field (field 600 "LegSymbol")⟩,
      ⟨true, .field (field 602 "LegSecurityID")⟩, ⟨false, .group 0⟩]⟩]
  components := []
  spliced := []
  messages := [⟨"Quote", "S", .app, [⟨false, .group 1⟩, ⟨true, .field (field 55 "Symbol")⟩]⟩]
  header := [⟨true, .field (field 8 "BeginString")⟩, ⟨true, .field length⟩, ⟨true, .field (field 35 "MsgType")⟩]
  trailer := [⟨true, .field (field 10 "CheckSum")⟩]

/-- The slot of the other names of a leg. -/
def altIDs : GroupSlot :=
  ⟨"LegAltIDs", counter 604 "NoLegAltIDs", false, 605⟩

/-- The members of another name. -/
def altID : List Member :=
  [.field ⟨field 605 "LegAltID", false⟩]

/-- The slot of the legs. -/
def legs : GroupSlot :=
  ⟨"Legs", counter 555 "NoLegs", false, 600⟩

/-- The members of a leg. -/
def leg : List Member :=
  [.field ⟨field 600 "LegSymbol", false⟩, .field ⟨field 602 "LegSecurityID", true⟩, .group altIDs altID]

/-- The codecs of the dictionary. -/
def codecs : Codecs :=
  ⟨dictionary, dictionary.messageLayouts, true⟩

/-- The layout of the message. -/
def layout : MessageLayout :=
  ⟨"Quote", "S", .app, dictionary.layoutOf .header, dictionary.layoutOf (.message 0), dictionary.layoutOf .trailer⟩

/-- The members of the message. -/
theorem layout_eq : layout = ⟨"Quote", "S", .app,
    ⟨"Header", [.field ⟨field 8 "BeginString", true⟩, .field ⟨length, true⟩, .field ⟨field 35 "MsgType", true⟩]⟩,
    ⟨"Quote", [.group legs leg, .field ⟨field 55 "Symbol", true⟩]⟩,
    ⟨"Trailer", [.field ⟨field 10 "CheckSum", true⟩]⟩⟩ :=
  rfl

/-- The document of the dictionary. -/
def document : String :=
  "<fix major='4' minor='4'>
    <fields>
      <field number='8' name='BeginString' type='STRING'/>
      <field number='9' name='BodyLength' type='LENGTH'/>
      <field number='10' name='CheckSum' type='STRING'/>
      <field number='35' name='MsgType' type='STRING'/>
      <field number='55' name='Symbol' type='STRING'/>
      <field number='555' name='NoLegs' type='NUMINGROUP'/>
      <field number='600' name='LegSymbol' type='STRING'/>
      <field number='602' name='LegSecurityID' type='STRING'/>
      <field number='604' name='NoLegAltIDs' type='NUMINGROUP'/>
      <field number='605' name='LegAltID' type='STRING'/>
    </fields>
    <header>
      <field name='BeginString' required='Y'/>
      <field name='BodyLength' required='Y'/>
      <field name='MsgType' required='Y'/>
    </header>
    <trailer><field name='CheckSum' required='Y'/></trailer>
    <messages>
      <message name='Quote' msgtype='S' msgcat='app'>
        <group name='NoLegs'>
          <field name='LegSymbol'/>
          <field name='LegSecurityID' required='Y'/>
          <group name='NoLegAltIDs'><field name='LegAltID'/></group>
        </group>
        <field name='Symbol' required='Y'/>
      </message>
    </messages>
  </fix>"

set_option maxRecDepth 8000 in
/-- The codecs of the document. -/
theorem ofDocument_document : Codecs.ofDocument document true = .ok codecs := by
  have hcompile : Dictionary.compile document = .ok dictionary := Dictionary.compile_ofList (by decide +kernel)
  exact Codecs.ofDocument_eq_ok_iff.2 ⟨dictionary, hcompile, by decide +kernel, by decide +kernel, rfl⟩

theorem require_layout : codecs.require (Bytes.ofString "S") = .ok layout := by
  have hkey : (layout.key == MsgType.key (Bytes.ofString "S")) = true := by decide +kernel
  exact Codecs.require_eq_ok_iff.2 ⟨List.find?_cons_of_pos hkey, rfl⟩

/-- The bytes of a text in which the ends of fields are written as bars. -/
def bytes (text : String) : Bytes :=
  (Bytes.ofString text).map fun b => if b = 0x7c then soh else b

/-- Such a message. -/
def window : Bytes :=
  bytes "8=FIX.4.4|9=5|35=S|555=2|600=A|602=B|604=1|605=X|600=C|602=D|55=E|10=000|"

end Sample

end FixWire
