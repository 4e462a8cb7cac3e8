import FixWire.Dictionary.Basic

/-!
# Layouts

The layout of an aggregate is what is left of its entries once the components in it are spliced in : fields
and groups, in order, each with its own tag, which is that of the counter for a group. Decoders and encoders
look members up by tag.
-/

namespace FixWire

/-- A field that the encoder computes. -/
inductive Derived where
  /-- The number of bytes from after this field to the field of the checksum. -/
  | bodyLength
  /-- The sum of all bytes before this field. -/
  | checkSum
  deriving DecidableEq, Repr

namespace Derived

/-- The name of the field. -/
def name : Derived → String
  | .bodyLength => "BodyLength"
  | .checkSum => "CheckSum"

/-- What is computed for the field with the name. -/
def ofName? (name : String) : Option Derived :=
  [bodyLength, checkSum].find? fun d => d.name == name

end Derived

/-- A field of an aggregate. It is required if it is so along all components that lead to it. -/
structure FieldSlot where
  field : Field
  required : Bool
  deriving DecidableEq, Repr

namespace FieldSlot

/-- The tag of the field. -/
def tag (s : FieldSlot) : Tag := s.field.number

/-- The name of the field. -/
def name (s : FieldSlot) : String := s.field.name

/-- The kind of the values. -/
def kind (s : FieldSlot) : ValueKind := s.field.type.kind

/-- What the encoder computes for the field. -/
def derived? (s : FieldSlot) : Option Derived := Derived.ofName? s.name

/-- Whether a value can be used where the field is not enumerated or enumerates it. In a field for lists of
values there has to be a token, and every token has to be enumerated. -/
def accepts (s : FieldSlot) (value : Bytes) : Bool :=
  if !s.field.isEnum then true
  else if s.field.type.isMultiValue then
    let tokens := (value.splitOn space).filter (· ≠ [])
    !tokens.isEmpty && tokens.all s.field.hasValue
  else s.field.hasValue value

end FieldSlot

/-- A repeating group of an aggregate : its counter, and the tag that starts each repetition. -/
structure GroupSlot where
  name : String
  counter : Field
  required : Bool
  delimiter : Tag
  deriving DecidableEq, Repr

/-- The tag of the counter. -/
def GroupSlot.tag (s : GroupSlot) : Tag := s.counter.number

/-- A member of an aggregate : a field, or a group with the members of one repetition. -/
inductive Member where
  | field (slot : FieldSlot)
  | group (slot : GroupSlot) (body : List Member)

namespace Member

/-- The tag under which the member is looked up. -/
def tag : Member → Tag
  | .field slot => slot.tag
  | .group slot _ => slot.tag

/-- Whether the member has to be present. -/
def required : Member → Bool
  | .field slot => slot.required
  | .group slot _ => slot.required

/-- The field, if the member is one. -/
def field? : Member → Option FieldSlot
  | .field slot => some slot
  | .group _ _ => none

/-- The group and its body, if the member is one. -/
def group? : Member → Option (GroupSlot × List Member)
  | .field _ => none
  | .group slot body => some (slot, body)

/-- Whether the member is the field that the encoder computes in this way. -/
def isDerived (d : Derived) (m : Member) : Bool :=
  (m.field?.bind FieldSlot.derived?) == some d

end Member

/-- Whether one of the members has the tag. -/
def owns (members : List Member) (tag : Tag) : Bool :=
  members.any fun m => m.tag == tag

/-- The members of an aggregate with a name. -/
structure Layout where
  name : String
  members : List Member

namespace Layout

/-- The fields, in order. -/
def fields (l : Layout) : List FieldSlot :=
  l.members.filterMap Member.field?

/-- The groups with their bodies, in order. -/
def groups (l : Layout) : List (GroupSlot × List Member) :=
  l.members.filterMap Member.group?

/-- The member with the tag. -/
def lookup? (l : Layout) (tag : Tag) : Option Member :=
  l.members.find? fun m => m.tag == tag

/-- The tag of the field with the name, or else of the group whose counter or which itself has the name. -/
def tagOf? (l : Layout) (name : String) : Option Tag :=
  ((l.fields.find? fun s => s.name == name).map FieldSlot.tag).or
    ((l.groups.find? fun g => g.1.counter.name == name || g.1.name == name).map fun g => g.1.tag)

/-- The field that the encoder computes in this way. -/
def derived? (l : Layout) (d : Derived) : Option FieldSlot :=
  l.fields.find? fun s => s.derived? == some d

/-- The position of that field among the fields. -/
def derivedIndex? (l : Layout) (d : Derived) : Option Nat :=
  l.fields.findIdx? fun s => s.derived? == some d

/-- The tags of the required fields, and of the required groups after them. -/
def requiredTags (l : Layout) : List Tag :=
  (l.fields.filter FieldSlot.required).map FieldSlot.tag ++
    (l.groups.filter fun g => g.1.required).map fun g => g.1.tag

/-- The tags of the fields, and of the groups after them. -/
def allTags (l : Layout) : List Tag :=
  l.fields.map FieldSlot.tag ++ l.groups.map fun g => g.1.tag

/-- The layout of the repetitions of the groups that lead from one into the other, given by the tags of
their counters. -/
def descend? : Layout → List Tag → Option Layout
  | l, [] => some l
  | l, tag :: path =>
    match l.lookup? tag with
    | some (.group slot body) => descend? ⟨slot.name, body⟩ path
    | _ => none

end Layout

/-- One of the three aggregates of a message. -/
inductive Part where
  | header
  | body
  | trailer
  deriving DecidableEq, Repr

/-- The layout of a message. Header and trailer are the same for all messages. -/
structure MessageLayout where
  name : String
  type : String
  category : Category
  header : Layout
  body : Layout
  trailer : Layout

namespace MessageLayout

/-- The message type as bytes. -/
def typeBytes (m : MessageLayout) : Bytes := Bytes.ofString m.type

/-- The layout of one part. -/
def part (m : MessageLayout) : Part → Layout
  | .header => m.header
  | .body => m.body
  | .trailer => m.trailer

/-- The required tags of all parts, without those in groups. -/
def requiredTags (m : MessageLayout) : List Tag :=
  (m.header.requiredTags ++ m.body.requiredTags ++ m.trailer.requiredTags).eraseDups

/-- The tags of all parts, without those in groups. -/
def allTags (m : MessageLayout) : List Tag :=
  (m.header.allTags ++ m.body.allTags ++ m.trailer.allTags).eraseDups

end MessageLayout

end FixWire
