import FixWire.Codecs
import FixWire.Proofs.Decoder.Machine

/-!
# The verdict on a message

Seven checks judge a message, and the first of them that finds something gives the reason to reject it. They
are stated here on what the flat machine has made of the message : the first six look at its events, each with
those before it, and the last one at what it holds. How a decoder logs its faults does not occur in them.
-/

namespace FixWire.Decoder

/-! ## Events -/

namespace Event

/-- The aggregate and the tag of the member that a pair is. -/
def claim? : Event → Option (Instance × Tag)
  | .field owner slot _ => some (owner, slot.tag)
  | .counter owner slot _ => some (owner, slot.tag)
  | .closed _ _ _ => none
  | .unclaimed _ _ => none

/-- The tag of a pair that is handled outside groups. -/
def outerTag? : Event → Option Tag
  | .field (.part _) slot _ => some slot.tag
  | .counter (.part _) slot _ => some slot.tag
  | .unclaimed tag false => some tag
  | _ => none

end Event

/-- Some pair is the member of the aggregate with the tag. -/
def Claimed (events : List Event) (owner : Instance) (tag : Tag) : Prop :=
  ∃ e ∈ events, e.claim? = some (owner, tag)

instance (events : List Event) (owner : Instance) (tag : Tag) : Decidable (Claimed events owner tag) :=
  inferInstanceAs (Decidable (∃ e ∈ events, e.claim? = some (owner, tag)))

/-- What a check finds first that looks at one event after the other, together with those before it. -/
def firstOf {α : Type} (check : List Event → Event → Option α) : List Event → List Event → Option α
  | _, [] => none
  | before, e :: rest => (check before e).or (firstOf check (before ++ [e]) rest)

/-! ## The checks -/

/-- The first of the three tags with which a message has to start that another tag stands for. -/
def misplaced (header : List Tag) (events : List Event) : Option (Tag × RejectReason) :=
  let outer := events.filterMap Event.outerTag?
  (List.range 3).findSome? fun i =>
    match outer[i]?, header[i]? with
    | some actual, some expected =>
      if actual = expected then none else some (expected, .tagSpecifiedOutOfRequiredOrder)
    | _, _ => none

/-- A tag that nothing has, and that is no field of the dictionary. -/
def invalidTag (legal : List Tag) (_ : List Event) : Event → Option (Tag × RejectReason)
  | .unclaimed tag _ => if tag ∈ legal then none else some (tag, .invalidTagNumber)
  | _ => none

/-- A tag that nothing has, although it is a field of the dictionary. -/
def undefinedTag (legal : List Tag) (_ : List Event) : Event → Option (Tag × RejectReason)
  | .unclaimed tag _ => if tag ∈ legal then some (tag, .tagNotDefinedForThisMessageType) else none
  | _ => none

/-- A field or a counter with an empty value. -/
def emptyValue (_ : List Event) : Event → Option (Tag × RejectReason)
  | .field _ slot value => if value = [] then some (slot.tag, .tagSpecifiedWithoutAValue) else none
  | .counter _ slot value => if value = [] then some (slot.tag, .tagSpecifiedWithoutAValue) else none
  | _ => none

/-- A member that an earlier pair of the same aggregate is already. -/
def repeatedTag (before : List Event) (e : Event) : Option (Tag × RejectReason) :=
  match e.claim? with
  | some (owner, tag) => if Claimed before owner tag then some (tag, .tagAppearsMoreThanOnce) else none
  | none => none

/-- A value that is malformed or not among the enumerated ones, or a group that is over and has had another
number of repetitions than its counter has declared. -/
def incorrect (_ : List Event) : Event → Option (Tag × RejectReason)
  | .field _ slot value =>
    if value = [] then none
    else if Content.ofBytes slot.kind value = .malformed then some (slot.tag, .incorrectDataFormatForValue)
    else if slot.accepts value then none
    else some (slot.tag, .valueIsIncorrect)
  | .counter _ slot value =>
    if value = [] ∨ (declaredCount? value).isSome then none
    else some (slot.tag, .incorrectDataFormatForValue)
  | .closed slot (some n) count =>
    if n = count then none else some (slot.tag, .incorrectNumInGroupCountForRepeatingGroup)
  | _ => none

mutual

/-- The tags of the required members that are not there; for a group that is there or not required, those in
its repetitions. -/
def Node.unmet : Node → List Tag
  | .field slot value => if slot.required ∧ value = .absent then [slot.tag] else []
  | .group slot present _ repetitions =>
    if slot.required ∧ present = false then [slot.tag] else unmetInAny repetitions

/-- The tags of the required members that are not there. -/
def unmet : List Node → List Tag
  | [] => []
  | n :: rest => n.unmet ++ unmet rest

/-- The same for some repetitions. -/
def unmetInAny : List (List Node) → List Tag
  | [] => []
  | ns :: rest => unmet ns ++ unmetInAny rest

end

/-- The first required member that a message does not have. -/
def missing (s : Machine) : Option (Tag × RejectReason) :=
  (unmet (s.parts .header) ++ unmet (s.parts .body) ++ unmet (s.parts .trailer)).head?.map
    (·, .requiredTagMissing)

/-- What the first of the seven checks that finds something says against a message, if any does. -/
def verdict (c : Codecs) (s : Machine) : Option (Tag × RejectReason) :=
  let legal := c.dictionary.fields.map Field.number
  [misplaced (c.header.fields.map FieldSlot.tag) s.events,
    firstOf (invalidTag legal) [] s.events,
    firstOf (undefinedTag legal) [] s.events,
    firstOf emptyValue [] s.events,
    firstOf repeatedTag [] s.events,
    firstOf incorrect [] s.events,
    missing s].findSome? id

end FixWire.Decoder
