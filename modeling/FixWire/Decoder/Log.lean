import FixWire.Bytes
import FixWire.RejectReason

/-!
# Faults and verdicts

While a message is read, what is wrong with it is logged in order. Afterwards the log is judged : the order
of the header comes first, then tags that are no fields, tags that the message does not have, empty values,
repeated tags, and wrong values or counts; required members that are missing come last. Of several faults
of one sort the first one counts.
-/

namespace FixWire.Decoder

/-- Something that is wrong with a message. -/
inductive Fault where
  /-- No open aggregate has the tag, and neither has the dictionary. -/
  | invalidTag (tag : Tag)
  /-- No open aggregate has the tag, although the dictionary has it. -/
  | undefinedTag (tag : Tag)
  /-- The tag has an empty value. -/
  | emptyValue (tag : Tag)
  /-- The tag appears for the second time in its aggregate. -/
  | duplicate (tag : Tag)
  /-- The value of the tag, or the number of repetitions that it gives, is wrong. -/
  | incorrect (tag : Tag) (reason : RejectReason)
  deriving DecidableEq, Repr

/-- A verdict : the reason why a message is rejected, with its tag, if there is one. -/
structure Outcome where
  failure : Option (Tag × RejectReason)
  deriving DecidableEq, Repr

namespace Outcome

/-- The verdict on a message with which nothing is wrong, or which has not been judged. -/
def valid : Outcome := ⟨none⟩

/-- Whether nothing is wrong. -/
def isValid (o : Outcome) : Bool :=
  o.failure.isNone

/-- The number that stands for no tag and for no reason. -/
def noError : Int := -1

/-- The largest number of 32 bits with a sign. -/
def largestTag : Tag := 0x7fffffff

/-- The tag of the reason as a signed 32-bit number, of which the largest stands for larger tags. -/
def invalidTag (o : Outcome) : Int :=
  match o.failure with
  | some (tag, _) => if tag ≤ largestTag then tag else largestTag
  | none => noError

/-- The reason. -/
def reason? (o : Outcome) : Option RejectReason :=
  o.failure.map Prod.snd

/-- The code of the reason. -/
def code (o : Outcome) : Int :=
  (o.reason?.map RejectReason.code).getD noError

end Outcome

/-- What is known about a message that has been read : the tags that were handled outside groups, and the
faults, both in order. Faults are logged only where they are going to be judged. -/
structure Log where
  enabled : Bool
  seen : List Tag
  faults : List Fault
  deriving DecidableEq, Repr

namespace Log

/-- A log with nothing in it. -/
def empty (enabled : Bool) : Log := ⟨enabled, [], []⟩

/-- Logs a tag that is handled outside groups. -/
def see (l : Log) (tag : Tag) : Log :=
  { l with seen := l.seen ++ [tag] }

/-- Logs some faults. -/
def add (l : Log) (faults : List Fault) : Log :=
  if l.enabled then { l with faults := l.faults ++ faults } else l

/-- The first tag that should have come first, second and so on, but where another tag came. -/
def misplaced? (order seen : List Tag) : Option Tag :=
  ((seen.zip order).find? fun (actual, expected) => actual != expected).map Prod.snd

/-- The reason to reject a message that the log gives. `order` are the tags with which it has to start. -/
def failure? (l : Log) (order : List Tag) : Option (Tag × RejectReason) :=
  ((misplaced? order l.seen).map (·, .tagSpecifiedOutOfRequiredOrder)).or <|
    (l.faults.findSome? fun
      | .invalidTag tag => some (tag, .invalidTagNumber)
      | _ => none).or <|
    (l.faults.findSome? fun
      | .undefinedTag tag => some (tag, .tagNotDefinedForThisMessageType)
      | _ => none).or <|
    (l.faults.findSome? fun
      | .emptyValue tag => some (tag, .tagSpecifiedWithoutAValue)
      | _ => none).or <|
    (l.faults.findSome? fun
      | .duplicate tag => some (tag, .tagAppearsMoreThanOnce)
      | _ => none).or <|
    l.faults.findSome? fun
      | .incorrect tag reason => some (tag, reason)
      | _ => none

/-- The verdict on a message from its log and the first required member that is missing. Without logging
every message is accepted. -/
def judge (l : Log) (order : List Tag) (missing : Option Tag) : Outcome :=
  if l.enabled then ⟨(l.failure? order).or (missing.map (·, .requiredTagMissing))⟩ else .valid

end Log

end FixWire.Decoder
