/-!
# Reject reasons

The reasons of the field SessionRejectReason (373) that the checks of a decoder can give, with their
codes and names.
-/

namespace FixWire

/-- Why a message is rejected. -/
inductive RejectReason where
  /-- The tag is no field of the dictionary. -/
  | invalidTagNumber
  /-- A required field is absent. -/
  | requiredTagMissing
  /-- A field of the dictionary that the message does not have. -/
  | tagNotDefinedForThisMessageType
  /-- A field without a value. -/
  | tagSpecifiedWithoutAValue
  /-- The value is none of the enumerated ones. -/
  | valueIsIncorrect
  /-- The value cannot be read as the type of the field. -/
  | incorrectDataFormatForValue
  /-- A tag occurs twice in one aggregate. -/
  | tagAppearsMoreThanOnce
  /-- The first fields of the header are not in their order. -/
  | tagSpecifiedOutOfRequiredOrder
  /-- The counter of a group disagrees with its repetitions. -/
  | incorrectNumInGroupCountForRepeatingGroup
  deriving DecidableEq, Repr

namespace RejectReason

/-- Every reason. -/
def all : List RejectReason :=
  [.invalidTagNumber, .requiredTagMissing, .tagNotDefinedForThisMessageType,
    .tagSpecifiedWithoutAValue, .valueIsIncorrect, .incorrectDataFormatForValue,
    .tagAppearsMoreThanOnce, .tagSpecifiedOutOfRequiredOrder,
    .incorrectNumInGroupCountForRepeatingGroup]

/-- The code of the reason. -/
def code : RejectReason → Int
  | .invalidTagNumber => 0
  | .requiredTagMissing => 1
  | .tagNotDefinedForThisMessageType => 2
  | .tagSpecifiedWithoutAValue => 4
  | .valueIsIncorrect => 5
  | .incorrectDataFormatForValue => 6
  | .tagAppearsMoreThanOnce => 13
  | .tagSpecifiedOutOfRequiredOrder => 14
  | .incorrectNumInGroupCountForRepeatingGroup => 16

/-- The reason with the code. -/
def ofCode? (code : Int) : Option RejectReason :=
  all.find? fun reason => reason.code == code

/-- The name of the reason. -/
def name : RejectReason → String
  | .invalidTagNumber => "INVALID_TAG_NUMBER"
  | .requiredTagMissing => "REQUIRED_TAG_MISSING"
  | .tagNotDefinedForThisMessageType => "TAG_NOT_DEFINED_FOR_THIS_MESSAGE_TYPE"
  | .tagSpecifiedWithoutAValue => "TAG_SPECIFIED_WITHOUT_A_VALUE"
  | .valueIsIncorrect => "VALUE_IS_INCORRECT"
  | .incorrectDataFormatForValue => "INCORRECT_DATA_FORMAT_FOR_VALUE"
  | .tagAppearsMoreThanOnce => "TAG_APPEARS_MORE_THAN_ONCE"
  | .tagSpecifiedOutOfRequiredOrder => "TAG_SPECIFIED_OUT_OF_REQUIRED_ORDER"
  | .incorrectNumInGroupCountForRepeatingGroup =>
    "INCORRECT_NUM_IN_GROUP_COUNT_FOR_REPEATING_GROUP"

theorem ofCode?_code (reason : RejectReason) : ofCode? reason.code = some reason := by
  cases reason <;> rfl

end RejectReason

end FixWire
