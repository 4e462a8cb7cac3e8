import FixWire.Decoder.Content
import FixWire.FieldError
import FixWire.Layout.Basic

/-!
# Registers

A register has the value of one field for message after message. Beside the bytes it keeps what they were read as : an
integer, a decimal, and whether they are no value of the kind. Each of these is written on its own, and none is read
again from the bytes when the field is asked for.
-/

namespace FixWire.Decoder

/-- The value of a field and what it was read as. `int` is also the instant of a timestamp. -/
structure Register where
  raw : Bytes
  present : Bool
  malformed : Bool
  stamp : UInt32
  int : Int
  decimal : Decimal
  deriving DecidableEq, Repr

namespace Register

/-- A register in which nothing has been stored. -/
def new : Register where
  raw := []
  present := false
  malformed := false
  stamp := 0
  int := Integer.missing
  decimal := Decimal.missing

/-- The register as if nothing had been stored in it. -/
def reset (r : Register) : Register :=
  { r with
    raw := []
    present := false
    malformed := false
    stamp := 0
    int := Integer.missing
    decimal := Decimal.missing }

/-- Stamps the register with a cycle. -/
def mark (r : Register) (cycle : UInt32) : Register :=
  { r with stamp := cycle }

/-- Keeps the number that some bytes are, and tells whether they are a value of the kind. -/
def read (r : Register) (kind : ValueKind) (bytes : Bytes) : Register × Bool :=
  match kind with
  | .int =>
    match Integer.parse bytes with
    | some n => ({ r with int := n }, true)
    | none => (r, false)
  | .decimal =>
    match Decimal.parse bytes with
    | some d => ({ r with decimal := d }, true)
    | none => (r, false)
  | .char => (r, bytes.length == 1)
  | .bool => (r, bytes == Content.yes || bytes == Content.no)
  | .timestamp =>
    match Timestamp.parse bytes with
    | .ok n => ({ r with int := n }, true)
    | .error _ => (r, false)
  | .string | .data => (r, true)

/-- Stores a value, and tells whether it is empty or a value of the kind. -/
def decode (r : Register) (kind : ValueKind) (bytes : Bytes) : Register × Bool :=
  let blank := { r with raw := bytes, present := true, int := Integer.missing, decimal := Decimal.missing }
  let (r, parsed) := blank.read kind bytes
  let malformed := !parsed && !bytes.isEmpty
  ({ r with malformed := malformed }, !malformed)

/-! ## Asking for the field -/

/-- The register of a field that is asked for as one of the kind, none if the field is required and absent. -/
def typed (r : Register) (slot : FieldSlot) (tag : Tag) (kind : ValueKind) : Except FieldError (Option Register) :=
  if slot.kind ≠ kind then .error (.typeMismatch tag kind.name slot.kind.name)
  else if !r.present then if slot.required then .ok none else .error (.notSet tag)
  else if r.malformed then .error (.invalidValue kind.name 0)
  else .ok (some r)

/-- An integer. -/
def getInt (r : Register) (slot : FieldSlot) (tag : Tag) : Except FieldError Int :=
  (r.typed slot tag .int).map fun found => (found.map int).getD Integer.missing

/-- A decimal. -/
def getDecimal (r : Register) (slot : FieldSlot) (tag : Tag) : Except FieldError Decimal :=
  (r.typed slot tag .decimal).map fun found => (found.map decimal).getD Decimal.missing

/-- A character. -/
def getChar (r : Register) (slot : FieldSlot) (tag : Tag) : Except FieldError UInt8 :=
  (r.typed slot tag .char).map fun found => (found.bind fun r => r.raw.head?).getD 0

/-- A flag. -/
def getBool (r : Register) (slot : FieldSlot) (tag : Tag) : Except FieldError Bool :=
  (r.typed slot tag .bool).map fun found => found.any fun r => r.raw == Content.yes

/-- An instant. -/
def getTimestamp (r : Register) (slot : FieldSlot) (tag : Tag) : Except FieldError Int :=
  (r.typed slot tag .timestamp).map fun found => (found.map int).getD Integer.missing

/-- The bytes. -/
def getBytes (r : Register) (slot : FieldSlot) (tag : Tag) : Except FieldError Bytes :=
  if !r.present && !slot.required then .error (.notSet tag) else .ok r.raw

end Register

end FixWire.Decoder
