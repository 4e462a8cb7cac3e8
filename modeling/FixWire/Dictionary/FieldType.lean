import FixWire.Text.Blank

/-!
# Field types

The types that a dictionary can give to a field, under their dictionary names, and the kind of value that
a field of each type holds.
-/

namespace FixWire

/-- The kind of value that a field holds. -/
inductive ValueKind where
  | int
  | decimal
  | char
  | bool
  | string
  | data
  | timestamp
  deriving DecidableEq, Repr

/-- The name of the kind in error texts. -/
def ValueKind.name : ValueKind → String
  | .int => "int"
  | .decimal => "decimal"
  | .char => "char"
  | .bool => "bool"
  | .string => "string"
  | .data => "data"
  | .timestamp => "timestamp"

/-- The type of a field. -/
inductive FieldType where
  | int
  | length
  | seqNum
  | numInGroup
  | dayOfMonth
  | tagNum
  | float
  | price
  | priceOffset
  | qty
  | percentage
  | amt
  | char
  | boolean
  | string
  | multipleValueString
  | multipleStringValue
  | multipleCharValue
  | currency
  | exchange
  | country
  | language
  | data
  | xmlData
  | utcTimestamp
  | utcTimeOnly
  | utcDateOnly
  | localMktDate
  | monthYear
  | tzTimeOnly
  | tzTimestamp
  | date
  | time
  deriving DecidableEq, Repr

namespace FieldType

/-- Every type. -/
def all : List FieldType :=
  [.int, .length, .seqNum, .numInGroup, .dayOfMonth, .tagNum, .float, .price, .priceOffset, .qty,
    .percentage, .amt, .char, .boolean, .string, .multipleValueString, .multipleStringValue,
    .multipleCharValue, .currency, .exchange, .country, .language, .data, .xmlData, .utcTimestamp,
    .utcTimeOnly, .utcDateOnly, .localMktDate, .monthYear, .tzTimeOnly, .tzTimestamp, .date, .time]

/-- The name of the type in dictionaries. -/
def name : FieldType → String
  | .int => "INT"
  | .length => "LENGTH"
  | .seqNum => "SEQNUM"
  | .numInGroup => "NUMINGROUP"
  | .dayOfMonth => "DAYOFMONTH"
  | .tagNum => "TAGNUM"
  | .float => "FLOAT"
  | .price => "PRICE"
  | .priceOffset => "PRICEOFFSET"
  | .qty => "QTY"
  | .percentage => "PERCENTAGE"
  | .amt => "AMT"
  | .char => "CHAR"
  | .boolean => "BOOLEAN"
  | .string => "STRING"
  | .multipleValueString => "MULTIPLEVALUESTRING"
  | .multipleStringValue => "MULTIPLESTRINGVALUE"
  | .multipleCharValue => "MULTIPLECHARVALUE"
  | .currency => "CURRENCY"
  | .exchange => "EXCHANGE"
  | .country => "COUNTRY"
  | .language => "LANGUAGE"
  | .data => "DATA"
  | .xmlData => "XMLDATA"
  | .utcTimestamp => "UTCTIMESTAMP"
  | .utcTimeOnly => "UTCTIMEONLY"
  | .utcDateOnly => "UTCDATEONLY"
  | .localMktDate => "LOCALMKTDATE"
  | .monthYear => "MONTHYEAR"
  | .tzTimeOnly => "TZTIMEONLY"
  | .tzTimestamp => "TZTIMESTAMP"
  | .date => "DATE"
  | .time => "TIME"

/-- Other names under which some types are known. -/
def aliases : List (String × FieldType) :=
  [("DAY-OF-MONTH", .dayOfMonth), ("QUANTITY", .qty), ("UTCDATE", .utcDateOnly)]

/-- The type with a name, whatever its case and whatever blanks surround it. -/
def ofName? (text : String) : Option FieldType :=
  let upper := (Text.trim text).map Char.toUpper
  (all.find? fun t => t.name == upper).or (aliases.lookup upper)

/-- A type whose values are integers. -/
def isInt : FieldType → Bool
  | .int | .length | .seqNum | .numInGroup | .dayOfMonth | .tagNum => true
  | _ => false

/-- A type whose values are decimals. -/
def isDecimal : FieldType → Bool
  | .float | .price | .priceOffset | .qty | .percentage | .amt => true
  | _ => false

/-- A type whose values are raw bytes. -/
def isData : FieldType → Bool
  | .data | .xmlData => true
  | _ => false

/-- A type whose values are lists of tokens. -/
def isMultiValue : FieldType → Bool
  | .multipleValueString | .multipleStringValue | .multipleCharValue => true
  | _ => false

/-- A type whose values are carried as text : neither numbers nor data, nor single characters. -/
def isText (t : FieldType) : Bool :=
  !t.isInt && !t.isDecimal && !t.isData && t != .char && t != .boolean

/-- The kind of value that a field of the type holds. -/
def kind (t : FieldType) : ValueKind :=
  if t.isInt then .int
  else if t.isDecimal then .decimal
  else if t.isData then .data
  else
    match t with
    | .char => .char
    | .boolean => .bool
    | .utcTimestamp => .timestamp
    | _ => .string

theorem ofName?_name (t : FieldType) : ofName? t.name = some t := by
  cases t <;> decide +kernel

end FieldType

end FixWire
