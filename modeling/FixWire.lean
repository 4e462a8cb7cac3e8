import FixWire.Codecs
import FixWire.Constants
import FixWire.Proofs.Codecs.Dispatch
import FixWire.Proofs.Decoder.Stack
import FixWire.Proofs.Decoder.Fit
import FixWire.Proofs.Decoder.Fresh
import FixWire.Proofs.Decoder.Validation
import FixWire.Proofs.Decoder.Reuse
import FixWire.Proofs.Dictionary.Acyclic
import FixWire.Proofs.Dictionary.Splice
import FixWire.Proofs.Dictionary.Ways
import FixWire.Proofs.Dictionary.Fields
import FixWire.Proofs.Dictionary.Order
import FixWire.Proofs.Encoder.Framing
import FixWire.Proofs.Encoder.Use
import FixWire.Proofs.Encoder.ComputedFields
import FixWire.Proofs.Encoder.Room
import FixWire.Proofs.RoundTrip.Cells
import FixWire.Proofs.RoundTrip.Groups
import FixWire.Proofs.RoundTrip.Messages
import FixWire.Proofs.RoundTrip.Acceptance
import FixWire.Proofs.RoundTrip.Stream
import FixWire.Proofs.RoundTrip.PartByPart
import FixWire.Proofs.Decoder.Spare
import FixWire.Proofs.Decoder.Reset
import FixWire.Proofs.Decoder.Judging
import FixWire.Proofs.Decoder.Positions
import FixWire.Proofs.Decoder.Unclaimed
import FixWire.Proofs.Dictionary.Cycles
import FixWire.Proofs.Dictionary.NormalForm
import FixWire.Proofs.Dictionary.WellFormed
import FixWire.Proofs.Layout.Flattening
import FixWire.Proofs.Codecs.MessageType
import FixWire.Proofs.Decoder.Unusable
import FixWire.Proofs.Decoder.Segments
import FixWire.Proofs.Decoder.Cycles
import FixWire.Proofs.Codecs.UnusableTags
import FixWire.Proofs.Encoder.Operations
import FixWire.Proofs.Encoder.Spare
import FixWire.Proofs.Encoder.Reset
import FixWire.Proofs.Encoder.Refusals
import FixWire.Number.Digitwise
import FixWire.Proofs.Number.Literals
import FixWire.Proofs.Number.Written
import FixWire.Proofs.Text.Utf8
import FixWire.Proofs.Time.Calendar
import FixWire.Proofs.Time.WireFormat
import FixWire.Time.Columns
import FixWire.Decoder.Register
import FixWire.Proofs.Time.Columns
import FixWire.Proofs.Decoder.Timestamps
import FixWire.Proofs.Decoder.Throughout
import FixWire.Codecs.TypeIndex
import FixWire.Proofs.Decoder.Getters
import FixWire.Proofs.Codecs.Lookup
import FixWire.Number.Stepwise
import FixWire.Proofs.Number.Integers
import FixWire.Encoder.Calls
import FixWire.Proofs.Encoder.AppendOnly
import FixWire.Proofs.Text.Identifier
import FixWire.Proofs.Constants.Clashes
import FixWire.Proofs.Xml.Escaping
import FixWire.Proofs.Decoder.Enumerated
