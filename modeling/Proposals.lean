import Proposals.Abi.Arguments
import Proposals.Abi.Coder
import Proposals.Abi.Decoding
import Proposals.Abi.Document
import Proposals.Abi.Encoding
import Proposals.Abi.Signature
import Proposals.Abi.Type
import Proposals.Abi.Word
import Proposals.Action
import Proposals.Action.Document
import Proposals.Address
import Proposals.Amount
import Proposals.Codec
import Proposals.CommandLine
import Proposals.CommandLine.Argument
import Proposals.Contract
import Proposals.Date
import Proposals.Engine
import Proposals.Fault
import Proposals.Folder
import Proposals.Handler
import Proposals.Json.Printer
import Proposals.Json.Reader
import Proposals.Kind
import Proposals.Main
import Proposals.Number.Binary
import Proposals.Number.Decimal
import Proposals.Number.Integer
import Proposals.Number.Power
import Proposals.Proofs.Abi.Arguments
import Proposals.Proofs.Abi.Canonical
import Proposals.Proofs.Abi.Document
import Proposals.Proofs.Abi.FixedPoint
import Proposals.Proofs.Abi.Insensitive
import Proposals.Proofs.Abi.Layout
import Proposals.Proofs.Abi.Leaf
import Proposals.Proofs.Abi.Loss
import Proposals.Proofs.Abi.Matching
import Proposals.Proofs.Abi.Nesting
import Proposals.Proofs.Abi.Normalize
import Proposals.Proofs.Abi.Parameter
import Proposals.Proofs.Abi.Parentheses
import Proposals.Proofs.Abi.Piece
import Proposals.Proofs.Abi.Place
import Proposals.Proofs.Abi.Rendering
import Proposals.Proofs.Abi.Shape
import Proposals.Proofs.Abi.ShortForm
import Proposals.Proofs.Abi.Signature
import Proposals.Proofs.Abi.Spacing
import Proposals.Proofs.Abi.Strict
import Proposals.Proofs.Abi.Structure
import Proposals.Proofs.Abi.Type
import Proposals.Proofs.Abi.Undecoded
import Proposals.Proofs.Action.Document
import Proposals.Proofs.Action.Number
import Proposals.Proofs.Action.Reading
import Proposals.Proofs.Action.Unreported
import Proposals.Proofs.Address
import Proposals.Proofs.Amount
import Proposals.Proofs.Build
import Proposals.Proofs.Call
import Proposals.Proofs.Codec
import Proposals.Proofs.Codec.Overlap
import Proposals.Proofs.Codec.Override
import Proposals.Proofs.Codec.Stream
import Proposals.Proofs.CommandLine
import Proposals.Proofs.CommandLine.Clean
import Proposals.Proofs.CommandLine.Decode
import Proposals.Proofs.Engine.Accept
import Proposals.Proofs.Engine.Authoring
import Proposals.Proofs.Engine.CodecOrder
import Proposals.Proofs.Engine.Decompose
import Proposals.Proofs.Engine.Document
import Proposals.Proofs.Engine.Funding
import Proposals.Proofs.Engine.Interleave
import Proposals.Proofs.Engine.Isolation
import Proposals.Proofs.Engine.Normal
import Proposals.Proofs.Engine.Order
import Proposals.Proofs.Engine.Parse
import Proposals.Proofs.Engine.Regular
import Proposals.Proofs.Engine.Run
import Proposals.Proofs.Engine.Sentence
import Proposals.Proofs.Engine.Shadow
import Proposals.Proofs.Engine.Total
import Proposals.Proofs.Fault
import Proposals.Proofs.Handler.Block
import Proposals.Proofs.Handler.Build
import Proposals.Proofs.Handler.Inverse
import Proposals.Proofs.Handler.Lane
import Proposals.Proofs.Handler.Recognition
import Proposals.Proofs.Handler.Stream
import Proposals.Proofs.Json.Document
import Proposals.Proofs.Json.Text
import Proposals.Proofs.Json.Value
import Proposals.Proofs.Number.Decimal
import Proposals.Proofs.Number.Integer
import Proposals.Proofs.Number.Size
import Proposals.Proofs.Outcome
import Proposals.Proofs.Parse
import Proposals.Proofs.Registry
import Proposals.Proofs.Registry.Entries
import Proposals.Proofs.Registry.File
import Proposals.Proofs.Registry.Indexes
import Proposals.Proofs.Registry.Overlay
import Proposals.Proofs.Report
import Proposals.Proofs.Report.Fault
import Proposals.Proofs.Service
import Proposals.Proofs.Text.Spacing
import Proposals.Proofs.Transaction.Document
import Proposals.Proofs.Transaction.Number
import Proposals.Proofs.Transaction.Reading
import Proposals.Proofs.Transaction.Unreported
import Proposals.Proofs.Unparse
import Proposals.Proofs.Valid
import Proposals.Proofs.Wire
import Proposals.Proofs.Wire.Document
import Proposals.Proofs.Wire.Reading
import Proposals.Proofs.Written
import Proposals.Registry
import Proposals.Registry.BuiltIn
import Proposals.Registry.File
import Proposals.Registry.Query
import Proposals.Report
import Proposals.Service
import Proposals.Service.Payload
import Proposals.Service.Route
import Proposals.Settings
import Proposals.Settings.EnvFile
import Proposals.Settings.Logging
import Proposals.Summary
import Proposals.Table
import Proposals.Text.Blank
import Proposals.Text.Digit
import Proposals.Text.Hex
import Proposals.Text.Identifier
import Proposals.Text.Printable
import Proposals.Text.Quoted
import Proposals.Text.Ranges
import Proposals.Text.Uppercase
import Proposals.Text.Utf8
import Proposals.Transaction
import Proposals.Transaction.Document
import Proposals.Validation
import Proposals.Value
import Proposals.Value.Reading
import Proposals.Wire
