import MidIR.Binary.Decoder
import MidIR.Binary.Error
import MidIR.Binary.File
import MidIR.Binary.LittleEndian
import MidIR.Binary.Outline
import MidIR.Binary.Record
import MidIR.Body.Basic
import MidIR.Body.Graph
import MidIR.Body.Places
import MidIR.Body.Validation
import MidIR.Constant
import MidIR.Decimal
import MidIR.Equality
import MidIR.ExceptLaws
import MidIR.Expr
import MidIR.Hashing
import MidIR.Json.Node
import MidIR.Json.Numeral
import MidIR.Json.Quoted
import MidIR.Json.Read
import MidIR.Json.Skip
import MidIR.Json.Token
import MidIR.Json.Value
import MidIR.Kind
import MidIR.Main
import MidIR.NameTable
import MidIR.Note
import MidIR.Place.Basic
import MidIR.Place.Order
import MidIR.Terminator
import MidIR.Text.Escaped
import MidIR.Text.Listing
import MidIR.Text.Render
import MidIR.Tool.Arguments
import MidIR.Tool.Directory
import MidIR.Tool.Failure
import MidIR.Tool.Note
import MidIR.Tool.Run
import MidIR.Tool.Storage
import MidIR.Ty.Basic
import MidIR.Ty.Order
import MidIR.Walk.Event
import MidIR.Walk.Rebuilder
import MidIR.Walk.Visitor
import MidIR.Proofs.Binary.Delimiting
import MidIR.Proofs.Binary.Lawful
import MidIR.Proofs.Binary.Nodes
import MidIR.Proofs.Binary.Reading
import MidIR.Proofs.Binary.RoundTrip
import MidIR.Proofs.Binary.Script
import MidIR.Proofs.Binary.Scripted
import MidIR.Proofs.Binary.Session
import MidIR.Proofs.Binary.Taking
import MidIR.Proofs.Body.Validation
import MidIR.Proofs.Delimiting
import MidIR.Proofs.Equality
import MidIR.Proofs.Hashing
import MidIR.Proofs.Json.Accepting
import MidIR.Proofs.Json.Brackets
import MidIR.Proofs.Json.Lawful
import MidIR.Proofs.Json.Nodes
import MidIR.Proofs.Json.RoundTrip
import MidIR.Proofs.Tool.Conversion
import MidIR.Proofs.Tool.Formats
import MidIR.Proofs.Walk.Contexts
import MidIR.Proofs.Walk.Rebuilding
import MidIR.Proofs.Walk.Recording
import MidIR.Proofs.Walk.Visitor
import MidIR.Proofs.Walk.Writing
import MidIR.Proofs.Walk.Shown
import MidIR.Proofs.Walk.Substitution
import MidIR.Proofs.Walk.Agreement
import MidIR.Proofs.Body.Locals
import MidIR.Proofs.Body.Rewriting
import MidIR.Body.Building
import MidIR.Proofs.Body.Building
import MidIR.Proofs.Text.Telling
import MidIR.Text.Plain
import MidIR.Proofs.Text.Types
import MidIR.Proofs.Text.Escaped
import MidIR.Proofs.Text.Constants
import MidIR.Proofs.Text.Nodes
import MidIR.Proofs.Text.Listing
import MidIR.Proofs.Order.Spelling
import MidIR.Proofs.Order.Lawful
import MidIR.Proofs.Body.Renumbering
import MidIR.Proofs.Walk.Replacement
import MidIR.Proofs.Walk.Succession
import MidIR.Proofs.Body.Reachability
import MidIR.Proofs.Json.Weighing
import MidIR.Proofs.Json.Paying
import MidIR.Proofs.Json.Storing
import MidIR.Proofs.Body.Predecessors
import MidIR.Proofs.Binary.Steps
import MidIR.Proofs.Binary.Formed
import MidIR.Proofs.Binary.Cutting
import MidIR.Proofs.Binary.Failing
import MidIR.Proofs.Bulk
import MidIR.Proofs.Binary.Bounds
import MidIR.Proofs.Binary.Lengths
import MidIR.Proofs.Walk.Constancy
import MidIR.Proofs.Walk.Chains
import MidIR.Proofs.Text.Quoting
import MidIR.Proofs.Tool.Checking
