import FlowTree.Binary64
import FlowTree.Decimal.Layout
import FlowTree.Decimal.Numeral
import FlowTree.Decimal.Shortest
import FlowTree.Duration
import FlowTree.Engine.Basic
import FlowTree.Engine.Event
import FlowTree.Engine.Settings
import FlowTree.Engine.Trigger
import FlowTree.Engine.Visit
import FlowTree.Error
import FlowTree.FixedWidth
import FlowTree.Flow.Document
import FlowTree.Flow.Node
import FlowTree.Flow.Tag
import FlowTree.Json.Basic
import FlowTree.Json.Parser
import FlowTree.Json.Printer
import FlowTree.Json.Record
import FlowTree.Json.Term
import FlowTree.Operation.Change
import FlowTree.Operation.Choice
import FlowTree.Operation.Code
import FlowTree.Operation.Input
import FlowTree.Operation.Message
import FlowTree.Operation.Number
import FlowTree.Operation.Player
import FlowTree.Operation.Variable
import FlowTree.Rule.Arithmetic
import FlowTree.Rule.Condition
import FlowTree.Rule.Split
import FlowTree.Rule.Switch
import FlowTree.Run.Context
import FlowTree.Run.Pool
import FlowTree.Run.World
import FlowTree.Script.Assignment
import FlowTree.Script.Conversion
import FlowTree.Script.Display
import FlowTree.Script.Elements
import FlowTree.Script.Error
import FlowTree.Script.Eval
import FlowTree.Script.Evaluator
import FlowTree.Script.Exchange
import FlowTree.Script.Globals
import FlowTree.Script.Grammar
import FlowTree.Script.Host
import FlowTree.Script.Interpreter
import FlowTree.Script.Limits
import FlowTree.Script.Machine
import FlowTree.Script.Numeric
import FlowTree.Script.Operator
import FlowTree.Script.Pattern
import FlowTree.Script.Primitive
import FlowTree.Script.Property
import FlowTree.Script.Request
import FlowTree.Script.Sandbox
import FlowTree.Script.Syntax
import FlowTree.Script.Token
import FlowTree.Script.Value
import FlowTree.Script.Vetting
import FlowTree.Script.Worker
import FlowTree.Text.Blank
import FlowTree.Text.Ranges
import FlowTree.Text.Utf16
import FlowTree.Text.Word
import FlowTree.Toml.Basic
import FlowTree.Toml.Document
import FlowTree.Toml.Moment
import FlowTree.Toml.Number
import FlowTree.Toml.Table
import FlowTree.Toml.Text
import FlowTree.Value.Coercion
import FlowTree.Value.Reference
import FlowTree.Value.Variables
import FlowTree.Warning
import FlowTree.World.Backend
import FlowTree.World.Catalog
import FlowTree.World.EntityConfig
import FlowTree.World.Offer
import FlowTree.World.Player
import FlowTree.World.Random
import FlowTree.World.StatTemplate
import FlowTree.Proofs.Action
import FlowTree.Proofs.Operation
import FlowTree.Proofs.Perform
import FlowTree.Proofs.FailedNode
import FlowTree.Proofs.Segments
import FlowTree.Proofs.StickySplit
import FlowTree.Proofs.VisitOrder
import FlowTree.Proofs.StickyKey
import FlowTree.Proofs.SegmentReports
import FlowTree.Proofs.Binary64.Bits
import FlowTree.Proofs.Binary64.Order
import FlowTree.Proofs.Binary64.Whole
import FlowTree.Proofs.Binary64.Sum
import FlowTree.Proofs.StoredNumber
import FlowTree.Proofs.StatChange
import FlowTree.Proofs.StatRange
import FlowTree.Proofs.PlayerView
import FlowTree.Proofs.Carried
import FlowTree.Proofs.Lockstep
import FlowTree.Proofs.FreshContext
import FlowTree.Proofs.Entries
import FlowTree.Proofs.Firing
import FlowTree.Proofs.Interleaving
import FlowTree.Proofs.SharedSplit
import FlowTree.Proofs.Binary64.Integer
import FlowTree.Proofs.SharedStat
import FlowTree.Proofs.WorkerCount
import FlowTree.Proofs.Overload
import FlowTree.Proofs.Accounts
import FlowTree.Proofs.Depth
import FlowTree.Proofs.RoundTrip
import FlowTree.Proofs.Grouping
import FlowTree.Proofs.LocalNames
import FlowTree.Proofs.Ladder
import FlowTree.Proofs.Binary64.Value
import FlowTree.Proofs.Binary64.Rounding
import FlowTree.Proofs.Binary64.Nearest
import FlowTree.Proofs.Binary64.Total
import FlowTree.Proofs.DominantSplit
import FlowTree.Proofs.Binary64.Ratio
import FlowTree.Proofs.Decimal.Numeral
import FlowTree.Proofs.Decimal.Layout
import FlowTree.Proofs.Decimal.Notation
import FlowTree.Proofs.NumberText
import FlowTree.Proofs.Coercion
import FlowTree.Proofs.Operand
import FlowTree.Proofs.SwitchCase
import FlowTree.Proofs.NumberOrder
import FlowTree.Proofs.ConfigSlot
import FlowTree.Proofs.AppliedChange
import FlowTree.Proofs.Binary64.Sign
import FlowTree.Proofs.Binary64.NextWhole
import FlowTree.Proofs.Binary64.HalfEven
import FlowTree.Proofs.Binary64.Scaling
import FlowTree.Proofs.RoundedAgain
import FlowTree.Proofs.ContextData
import FlowTree.Proofs.Lending
import FlowTree.Proofs.PatternMatch
import FlowTree.Proofs.VettedSource
import FlowTree.Proofs.Binary64.SignedOrder
import FlowTree.Proofs.Binary64.NearestInteger
import FlowTree.Proofs.Binary64.Int64
import FlowTree.Proofs.IntegerDraw
import FlowTree.Proofs.LoopLimit
