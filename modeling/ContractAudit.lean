import ContractAudit.Audit
import ContractAudit.Audit.Concurrent
import ContractAudit.Audit.Log
import ContractAudit.Batch
import ContractAudit.Batch.Validation
import ContractAudit.CommandLine
import ContractAudit.CommandLine.Arguments
import ContractAudit.CommandLine.Display
import ContractAudit.CommandLine.Invocation
import ContractAudit.Contract
import ContractAudit.Contract.Body
import ContractAudit.Contract.Declaration
import ContractAudit.Contract.Error
import ContractAudit.Contract.Extract
import ContractAudit.Contract.Member
import ContractAudit.Crawl
import ContractAudit.Decimal
import ContractAudit.Decimal.Layout
import ContractAudit.Decimal.Reading
import ContractAudit.Decimal.Scientific
import ContractAudit.Decimal.Shortest
import ContractAudit.Dependency
import ContractAudit.Dependency.Cycle
import ContractAudit.Dependency.Graph
import ContractAudit.Detection
import ContractAudit.Detector
import ContractAudit.Detector.Bridge
import ContractAudit.Detector.CoLocation
import ContractAudit.Detector.OutboundCall
import ContractAudit.Detector.Registry
import ContractAudit.Detector.Signature
import ContractAudit.Digest.Sha1
import ContractAudit.Digest.Sha256
import ContractAudit.Digest.Word
import ContractAudit.FileTree
import ContractAudit.Finding
import ContractAudit.Finding.Schema
import ContractAudit.Flow
import ContractAudit.Invariant
import ContractAudit.Json
import ContractAudit.Json.Literal
import ContractAudit.Json.Reader
import ContractAudit.Json.Writer
import ContractAudit.Log
import ContractAudit.Log.Template
import ContractAudit.Main
import ContractAudit.Path
import ContractAudit.Proofs.Audit
import ContractAudit.Proofs.Audit.Concurrent
import ContractAudit.Proofs.Audit.Containment
import ContractAudit.Proofs.Audit.PartialFlow
import ContractAudit.Proofs.Batch
import ContractAudit.Proofs.Contract
import ContractAudit.Proofs.Contract.Effects
import ContractAudit.Proofs.Contract.Layout
import ContractAudit.Proofs.Contract.Ranges
import ContractAudit.Proofs.Contract.Reading
import ContractAudit.Proofs.Contract.Recovery
import ContractAudit.Proofs.Contract.StateVariable
import ContractAudit.Proofs.Contract.Syntax
import ContractAudit.Proofs.Dependency
import ContractAudit.Proofs.Dependency.Resolution
import ContractAudit.Proofs.DepthFirst
import ContractAudit.Proofs.DepthFirst.Standing
import ContractAudit.Proofs.Detection
import ContractAudit.Proofs.Detection.Independence
import ContractAudit.Proofs.Flow.CallStack
import ContractAudit.Proofs.Flow.DepthBound
import ContractAudit.Proofs.Flow.EntryPart
import ContractAudit.Proofs.Flow.Inlining
import ContractAudit.Proofs.Flow.Walk
import ContractAudit.Proofs.Parts
import ContractAudit.Proofs.Position
import ContractAudit.Proofs.Position.Body
import ContractAudit.Proofs.Position.Bracket
import ContractAudit.Proofs.Position.Call
import ContractAudit.Proofs.Position.Declaration
import ContractAudit.Proofs.Position.Extract
import ContractAudit.Proofs.Position.Member
import ContractAudit.Proofs.Reentrancy.DepthBound
import ContractAudit.Proofs.Reentrancy.Strongest
import ContractAudit.Proofs.Reentrancy.Violation
import ContractAudit.Proofs.Report
import ContractAudit.Proofs.Report.Arrival
import ContractAudit.Proofs.Report.Page
import ContractAudit.Proofs.Report.Projection
import ContractAudit.Proofs.Report.Reduction
import ContractAudit.Proofs.Signature.Callers
import ContractAudit.Proofs.Signature.Digest
import ContractAudit.Proofs.StateFlow
import ContractAudit.Proofs.Table
import ContractAudit.Proofs.Text.Joined
import ContractAudit.Proofs.Token.Layout
import ContractAudit.Proofs.Token.Nested
import ContractAudit.Proofs.Token.Order
import ContractAudit.Proofs.Token.Tiling
import ContractAudit.Reentrancy
import ContractAudit.Report
import ContractAudit.Report.Document
import ContractAudit.Report.Page
import ContractAudit.Report.Reduction
import ContractAudit.Report.Sarif
import ContractAudit.Report.Score
import ContractAudit.Schema
import ContractAudit.Settings
import ContractAudit.Settings.EnvFile
import ContractAudit.Settings.Sources
import ContractAudit.StateFlow
import ContractAudit.Table
import ContractAudit.Text.Blank
import ContractAudit.Text.Class
import ContractAudit.Text.Digit
import ContractAudit.Text.LineEnd
import ContractAudit.Text.Lower
import ContractAudit.Text.Name
import ContractAudit.Text.Numeral
import ContractAudit.Text.Order
import ContractAudit.Text.Pattern
import ContractAudit.Text.Printable
import ContractAudit.Text.Quoted
import ContractAudit.Text.Search
import ContractAudit.Text.Utf8
import ContractAudit.Text.Word
import ContractAudit.Token
import ContractAudit.Token.Bracket
import ContractAudit.Token.Lexer
import ContractAudit.Token.Render
import ContractAudit.Token.Split
import ContractAudit.TypeText
import ContractAudit.Vendored
import ContractAudit.Proofs.DepthFirst.Return
import ContractAudit.Proofs.Dependency.Cycle
import ContractAudit.Proofs.Dependency.Critical
import ContractAudit.Proofs.Contract.Events
import ContractAudit.Proofs.Dependency.LocalType
import ContractAudit.Proofs.Token.Matching
import ContractAudit.Proofs.Contract.Mutation
import ContractAudit.Proofs.Contract.Sequence
import ContractAudit.Proofs.Contract.Statement
import ContractAudit.Proofs.Contract.EvaluationOrder
import ContractAudit.Proofs.Invariant.Transfer
import ContractAudit.Proofs.OutboundCall.Condition
import ContractAudit.Proofs.OutboundCall.OwnToken
import ContractAudit.Proofs.Report.Ranking
import ContractAudit.Proofs.Flow.Target
import ContractAudit.Proofs.Vendored
import ContractAudit.Proofs.Crawl.Listing
import ContractAudit.Proofs.Crawl
import ContractAudit.Proofs.Token.Lexeme
import ContractAudit.Proofs.Token.ReadBack
import ContractAudit.Proofs.Token.Pairing
import ContractAudit.Proofs.Token.Splitting
import ContractAudit.Proofs.Report.Sarif
import ContractAudit.Proofs.Contract.Names
import ContractAudit.Proofs.Audit.Identity
import ContractAudit.Proofs.Audit.Framing
import ContractAudit.Proofs.TypeText.Syntax
import ContractAudit.Proofs.TypeText.Readers
import ContractAudit.Proofs.TypeText.ElementCall
