import ApiForge.Artifact.Definition
import ApiForge.Artifact.Generate
import ApiForge.Artifact.LookUp
import ApiForge.Artifact.Operation
import ApiForge.Artifact.Requirement
import ApiForge.Artifact.Security
import ApiForge.Artifact.Server
import ApiForge.Artifact.Settings
import ApiForge.Artifact.Types
import ApiForge.Artifact.Webhooks
import ApiForge.Auth.Credential
import ApiForge.Auth.Evaluate
import ApiForge.Calendar
import ApiForge.Cli.Arguments
import ApiForge.Cli.Event
import ApiForge.Cli.FilePath
import ApiForge.Cli.Folder
import ApiForge.Cli.Help
import ApiForge.Cli.Report
import ApiForge.Cli.Run
import ApiForge.Document.Basic
import ApiForge.Document.Canonical
import ApiForge.Document.FileName
import ApiForge.Document.Item
import ApiForge.Document.Read
import ApiForge.Document.Schema
import ApiForge.Http.Path
import ApiForge.Http.Problem
import ApiForge.Http.Request
import ApiForge.Http.Response
import ApiForge.Http.Uri
import ApiForge.Identifier
import ApiForge.Json.Number
import ApiForge.Json.Printer
import ApiForge.Json.Text
import ApiForge.Json.Value
import ApiForge.Log.Filter
import ApiForge.Log.Pattern
import ApiForge.Log.Record
import ApiForge.Main
import ApiForge.Numeric.Binary
import ApiForge.Numeric.FloatText
import ApiForge.Numeric.IntegerText
import ApiForge.Numeric.Shortest
import ApiForge.Petstore.Accounts
import ApiForge.Petstore.Pet
import ApiForge.Petstore.Service
import ApiForge.Petstore.Store
import ApiForge.Reference.Check
import ApiForge.Reference.Pointer
import ApiForge.Reference.Resolve
import ApiForge.Service.Argument
import ApiForge.Service.Call
import ApiForge.Service.Router
import ApiForge.Shape.Basic
import ApiForge.Shape.Catalog
import ApiForge.Shape.Hoist
import ApiForge.Shape.OfSchema
import ApiForge.Source.Step
import ApiForge.Table
import ApiForge.Text.Base64
import ApiForge.Text.Blank
import ApiForge.Text.Letter
import ApiForge.Text.Percent
import ApiForge.Text.Plain
import ApiForge.Text.Quoted
import ApiForge.Text.Terminal
import ApiForge.Text.Utf8
import ApiForge.Tree
import ApiForge.Verb
import ApiForge.Yaml.Cell
import ApiForge.Yaml.Node
import ApiForge.Yaml.Scalar
import ApiForge.Yaml.Tag
import ApiForge.Yaml.Token
import ApiForge.Yaml.Typing
import ApiForge.Proofs.Auth.Evaluate
import ApiForge.Proofs.Service.Mediation
import ApiForge.Proofs.Text.Split
import ApiForge.Proofs.Reference.Pointer
import ApiForge.Proofs.Reference.Chain
import ApiForge.Proofs.Document.Node
import ApiForge.Proofs.Shape.Parts
import ApiForge.Proofs.Shape.Depth
import ApiForge.Proofs.Artifact.Reached
import ApiForge.Proofs.Shape.Named
import ApiForge.Proofs.Artifact.Hoisting
import ApiForge.Proofs.Artifact.Planned
import ApiForge.Proofs.Source.Line
import ApiForge.Proofs.Artifact.Index
import ApiForge.Proofs.Artifact.Generate
import ApiForge.Proofs.Artifact.Closed
import ApiForge.Proofs.Reference.Trail
import ApiForge.Proofs.Reference.Memory
import ApiForge.Proofs.Document.Alike
import ApiForge.Proofs.Document.Canonical
import ApiForge.Proofs.Reference.Check
import ApiForge.Proofs.Document.Paired
import ApiForge.Proofs.Reference.Paired
import ApiForge.Proofs.Shape.Merge
import ApiForge.Proofs.Shape.Paired
import ApiForge.Proofs.Artifact.Paired
import ApiForge.Proofs.Artifact.Unread
import ApiForge.Proofs.Outcome
import ApiForge.Proofs.Text.Quoted
import ApiForge.Proofs.Source.Form
import ApiForge.Proofs.Document.Ordered
import ApiForge.Proofs.Artifact.Offers
import ApiForge.Proofs.Artifact.Turns
import ApiForge.Proofs.Artifact.FirstCome
import ApiForge.Proofs.Artifact.Requirement
import ApiForge.Proofs.Artifact.Routes
import ApiForge.Proofs.Acyclic
import ApiForge.Proofs.Shape.Cycle
import ApiForge.Proofs.Shape.Catalog
import ApiForge.Proofs.Artifact.Size
import ApiForge.Proofs.Artifact.Shadow
import ApiForge.Proofs.Document.Terse
import ApiForge.Proofs.Shape.Terse
import ApiForge.Proofs.Source.Code
import ApiForge.Proofs.Artifact.Terse
import ApiForge.Proofs.Artifact.Prose
import ApiForge.Proofs.Petstore.Shelf
import ApiForge.Proofs.Petstore.Routing
import ApiForge.Proofs.Petstore.Authority
import ApiForge.Proofs.Petstore.Ledger
import ApiForge.Proofs.Petstore.Body
import ApiForge.Proofs.Petstore.Described
import ApiForge.Proofs.Petstore.Inquiry
import ApiForge.Proofs.Petstore.Interleaving
import ApiForge.Proofs.Document.Grown
import ApiForge.Proofs.Shape.Grown
import ApiForge.Proofs.Shape.GrownCatalog
import ApiForge.Proofs.Artifact.Carried
import ApiForge.Proofs.Artifact.Beside
import ApiForge.Proofs.Source.Depth
import ApiForge.Proofs.Artifact.Local
import ApiForge.Proofs.Text.Utf8
import ApiForge.Proofs.Text.Percent
import ApiForge.Proofs.Http.Path
import ApiForge.Proofs.Service.Building
import ApiForge.Proofs.Service.Precedence
import ApiForge.Proofs.Shape.Members
import ApiForge.Proofs.Artifact.Twice
import ApiForge.Proofs.Table
import ApiForge.Proofs.Document.TypeNames
import ApiForge.Proofs.Reference.Address
import ApiForge.Proofs.Shape.Kinds
import ApiForge.Proofs.Shape.Visits
import ApiForge.Proofs.Artifact.Inherited
import ApiForge.Proofs.Service.Query
import ApiForge.Proofs.Identifier.Words
import ApiForge.Proofs.Artifact.Sections
import ApiForge.Proofs.Artifact.Fields
import ApiForge.Proofs.Json.Form
import ApiForge.Proofs.Json.Scan
import ApiForge.Proofs.Json.Keys
import ApiForge.Proofs.Json.Printed
import ApiForge.Proofs.Numeric.IntegerText
import ApiForge.Proofs.Artifact.StatusKey
import ApiForge.Proofs.Artifact.Answers
import ApiForge.Proofs.Text.Ascii
import ApiForge.Proofs.Text.Trim
import ApiForge.Proofs.Text.Base64
import ApiForge.Proofs.Http.Header
import ApiForge.Proofs.Auth.Credential
import ApiForge.Proofs.Auth.Basic
import ApiForge.Proofs.Auth.Cookie
import ApiForge.Proofs.Identifier.Tokens
import ApiForge.Proofs.Identifier.Legal
import ApiForge.Proofs.Identifier.Cuts
import ApiForge.Proofs.Document.MediaType
import ApiForge.Proofs.Document.Reading
import ApiForge.Proofs.Document.Record
import ApiForge.Proofs.Document.TypeField
import ApiForge.Proofs.Document.PropertyOrder
import ApiForge.Proofs.Shape.Described
import ApiForge.Proofs.Identifier.Stable
import ApiForge.Proofs.Calendar
import ApiForge.Proofs.Source.Comment
import ApiForge.Proofs.Yaml.Places
import ApiForge.Proofs.Yaml.Shared
import ApiForge.Proofs.Yaml.Parsed
import ApiForge.Proofs.Yaml.Leaf
import ApiForge.Proofs.Yaml.Lexed
import ApiForge.Proofs.Yaml.Number
import ApiForge.Proofs.Yaml.Stream
import ApiForge.Proofs.Document.Twin
import ApiForge.Proofs.Document.Mirror
import ApiForge.Proofs.Document.Syntaxes
import ApiForge.Proofs.Service.Dispatch
import ApiForge.Proofs.Text.Writing
import ApiForge.Proofs.Shape.Walk
import ApiForge.Proofs.Artifact.Queue
