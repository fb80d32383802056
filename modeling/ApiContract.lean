import ApiContract.Boundary
import ApiContract.Client
import ApiContract.Command.Arguments
import ApiContract.Command.Config
import ApiContract.Command.Files
import ApiContract.Command.Run
import ApiContract.Document
import ApiContract.Endpoint.Basic
import ApiContract.Endpoint.Declaration
import ApiContract.Endpoint.Wire
import ApiContract.Identifier
import ApiContract.Json.Basic
import ApiContract.Json.Decode
import ApiContract.Json.Parse
import ApiContract.Json.Text
import ApiContract.Location
import ApiContract.Log
import ApiContract.Main
import ApiContract.Method
import ApiContract.Number.Basic
import ApiContract.Number.Binary64
import ApiContract.Number.Numeral
import ApiContract.Number.Shortest
import ApiContract.Proofs.Client.Binding
import ApiContract.Proofs.Client.Flavors
import ApiContract.Proofs.Client.Generation
import ApiContract.Proofs.Command.Loading
import ApiContract.Proofs.Command.Output
import ApiContract.Proofs.Command.Validation
import ApiContract.Proofs.Command.Writing
import ApiContract.Proofs.Endpoint.Reload
import ApiContract.Proofs.Endpoint.Slot
import ApiContract.Proofs.Except
import ApiContract.Proofs.Json.Order
import ApiContract.Proofs.Json.StringBody
import ApiContract.Proofs.Json.Structure
import ApiContract.Proofs.Lists
import ApiContract.Proofs.Location
import ApiContract.Proofs.Number.Nearest
import ApiContract.Proofs.Number.ReadBack
import ApiContract.Proofs.Number.Rounding
import ApiContract.Proofs.Number.Sameness
import ApiContract.Proofs.PropertyName
import ApiContract.Proofs.Schema.Absence
import ApiContract.Proofs.Schema.Acceptance
import ApiContract.Proofs.Schema.Bare
import ApiContract.Proofs.Schema.Calls
import ApiContract.Proofs.Schema.Combinators
import ApiContract.Proofs.Schema.Culprit
import ApiContract.Proofs.Schema.DeclaredNames
import ApiContract.Proofs.Schema.Erasure
import ApiContract.Proofs.Schema.FirstFailure
import ApiContract.Proofs.Schema.Footprint
import ApiContract.Proofs.Schema.MetaKeys
import ApiContract.Proofs.Schema.Naming
import ApiContract.Proofs.Schema.Outcome
import ApiContract.Proofs.Schema.Reordering
import ApiContract.Proofs.Schema.Rerooting
import ApiContract.Proofs.Schema.Spelling
import ApiContract.Proofs.Schema.Store
import ApiContract.Proofs.Schema.Strictness
import ApiContract.Proofs.Schema.Structure
import ApiContract.Proofs.Schema.Unrefined
import ApiContract.Proofs.Schema.Widening
import ApiContract.Proofs.Schema.Wire
import ApiContract.Proofs.Template.Arguments
import ApiContract.Proofs.Template.Canonical
import ApiContract.Proofs.Template.Interpolation
import ApiContract.Proofs.Template.Literal
import ApiContract.Proofs.Template.Refusal
import ApiContract.Proofs.TypeText.Grouping
import ApiContract.Proofs.TypeText.Meaning
import ApiContract.Proofs.TypeText.Phrase
import ApiContract.Proofs.TypeText.Reader
import ApiContract.Proofs.TypeText.Tokens
import ApiContract.Proofs.TypeText.Tree
import ApiContract.Schema.Basic
import ApiContract.Schema.Inspection
import ApiContract.Schema.TypeText
import ApiContract.Schema.Violation
import ApiContract.Schema.Wire
import ApiContract.Template
import ApiContract.Text.Blank
import ApiContract.Text.Quoted
import ApiContract.Text.Unprintable
import ApiContract.Yaml.Cursor
import ApiContract.Yaml.Folding
import ApiContract.Yaml.Layout
import ApiContract.Yaml.Node
import ApiContract.Yaml.Scalar
import ApiContract.Yaml.Token
import ApiContract.Yaml.Value
