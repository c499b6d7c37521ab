import Markup.Access
import Markup.Attributes
import Markup.CallForm
import Markup.Calling
import Markup.Catalogue
import Markup.Checks.Check
import Markup.Checks.Outcome
import Markup.Checks.Report
import Markup.Checks.Tally
import Markup.Construction
import Markup.Decimal.Binary64
import Markup.Decimal.Layout
import Markup.Decimal.Shortest
import Markup.Document.Assignment
import Markup.Document.Browser
import Markup.Document.Call
import Markup.Document.Documents
import Markup.Document.Host
import Markup.Document.Memory
import Markup.Document.OuterHtml
import Markup.Document.Page
import Markup.Entries
import Markup.ErrorClass
import Markup.Fault
import Markup.Html
import Markup.Main
import Markup.Message
import Markup.Node.Edit
import Markup.Node.Visitor
import Markup.Node.Walk
import Markup.Object
import Markup.Outline
import Markup.Progression
import Markup.Proofs.Attributes
import Markup.Proofs.Attributes.Events
import Markup.Proofs.Attributes.Merging
import Markup.Proofs.Attributes.Rereading
import Markup.Proofs.Attributes.Typed
import Markup.Proofs.Checks.Accounting
import Markup.Proofs.Checks.Verdict
import Markup.Proofs.Computation
import Markup.Proofs.Construction
import Markup.Proofs.Construction.Built
import Markup.Proofs.Construction.Call
import Markup.Proofs.Construction.Callees
import Markup.Proofs.Construction.Contents
import Markup.Proofs.Construction.Described
import Markup.Proofs.Construction.Fresh
import Markup.Proofs.Construction.Objects
import Markup.Proofs.Construction.Rebuilt
import Markup.Proofs.Construction.Roles
import Markup.Proofs.Construction.Splitting
import Markup.Proofs.Document.Acting
import Markup.Proofs.Document.Agreement
import Markup.Proofs.Document.Ambient
import Markup.Proofs.Document.Apart
import Markup.Proofs.Document.Building
import Markup.Proofs.Document.Coerced
import Markup.Proofs.Document.Dispatch
import Markup.Proofs.Document.ElementTree
import Markup.Proofs.Document.Following
import Markup.Proofs.Document.InMemory
import Markup.Proofs.Document.Ledger
import Markup.Proofs.Document.Listeners
import Markup.Proofs.Document.Memory
import Markup.Proofs.Document.OnPage
import Markup.Proofs.Document.Outer
import Markup.Proofs.Document.Parts
import Markup.Proofs.Document.Recorded
import Markup.Proofs.Document.Refused
import Markup.Proofs.Document.Rejection
import Markup.Proofs.Document.Replayed
import Markup.Proofs.Document.Sketch
import Markup.Proofs.Document.Stepwise
import Markup.Proofs.Document.Strays
import Markup.Proofs.Entries
import Markup.Proofs.Entries.Overlay
import Markup.Proofs.Entries.Sorted
import Markup.Proofs.Equality
import Markup.Proofs.Node.Alike
import Markup.Proofs.Node.Change
import Markup.Proofs.Node.Copies
import Markup.Proofs.Node.Features
import Markup.Proofs.Node.Frozen
import Markup.Proofs.Node.Listed
import Markup.Proofs.Node.Lockstep
import Markup.Proofs.Node.MapLaws
import Markup.Proofs.Node.Mapping
import Markup.Proofs.Node.Moments
import Markup.Proofs.Node.Ownership
import Markup.Proofs.Node.Plan
import Markup.Proofs.Node.Reachable
import Markup.Proofs.Node.Skeleton
import Markup.Proofs.Node.Stages
import Markup.Proofs.Node.Stock
import Markup.Proofs.Node.Visits
import Markup.Proofs.Node.Walk
import Markup.Proofs.Node.Walkers
import Markup.Proofs.Node.WellMade
import Markup.Proofs.Registry
import Markup.Proofs.Registry.Creation
import Markup.Proofs.Registry.Exports
import Markup.Proofs.Registry.Members
import Markup.Proofs.Registry.Mentions
import Markup.Proofs.Selector
import Markup.Proofs.Stateful
import Markup.Proofs.Store
import Markup.Proofs.Store.Extension
import Markup.Proofs.Store.Unfolding
import Markup.Proofs.Style
import Markup.Proofs.Suite.Discovery
import Markup.Proofs.Suite.FileTree
import Markup.Proofs.Suite.Run
import Markup.Proofs.Text.Blank
import Markup.Proofs.Text.Entity
import Markup.Proofs.Text.Quoted
import Markup.Proofs.Text.Written
import Markup.Proofs.Token
import Markup.Proofs.Tree
import Markup.Proofs.Tree.Callables
import Markup.Proofs.Tree.Equality
import Markup.Proofs.Tree.InWorld
import Markup.Proofs.Tree.NormalForm
import Markup.Proofs.Tree.Outline
import Markup.Proofs.Tree.Rendered
import Markup.Proofs.Tree.Sorted
import Markup.Proofs.Tree.Summary
import Markup.Proofs.Tree.Tokens
import Markup.Rendering
import Markup.Selector
import Markup.Store
import Markup.Style
import Markup.Suite.Arguments
import Markup.Suite.Discovery
import Markup.Suite.FileTree
import Markup.Suite.Listing
import Markup.Suite.Run
import Markup.Term.Basic
import Markup.Term.Display
import Markup.Term.Equality
import Markup.Term.Items
import Markup.Term.Members
import Markup.Text.Blank
import Markup.Text.Digit
import Markup.Text.Entity
import Markup.Text.Identifier
import Markup.Text.Printable
import Markup.Text.Quoted
import Markup.Text.UpperCase
import Markup.Value
import Markup.Vocabulary
