import UtilityCss.Color
import UtilityCss.Compiler
import UtilityCss.Config
import UtilityCss.Config.Json
import UtilityCss.Config.Yaml
import UtilityCss.Document
import UtilityCss.InlineStyle
import UtilityCss.Json.Scan
import UtilityCss.Json.Value
import UtilityCss.Json.Writer
import UtilityCss.Listing
import UtilityCss.Media
import UtilityCss.Number.Binary64
import UtilityCss.Number.Decimal
import UtilityCss.Number.Shortest
import UtilityCss.OrderedMap
import UtilityCss.Page
import UtilityCss.Page.Containers
import UtilityCss.Page.Reactor
import UtilityCss.Page.Visibility
import UtilityCss.Resolution
import UtilityCss.Rule
import UtilityCss.RuleCache
import UtilityCss.Shortcut
import UtilityCss.Shortcut.Expansion
import UtilityCss.Tables
import UtilityCss.Text
import UtilityCss.Text.Blank
import UtilityCss.Text.Columns
import UtilityCss.Text.Columns.Combining
import UtilityCss.Text.Columns.Emoji
import UtilityCss.Token.DocumentToken
import UtilityCss.Token.ParsedToken
import UtilityCss.Token.PseudoState
import UtilityCss.Token.Shorthand
import UtilityCss.Warning
import UtilityCss.Yaml.Cursor
import UtilityCss.Yaml.Node
import UtilityCss.Yaml.Scalar
import UtilityCss.Yaml.Token
import UtilityCss.Proofs.Compiler.CyclicShortcut
import UtilityCss.Proofs.Compiler.Failures
import UtilityCss.Proofs.Compiler.NameConflict
import UtilityCss.Proofs.Compiler.Operation
import UtilityCss.Proofs.Compiler.Registration
import UtilityCss.Proofs.Compiler.SheetHistory
import UtilityCss.Proofs.Compiler.SheetOrder
import UtilityCss.Proofs.Compiler.ShortcutSheet
import UtilityCss.Proofs.Config.RoundTrip
import UtilityCss.Proofs.Declaration.Block
import UtilityCss.Proofs.Document.ClassEdits
import UtilityCss.Proofs.Document.ClassNames
import UtilityCss.Proofs.Document.Forest
import UtilityCss.Proofs.Document.Links
import UtilityCss.Proofs.Document.Operation
import UtilityCss.Proofs.Document.Preorder
import UtilityCss.Proofs.Document.Record
import UtilityCss.Proofs.Document.Skeleton
import UtilityCss.Proofs.Document.Styles
import UtilityCss.Proofs.Document.UnknownHandle
import UtilityCss.Proofs.Json.RoundTrip
import UtilityCss.Proofs.Lists
import UtilityCss.Proofs.Media.Width
import UtilityCss.Proofs.Number.Digits
import UtilityCss.Proofs.Number.WholeNumber
import UtilityCss.Proofs.OrderedMap
import UtilityCss.Proofs.Page.Accounting
import UtilityCss.Proofs.Page.AttributeOrder
import UtilityCss.Proofs.Page.AuthorClasses
import UtilityCss.Proofs.Page.Bystanders
import UtilityCss.Proofs.Page.Claims
import UtilityCss.Proofs.Page.Conditions
import UtilityCss.Proofs.Page.ContainerCalls
import UtilityCss.Proofs.Page.Deferral
import UtilityCss.Proofs.Page.DeferredQueue
import UtilityCss.Proofs.Page.Delivery
import UtilityCss.Proofs.Page.Demand
import UtilityCss.Proofs.Page.Evaluation
import UtilityCss.Proofs.Page.Event
import UtilityCss.Proofs.Page.Gating
import UtilityCss.Proofs.Page.LastClaim
import UtilityCss.Proofs.Page.Leftover
import UtilityCss.Proofs.Page.Locality
import UtilityCss.Proofs.Page.Observation
import UtilityCss.Proofs.Page.Processing
import UtilityCss.Proofs.Page.Redelivery
import UtilityCss.Proofs.Page.ResizeHistory
import UtilityCss.Proofs.Page.Round
import UtilityCss.Proofs.Page.Sighting
import UtilityCss.Proofs.Page.Standing
import UtilityCss.Proofs.Page.Start
import UtilityCss.Proofs.Page.Syncing
import UtilityCss.Proofs.Page.Turn
import UtilityCss.Proofs.Page.UnknownHandle
import UtilityCss.Proofs.Page.Viewport
import UtilityCss.Proofs.Page.VisibleClass
import UtilityCss.Proofs.Page.Visit
import UtilityCss.Proofs.Resolution.Cut
import UtilityCss.Proofs.Resolution.PlainNumber
import UtilityCss.Proofs.Resolution.Transform
import UtilityCss.Proofs.Rule.AtRules
import UtilityCss.Proofs.Rule.Declarations
import UtilityCss.Proofs.Rule.DocumentToken
import UtilityCss.Proofs.Rule.Gating
import UtilityCss.Proofs.Rule.Importance
import UtilityCss.Proofs.Rule.Reading
import UtilityCss.Proofs.Rule.Responsive
import UtilityCss.Proofs.Rule.Scale
import UtilityCss.Proofs.Rule.UnknownPrefix
import UtilityCss.Proofs.Rule.ZeroSpecificity
import UtilityCss.Proofs.RuleCache.Injection
import UtilityCss.Proofs.Selector.Escape
import UtilityCss.Proofs.Shortcut.Bucket
import UtilityCss.Proofs.Shortcut.Cascade
import UtilityCss.Proofs.Shortcut.DocumentToken
import UtilityCss.Proofs.Shortcut.Expansion
import UtilityCss.Proofs.Shortcut.Graph
import UtilityCss.Proofs.Shortcut.Grouping
import UtilityCss.Proofs.Shortcut.InlineStyle
import UtilityCss.Proofs.Shortcut.Layout
import UtilityCss.Proofs.Shortcut.Locality
import UtilityCss.Proofs.Shortcut.Registration
import UtilityCss.Proofs.Text.Split
import UtilityCss.Proofs.Text.Trim
import UtilityCss.Proofs.Token.Canonical
import UtilityCss.Proofs.Token.DocumentToken
import UtilityCss.Proofs.Token.Expansion
import UtilityCss.Proofs.Token.Importance
import UtilityCss.Proofs.Token.Shorthand
import UtilityCss.Proofs.Token.Stem
import UtilityCss.Proofs.Token.Walk
