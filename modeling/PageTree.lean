import PageTree.Main
import PageTree.Render.Fingerprint
import PageTree.Session.View
import PageTree.Tool.Workspace
import PageTree.Proofs.Markup.Escaping
import PageTree.Proofs.Markup.Outline
import PageTree.Proofs.Markup.Lexing
import PageTree.Proofs.Markup.Table
import PageTree.Proofs.Markup.Layout
import PageTree.Proofs.Render.NodeMarkup
import PageTree.Proofs.Render.PageMarkup
import PageTree.Proofs.Render.ReadBack
import PageTree.Proofs.Json.Rereading
import PageTree.Proofs.Json.Values
import PageTree.Proofs.Json.Records
import PageTree.Proofs.Style.Basic
import PageTree.Proofs.Tree.Event
import PageTree.Proofs.Tree.Motion
import PageTree.Proofs.Tree.Node
import PageTree.Proofs.Tree.Document
import PageTree.Proofs.Tree.Paths
import PageTree.Proofs.Tree.Position
import PageTree.Proofs.State.Path
import PageTree.Proofs.Edit.Packing
import PageTree.Proofs.Edit.Basic
import PageTree.Proofs.Edit.Apply
import PageTree.Proofs.Edit.Ids
import PageTree.Proofs.Markup.Change
import PageTree.Proofs.Markup.Traversal
import PageTree.Proofs.Diagnosis.Check
import PageTree.Proofs.Diagnosis.Causes
import PageTree.Proofs.Diagnosis.Reports
import PageTree.Proofs.Turn.Completion
import PageTree.Proofs.Turn.Round
import PageTree.Proofs.Tool.InPlace
import PageTree.Proofs.Tool.OutputPath
import PageTree.Proofs.Tool.Frame
import PageTree.Proofs.Session.Descent
import PageTree.Proofs.Session.Loading
import PageTree.Proofs.Session.Log
import PageTree.Proofs.Session.Stages
import PageTree.Proofs.Session.Ticks
import PageTree.Proofs.Session.Clock
import PageTree.Proofs.Session.ToastRows
import PageTree.Proofs.Session.Links
import PageTree.Proofs.Session.Toasts
import PageTree.Proofs.Session.Fetching
import PageTree.Proofs.Session.Nesting
import PageTree.Proofs.Session.Nodes
import PageTree.Proofs.Session.Dispatch
import PageTree.Proofs.Markup.InlineStyle
import PageTree.Proofs.Markup.Likeness
import PageTree.Proofs.Markup.Placement
import PageTree.Proofs.Markup.Counterpart
import PageTree.Proofs.Markup.Planting
import PageTree.Proofs.Theme.Display
import PageTree.Proofs.Render.Likeness
import PageTree.Proofs.Session.Parallel
import PageTree.Proofs.Session.ParallelCalls
import PageTree.Proofs.Session.Themes
import PageTree.Proofs.Schema.Validity
import PageTree.Proofs.Schema.Documents
import PageTree.Proofs.Schema.Edits
import PageTree.Proofs.Session.Targets
import PageTree.Proofs.Markup.Thinning
import PageTree.Proofs.Session.Addressing
import PageTree.Proofs.Json.Respelling
import PageTree.Proofs.Render.StateScript
import PageTree.Proofs.Session.StartState
import PageTree.Proofs.Session.Refreshing
import PageTree.Proofs.Session.Reshowing
import PageTree.Proofs.Session.Settling
import PageTree.Proofs.Session.Showing
import PageTree.Proofs.Session.Writes
import PageTree.Proofs.Edit.Deleting
import PageTree.Proofs.Edit.Outermost
import PageTree.Proofs.Edit.FirstMatch
import PageTree.Proofs.Edit.Splicing
import PageTree.Proofs.Edit.Updating
import PageTree.Proofs.Edit.Idle
import PageTree.Proofs.Style.Overlay
import PageTree.Proofs.Json.Members
import PageTree.Proofs.Edit.Mixing
import PageTree.Proofs.Markup.Classes
import PageTree.Proofs.Markup.StyleEdits
import PageTree.Proofs.Tree.Reread
import PageTree.Proofs.Render.Elements
import PageTree.Proofs.Render.Presets
import PageTree.Proofs.Session.Origins
import PageTree.Proofs.Session.Cues
import PageTree.Proofs.Session.Courses
import PageTree.Proofs.Session.RisingEdges
import PageTree.Proofs.Session.PlayingOnce
import PageTree.Proofs.Session.Animating
import PageTree.Proofs.Session.PresetClasses
import PageTree.Proofs.Text.Replacing
import PageTree.Proofs.Markup.Entities
import PageTree.Proofs.Markup.DocumentOrder
import PageTree.Proofs.Markup.Selection
import PageTree.Proofs.Text.Bytes
import PageTree.Proofs.Markup.TagEnd
import PageTree.Proofs.Markup.ByteReader
import PageTree.Proofs.Markup.ByteProgress
import PageTree.Proofs.Json.Grammar
import PageTree.Proofs.Turn.Classification
