import MailTemplate.Binary.Format
import MailTemplate.Binary.Shortest
import MailTemplate.Command.Basic
import MailTemplate.Command.Wire
import MailTemplate.CommandLine.Arguments
import MailTemplate.CommandLine.Folder
import MailTemplate.CommandLine.Job
import MailTemplate.CommandLine.Process
import MailTemplate.CommandLine.Report
import MailTemplate.CommandLine.Settings
import MailTemplate.Component.Kind
import MailTemplate.Component.Limits
import MailTemplate.Component.Properties
import MailTemplate.Component.Style
import MailTemplate.History
import MailTemplate.Html.Document
import MailTemplate.Html.Escape
import MailTemplate.Html.Fragment
import MailTemplate.Html.Markup
import MailTemplate.Html.Width
import MailTemplate.Json.Basic
import MailTemplate.Json.Codec
import MailTemplate.Json.Cursor
import MailTemplate.Json.Mismatch
import MailTemplate.Json.Number
import MailTemplate.Json.Printer
import MailTemplate.Json.Reader
import MailTemplate.Json.Scalar
import MailTemplate.Json.Skip
import MailTemplate.Kdl.Document
import MailTemplate.Kdl.Space
import MailTemplate.Kdl.Taken
import MailTemplate.Kdl.Value
import MailTemplate.Main
import MailTemplate.Proofs.Binary.Rounding
import MailTemplate.Proofs.Command.Agreement
import MailTemplate.Proofs.Command.Changes
import MailTemplate.Proofs.Command.Commuting
import MailTemplate.Proofs.Command.Conditions
import MailTemplate.Proofs.Command.Naming
import MailTemplate.Proofs.Command.Soundness
import MailTemplate.Proofs.Command.Wire
import MailTemplate.Proofs.CommandLine.Runs
import MailTemplate.Proofs.Component.Fields
import MailTemplate.Proofs.Component.Orderless
import MailTemplate.Proofs.Component.Patches
import MailTemplate.Proofs.Component.Patching
import MailTemplate.Proofs.Component.Records
import MailTemplate.Proofs.Fallible
import MailTemplate.Proofs.History.Eviction
import MailTemplate.Proofs.History.Timeline
import MailTemplate.Proofs.History.Walking
import MailTemplate.Proofs.Html.Entities
import MailTemplate.Proofs.Html.Escape
import MailTemplate.Proofs.Html.Layout
import MailTemplate.Proofs.Html.LineBreaks
import MailTemplate.Proofs.Html.Marks
import MailTemplate.Proofs.Html.Markup
import MailTemplate.Proofs.Html.Names
import MailTemplate.Proofs.Html.Nested
import MailTemplate.Proofs.Html.Nesting
import MailTemplate.Proofs.Html.Rendering
import MailTemplate.Proofs.Html.Scan
import MailTemplate.Proofs.Html.Shell
import MailTemplate.Proofs.Html.Sizes
import MailTemplate.Proofs.Html.Spelling
import MailTemplate.Proofs.Html.Stretches
import MailTemplate.Proofs.Html.Widths
import MailTemplate.Proofs.Json.Distinct
import MailTemplate.Proofs.Json.Fields
import MailTemplate.Proofs.Json.Layers
import MailTemplate.Proofs.Json.Literals
import MailTemplate.Proofs.Json.Merge
import MailTemplate.Proofs.Json.Orderless
import MailTemplate.Proofs.Json.Places
import MailTemplate.Proofs.Json.Printing
import MailTemplate.Proofs.Json.Reading
import MailTemplate.Proofs.Json.Reordering
import MailTemplate.Proofs.Json.Scalars
import MailTemplate.Proofs.Json.Shape
import MailTemplate.Proofs.Json.Skipping
import MailTemplate.Proofs.Json.Stops
import MailTemplate.Proofs.Session.Naming
import MailTemplate.Proofs.Session.Replay
import MailTemplate.Proofs.Session.Soundness
import MailTemplate.Proofs.Session.Timeline
import MailTemplate.Proofs.Storage.Audit
import MailTemplate.Proofs.Storage.Dependence
import MailTemplate.Proofs.Storage.Faithful
import MailTemplate.Proofs.Storage.Fallback
import MailTemplate.Proofs.Storage.FieldByField
import MailTemplate.Proofs.Storage.Filling
import MailTemplate.Proofs.Storage.Intact
import MailTemplate.Proofs.Storage.Kept
import MailTemplate.Proofs.Storage.Offsets
import MailTemplate.Proofs.Storage.Orderless
import MailTemplate.Proofs.Storage.Overlay
import MailTemplate.Proofs.Storage.OwnEntry
import MailTemplate.Proofs.Storage.Readers
import MailTemplate.Proofs.Storage.Rebuild
import MailTemplate.Proofs.Storage.Repair
import MailTemplate.Proofs.Storage.RoundTrip
import MailTemplate.Proofs.Storage.Stops
import MailTemplate.Proofs.Storage.Strict
import MailTemplate.Proofs.Storage.Verbatim
import MailTemplate.Proofs.Storage.WholeNumbers
import MailTemplate.Proofs.Storage.Written
import MailTemplate.Proofs.Tree.Adding
import MailTemplate.Proofs.Tree.Agreement
import MailTemplate.Proofs.Tree.Ancestry
import MailTemplate.Proofs.Tree.Applied
import MailTemplate.Proofs.Tree.Changes
import MailTemplate.Proofs.Tree.Circles
import MailTemplate.Proofs.Tree.Columns
import MailTemplate.Proofs.Tree.Descendants
import MailTemplate.Proofs.Tree.Editing
import MailTemplate.Proofs.Tree.Forest
import MailTemplate.Proofs.Tree.Inverses
import MailTemplate.Proofs.Tree.Listing
import MailTemplate.Proofs.Tree.Lookup
import MailTemplate.Proofs.Tree.Making
import MailTemplate.Proofs.Tree.Mapped
import MailTemplate.Proofs.Tree.Minting
import MailTemplate.Proofs.Tree.Moving
import MailTemplate.Proofs.Tree.Numbers
import MailTemplate.Proofs.Tree.Outline
import MailTemplate.Proofs.Tree.Removal
import MailTemplate.Proofs.Tree.Resizing
import MailTemplate.Proofs.Tree.Soundness
import MailTemplate.Proofs.Tree.Steps
import MailTemplate.Proofs.Tree.Traversals
import MailTemplate.Proofs.Tree.Unfolding
import MailTemplate.Proofs.Tree.Unsigned
import MailTemplate.Proofs.Tree.Updating
import MailTemplate.Proofs.Tree.Upkeep
import MailTemplate.Session
import MailTemplate.Storage.Audit
import MailTemplate.Storage.Fallback
import MailTemplate.Storage.Record
import MailTemplate.Storage.Repair
import MailTemplate.Storage.Text
import MailTemplate.Text.Numeric
import MailTemplate.Text.Printable
import MailTemplate.Text.Quoted
import MailTemplate.Text.Ranges
import MailTemplate.Tree.Basic
import MailTemplate.Tree.Edit
import MailTemplate.Tree.EditError
import MailTemplate.Tree.Rows
import MailTemplate.Tree.Traversal
import MailTemplate.Tree.Violation
