import XmlDraft.Building.Arguments
import XmlDraft.Building.Attributes
import XmlDraft.Building.Builder
import XmlDraft.Building.Callback
import XmlDraft.Building.Draft
import XmlDraft.Building.Loading
import XmlDraft.Building.Member
import XmlDraft.Building.Session
import XmlDraft.Building.Tour
import XmlDraft.Building.View
import XmlDraft.Command.Catalogue
import XmlDraft.Command.Failure
import XmlDraft.Command.Report
import XmlDraft.Command.Request
import XmlDraft.Command.Words
import XmlDraft.Command.Work
import XmlDraft.Export.ElementTree
import XmlDraft.Export.ObjectModel
import XmlDraft.Fault
import XmlDraft.Json.Reading
import XmlDraft.Json.Value
import XmlDraft.Json.Writing
import XmlDraft.Log
import XmlDraft.Main
import XmlDraft.Name.Grammar
import XmlDraft.Name.Qualified
import XmlDraft.Name.Uri
import XmlDraft.Number.Binary64
import XmlDraft.Number.Calendar
import XmlDraft.Number.Decimal
import XmlDraft.Number.Identifier
import XmlDraft.Number.Shortest
import XmlDraft.Proofs.Accepted
import XmlDraft.Proofs.Accepting
import XmlDraft.Proofs.Assembling
import XmlDraft.Proofs.BeforeRoot
import XmlDraft.Proofs.Binding
import XmlDraft.Proofs.Calling
import XmlDraft.Proofs.Changes
import XmlDraft.Proofs.Checks
import XmlDraft.Proofs.Closed
import XmlDraft.Proofs.Codecs
import XmlDraft.Proofs.CommandLine
import XmlDraft.Proofs.Declaring
import XmlDraft.Proofs.Delivering
import XmlDraft.Proofs.Delivery
import XmlDraft.Proofs.Doctypes
import XmlDraft.Proofs.Documents
import XmlDraft.Proofs.Editions
import XmlDraft.Proofs.Elements
import XmlDraft.Proofs.Encodings
import XmlDraft.Proofs.Ending
import XmlDraft.Proofs.Escapes
import XmlDraft.Proofs.Exports
import XmlDraft.Proofs.Failure
import XmlDraft.Proofs.Files
import XmlDraft.Proofs.FirstNodes
import XmlDraft.Proofs.Formatting
import XmlDraft.Proofs.Found
import XmlDraft.Proofs.Front
import XmlDraft.Proofs.Growing
import XmlDraft.Proofs.Handling
import XmlDraft.Proofs.Headings
import XmlDraft.Proofs.Indenting
import XmlDraft.Proofs.Inheriting
import XmlDraft.Proofs.JsonText
import XmlDraft.Proofs.Keeping
import XmlDraft.Proofs.Landing
import XmlDraft.Proofs.Layers
import XmlDraft.Proofs.Layouts
import XmlDraft.Proofs.Legible
import XmlDraft.Proofs.Levels
import XmlDraft.Proofs.Lexical
import XmlDraft.Proofs.LineEnds
import XmlDraft.Proofs.Lines
import XmlDraft.Proofs.Listings
import XmlDraft.Proofs.Looking
import XmlDraft.Proofs.Merging
import XmlDraft.Proofs.Nesting
import XmlDraft.Proofs.NormalForm
import XmlDraft.Proofs.Octets
import XmlDraft.Proofs.Openings
import XmlDraft.Proofs.Order
import XmlDraft.Proofs.Outputs
import XmlDraft.Proofs.Overriding
import XmlDraft.Proofs.Passing
import XmlDraft.Proofs.Paths
import XmlDraft.Proofs.Phases
import XmlDraft.Proofs.Pieces
import XmlDraft.Proofs.Place
import XmlDraft.Proofs.Planting
import XmlDraft.Proofs.Prefixes
import XmlDraft.Proofs.Prolog
import XmlDraft.Proofs.Reaching
import XmlDraft.Proofs.Reencoding
import XmlDraft.Proofs.Regular
import XmlDraft.Proofs.Reporting
import XmlDraft.Proofs.Rereading
import XmlDraft.Proofs.Resolving
import XmlDraft.Proofs.Restoring
import XmlDraft.Proofs.Rewriting
import XmlDraft.Proofs.RoundTrip
import XmlDraft.Proofs.Scanning
import XmlDraft.Proofs.ScopedElements
import XmlDraft.Proofs.Scoping
import XmlDraft.Proofs.Sections
import XmlDraft.Proofs.Sequences
import XmlDraft.Proofs.SettingsText
import XmlDraft.Proofs.Settling
import XmlDraft.Proofs.Simulation
import XmlDraft.Proofs.Soundness
import XmlDraft.Proofs.Spelling
import XmlDraft.Proofs.Tags
import XmlDraft.Proofs.Taking
import XmlDraft.Proofs.TopLevel
import XmlDraft.Proofs.Typed
import XmlDraft.Proofs.Unchecked
import XmlDraft.Proofs.Undivided
import XmlDraft.Proofs.Untouched
import XmlDraft.Proofs.Walking
import XmlDraft.Proofs.Ways
import XmlDraft.Proofs.Writable
import XmlDraft.Reading.Assembly
import XmlDraft.Reading.CodePage
import XmlDraft.Reading.Content
import XmlDraft.Reading.Doctype
import XmlDraft.Reading.Entity
import XmlDraft.Reading.Event
import XmlDraft.Reading.Heading
import XmlDraft.Reading.Letters
import XmlDraft.Reading.Malformed
import XmlDraft.Reading.Markup
import XmlDraft.Reading.Octets
import XmlDraft.Reading.Scan
import XmlDraft.Reading.Space
import XmlDraft.Reading.Token
import XmlDraft.Settings.Basic
import XmlDraft.Settings.Data
import XmlDraft.Storage.Basic
import XmlDraft.Storage.FilePath
import XmlDraft.Text.DecimalDigit
import XmlDraft.Text.Digits
import XmlDraft.Text.Lines
import XmlDraft.Text.Printable
import XmlDraft.Text.Quoted
import XmlDraft.Text.Utf8
import XmlDraft.Tree.Data
import XmlDraft.Tree.Forest
import XmlDraft.Tree.Node
import XmlDraft.Tree.Path
import XmlDraft.Value.Basic
import XmlDraft.Value.Signature
import XmlDraft.Value.Text
import XmlDraft.Writing.Encoding
import XmlDraft.Writing.Escape
import XmlDraft.Writing.Render

/-!
# XmlDraft

Building, reading, writing and converting XML documents, and what holds of them.
-/
