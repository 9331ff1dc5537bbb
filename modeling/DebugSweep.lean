import DebugSweep.Clear.Files
import DebugSweep.Clear.Lines
import DebugSweep.CommandLine.Arguments
import DebugSweep.CommandLine.Invocation
import DebugSweep.CommandLine.Run
import DebugSweep.Edit.Document
import DebugSweep.Edit.Expression
import DebugSweep.Edit.Insertion
import DebugSweep.Engine.Basic
import DebugSweep.Engine.Cache
import DebugSweep.Engine.Flight
import DebugSweep.Engine.Walk
import DebugSweep.Export.Fields
import DebugSweep.Export.Tree
import DebugSweep.Fault
import DebugSweep.Files.Disk
import DebugSweep.Files.Load
import DebugSweep.Files.Source
import DebugSweep.Finding
import DebugSweep.Glob
import DebugSweep.Guard
import DebugSweep.Journal.Log
import DebugSweep.Journal.Metadata
import DebugSweep.Json.Reader
import DebugSweep.Json.Writer
import DebugSweep.Lexis.Brackets
import DebugSweep.Lexis.Classes
import DebugSweep.Lexis.Code
import DebugSweep.Lexis.Kind
import DebugSweep.Lexis.Pattern
import DebugSweep.Lexis.Segment
import DebugSweep.Lexis.Terminator
import DebugSweep.Main
import DebugSweep.Number.Binary64
import DebugSweep.Number.Shortest
import DebugSweep.Number.Whole
import DebugSweep.Path.Resolve
import DebugSweep.Path.Written
import DebugSweep.Proofs.Accesses
import DebugSweep.Proofs.AcrossLines
import DebugSweep.Proofs.Additions
import DebugSweep.Proofs.Anchors
import DebugSweep.Proofs.Atomicity
import DebugSweep.Proofs.Balance
import DebugSweep.Proofs.Batches
import DebugSweep.Proofs.Boundaries
import DebugSweep.Proofs.Braces
import DebugSweep.Proofs.Caching
import DebugSweep.Proofs.Calendar
import DebugSweep.Proofs.ClearedFiles
import DebugSweep.Proofs.Clearing
import DebugSweep.Proofs.Confinement
import DebugSweep.Proofs.Convergence
import DebugSweep.Proofs.Covering
import DebugSweep.Proofs.Cutting
import DebugSweep.Proofs.Debouncing
import DebugSweep.Proofs.Decimals
import DebugSweep.Proofs.Directories
import DebugSweep.Proofs.Discretion
import DebugSweep.Proofs.Drafts
import DebugSweep.Proofs.DumpLines
import DebugSweep.Proofs.Dumps
import DebugSweep.Proofs.Duplicates
import DebugSweep.Proofs.Emptying
import DebugSweep.Proofs.Enclosure
import DebugSweep.Proofs.Endings
import DebugSweep.Proofs.Enumeration
import DebugSweep.Proofs.EvenCounts
import DebugSweep.Proofs.Excluding
import DebugSweep.Proofs.Expressions
import DebugSweep.Proofs.Flights
import DebugSweep.Proofs.Folding
import DebugSweep.Proofs.Frame
import DebugSweep.Proofs.Grammar
import DebugSweep.Proofs.Hitches
import DebugSweep.Proofs.Insertions
import DebugSweep.Proofs.Journaling
import DebugSweep.Proofs.Layers
import DebugSweep.Proofs.Lexemes
import DebugSweep.Proofs.Location
import DebugSweep.Proofs.Matching
import DebugSweep.Proofs.Mentions
import DebugSweep.Proofs.Nesting
import DebugSweep.Proofs.Offsets
import DebugSweep.Proofs.OneLine
import DebugSweep.Proofs.Onward
import DebugSweep.Proofs.Pieces
import DebugSweep.Proofs.Places
import DebugSweep.Proofs.Polling
import DebugSweep.Proofs.Protection
import DebugSweep.Proofs.Provenance
import DebugSweep.Proofs.QuietLists
import DebugSweep.Proofs.Ratings
import DebugSweep.Proofs.ReadBack
import DebugSweep.Proofs.Reading
import DebugSweep.Proofs.Recall
import DebugSweep.Proofs.Refusals
import DebugSweep.Proofs.Reloading
import DebugSweep.Proofs.Residue
import DebugSweep.Proofs.Retention
import DebugSweep.Proofs.Rounding
import DebugSweep.Proofs.Saving
import DebugSweep.Proofs.Scanning
import DebugSweep.Proofs.Segments
import DebugSweep.Proofs.Simultaneous
import DebugSweep.Proofs.Spans
import DebugSweep.Proofs.Staging
import DebugSweep.Proofs.Stamps
import DebugSweep.Proofs.Standing
import DebugSweep.Proofs.Stores
import DebugSweep.Proofs.Tables
import DebugSweep.Proofs.Terminators
import DebugSweep.Proofs.TextLists
import DebugSweep.Proofs.TornLines
import DebugSweep.Proofs.Transparency
import DebugSweep.Proofs.Trees
import DebugSweep.Proofs.Trimming
import DebugSweep.Proofs.Upkeep
import DebugSweep.Proofs.Vigilance
import DebugSweep.Proofs.Walking
import DebugSweep.Proofs.Watching
import DebugSweep.Proofs.Ways
import DebugSweep.Proofs.Wildcards
import DebugSweep.Proofs.Windows
import DebugSweep.Scan
import DebugSweep.ScanResult
import DebugSweep.Server.Basic
import DebugSweep.Server.Registry
import DebugSweep.Server.Requests
import DebugSweep.Server.Tools
import DebugSweep.Settings.Basic
import DebugSweep.Settings.Merge
import DebugSweep.Store.Bookmarks
import DebugSweep.Store.Excludes
import DebugSweep.Store.ListFile
import DebugSweep.Text.Blank
import DebugSweep.Text.Case
import DebugSweep.Text.Digit
import DebugSweep.Text.Hex
import DebugSweep.Text.Lines
import DebugSweep.Text.Printable
import DebugSweep.Text.Quoted
import DebugSweep.Text.Range
import DebugSweep.Text.Slice
import DebugSweep.Text.Utf8
import DebugSweep.Text.Word
import DebugSweep.Time
import DebugSweep.Toml.Reader
import DebugSweep.Toml.Scalar
import DebugSweep.Value
import DebugSweep.Watch
import DebugSweep.Watch.Loop
