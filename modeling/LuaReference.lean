import LuaReference.Annotation.Kind
import LuaReference.Annotation.Line
import LuaReference.Annotation.Recorder
import LuaReference.Annotation.Scan
import LuaReference.CommandLine.Arguments
import LuaReference.CommandLine.Run
import LuaReference.CommandLine.Style
import LuaReference.Diff.Compare
import LuaReference.Diff.Edit
import LuaReference.Diff.Lines
import LuaReference.Diff.Meeting
import LuaReference.Diff.Settled
import LuaReference.Document.Generation
import LuaReference.Document.Naming
import LuaReference.Document.Page
import LuaReference.Document.Piece
import LuaReference.Document.Stub
import LuaReference.Document.Validation
import LuaReference.Entity
import LuaReference.Event
import LuaReference.Fault
import LuaReference.Files.Change
import LuaReference.Files.Directory
import LuaReference.Files.Patch
import LuaReference.Files.Tree
import LuaReference.Main
import LuaReference.Output
import LuaReference.Overlay
import LuaReference.Path
import LuaReference.Pattern.Exclusion
import LuaReference.Pattern.Expression
import LuaReference.Pattern.Lookup
import LuaReference.Pattern.Match
import LuaReference.Pattern.Token
import LuaReference.Project
import LuaReference.Registry
import LuaReference.Report
import LuaReference.Settings
import LuaReference.SettingsFile
import LuaReference.Sources
import LuaReference.Text.Basic
import LuaReference.Text.Blank
import LuaReference.Text.CaseRanges
import LuaReference.Text.HiddenRanges
import LuaReference.Text.LineEnds
import LuaReference.Text.LowerCase
import LuaReference.Text.Quoted
import LuaReference.Text.Replace
import LuaReference.Text.Utf8
import LuaReference.Toml.Reader
import LuaReference.Toml.Scalar
import LuaReference.Toml.Strings
import LuaReference.Toml.Value
import LuaReference.Proofs.Annotation.Step
import LuaReference.Proofs.Annotation.Part
import LuaReference.Proofs.Annotation.Block
import LuaReference.Proofs.Registry.WellFormed
import LuaReference.Proofs.Annotation.Invariant
import LuaReference.Proofs.Annotation.Bounds
import LuaReference.Proofs.Annotation.Calls
import LuaReference.Proofs.Text.Search
import LuaReference.Proofs.Text.Values
import LuaReference.Proofs.Text.Pieces
import LuaReference.Proofs.Path.Components
import LuaReference.Proofs.Path.Place
import LuaReference.Proofs.Printing.Line
import LuaReference.Proofs.Annotation.Acceptance
import LuaReference.Proofs.Annotation.Failure
import LuaReference.Proofs.Printing.Row
import LuaReference.Proofs.Printing.Block
import LuaReference.Proofs.Printing.Entity
import LuaReference.Proofs.Printing.Member
import LuaReference.Proofs.Printing.Source
import LuaReference.Proofs.Files.Frame
import LuaReference.Proofs.Files.Touch
import LuaReference.Proofs.Files.Operations
import LuaReference.Proofs.Files.Done
import LuaReference.Proofs.Overlay.Touches
import LuaReference.Proofs.Files.Contents
import LuaReference.Proofs.Overlay.Survival
import LuaReference.Proofs.Files.Plain
import LuaReference.Proofs.Files.Below
import LuaReference.Proofs.Files.Edits
import LuaReference.Proofs.Output.Confined
import LuaReference.Proofs.Output.Containment
import LuaReference.Proofs.Overlay.Copying
import LuaReference.Proofs.Overlay.Listing
import LuaReference.Proofs.Overlay.Shadows
import LuaReference.Proofs.Output.Fresh
import LuaReference.Proofs.CommandLine.Runs
import LuaReference.Proofs.CommandLine.Arguments
import LuaReference.Proofs.CommandLine.Batches
import LuaReference.Proofs.CommandLine.Passing
import LuaReference.Proofs.CommandLine.Written
import LuaReference.Proofs.CommandLine.Clean
import LuaReference.Proofs.Project.Loading
import LuaReference.Proofs.Project.Scanning
import LuaReference.Proofs.Annotation.Reading
import LuaReference.Proofs.Text.Lines
import LuaReference.Proofs.Annotation.Refusal
import LuaReference.Proofs.Annotation.Joined
import LuaReference.Proofs.Registry.Extension
import LuaReference.Proofs.Annotation.Accumulation
import LuaReference.Proofs.Text.Unbroken
import LuaReference.Proofs.Registry.Unbroken
import LuaReference.Proofs.Annotation.Unbroken
import LuaReference.Proofs.Project.Sources
import LuaReference.Proofs.Document.Layout
import LuaReference.Proofs.Document.Declarations
import LuaReference.Proofs.CommandLine.Comparison
import LuaReference.Proofs.Document.Parents
import LuaReference.Proofs.Files.Standing
import LuaReference.Proofs.Output.Distinct
import LuaReference.Proofs.CommandLine.Selection
import LuaReference.Proofs.CommandLine.Last
import LuaReference.Proofs.Output.Logged
import LuaReference.Proofs.CommandLine.Announced
import LuaReference.Proofs.Output.Repeating
import LuaReference.Proofs.Overlay.Repeating
import LuaReference.Proofs.CommandLine.Outcome
import LuaReference.Proofs.Registry.Spared
import LuaReference.Proofs.Document.Unrelated
import LuaReference.Proofs.Text.Cut
import LuaReference.Proofs.Document.Mentions
import LuaReference.Proofs.Files.Reach
import LuaReference.Proofs.Files.Placing
import LuaReference.Proofs.Files.Contracts
import LuaReference.Proofs.CommandLine.Interrupted
import LuaReference.Proofs.Files.Skeleton
import LuaReference.Proofs.Overlay.Steps
import LuaReference.Proofs.Overlay.Planned
import LuaReference.Proofs.Overlay.Ending
import LuaReference.Proofs.Registry.Named
import LuaReference.Proofs.Annotation.Named
import LuaReference.Proofs.Files.Arranged
import LuaReference.Proofs.Path.Order
import LuaReference.Proofs.Path.Length
import LuaReference.Proofs.Files.Slashed
import LuaReference.Proofs.Project.Walk
import LuaReference.Proofs.Project.Collected
import LuaReference.Proofs.Files.Through
import LuaReference.Proofs.Project.Kinds
import LuaReference.Proofs.Document.Validated
import LuaReference.Proofs.Annotation.NameSpace
import LuaReference.Proofs.Project.NameSpace
import LuaReference.Proofs.Text.Lower
import LuaReference.Proofs.Annotation.Comments
import LuaReference.Proofs.Annotation.Headers
import LuaReference.Proofs.Project.Beside
import LuaReference.Proofs.Registry.Entities
import LuaReference.Proofs.Annotation.Directed
import LuaReference.Proofs.Annotation.Descriptions
import LuaReference.Proofs.Annotation.Returns
import LuaReference.Proofs.Document.Titles
import LuaReference.Proofs.Text.LineEnds
import LuaReference.Proofs.Project.LineEnds
import LuaReference.Proofs.Document.Placeholder
import LuaReference.Proofs.CommandLine.Difference
import LuaReference.Proofs.Document.Unnamed
