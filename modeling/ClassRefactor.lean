import ClassRefactor.Text.Range
import ClassRefactor.Text.Line
import ClassRefactor.Text.Letter
import ClassRefactor.Code.Mode
import ClassRefactor.Code.Segment
import ClassRefactor.Tree.Class
import ClassRefactor.Layout.Basic
import ClassRefactor.Layout.Declaration
import ClassRefactor.Layout.Class
import ClassRefactor.Source.File
import ClassRefactor.Tree.Render
import ClassRefactor.Method.Mode
import ClassRefactor.Dependency.Plan
import ClassRefactor.Edit.Workspace
import ClassRefactor.Action.Offer
import ClassRefactor.Source.Cursor
import ClassRefactor.Diff.Compact
import ClassRefactor.Edit.Preview
import ClassRefactor.Glob.Match
import ClassRefactor.Toml.Document
import ClassRefactor.Config.LogFilter
import ClassRefactor.Config.Discovery
import ClassRefactor.Json.Value
import ClassRefactor.Journal.Refactor
import ClassRefactor.Check.Visit
import ClassRefactor.Command.Program
import ClassRefactor.Main
import ClassRefactor.Proofs.Code.Mask
import ClassRefactor.Proofs.Dependency.Synthesis
import ClassRefactor.Proofs.Dependency.Applicability
import ClassRefactor.Proofs.Code.Scan
import ClassRefactor.Proofs.Code.Delimiter
import ClassRefactor.Proofs.Layout.Declaration
import ClassRefactor.Proofs.Code.Segment
import ClassRefactor.Proofs.Collect
import ClassRefactor.Proofs.Layout.WellLaid
import ClassRefactor.Proofs.Layout.Callable
import ClassRefactor.Proofs.Layout.Member
import ClassRefactor.Proofs.Layout.Class
import ClassRefactor.Proofs.Source.File
import ClassRefactor.Proofs.Text.Line
import ClassRefactor.Proofs.Tree.Equality
import ClassRefactor.Proofs.Edit.Apart
import ClassRefactor.Proofs.Splice.Insert
import ClassRefactor.Proofs.Splice.Append
import ClassRefactor.Proofs.Splice.Member
import ClassRefactor.Proofs.Splice.Class
import ClassRefactor.Proofs.Action.Resolve
import ClassRefactor.Proofs.Text.Cut
import ClassRefactor.Proofs.Text.Strip
import ClassRefactor.Proofs.Action.Addition
import ClassRefactor.Proofs.Action.Convert
import ClassRefactor.Proofs.Action.Safety
import ClassRefactor.Proofs.Action.Offer
import ClassRefactor.Proofs.Action.Every
import ClassRefactor.Proofs.Source.Assignment
import ClassRefactor.Proofs.Action.ReadBack
import ClassRefactor.Proofs.Check.Findings
import ClassRefactor.Proofs.Written.Class
import ClassRefactor.Proofs.Guarded.File
import ClassRefactor.Proofs.Source.Outline
import ClassRefactor.Proofs.Splice.Difference
import ClassRefactor.Proofs.Edit.Preview
import ClassRefactor.Proofs.Convert.File
import ClassRefactor.Proofs.Method.Switch
import ClassRefactor.Proofs.Dependency.Completion
import ClassRefactor.Proofs.Dependency.Collision
import ClassRefactor.Proofs.Splice.Placed
import ClassRefactor.Proofs.Splice.Overlap
import ClassRefactor.Proofs.Edit.Joined
import ClassRefactor.Proofs.Edit.InPlace
import ClassRefactor.Proofs.Tree.Marked
import ClassRefactor.Proofs.Source.Cover
import ClassRefactor.Proofs.Comment.Types
import ClassRefactor.Proofs.Comment.Convert
import ClassRefactor.Proofs.Tree.Formatting
import ClassRefactor.Proofs.Check.Walk
import ClassRefactor.Proofs.Code.Match
import ClassRefactor.Proofs.Code.Commas
import ClassRefactor.Proofs.Bytes.Word
