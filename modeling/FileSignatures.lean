import FileSignatures.Json.Reader
import FileSignatures.Main
import FileSignatures.Proofs.Resource.Seekable
import FileSignatures.Proofs.Database.RuleShape
import FileSignatures.Proofs.Resource.Marked
import FileSignatures.Proofs.Matching.Evaluation
import FileSignatures.Proofs.Matching.Holding
import FileSignatures.Proofs.Matching.Sources
import FileSignatures.Proofs.Matching.Verdict
import FileSignatures.Proofs.Matching.Faults
import FileSignatures.Proofs.Expression.Numerals
import FileSignatures.Proofs.Property.Acceptance
import FileSignatures.Proofs.Matching.Harmless
import FileSignatures.Proofs.Matching.Builtin
import FileSignatures.Proofs.Database.ReadingOrder
import FileSignatures.Proofs.Database.Grouping
import FileSignatures.Proofs.Database.Representation
import FileSignatures.Proofs.Number.Digits
import FileSignatures.Proofs.Database.Written
import FileSignatures.Proofs.Database.RoundTrip
import FileSignatures.Proofs.Property.Groups
import FileSignatures.Proofs.Property.Reported
import FileSignatures.Proofs.Matching.Captured
import FileSignatures.Proofs.Resource.Session
import FileSignatures.Proofs.Resource.Cursor
import FileSignatures.Proofs.Resource.FailedReads
import FileSignatures.Proofs.Matching.Outages
import FileSignatures.Proofs.Database.Continuation
import FileSignatures.Proofs.Matching.ExtraInfo
import FileSignatures.Proofs.Matching.Growth
import FileSignatures.Proofs.Database.Renumbering
import FileSignatures.Proofs.Database.Layout
import FileSignatures.Proofs.Matching.SubRuleOrder
import FileSignatures.Proofs.Database.Weights
import FileSignatures.Proofs.Expression.Grammar
import FileSignatures.Proofs.Expression.CheckedIntegers
import FileSignatures.Proofs.Expression.Exactness
import FileSignatures.Proofs.Scan.Running
import FileSignatures.Proofs.Scan.Accounting
import FileSignatures.Proofs.Expression.Syntax
import FileSignatures.Proofs.Expression.Cuts
import FileSignatures.Proofs.Expression.SyntaxFaults
import FileSignatures.Proofs.Expression.SharedSyntax
import FileSignatures.Proofs.Property.Reevaluation
import FileSignatures.Proofs.Property.Outline
import FileSignatures.Proofs.Property.Stated
import FileSignatures.Proofs.Text.EscapeItems
import FileSignatures.Proofs.Property.Rendering
import FileSignatures.Proofs.Property.StrayBrackets
import FileSignatures.Proofs.Number.Literals
import FileSignatures.Proofs.Database.Offsets
import FileSignatures.Proofs.Database.Numbers
import FileSignatures.Proofs.Template.Pieces
import FileSignatures.Proofs.Template.Integers
import FileSignatures.Proofs.Template.Widths
import FileSignatures.Proofs.Matching.CaptureWidth
import FileSignatures.Proofs.Matching.CaseFolding
import FileSignatures.Proofs.Template.ReadBack
import FileSignatures.Proofs.Matching.Counted
import FileSignatures.Proofs.Matching.Leading
import FileSignatures.Proofs.Scan.Listing
import FileSignatures.Proofs.Scan.Collecting
import FileSignatures.Proofs.Identification.ReadBack
import FileSignatures.Proofs.Toml.Strings
import FileSignatures.Proofs.Toml.Lines
import FileSignatures.Proofs.Toml.Tables
import FileSignatures.Proofs.Toml.Integers
import FileSignatures.Proofs.Settings.Stated
import FileSignatures.Proofs.Settings.ReadBack
import FileSignatures.Proofs.Matching.WordPositions
