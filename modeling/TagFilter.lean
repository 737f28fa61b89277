import TagFilter.Token
import TagFilter.Lexicon
import TagFilter.Cursor
import TagFilter.Cursor.Steps
import TagFilter.Diagnostic
import TagFilter.Worklist
import TagFilter.Filter.Basic
import TagFilter.Filter.Depth
import TagFilter.Filter.Refusal
import TagFilter.Filter.Reading
import TagFilter.Grammar.Fault
import TagFilter.Grammar.Rules
import TagFilter.Grammar.Steps
import TagFilter.Evaluation.Meaning
import TagFilter.Evaluation.Machine
import TagFilter.Evaluation.Selector
import TagFilter.Text.Printable
import TagFilter.Text.Quoted
import TagFilter.Text.Numeral
import TagFilter.Text.Integer
import TagFilter.Text.Template
import TagFilter.Decimal.Binary
import TagFilter.Decimal.Shortest
import TagFilter.Json.Value
import TagFilter.Json.Reader
import TagFilter.Json.Writer
import TagFilter.Json.Display
import TagFilter.Json.Equality
import TagFilter.Document.Defect
import TagFilter.Document.Nesting
import TagFilter.Document.Reading
import TagFilter.Document.Writing
import TagFilter.Document.Token
import TagFilter.Sharing.Basic
import TagFilter.Sharing.Equality
import TagFilter.Sharing.Digest
import TagFilter.Sharing.Classes
import TagFilter.Outline.Basic
import TagFilter.Outline.Picture
import TagFilter.Table
import TagFilter.Catalogue
import TagFilter.Workspace.Obstacle
import TagFilter.Workspace.Assignment
import TagFilter.Workspace.Amendment
import TagFilter.Workspace.Amended
import TagFilter.Workspace
import TagFilter.CommandLine
import TagFilter.Main
import TagFilter.Proofs.Grammar.Derivation
import TagFilter.Proofs.Grammar.Completeness
import TagFilter.Proofs.Grammar.Soundness
import TagFilter.Proofs.Grammar.Sentence
import TagFilter.Proofs.Grammar.Tally
import TagFilter.Proofs.Grammar.OneScan
import TagFilter.Proofs.Scanning.Segmentation
import TagFilter.Proofs.Scanning.Cutting
import TagFilter.Proofs.Scanning.LowerCasing
import TagFilter.Proofs.Grammar.Invariance
import TagFilter.Proofs.Evaluation.Simulation
import TagFilter.Proofs.Division.Exposure
import TagFilter.Proofs.Division.Pieces
import TagFilter.Proofs.Scanning.Coverage
import TagFilter.Proofs.Division.Verdict
import TagFilter.Proofs.Filter.Depth
import TagFilter.Proofs.Json.Strings
import TagFilter.Proofs.Json.Values
import TagFilter.Proofs.Document.RoundTrip
import TagFilter.Proofs.Grammar.EarliestFault
import TagFilter.Proofs.Scanning.Joining
import TagFilter.Proofs.Filter.Leaves
import TagFilter.Proofs.Grammar.Grafting
import TagFilter.Proofs.Filter.Substitution
import TagFilter.Proofs.Filter.Pointing
import TagFilter.Proofs.Filter.Spelling
import TagFilter.Proofs.Json.Grammar
import TagFilter.Proofs.Json.Scalars
import TagFilter.Proofs.Json.Reading
import TagFilter.Proofs.Document.Shape
import TagFilter.Proofs.Document.Acceptance
import TagFilter.Proofs.Grammar.LikeTokens
import TagFilter.Proofs.Filter.Restyling
import TagFilter.Proofs.Scanning.Words
import TagFilter.Proofs.Filter.OperatorDepth
import TagFilter.Proofs.CommandLine.Arguments
import TagFilter.Proofs.CommandLine.Agreement
import TagFilter.Proofs.Grammar.Chains
import TagFilter.Proofs.Grammar.Partners
import TagFilter.Proofs.Grammar.Sites
import TagFilter.Proofs.Filter.Redundancy
import TagFilter.Proofs.Sharing.Nodes
import TagFilter.Proofs.Sharing.Equality
import TagFilter.Proofs.Sharing.Digest
import TagFilter.Proofs.Scanning.Seam
import TagFilter.Proofs.Scanning.Stepwise
import TagFilter.Proofs.Grammar.Calls
import TagFilter.Proofs.Grammar.Termination
import TagFilter.Proofs.Evaluation.Relevance
import TagFilter.Proofs.Evaluation.Monotone
import TagFilter.Proofs.Outline.Shape
import TagFilter.Proofs.Outline.Decoding
import TagFilter.Proofs.CommandLine.Pictures
import TagFilter.Proofs.Document.Flaws
import TagFilter.Proofs.Document.Reports
import TagFilter.Proofs.Grammar.Places
import TagFilter.Proofs.Grammar.Motion
import TagFilter.Proofs.Grammar.Endless
import TagFilter.Proofs.Grammar.Stepping
import TagFilter.Proofs.Scanning.Progress
import TagFilter.Proofs.Evaluation.OneValue
import TagFilter.Proofs.Outline.Addresses
