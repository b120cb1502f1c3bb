import LetWhile.Main
import LetWhile.Program.Text
import LetWhile.Proofs.Typing.Framing
import LetWhile.Proofs.Ty.Distinct
import LetWhile.Proofs.Typing.Rules
import LetWhile.Proofs.Typing.Adequacy
import LetWhile.Proofs.Typing.Visits
import LetWhile.Proofs.Typing.Returns
import LetWhile.Proofs.Program.Climbing
import LetWhile.Proofs.Program.Cuts
import LetWhile.Proofs.Program.Grammar
import LetWhile.Proofs.Program.Decision
import LetWhile.Proofs.Tree.Size
import LetWhile.Proofs.Outline.Size
import LetWhile.Proofs.Outline.Stage
import LetWhile.Proofs.Program.Depth
import LetWhile.Proofs.Relocation.Trees
import LetWhile.Proofs.Relocation.Outlines
import LetWhile.Proofs.Relocation.Programs
import LetWhile.Proofs.Printing.Scanning
import LetWhile.Proofs.Printing.Lexemes
import LetWhile.Proofs.Printing.Forms
import LetWhile.Proofs.Printing.Infix
import LetWhile.Proofs.Printing.Written
import LetWhile.Proofs.Printing.Outlined
import LetWhile.Proofs.Printing.Spelled
import LetWhile.Proofs.Printing.ReadBack
import LetWhile.Proofs.Scanning.Layout
import LetWhile.Proofs.Scanning.Coverage
import LetWhile.Proofs.Tree.Matching
import LetWhile.Proofs.Tree.Tokens
import LetWhile.Proofs.Scanning.Spelling
import LetWhile.Proofs.Outline.Shapes
import LetWhile.Proofs.Outline.Assembly
import LetWhile.Proofs.Relocation.Anchors
import LetWhile.Proofs.Relocation.Sources
import LetWhile.Proofs.Fault.Printed
import LetWhile.Proofs.Fault.Unclosed
import LetWhile.Proofs.Fault.Located
import LetWhile.Proofs.Outline.Drawn
import LetWhile.Proofs.Program.Drawn
import LetWhile.Proofs.Program.Nodes
import LetWhile.Proofs.Scanning.Words
import LetWhile.Proofs.Typing.Blame
import LetWhile.Proofs.Access.Basic
import LetWhile.Proofs.Access.Scanning
import LetWhile.Proofs.Access.Nesting
import LetWhile.Proofs.Access.Outlining
import LetWhile.Proofs.Access.Chains
import LetWhile.Proofs.Access.Reading
import LetWhile.Proofs.Access.Checking
import LetWhile.Proofs.Access.Report
import LetWhile.Proofs.Access.Sources
import LetWhile.Proofs.Program.Level
import LetWhile.Proofs.Program.Limit
import LetWhile.Proofs.Outline.Joined
import LetWhile.Proofs.Program.Joined
import LetWhile.Proofs.Typing.Sessions
import LetWhile.Proofs.Typing.FreeNames
import LetWhile.Proofs.Typing.Stability
import LetWhile.Proofs.Typing.Bindings
import LetWhile.Proofs.CommandLine.Answers
import LetWhile.Proofs.Scanning.Joined
import LetWhile.Proofs.Scanning.Seams
import LetWhile.Proofs.Scanning.Settled
import LetWhile.Proofs.Scanning.Rescanned
import LetWhile.Proofs.Tree.Laid
import LetWhile.Proofs.Outline.Laid
import LetWhile.Proofs.Program.Spans
import LetWhile.Proofs.Scanning.Excerpts
import LetWhile.Proofs.Tree.Depth
import LetWhile.Proofs.Tree.Edges
import LetWhile.Proofs.Outline.Slices
import LetWhile.Proofs.Program.Operations
import LetWhile.Proofs.Relocation.Nodes
import LetWhile.Proofs.Program.Excerpts
import LetWhile.Proofs.Printing.Signatures
import LetWhile.Proofs.Scanning.Commented
import LetWhile.Proofs.Program.Declarations
import LetWhile.Proofs.Printing.Telling
import LetWhile.Proofs.Printing.Leads
import LetWhile.Proofs.Printing.Unambiguous
import LetWhile.Proofs.Parser.Basic
import LetWhile.Proofs.Parser.Reading
import LetWhile.Proofs.Typing.Stage
import LetWhile.Proofs.Program.Stage
import LetWhile.Proofs.Scanning.Characters
import LetWhile.Proofs.Program.Literals
import LetWhile.Proofs.Program.Chains
import LetWhile.Proofs.Scanning.Fronts
import LetWhile.Proofs.Fault.Caret
import LetWhile.Proofs.Text.Places
import LetWhile.Proofs.Ty.Occurrences
