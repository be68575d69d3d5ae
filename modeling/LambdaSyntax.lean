import LambdaSyntax.Arena.Basic
import LambdaSyntax.Arena.Builder
import LambdaSyntax.Arena.Dump
import LambdaSyntax.Arena.Traversal
import LambdaSyntax.Brackets
import LambdaSyntax.Main
import LambdaSyntax.Options
import LambdaSyntax.Program
import LambdaSyntax.Proofs.Batches
import LambdaSyntax.Proofs.CommandLine
import LambdaSyntax.Proofs.Depths
import LambdaSyntax.Proofs.Descent
import LambdaSyntax.Proofs.DotSugar
import LambdaSyntax.Proofs.EmptyGroups
import LambdaSyntax.Proofs.Extension
import LambdaSyntax.Proofs.Faults
import LambdaSyntax.Proofs.FileLines
import LambdaSyntax.Proofs.Groups
import LambdaSyntax.Proofs.Growth
import LambdaSyntax.Proofs.Juxtaposition
import LambdaSyntax.Proofs.Lexemes
import LambdaSyntax.Proofs.Messages
import LambdaSyntax.Proofs.Nesting
import LambdaSyntax.Proofs.Outline
import LambdaSyntax.Proofs.Ownership
import LambdaSyntax.Proofs.Partners
import LambdaSyntax.Proofs.Preorder
import LambdaSyntax.Proofs.ReadBack
import LambdaSyntax.Proofs.Reading
import LambdaSyntax.Proofs.ReportRows
import LambdaSyntax.Proofs.Retention
import LambdaSyntax.Proofs.Rows
import LambdaSyntax.Proofs.Runs
import LambdaSyntax.Proofs.Shifting
import LambdaSyntax.Proofs.Spacing
import LambdaSyntax.Proofs.Subterms
import LambdaSyntax.Proofs.Tree
import LambdaSyntax.Proofs.Trimming
import LambdaSyntax.Proofs.Unparse
import LambdaSyntax.Proofs.Verdicts
import LambdaSyntax.Proofs.WellFormed
import LambdaSyntax.Rejection
import LambdaSyntax.Report
import LambdaSyntax.Run
import LambdaSyntax.Scan
import LambdaSyntax.Source
import LambdaSyntax.Text.Blank
import LambdaSyntax.Text.Lines
import LambdaSyntax.Text.Quoted
import LambdaSyntax.Text.Ranges
import LambdaSyntax.Text.Unprintable
import LambdaSyntax.Token
import LambdaSyntax.Tokenization
