import TidySql.Clause
import TidySql.CommandLine
import TidySql.CommandLine.Arguments
import TidySql.CommandLine.Help
import TidySql.Config
import TidySql.Diff
import TidySql.Diff.Compaction
import TidySql.Diff.Script
import TidySql.Diff.Shortest
import TidySql.Equivalence
import TidySql.Error
import TidySql.Format
import TidySql.Glob.BytePattern
import TidySql.Glob.Exclude
import TidySql.Glob.Exclude.Part
import TidySql.Glob.Exclude.Reading
import TidySql.Glob.Operand
import TidySql.Glob.Wildcard
import TidySql.Keyword
import TidySql.Label
import TidySql.Layout
import TidySql.Layout.Buffer
import TidySql.Layout.Phrase
import TidySql.Layout.Separator
import TidySql.Mode
import TidySql.Mode.Table
import TidySql.Path
import TidySql.Run.Workers
import TidySql.CommandLine.Options
import TidySql.CommandLine.Outcomes
import TidySql.Proofs.Locations
import TidySql.Proofs.Contents
import TidySql.Proofs.Selected
import TidySql.Proofs.Cuts
import TidySql.Proofs.Text
import TidySql.Report
import TidySql.Run
import TidySql.Selection
import TidySql.Text.Ascii
import TidySql.Text.Blank
import TidySql.Text.Line
import TidySql.Text.Lowercase
import TidySql.Text.Quoted
import TidySql.Text.Ranges
import TidySql.Text.Unshown
import TidySql.Text.Utf8
import TidySql.Token
import TidySql.Token.Lexer
import TidySql.Token.Scan
import TidySql.Toml.Document
import TidySql.Toml.Failure
import TidySql.Toml.Number
import TidySql.Toml.Reader
import TidySql.Toml.Value
import TidySql.Tree
import TidySql.Main
import TidySql.Proofs.Reading
import TidySql.Proofs.Normal
import TidySql.Proofs.Phrasing
import TidySql.Proofs.Placement
import TidySql.Proofs.Spelling
import TidySql.Proofs.Statements
import TidySql.Proofs.RoundTrip
import TidySql.Proofs.Separation
import TidySql.Proofs.Comparison
import TidySql.Proofs.Canonical
import TidySql.Proofs.Settled
import TidySql.Proofs.Verdicts
import TidySql.Proofs.Workers
import TidySql.Proofs.Runs
import TidySql.Proofs.Options
import TidySql.Proofs.Exit
import TidySql.Proofs.Convergence
import TidySql.Proofs.StandardInput
import TidySql.Proofs.Context
import TidySql.Proofs.Bytes
import TidySql.Token.Grammar
import TidySql.Proofs.Grammar
import TidySql.Proofs.Tiling
import TidySql.Proofs.Agreement
import TidySql.Proofs.Places
import TidySql.Proofs.Margins
import TidySql.Proofs.InlineGroups
import TidySql.Proofs.ConfigFile
import TidySql.Proofs.Precedence
import TidySql.Proofs.Growth
import TidySql.Proofs.Draft
import TidySql.Proofs.Drafting
import TidySql.Proofs.PathOrder
import TidySql.Proofs.Walk
import TidySql.Proofs.Wildcards
import TidySql.Proofs.Expansion
import TidySql.Proofs.Faults
import TidySql.Proofs.Tables
import TidySql.Proofs.Components
import TidySql.Proofs.Aliases
import TidySql.Proofs.SearchOrder
import TidySql.Proofs.FirstDifference
import TidySql.Proofs.Emptiness
import TidySql.Proofs.Division
import TidySql.Proofs.Joining
import TidySql.Proofs.Difference
import TidySql.Proofs.OpenParens
import TidySql.Proofs.Bookkeeping
import TidySql.Proofs.SearchList
