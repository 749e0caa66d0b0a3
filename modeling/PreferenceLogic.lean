import PreferenceLogic.CommandLine.Invocation
import PreferenceLogic.CommandLine.Option
import PreferenceLogic.CommandLine.Run
import PreferenceLogic.Comparison
import PreferenceLogic.Config.Basic
import PreferenceLogic.Config.Document
import PreferenceLogic.Console
import PreferenceLogic.Degree
import PreferenceLogic.Feasibility
import PreferenceLogic.File.Content
import PreferenceLogic.File.Error
import PreferenceLogic.File.Read
import PreferenceLogic.File.Source
import PreferenceLogic.File.Tree
import PreferenceLogic.Formula.Basic
import PreferenceLogic.Language
import PreferenceLogic.Lookup
import PreferenceLogic.Main
import PreferenceLogic.Menu
import PreferenceLogic.Object
import PreferenceLogic.Oracle.Basic
import PreferenceLogic.Oracle.Search.Exact
import PreferenceLogic.Oracle.Search.Outcome
import PreferenceLogic.Oracle.Search.Remnant
import PreferenceLogic.Oracle.Search.Space
import PreferenceLogic.Oracle.Search.Valid
import PreferenceLogic.Oracle.Solver
import PreferenceLogic.Penalty
import PreferenceLogic.Problem.Basic
import PreferenceLogic.Problem.Error
import PreferenceLogic.Problem.Load
import PreferenceLogic.Proofs.Comparison.Optimal
import PreferenceLogic.Proofs.Comparison.Order
import PreferenceLogic.Proofs.Comparison.Outcome
import PreferenceLogic.Proofs.Dialogue
import PreferenceLogic.Proofs.Dialogue.Full
import PreferenceLogic.Proofs.Evaluation
import PreferenceLogic.Proofs.Feasibility
import PreferenceLogic.Proofs.Feasibility.Tested
import PreferenceLogic.Proofs.File.Composition
import PreferenceLogic.Proofs.File.ContentLines
import PreferenceLogic.Proofs.File.Layout
import PreferenceLogic.Proofs.File.Written
import PreferenceLogic.Proofs.Formula.Conjoined
import PreferenceLogic.Proofs.Formula.Language
import PreferenceLogic.Proofs.Formula.Meaning
import PreferenceLogic.Proofs.Menu.Machine
import PreferenceLogic.Proofs.Menu.Positions
import PreferenceLogic.Proofs.Object.Enumeration
import PreferenceLogic.Proofs.Object.Labels
import PreferenceLogic.Proofs.Object.Pinning
import PreferenceLogic.Proofs.Object.Space
import PreferenceLogic.Proofs.Oracle.Enumeration
import PreferenceLogic.Proofs.Oracle.Exhaustion
import PreferenceLogic.Proofs.Oracle.Plan
import PreferenceLogic.Proofs.Oracle.Recorded
import PreferenceLogic.Proofs.Oracle.Transcript
import PreferenceLogic.Proofs.Pointwise
import PreferenceLogic.Proofs.Problem.Checks
import PreferenceLogic.Proofs.Problem.Constraints
import PreferenceLogic.Proofs.Problem.Described
import PreferenceLogic.Proofs.Problem.Evaluation
import PreferenceLogic.Proofs.Problem.Lookups
import PreferenceLogic.Proofs.Problem.Optimal
import PreferenceLogic.Proofs.Problem.Questions
import PreferenceLogic.Proofs.Problem.Renumbered
import PreferenceLogic.Proofs.Problem.Reordered
import PreferenceLogic.Proofs.Problem.Restricted
import PreferenceLogic.Proofs.Problem.Scores
import PreferenceLogic.Proofs.Problem.Structure
import PreferenceLogic.Proofs.Report.Exemplification
import PreferenceLogic.Proofs.Report.Grid
import PreferenceLogic.Proofs.Report.Table
import PreferenceLogic.Proofs.Report.Wording
import PreferenceLogic.Proofs.Rule
import PreferenceLogic.Proofs.Rule.Choice
import PreferenceLogic.Proofs.Rule.Penalty
import PreferenceLogic.Proofs.Score.Declared
import PreferenceLogic.Proofs.Score.Degree
import PreferenceLogic.Proofs.Score.Overflow
import PreferenceLogic.Proofs.Score.Penalty
import PreferenceLogic.Proofs.Score.Questions
import PreferenceLogic.Proofs.Text.Divided
import PreferenceLogic.Proofs.Text.Joined
import PreferenceLogic.Proofs.Text.Lines
import PreferenceLogic.Proofs.Text.Numeral
import PreferenceLogic.Proofs.Text.Trim
import PreferenceLogic.Proofs.Text.Words
import PreferenceLogic.Proofs.Vocabulary
import PreferenceLogic.Proofs.Vocabulary.Alike
import PreferenceLogic.Proofs.Vocabulary.Declaration
import PreferenceLogic.Proofs.Vocabulary.Printed
import PreferenceLogic.Proofs.Vocabulary.Registration
import PreferenceLogic.Proofs.Vocabulary.Table
import PreferenceLogic.Proofs.Vocabulary.Usable
import PreferenceLogic.Random.Generator
import PreferenceLogic.Random.Keystream
import PreferenceLogic.Report
import PreferenceLogic.Rulebook
import PreferenceLogic.Text.Blank
import PreferenceLogic.Text.Decimal
import PreferenceLogic.Text.Separator
import PreferenceLogic.Text.Utf8
import PreferenceLogic.Toml.Document
import PreferenceLogic.Toml.Scalar
import PreferenceLogic.Toml.Token
import PreferenceLogic.Toml.Value
import PreferenceLogic.Vocabulary
import PreferenceLogic.Vocabulary.Table
