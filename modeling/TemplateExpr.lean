import TemplateExpr.Cache
import TemplateExpr.Code.Basic
import TemplateExpr.Code.Run
import TemplateExpr.CommandLine.Arguments
import TemplateExpr.CommandLine.Commands
import TemplateExpr.CommandLine.Program
import TemplateExpr.Evaluator
import TemplateExpr.Filter.Argument
import TemplateExpr.Filter.Builtin
import TemplateExpr.Json.Basic
import TemplateExpr.Json.Number
import TemplateExpr.Json.Reader
import TemplateExpr.Json.Writer
import TemplateExpr.Main
import TemplateExpr.Node.Compile
import TemplateExpr.Node.Printer
import TemplateExpr.Node.Source
import TemplateExpr.Operation
import TemplateExpr.Proofs.Documents.Normalisation
import TemplateExpr.Proofs.Documents.RoundTrip
import TemplateExpr.Proofs.Evaluation.Errors
import TemplateExpr.Proofs.Evaluation.Joining
import TemplateExpr.Proofs.Evaluation.Literals
import TemplateExpr.Proofs.Evaluation.Members
import TemplateExpr.Proofs.Evaluation.Qualification
import TemplateExpr.Proofs.Evaluation.Receivers
import TemplateExpr.Proofs.Evaluation.Sequence
import TemplateExpr.Proofs.Evaluation.Shadowing
import TemplateExpr.Proofs.Evaluation.Watching
import TemplateExpr.Proofs.Filters.Grouping
import TemplateExpr.Proofs.Filters.OrderBy
import TemplateExpr.Proofs.Filters.Searching
import TemplateExpr.Proofs.Filters.SliceSafety
import TemplateExpr.Proofs.Grammar.Abbreviation
import TemplateExpr.Proofs.Grammar.Failures
import TemplateExpr.Proofs.Grammar.Placement
import TemplateExpr.Proofs.Grammar.Progress
import TemplateExpr.Proofs.Operations.Equality
import TemplateExpr.Proofs.Operations.Integers
import TemplateExpr.Proofs.Operations.Products
import TemplateExpr.Proofs.Printing.Parentheses
import TemplateExpr.Proofs.Sandbox.Access
import TemplateExpr.Proofs.Sandbox.Filters
import TemplateExpr.Proofs.Sessions.Transparency
import TemplateExpr.Proofs.Writing.Assignment
import TemplateExpr.Proofs.Writing.Atomicity
import TemplateExpr.Proofs.Writing.Growth
import TemplateExpr.Session
import TemplateExpr.Text.Case
import TemplateExpr.Value.Json
import TemplateExpr.Value.Property
