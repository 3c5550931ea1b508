import LoxLang.Main
import LoxLang.Proofs.CommandLine.Conversation
import LoxLang.Proofs.CommandLine.Files
import LoxLang.Proofs.Console.Continuation
import LoxLang.Proofs.Scopes.Flattening
import LoxLang.Proofs.Running.Uses
import LoxLang.Proofs.Lexing.Calls
import LoxLang.Proofs.Lexing.Lines
import LoxLang.Proofs.Parsing.Lookahead
import LoxLang.Proofs.Parsing.Loose
import LoxLang.Proofs.Parsing.Termination
import LoxLang.Proofs.Reporting.History
import LoxLang.Proofs.Reporting.SourceLines
import LoxLang.Proofs.Running.Variants
import LoxLang.Proofs.Scopes.Frame
import LoxLang.Proofs.Scopes.Chains
import LoxLang.Proofs.Arithmetic.Running
import LoxLang.Proofs.Running.Groupings
import LoxLang.Proofs.Decimal.Printed
