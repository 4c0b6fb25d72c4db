import LoxLang.Main
import LoxLang.Proofs.Ends
import LoxLang.Proofs.Evaluation.Within
import LoxLang.Proofs.Evaluation.Moment
import LoxLang.Proofs.Evaluation.Restoration
import LoxLang.Proofs.Grammar.Language
import LoxLang.Proofs.Grammar.Reading
import LoxLang.Proofs.Grammar.Soundness.Expression
import LoxLang.Proofs.Grammar.Soundness.Statement
import LoxLang.Proofs.Grammar.Completeness.Reaching
import LoxLang.Proofs.Grammar.Completeness.Expression
import LoxLang.Proofs.Grammar.Completeness.Statement
import LoxLang.Proofs.Grammar.Recognition
import LoxLang.Proofs.Grammar.Building.Statement
import LoxLang.Proofs.Scope.Occurrence
import LoxLang.Proofs.Scope.Recording
import LoxLang.Proofs.Scope.Resolution
import LoxLang.Proofs.Scope.Declared
import LoxLang.Proofs.Store.Growth
import LoxLang.Proofs.Evaluation.Activation
import LoxLang.Proofs.Evaluation.Mirror
import LoxLang.Proofs.Evaluation.Declaring
import LoxLang.Proofs.Evaluation.Delivery
import LoxLang.Proofs.Evaluation.Located
import LoxLang.Proofs.Grammar.Names
import LoxLang.Proofs.Renaming.Alike
import LoxLang.Proofs.Renaming.Choice
import LoxLang.Proofs.Pairs
import LoxLang.Proofs.Renaming.Scope
import LoxLang.Proofs.Renaming.Resolution
import LoxLang.Proofs.Renaming.Store
import LoxLang.Proofs.Scope.Pending
import LoxLang.Proofs.Evaluation.Written
import LoxLang.Proofs.Output.Truncation
import LoxLang.Proofs.Scope.Acceptance
import LoxLang.Proofs.Renaming.Invariance
import LoxLang.Proofs.Program.Join
import LoxLang.Proofs.Token.Longest
import LoxLang.Proofs.Program.Layout
import LoxLang.Proofs.Grammar.Recovery.Inside
import LoxLang.Proofs.Evaluation.Super
import LoxLang.Proofs.Evaluation.Binding
import LoxLang.Proofs.Evaluation.Numbering
import LoxLang.Proofs.Grammar.Rereading
import LoxLang.Proofs.Grammar.Progress
import LoxLang.Proofs.Token.Stepping
import LoxLang.Proofs.Evaluation.Receiver
import LoxLang.Proofs.Evaluation.Unwinding
import LoxLang.Proofs.Store.Sharing
import LoxLang.Proofs.Token.Lines
import LoxLang.Proofs.Token.Respelling
import LoxLang.Proofs.Program.Pointing
import LoxLang.Proofs.Grammar.Finding
import LoxLang.Proofs.Scope.Blaming
import LoxLang.Proofs.Program.Reporting
import LoxLang.Proofs.Expr.Form
import LoxLang.Proofs.Expr.PrefixForm
import LoxLang.Proofs.Number.Display
import LoxLang.Proofs.Loop.Equivalence
import LoxLang.Proofs.Evaluation.Supplying
import LoxLang.Proofs.Number.Literal
import LoxLang.Proofs.Number.Whole
