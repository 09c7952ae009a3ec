import Lox.Main
import Lox.Proofs.Command.Strings
import Lox.Proofs.Grammar.Contexts
import Lox.Proofs.Grammar.Landing
import Lox.Proofs.Grammar.Rejection
import Lox.Proofs.Prompt.Delivery
import Lox.Proofs.Run.Agreement
import Lox.Proofs.Run.Assignments
import Lox.Proofs.Run.ForLoops
import Lox.Proofs.Run.Parentheses
import Lox.Proofs.Scope.Paths
import Lox.Proofs.Session.Idle
import Lox.Proofs.Session.Joining
import Lox.Proofs.Session.Layout
import Lox.Proofs.Session.Printing
import Lox.Proofs.Session.Quoting
import Lox.Proofs.Session.Scopes
import Lox.Proofs.Session.Tracing
import Lox.Proofs.Source.PrintedNumbers
import Lox.Proofs.Source.Stepwise
import Lox.Proofs.Trace.Files
