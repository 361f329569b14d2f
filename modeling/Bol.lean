import Bol.CommandLine
import Bol.Main
import Bol.Proofs.CommandLine.RunFile
import Bol.Proofs.Number.Display
import Bol.Proofs.Number.Reading
import Bol.Proofs.Program.FirstError
import Bol.Proofs.Program.Inside
import Bol.Proofs.Run.Atomicity
import Bol.Proofs.Run.Calls
import Bol.Proofs.Run.Desugaring
import Bol.Proofs.Run.Isolation
import Bol.Proofs.Run.LogicalChains
import Bol.Proofs.Run.NestedConditionals
import Bol.Proofs.Run.Placement
import Bol.Proofs.Run.Typing
import Bol.Proofs.Scope.Tree
import Bol.Proofs.Session.ErrorLines
import Bol.Proofs.Session.Joining
import Bol.Proofs.Session.OpenBraces
import Bol.Proofs.Session.Shell
import Bol.Proofs.Session.ShellInput
import Bol.Proofs.Source.Diagnoses
import Bol.Proofs.Source.Errors
import Bol.Proofs.Source.Folding
import Bol.Proofs.Source.Lines
import Bol.Proofs.Source.Renaming
import Bol.Proofs.Source.Reordering
import Bol.Proofs.Source.Rereading
import Bol.Proofs.Source.RoundTrip
import Bol.Proofs.Source.Separation
import Bol.Proofs.Source.Strings
import Bol.Proofs.Token.Joining
import Bol.Scope.Tree
