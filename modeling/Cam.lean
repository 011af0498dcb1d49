import Cam.Command.Folder
import Cam.Main
import Cam.Session
import Cam.Proofs.Grammar.Spelling
import Cam.Proofs.Grammar.Completion
import Cam.Proofs.Grammar.Lookahead
import Cam.Proofs.Grammar.Budget
import Cam.Proofs.Grammar.Furthest
import Cam.Proofs.Program.Derivation
import Cam.Proofs.Grammar.Taking
import Cam.Proofs.Program.Acceptance
import Cam.Proofs.Program.ErrorReport
import Cam.Proofs.Token.Lexeme
import Cam.Proofs.Program.Rendering
import Cam.Proofs.Token.Layout
import Cam.Proofs.Run.Budget
import Cam.Proofs.Token.Lines
import Cam.Proofs.Run.Machine
import Cam.Proofs.Run.Invariant
import Cam.Proofs.Run.Environment
import Cam.Proofs.Run.Joining
import Cam.Proofs.Run.Effect
import Cam.Proofs.Run.Truncation
import Cam.Proofs.Run.Consumption
import Cam.Proofs.Run.Visibility
import Cam.Proofs.Run.Calls
import Cam.Proofs.Session.Step
import Cam.Proofs.Session.Lifetime
import Cam.Proofs.Grammar.Determinacy
import Cam.Proofs.Run.Regime
import Cam.Proofs.Run.Frame
import Cam.Proofs.Run.LineFeed
import Cam.Proofs.Run.ReadBack
import Cam.Proofs.Run.Printing
import Cam.Proofs.Run.Framing
import Cam.Proofs.Grammar.Entry
import Cam.Proofs.Program.Termination
import Cam.Proofs.Run.InTurn
import Cam.Proofs.Run.Unrolling
import Cam.Proofs.Program.Exactness
import Cam.Proofs.Program.Connectives
import Cam.Proofs.Grammar.Precedence
import Cam.Proofs.Token.Faults
import Cam.Proofs.Run.Literals
import Cam.Proofs.Program.Comparison
import Cam.Proofs.Run.Ending
import Cam.Proofs.Token.Listing
import Cam.Proofs.Run.Origin
import Cam.Proofs.Token.Longest
import Cam.Proofs.Grammar.Failures
import Cam.Proofs.Token.Numeral
import Cam.Proofs.Session.Sharing
