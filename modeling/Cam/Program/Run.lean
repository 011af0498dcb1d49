import Cam.Program.Exec
import Cam.Program.Grammar
import Cam.Token.Scan

/-!
# Program/Run — from source text to a finished run

The text is split into tokens, the tokens are parsed, and only then does anything run.  Each stage
has its own errors, and each kind of error its exit status.
-/

namespace Cam

/-- Why a file could not be read. -/
inductive FileError where
  | notFound
  | isDirectory
  /-- Something on the way to the file is itself a file. -/
  | notDirectory
  /-- Its bytes are not valid UTF-8. -/
  | notText
  /-- Anything else, in the system's words. -/
  | other (reason : String)
  deriving DecidableEq

/-- The message about a file that could not be read. -/
def FileError.message : FileError → String
  | .notFound => "No such file or directory (os error 2)"
  | .isDirectory => "Is a directory (os error 21)"
  | .notDirectory => "Not a directory (os error 20)"
  | .notText => StreamFault.notText.message
  | .other reason => reason

/-- Everything that can end a run early, by stage. -/
inductive RunError where
  | file (error : FileError)
  | lex (error : LexError)
  | parse (error : ParseError)
  | runtime (error : RuntimeError)
  deriving DecidableEq

namespace RunError

/-- The exit status: faults of files and streams count as one kind, wherever they occur. -/
def exitCode : RunError → Nat
  | .file _ => 1
  | .runtime (.stream _) => 1
  | .lex _ => 2
  | .parse _ => 3
  | .runtime _ => 4

/-- The report of the error. -/
def report : RunError → String
  | .file error => error.message
  | .lex error => error.message
  | .parse error => error.message
  | .runtime error => "Runtime error: " ++ error.message

end RunError

namespace Program

/-- A budget beyond what any machine can use up. -/
def ampleBudget : Nat := 1000000000000000000

/-- The program a source text spells. -/
def ofSource (source : String) : Except RunError Program := do
  let tokens ← (Token.ofSource source).mapError .lex
  (ofTokens tokens).mapError .parse

/-- Runs a source text against a new environment. -/
def runSource (budget : Nat) (source : String) : Action RunError EnvId :=
  match ofSource source with
  | .ok program => ((program.number 0).1.run budget).mapError .runtime
  | .error error => .fail error

end Program

/-- The world at the start of a run. -/
def World.start (input : Input) (output : Output) : World := ⟨.empty, input, output⟩

end Cam
