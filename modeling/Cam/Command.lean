import Cam.Program.Outline
import Cam.Program.Run

/-!
# Command — the command line

    cam [-l|--lex] [-p|--parse] [-e|--env] [-v|--verbose] PATH

Without options the program at the path is run.  `--lex` lists its tokens and `--parse` shows its
tree instead; `--env` lists its variables at the end; `--verbose` reports the end of each stage.
-/

namespace Cam

/-- The options of the command line. -/
structure Options where
  lex : Bool
  parse : Bool
  env : Bool
  verbose : Bool
  deriving DecidableEq

/-- What the command is asked to do. -/
structure Invocation where
  options : Options
  path : String
  deriving DecidableEq

/-- What the command leaves behind. -/
structure Outcome where
  exit : Nat
  stdout : ByteArray
  stderr : String

namespace Options

/-- No option. -/
def none : Options := ⟨false, false, false, false⟩

/-- Turns on the option of a letter. -/
def withLetter (o : Options) : Char → Option Options
  | 'l' => some { o with lex := true }
  | 'p' => some { o with parse := true }
  | 'e' => some { o with env := true }
  | 'v' => some { o with verbose := true }
  | _ => Option.none

/-- Turns on the option of a word, or the options of letters after a dash. -/
def withFlag (o : Options) : String → Option Options
  | "--lex" => o.withLetter 'l'
  | "--parse" => o.withLetter 'p'
  | "--env" => o.withLetter 'e'
  | "--verbose" => o.withLetter 'v'
  | flag =>
    match flag.toList with
    | '-' :: c :: cs => (c :: cs).foldlM withLetter o
    | _ => Option.none

end Options

namespace Invocation

/-- Whether an argument is a flag: it starts with a dash, and is more than that. -/
def isFlag (arg : String) : Bool := arg.toList.head? = some '-' && arg ≠ "-"

/-- Takes the arguments one by one: flags, and a single path. -/
def ofArgsFrom (options : Options) (path : Option String) : List String → Option Invocation
  | [] => path.map (⟨options, ·⟩)
  | arg :: args =>
    if isFlag arg then (options.withFlag arg).bind fun options => ofArgsFrom options path args
    else if path.isSome then none
    else ofArgsFrom options (some arg) args

/-- The invocation that the arguments spell. -/
def ofArgs? (args : List String) : Option Invocation := ofArgsFrom .none none args

/-! ## Carrying it out -/

/-- The line, if stages are to be reported. -/
def note (i : Invocation) (line : String) : String :=
  if i.options.verbose then line ++ "\n" else ""

/-- The text of a file. -/
def textOf (file : Except FileError ByteArray) : Except FileError String := do
  match String.fromUTF8? (← file) with
  | some text => return text
  | none => .error .notText

/-- Lists the tokens of a source text, or shows its tree. -/
def inspect (i : Invocation) (source : String) : Outcome :=
  match Token.ofSource source with
  | .error error => ⟨RunError.exitCode (.lex error), .empty, error.message ++ "\n"⟩
  | .ok tokens =>
    let notes := i.note ("Lexed " ++ tokens.length.repr ++ " tokens")
    if i.options.lex then
      let listing := String.join (tokens.map fun token => token.listing ++ "\n")
      ⟨0, listing.toUTF8, notes⟩
    else
      match Program.ofTokens tokens with
      | .error error => ⟨RunError.exitCode (.parse error), .empty, notes ++ error.message ++ "\n"⟩
      | .ok program =>
        ⟨0, (program.outline.display ++ "\n").toUTF8, notes ++ i.note "Parsed program"⟩

/-- The line of a variable in the listing of an environment. -/
def bindingLine : String × Value → String
  | (name, value) => name ++ " = " ++ value.text ++ "\n"

/-- Runs a source text.  There is no outcome if the run does not end within the budget. -/
def execute (i : Invocation) (budget : Nat) (source : String) (input : List UInt8) :
    Option Outcome :=
  match Program.runSource budget source (.start (.ofBytes input) .unlimited) with
  | .ok env world =>
    let bindings := world.store.scope env
    let notes := i.note ("Ran program, " ++ bindings.size.repr ++ " bindings")
    let listing :=
      if i.options.env then String.join (bindings.entries.map bindingLine) else ""
    some ⟨0, world.output.written ++ listing.toUTF8, notes⟩
  | .error (.failed error) world =>
    let complaint := "failed to run " ++ i.path ++ ": " ++ error.report ++ "\n"
    some ⟨error.exitCode, world.output.written, complaint⟩
  | .error .exhausted _ => none

/-- Whether the invocation only looks at the text of a program, and does not run it. -/
def inspects (i : Invocation) : Bool := i.options.lex || i.options.parse

/-- Whether there is anything the input could be needed for. -/
def needsInput (i : Invocation) (file : Except FileError ByteArray) : Bool :=
  match textOf file with
  | .ok source => !i.inspects && ((Program.ofSource source).map Stmt.asksInput).toOption.getD false
  | .error _ => false

/-- Carries out the invocation on the file found at its path. -/
def run (i : Invocation) (budget : Nat) (file : Except FileError ByteArray)
    (input : List UInt8) : Option Outcome :=
  match textOf file with
  | .error error =>
    let verb := if i.inspects then "read " else "run "
    some ⟨RunError.exitCode (.file error), .empty,
      "failed to " ++ verb ++ i.path ++ ": " ++ error.message ++ "\n"⟩
  | .ok source => if i.inspects then some (i.inspect source) else i.execute budget source input

end Invocation

end Cam
