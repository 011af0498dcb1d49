import Cam.Command

/-!
# Main — the command line at work

Reads the file, and the standard input if the program asks for any, carries out the invocation and
writes what it leaves behind.
-/

namespace Cam

/-- What the system's complaint about a file means. -/
def FileError.ofSystem : IO.Error → FileError
  | .noFileOrDirectory .. => .notFound
  | .inappropriateType _ code _ => if code = 20 ∨ code = -20 then .notDirectory else .isDirectory
  | error => .other error.toString

/-- Reads a file. -/
def readFile (path : String) : IO (Except FileError ByteArray) := do
  try
    return .ok (← IO.FS.readBinFile path)
  catch error =>
    return .error (.ofSystem error)

end Cam

/-- The command `cam`. -/
def main (args : List String) : IO UInt32 := do
  match Cam.Invocation.ofArgs? args with
  | none =>
    IO.eprintln "Usage: cam [-l|--lex] [-p|--parse] [-e|--env] [-v|--verbose] PATH"
    return 2
  | some invocation =>
    let file ← Cam.readFile invocation.path
    let input ← if invocation.needsInput file then (← IO.getStdin).readBinToEnd else pure .empty
    match invocation.run Cam.Program.ampleBudget file input.toList with
    | none => return 1
    | some outcome =>
      let stdout ← IO.getStdout
      stdout.write outcome.stdout
      stdout.flush
      IO.eprint outcome.stderr
      return outcome.exit.toUInt32
