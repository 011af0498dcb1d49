import Cam.Value

/-!
# RuntimeError — what can go wrong while a program runs
-/

namespace Cam

/-- A fault of the streams a program runs on. -/
inductive StreamFault where
  /-- The output takes no more, for the reason it gives. -/
  | full (reason : String)
  /-- What was written could not be handed on. -/
  | flushFailed
  /-- The input could not be read on. -/
  | readFailed
  /-- A line of input is not valid UTF-8. -/
  | notText
  deriving DecidableEq

/-- The message about a fault of a stream. -/
def StreamFault.message : StreamFault → String
  | .full reason => reason
  | .flushFailed => "flush failed"
  | .readFailed => "read failed"
  | .notText => "stream did not contain valid UTF-8"

/-- The ends of a counted loop. -/
inductive LoopBound where
  | start
  | stop
  deriving DecidableEq

/-- The end of the loop, as messages name it. -/
def LoopBound.description : LoopBound → String
  | .start => "for loop start"
  | .stop => "for loop end"

/-- An operator between two values. -/
inductive ValueOp where
  | arith (op : ArithOp)
  | rel (op : RelOp)
  deriving DecidableEq

/-- The symbol of an operator between two values. -/
def ValueOp.symbol : ValueOp → String
  | .arith op => op.symbol
  | .rel op => op.symbol

/-- Why a run stopped. -/
inductive RuntimeError where
  | unboundVariable (name : String)
  | undefinedFunction (name : String)
  /-- The called name holds something else. -/
  | notCallable (name : String) (found : Kind)
  | typeMismatch (op : ValueOp) (left right : Kind)
  | expectedInteger (bound : LoopBound) (found : Kind)
  | divisionByZero
  | overflow (op : ArithOp)
  /-- There was nothing left to read into the variable. -/
  | endOfInput (name : String)
  | stream (fault : StreamFault)
  /-- The environment the function was declared in is gone. -/
  | environmentDropped (name : String)
  deriving DecidableEq

/-- The message about a stopped run. -/
def RuntimeError.message : RuntimeError → String
  | .unboundVariable name => "Variable not defined: " ++ name
  | .undefinedFunction name => "Function not defined: " ++ name
  | .notCallable name found => "'" ++ name ++ "' is a " ++ found.name ++ ", not a function"
  | .typeMismatch op left right =>
    "Unsupported operand types for '" ++ op.symbol ++ "': " ++ left.name ++ " and " ++ right.name
  | .expectedInteger bound found =>
    "Expected an integer for " ++ bound.description ++ ", found " ++ found.name
  | .divisionByZero => "Division by zero"
  | .overflow op => "Integer overflow in '" ++ op.symbol ++ "'"
  | .endOfInput name => "No input left to read into '" ++ name ++ "'"
  | .stream fault => "I/O error: " ++ fault.message
  | .environmentDropped name => "Function '" ++ name ++ "' outlived its environment"

end Cam
