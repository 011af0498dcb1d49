/-!
# Program/Operator — the operators and their symbols

Three families: arithmetic, comparison and logic.  Each operator is written by one symbol, and the
symbol names at most one operator of a family.
-/

namespace Cam

/-- The operators on integers; `+` also joins strings. -/
inductive ArithOp where
  | add
  | sub
  | mul
  | div
  deriving DecidableEq, Inhabited

namespace ArithOp

/-- All arithmetic operators. -/
def all : List ArithOp := [add, sub, mul, div]

/-- The symbol an arithmetic operator is written by. -/
def symbol : ArithOp → String
  | add => "+"
  | sub => "-"
  | mul => "*"
  | div => "/"

/-- The name of an arithmetic operator. -/
def name : ArithOp → String
  | add => "Add"
  | sub => "Sub"
  | mul => "Mul"
  | div => "Div"

/-- The arithmetic operator a symbol writes. -/
def ofSymbol? (s : String) : Option ArithOp := all.find? (·.symbol = s)

/-- A symbol is read back as the operator it writes. -/
@[simp] theorem ofSymbol?_symbol (op : ArithOp) : ofSymbol? op.symbol = some op := by
  cases op <;> decide

end ArithOp

/-- The comparisons. -/
inductive RelOp where
  | less
  | lessEqual
  | greater
  | greaterEqual
  | equal
  | notEqual
  deriving DecidableEq, Inhabited

namespace RelOp

/-- All comparisons, in the order in which a condition tries them. -/
def all : List RelOp := [less, lessEqual, greater, greaterEqual, equal, notEqual]

/-- The symbol a comparison is written by. -/
def symbol : RelOp → String
  | less => "<"
  | lessEqual => "<="
  | greater => ">"
  | greaterEqual => ">="
  | equal => "=="
  | notEqual => "!="

/-- The name of a comparison. -/
def name : RelOp → String
  | less => "Less"
  | lessEqual => "LessEqual"
  | greater => "Greater"
  | greaterEqual => "GreaterEqual"
  | equal => "EqualEqual"
  | notEqual => "NotEqual"

/-- The comparison a symbol writes. -/
def ofSymbol? (s : String) : Option RelOp := all.find? (·.symbol = s)

/-- A symbol is read back as the comparison it writes. -/
@[simp] theorem ofSymbol?_symbol (op : RelOp) : ofSymbol? op.symbol = some op := by
  cases op <;> decide

end RelOp

/-- The connectives of conditions. -/
inductive LogicOp where
  | and
  | or
  deriving DecidableEq, Inhabited

namespace LogicOp

/-- Both connectives. -/
def all : List LogicOp := [and, or]

/-- The symbol a connective is written by. -/
def symbol : LogicOp → String
  | and => "and"
  | or => "or"

/-- The name of a connective. -/
def name : LogicOp → String
  | and => "And"
  | or => "Or"

/-- The connective a symbol writes. -/
def ofSymbol? (s : String) : Option LogicOp := all.find? (·.symbol = s)

/-- A symbol is read back as the connective it writes. -/
@[simp] theorem ofSymbol?_symbol (op : LogicOp) : ofSymbol? op.symbol = some op := by
  cases op <;> decide

/-- The truth value of a connective between two truth values. -/
def apply : LogicOp → Bool → Bool → Bool
  | and, a, b => a && b
  | or, a, b => a || b

end LogicOp

end Cam
