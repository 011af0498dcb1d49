import Cam.Grammar.Parser

/-!
# Grammar/Precedence — binary operators in levels

The levels are listed from the tightest to the loosest.  Each level is a chain of what the levels
before it make, so operators of one level associate to the left and those of an earlier level bind
tighter.
-/

namespace Cam.Parser

variable {ι : Type} {sort : ι → Type} {α β : Type}

/-- The symbol of an operator, yielding how it joins two operands. -/
def operator (symbol : β → String) (combine : β → α → α → α) (op : β) :
    Parser sort (α → α → α) :=
  .map (fun _ => combine op) (word (symbol op))

/-- Any of the operators, yielding which one stands there. -/
def anyOperator (symbol : β → String) (ops : List β) : Parser sort β :=
  anyOf (ops.map fun op => .map (fun _ => op) (word (symbol op)))

/-- Terms joined by the operators of the levels, the tightest first. -/
def precedence (symbol : β → String) (combine : β → α → α → α) (term : Parser sort α)
    (levels : List (List β)) : Parser sort α :=
  levels.foldl (fun operand level => .chain operand (anyOf (level.map (operator symbol combine))))
    term

end Cam.Parser
