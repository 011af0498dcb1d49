import Cam.Integer
import Cam.Program.Tree
import Cam.Text.Outline
import Cam.Text.Quoted

/-!
# Program/Outline — the shape of a program, for display

Every node is shown by its name and its labelled parts; labels of function declarations are not
shown.
-/

namespace Cam

open Text (Outline)

/-- The shape of an expression. -/
def Expr.outline : Expr → Outline
  | .int value => .wrap "Int" (.leaf (Integer.text value))
  | .str raw => .wrap "Str" (.leaf (Text.quoted raw))
  | .var name => .wrap "Var" (.leaf (Text.quoted name))
  | .binary op left right =>
    .record "Binary"
      [("op", .leaf op.name), ("left", left.outline), ("right", right.outline)] false

/-- The shape of a condition. -/
def Condition.outline : Condition → Outline
  | .literal value => .wrap "Literal" (.leaf (if value then "true" else "false"))
  | .relation op left right =>
    .record "Relop"
      [("op", .leaf op.name), ("left", left.outline), ("right", right.outline)] false
  | .logic op left right =>
    .record "Logic"
      [("op", .leaf op.name), ("left", left.outline), ("right", right.outline)] false
  | .not inner => .wrap "Not" inner.outline

/-- The shape of a statement. -/
def Stmt.outline {ℓ : Type} : Stmt ℓ → Outline
  | .assign name value =>
    .record "Assign" [("name", .leaf (Text.quoted name)), ("value", value.outline)] false
  | .seq first second =>
    .record "Compound" [("first", first.outline), ("second", second.outline)] false
  | .print value => .wrap "Print" value.outline
  | .input name => .wrap "Input" (.leaf (Text.quoted name))
  | .ifThen cond t =>
    .record "If"
      [("cond", cond.outline), ("then_branch", t.outline), ("else_branch", .leaf "None")] false
  | .ifThenElse cond t e =>
    .record "If"
      [("cond", cond.outline), ("then_branch", t.outline),
        ("else_branch", .wrap "Some" e.outline)] false
  | .while cond body => .record "While" [("cond", cond.outline), ("body", body.outline)] false
  | .for name start stop body =>
    .record "For"
      [("name", .leaf (Text.quoted name)), ("start", start.outline), ("end", stop.outline),
        ("body", body.outline)] false
  | .func _ name body =>
    .record "FunctionDecl" [("name", .leaf (Text.quoted name)), ("body", body.outline)] false
  | .call name => .wrap "FunctionCall" (.leaf (Text.quoted name))

end Cam
