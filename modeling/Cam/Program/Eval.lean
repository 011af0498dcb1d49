import Cam.RuntimeError
import Cam.Text.Trim

/-!
# Program/Eval — the values of expressions and conditions

Evaluation reads the variables and changes nothing.  Operands are evaluated from left to right and
both sides of a connective always are, so the first fault from the left is the one reported.
-/

namespace Cam

/-- Arithmetic on integers: exact, or refused. -/
def ArithOp.onIntegers (op : ArithOp) (a b : Int64) : Except RuntimeError Int64 :=
  let checked (i : Int) : Except RuntimeError Int64 :=
    match Integer.ofInt? i with
    | some n => .ok n
    | none => .error (.overflow op)
  match op with
  | .add => checked (a.toInt + b.toInt)
  | .sub => checked (a.toInt - b.toInt)
  | .mul => checked (a.toInt * b.toInt)
  | .div => if b = 0 then .error .divisionByZero else checked (a.toInt.tdiv b.toInt)

/-- An arithmetic operator between two values: integers, or strings to be joined. -/
def ArithOp.apply (op : ArithOp) (left right : Value) : Except RuntimeError Value :=
  match op, left, right with
  | op, .integer a, .integer b => (op.onIntegers a b).map Value.integer
  | .add, .string a, .string b => .ok (.string (a ++ b))
  | op, left, right => .error (.typeMismatch (.arith op) left.kind right.kind)

/-- Whether an order of two values is one the comparison allows. -/
def RelOp.allows : RelOp → Ordering → Bool
  | .less, o => o = .lt
  | .lessEqual, o => o ≠ .gt
  | .greater, o => o = .gt
  | .greaterEqual, o => o ≠ .lt
  | .equal, o => o = .eq
  | .notEqual, o => o ≠ .eq

/-- A comparison between two values.  Any two can be compared for equality, only integers with
integers and strings with strings for order. -/
def RelOp.apply (op : RelOp) (left right : Value) : Except RuntimeError Bool :=
  match op with
  | .equal => .ok (left.equal right)
  | .notEqual => .ok (!left.equal right)
  | op =>
    match left.order? right with
    | some o => .ok (op.allows o)
    | none => .error (.typeMismatch (.rel op) left.kind right.kind)

/-- The text between the quotes of a string literal. -/
def unquote (raw : String) : String := String.ofList (Text.trim (· = '"') raw.toList)

/-- The value of an expression. -/
def Expr.eval (scope : Bindings) : Expr → Except RuntimeError Value
  | .int n => .ok (.integer n)
  | .str raw => .ok (.string (unquote raw))
  | .var name =>
    match scope.get? name with
    | some value => .ok value
    | none => .error (.unboundVariable name)
  | .binary op left right => do
    let a ← left.eval scope
    let b ← right.eval scope
    op.apply a b

/-- The truth value of a condition. -/
def Condition.eval (scope : Bindings) : Condition → Except RuntimeError Bool
  | .literal b => .ok b
  | .relation op left right => do
    let a ← left.eval scope
    let b ← right.eval scope
    op.apply a b
  | .logic op left right => do
    let a ← left.eval scope
    let b ← right.eval scope
    return op.apply a b
  | .not inner => do
    let a ← inner.eval scope
    return !a

end Cam
