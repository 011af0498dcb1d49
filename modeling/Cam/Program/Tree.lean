import Cam.Program.Operator

/-!
# Program/Tree — expressions, conditions and statements

A program is one statement; `seq` joins two into one.  Statements carry a label on each function
declaration.  As read from a text the label is empty (`Stmt Unit`); a program that is loaded for
execution has its declarations numbered (`Stmt Nat`), so that two functions can be told apart by
the declaration they came from.
-/

namespace Cam

/-- Arithmetic and string expressions. -/
inductive Expr where
  | int (value : Int64)
  /-- A string literal, quotes included. -/
  | str (raw : String)
  | var (name : String)
  | binary (op : ArithOp) (left right : Expr)
  deriving DecidableEq, Inhabited

/-- Conditions of `if` and `while`. -/
inductive Condition where
  | literal (value : Bool)
  | relation (op : RelOp) (left right : Expr)
  | logic (op : LogicOp) (left right : Condition)
  | not (inner : Condition)
  deriving DecidableEq, Inhabited

/-- Statements, with a label of type `ℓ` on each function declaration. -/
inductive Stmt (ℓ : Type) where
  | assign (name : String) (value : Expr)
  | seq (first second : Stmt ℓ)
  | print (value : Expr)
  | input (name : String)
  | ifThen (cond : Condition) (thenBranch : Stmt ℓ)
  | ifThenElse (cond : Condition) (thenBranch elseBranch : Stmt ℓ)
  | while (cond : Condition) (body : Stmt ℓ)
  | for (name : String) (start stop : Expr) (body : Stmt ℓ)
  | func (label : ℓ) (name : String) (body : Stmt ℓ)
  | call (name : String)
  deriving DecidableEq

instance {ℓ : Type} : Inhabited (Stmt ℓ) := ⟨.call ""⟩

/-- A program as it is written: one statement without labels. -/
abbrev Program := Stmt Unit

namespace Stmt

variable {ℓ : Type}

/-- An `if` with or without its `else` branch. -/
def ifWith (cond : Condition) (thenBranch : Stmt ℓ) : Option (Stmt ℓ) → Stmt ℓ
  | none => .ifThen cond thenBranch
  | some elseBranch => .ifThenElse cond thenBranch elseBranch

/-- Whether there is an `input` statement anywhere, also in the body of a function. -/
def asksInput : Stmt ℓ → Bool
  | .input _ => true
  | .seq first second => first.asksInput || second.asksInput
  | .ifThen _ t => t.asksInput
  | .ifThenElse _ t e => t.asksInput || e.asksInput
  | .while _ body => body.asksInput
  | .for _ _ _ body => body.asksInput
  | .func _ _ body => body.asksInput
  | .assign _ _ | .print _ | .call _ => false

/-! ## Labels -/

/-- The statement without its labels. -/
def unlabelled : Stmt ℓ → Program
  | .assign name value => .assign name value
  | .seq first second => .seq first.unlabelled second.unlabelled
  | .print value => .print value
  | .input name => .input name
  | .ifThen cond t => .ifThen cond t.unlabelled
  | .ifThenElse cond t e => .ifThenElse cond t.unlabelled e.unlabelled
  | .while cond body => .while cond body.unlabelled
  | .for name start stop body => .for name start stop body.unlabelled
  | .func _ name body => .func () name body.unlabelled
  | .call name => .call name

/-- The statement with its function declarations numbered from `next` on, from left to right and
from outside in, together with the first number not used. -/
def number (next : Nat) : Stmt ℓ → Stmt Nat × Nat
  | .assign name value => (.assign name value, next)
  | .seq first second =>
    let (first, next) := first.number next
    let (second, next) := second.number next
    (.seq first second, next)
  | .print value => (.print value, next)
  | .input name => (.input name, next)
  | .ifThen cond t =>
    let (t, next) := t.number next
    (.ifThen cond t, next)
  | .ifThenElse cond t e =>
    let (t, next) := t.number next
    let (e, next) := e.number next
    (.ifThenElse cond t e, next)
  | .while cond body =>
    let (body, next) := body.number next
    (.while cond body, next)
  | .for name start stop body =>
    let (body, next) := body.number next
    (.for name start stop body, next)
  | .func _ name body =>
    let (body, after) := body.number (next + 1)
    (.func next name body, after)
  | .call name => (.call name, next)

/-- **Numbering changes labels only.** -/
theorem unlabelled_number (s : Stmt ℓ) (next : Nat) :
    (s.number next).1.unlabelled = s.unlabelled := by
  induction s generalizing next <;> simp_all [number, unlabelled]

end Stmt

end Cam
