import Cam.Grammar.Precedence
import Cam.Program.Tree

/-!
# Program/Grammar — the grammar of programs

    statements := statement (';' statement)*
    statement  := ID '=' expression
                | 'for' ID '=' arithmetic 'to' arithmetic 'do' statements 'end'
                | 'if' condition 'then' statements ('else' statements)? 'end'
                | 'while' condition 'do' statements 'end'
                | 'print' expression | 'input' ID | 'call' ID
                | 'func' ID 'do' statements 'end'
    expression := STRING | arithmetic
    arithmetic := operands joined by '*' '/', then by '+' '-'
    operand    := INT | ID | '(' arithmetic ')'
    condition  := clauses joined by 'and', then by 'or'
    clause     := 'not' clause | 'true' | 'false'
                | expression RELATION expression | '(' condition ')'

The order of the alternatives decides which of them a parse tries first, and with it the order in
which a failed parse lists what it wanted.
-/

namespace Cam

/-- The rules of the grammar. -/
inductive Nonterminal where
  | statements
  | statement
  | expression
  | arithmetic
  | operand
  | condition
  | clause
  deriving DecidableEq

namespace Nonterminal

/-- What each rule yields. -/
abbrev Tree : Nonterminal → Type
  | statements => Program
  | statement => Program
  | expression => Expr
  | arithmetic => Expr
  | operand => Expr
  | condition => Condition
  | clause => Condition

end Nonterminal

namespace Program

open Cam.Parser Cam.Nonterminal

/-! ## Expressions -/

/-- A string literal, or arithmetic. -/
def expressionRule : Parser Tree Expr :=
  .alt (.map Expr.str (.token (.tagged .string))) (.rule arithmetic)

/-- Operands joined by the arithmetic operators. -/
def arithmeticRule : Parser Tree Expr :=
  precedence ArithOp.symbol Expr.binary (.rule operand) [[.mul, .div], [.add, .sub]]

/-- An integer, a variable, or arithmetic in parentheses. -/
def operandRule : Parser Tree Expr :=
  .alt (.alt (.map Expr.int (.token .integer)) (.map Expr.var identifier))
    (keepLeft (keepRight (word "(") (.rule arithmetic)) (word ")"))

/-! ## Conditions -/

/-- Clauses joined by the connectives. -/
def conditionRule : Parser Tree Condition :=
  precedence LogicOp.symbol Condition.logic (.rule clause) [[.and], [.or]]

/-- `not` and a clause. -/
def negation : Parser Tree Condition :=
  .map Condition.not (keepRight (word "not") (.rule clause))

/-- A truth value. -/
def truth : Parser Tree Condition :=
  .alt (.map (fun _ => .literal true) (word "true"))
    (.map (fun _ => .literal false) (word "false"))

/-- Two expressions and a comparison between them. -/
def relation : Parser Tree Condition :=
  .map (fun ((left, op), right) => .relation op left right)
    (.seq (.seq (.rule expression) (anyOperator RelOp.symbol RelOp.all)) (.rule expression))

/-- A condition in parentheses. -/
def group : Parser Tree Condition :=
  keepLeft (keepRight (word "(") (.rule condition)) (word ")")

/-- A condition without connectives at its top. -/
def clauseRule : Parser Tree Condition := anyOf [negation, truth, relation, group]

/-! ## Statements -/

/-- An assignment. -/
def assignment : Parser Tree Program :=
  .map (fun (name, value) => .assign name value)
    (.seq (keepLeft identifier (word "=")) (.rule expression))

/-- A counted loop. -/
def forLoop : Parser Tree Program :=
  .map (fun (((name, start), stop), body) => .for name start stop body)
    (keepLeft
      (.seq
        (keepLeft
          (.seq
            (keepLeft
              (.seq (keepLeft (keepRight (word "for") identifier) (word "=")) (.rule arithmetic))
              (word "to"))
            (.rule arithmetic))
          (word "do"))
        (.rule statements))
      (word "end"))

/-- A choice between one or two branches. -/
def choice : Parser Tree Program :=
  .map (fun ((cond, thenBranch), elseBranch) => .ifWith cond thenBranch elseBranch)
    (keepLeft
      (.seq
        (.seq (keepLeft (keepRight (word "if") (.rule condition)) (word "then")) (.rule statements))
        (.opt (keepRight (word "else") (.rule statements))))
      (word "end"))

/-- A conditional loop. -/
def whileLoop : Parser Tree Program :=
  .map (fun (cond, body) => .while cond body)
    (keepLeft
      (.seq (keepLeft (keepRight (word "while") (.rule condition)) (word "do")) (.rule statements))
      (word "end"))

/-- The output of a value. -/
def printing : Parser Tree Program :=
  .map Stmt.print (keepRight (word "print") (.rule expression))

/-- The input of a value. -/
def reading : Parser Tree Program := .map Stmt.input (keepRight (word "input") identifier)

/-- A call of a function. -/
def calling : Parser Tree Program := .map Stmt.call (keepRight (word "call") identifier)

/-- The declaration of a function. -/
def declaration : Parser Tree Program :=
  .map (fun (name, body) => .func () name body)
    (keepLeft
      (.seq (keepLeft (keepRight (word "func") identifier) (word "do")) (.rule statements))
      (word "end"))

/-- One statement. -/
def statementRule : Parser Tree Program :=
  anyOf [assignment, forLoop, choice, whileLoop, printing, reading, calling, declaration]

/-- Statements joined by semicolons. -/
def statementsRule : Parser Tree Program :=
  .chain (.rule statement) (.map (fun _ => Stmt.seq) (word ";"))

/-! ## The grammar -/

/-- The grammar of programs. -/
def grammar : Grammar Tree
  | .statements => statementsRule
  | .statement => statementRule
  | .expression => expressionRule
  | .arithmetic => arithmeticRule
  | .operand => operandRule
  | .condition => conditionRule
  | .clause => clauseRule

/-- A whole program: statements up to the end of the input. -/
def whole : Parser Tree Program := .phrase (.rule statements)

/-- A budget for the parse of `n` tokens.  Between two tokens every rule is entered at most once,
so nested rules never use it up. -/
def budget (n : Nat) : Nat := 8 * (n + 1)

/-- The program the tokens spell. -/
def ofTokens (tokens : List Token) : Except ParseError Program :=
  let tokens := tokens.toArray
  match whole.run grammar (.furthest tokens) (budget tokens.size) 0 .start with
  | (.matched program _, _) => .ok program
  | (_, furthest) => .error (furthest.error tokens)

end Program

end Cam
