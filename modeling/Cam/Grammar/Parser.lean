import Cam.Grammar.Attempt
import Cam.Grammar.Furthest
import Cam.Grammar.Terminal

/-!
# Grammar/Parser — grammars as data, and how they are tried

A `Parser` is an expression over terminals and the names of rules; a `Grammar` gives each name its
expression.  Choice is ordered: the second alternative is tried, from the same place, only where
the first does not match.

`Parser.attempt` follows the expression and hands the rules to a callback; `Parser.run` closes the
loop, with a budget for the depth of nested rules and for the rounds of each chain.  Both work over
any record of failures, so that what is recorded can be compared with what is kept of it.
-/

namespace Cam

/-- Grammar expressions over rules named by `ι`, where rule `i` yields a `sort i`. -/
inductive Parser {ι : Type} (sort : ι → Type) : Type → Type 1 where
  /-- One token. -/
  | token (t : Terminal) : Parser sort t.Value
  /-- Matches nowhere. -/
  | never {α : Type} : Parser sort α
  /-- Both, one after the other. -/
  | seq {α β : Type} (first : Parser sort α) (second : Parser sort β) : Parser sort (α × β)
  /-- The first that matches. -/
  | alt {α : Type} (first second : Parser sort α) : Parser sort α
  /-- The same text with another value. -/
  | map {α β : Type} (f : α → β) (p : Parser sort α) : Parser sort β
  /-- One or more items with separators between them, joined from the left. -/
  | chain {α : Type} (item : Parser sort α) (separator : Parser sort (α → α → α)) : Parser sort α
  /-- It, or nothing. -/
  | opt {α : Type} (p : Parser sort α) : Parser sort (Option α)
  /-- It, up to the end of the input. -/
  | phrase {α : Type} (p : Parser sort α) : Parser sort α
  /-- The rule of that name. -/
  | rule (i : ι) : Parser sort (sort i)

/-- An expression for each rule. -/
def Grammar {ι : Type} (sort : ι → Type) : Type 1 := (i : ι) → Parser sort (sort i)

/-- The tokens to be parsed, and what becomes of each failure. -/
structure Reading (σ : Type) where
  tokens : Array Token
  /-- Takes a failure into the record. -/
  note : Nat → Wanted → σ → σ

/-- The reading that keeps the furthest failures. -/
def Reading.furthest (tokens : Array Token) : Reading Furthest where
  tokens := tokens
  note pos wanted record := record.record pos wanted.description

namespace Parser

variable {ι : Type} {sort : ι → Type} {α β σ : Type}

/-! ## Derived expressions -/

/-- The reserved word or operator with this text. -/
def word (text : String) : Parser sort String := .token (.word text .reserved)

/-- An identifier. -/
def identifier : Parser sort String := .token (.tagged .id)

/-- Both, with the value of the first. -/
def keepLeft (p : Parser sort α) (q : Parser sort β) : Parser sort α := .map Prod.fst (.seq p q)

/-- Both, with the value of the second. -/
def keepRight (p : Parser sort α) (q : Parser sort β) : Parser sort β := .map Prod.snd (.seq p q)

/-- The first of a list that matches. -/
def anyOf : List (Parser sort α) → Parser sort α
  | [] => .never
  | p :: ps => .alt p (anyOf ps)

/-! ## Trying an expression -/

/-- Tries one token. -/
def attemptToken (r : Reading σ) (t : Terminal) (pos : Nat) : Attempt σ t.Value :=
  match (r.tokens[pos]?).bind t.read? with
  | some value => .succeed value (pos + 1)
  | none => .reject (r.note pos (.token t))

/-- Tries an expression at a place, with `call` for the rules and `budget` for the rounds of a
chain. -/
def attempt (r : Reading σ) (budget : Nat) (call : (i : ι) → Nat → Attempt σ (sort i)) :
    {α : Type} → Parser sort α → Nat → Attempt σ α
  | _, .token t, pos => attemptToken r t pos
  | _, .never, _ => .refuse
  | _, .seq p q, pos =>
    (p.attempt r budget call pos).elim
      (fun a mid => (q.attempt r budget call mid).elim (fun b => .succeed (a, b)) .refuse)
      .refuse
  | _, .alt p q, pos =>
    (p.attempt r budget call pos).elim .succeed (q.attempt r budget call pos)
  | _, .map f p, pos => (p.attempt r budget call pos).elim (fun a => .succeed (f a)) .refuse
  | _, .chain item separator, pos =>
    (item.attempt r budget call pos).elim
      (Attempt.chain (item.attempt r budget call) (separator.attempt r budget call) budget)
      .refuse
  | _, .opt p, pos =>
    (p.attempt r budget call pos).elim (fun a => .succeed (some a)) (.succeed none pos)
  | _, .phrase p, pos =>
    (p.attempt r budget call pos).elim
      (fun a next =>
        if next = r.tokens.size then .succeed a next else .reject (r.note next .endOfInput))
      .refuse
  | _, .rule i, pos => call i pos

/-- Tries an expression at a place, looking up rules in the grammar.  Each rule inside a rule takes
one off the budget. -/
def run (g : Grammar sort) (r : Reading σ) :
    (budget : Nat) → {α : Type} → Parser sort α → Nat → Attempt σ α
  | 0, _, _, _ => .exhaust
  | budget + 1, _, p, pos =>
    p.attempt r budget (fun i => run g r budget (g i)) pos

end Parser

/-! ## Grammars side by side -/

namespace Parser

variable {ι κ : Type} {left : ι → Type} {right : κ → Type}

/-- An expression over the rules of one grammar, seen over the rules of two: on the left. -/
def inl : {α : Type} → Parser left α → Parser (Sum.elim left right) α
  | _, .token t => .token t
  | _, .never => .never
  | _, .seq p q => .seq p.inl q.inl
  | _, .alt p q => .alt p.inl q.inl
  | _, .map f p => .map f p.inl
  | _, .chain item separator => .chain item.inl separator.inl
  | _, .opt p => .opt p.inl
  | _, .phrase p => .phrase p.inl
  | _, .rule i => show Parser (Sum.elim left right) (Sum.elim left right (.inl i)) from .rule _

end Parser

/-- The rules of one grammar, followed by rules that may use them. -/
def Grammar.extend {ι κ : Type} {left : ι → Type} {right : κ → Type} (g : Grammar left)
    (more : (k : κ) → Parser (Sum.elim left right) (right k)) : Grammar (Sum.elim left right)
  | .inl i => (g i).inl
  | .inr k => more k

end Cam
