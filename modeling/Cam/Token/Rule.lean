import Cam.Token
import Cam.Token.Pattern

/-!
# Token/Rule — the lexical rules and their order

A rule is a pattern and the class of token that it makes, if it makes one.  The rules are tried in
the order of `Rule.all` and the first that matches wins.  The order matters where patterns overlap:
an operator of two characters stands before the operator it starts with, and the keywords stand
before the identifiers.
-/

namespace Cam

/-- The reserved words. -/
def keywords : List String :=
  ["and", "or", "not", "if", "then", "else", "while", "do", "for", "to", "func", "call", "end",
    "print", "input", "true", "false"]

/-- The operators and punctuation marks. -/
def operators : List String :=
  ["==", "(", ")", ";", "+", "-", "*", "/", "<=", "<", ">=", ">", "!=", "="]

/-- A lexical rule. -/
structure Rule where
  /-- The shape of the text. -/
  pattern : Pattern
  /-- The class of the token; blanks and comments make none. -/
  tag : Option Tag
  deriving DecidableEq

namespace Rule

/-- The rules in the order in which they are tried. -/
def all : List Rule :=
  [⟨.spaces, none⟩, ⟨.comment, none⟩]
    ++ operators.map (fun text => ⟨.exactly text, some .reserved⟩)
    ++ [⟨.quoted, some .string⟩]
    ++ keywords.map (fun text => ⟨.keyword text, some .reserved⟩)
    ++ [⟨.digits, some .int⟩, ⟨.name, some .id⟩]

/-- A piece of source text that a rule has taken. -/
structure Piece where
  /-- The rule. -/
  rule : Rule
  /-- What it took. -/
  lexeme : List Char
  /-- What it left. -/
  rest : List Char

/-- The piece a rule takes off the front of a text. -/
def take? (rule : Rule) (cs : List Char) : Option Piece :=
  (rule.pattern.split? cs).map fun (lexeme, rest) => ⟨rule, lexeme, rest⟩

/-- The piece the first matching rule takes off the front of a text. -/
def first? (cs : List Char) : Option Piece := all.findSome? (·.take? cs)

/-- What a rule takes comes off the front of the text. -/
theorem append_of_take?_eq_some {rule : Rule} {cs : List Char} {piece : Piece}
    (h : rule.take? cs = some piece) : piece.lexeme ++ piece.rest = cs := by
  obtain ⟨⟨lexeme, rest⟩, hs, rfl⟩ := Option.map_eq_some_iff.1 h
  exact Pattern.append_of_split?_eq_some hs

/-- What the first rule takes comes off the front of the text. -/
theorem append_of_first?_eq_some {cs : List Char} {piece : Piece} (h : first? cs = some piece) :
    piece.lexeme ++ piece.rest = cs := by
  obtain ⟨rule, _, ht⟩ := List.exists_of_findSome?_eq_some h
  exact append_of_take?_eq_some ht

end Rule

end Cam
