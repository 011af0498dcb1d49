import Cam.Text.Outline
import Cam.Text.Quoted

/-!
# Token — the words of a program

A token is a piece of source text with the class it was read as.  The four classes are the reserved
words and operators, the integer literals, the string literals (quotes kept) and the identifiers.
-/

namespace Cam

/-- The class of a token. -/
inductive Tag where
  | reserved
  | int
  | string
  | id
  deriving DecidableEq, Inhabited

/-- The name of a class. -/
def Tag.name : Tag → String
  | .reserved => "Reserved"
  | .int => "Int"
  | .string => "String"
  | .id => "Id"

/-- What a place that takes any token of the class asks for. -/
def Tag.description : Tag → String
  | .reserved => "reserved word"
  | .int => "integer"
  | .string => "string literal"
  | .id => "identifier"

/-- A piece of source text, read as a member of a class. -/
structure Token where
  text : String
  tag : Tag
  deriving DecidableEq, Inhabited

namespace Token

/-- The token as a message about it names it. -/
def description (t : Token) : String :=
  match t.tag with
  | .reserved => "'" ++ t.text ++ "'"
  | .int => "integer " ++ t.text
  | .string => "string " ++ t.text
  | .id => "identifier `" ++ t.text ++ "`"

/-- The token's parts. -/
def outline (t : Token) : Text.Outline :=
  .record "Token" [("text", .leaf (Text.quoted t.text)), ("tag", .leaf t.tag.name)] false

/-- The token on a line of a listing: its class, a tab and its text. -/
def listing (t : Token) : String := t.tag.name ++ "\t" ++ t.text

end Token

end Cam
