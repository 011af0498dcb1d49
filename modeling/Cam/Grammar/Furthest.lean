import Cam.Token

/-!
# Grammar/Furthest — how far the attempts at a parse have got

A parse tries alternatives and gives most of them up.  Of all the places where something was wanted
and did not stand, the record keeps the furthest, with the descriptions of what was wanted there in
the order in which they first came up.  A failed parse is reported by this record.
-/

namespace Cam

/-- The furthest place of failure so far. -/
structure Furthest where
  /-- The index of the token there. -/
  position : Nat
  /-- What was wanted there, each description once. -/
  expected : List String
  deriving DecidableEq

/-- A failed parse. -/
structure ParseError where
  /-- The index of the offending token. -/
  position : Nat
  /-- The offending token, unless the input ends there. -/
  found : Option Token
  /-- What could have stood there. -/
  expected : List String
  deriving DecidableEq

namespace Furthest

/-- Nothing has failed yet. -/
def start : Furthest := ⟨0, []⟩

/-- Adds a description, unless it is there already. -/
def insert (expected : List String) (description : String) : List String :=
  if description ∈ expected then expected else expected ++ [description]

/-- Records that something was wanted at `pos`.  A nearer failure changes nothing, a further one
starts afresh. -/
def record (pos : Nat) (description : String) (f : Furthest) : Furthest :=
  if f.position < pos then ⟨pos, [description]⟩
  else if f.position = pos then ⟨pos, insert f.expected description⟩
  else f

/-- The report of the record against the tokens. -/
def error (f : Furthest) (tokens : Array Token) : ParseError :=
  ⟨f.position, tokens[f.position]?, f.expected⟩

end Furthest

namespace ParseError

/-- The part of the message that lists the alternatives. -/
def expectation : List String → String
  | [] => ""
  | [only] => "expected " ++ only ++ ", "
  | many => "expected one of " ++ ", ".intercalate many ++ ", "

/-- The message about a failed parse. -/
def message (e : ParseError) : String :=
  "Parse error at token " ++ e.position.repr ++ ": " ++ expectation e.expected ++ "found "
    ++ (e.found.map Token.description).getD "end of input"

end ParseError

end Cam
