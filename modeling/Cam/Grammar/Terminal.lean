import Cam.Integer
import Cam.Token

/-!
# Grammar/Terminal — what a grammar asks of a single token

A terminal accepts some tokens and yields a value for each; what it asks for has a description,
and two terminals may share one.  Besides tokens, a grammar can ask for the end of the input.
-/

namespace Cam

/-- What a grammar can ask of a single token. -/
inductive Terminal where
  /-- The token with exactly this text, in this class. -/
  | word (text : String) (tag : Tag)
  /-- Any token of the class. -/
  | tagged (tag : Tag)
  /-- An integer that fits in 64 bits. -/
  | integer
  deriving DecidableEq

namespace Terminal

/-- What a terminal yields: the token's text, or its number. -/
abbrev Value : Terminal → Type
  | .word _ _ => String
  | .tagged _ => String
  | .integer => Int64

/-- The value of a token, if the terminal accepts it. -/
def read? : (t : Terminal) → Token → Option t.Value
  | .word text tag, token => if token.tag = tag ∧ token.text = text then some token.text else none
  | .tagged tag, token => if token.tag = tag then some token.text else none
  | .integer, token => if token.tag = .int then Integer.ofText? token.text else none

/-- What the terminal asks for. -/
def description : Terminal → String
  | .word text _ => "'" ++ text ++ "'"
  | .tagged tag => tag.description
  | .integer => Tag.int.description

end Terminal

/-- What was wanted at a place of the input where it did not stand. -/
inductive Wanted where
  | token (t : Terminal)
  | endOfInput
  deriving DecidableEq

/-- The wanted thing, as messages name it. -/
def Wanted.description : Wanted → String
  | .token t => t.description
  | .endOfInput => "end of input"

end Cam
