import Cam.Integer
import Cam.Token.Location
import Cam.Token.Rule

/-!
# Token/Scan — from source text to tokens

`Token.scan` takes pieces off the front of the text until nothing is left.  Each piece is non-empty
(`Rule.lexeme_ne_nil_of_first?`), so the scan ends; it stops early at a place where no rule
matches, or at an integer literal that does not fit in 64 bits.
-/

namespace Cam

/-- Why a source text has no tokens. -/
inductive LexFault where
  /-- No rule matches a text that starts with this character. -/
  | unexpected (character : Char)
  /-- These digits do not fit in 64 bits. -/
  | outOfRange (digits : String)
  deriving DecidableEq

/-- A fault in a source text, and where it stands. -/
structure LexError where
  fault : LexFault
  location : Location
  deriving DecidableEq

/-- The message about a fault in a source text. -/
def LexError.message (e : LexError) : String :=
  match e.fault with
  | .unexpected c => "Illegal character '" ++ c.toString ++ "' at " ++ e.location.description
  | .outOfRange digits =>
    "Integer literal " ++ digits ++ " at " ++ e.location.description ++ " is out of range"

/-! ## Every rule takes something -/

/-- A pattern that asks for at least one character. -/
def Pattern.Proper : Pattern → Prop
  | .exactly text => text.toList ≠ []
  | .keyword text => text.toList ≠ []
  | _ => True

instance (p : Pattern) : Decidable p.Proper :=
  match p with
  | .exactly text => inferInstanceAs (Decidable (text.toList ≠ []))
  | .keyword text => inferInstanceAs (Decidable (text.toList ≠ []))
  | .spaces | .comment | .quoted | .digits | .name => inferInstanceAs (Decidable True)

theorem Pattern.lexeme_ne_nil_of_run? {p : Char → Bool} {cs lexeme rest : List Char}
    (h : Pattern.run? p cs = some (lexeme, rest)) : lexeme ≠ [] := by
  unfold Pattern.run? at h
  split at h <;> cases h
  exact List.cons_ne_nil _ _

/-- A proper pattern takes at least one character. -/
theorem Pattern.lexeme_ne_nil_of_split? {p : Pattern} (hp : p.Proper) {cs lexeme rest : List Char}
    (h : p.split? cs = some (lexeme, rest)) : lexeme ≠ [] := by
  cases p with
  | spaces => exact Pattern.lexeme_ne_nil_of_run? h
  | digits => exact Pattern.lexeme_ne_nil_of_run? h
  | comment =>
    simp only [Pattern.split?] at h
    split at h <;> cases h
    exact List.cons_ne_nil _ _
  | exactly text =>
    obtain ⟨_, _, he⟩ := Option.map_eq_some_iff.1 h
    cases he
    exact hp
  | quoted =>
    simp only [Pattern.split?] at h
    split at h
    next =>
      split at h <;> cases h
      exact List.cons_ne_nil _ _
    next => cases h
  | keyword text =>
    simp only [Pattern.split?] at h
    split at h
    next =>
      split at h <;> cases h
      exact hp
    next => cases h
  | name =>
    simp only [Pattern.split?] at h
    split at h
    next =>
      split at h <;> cases h
      exact List.cons_ne_nil _ _
    next => cases h

namespace Rule

/-- Every rule of the table has a proper pattern. -/
theorem proper_of_mem_all : ∀ rule ∈ all, rule.pattern.Proper := by decide

/-- **A step of the scan makes progress.** -/
theorem lexeme_ne_nil_of_first? {cs : List Char} {piece : Piece} (h : first? cs = some piece) :
    piece.lexeme ≠ [] := by
  obtain ⟨rule, hm, ht⟩ := List.exists_of_findSome?_eq_some h
  obtain ⟨⟨lexeme, rest⟩, hs, rfl⟩ := Option.map_eq_some_iff.1 ht
  exact Pattern.lexeme_ne_nil_of_split? (proper_of_mem_all rule hm) hs

/-- …so what it leaves is shorter. -/
theorem length_rest_lt_of_first? {cs : List Char} {piece : Piece} (h : first? cs = some piece) :
    piece.rest.length < cs.length := by
  rw [← append_of_first?_eq_some h, List.length_append]
  have := List.length_pos_iff.2 (lexeme_ne_nil_of_first? h)
  omega

/-- The token a piece makes, if its rule makes one.  The digits of an integer have to fit in 64
bits. -/
def Piece.token? (piece : Piece) : Except LexFault (Option Token) :=
  let text := String.ofList piece.lexeme
  match piece.rule.tag with
  | none => .ok none
  | some .int =>
    match Integer.ofChars? piece.lexeme with
    | some _ => .ok (some ⟨text, .int⟩)
    | none => .error (.outOfRange text)
  | some tag => .ok (some ⟨text, tag⟩)

end Rule

/-! ## The scan -/

namespace Token

/-- The tokens of a text that starts at `place`. -/
def scan (place : Location) (cs : List Char) : Except LexError (List Token) :=
  match cs with
  | [] => .ok []
  | c :: cs =>
    match _h : Rule.first? (c :: cs) with
    | none => .error ⟨.unexpected c, place⟩
    | some piece =>
      match piece.token? with
      | .error fault => .error ⟨fault, place⟩
      | .ok token => (scan (place.after piece.lexeme) piece.rest).map (token.toList ++ ·)
termination_by cs.length
decreasing_by exact Rule.length_rest_lt_of_first? ‹_›

/-- The tokens of a source text. -/
def ofSource (source : String) : Except LexError (List Token) :=
  scan .start source.toList

@[simp] theorem scan_nil (place : Location) : scan place [] = .ok [] := by
  rw [scan]

end Token

end Cam
