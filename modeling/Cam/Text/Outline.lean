/-!
# Text/Outline — a tree of named parts, written on one line or over many

Syntax trees and values are shown by their shape: a word, a word around one part, or a word with
labelled parts.  `Outline.inline` writes the shape on one line; `Outline.display` gives each part a
line of its own, indented by four spaces per level and followed by a comma.
-/

namespace Cam.Text

/-- The shape of a shown value. -/
inductive Outline where
  /-- A word, a number or a quoted text. -/
  | leaf (text : String)
  /-- A name around one part. -/
  | wrap (name : String) (part : Outline)
  /-- A name with labelled parts; `more` says that some parts are not shown. -/
  | record (name : String) (parts : List (String × Outline)) (more : Bool)
  deriving Inhabited

namespace Outline

/-! ## On one line -/

mutual

/-- Writes the outline on one line, after `out`. -/
def inlineAfter (out : String) : Outline → String
  | .leaf text => out ++ text
  | .wrap name part => part.inlineAfter (out ++ name ++ "(") ++ ")"
  | .record name parts more =>
    let body := inlineParts (out ++ name ++ " \x7b ") true parts
    (if more then body ++ ", .." else body) ++ " \x7d"

/-- Writes labelled parts after `out`, separated by commas. -/
def inlineParts (out : String) (first : Bool) : List (String × Outline) → String
  | [] => out
  | (label, part) :: rest =>
    let out := if first then out else out ++ ", "
    inlineParts (part.inlineAfter (out ++ label ++ ": ")) false rest

end

/-- The outline on one line. -/
def inline (o : Outline) : String := o.inlineAfter ""

/-! ## Over many lines -/

/-- The start of a line at the given level. -/
def margin (level : Nat) : String := "".pushn ' ' (4 * level)

mutual

/-- Writes the outline after `out`, its further lines indented for `level`. -/
def displayAfter (out : String) (level : Nat) : Outline → String
  | .leaf text => out ++ text
  | .wrap name part =>
    part.displayAfter (out ++ name ++ "(\n" ++ margin (level + 1)) (level + 1)
      ++ ",\n" ++ margin level ++ ")"
  | .record name parts more =>
    let body := displayParts (out ++ name ++ " \x7b\n") (level + 1) parts
    (if more then body ++ margin (level + 1) ++ "..\n" else body) ++ margin level ++ "\x7d"

/-- Writes labelled parts after `out`, each on a line of its own. -/
def displayParts (out : String) (level : Nat) : List (String × Outline) → String
  | [] => out
  | (label, part) :: rest =>
    let out := part.displayAfter (out ++ margin level ++ label ++ ": ") level ++ ",\n"
    displayParts out level rest

end

/-- The outline with one part a line. -/
def display (o : Outline) : String := o.displayAfter "" 0

end Outline

end Cam.Text
