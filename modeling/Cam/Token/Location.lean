/-!
# Token/Location — where a character stands in a source text

A place is named twice: by the bytes before it, and by its line and its column on that line.  Lines
end at line feeds; columns count characters.
-/

namespace Cam

/-- A place in a source text. -/
structure Location where
  /-- The number of bytes before it. -/
  offset : Nat
  /-- Its line, the first being 1. -/
  line : Nat
  /-- Its column, the first of a line being 1. -/
  column : Nat
  deriving DecidableEq, Inhabited

namespace Location

/-- The start of a text. -/
def start : Location := ⟨0, 1, 1⟩

/-- The place after one more character. -/
def step (p : Location) (c : Char) : Location :=
  if c = '\n' then ⟨p.offset + c.utf8Size, p.line + 1, 1⟩
  else ⟨p.offset + c.utf8Size, p.line, p.column + 1⟩

/-- The place after a stretch of text. -/
def after (p : Location) (cs : List Char) : Location := cs.foldl step p

@[simp] theorem after_nil (p : Location) : p.after [] = p := rfl

@[simp] theorem after_cons (p : Location) (c : Char) (cs : List Char) :
    p.after (c :: cs) = (p.step c).after cs := rfl

@[simp] theorem after_append (p : Location) (cs ds : List Char) :
    p.after (cs ++ ds) = (p.after cs).after ds := List.foldl_append

/-- The place, as messages name it. -/
def description (p : Location) : String :=
  "position " ++ p.offset.repr ++ " (line " ++ p.line.repr ++ ", column " ++ p.column.repr ++ ")"

end Location

end Cam
