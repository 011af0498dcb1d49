/-!
# Token/Pattern — the shapes a piece of source text can have

A pattern takes a piece off the front of a text, or does not match there.  Of the texts it could
take it takes the longest: runs of blanks, digits and letters go on as far as they can, a comment
runs to the end of its line, and a keyword is taken only where the word ends with it.  All classes
of characters are those of ASCII.
-/

namespace Cam

/-- The blanks of source text. -/
def isSpace (c : Char) : Bool := c = ' ' || c = '\t' || c = '\r' || c = '\n'

/-- The characters of words after the first. -/
def isWordChar (c : Char) : Bool := c.isAlphanum || c = '_'

/-- The text that is left when `word` is taken off the front. -/
def dropWord : (word cs : List Char) → Option (List Char)
  | [], cs => some cs
  | _ :: _, [] => none
  | w :: word, c :: cs => if w = c then dropWord word cs else none

/-- **`dropWord` undoes a concatenation**, and fails on every other text. -/
theorem dropWord_eq_some_iff {word cs rest : List Char} :
    dropWord word cs = some rest ↔ cs = word ++ rest := by
  induction word generalizing cs with
  | nil => simp [dropWord, eq_comm]
  | cons w word ih =>
    cases cs with
    | nil => simp [dropWord]
    | cons c cs =>
      by_cases h : w = c
      · simp [dropWord, h, ih]
      · simp [dropWord, h, Ne.symm h]

/-- A shape of source text. -/
inductive Pattern where
  /-- One or more blanks. -/
  | spaces
  /-- `#` and the rest of its line. -/
  | comment
  /-- Exactly these characters. -/
  | exactly (text : String)
  /-- Two double quotes on one line, and what stands between them. -/
  | quoted
  /-- Exactly these characters, with no word going on after them. -/
  | keyword (text : String)
  /-- One or more digits. -/
  | digits
  /-- A letter, then letters, digits and underscores. -/
  | name
  deriving DecidableEq

namespace Pattern

/-- The run of `p`-characters at the front, if there is one, and what follows. -/
def run? (p : Char → Bool) (cs : List Char) : Option (List Char × List Char) :=
  match cs.takeWhile p with
  | [] => none
  | c :: lexeme => some (c :: lexeme, cs.dropWhile p)

/-- Takes the longest piece of the pattern's shape off the front of the text: the piece, and what
is left. -/
def split? : Pattern → List Char → Option (List Char × List Char)
  | .spaces, cs => run? isSpace cs
  | .comment, cs =>
    match cs with
    | '#' :: cs => some ('#' :: cs.takeWhile (· ≠ '\n'), cs.dropWhile (· ≠ '\n'))
    | _ => none
  | .exactly text, cs => (dropWord text.toList cs).map (text.toList, ·)
  | .quoted, cs =>
    match cs with
    | '"' :: cs =>
      match cs.dropWhile fun c => c ≠ '"' && c ≠ '\n' with
      | '"' :: rest => some ('"' :: cs.takeWhile (fun c => c ≠ '"' && c ≠ '\n') ++ ['"'], rest)
      | _ => none
    | _ => none
  | .keyword text, cs =>
    match dropWord text.toList cs with
    | some rest => if rest.head?.any isWordChar then none else some (text.toList, rest)
    | none => none
  | .digits, cs => run? Char.isDigit cs
  | .name, cs =>
    match cs with
    | c :: cs =>
      if c.isAlpha then some (c :: cs.takeWhile isWordChar, cs.dropWhile isWordChar) else none
    | [] => none

/-! ## Nothing is lost -/

theorem append_of_run?_eq_some {p : Char → Bool} {cs lexeme rest : List Char}
    (h : run? p cs = some (lexeme, rest)) : lexeme ++ rest = cs := by
  unfold run? at h
  split at h
  next => cases h
  next c word hw =>
    cases h
    rw [← hw, List.takeWhile_append_dropWhile]

/-- **The piece and the rest are the text.** -/
theorem append_of_split?_eq_some {p : Pattern} {cs lexeme rest : List Char}
    (h : p.split? cs = some (lexeme, rest)) : lexeme ++ rest = cs := by
  cases p with
  | spaces => exact append_of_run?_eq_some h
  | digits => exact append_of_run?_eq_some h
  | comment =>
    simp only [split?] at h
    split at h
    next cs => cases h; simp [List.takeWhile_append_dropWhile]
    next => cases h
  | exactly text =>
    obtain ⟨rest', hr, he⟩ := Option.map_eq_some_iff.1 h
    cases he
    exact (dropWord_eq_some_iff.1 hr).symm
  | quoted =>
    simp only [split?] at h
    split at h
    next cs =>
      split at h
      next rest' hd =>
        cases h
        have := List.takeWhile_append_dropWhile (p := fun c => c ≠ '"' && c ≠ '\n') (l := cs)
        rw [hd] at this
        simpa using this
      next => cases h
    next => cases h
  | keyword text =>
    simp only [split?] at h
    split at h
    next rest' hr =>
      split at h
      next => cases h
      next => cases h; exact (dropWord_eq_some_iff.1 hr).symm
    next => cases h
  | name =>
    simp only [split?] at h
    split at h
    next c cs =>
      split at h
      next => cases h; simp [List.takeWhile_append_dropWhile]
      next => cases h
    next => cases h

end Pattern

end Cam
