import Cam.Proofs.Token.Lexeme

/-!
# Proofs/Token/Lines — a text is read line by line

No piece but a run of blanks reaches past the end of its line, and a line feed prolongs no piece
(`Rule.first?_line`).  So a text may be cut at any line feed: the two parts have the tokens of the
whole (`Token.scan_line`), and its faults are theirs, with the places in the second part counted on
from the cut (`Token.ofSource_lines`).
-/

namespace Cam

/-! ## Places

The places in a text that stands further down in another are all moved by the same number of bytes
and of lines. -/

namespace Location

/-- The place, so many bytes and lines further on. -/
def shift (p : Location) (bytes lines : Nat) : Location :=
  ⟨p.offset + bytes, p.line + lines, p.column⟩

theorem step_shift (p : Location) (bytes lines : Nat) (c : Char) :
    (p.shift bytes lines).step c = (p.step c).shift bytes lines := by
  unfold step
  split
  next => simp only [shift, Nat.add_right_comm]
  next => simp only [shift, Nat.add_right_comm]

theorem after_shift (p : Location) (bytes lines : Nat) (cs : List Char) :
    (p.shift bytes lines).after cs = (p.after cs).shift bytes lines := by
  induction cs generalizing p with
  | nil => rfl
  | cons c cs ih => rw [after_cons, after_cons, step_shift, ih]

theorem offset_step (p : Location) (c : Char) : (p.step c).offset = p.offset + c.utf8Size := by
  unfold step
  split <;> rfl

theorem line_step (p : Location) (c : Char) :
    (p.step c).line = p.line + if c = '\n' then 1 else 0 := by
  unfold step
  split <;> rfl

/-- The offset of a place counts the bytes before it. -/
theorem offset_after (p : Location) (cs : List Char) :
    (p.after cs).offset = p.offset + (String.ofList cs).utf8ByteSize := by
  induction cs generalizing p with
  | nil => rfl
  | cons c cs ih =>
    rw [after_cons, ih, offset_step, String.ofList_cons, String.utf8ByteSize_append,
      String.utf8ByteSize_singleton, Nat.add_assoc]

/-- The line of a place counts the line feeds before it. -/
theorem line_after (p : Location) (cs : List Char) :
    (p.after cs).line = p.line + cs.count '\n' := by
  induction cs generalizing p with
  | nil => rfl
  | cons c cs ih => simp only [after_cons, ih, line_step, List.count_cons, beq_iff_eq]; omega

/-- A line feed leads to the start of a line, so all that remains of the text before it is how long
it was. -/
theorem after_line (cs : List Char) : start.after (cs ++ ['\n']) =
    start.shift ((String.ofList cs).utf8ByteSize + 1) (cs.count '\n' + 1) := by
  have hstep : ∀ p : Location, p.step '\n' = ⟨p.offset + 1, p.line + 1, 1⟩ := fun _ => rfl
  rw [after_append, after_cons, after_nil, hstep, offset_after, line_after]
  simp only [shift, start, Nat.zero_add, Nat.add_assoc]

end Location

/-- The fault, so many bytes and lines further on. -/
def LexError.shift (e : LexError) (bytes lines : Nat) : LexError :=
  ⟨e.fault, e.location.shift bytes lines⟩

/-! ## Pieces of a line -/

section Runs

variable {p : Char → Bool} (hp : p '\n' = false) (cs ds : List Char)

include hp

theorem takeWhile_line : (cs ++ '\n' :: ds).takeWhile p = cs.takeWhile p := by
  induction cs with
  | nil => simp [hp]
  | cons c cs ih => simp only [List.cons_append, List.takeWhile_cons, ih]

theorem dropWhile_line : (cs ++ '\n' :: ds).dropWhile p = cs.dropWhile p ++ '\n' :: ds := by
  induction cs with
  | nil => simp [hp]
  | cons c cs ih =>
    simp only [List.cons_append, List.dropWhile_cons, ih]
    split <;> rfl

end Runs

theorem dropWord_line {word : List Char} (hword : '\n' ∉ word) (cs ds : List Char) :
    dropWord word (cs ++ '\n' :: ds) = (dropWord word cs).map (· ++ '\n' :: ds) := by
  induction word generalizing cs with
  | nil => rfl
  | cons w word ih =>
    obtain ⟨hw, hword⟩ := List.ne_and_not_mem_of_not_mem_cons hword
    rcases cs with _ | ⟨c, cs⟩
    · exact if_neg (Ne.symm hw)
    · by_cases heq : w = c
      · simp only [List.cons_append, dropWord, if_pos heq, ih hword]
      · simp only [List.cons_append, dropWord, if_neg heq, Option.map_none]

namespace Pattern

/-- What is taken off the front of a line, and what is left of the text that goes on after it. -/
def before (ds : List Char) : List Char × List Char → List Char × List Char
  | (lexeme, rest) => (lexeme, rest ++ ds)

/-- A shape without line feeds. -/
def OnLine : Pattern → Prop
  | .spaces => False
  | .exactly text => '\n' ∉ text.toList
  | .keyword text => '\n' ∉ text.toList
  | _ => True

instance (p : Pattern) : Decidable p.OnLine :=
  match p with
  | .spaces => inferInstanceAs (Decidable False)
  | .exactly text => inferInstanceAs (Decidable ('\n' ∉ text.toList))
  | .keyword text => inferInstanceAs (Decidable ('\n' ∉ text.toList))
  | .comment | .quoted | .digits | .name => inferInstanceAs (Decidable True)

theorem run?_line {p : Char → Bool} (hp : p '\n' = false) (cs ds : List Char) :
    run? p (cs ++ '\n' :: ds) = (run? p cs).map (before ('\n' :: ds)) := by
  unfold run?
  rw [takeWhile_line hp, dropWhile_line hp]
  split <;> rfl

/-- **A piece of such a shape is found on its line**, whatever the next lines hold: a string has its
closing quote there, or none. -/
theorem split?_line {p : Pattern} (hp : p.OnLine) (cs ds : List Char) :
    p.split? (cs ++ '\n' :: ds) = (p.split? cs).map (before ('\n' :: ds)) := by
  cases p with
  | spaces => exact hp.elim
  | comment =>
    rcases cs with _ | ⟨c, cs⟩
    · rfl
    · by_cases hc : c = '#'
      · subst hc
        simp only [List.cons_append, split?]
        rw [takeWhile_line rfl, dropWhile_line rfl]
        rfl
      · have hnone := split?_eq_none (p := .comment) trivial (decide_eq_false hc)
        rw [List.cons_append, hnone, hnone, Option.map_none]
  | exactly text =>
    simp only [split?, dropWord_line hp, Option.map_map]
    rfl
  | quoted =>
    rcases cs with _ | ⟨c, cs⟩
    · rfl
    · by_cases hc : c = '"'
      · subst hc
        simp only [List.cons_append, split?]
        rw [takeWhile_line rfl, dropWhile_line rfl]
        rcases cs.dropWhile fun c => c ≠ '"' && c ≠ '\n' with _ | ⟨d, rest⟩
        · rfl
        · by_cases hd : d = '"'
          · subst hd
            rfl
          · simp [hd]
      · have hnone := split?_eq_none (p := .quoted) trivial (decide_eq_false hc)
        rw [List.cons_append, hnone, hnone, Option.map_none]
  | keyword text =>
    simp only [split?, dropWord_line hp]
    rcases dropWord text.toList cs with _ | _ | ⟨c, rest⟩
    · rfl
    · rfl
    · by_cases hc : isWordChar c <;> simp [hc, before]
  | digits => exact run?_line rfl cs ds
  | name =>
    rcases cs with _ | ⟨c, cs⟩
    · rfl
    · simp only [split?, List.cons_append]
      rw [takeWhile_line rfl, dropWhile_line rfl]
      split <;> rfl

end Pattern

namespace Rule

/-- The piece, where more text follows. -/
def Piece.before (ds : List Char) (piece : Piece) : Piece :=
  ⟨piece.rule, piece.lexeme, piece.rest ++ ds⟩

theorem findSome?_line {rules : List Rule} (h : ∀ rule ∈ rules, rule.pattern.OnLine)
    (cs ds : List Char) : rules.findSome? (·.take? (cs ++ '\n' :: ds)) =
      (rules.findSome? (·.take? cs)).map (Piece.before ('\n' :: ds)) := by
  induction rules with
  | nil => rfl
  | cons rule rules ih =>
    obtain ⟨hrule, hrules⟩ := List.forall_mem_cons.1 h
    simp only [List.findSome?_cons, take?, Pattern.split?_line hrule]
    rcases rule.pattern.split? cs with _ | piece
    · exact ih hrules
    · rfl

/-- **The next piece of a text is found on its first line**, blanks apart. -/
theorem first?_line {c : Char} (hc : isSpace c = false) (cs ds : List Char) :
    first? (c :: cs ++ '\n' :: ds) = (first? (c :: cs)).map (Piece.before ('\n' :: ds)) := by
  have hlines : ∀ rule ∈ all.tail, rule.pattern.OnLine := by decide
  have hall : all = ⟨.spaces, none⟩ :: all.tail := rfl
  have hspaces : ∀ ds, (⟨.spaces, none⟩ : Rule).take? (c :: ds) = none := fun ds => by
    rw [take?, Pattern.split?_eq_none (p := .spaces) trivial hc, Option.map_none]
  rw [first?, first?, hall, List.findSome?_cons, List.findSome?_cons, hspaces, List.cons_append,
    hspaces, ← List.cons_append]
  exact findSome?_line hlines (c :: cs) ds

end Rule

/-! ## Scans -/

namespace Token

variable {place : Location}

theorem scan_unexpected {c : Char} {cs : List Char} (h : Rule.first? (c :: cs) = none) :
    scan place (c :: cs) = .error ⟨.unexpected c, place⟩ := by
  generalize htext : c :: cs = text at h ⊢
  fun_cases scan place text with
  | case1 => cases htext
  | case2 =>
    cases htext
    rfl
  | case3 c cs piece hsome => exact absurd (h.symm.trans hsome) nofun
  | case4 c cs piece hsome => exact absurd (h.symm.trans hsome) nofun

theorem scan_fault {cs : List Char} {piece : Rule.Piece} (h : Rule.first? cs = some piece)
    {fault : LexFault} (hfault : piece.token? = .error fault) :
    scan place cs = .error ⟨fault, place⟩ := by
  fun_cases scan place cs with
  | case1 => exact absurd (Rule.length_rest_lt_of_first? h) (Nat.not_lt_zero _)
  | case2 c cs hnone => exact absurd (h.symm.trans hnone) nofun
  | case3 c cs piece' hsome fault' hfault' =>
    obtain rfl := Option.some.inj (h.symm.trans hsome)
    obtain rfl := Except.error.inj (hfault.symm.trans hfault')
    rfl
  | case4 c cs piece' hsome token htoken =>
    obtain rfl := Option.some.inj (h.symm.trans hsome)
    exact absurd (hfault.symm.trans htoken) nofun

/-- **A text is read line by line**: first what stands before a line feed, then what follows it.
Blanks are passed one by one, because a run of them may go on past the line feed. -/
theorem scan_line (place : Location) (cs ds : List Char) : scan place (cs ++ '\n' :: ds) =
    (scan place cs).bind fun ts => (scan (place.after (cs ++ ['\n'])) ds).map (ts ++ ·) := by
  rcases cs with _ | ⟨c, cs⟩
  · rw [List.nil_append, scan_blank rfl, scan_nil]
    exact (congrFun Except.map_id _).symm
  · by_cases hc : isSpace c
    · rw [List.cons_append, scan_blank hc, scan_blank hc, scan_line, List.cons_append,
        Location.after_cons]
    · have hline := Rule.first?_line (Bool.eq_false_iff.2 hc) cs ds
      rcases hfirst : Rule.first? (c :: cs) with _ | piece
      · rw [hfirst] at hline
        rw [scan_unexpected hfirst]
        exact scan_unexpected hline
      · rw [hfirst, Option.map_some] at hline
        rcases htoken : piece.token? with fault | token
        · rw [scan_fault hfirst htoken]
          exact scan_fault hline htoken
        · have hplace : (place.after piece.lexeme).after (piece.rest ++ ['\n']) =
              place.after (c :: cs ++ ['\n']) := by
            rw [← Location.after_append, ← List.append_assoc, Rule.append_of_first?_eq_some hfirst]
          rw [scan_piece hfirst htoken, scan_piece hline htoken]
          simp only [Rule.Piece.before]
          rw [scan_line, hplace]
          rcases scan (place.after piece.lexeme) piece.rest with _ | ts
          · rfl
          · rcases scan (place.after (c :: cs ++ ['\n'])) ds with _ | us
            · rfl
            · exact congrArg Except.ok (List.append_assoc token.toList ts us).symm
termination_by cs.length
decreasing_by
  · exact Nat.lt_succ_self _
  · exact Rule.length_rest_lt_of_first? ‹_›

/-- Faults of a text that stands further down are further down. -/
theorem scan_shift (place : Location) (bytes lines : Nat) (cs : List Char) :
    scan (place.shift bytes lines) cs = (scan place cs).mapError (·.shift bytes lines) := by
  fun_induction scan place cs with
  | case1 => exact scan_nil _
  | case2 place c cs hnone => exact scan_unexpected hnone
  | case3 place c cs piece hfirst fault hfault => exact scan_fault hfirst hfault
  | case4 place c cs piece hfirst token htoken ih =>
    rw [scan_piece hfirst htoken, Location.after_shift, ih]
    rcases scan (place.after piece.lexeme) piece.rest with _ | _ <;> rfl

/-- The text `b` below the text `a` is read after it. -/
theorem ofSource_below (a b : String) : ofSource (a ++ "\n" ++ b) = (ofSource a).bind fun ts =>
    ((ofSource b).mapError (·.shift (a.utf8ByteSize + 1) (a.toList.count '\n' + 1))).map
      (ts ++ ·) := by
  have hlines : (a ++ "\n" ++ b).toList = a.toList ++ '\n' :: b.toList := by
    rw [String.toList_append, String.toList_append, List.append_assoc]
    rfl
  rw [ofSource, hlines, scan_line, Location.after_line, String.ofList_toList, scan_shift, ofSource,
    ofSource]

/-- **Two texts on lines of their own are read one after the other.**  The tokens are those of the
first and then those of the second; a fault of the first is the fault of the whole, and a fault of
the second is so with its place counted from the start of the first. -/
theorem ofSource_lines (a b : String) :
    ofSource (a ++ "\n" ++ b) =
      match ofSource a, ofSource b with
      | .error e, _ => .error e
      | .ok ts, .ok us => .ok (ts ++ us)
      | .ok _, .error e => .error (e.shift (a.utf8ByteSize + 1) (a.toList.count '\n' + 1)) := by
  rw [ofSource_below]
  rcases ofSource a with _ | _
  · rfl
  · rcases ofSource b with _ | _ <;> rfl

end Token

end Cam
