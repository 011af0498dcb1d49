import Cam.Proofs.Token.Layout
import Cam.Proofs.Token.Lines

/-!
# Proofs/Token/Faults — where and why a source text cannot be read

A scan that fails has read a front part of the text, and would have read that part by itself: what
comes after a piece can only prolong it, so a piece stays what it is when the text breaks off behind
it (`Token.layout_piece`).  What it stops at is a number out of range (`Rule.concerns_of_first?`) or
a character at which no piece begins, and of such characters there are three kinds
(`Rule.unreadable_of_first?`).  `Token.fault_of_ofSource` says both, with the place of the fault
counted in bytes, in lines and in characters of its line.
-/

namespace Cam

/-! ## Places -/

namespace Location

theorem column_step (p : Location) (c : Char) :
    (p.step c).column = if c = '\n' then 1 else p.column + 1 := by
  unfold step
  split <;> rfl

/-- The column of a place counts the characters since the last line feed before it, by induction
from the last character back. -/
theorem column_after (cs : List Char) :
    (start.after cs).column = 1 + (cs.reverse.takeWhile (· ≠ '\n')).length := by
  rw [← List.reverse_reverse cs]
  generalize cs.reverse = ds
  induction ds with
  | nil => rfl
  | cons d ds ih =>
    rw [List.reverse_cons, after_append, after_cons, after_nil, column_step, ih]
    by_cases hd : d = '\n'
    · simp [hd]
    · simp [hd, Nat.add_assoc]

end Location

/-! ## Characters at which no piece begins -/

/-- No piece can be taken off a text that begins with this character and goes on like this. -/
inductive Unreadable (c : Char) (cs : List Char) : Prop where
  /-- A `!` that is not followed by `=`. -/
  | mark (hc : c = '!') (h : Halts (· = '=') cs)
  /-- A double quote without another one on its line. -/
  | quote (hc : c = '"') (h : '"' ∉ cs.takeWhile (· ≠ '\n'))
  /-- A character that no piece begins with, whatever follows it. -/
  | foreign (h : ∀ rule ∈ Rule.all, ∀ rest, rule.pattern.split? (c :: rest) = none)

namespace Rule

variable {c : Char} {cs : List Char}

/-- A text that begins with an operator has a first piece. -/
theorem first?_ne_none {text : String} (h : text ∈ operators) (rest : List Char) :
    first? (text.toList ++ rest) ≠ none := by
  intro hnone
  have hall : (⟨.exactly text, some .reserved⟩ : Rule) ∈ all :=
    List.mem_append_left _ (List.mem_append_left _ (List.mem_append_left _
      (List.mem_append_right _ (List.mem_map_of_mem h))))
  have htake := List.findSome?_eq_none_iff.1 hnone _ hall
  rw [take?, Pattern.split?, dropWord_eq_some_iff.2 rfl] at htake
  cases htake

/-- A `!` begins a piece before `=`. -/
theorem halts_of_mark (h : first? ('!' :: cs) = none) : Halts (· = '=') cs := by
  have hoperator : "!=" ∈ operators := by decide
  intro d hd
  refine decide_eq_false fun heq => ?_
  subst heq
  obtain ⟨rest, rfl⟩ := List.head?_eq_some_iff.1 (Option.mem_def.1 hd)
  exact first?_ne_none hoperator rest h

/-- A double quote begins a piece if another one stands on its line. -/
theorem not_mem_of_quote (h : first? ('"' :: cs) = none) : '"' ∉ cs.takeWhile (· ≠ '\n') := by
  intro hmem
  obtain ⟨body, tail, hline, hbody⟩ := List.eq_append_cons_of_mem hmem
  have hfeed : ∀ d ∈ body, d ≠ '\n' := fun d hd =>
    have hd : d ∈ cs.takeWhile (· ≠ '\n') := hline ▸ List.mem_append_left _ hd
    of_decide_eq_true (List.all_eq_true.1 List.all_takeWhile d hd)
  have hcs : cs = body ++ '"' :: (tail ++ cs.dropWhile (· ≠ '\n')) := by
    rw [← List.cons_append, ← List.append_assoc, ← hline, List.takeWhile_append_dropWhile]
  have hclosed := first?_quoted (fun d hd => ⟨ne_of_mem_of_not_mem hd hbody, hfeed d hd⟩)
    (tail ++ cs.dropWhile (· ≠ '\n'))
  rw [← hcs, h] at hclosed
  cases hclosed

/-- Every operator but `!=` begins with an operator of one character. -/
theorem singleton_mem_operators : ∀ text ∈ operators, text.toList.head?.all fun d =>
    d = '!' ∨ String.singleton d ∈ operators := by decide

/-- Other characters begin a piece always or never. -/
theorem mayStart_eq_false (h : first? (c :: cs) = none) (hmark : c ≠ '!') (hquote : c ≠ '"') :
    ∀ rule ∈ all, rule.pattern.mayStart c = false := by
  have hfree {piece : Piece} (hsome : first? (c :: cs) = some piece) : False := by
    rw [h] at hsome
    cases hsome
  intro rule hrule
  refine Bool.eq_false_iff.2 fun hstart => ?_
  simp only [all_eq, marks, signs, words, List.mem_append, List.mem_cons, List.mem_map,
    List.not_mem_nil, or_false] at hrule
  obtain (((rfl | rfl) | ⟨text, htext, rfl⟩) | rfl) | ⟨text, htext, rfl⟩ | rfl | rfl := hrule
  · exact hfree (first?_of_isSpace hstart cs)
  · obtain rfl := of_decide_eq_true hstart
    cases h
  · have hsingle := singleton_mem_operators text htext
    rw [of_decide_eq_true hstart] at hsingle
    have hne := first?_ne_none ((of_decide_eq_true hsingle).resolve_left hmark) cs
    rw [String.toList_singleton] at hne
    exact hne h
  · exact hquote (of_decide_eq_true hstart)
  · have hword := isWord_keywords text htext
    obtain ⟨word, htext⟩ := List.head?_eq_some_iff.1 (of_decide_eq_true hstart)
    rw [htext] at hword
    obtain ⟨hc, _⟩ := Bool.and_eq_true_iff.1 hword
    exact hfree (first?_of_isAlpha hc cs)
  · exact hfree (first?_of_isDigit hstart cs)
  · exact hfree (first?_of_isAlpha hstart cs)

/-- **There are three kinds of characters at which no piece begins.** -/
theorem unreadable_of_first? (h : first? (c :: cs) = none) : Unreadable c cs := by
  by_cases hmark : c = '!'
  · subst hmark
    exact .mark rfl (halts_of_mark h)
  · by_cases hquote : c = '"'
    · subst hquote
      exact .quote rfl (not_mem_of_quote h)
    · refine .foreign fun rule hrule rest => ?_
      exact Pattern.split?_eq_none (proper_of_mem_all rule hrule)
        (mayStart_eq_false h hmark hquote rule hrule) rest

end Rule

/-! ## Numbers out of range -/

theorem Pattern.eq_takeWhile_of_run? {p : Char → Bool} {cs lexeme rest : List Char}
    (h : run? p cs = some (lexeme, rest)) : lexeme = cs.takeWhile p := by
  unfold run? at h
  split at h
  next => cases h
  next hword =>
    cases h
    exact hword.symm

/-- What the fault says about the text that begins with `c` and goes on with `cs`. -/
def LexFault.Concerns (c : Char) (cs : List Char) : LexFault → Prop
  | .unexpected d => d = c ∧ Unreadable c cs
  | .outOfRange digits => digits.toList = (c :: cs).takeWhile Char.isDigit ∧
      Integer.greatest < (Nat.ofDigitChars 10 digits.toList 0 : Int)

namespace Rule

/-- Only the digits of a number can fail to make a token. -/
theorem tag_of_token?_eq_error {piece : Piece} {fault : LexFault}
    (h : piece.token? = .error fault) :
    piece.rule.tag = some .int ∧ Integer.ofChars? piece.lexeme = none ∧
      fault = .outOfRange (String.ofList piece.lexeme) := by
  unfold Piece.token? at h
  split at h
  next => cases h
  next htag =>
    split at h
    next => cases h
    next hnone =>
      cases h
      exact ⟨htag, hnone, rfl⟩
  next => cases h

/-- A piece that makes no token for a fault is a whole run of digits, and its value is too large. -/
theorem concerns_of_first? {c : Char} {cs : List Char} {piece : Piece} {fault : LexFault}
    (h : first? (c :: cs) = some piece) (hfault : piece.token? = .error fault) :
    fault.Concerns c cs := by
  have hdigits : ∀ rule ∈ all, rule.tag = some .int → rule.pattern = .digits := by decide
  obtain ⟨htag, hnone, rfl⟩ := tag_of_token?_eq_error hfault
  obtain ⟨rule, hrule, htake⟩ := List.exists_of_findSome?_eq_some h
  obtain ⟨⟨lexeme, rest⟩, hsplit, rfl⟩ := Option.map_eq_some_iff.1 htake
  rw [hdigits rule hrule htag] at hsplit
  have hall := Pattern.all_of_run? hsplit
  have hne := Pattern.lexeme_ne_nil_of_run? hsplit
  refine ⟨String.toList_ofList.trans (Pattern.eq_takeWhile_of_run? hsplit), ?_⟩
  rw [String.toList_ofList]
  refine Int.not_le.1 fun hle => ?_
  have hsome := (Integer.isSome_ofChars? hall).2 ⟨hne, hle⟩
  rw [hnone] at hsome
  cases hsome

end Rule

/-! ## Faulty texts -/

namespace Token

/-- **A scan that fails has read the text before the fault**, and the fault is about what follows.
-/
theorem fault_of_scan {place : Location} {cs : List Char} {e : LexError}
    (h : scan place cs = .error e) : ∃ before c after ts, cs = before ++ c :: after ∧
      Layout before ts ∧ e.location = place.after before ∧ e.fault.Concerns c after := by
  fun_induction scan place cs with
  | case1 => cases h
  | case2 place c cs hnone =>
    cases h
    exact ⟨[], c, cs, [], rfl, .done .nil, rfl, rfl, Rule.unreadable_of_first? hnone⟩
  | case3 place c cs piece hfirst fault hfault =>
    cases h
    exact ⟨[], c, cs, [], rfl, .done .nil, rfl, Rule.concerns_of_first? hfirst hfault⟩
  | case4 place c cs piece hfirst token htoken ih =>
    rcases hrest : scan (place.after piece.lexeme) piece.rest with e' | ts
    · rw [hrest] at h
      cases h
      obtain ⟨before, d, after, ts, happend, hlayout, hplace, hconcerns⟩ := ih hrest
      refine ⟨piece.lexeme ++ before, d, after, token.toList ++ ts, ?_, ?_, ?_, hconcerns⟩
      · rw [← Rule.append_of_first?_eq_some hfirst, happend, List.append_assoc]
      · exact layout_piece hfirst htoken (happend ▸ List.prefix_append _ _) hlayout
      · rw [hplace, Location.after_append]
    · rw [hrest] at h
      cases h

/-- **A fault is reported where it is, and for what it is.**  Its place lies inside the text and
between two characters: the text before it has tokens, its line counts the line feeds there and its
column the characters since the last of them.  At that place stands the unexpected character, and it
is one at which no piece begins, or the whole run of the digits, and their value is too large. -/
theorem fault_of_ofSource {source : String} {e : LexError} (h : ofSource source = .error e) :
    ∃ (before : String) (c : Char) (after : List Char),
      source = before ++ String.ofList (c :: after) ∧
      e.location.offset = before.utf8ByteSize ∧
      e.location.offset < source.utf8ByteSize ∧
      (String.Pos.Raw.mk e.location.offset).IsValid source ∧
      (∃ ts, ofSource before = .ok ts) ∧
      e.location.line = 1 + before.toList.count '\n' ∧
      e.location.column = 1 + (before.toList.reverse.takeWhile (· ≠ '\n')).length ∧
      e.fault.Concerns c after := by
  obtain ⟨before, c, after, ts, happend, hlayout, hplace, hconcerns⟩ := fault_of_scan h
  have hsource : source = String.ofList before ++ String.ofList (c :: after) := by
    rw [← String.ofList_append, ← happend, String.ofList_toList]
  have hoffset : e.location.offset = (String.ofList before).utf8ByteSize := by
    rw [hplace, Location.offset_after]
    exact Nat.zero_add _
  refine ⟨String.ofList before, c, after, hsource, hoffset, ?_, ?_, ⟨ts, ?_⟩, ?_, ?_, hconcerns⟩
  · rw [hoffset, hsource, String.utf8ByteSize_append, String.ofList_cons,
      String.utf8ByteSize_append, String.utf8ByteSize_singleton]
    have := c.utf8Size_pos
    omega
  · rw [hoffset]
    exact String.Pos.Raw.isValid_iff_exists_append.2 ⟨_, _, hsource, rfl⟩
  · rw [ofSource, String.toList_ofList]
    exact scan_of_layout hlayout
  · rw [hplace, Location.line_after, String.toList_ofList]
    rfl
  · rw [hplace, Location.column_after, String.toList_ofList]

/-- The mark is the third character of the second line, and a character of two bytes stands before
it. -/
theorem fault_after_wide_text :
    ofSource "\"é\"\n  !x" = .error ⟨.unexpected '!', ⟨7, 2, 3⟩⟩ ∧
      ∃ before after, "\"é\"\n  !x" = before ++ String.ofList ('!' :: after) ∧
        before.utf8ByteSize = 7 ∧ (∃ ts, ofSource before = .ok ts) ∧ Unreadable '!' after := by
  have hfault : ofSource "\"é\"\n  !x" = .error ⟨.unexpected '!', ⟨7, 2, 3⟩⟩ := by
    have hstring : Rule.first? "\"é\"\n  !x".toList =
        some ⟨⟨.quoted, some .string⟩, "\"é\"".toList, "\n  !x".toList⟩ := rfl
    have hblanks : Rule.first? "\n  !x".toList =
        some ⟨⟨.spaces, none⟩, "\n  ".toList, ['!', 'x']⟩ := rfl
    rw [ofSource, scan_piece hstring rfl, scan_piece hblanks rfl, scan_unexpected rfl]
    rfl
  obtain ⟨before, c, after, hsource, hoffset, _, _, hbefore, _, _, rfl, hkind⟩ :=
    fault_of_ofSource hfault
  exact ⟨hfault, before, after, hsource, hoffset.symm, hbefore, hkind⟩

end Token

end Cam
