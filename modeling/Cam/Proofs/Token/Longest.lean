import Cam.Proofs.Token.Lexeme

/-!
# Proofs/Token/Longest — the first rule that matches takes the longest piece

`Pattern.Matches` says of a front part of a text whether it has the shape of a pattern, and leaves
open how much of the text a match takes.  Two rules can match at one place only if both take words
or both take operators: a word goes on as far as it can under each of its rules, and of two
operators the longer one comes first in the table.  So a front part that any rule matches is no
longer than what the first rule takes (`Rule.first?_of_matches`), and nothing is cut short by the
order of the rules (`Rule.first_is_longest`).
-/

namespace Cam

namespace Pattern

/-- The text `lexeme` has the shape of the pattern, where `rest` follows it. -/
def Matches : Pattern → (lexeme rest : List Char) → Prop
  | .spaces, lexeme, _ => lexeme ≠ [] ∧ ∀ c ∈ lexeme, isSpace c
  | .comment, lexeme, _ => ∃ body, lexeme = '#' :: body ∧ ∀ c ∈ body, c ≠ '\n'
  | .exactly text, lexeme, _ => lexeme = text.toList
  | .quoted, lexeme, _ =>
    ∃ body, lexeme = '"' :: (body ++ ['"']) ∧ ∀ c ∈ body, c ≠ '"' ∧ c ≠ '\n'
  | .keyword text, lexeme, rest => lexeme = text.toList ∧ Halts isWordChar rest
  | .digits, lexeme, _ => lexeme ≠ [] ∧ ∀ c ∈ lexeme, c.isDigit
  | .name, lexeme, _ => isWord lexeme

/-- **What a pattern takes has its shape.** -/
theorem matches_of_split? {p : Pattern} {cs lexeme rest : List Char}
    (h : p.split? cs = some (lexeme, rest)) : p.Matches lexeme rest := by
  cases p with
  | spaces => exact ⟨lexeme_ne_nil_of_run? h, all_of_run? h⟩
  | digits => exact ⟨lexeme_ne_nil_of_run? h, all_of_run? h⟩
  | comment =>
    simp only [split?] at h
    split at h
    next cs =>
      cases h
      refine ⟨_, rfl, fun c hc => ?_⟩
      exact of_decide_eq_true (List.all_eq_true.1 List.all_takeWhile c hc)
    next => cases h
  | exactly text =>
    obtain ⟨_, _, hpair⟩ := Option.map_eq_some_iff.1 h
    exact (Prod.mk.inj hpair).1.symm
  | quoted =>
    obtain ⟨body, htext, hbody⟩ := Rule.isQuoted_of_split? h String.toList_ofList
    exact ⟨body, String.toList_ofList.symm.trans htext, hbody⟩
  | keyword text =>
    simp only [split?] at h
    split at h
    next rest' hrest =>
      split at h
      next => cases h
      next hany =>
        cases h
        exact ⟨rfl, (Option.any_eq_false _ _).1 (Bool.eq_false_iff.2 hany)⟩
    next => cases h
  | name =>
    simp only [split?] at h
    split at h
    next c cs =>
      obtain ⟨hc, hpair⟩ := Option.ite_none_right_eq_some.1 h
      obtain ⟨rfl, _⟩ := Prod.mk.inj (Option.some.inj hpair)
      exact Bool.and_eq_true_iff.2 ⟨hc, List.all_takeWhile⟩
    next => cases h

/-- A run is the front of the longest run. -/
theorem prefix_takeWhile {p : Char → Bool} {word : List Char} (h : ∀ c ∈ word, p c)
    (rest : List Char) : word <+: (word ++ rest).takeWhile p :=
  ⟨rest.takeWhile p, (List.takeWhile_append_of_pos h).symm⟩

end Pattern

namespace Rule

/-- An operator is the front of the first piece, which is a longer operator if one stands there. -/
theorem first?_of_operator {text : String} (h : text ∈ operators) (rest : List Char) :
    ∃ piece, first? (text.toList ++ rest) = some piece ∧ text.toList <+: piece.lexeme := by
  by_cases hlong : text ∈ ["=", "<", ">"] ∧ rest.head? = some '='
  · obtain ⟨hmem, hhead⟩ := hlong
    obtain ⟨rest, rfl⟩ := List.head?_eq_some_iff.1 hhead
    refine ⟨_, first?_longer hmem rest, ?_⟩
    rw [String.toList_append]
    exact List.prefix_append _ _
  · refine ⟨_, first?_operator h fun hmem c hc => ?_, List.prefix_rfl⟩
    refine decide_eq_false fun heq => hlong ⟨hmem, ?_⟩
    rw [Option.mem_def.1 hc, heq]

/-- A word is the front of the first piece, whatever follows it. -/
theorem first?_of_word {word : List Char} (h : isWord word) (rest : List Char) :
    ∃ piece, first? (word ++ rest) = some piece ∧ word <+: piece.lexeme := by
  rcases word with _ | ⟨c, cs⟩
  · cases h
  · have hfirst := first?_of_isAlpha (Bool.and_eq_true_iff.1 h).1 (cs ++ rest)
    exact ⟨_, hfirst, Pattern.prefix_takeWhile (isWordChar_of_isWord h) rest⟩

/-- **A front part that some rule matches is a front part of the first piece.** -/
theorem first?_of_matches {rule : Rule} (hrule : rule ∈ all) {lexeme rest : List Char}
    (h : rule.pattern.Matches lexeme rest) :
    ∃ piece, first? (lexeme ++ rest) = some piece ∧ lexeme <+: piece.lexeme := by
  simp only [all_eq, marks, signs, words, List.mem_append, List.mem_cons, List.mem_map,
    List.not_mem_nil, or_false] at hrule
  obtain (((rfl | rfl) | ⟨text, htext, rfl⟩) | rfl) | ⟨text, htext, rfl⟩ | rfl | rfl := hrule
  · obtain ⟨hne, hspaces⟩ := h
    obtain ⟨c, cs, rfl⟩ := List.exists_cons_of_ne_nil hne
    have hfirst := first?_of_isSpace (hspaces c List.mem_cons_self) (cs ++ rest)
    exact ⟨_, hfirst, Pattern.prefix_takeWhile hspaces rest⟩
  · obtain ⟨body, rfl, hbody⟩ := h
    have hline : ∀ c ∈ body, decide (c ≠ '\n') = true := fun c hc => decide_eq_true (hbody c hc)
    have hfirst := first?_comment (body ++ rest)
    exact ⟨_, hfirst, List.cons_prefix_cons.2 ⟨rfl, Pattern.prefix_takeWhile hline rest⟩⟩
  · obtain rfl : lexeme = text.toList := h
    exact first?_of_operator htext rest
  · obtain ⟨body, rfl, hbody⟩ := h
    have hfirst := first?_quoted hbody rest
    rw [List.cons_append, List.append_assoc]
    exact ⟨_, hfirst, List.prefix_rfl⟩
  · obtain ⟨rfl, _⟩ := h
    exact first?_of_word (isWord_keywords text htext) rest
  · obtain ⟨hne, hdigits⟩ := h
    obtain ⟨c, cs, rfl⟩ := List.exists_cons_of_ne_nil hne
    have hfirst := first?_of_isDigit (hdigits c List.mem_cons_self) (cs ++ rest)
    exact ⟨_, hfirst, Pattern.prefix_takeWhile hdigits rest⟩
  · exact first?_of_word h rest

/-- The first piece is that of the earliest rule that takes one. -/
theorem exists_index_of_first? {cs : List Char} {piece : Piece} (h : first? cs = some piece) :
    ∃ i : Nat, all[i]? = some piece.rule ∧ piece.rule.take? cs = some piece ∧
      ∀ (j : Nat) (rule : Rule) (other : Piece),
        all[j]? = some rule → rule.take? cs = some other → i ≤ j := by
  obtain ⟨before, first, after, hall, htake, hnone⟩ := List.findSome?_eq_some_iff.1 h
  obtain ⟨_, _, hpiece⟩ := Option.map_eq_some_iff.1 htake
  obtain rfl : first = piece.rule := congrArg Piece.rule hpiece
  refine ⟨before.length, ?_, htake, fun j rule other hj hother => Nat.le_of_not_lt fun hlt => ?_⟩
  · rw [hall, List.getElem?_append_right (Nat.le_refl _), Nat.sub_self, List.getElem?_cons_zero]
  · rw [hall, List.getElem?_append_left hlt] at hj
    rw [hnone rule (List.mem_of_getElem? hj)] at hother
    cases hother

/-- **The first match is the longest.**  Where any rule matches, the rule that is tried first of
those that do takes a piece that is not empty.  What another rule takes is a front part of it, and
if it is just as long, that rule comes later in the table.  No rule could have taken more, however
much of its shape a match took. -/
theorem first_is_longest {cs : List Char} (h : ∃ rule ∈ all, (rule.take? cs).isSome) :
    ∃ (piece : Piece) (i : Nat), first? cs = some piece ∧ all[i]? = some piece.rule ∧
      piece.rule.take? cs = some piece ∧ piece.lexeme ≠ [] ∧ piece.lexeme ++ piece.rest = cs ∧
      (∀ (j : Nat) (rule : Rule) (other : Piece), all[j]? = some rule → rule.take? cs = some other →
        other.lexeme <+: piece.lexeme ∧ (other.lexeme.length = piece.lexeme.length → i ≤ j)) ∧
      ∀ rule ∈ all, ∀ lexeme rest, lexeme ++ rest = cs → rule.pattern.Matches lexeme rest →
        lexeme <+: piece.lexeme := by
  have hmatches {rule : Rule} {other : Piece} (htake : rule.take? cs = some other) :
      rule.pattern.Matches other.lexeme other.rest ∧ other.lexeme ++ other.rest = cs := by
    obtain ⟨_, hsplit, rfl⟩ := Option.map_eq_some_iff.1 htake
    exact ⟨Pattern.matches_of_split? hsplit, Pattern.append_of_split?_eq_some hsplit⟩
  obtain ⟨rule, hrule, hsome⟩ := h
  obtain ⟨other, htake⟩ := Option.isSome_iff_exists.1 hsome
  obtain ⟨hother, hcs⟩ := hmatches htake
  obtain ⟨piece, hfirst, _⟩ := first?_of_matches hrule hother
  rw [hcs] at hfirst
  have hlongest : ∀ rule ∈ all, ∀ lexeme rest, lexeme ++ rest = cs →
      rule.pattern.Matches lexeme rest → lexeme <+: piece.lexeme := by
    rintro rule hrule lexeme rest rfl hshape
    obtain ⟨piece', hfirst', hprefix⟩ := first?_of_matches hrule hshape
    obtain rfl : piece = piece' := Option.some.inj (hfirst.symm.trans hfirst')
    exact hprefix
  obtain ⟨i, hi, hpiece, hearliest⟩ := exists_index_of_first? hfirst
  refine ⟨piece, i, hfirst, hi, hpiece, lexeme_ne_nil_of_first? hfirst,
    append_of_first?_eq_some hfirst, fun j rule other hj htake => ?_, hlongest⟩
  obtain ⟨hother, hcs⟩ := hmatches htake
  exact ⟨hlongest rule (List.mem_of_getElem? hj) _ _ hcs hother,
    fun _ => hearliest j rule other hj htake⟩

/-- A keyword has the shape of a name too.  The two are equally long, and the keyword comes first.
-/
theorem first_is_longest_keyword :
    let cs := "and=1".toList
    (⟨.name, some .id⟩ : Rule).take? cs =
      some ⟨⟨.name, some .id⟩, "and".toList, "=1".toList⟩ ∧
    ∃ (piece : Piece) (i j : Nat), first? cs = some piece ∧ piece.lexeme = "and".toList ∧
      all[i]? = some ⟨.keyword "and", some .reserved⟩ ∧ all[j]? = some ⟨.name, some .id⟩ ∧ i ≤ j ∧
      ∀ rule ∈ all, ∀ other, rule.take? cs = some other → other.lexeme <+: piece.lexeme := by
  intro cs
  have hname : (⟨.name, some .id⟩ : Rule).take? cs =
      some ⟨⟨.name, some .id⟩, "and".toList, "=1".toList⟩ := by rfl
  have hfirst : first? cs =
      some ⟨⟨.keyword "and", some .reserved⟩, "and".toList, "=1".toList⟩ := by rfl
  have hmem : (⟨.name, some .id⟩ : Rule) ∈ all := by decide
  obtain ⟨piece, i, hpiece, hi, -, -, -, hothers, -⟩ :=
    first_is_longest ⟨_, hmem, Option.isSome_iff_exists.2 ⟨_, hname⟩⟩
  obtain rfl := Option.some.inj (hfirst.symm.trans hpiece)
  obtain ⟨j, hj⟩ := List.getElem?_of_mem hmem
  refine ⟨hname, _, i, j, hfirst, rfl, hi, hj, (hothers j _ _ hj hname).2 rfl,
    fun rule hrule other htake => ?_⟩
  obtain ⟨k, hk⟩ := List.getElem?_of_mem hrule
  exact (hothers k rule other hk htake).1

end Rule

end Cam
