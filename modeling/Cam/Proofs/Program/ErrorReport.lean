import Cam.Proofs.Grammar.Lookahead
import Cam.Proofs.Program.Acceptance

/-!
# Proofs/Program/ErrorReport — the report of a failed parse is exact

A list of tokens is *viable* if some program begins with it.  Two theorems about the report of a
parse that fails:

* `Program.position_of_error` — it stands at the end of the longest viable prefix of the tokens.
* `Program.expected_of_error` — it lists just the kinds of tokens that keep that prefix viable, and
  the end of the input where the prefix is a program and the tokens go on.

That nothing is listed in vain is `Task.Ends.completable`: whatever a parse wants could have stood
there, also in an attempt that was given up.  That nothing is missing is `Task.Ends.alike`: had the
tokens gone on as they do in a program, the parse would have gone just as it did, unless what comes
next there is wanted.
-/

namespace Cam

/-! ## Kinds of tokens -/

/-- What follows is as wanted. -/
def Wanted.Meets (rest : List Token) : Wanted → Prop
  | .token t => ((rest.head?).bind t.read?).isSome
  | .endOfInput => rest = []

/-- The description of what a token can stand for: a number too large stands for nothing. -/
def Token.kind? (token : Token) : Option String :=
  match token.tag with
  | .reserved => some ("'" ++ token.text ++ "'")
  | .int => if (Integer.ofText? token.text).isSome then some Tag.int.description else none
  | .string => some Tag.string.description
  | .id => some Tag.id.description

namespace Terminal

/-- Whether the terminal is one that programs are made of. -/
def ofProgram : Terminal → Bool
  | .word _ tag => tag = .reserved
  | .tagged tag => tag = .id ∨ tag = .string
  | .integer => true

/-- What such a terminal reads is of the kind that it describes. -/
theorem kind?_of_read? {t : Terminal} (ht : t.ofProgram) {token : Token} {v : t.Value}
    (hv : t.read? token = some v) : token.kind? = some t.description := by
  obtain ⟨text, tag⟩ := token
  cases t with
  | word text' tag' =>
    obtain ⟨⟨rfl, rfl⟩, _⟩ := Option.ite_none_right_eq_some.1 hv
    obtain rfl : tag = .reserved := of_decide_eq_true ht
    rfl
  | tagged tag' =>
    obtain ⟨rfl, _⟩ := Option.ite_none_right_eq_some.1 hv
    obtain rfl | rfl : tag = .id ∨ tag = .string := of_decide_eq_true ht
    · rfl
    · rfl
  | integer =>
    obtain ⟨rfl, hint⟩ := Option.ite_none_right_eq_some.1 hv
    exact if_pos (Option.isSome_iff_exists.2 ⟨v, hint⟩)

/-- …and there is something that it reads. -/
theorem exists_read? (t : Terminal) : ∃ token v, t.read? token = some v := by
  cases t with
  | word text tag => exact ⟨⟨text, tag⟩, text, if_pos ⟨rfl, rfl⟩⟩
  | tagged tag => exact ⟨⟨"", tag⟩, "", if_pos rfl⟩
  | integer => exact ⟨⟨"0", .int⟩, 0, by decide⟩

end Terminal

/-- No kind of token is described like the end of the input. -/
theorem Token.kind?_ne_endOfInput (token : Token) :
    token.kind? ≠ some Wanted.endOfInput.description := by
  obtain ⟨text, tag⟩ := token
  intro h
  cases tag with
  | reserved =>
    have hchars := congrArg String.toList (Option.some.inj h)
    rw [String.toList_append, String.toList_append] at hchars
    have hhead : some '\'' = some 'e' := congrArg List.head? hchars
    exact absurd hhead (by decide)
  | int =>
    obtain ⟨_, hsome⟩ := Option.ite_none_right_eq_some.1 h
    exact absurd hsome (by decide)
  | string => exact absurd (Option.some.inj h) (by decide)
  | id => exact absurd (Option.some.inj h) (by decide)

namespace Program

open Cam.Parser Cam.Nonterminal

/-! ## Viable prefixes -/

/-- Some program begins with the tokens. -/
def Viable (ts : List Token) : Prop := ∃ rest s, ofTokens (ts ++ rest) = .ok s

/-- The tokens are a program. -/
def Accepted (ts : List Token) : Prop := ∃ s, ofTokens ts = .ok s

theorem Viable.of_append {ts rest : List Token} (h : Viable (ts ++ rest)) : Viable ts := by
  obtain ⟨rest', s, hs⟩ := h
  rw [List.append_assoc] at hs
  exact ⟨rest ++ rest', s, hs⟩

section Continued

variable {ts rest : List Token} {n i : Nat}

/-- Tokens that part at `n` are alike before it. -/
theorem getElem?_take_append_of_lt (hn : n ≤ ts.length) (hi : i < n) :
    (ts.take n ++ rest).toArray[i]? = ts.toArray[i]? := by
  have hlength := List.length_take_of_le hn
  rw [List.getElem?_toArray, List.getElem?_toArray, List.getElem?_append_left (by omega),
    List.getElem?_take_of_lt hi]

theorem getElem?_take_append_self (hn : n ≤ ts.length) (rest : List Token) :
    (ts.take n ++ rest).toArray[n]? = rest.head? := by
  have hlength := List.length_take_of_le hn
  rw [List.getElem?_toArray, List.getElem?_append_right (by omega), hlength, Nat.sub_self,
    List.head?_eq_getElem?]

end Continued

/-! ## The failures behind a report -/

theorem reports_grammar (i : Nonterminal) : (grammar i).reports := by cases i <;> rfl

theorem watchful_grammar (i : Nonterminal) : (grammar i).watchful := by cases i <;> rfl

theorem asks_grammar (i : Nonterminal) : (grammar i).asks Terminal.ofProgram := by cases i <;> rfl

/-- The report is about the failures `fs` of a parse of `ts`. -/
structure Reports (ts : List Token) (fs : List Failure) (e : ParseError) : Prop where
  ends : Task.Ends grammar ts.toArray (.parse whole 0) .noMatch fs
  summary : Furthest.Summary (fs.map Failure.note) ⟨e.position, e.expected⟩
  found : e.found = ts[e.position]?

theorem reports_of_error {ts : List Token} {e : ParseError} (h : ofTokens ts = .error e) :
    ∃ fs, Reports ts fs e := by
  obtain ⟨fs, hends, ⟨s, next, _, heq⟩ | ⟨hreply, heq⟩⟩ := ofTokens_ends ts
  · exact absurd (h.symm.trans heq) nofun
  · rw [hreply] at hends
    obtain rfl := Except.error.inj (h.symm.trans heq)
    exact ⟨fs, hends, Furthest.summary_recordAll _, List.getElem?_toArray⟩

namespace Reports

variable {ts : List Token} {fs : List Failure} {e : ParseError}

theorem le_position (h : Reports ts fs e) {f : Failure} (hf : f ∈ fs) : f.position ≤ e.position :=
  h.summary.le_position f.note (List.mem_map_of_mem hf)

theorem mem_expected (h : Reports ts fs e) (d : String) :
    d ∈ e.expected ↔ ∃ f ∈ fs, f.position = e.position ∧ f.wanted.description = d := by
  simp only [h.summary.mem_expected d, List.mem_map, Failure.note, Prod.mk.injEq]

theorem expected_ne_nil (h : Reports ts fs e) : e.expected ≠ [] := by
  have hne := h.ends.ne_nil reports_grammar rfl rfl
  exact h.summary.ne_nil fun hnil => hne (List.map_eq_nil_iff.1 hnil)

/-- Something was wanted at the place of the report. -/
theorem exists_at_position (h : Reports ts fs e) : ∃ f ∈ fs, f.position = e.position := by
  obtain ⟨d, hd⟩ := List.exists_mem_of_ne_nil _ h.expected_ne_nil
  obtain ⟨f, hf, hpos, _⟩ := (h.mem_expected d).1 hd
  exact ⟨f, hf, hpos⟩

/-- Either the statements have failed, or they have ended before the input does. -/
theorem ends_statements (h : Reports ts fs e) :
    Task.Ends grammar ts.toArray (.parse (.rule statements) 0) .noMatch fs ∨
      ∃ s next fs', fs = fs' ++ [⟨next, .endOfInput⟩] ∧
        Task.Ends grammar ts.toArray (.parse (.rule statements) 0) (.matched s next) fs' := by
  rcases h.ends.of_phrase with ⟨a, hreply, _⟩ | ⟨_, inner⟩ | ⟨s, next, fs', _, _, hfs, inner⟩
  · cases hreply
  · exact .inl inner
  · exact .inr ⟨s, next, fs', hfs, inner⟩

/-- **Whatever was wanted could have stood there.**  Before a place where the end of the input was
wanted there stands a program. -/
theorem completable (h : Reports ts fs e) : ∀ f ∈ fs, f.Completable Accepted ts.toArray := by
  have hfits : (Task.parse (.rule statements) 0).Fits Derives Accepted ts.toArray [] := by
    intro us s hus
    rw [List.append_nil]
    exact ⟨s, ofTokens_of_spells hus⟩
  rcases h.ends_statements with inner | ⟨s, next, fs', rfl, inner⟩
  · exact inner.completable closed_grammar finishes_grammar trivial hfits
  · refine List.forall_mem_append.2 ⟨?_, List.forall_mem_singleton.2 ?_⟩
    · exact inner.completable closed_grammar finishes_grammar trivial hfits
    · obtain ⟨us, hspan, hus⟩ := inner.spells closed_grammar rfl
      have htake : ts.take next = us := hspan.take_eq
      exact ⟨s, ofTokens_of_spells (htake ▸ hus)⟩

theorem truthful (h : Reports ts fs e) {f : Failure} (hf : f ∈ fs) :
    f.position ≤ ts.length ∧ f.Truthful ts.toArray := (h.ends.truthful f hf).2 (Nat.zero_le _)

theorem position_le_length (h : Reports ts fs e) : e.position ≤ ts.length := by
  obtain ⟨f, hf, hpos⟩ := h.exists_at_position
  exact hpos ▸ (h.truthful hf).1

/-- A sign of the place of the report is something that was wanted there. -/
theorem wanted_of_noticed (h : Reports ts fs e) {rest : List Token} {other : Array Token}
    (hhead : other[e.position]? = rest.head?) {fs' : List Failure} (hsub : fs' ⊆ fs)
    (hnoticed : Noticed other e.position fs') :
    ∃ f ∈ fs, f.position = e.position ∧ f.wanted.Meets rest := by
  obtain ⟨f, hf, hpast | ⟨hpos, t, hwanted, hread⟩⟩ := hnoticed
  · exact absurd (h.le_position (hsub hf)) (Nat.not_le_of_lt hpast)
  · rw [hhead] at hread
    exact ⟨f, hsub hf, hpos, hwanted ▸ hread⟩

/-- **Whatever could stand there was wanted.**  Had the tokens gone on by `rest` to a program, the
parse would have gone just as it did, unless it wanted what `rest` begins with.  A parse that ended
in statements wanted the end of the input there. -/
theorem exists_wanted (h : Reports ts fs e) {rest : List Token}
    (hrest : Accepted (ts.take e.position ++ rest)) :
    ∃ f ∈ fs, f.position = e.position ∧ f.wanted.Meets rest := by
  obtain ⟨s, hs⟩ := hrest
  have hother := reply_of_spells (spells_of_ofTokens hs)
  have hle := h.position_le_length
  have hsame : ∀ i < e.position, ts.toArray[i]? = (ts.take e.position ++ rest).toArray[i]? :=
    fun i hi => (getElem?_take_append_of_lt hle hi).symm
  have hhead := getElem?_take_append_self hle rest
  rcases h.ends_statements with inner | ⟨s', next, fs', rfl, inner⟩
  · rcases inner.alike reports_grammar watchful_grammar hsame rfl _ 0 with
      hreply | hreply | hnoticed | hpasses
    · exact absurd (hother.symm.trans hreply) nofun
    · exact absurd (hother.symm.trans hreply) nofun
    · exact h.wanted_of_noticed hhead (fun f hf => hf) hnoticed
    · exact hpasses.elim
  · have hmem : ⟨next, .endOfInput⟩ ∈ fs' ++ [⟨next, .endOfInput⟩] :=
      List.mem_append_right fs' (List.mem_singleton_self _)
    have hnext : next ≤ e.position := h.le_position hmem
    rcases inner.alike reports_grammar watchful_grammar hsame rfl _ 0 with
      hreply | hreply | hnoticed | hpasses
    · obtain ⟨_, hends⟩ := Reply.matched.inj (hother.symm.trans hreply)
      rw [List.length_append, List.length_take_of_le hle] at hends
      have hnil : rest = [] := List.length_eq_zero_iff.1 (by omega)
      have hpos : next = e.position := by omega
      exact ⟨_, hmem, hpos, hnil⟩
    · exact absurd (hother.symm.trans hreply) nofun
    · exact h.wanted_of_noticed hhead (List.subset_append_left _ _) hnoticed
    · exact absurd hnext (Nat.not_le_of_lt hpasses)

section Wants

variable {f : Failure} {t : Terminal}

theorem ofProgram (h : Reports ts fs e) (hf : f ∈ fs) (hwanted : f.wanted = .token t) :
    t.ofProgram := h.ends.asks asks_grammar rfl f hf t hwanted

theorem viable_of_wanted (h : Reports ts fs e) (hf : f ∈ fs) (hpos : f.position = e.position)
    (hwanted : f.wanted = .token t) {token : Token} {v : t.Value} (hread : t.read? token = some v) :
    Viable (ts.take e.position ++ [token]) := by
  have hcompletable := h.completable f hf
  rw [Failure.Completable, hwanted, hpos] at hcompletable
  obtain ⟨rest, s, hs⟩ := hcompletable token v hread
  refine ⟨rest, s, ?_⟩
  rwa [List.append_assoc]

theorem accepted_of_wanted (h : Reports ts fs e) (hf : f ∈ fs) (hpos : f.position = e.position)
    (hwanted : f.wanted = .endOfInput) :
    e.position < ts.length ∧ Accepted (ts.take e.position) := by
  have hcompletable := h.completable f hf
  have htruthful := (h.truthful hf).2
  rw [Failure.Completable, hwanted, hpos] at hcompletable
  rw [Failure.Truthful, hwanted, hpos] at htruthful
  exact ⟨htruthful, hcompletable⟩

end Wants

theorem viable (h : Reports ts fs e) : Viable (ts.take e.position) := by
  obtain ⟨f, hf, hpos⟩ := h.exists_at_position
  rcases hwanted : f.wanted with t | _
  · obtain ⟨token, v, hread⟩ := t.exists_read?
    exact (h.viable_of_wanted hf hpos hwanted hread).of_append
  · obtain ⟨_, s, hs⟩ := h.accepted_of_wanted hf hpos hwanted
    exact ⟨[], s, by rwa [List.append_nil]⟩

theorem mem_expected_token (h : Reports ts fs e) {d : String} (hd : d ≠ "end of input") :
    d ∈ e.expected ↔
      ∃ token : Token, token.kind? = some d ∧ Viable (ts.take e.position ++ [token]) := by
  rw [h.mem_expected]
  constructor
  · rintro ⟨f, hf, hpos, rfl⟩
    rcases hwanted : f.wanted with t | _
    · obtain ⟨token, v, hread⟩ := t.exists_read?
      exact ⟨token, Terminal.kind?_of_read? (h.ofProgram hf hwanted) hread,
        h.viable_of_wanted hf hpos hwanted hread⟩
    · rw [hwanted] at hd
      exact absurd rfl hd
  · rintro ⟨token, hkind, rest, hrest⟩
    rw [List.append_assoc] at hrest
    obtain ⟨f, hf, hpos, hmeets⟩ := h.exists_wanted hrest
    refine ⟨f, hf, hpos, ?_⟩
    rcases hwanted : f.wanted with t | _
    · rw [hwanted] at hmeets
      obtain ⟨v, hread⟩ := Option.isSome_iff_exists.1 hmeets
      have hdescription := Terminal.kind?_of_read? (h.ofProgram hf hwanted) hread
      exact Option.some.inj (hdescription.symm.trans hkind)
    · rw [hwanted] at hmeets
      exact absurd hmeets (List.cons_ne_nil _ _)

theorem mem_expected_end (h : Reports ts fs e) :
    "end of input" ∈ e.expected ↔ e.position < ts.length ∧ Accepted (ts.take e.position) := by
  rw [h.mem_expected]
  constructor
  · rintro ⟨f, hf, hpos, hdescription⟩
    rcases hwanted : f.wanted with t | _
    · obtain ⟨token, v, hread⟩ := t.exists_read?
      have hkind := Terminal.kind?_of_read? (h.ofProgram hf hwanted) hread
      rw [hwanted] at hdescription
      exact absurd (hkind.trans (congrArg some hdescription)) token.kind?_ne_endOfInput
    · exact h.accepted_of_wanted hf hpos hwanted
  · rintro ⟨_, hu⟩
    rw [← List.append_nil (ts.take e.position)] at hu
    obtain ⟨f, hf, hpos, hmeets⟩ := h.exists_wanted hu
    refine ⟨f, hf, hpos, ?_⟩
    rcases hwanted : f.wanted with t | _
    · rw [hwanted] at hmeets
      exact absurd hmeets nofun
    · rfl

/-- The token at the place of the report keeps no program possible. -/
theorem not_viable (h : Reports ts fs e) (hlt : e.position < ts.length) :
    ¬ Viable (ts.take (e.position + 1)) := by
  rintro ⟨rest, hrest⟩
  rw [List.take_succ_eq_append_getElem hlt, List.append_assoc] at hrest
  obtain ⟨f, hf, hpos, hmeets⟩ := h.exists_wanted hrest
  have htruthful := (h.truthful hf).2
  rw [Failure.Truthful] at htruthful
  rcases hwanted : f.wanted with t | _
  · rw [hwanted, hpos, List.getElem?_toArray, List.getElem?_eq_getElem hlt] at htruthful
    rw [hwanted] at hmeets
    exact absurd hmeets (by simp [Wanted.Meets, htruthful])
  · rw [hwanted] at hmeets
    exact absurd hmeets (List.cons_ne_nil _ _)

end Reports

/-! ## The report is exact -/

/-- **A failed parse is reported at the end of the longest viable prefix.** -/
theorem position_of_error {ts : List Token} {e : ParseError} (h : ofTokens ts = .error e) :
    e.position ≤ ts.length ∧ Viable (ts.take e.position) ∧
      (e.position < ts.length → ¬ Viable (ts.take (e.position + 1))) ∧
      (∀ n ≤ ts.length, Viable (ts.take n) → n ≤ e.position) ∧
      e.found = ts[e.position]? ∧ (e.found = none ↔ e.position = ts.length) := by
  obtain ⟨fs, hreports⟩ := reports_of_error h
  have hle := hreports.position_le_length
  refine ⟨hle, hreports.viable, hreports.not_viable, fun n hn hviable => ?_, hreports.found, ?_⟩
  · refine Nat.le_of_not_lt fun hlt => hreports.not_viable (by omega) ?_
    have htake : (ts.take n).take (e.position + 1) = ts.take (e.position + 1) := by
      rw [List.take_take, Nat.min_eq_left hlt]
    rw [← List.take_append_drop (e.position + 1) (ts.take n), htake] at hviable
    exact hviable.of_append
  · rw [hreports.found, List.getElem?_eq_none_iff]
    exact ⟨Nat.le_antisymm hle, fun heq => heq ▸ Nat.le_refl _⟩

/-- No program begins like `print x )`, though `print x` does. -/
theorem position_after_print :
    Viable [.word "print", .name "x"] ∧ ¬ Viable [.word "print", .name "x", .word ")"] := by
  have herror : ofTokens [.word "print", .name "x", .word ")"] = .error ⟨2, some (.word ")"),
      ["'*'", "'/'", "'+'", "'-'", "';'", "end of input"]⟩ := rfl
  obtain ⟨_, hviable, hnot, _⟩ := position_of_error herror
  exact ⟨hviable, hnot (by decide)⟩

/-- **A failed parse lists exactly what could have stood there.** -/
theorem expected_of_error {ts : List Token} {e : ParseError} (h : ofTokens ts = .error e) :
    (∀ d, d ≠ "end of input" →
      (d ∈ e.expected ↔
        ∃ token : Token, token.kind? = some d ∧ Viable (ts.take e.position ++ [token]))) ∧
      ("end of input" ∈ e.expected ↔ e.position < ts.length ∧ Accepted (ts.take e.position)) ∧
      e.expected ≠ [] ∧ e.expected.Nodup := by
  obtain ⟨fs, hreports⟩ := reports_of_error h
  exact ⟨fun d hd => hreports.mem_expected_token hd, hreports.mem_expected_end,
    hreports.expected_ne_nil, hreports.summary.nodup⟩

/-- In place of the parenthesis in `print x )`, the input may end or go on by an operator, but not
by a name. -/
theorem expected_after_print :
    Accepted [.word "print", .name "x"] ∧
      (∃ token : Token, token.kind? = some "'*'" ∧ Viable [.word "print", .name "x", token]) ∧
      ∀ token : Token, token.kind? = some "identifier" →
        ¬ Viable [.word "print", .name "x", token] := by
  have herror : ofTokens [.word "print", .name "x", .word ")"] = .error ⟨2, some (.word ")"),
      ["'*'", "'/'", "'+'", "'-'", "';'", "end of input"]⟩ := rfl
  obtain ⟨htoken, hend, _⟩ := expected_of_error herror
  refine ⟨(hend.1 (by decide)).2, (htoken "'*'" (by decide)).1 (by decide), ?_⟩
  intro token hkind hviable
  have hmem := (htoken "identifier" (by decide)).2 ⟨token, hkind, hviable⟩
  exact absurd hmem (by decide)

end Program

end Cam
