import Cam.Proofs.Token.Lexeme

/-!
# Proofs/Token/Layout — which source texts have which tokens

    gap token gap token … token gap

A source text is written as tokens with gaps between them: a gap is made of blanks and comments, and
may be empty.  The text of a token belongs to its class (`Lexeme`), and right after it stands
nothing that would prolong it.  `Token.ofSource_eq_ok_iff` says that these are the texts that have
tokens, and that they have the tokens they are written as, so nothing but blanks and comments is
ever lost.
-/

namespace Cam

/-! ## Lexemes, gaps and layouts -/

/-- The texts of each class of tokens. -/
inductive Lexeme : Tag → List Char → Prop where
  | operator {text : String} (h : text ∈ operators) : Lexeme .reserved text.toList
  | keyword {text : String} (h : text ∈ keywords) : Lexeme .reserved text.toList
  | string {body : List Char} (h : ∀ c ∈ body, c ≠ '"' ∧ c ≠ '\n') :
      Lexeme .string ('"' :: (body ++ ['"']))
  | int {digits : List Char} (hne : digits ≠ []) (h : ∀ c ∈ digits, c.isDigit)
      (hvalue : (Nat.ofDigitChars 10 digits 0 : Int) ≤ Integer.greatest) : Lexeme .int digits
  | id {c : Char} {cs : List Char} (hc : c.isAlpha) (hcs : ∀ d ∈ cs, isWordChar d)
      (h : String.ofList (c :: cs) ∉ keywords) : Lexeme .id (c :: cs)

/-- Blanks and comments, before the rest of a text.  A comment goes on to the end of its line or of
the text. -/
inductive Gap : (gap rest : List Char) → Prop where
  | nil {rest : List Char} : Gap [] rest
  | blank {c : Char} {gap rest : List Char} (hc : isSpace c) (h : Gap gap rest) :
      Gap (c :: gap) rest
  | comment {body gap rest : List Char} (hbody : ∀ c ∈ body, c ≠ '\n')
      (hend : Halts (· ≠ '\n') (gap ++ rest)) (h : Gap gap rest) : Gap ('#' :: (body ++ gap)) rest

/-- The text is the tokens in a row, with gaps before, between and after them. -/
inductive Layout : List Char → List Token → Prop where
  | done {gap : List Char} (hgap : Gap gap []) : Layout gap []
  | token {gap rest : List Char} {token : Token} {ts : List Token}
      (hgap : Gap gap (token.text.toList ++ rest)) (htext : Lexeme token.tag token.text.toList)
      (hend : Halts token.prolongs rest) (h : Layout rest ts) :
      Layout (gap ++ (token.text.toList ++ rest)) (token :: ts)

namespace Layout

variable {cs : List Char} {ts : List Token}

/-- One more blank in front makes the first gap longer. -/
theorem blank {c : Char} (hc : isSpace c) (h : Layout cs ts) : Layout (c :: cs) ts := by
  cases h with
  | done hgap => exact .done (.blank hc hgap)
  | token hgap htext hend h => exact .token (.blank hc hgap) htext hend h

theorem blanks {word : List Char} (hword : ∀ c ∈ word, isSpace c) (h : Layout cs ts) :
    Layout (word ++ cs) ts := by
  induction word with
  | nil => exact h
  | cons c word ih =>
    obtain ⟨hc, hword⟩ := List.forall_mem_cons.1 hword
    exact (ih hword).blank hc

/-- …and so does a comment. -/
theorem comment {body : List Char} (hbody : ∀ c ∈ body, c ≠ '\n') (hend : Halts (· ≠ '\n') cs)
    (h : Layout cs ts) : Layout ('#' :: (body ++ cs)) ts := by
  cases h with
  | done hgap =>
    rw [← List.append_nil cs] at hend
    exact .done (.comment hbody hend hgap)
  | token hgap htext hend' h =>
    rw [← List.append_assoc, ← List.cons_append]
    exact .token (.comment hbody hend hgap) htext hend' h

end Layout

/-! ## The classes of tokens -/

theorem Integer.isSome_ofChars? {cs : List Char} (h : ∀ c ∈ cs, c.isDigit) :
    (ofChars? cs).isSome ↔ cs ≠ [] ∧ (Nat.ofDigitChars 10 cs 0 : Int) ≤ greatest := by
  have hall : cs.all Char.isDigit := List.all_eq_true.2 h
  rw [ofChars?, decimal?_of_isDigit h, digits?]
  by_cases hne : cs = []
  · simp [hne]
  · have hleast : least ≤ (Nat.ofDigitChars 10 cs 0 : Int) := by
      have hzero : least ≤ 0 := by decide
      omega
    simp [hne, hall, ofInt?, hleast]

/-- A token fits its class if its text is a lexeme of the class. -/
theorem Token.fits_iff (token : Token) : token.Fits ↔ Lexeme token.tag token.text.toList := by
  obtain ⟨text, tag⟩ := token
  constructor
  · intro h
    cases tag with
    | reserved => exact h.elim .operator .keyword
    | int =>
      obtain ⟨hdigits, hsome⟩ := h
      obtain ⟨hne, hvalue⟩ := (Integer.isSome_ofChars? hdigits).1 hsome
      exact .int hne hdigits hvalue
    | string =>
      obtain ⟨body, htext, hbody⟩ := h
      exact htext ▸ .string hbody
    | id =>
      obtain ⟨hword, hkeyword⟩ := h
      rcases htext : text.toList with _ | ⟨c, cs⟩
      · rw [htext] at hword
        cases hword
      · rw [htext] at hword
        obtain ⟨hc, hcs⟩ := Bool.and_eq_true_iff.1 hword
        rw [← String.ofList_toList (s := text), htext] at hkeyword
        exact .id hc (List.all_eq_true.1 hcs) hkeyword
  · intro h
    generalize hcs : text.toList = cs at h
    cases h with
    | operator h => exact .inl (String.toList_inj.1 hcs ▸ h)
    | keyword h => exact .inr (String.toList_inj.1 hcs ▸ h)
    | string h => exact ⟨_, hcs, h⟩
    | int hne h hvalue =>
      subst hcs
      exact ⟨h, (Integer.isSome_ofChars? h).2 ⟨hne, hvalue⟩⟩
    | id hc hall hkeyword =>
      rw [← hcs, String.ofList_toList] at hkeyword
      refine ⟨?_, hkeyword⟩
      rw [hcs]
      exact Bool.and_eq_true_iff.2 ⟨hc, List.all_eq_true.2 hall⟩

/-! ## A layout is read as its tokens -/

namespace Token

variable {place : Location}

/-- A comment makes no token. -/
theorem scan_comment {body rest : List Char} (hbody : ∀ c ∈ body, c ≠ '\n')
    (hend : Halts (· ≠ '\n') rest) :
    scan place ('#' :: (body ++ rest)) = scan (place.after ('#' :: body)) rest := by
  have hline : ∀ c ∈ body, decide (c ≠ '\n') = true := fun c hc => decide_eq_true (hbody c hc)
  have hfirst : Rule.first? ('#' :: (body ++ rest)) =
      some ⟨⟨.comment, none⟩, '#' :: body, rest⟩ := by
    rw [Rule.first?_comment, hend.takeWhile_append hline, hend.dropWhile_append hline]
  exact scan_skip hfirst rfl

theorem scan_gap {gap rest : List Char} (h : Gap gap rest) :
    scan place (gap ++ rest) = scan (place.after gap) rest := by
  induction h generalizing place with
  | nil => rfl
  | blank hc _ ih => rw [List.cons_append, scan_blank hc, ih, Location.after_cons]
  | comment hbody hend _ ih =>
    rw [List.cons_append, List.append_assoc, scan_comment hbody hend, ih, ← Location.after_append,
      List.cons_append]

theorem scan_of_layout {cs : List Char} {ts : List Token} (h : Layout cs ts) :
    scan place cs = .ok ts := by
  induction h generalizing place with
  | @done gap hgap => rw [← List.append_nil gap, scan_gap hgap, scan_nil]
  | @token gap rest token ts hgap htext hend _ ih =>
    rw [scan_gap hgap, scan_token (token.fits_iff.2 htext) hend, ih]
    rfl

end Token

/-! ## What is read was laid out -/

theorem Halts.dropWhile (p : Char → Bool) (cs : List Char) : Halts p (cs.dropWhile p) := by
  intro c hc
  have hhead := List.head?_dropWhile_not p cs
  rw [Option.mem_def.1 hc] at hhead
  exact hhead

/-- What a text does not begin with, no front part of it begins with. -/
theorem Halts.of_front {p : Char → Bool} {cs ds : List Char} (h : Halts p cs) (hds : ds <+: cs) :
    Halts p ds := by
  intro c hc
  obtain ⟨tail, rfl⟩ := List.head?_eq_some_iff.1 (Option.mem_def.1 hc)
  obtain ⟨rest, rfl⟩ := hds
  exact h c rfl

namespace Rule

variable {cs : List Char} {piece : Piece}

/-- A piece goes on as far as it can, if its first character always begins a run. -/
theorem halts_of_run {p : Char → Bool} (h : first? cs = some piece)
    (hrun : ∀ c ∈ piece.lexeme.head?, ∀ tail,
      (first? (c :: tail)).map Piece.rest = some ((c :: tail).dropWhile p)) :
    Halts p piece.rest := by
  have happend := append_of_first?_eq_some h
  rcases hlexeme : piece.lexeme with _ | ⟨c, word⟩
  · exact absurd hlexeme (lexeme_ne_nil_of_first? h)
  · rw [hlexeme] at happend
    have hrest := hrun c (by rw [hlexeme]; rfl) (word ++ piece.rest)
    rw [← List.cons_append, happend, h] at hrest
    obtain hrest : piece.rest = cs.dropWhile p := Option.some.inj hrest
    exact hrest ▸ .dropWhile p cs

theorem halts_of_isWord (h : first? cs = some piece) (hword : isWord piece.lexeme) :
    Halts isWordChar piece.rest := by
  refine halts_of_run h fun c hc tail => ?_
  obtain ⟨word, hlexeme⟩ := List.head?_eq_some_iff.1 (Option.mem_def.1 hc)
  rw [hlexeme] at hword
  rw [first?_of_isAlpha (Bool.and_eq_true_iff.1 hword).1]
  rfl

theorem halts_of_isDigit (h : first? cs = some piece) (hdigits : ∀ c ∈ piece.lexeme, c.isDigit) :
    Halts Char.isDigit piece.rest := by
  refine halts_of_run h fun c hc tail => ?_
  rw [first?_of_isDigit (hdigits c (List.mem_of_mem_head? hc))]
  rfl

theorem tag_of_token?_eq_none (h : piece.token? = .ok none) : piece.rule.tag = none := by
  unfold Piece.token? at h
  split at h
  next htag => exact htag
  next => split at h <;> cases h
  next => cases h

/-- An operator that is taken is not the beginning of a longer one, which would have been taken. -/
theorem halts_of_operator {text : String} (h : first? cs = some piece)
    (htext : text.toList = piece.lexeme) (hmem : text ∈ ["=", "<", ">"]) :
    Halts (· = '=') piece.rest := by
  intro c hc
  refine Bool.eq_false_iff.2 fun heq => ?_
  obtain rfl : c = '=' := of_decide_eq_true heq
  obtain ⟨rest, hrest⟩ := List.head?_eq_some_iff.1 (Option.mem_def.1 hc)
  have hcs : text.toList ++ '=' :: rest = cs := by
    rw [htext, ← hrest]
    exact append_of_first?_eq_some h
  have hlonger := first?_longer hmem rest
  rw [hcs, h] at hlonger
  have hlexeme : piece.lexeme = (text ++ "=").toList :=
    congrArg Piece.lexeme (Option.some.inj hlonger)
  have hlength := congrArg List.length (htext.trans hlexeme)
  simp at hlength

end Rule

namespace Token

/-- A token that was read is not prolonged by what follows it. -/
theorem halts_of_first? {cs : List Char} {piece : Rule.Piece} {token : Token}
    (h : Rule.first? cs = some piece) (htoken : piece.token? = .ok (some token)) :
    Halts token.prolongs piece.rest := by
  have hfits := Rule.fits_of_first? h htoken
  obtain ⟨htext, _⟩ := Rule.of_token?_eq_ok htoken
  obtain ⟨text, tag⟩ := token
  cases tag with
  | reserved =>
    by_cases hkeyword : text ∈ keywords
    · intro c hc
      have hword := Rule.halts_of_isWord h (htext ▸ isWord_keywords text hkeyword) c hc
      simp only [prolongs, if_pos hkeyword, hword]
    · by_cases hmem : text ∈ ["=", "<", ">"]
      · intro c hc
        have hequals : decide (c = '=') = false := Rule.halts_of_operator h htext hmem c hc
        simp only [prolongs, if_neg hkeyword, hequals, Bool.and_false]
      · intro c _
        simp only [prolongs, if_neg hkeyword, decide_eq_false hmem, Bool.false_and]
  | int => exact Rule.halts_of_isDigit h (htext ▸ hfits.1)
  | string => exact fun _ _ => rfl
  | id => exact Rule.halts_of_isWord h (htext ▸ hfits.1)

/-- A piece without a token is a run of blanks or a comment, so it is part of a gap, also where only
a front part of what follows it is there. -/
theorem layout_skip {cs rest : List Char} {piece : Rule.Piece} (h : Rule.first? cs = some piece)
    (htoken : piece.token? = .ok none) (hrest : rest <+: piece.rest) {ts : List Token}
    (hlayout : Layout rest ts) : Layout (piece.lexeme ++ rest) ts := by
  have htag : piece.rule.tag = none := Rule.tag_of_token?_eq_none htoken
  have hgaps : ∀ rule ∈ Rule.all, rule.tag = none →
      rule = ⟨.spaces, none⟩ ∨ rule = ⟨.comment, none⟩ := by decide
  obtain ⟨rule, hrule, htake⟩ := List.exists_of_findSome?_eq_some h
  obtain ⟨⟨lexeme, _⟩, hsplit, rfl⟩ := Option.map_eq_some_iff.1 htake
  obtain rfl | rfl := hgaps rule hrule htag
  · exact hlayout.blanks (Pattern.all_of_run? hsplit)
  · simp only [Pattern.split?] at hsplit
    split at hsplit
    next cs =>
      cases hsplit
      have hline : ∀ c ∈ cs.takeWhile (· ≠ '\n'), c ≠ '\n' := fun c hc =>
        of_decide_eq_true (List.all_eq_true.1 List.all_takeWhile c hc)
      exact hlayout.comment hline ((Halts.dropWhile _ cs).of_front hrest)
    next => cases hsplit

/-- **A piece stands before the layout of a front part of what follows it.** -/
theorem layout_piece {cs rest : List Char} {piece : Rule.Piece} (h : Rule.first? cs = some piece)
    {token : Option Token} (htoken : piece.token? = .ok token) (hrest : rest <+: piece.rest)
    {ts : List Token} (hlayout : Layout rest ts) :
    Layout (piece.lexeme ++ rest) (token.toList ++ ts) := by
  cases token with
  | none => exact layout_skip h htoken hrest hlayout
  | some token =>
    obtain ⟨htext, _⟩ := Rule.of_token?_eq_ok htoken
    have hlexeme := token.fits_iff.1 (Rule.fits_of_first? h htoken)
    rw [← htext]
    exact .token .nil hlexeme ((halts_of_first? h htoken).of_front hrest) hlayout

theorem layout_of_scan {place : Location} {cs : List Char} {ts : List Token}
    (h : scan place cs = .ok ts) : Layout cs ts := by
  fun_induction scan place cs generalizing ts with
  | case1 =>
    cases h
    exact .done .nil
  | case2 => cases h
  | case3 => cases h
  | case4 place c cs piece hfirst token htoken ih =>
    rcases hrest : scan (place.after piece.lexeme) piece.rest with fault | ts'
    · rw [hrest] at h
      cases h
    · rw [hrest] at h
      obtain rfl : token.toList ++ ts' = ts := Except.ok.inj h
      rw [← Rule.append_of_first?_eq_some hfirst]
      exact layout_piece hfirst htoken List.prefix_rfl (ih hrest)

/-- **The texts that have tokens are the ones that are written as tokens with gaps between them**,
and they have the tokens they are written as. -/
theorem ofSource_eq_ok_iff (source : String) (ts : List Token) :
    ofSource source = .ok ts ↔ Layout source.toList ts :=
  ⟨layout_of_scan, scan_of_layout⟩

end Token

end Cam
