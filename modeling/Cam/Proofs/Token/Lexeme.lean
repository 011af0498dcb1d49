import Cam.Token.Scan

/-!
# Proofs/Token/Lexeme — which rule takes which text

What the next piece of a text is depends on its first character.  A letter begins a word, which
goes on as far as it can and is a keyword or a name (`Rule.first?_of_isAlpha`); a digit begins a
number, a double quote a string; other marks begin operators, blanks and comments.  So a token whose
text `Fits` its class is read back wherever what follows does not prolong it (`Rule.first?_token`),
and all tokens of a scan fit (`Token.fits_of_scan`).
-/

namespace Cam

/-! ## Runs of characters -/

/-- The text does not begin with a character of the class. -/
def Halts (p : Char → Bool) (cs : List Char) : Prop := ∀ c ∈ cs.head?, p c = false

namespace Halts

variable {p : Char → Bool} {word cs : List Char}

theorem nil : Halts p [] := fun _ hc => absurd hc (by simp)

theorem cons {c : Char} (h : p c = false) : Halts p (c :: cs) := by
  intro d hd
  obtain rfl : c = d := Option.some.inj hd
  exact h

theorem takeWhile_eq_nil (h : Halts p cs) : cs.takeWhile p = [] := by
  rcases cs with _ | ⟨c, cs⟩
  · rfl
  · exact List.takeWhile_cons_of_neg (by simp [h c rfl])

theorem dropWhile_eq_self (h : Halts p cs) : cs.dropWhile p = cs := by
  rcases cs with _ | ⟨c, cs⟩
  · rfl
  · exact List.dropWhile_cons_of_neg (by simp [h c rfl])

/-- A run before a text that does not go on with it is the whole run. -/
theorem takeWhile_append (h : Halts p cs) (hword : ∀ c ∈ word, p c) :
    (word ++ cs).takeWhile p = word := by
  rw [List.takeWhile_append_of_pos hword, h.takeWhile_eq_nil, List.append_nil]

theorem dropWhile_append (h : Halts p cs) (hword : ∀ c ∈ word, p c) :
    (word ++ cs).dropWhile p = cs := by
  rw [List.dropWhile_append_of_pos hword, h.dropWhile_eq_self]

end Halts

/-! ## Characters and words -/

theorem isDigit_of_isAlpha {c : Char} (h : c.isAlpha) : c.isDigit = false := by
  refine Bool.eq_false_iff.2 fun hdigit => ?_
  have hnine : c.val ≤ '9'.val := of_decide_eq_true (Bool.and_eq_true_iff.1 hdigit).2
  rcases Bool.or_eq_true_iff.1 h with hupper | hlower
  · have hle : 'A'.val ≤ c.val := (of_decide_eq_true hupper).1
    exact absurd (UInt32.le_trans hle hnine) (by decide)
  · have hle : 'a'.val ≤ c.val := of_decide_eq_true (Bool.and_eq_true_iff.1 hlower).1
    exact absurd (UInt32.le_trans hle hnine) (by decide)

theorem isAlphanum_of_isSpace {c : Char} (h : isSpace c) : c.isAlphanum = false := by
  simp only [isSpace, Bool.or_eq_true, decide_eq_true_eq] at h
  rcases h with ((rfl | rfl) | rfl) | rfl <;> rfl

/-- A letter, then letters, digits and underscores. -/
def isWord : List Char → Bool
  | [] => false
  | c :: cs => c.isAlpha && cs.all isWordChar

theorem isWordChar_of_isAlpha {c : Char} (h : c.isAlpha) : isWordChar c :=
  Bool.or_eq_true_iff.2 (.inl (Bool.or_eq_true_iff.2 (.inl h)))

theorem isWordChar_of_isWord {cs : List Char} (h : isWord cs) : ∀ c ∈ cs, isWordChar c := by
  rcases cs with _ | ⟨c, cs⟩
  · cases h
  · obtain ⟨hc, hcs⟩ := Bool.and_eq_true_iff.1 h
    exact List.forall_mem_cons.2 ⟨isWordChar_of_isAlpha hc, List.all_eq_true.1 hcs⟩

theorem isWord_keywords : ∀ text ∈ keywords, isWord text.toList := by decide

/-! ## Patterns -/

namespace Pattern

theorem run?_eq_none {p : Char → Bool} {cs : List Char} (h : Halts p cs) : run? p cs = none := by
  rw [run?, h.takeWhile_eq_nil]

theorem run?_of_pos {p : Char → Bool} {c : Char} (hc : p c) (cs : List Char) :
    run? p (c :: cs) = some ((c :: cs).takeWhile p, (c :: cs).dropWhile p) := by
  rw [run?, List.takeWhile_cons_of_pos hc]

theorem all_of_run? {p : Char → Bool} {cs lexeme rest : List Char}
    (h : run? p cs = some (lexeme, rest)) : ∀ c ∈ lexeme, p c := by
  have hall : (cs.takeWhile p).all p := List.all_takeWhile
  unfold run? at h
  split at h
  next => cases h
  next c word hword =>
    cases h
    rw [← hword]
    exact List.all_eq_true.1 hall

/-! ## The first character -/

/-- Whether a text that begins with the character may have a piece of this shape. -/
def mayStart (c : Char) : Pattern → Bool
  | .spaces => isSpace c
  | .comment => c = '#'
  | .exactly text => text.toList.head? = some c
  | .quoted => c = '"'
  | .keyword text => text.toList.head? = some c
  | .digits => c.isDigit
  | .name => c.isAlpha

theorem dropWord_eq_none {word : List Char} {c : Char} (hne : word ≠ [])
    (h : word.head? ≠ some c) (cs : List Char) : dropWord word (c :: cs) = none := by
  rcases word with _ | ⟨w, word⟩
  · exact absurd rfl hne
  · exact if_neg fun heq => h (congrArg some heq)

/-- **Other characters start no piece of the shape.** -/
theorem split?_eq_none {p : Pattern} (hp : p.Proper) {c : Char} (h : p.mayStart c = false)
    (cs : List Char) : p.split? (c :: cs) = none := by
  cases p with
  | spaces => exact run?_eq_none (.cons h)
  | comment =>
    have hne : c ≠ '#' := of_decide_eq_false h
    simp only [split?]
    split
    next heq => exact absurd (List.cons.inj heq).1 hne
    next => rfl
  | exactly text =>
    have hne : text.toList.head? ≠ some c := of_decide_eq_false h
    simp only [split?, dropWord_eq_none hp hne, Option.map_none]
  | quoted =>
    have hne : c ≠ '"' := of_decide_eq_false h
    simp only [split?]
    split
    next heq => exact absurd (List.cons.inj heq).1 hne
    next => rfl
  | keyword text =>
    have hne : text.toList.head? ≠ some c := of_decide_eq_false h
    simp only [split?, dropWord_eq_none hp hne]
  | digits => exact run?_eq_none (.cons h)
  | name => exact if_neg (by simp [show c.isAlpha = false from h])

/-- A keyword is taken where it is the whole word, and not where the word goes on. -/
theorem split?_keyword {text : String} (htext : ∀ c ∈ text.toList, isWordChar c) (cs : List Char) :
    (Pattern.keyword text).split? cs =
      if cs.takeWhile isWordChar = text.toList then
        some (text.toList, cs.dropWhile isWordChar)
      else none := by
  simp only [split?]
  split
  next rest hrest =>
    obtain rfl := dropWord_eq_some_iff.1 hrest
    split
    next hany =>
      obtain ⟨c, hc, hword⟩ := (Option.any_eq_true _ _).1 hany
      obtain ⟨rest, rfl⟩ := List.head?_eq_some_iff.1 hc
      rw [List.takeWhile_append_of_pos htext, List.takeWhile_cons_of_pos hword, if_neg (by simp)]
    next hany =>
      have hhalts : Halts isWordChar rest :=
        (Option.any_eq_false _ _).1 (Bool.eq_false_iff.2 hany)
      rw [hhalts.takeWhile_append htext, hhalts.dropWhile_append htext, if_pos rfl]
  next hnone =>
    refine (if_neg fun heq => ?_).symm
    have happend := List.takeWhile_append_dropWhile (p := isWordChar) (l := cs)
    rw [heq] at happend
    exact absurd (dropWord_eq_some_iff.2 happend.symm) (by simp [hnone])

end Pattern

namespace Rule

/-! ## The first rule -/

/-- The rules for blanks, comments and operators. -/
def signs : List Rule :=
  [⟨.spaces, none⟩, ⟨.comment, none⟩]
    ++ operators.map (fun text => ⟨.exactly text, some .reserved⟩)

/-- The rules that come before the ones for words and numbers. -/
def marks : List Rule := signs ++ [⟨.quoted, some .string⟩]

/-- The rules for keywords. -/
def words : List Rule := keywords.map fun text => ⟨.keyword text, some .reserved⟩

theorem all_eq : all = marks ++ (words ++ [⟨.digits, some .int⟩, ⟨.name, some .id⟩]) := rfl

theorem findSome?_eq_none {rules : List Rule} (hproper : ∀ rule ∈ rules, rule.pattern.Proper)
    {c : Char} (h : ∀ rule ∈ rules, rule.pattern.mayStart c = false) (cs : List Char) :
    rules.findSome? (·.take? (c :: cs)) = none := by
  refine List.findSome?_eq_none_iff.2 fun rule hrule => ?_
  rw [take?, Pattern.split?_eq_none (hproper rule hrule) (h rule hrule), Option.map_none]

/-- A character that a text of the list begins with is not of a class in which none of them
begins. -/
theorem eq_false_of_mayStart {p : Char → Bool} {texts : List String}
    (h : ∀ text ∈ texts, text.toList.head?.all fun d => !p d) {text : String} (htext : text ∈ texts)
    {c : Char} (hstart : text.toList.head? = some c) : p c = false := by
  have hall := h text htext
  rw [hstart] at hall
  exact Bool.not_eq_eq_eq_not.1 hall

/-- No mark is a letter or a digit. -/
theorem mayStart_marks {c : Char} (hc : c.isAlphanum) :
    ∀ rule ∈ marks, rule.pattern.mayStart c = false := by
  have hoperators : ∀ text ∈ operators, text.toList.head?.all fun d => !d.isAlphanum := by decide
  intro rule hrule
  refine Bool.eq_false_iff.2 fun hstart => Bool.eq_false_iff.1 ?_ hc
  simp only [marks, signs, List.mem_append, List.mem_cons, List.mem_map, List.not_mem_nil, or_false]
    at hrule
  obtain ((rfl | rfl) | ⟨text, htext, rfl⟩) | rfl := hrule
  · exact isAlphanum_of_isSpace hstart
  · obtain rfl := of_decide_eq_true hstart
    rfl
  · exact eq_false_of_mayStart hoperators htext (of_decide_eq_true hstart)
  · obtain rfl := of_decide_eq_true hstart
    rfl

theorem isWordChar_keywords : ∀ text ∈ keywords, ∀ c ∈ text.toList, isWordChar c :=
  fun text htext => isWordChar_of_isWord (isWord_keywords text htext)

theorem mayStart_words {c : Char} (hc : c.isDigit) :
    ∀ rule ∈ words, rule.pattern.mayStart c = false := by
  have hkeywords : ∀ text ∈ keywords, text.toList.head?.all fun d => !d.isDigit := by decide
  intro rule hrule
  refine Bool.eq_false_iff.2 fun hstart => Bool.eq_false_iff.1 ?_ hc
  obtain ⟨text, htext, rfl⟩ := List.mem_map.1 hrule
  exact eq_false_of_mayStart hkeywords htext (of_decide_eq_true hstart)

/-- The rule that takes a whole word. -/
def ofWord (word : List Char) : Rule :=
  if String.ofList word ∈ keywords then ⟨.keyword (String.ofList word), some .reserved⟩
  else ⟨.name, some .id⟩

/-- The keyword that a text begins with is its first word. -/
theorem findSome?_keywords {texts : List String}
    (htexts : ∀ text ∈ texts, ∀ c ∈ text.toList, isWordChar c) (cs : List Char) :
    (texts.map fun text => (⟨.keyword text, some .reserved⟩ : Rule)).findSome? (·.take? cs) =
      if String.ofList (cs.takeWhile isWordChar) ∈ texts then
        some ⟨⟨.keyword (String.ofList (cs.takeWhile isWordChar)), some .reserved⟩,
          cs.takeWhile isWordChar, cs.dropWhile isWordChar⟩
      else none := by
  induction texts with
  | nil => simp
  | cons text texts ih =>
    obtain ⟨htext, htexts⟩ := List.forall_mem_cons.1 htexts
    rw [List.map_cons, List.findSome?_cons, take?, Pattern.split?_keyword htext, ih htexts]
    by_cases heq : cs.takeWhile isWordChar = text.toList
    · rw [if_pos heq, heq, String.ofList_toList, if_pos List.mem_cons_self]
      rfl
    · have hne : String.ofList (cs.takeWhile isWordChar) ≠ text := by
        rintro rfl
        exact heq String.toList_ofList.symm
      rw [if_neg heq]
      simp [hne]

/-! ## Words, numbers and strings -/

theorem findSome?_marks {c : Char} (hc : c.isAlphanum) (cs : List Char) :
    marks.findSome? (·.take? (c :: cs)) = none := by
  have hproper : ∀ rule ∈ marks, rule.pattern.Proper := by decide
  exact findSome?_eq_none hproper (mayStart_marks hc) cs

/-- **A letter begins a word**, which is a keyword or a name. -/
theorem first?_of_isAlpha {c : Char} (hc : c.isAlpha) (cs : List Char) :
    first? (c :: cs) = some ⟨ofWord ((c :: cs).takeWhile isWordChar),
      (c :: cs).takeWhile isWordChar, (c :: cs).dropWhile isWordChar⟩ := by
  have halnum : c.isAlphanum := Bool.or_eq_true_iff.2 (.inl hc)
  have hword : isWordChar c := isWordChar_of_isAlpha hc
  have hdigits : (⟨.digits, some .int⟩ : Rule).take? (c :: cs) = none := by
    have hproper : Pattern.digits.Proper := trivial
    rw [take?, Pattern.split?_eq_none hproper (isDigit_of_isAlpha hc), Option.map_none]
  have hname : (⟨.name, some .id⟩ : Rule).take? (c :: cs) = some ⟨⟨.name, some .id⟩,
      (c :: cs).takeWhile isWordChar, (c :: cs).dropWhile isWordChar⟩ := by
    rw [List.takeWhile_cons_of_pos hword, List.dropWhile_cons_of_pos hword, take?, Pattern.split?,
      if_pos hc]
    rfl
  rw [first?, all_eq, List.findSome?_append, findSome?_marks halnum, Option.none_or,
    List.findSome?_append, words, findSome?_keywords isWordChar_keywords, ofWord]
  split
  next => rfl
  next => simp only [Option.none_or, List.findSome?_cons, hdigits, hname]

/-- **A digit begins a number.** -/
theorem first?_of_isDigit {c : Char} (hc : c.isDigit) (cs : List Char) :
    first? (c :: cs) = some ⟨⟨.digits, some .int⟩, (c :: cs).takeWhile Char.isDigit,
      (c :: cs).dropWhile Char.isDigit⟩ := by
  have halnum : c.isAlphanum := Bool.or_eq_true_iff.2 (.inr hc)
  have hproper : ∀ rule ∈ words, rule.pattern.Proper := by decide
  have hdigits : (⟨.digits, some .int⟩ : Rule).take? (c :: cs) = some ⟨⟨.digits, some .int⟩,
      (c :: cs).takeWhile Char.isDigit, (c :: cs).dropWhile Char.isDigit⟩ := by
    rw [take?, Pattern.split?, Pattern.run?_of_pos hc]
    rfl
  rw [first?, all_eq, List.findSome?_append, findSome?_marks halnum, Option.none_or,
    List.findSome?_append, findSome?_eq_none hproper (mayStart_words hc), Option.none_or,
    List.findSome?_cons, hdigits]

/-- **A blank begins a run of blanks.** -/
theorem first?_of_isSpace {c : Char} (hc : isSpace c) (cs : List Char) :
    first? (c :: cs) = some ⟨⟨.spaces, none⟩, (c :: cs).takeWhile isSpace,
      (c :: cs).dropWhile isSpace⟩ := by
  have hspaces : (⟨.spaces, none⟩ : Rule).take? (c :: cs) = some ⟨⟨.spaces, none⟩,
      (c :: cs).takeWhile isSpace, (c :: cs).dropWhile isSpace⟩ := by
    rw [take?, Pattern.split?, Pattern.run?_of_pos hc]
    rfl
  have hall : all = ⟨.spaces, none⟩ :: all.tail := rfl
  rw [first?, hall, List.findSome?_cons, hspaces]

/-- **A `#` begins a comment**, which goes on to the end of its line. -/
theorem first?_comment (cs : List Char) :
    first? ('#' :: cs) = some ⟨⟨.comment, none⟩, '#' :: cs.takeWhile (· ≠ '\n'),
      cs.dropWhile (· ≠ '\n')⟩ := rfl

/-- **A double quote begins a string.** -/
theorem first?_quoted {body : List Char} (hbody : ∀ c ∈ body, c ≠ '"' ∧ c ≠ '\n')
    (rest : List Char) : first? ('"' :: (body ++ '"' :: rest)) =
      some ⟨⟨.quoted, some .string⟩, '"' :: (body ++ ['"']), rest⟩ := by
  have hhalts : Halts (fun c => c ≠ '"' && c ≠ '\n') ('"' :: rest) := .cons rfl
  have hinner : ∀ c ∈ body, (fun c => decide (c ≠ '"') && decide (c ≠ '\n')) c = true := by
    intro c hc
    simpa using hbody c hc
  have hsplit : Pattern.quoted.split? ('"' :: (body ++ '"' :: rest)) =
      some ('"' :: (body ++ ['"']), rest) := by
    simp only [Pattern.split?]
    rw [hhalts.dropWhile_append hinner, hhalts.takeWhile_append hinner]
    rfl
  have hsigns : ∀ rule ∈ signs, rule.pattern.Proper ∧ rule.pattern.mayStart '"' = false := by decide
  have hall : all = signs ++ (⟨.quoted, some .string⟩ ::
    (words ++ [⟨.digits, some .int⟩, ⟨.name, some .id⟩])) := rfl
  have hnone := findSome?_eq_none (fun rule hrule => (hsigns rule hrule).1)
    (fun rule hrule => (hsigns rule hrule).2) (body ++ '"' :: rest)
  rw [first?, hall, List.findSome?_append, hnone, Option.none_or, List.findSome?_cons, take?,
    hsplit]
  rfl

/-- **An operator is read where no longer one stands.**  The first two characters settle all but the
three that a longer one begins with. -/
theorem first?_operator {text : String} (h : text ∈ operators) {rest : List Char}
    (hrest : text ∈ ["=", "<", ">"] → Halts (· = '=') rest) :
    first? (text.toList ++ rest) =
      some ⟨⟨.exactly text, some .reserved⟩, text.toList, rest⟩ := by
  simp only [operators, List.mem_cons, List.not_mem_nil, or_false] at h
  rcases h with rfl | rfl | rfl | rfl | rfl | rfl | rfl | rfl | rfl | rfl | rfl | rfl | rfl | rfl
  all_goals try rfl
  all_goals
    have hhalts := hrest (by decide)
    rcases rest with _ | ⟨c, rest⟩
    · rfl
    · have hne : ¬ '=' = c := fun heq => of_decide_eq_false (hhalts c rfl) heq.symm
      simp [first?, all, operators, take?, Pattern.split?, dropWord, hne, Pattern.run?, isSpace]

/-- The operators of one character that a longer one begins with. -/
theorem append_mem_operators : ∀ text ∈ ["=", "<", ">"],
    text ++ "=" ∈ operators ∧ text ++ "=" ∉ ["=", "<", ">"] := by decide

/-- A longer operator is read, and not the one of one character that it begins with. -/
theorem first?_longer {text : String} (h : text ∈ ["=", "<", ">"]) (rest : List Char) :
    first? (text.toList ++ '=' :: rest) =
      some ⟨⟨.exactly (text ++ "="), some .reserved⟩, (text ++ "=").toList, rest⟩ := by
  obtain ⟨hlonger, hnone⟩ := append_mem_operators text h
  have hends : text ++ "=" ∈ ["=", "<", ">"] → Halts (· = '=') rest := fun h => absurd h hnone
  have htext : (text ++ "=").toList ++ rest = text.toList ++ '=' :: rest := by
    rw [String.toList_append, List.append_assoc]
    rfl
  rw [← htext]
  exact first?_operator hlonger hends

end Rule

/-! ## Numbers -/

namespace Integer

theorem decimal?_of_isDigit {cs : List Char} (h : ∀ c ∈ cs, c.isDigit) :
    decimal? cs = (digits? cs).map Int.ofNat := by
  unfold decimal?
  split
  next => exact absurd (h '-' List.mem_cons_self) (by decide)
  next => exact absurd (h '+' List.mem_cons_self) (by decide)
  next => rfl

/-- Digits without a sign are no negative number. -/
theorem toInt_nonneg {text : String} {n : Int64} (hdigits : ∀ c ∈ text.toList, c.isDigit)
    (h : ofText? text = some n) : 0 ≤ n.toInt := by
  obtain ⟨i, hi, hn⟩ := Option.bind_eq_some_iff.1 h
  rw [decimal?_of_isDigit hdigits] at hi
  obtain ⟨k, _, rfl⟩ := Option.map_eq_some_iff.1 hi
  rw [toInt_of_ofInt?_eq_some hn]
  exact Int.natCast_nonneg k

/-- The decimal form of a number that is not negative. -/
theorem toList_text {n : Int64} (h : 0 ≤ n.toInt) :
    (text n).toList = Nat.toDigits 10 n.toInt.toNat := by
  rw [text, ← Int.toNat_of_nonneg h]
  exact Nat.toList_repr

theorem isDigit_text {n : Int64} (h : 0 ≤ n.toInt) : ∀ c ∈ (text n).toList, c.isDigit := by
  intro c hc
  rw [toList_text h] at hc
  exact Nat.isDigit_of_mem_toDigits (by decide) (by decide) hc

/-- **The decimal form is read back.** -/
theorem ofText?_text {n : Int64} (h : 0 ≤ n.toInt) : ofText? (text n) = some n := by
  have hdigits : digits? (text n).toList = some n.toInt.toNat := by
    have hall : (text n).toList.all Char.isDigit := List.all_eq_true.2 (isDigit_text h)
    have hne : (text n).toList ≠ [] := toList_text h ▸ Nat.toDigits_ne_nil
    rw [digits?, if_pos ⟨hne, hall⟩, toList_text h, Nat.ofDigitChars_ten_toDigits]
  rw [ofText?, ofChars?, decimal?_of_isDigit (isDigit_text h), hdigits, Option.map_some,
    Option.bind_some, Int.ofNat_eq_natCast, Int.toNat_of_nonneg h, ofInt?_toInt]

end Integer

/-! ## Tokens -/

/-- The text is a word, but no keyword. -/
def IsName (text : String) : Prop := isWord text.toList ∧ text ∉ keywords

/-- The text stands between double quotes, on one line. -/
def IsQuoted (raw : String) : Prop :=
  ∃ body, raw.toList = '"' :: (body ++ ['"']) ∧ ∀ c ∈ body, c ≠ '"' ∧ c ≠ '\n'

/-- The text is a number that fits in 64 bits. -/
def IsNumber (text : String) : Prop :=
  (∀ c ∈ text.toList, c.isDigit) ∧ (Integer.ofText? text).isSome

namespace Token

/-- The text of the token is one of its class. -/
def Fits (token : Token) : Prop :=
  match token.tag with
  | .reserved => token.text ∈ operators ∨ token.text ∈ keywords
  | .int => IsNumber token.text
  | .string => IsQuoted token.text
  | .id => IsName token.text

/-- Whether the character makes another token of the text if it stands right after it. -/
def prolongs (token : Token) (c : Char) : Bool :=
  match token.tag with
  | .reserved =>
    if token.text ∈ keywords then isWordChar c else token.text ∈ ["=", "<", ">"] && c = '='
  | .int => c.isDigit
  | .string => false
  | .id => isWordChar c

end Token

namespace Rule

theorem first?_word {word : List Char} (h : isWord word) {rest : List Char}
    (hrest : Halts isWordChar rest) : first? (word ++ rest) = some ⟨ofWord word, word, rest⟩ := by
  rcases word with _ | ⟨c, cs⟩
  · cases h
  · have hword := isWordChar_of_isWord h
    rw [List.cons_append, first?_of_isAlpha (Bool.and_eq_true_iff.1 h).1, ← List.cons_append,
      hrest.takeWhile_append hword, hrest.dropWhile_append hword]

theorem first?_digits {ds : List Char} (hne : ds ≠ []) (hdigits : ∀ c ∈ ds, c.isDigit)
    {rest : List Char} (hrest : Halts Char.isDigit rest) :
    first? (ds ++ rest) = some ⟨⟨.digits, some .int⟩, ds, rest⟩ := by
  rcases ds with _ | ⟨c, cs⟩
  · exact absurd rfl hne
  · rw [List.cons_append, first?_of_isDigit (hdigits c List.mem_cons_self), ← List.cons_append,
      hrest.takeWhile_append hdigits, hrest.dropWhile_append hdigits]

theorem first?_number {text : String} (h : IsNumber text) {rest : List Char}
    (hrest : Halts Char.isDigit rest) :
    first? (text.toList ++ rest) = some ⟨⟨.digits, some .int⟩, text.toList, rest⟩ := by
  obtain ⟨hdigits, hsome⟩ := h
  refine first?_digits (fun hnil => ?_) hdigits hrest
  rw [Integer.ofText?, hnil] at hsome
  cases hsome

/-- The token that a piece makes, if its class is known and its text is no number. -/
theorem token?_eq {rule : Rule} {tag : Tag} (htag : rule.tag = some tag) (hne : tag ≠ .int)
    (text : String) (rest : List Char) :
    Piece.token? ⟨rule, text.toList, rest⟩ = .ok (some ⟨text, tag⟩) := by
  simp only [Piece.token?, htag, String.ofList_toList]

theorem token?_digits (ds rest : List Char) :
    Piece.token? ⟨⟨.digits, some .int⟩, ds, rest⟩ =
      if (Integer.ofChars? ds).isSome then .ok (some ⟨String.ofList ds, .int⟩)
      else .error (.outOfRange (String.ofList ds)) := by
  unfold Piece.token?
  cases Integer.ofChars? ds <;> rfl

theorem token?_number {text : String} (h : IsNumber text) (rest : List Char) :
    Piece.token? ⟨⟨.digits, some .int⟩, text.toList, rest⟩ = .ok (some ⟨text, .int⟩) := by
  rw [token?_digits, String.ofList_toList]
  exact if_pos h.2

/-- **A token that fits its class is read back**, unless it is prolonged. -/
theorem first?_token {token : Token} (h : token.Fits) {rest : List Char}
    (hrest : Halts token.prolongs rest) :
    ∃ rule, first? (token.text.toList ++ rest) = some ⟨rule, token.text.toList, rest⟩ ∧
      Piece.token? ⟨rule, token.text.toList, rest⟩ = .ok (some token) := by
  obtain ⟨text, tag⟩ := token
  cases tag with
  | reserved =>
    by_cases hkeyword : text ∈ keywords
    · have hhalts : Halts isWordChar rest := fun c hc => by
        simpa [Token.prolongs, hkeyword] using hrest c hc
      have hrule : ofWord text.toList = ⟨.keyword text, some .reserved⟩ := by
        rw [ofWord, String.ofList_toList, if_pos hkeyword]
      refine ⟨_, hrule ▸ first?_word (isWord_keywords text hkeyword) hhalts, ?_⟩
      exact token?_eq rfl (by decide) text rest
    · have hhalts : text ∈ ["=", "<", ">"] → Halts (· = '=') rest := fun hmem c hc => by
        simpa [Token.prolongs, hkeyword, hmem] using hrest c hc
      refine ⟨_, first?_operator (h.resolve_right hkeyword) hhalts, ?_⟩
      exact token?_eq rfl (by decide) text rest
  | int => exact ⟨_, first?_number h hrest, token?_number h rest⟩
  | string =>
    obtain ⟨body, htext, hbody⟩ := h
    have hfirst := first?_quoted hbody rest
    have hcs : '"' :: (body ++ '"' :: rest) = text.toList ++ rest := by
      rw [htext, List.cons_append, List.append_assoc, List.singleton_append]
    rw [hcs, ← htext] at hfirst
    exact ⟨_, hfirst, token?_eq rfl (by decide) text rest⟩
  | id =>
    have hrule : ofWord text.toList = ⟨.name, some .id⟩ := by
      rw [ofWord, String.ofList_toList, if_neg h.2]
    exact ⟨_, hrule ▸ first?_word h.1 hrest, token?_eq rfl (by decide) text rest⟩

/-- The token of a piece has the text of the piece and the class of its rule. -/
theorem of_token?_eq_ok {piece : Piece} {token : Token} (h : piece.token? = .ok (some token)) :
    token.text.toList = piece.lexeme ∧ piece.rule.tag = some token.tag ∧
      (token.tag = .int → (Integer.ofChars? piece.lexeme).isSome) := by
  unfold Piece.token? at h
  split at h
  next => cases h
  next htag =>
    split at h
    next n hn =>
      cases h
      exact ⟨String.toList_ofList, htag, fun _ => Option.isSome_iff_exists.2 ⟨n, hn⟩⟩
    next => cases h
  next tag hne htag =>
    cases h
    exact ⟨String.toList_ofList, htag, fun hint => absurd hint hne⟩

theorem isQuoted_of_split? {cs lexeme rest : List Char}
    (h : Pattern.quoted.split? cs = some (lexeme, rest)) {text : String}
    (htext : text.toList = lexeme) : IsQuoted text := by
  simp only [Pattern.split?] at h
  split at h
  next cs =>
    split at h
    next =>
      cases h
      refine ⟨_, htext, fun c hc => ?_⟩
      have hall := List.all_eq_true.1 List.all_takeWhile c hc
      simpa using hall
    next => cases h
  next => cases h

/-- **What a rule takes as a token fits its class.**  A name is no keyword, because the rules of the
keywords come first. -/
theorem fits_of_first? {cs : List Char} {piece : Piece} {token : Token}
    (h : first? cs = some piece) (htoken : piece.token? = .ok (some token)) : token.Fits := by
  obtain ⟨text, tag⟩ := token
  obtain ⟨htext, htag, hint⟩ := of_token?_eq_ok htoken
  obtain ⟨rule, hrule, htake⟩ := List.exists_of_findSome?_eq_some h
  obtain ⟨⟨lexeme, rest⟩, hsplit, rfl⟩ := Option.map_eq_some_iff.1 htake
  replace htext : text.toList = lexeme := htext
  simp only [all_eq, marks, signs, words, List.mem_append, List.mem_cons, List.mem_map,
    List.not_mem_nil, or_false] at hrule
  obtain (((rfl | rfl) | ⟨other, hother, rfl⟩) | rfl) | ⟨other, hother, rfl⟩ | rfl | rfl := hrule
  · cases htag
  · cases htag
  · obtain rfl : Tag.reserved = tag := Option.some.inj htag
    obtain ⟨_, _, hpair⟩ := Option.map_eq_some_iff.1 hsplit
    obtain rfl : other = text := String.toList_inj.1 ((Prod.mk.inj hpair).1.trans htext.symm)
    exact .inl hother
  · obtain rfl : Tag.string = tag := Option.some.inj htag
    exact isQuoted_of_split? hsplit htext
  · obtain rfl : Tag.reserved = tag := Option.some.inj htag
    rw [Pattern.split?_keyword (isWordChar_keywords other hother)] at hsplit
    obtain ⟨_, hpair⟩ := Option.ite_none_right_eq_some.1 hsplit
    obtain rfl : other = text :=
      String.toList_inj.1 ((Prod.mk.inj (Option.some.inj hpair)).1.trans htext.symm)
    exact .inr hother
  · obtain rfl : Tag.int = tag := Option.some.inj htag
    refine ⟨htext ▸ Pattern.all_of_run? hsplit, ?_⟩
    rw [Integer.ofText?, htext]
    exact hint rfl
  · obtain rfl : Tag.id = tag := Option.some.inj htag
    rcases cs with _ | ⟨c, cs⟩
    · cases hsplit
    · obtain ⟨hc, hpair⟩ := Option.ite_none_right_eq_some.1 hsplit
      have hpiece := Option.some.inj (h.symm.trans (first?_of_isAlpha hc cs))
      obtain ⟨hrule, hword, _⟩ := Piece.mk.inj hpiece
      obtain ⟨hlexeme, _⟩ := Prod.mk.inj (Option.some.inj hpair)
      rw [← hword, ← htext, ofWord, String.ofList_toList] at hrule
      refine ⟨?_, fun hkeyword => ?_⟩
      · rw [htext, ← hlexeme]
        exact Bool.and_eq_true_iff.2 ⟨hc, List.all_takeWhile⟩
      · rw [if_pos hkeyword] at hrule
        cases hrule

end Rule

namespace Token

/-! ## Scans -/

variable {place : Location}

theorem scan_piece {cs : List Char} {piece : Rule.Piece} (h : Rule.first? cs = some piece)
    {token : Option Token} (htoken : piece.token? = .ok token) :
    scan place cs = (scan (place.after piece.lexeme) piece.rest).map (token.toList ++ ·) := by
  rcases cs with _ | ⟨c, cs⟩
  · have := Rule.length_rest_lt_of_first? h
    exact absurd this (Nat.not_lt_zero _)
  · rw [scan]
    split
    next hnone => rw [h] at hnone; cases hnone
    next piece' hsome =>
      obtain rfl := Option.some.inj (h.symm.trans hsome)
      rw [htoken]

theorem scan_token {token : Token} (h : token.Fits) {rest : List Char}
    (hrest : Halts token.prolongs rest) : scan place (token.text.toList ++ rest) =
      (scan (place.after token.text.toList) rest).map (token :: ·) := by
  obtain ⟨rule, hfirst, htoken⟩ := Rule.first?_token h hrest
  exact scan_piece hfirst htoken

/-- A piece without a token is passed over. -/
theorem scan_skip {cs : List Char} {piece : Rule.Piece} (h : Rule.first? cs = some piece)
    (htoken : piece.token? = .ok none) :
    scan place cs = scan (place.after piece.lexeme) piece.rest := by
  rw [scan_piece h htoken]
  exact congrFun Except.map_id _

/-- A blank makes no token, whether the run of blanks goes on or ends there. -/
theorem scan_blank {c : Char} (hc : isSpace c) (cs : List Char) :
    scan place (c :: cs) = scan (place.step c) cs := by
  have hrun : ∀ {place c} (_ : isSpace c) (cs : List Char), scan place (c :: cs) =
      scan (place.after ((c :: cs).takeWhile isSpace)) ((c :: cs).dropWhile isSpace) :=
    fun hc cs => scan_skip (Rule.first?_of_isSpace hc cs) rfl
  rw [hrun hc, List.takeWhile_cons_of_pos hc, List.dropWhile_cons_of_pos hc, Location.after_cons]
  rcases cs with _ | ⟨d, cs⟩
  · rfl
  · by_cases hd : isSpace d
    · exact (hrun hd cs).symm
    · have hhalts : Halts isSpace (d :: cs) := .cons (Bool.eq_false_iff.2 hd)
      rw [hhalts.takeWhile_eq_nil, hhalts.dropWhile_eq_self, Location.after_nil]

theorem prolongs_space (token : Token) : token.prolongs ' ' = false := by
  obtain ⟨text, tag⟩ := token
  cases tag with
  | reserved =>
    by_cases hkeyword : text ∈ keywords
    · exact if_pos hkeyword
    · exact (if_neg hkeyword).trans (Bool.and_false _)
  | _ => rfl

/-- The texts of the tokens, with single spaces between them. -/
def spaced (ts : List Token) : String := " ".intercalate (ts.map text)

theorem toList_spaced_singleton (token : Token) : (spaced [token]).toList = token.text.toList :=
  congrArg String.toList String.intercalate_singleton

theorem toList_spaced_cons_cons (token next : Token) (ts : List Token) :
    (spaced (token :: next :: ts)).toList =
      token.text.toList ++ ' ' :: (spaced (next :: ts)).toList := by
  have h : spaced (token :: next :: ts) = token.text ++ " " ++ spaced (next :: ts) :=
    String.intercalate_cons_cons
  rw [h, String.toList_append, String.toList_append, List.append_assoc]
  rfl

/-- **Tokens that are written with single spaces between them are read back.** -/
theorem scan_spaced {ts : List Token} (h : ∀ token ∈ ts, token.Fits) :
    scan place (spaced ts).toList = .ok ts := by
  induction ts generalizing place with
  | nil => exact scan_nil place
  | cons token ts ih =>
    obtain ⟨htoken, hts⟩ := List.forall_mem_cons.1 h
    rcases ts with _ | ⟨next, ts⟩
    · rw [toList_spaced_singleton, ← List.append_nil token.text.toList, scan_token htoken .nil,
        scan_nil]
      rfl
    · rw [toList_spaced_cons_cons, scan_token htoken (.cons token.prolongs_space),
        scan_blank rfl, ih hts]
      rfl

/-- **The tokens of a scan fit their classes.** -/
theorem fits_of_scan {cs : List Char} {ts : List Token} (h : scan place cs = .ok ts) :
    ∀ token ∈ ts, token.Fits := by
  fun_induction scan place cs generalizing ts with
  | case1 =>
    cases h
    exact List.forall_mem_nil _
  | case2 => cases h
  | case3 => cases h
  | case4 place c cs piece hfirst token htoken ih =>
    rcases hrest : scan (place.after piece.lexeme) piece.rest with fault | ts'
    · rw [hrest] at h
      cases h
    · rw [hrest] at h
      obtain rfl : token.toList ++ ts' = ts := Except.ok.inj h
      refine List.forall_mem_append.2 ⟨fun t ht => ?_, ih hrest⟩
      obtain rfl := Option.mem_toList.1 ht
      exact Rule.fits_of_first? hfirst htoken

end Token

end Cam
