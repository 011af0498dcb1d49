import Cam.Proofs.Grammar.Furthest
import Cam.Proofs.Grammar.Taking
import Cam.Proofs.Program.Derivation

/-!
# Proofs/Program/Acceptance — the parser accepts exactly its grammar

`Program.closed_grammar` is one half: what is parsed is derived.  The other half is that ordered
choice and greed lose nothing, and it rests on what may follow.  Wherever a part of a program ends,
the next token is not one that could have continued it (`Clear`); then the rule for the part takes
just its tokens, whatever stands further on.

The one place where a parse must turn back is the parenthesis that opens a clause.  The tokens of a
condition are not arithmetic: a parse of them as arithmetic fails, or stops before a comparison
(`Program.deflects_of_spells`).  So the parenthesis that should close the arithmetic is missing, and
the parse gets to reading a condition in parentheses.
-/

namespace Cam

/-! ## Words and operators -/

/-- None of the words and operators in the list stands next. -/
def Clear (texts : List String) (rest : List Token) : Prop :=
  ∀ token ∈ rest.head?, token.tag = .reserved → token.text ∉ texts

namespace Clear

variable {texts others : List String} {rest : List Token}

theorem nil : Clear texts [] := fun _ htoken => absurd htoken (by simp)

/-- A word is clear of the texts that it is not. -/
theorem word {text : String} (h : text ∉ texts) : Clear texts (.word text :: rest) := by
  intro token htoken _
  obtain rfl : Token.word text = token := Option.some.inj htoken
  exact h

/-- What is clear of many texts is clear of some of them. -/
theorem mono (h : Clear others rest) (hsub : texts ⊆ others) : Clear texts rest :=
  fun token htoken htag htext => h token htoken htag (hsub htext)

end Clear

section Words

variable {ι : Type} {sort : ι → Type} {α β : Type} {g : Grammar sort} {input rest : List Token}

/-- A word takes itself. -/
theorem Takes.word (text : String) : Takes g (Parser.word text) (.word text :: rest) text rest := by
  have hread : (Terminal.word text .reserved).read? (.word text) = some text := if_pos ⟨rfl, rfl⟩
  exact .token hread

/-- A word refuses an input that is clear of it. -/
theorem Refuses.word {texts : List String} (h : Clear texts rest) {text : String}
    (htext : text ∈ texts) : Refuses g (Parser.word text) rest := by
  refine .token fun token htoken => if_neg ?_
  rintro ⟨htag, rfl⟩
  exact h token htoken htag htext

theorem Takes.identifier (name : String) :
    Takes g Parser.identifier (.name name :: rest) name rest := by
  have hread : (Terminal.tagged .id).read? (.name name) = some name := rfl
  exact .token hread

theorem Takes.afterWord {p : Parser sort α} {text : String} {v : α} (h : Takes g p input v rest) :
    Takes g ((Parser.word text).keepRight p) (.word text :: input) v rest :=
  (Takes.word text).keepRight h

theorem Takes.beforeWord {p : Parser sort α} {text : String} {v : α}
    (h : Takes g p input v (.word text :: rest)) : Takes g (p.keepLeft (.word text)) input v rest :=
  h.keepLeft (.word text)

/-- Of alternatives that exclude each other, the one that takes the input is found. -/
theorem Takes.anyOf_map [DecidableEq β] {f : β → Parser sort α} {ops : List β} {op : β} {v : α}
    (hop : op ∈ ops) (htakes : Takes g (f op) input v rest)
    (hrefuses : ∀ other, other ≠ op → Refuses g (f other) input) :
    Takes g (.anyOf (ops.map f)) input v rest := by
  induction ops with
  | nil => exact absurd hop List.not_mem_nil
  | cons other ops ih =>
    by_cases heq : other = op
    · subst heq
      exact .alt_first htakes
    · exact .alt_second (hrefuses other heq) (ih ((List.mem_cons.1 hop).resolve_left (Ne.symm heq)))

/-- A word refuses any other word. -/
theorem Refuses.word_of_ne {text other : String} (h : text ≠ other) :
    Refuses g (Parser.word text) (.word other :: rest) := by
  have hclear : Clear [text] (.word other :: rest) :=
    .word fun hmem => h (List.mem_singleton.1 hmem).symm
  exact .word hclear (List.mem_singleton_self text)

variable {symbol : β → String} {combine : β → α → α → α} {ops : List β} {op : β}

/-- An operator to join with takes its symbol, wherever it stands among the others. -/
theorem Takes.operators [DecidableEq β] (hsymbol : ∀ a b, symbol a = symbol b → a = b)
    (hop : op ∈ ops) :
    Takes g (.anyOf (ops.map (Parser.operator symbol combine))) (.word (symbol op) :: rest)
      (combine op) rest :=
  .anyOf_map hop (.map _ (.word _)) fun other hne =>
    .map _ (.word_of_ne fun heq => hne (hsymbol other op heq))

/-- …and so does an operator that stands for itself. -/
theorem Takes.anyOperator [DecidableEq β] (hsymbol : ∀ a b, symbol a = symbol b → a = b)
    (hop : op ∈ ops) : Takes g (.anyOperator symbol ops) (.word (symbol op) :: rest) op rest :=
  .anyOf_map hop (.map (fun _ => op) (.word _)) fun other hne =>
    .map _ (.word_of_ne fun heq => hne (hsymbol other op heq))

/-- Operators refuse an input that is clear of their symbols. -/
theorem Refuses.operators (h : Clear (ops.map symbol) rest) :
    Refuses g (.anyOf (ops.map (Parser.operator symbol combine))) rest := by
  refine .anyOf fun p hp => ?_
  obtain ⟨op, hop, rfl⟩ := List.mem_map.1 hp
  exact .map _ (.word h (List.mem_map_of_mem hop))

end Words

namespace Program

open Cam.Parser Cam.Nonterminal

/-! ## Arithmetic -/

/-- The symbols that continue arithmetic. -/
def arithSymbols : List String := ArithOp.all.map ArithOp.symbol

/-- Any of the arithmetic operators in the list. -/
def arithOps (ops : List ArithOp) : Parser Tree (Expr → Expr → Expr) :=
  anyOf (ops.map (operator ArithOp.symbol Expr.binary))

/-- Operands joined by the tighter operators. -/
def productRule : Parser Tree Expr := .chain (.rule operand) (arithOps [.mul, .div])

theorem arithOp_symbol_inj (a b : ArithOp) (h : a.symbol = b.symbol) : a = b :=
  Option.some.inj (a.ofSymbol?_symbol.symm.trans (h ▸ b.ofSymbol?_symbol))

theorem relOp_symbol_inj (a b : RelOp) (h : a.symbol = b.symbol) : a = b :=
  Option.some.inj (a.ofSymbol?_symbol.symm.trans (h ▸ b.ofSymbol?_symbol))

theorem takes_arithOps {ops : List ArithOp} {op : ArithOp} (hop : op ∈ ops) (rest : List Token) :
    Takes grammar (arithOps ops) (.word op.symbol :: rest) (.binary op) rest :=
  .operators arithOp_symbol_inj hop

theorem refuses_arithOps {rest : List Token} (h : Clear arithSymbols rest) (ops : List ArithOp) :
    Refuses grammar (arithOps ops) rest :=
  .operators (h.mono (List.map_subset _ fun op _ => by cases op <;> decide))

/-- How the parse of arithmetic takes the tokens, tier by tier. -/
def TakesArithmetic : ArithTier → List Token → Expr → Prop
  | .operand, ts, e => ∀ rest, Takes grammar (.rule operand) (ts ++ rest) e rest
  | .product, ts, e => Starts grammar (.rule operand) (arithOps [.mul, .div]) (fun _ => True) ts e
  | .sum, ts, e =>
    Starts grammar productRule (arithOps [.add, .sub])
      (Clear ([ArithOp.mul, .div].map ArithOp.symbol)) ts e

variable {ts rest : List Token}

/-- A product ends where neither of its operators stands. -/
theorem TakesArithmetic.product {e : Expr} (h : TakesArithmetic .product ts e)
    (hrest : Clear ([ArithOp.mul, .div].map ArithOp.symbol) rest) :
    Takes grammar productRule (ts ++ rest) e rest := h.takes trivial (.operators hrest)

/-- A sum ends where no arithmetic operator stands. -/
theorem TakesArithmetic.sum {e : Expr} (h : TakesArithmetic .sum ts e)
    (hrest : Clear arithSymbols rest) : Takes grammar (.rule arithmetic) (ts ++ rest) e rest := by
  have htight : Clear ([ArithOp.mul, .div].map ArithOp.symbol) rest := hrest.mono (by decide)
  exact .rule (h.takes htight (refuses_arithOps hrest _))

/-- **The parse of arithmetic takes what is derived.** -/
theorem takesArithmetic_of_spells {tier : ArithTier} {e : Expr} (h : SpellsArithmetic tier ts e) :
    TakesArithmetic tier ts e := by
  induction h with
  | @int text n h =>
    intro rest
    have hread : Terminal.integer.read? ⟨text, .int⟩ = some n := h
    exact .rule (.alt_first (.alt_first (.map Expr.int (.token hread))))
  | @var name =>
    intro rest
    exact .rule (.alt_first (.alt_second (.of_turnsAway rfl) (.map Expr.var (.identifier name))))
  | @group ts e _ ih =>
    intro rest
    have hclear : Clear arithSymbols (.word ")" :: rest) := .word (by decide)
    rw [List.cons_append, List.append_assoc]
    exact .rule (.alt_second (.of_turnsAway rfl) (ih.sum hclear).afterWord.beforeWord)
  | operand _ ih => exact .one fun rest _ => ih rest
  | scaled hop _ _ ihl ihr =>
    exact ihl.more (takes_arithOps hop) (fun _ => trivial) fun rest _ => ihr rest
  | product _ ih => exact .one fun rest hrest => ih.product hrest
  | @added us vs a b op hop _ _ ihl ihr =>
    have hclear : op.symbol ∉ [ArithOp.mul, .div].map ArithOp.symbol := by
      revert hop; cases op <;> decide
    exact ihl.more (takes_arithOps hop) (fun _ => .word hclear) fun rest hrest => ihr.product hrest

/-- What spells arithmetic is read as it is spelled, up to where no arithmetic operator stands. -/
theorem takes_arithmetic {e : Expr} (h : SpellsArithmetic .sum ts e)
    (hrest : Clear arithSymbols rest) : Takes grammar (.rule arithmetic) (ts ++ rest) e rest :=
  (takesArithmetic_of_spells h).sum hrest

theorem takes_arithmetic_before {e : Expr} (h : SpellsArithmetic .sum ts e) {text : String}
    (htext : text ∉ arithSymbols) :
    Takes grammar (.rule arithmetic) (ts ++ .word text :: rest) e (.word text :: rest) :=
  takes_arithmetic h (.word htext)

/-- Arithmetic begins with an operand: a number, a name or a parenthesis. -/
theorem spellsArithmetic_head {tier : ArithTier} {e : Expr} (h : SpellsArithmetic tier ts e) :
    ∃ token us, ts = token :: us ∧ (token.tag = .int ∨ token.tag = .id ∨ token = .word "(") := by
  induction h with
  | int _ => exact ⟨_, [], rfl, .inl rfl⟩
  | var => exact ⟨_, [], rfl, .inr (.inl rfl)⟩
  | group _ _ => exact ⟨_, _, rfl, .inr (.inr rfl)⟩
  | operand _ ih => exact ih
  | product _ ih => exact ih
  | scaled _ _ _ ihl _ =>
    obtain ⟨token, us, rfl, htoken⟩ := ihl
    exact ⟨token, _, rfl, htoken⟩
  | added _ _ _ ihl _ =>
    obtain ⟨token, us, rfl, htoken⟩ := ihl
    exact ⟨token, _, rfl, htoken⟩

/-- What no operand begins with is not arithmetic. -/
theorem refuses_arithmetic (h : Refuses grammar operandRule rest) :
    Refuses grammar (.rule arithmetic) rest := .rule (.chain (.chain (.rule h)))

/-! ## Expressions -/

/-- …and likewise what spells an expression. -/
theorem takes_expression {e : Expr} (h : SpellsExpression ts e) (hrest : Clear arithSymbols rest) :
    Takes grammar (.rule expression) (ts ++ rest) e rest := by
  cases h with
  | @str raw =>
    have hread : (Terminal.tagged .string).read? ⟨raw, .string⟩ = some raw := rfl
    exact .rule (.alt_first (.map Expr.str (.token hread)))
  | arithmetic h =>
    obtain ⟨token, us, rfl, htoken⟩ := spellsArithmetic_head h
    have hstring : ∀ t ∈ (token :: us ++ rest).head?, (Terminal.tagged .string).read? t = none := by
      intro t ht
      obtain rfl : token = t := Option.some.inj ht
      refine if_neg fun htag => ?_
      rcases htoken with h | h | rfl
      · exact absurd (h.symm.trans htag) (by decide)
      · exact absurd (h.symm.trans htag) (by decide)
      · exact absurd htag (by decide)
    exact .rule (.alt_second (.map Expr.str (.token hstring)) (takes_arithmetic h hrest))

/-- An expression begins like arithmetic, or with a string: not with a word. -/
theorem spellsExpression_head {e : Expr} (h : SpellsExpression ts e) :
    ∃ token us, ts = token :: us ∧ (token.tag ≠ .reserved ∨ token = .word "(") := by
  cases h with
  | str => exact ⟨_, [], rfl, .inl nofun⟩
  | arithmetic h =>
    obtain ⟨token, us, rfl, htag | htag | rfl⟩ := spellsArithmetic_head h
    · exact ⟨token, us, rfl, .inl (htag ▸ by decide)⟩
    · exact ⟨token, us, rfl, .inl (htag ▸ by decide)⟩
    · exact ⟨_, us, rfl, .inr rfl⟩

/-- What spells an expression begins with no word, but perhaps with a parenthesis. -/
theorem clear_expression {e : Expr} (h : SpellsExpression ts e) {texts : List String}
    (htexts : "(" ∉ texts) : Clear texts (ts ++ rest) := by
  obtain ⟨token, us, rfl, htag | rfl⟩ := spellsExpression_head h
  · intro t ht hreserved
    obtain rfl : token = t := Option.some.inj ht
    exact absurd hreserved htag
  · exact .word htexts

/-! ## Conditions -/

/-- A parse of the input as arithmetic fails, or stops before a comparison. -/
def Deflects (input : List Token) : Prop :=
  Refuses grammar (.rule arithmetic) input ∨
    ∃ (e : Expr) (op : RelOp) (rest : List Token),
      Takes grammar (.rule arithmetic) input e (.word op.symbol :: rest)

theorem clear_relOp (op : RelOp) (rest : List Token) :
    Clear arithSymbols (.word op.symbol :: rest) :=
  .word (by cases op <;> decide)

/-- A parenthesis before what is not arithmetic does not open an operand. -/
theorem Deflects.refuses_operand {input : List Token} (h : Deflects input) :
    Refuses grammar operandRule (.word "(" :: input) := by
  refine .alt (.of_turnsAway rfl) (.map Prod.fst ?_)
  rcases h with hrefuses | ⟨e, op, rest, htakes⟩
  · exact .seq_first (.map Prod.snd (.seq_second (.word "(") hrefuses))
  · have hclose : ")" ≠ op.symbol := by cases op <;> decide
    exact .seq_second htakes.afterWord (.word_of_ne hclose)

theorem Deflects.refuses_expression {input : List Token} (h : Deflects input) :
    Refuses grammar (.rule expression) (.word "(" :: input) :=
  .rule (.alt (.of_turnsAway rfl) (refuses_arithmetic h.refuses_operand))

/-- **The tokens of a condition are not arithmetic.** -/
theorem deflects_of_spells {tier : LogicTier} {c : Condition} (h : SpellsCondition tier ts c)
    (rest : List Token) : Deflects (ts ++ rest) := by
  induction h generalizing rest with
  | not _ _ => exact .inl (refuses_arithmetic (.of_turnsAway rfl))
  | true => exact .inl (refuses_arithmetic (.of_turnsAway rfl))
  | false => exact .inl (refuses_arithmetic (.of_turnsAway rfl))
  | @relation us vs a b op left _ =>
    cases left with
    | str => exact .inl (refuses_arithmetic (.of_turnsAway rfl))
    | arithmetic left =>
      rw [List.append_assoc]
      exact .inr ⟨a, op, vs ++ rest, takes_arithmetic left (clear_relOp op _)⟩
  | @group ts c _ ih =>
    rw [List.cons_append, List.append_assoc]
    exact .inl (refuses_arithmetic (ih _).refuses_operand)
  | clause _ ih => exact ih rest
  | conjunction _ ih => exact ih rest
  | and _ _ ihl _ =>
    rw [List.append_assoc]
    exact ihl _
  | or _ _ ihl _ =>
    rw [List.append_assoc]
    exact ihl _

/-- One of the connectives. -/
def logicOps (ops : List LogicOp) : Parser Tree (Condition → Condition → Condition) :=
  anyOf (ops.map (operator LogicOp.symbol Condition.logic))

/-- Clauses joined by the tighter connective. -/
def conjunctionRule : Parser Tree Condition := .chain (.rule clause) (logicOps [.and])

theorem takes_logicOps (op : LogicOp) (rest : List Token) :
    Takes grammar (logicOps [op]) (.word op.symbol :: rest) (.logic op) rest :=
  .alt_first (.map (fun _ => Condition.logic op) (.word op.symbol))

/-- How the parse of a condition takes the tokens, tier by tier. -/
def TakesCondition : LogicTier → List Token → Condition → Prop
  | .clause, ts, c =>
    ∀ rest, Clear arithSymbols rest → Takes grammar (.rule clause) (ts ++ rest) c rest
  | .conjunction, ts, c => Starts grammar (.rule clause) (logicOps [.and]) (Clear arithSymbols) ts c
  | .disjunction, ts, c =>
    Starts grammar conjunctionRule (logicOps [.or]) (Clear ("and" :: arithSymbols)) ts c

/-- The symbols that continue a condition. -/
def conditionSymbols : List String := "or" :: "and" :: arithSymbols

/-- A conjunction ends where neither `and` nor an arithmetic operator stands. -/
theorem TakesCondition.conjunction {c : Condition} (h : TakesCondition .conjunction ts c)
    (hrest : Clear ("and" :: arithSymbols) rest) :
    Takes grammar conjunctionRule (ts ++ rest) c rest := by
  have hand : Clear ([LogicOp.and].map LogicOp.symbol) rest := hrest.mono (by decide)
  exact h.takes (hrest.mono (by decide)) (.operators hand)

/-- A disjunction ends where neither `or` nor `and` nor an arithmetic operator stands. -/
theorem TakesCondition.disjunction {c : Condition} (h : TakesCondition .disjunction ts c)
    (hrest : Clear conditionSymbols rest) :
    Takes grammar (.rule condition) (ts ++ rest) c rest := by
  have hor : Clear ([LogicOp.or].map LogicOp.symbol) rest := hrest.mono (by decide)
  exact .rule (h.takes (hrest.mono (by decide)) (.operators hor))

/-- **The parse of a condition takes what is derived.** -/
theorem takesCondition_of_spells {tier : LogicTier} {c : Condition}
    (h : SpellsCondition tier ts c) : TakesCondition tier ts c := by
  induction h with
  | @not ts c _ ih =>
    intro rest hrest
    exact .rule (.alt_first (.map Condition.not (ih rest hrest).afterWord))
  | true =>
    intro rest _
    exact .rule (.alt_second (.of_turnsAway rfl) (.alt_first (.alt_first (.map _ (.word "true")))))
  | false =>
    intro rest _
    refine .rule (.alt_second (.of_turnsAway rfl) (.alt_first (.alt_second (.of_turnsAway rfl) ?_)))
    exact .map _ (.word "false")
  | @relation us vs a b op left right =>
    intro rest hrest
    have hleft := takes_expression left (clear_relOp op (vs ++ rest))
    have hop : Takes grammar (anyOperator RelOp.symbol RelOp.all)
        (.word op.symbol :: (vs ++ rest)) op (vs ++ rest) :=
      .anyOperator relOp_symbol_inj (by cases op <;> decide)
    have hright := takes_expression right hrest
    have hwords : Clear ["not", "true", "false"] (us ++ .word op.symbol :: (vs ++ rest)) :=
      clear_expression left (by decide)
    rw [List.append_assoc, List.cons_append]
    refine .rule (.alt_second ?_ (.alt_second ?_ (.alt_first ?_)))
    · exact .map _ (.map _ (.seq_first (.word hwords (by decide))))
    · exact .alt (.map _ (.word hwords (by decide))) (.map _ (.word hwords (by decide)))
    · exact ((hleft.seq hop).seq hright).map _
  | @group ts c inner ih =>
    intro rest _
    have hclear : Clear conditionSymbols (.word ")" :: rest) := .word (by decide)
    have hgroup : Takes grammar group (.word "(" :: (ts ++ .word ")" :: rest)) c rest :=
      (ih.disjunction hclear).afterWord.beforeWord
    have hrelation := (deflects_of_spells inner (.word ")" :: rest)).refuses_expression
    rw [List.cons_append, List.append_assoc]
    refine .rule (.alt_second (.of_turnsAway rfl) (.alt_second (.of_turnsAway rfl) ?_))
    exact .alt_second (.map _ (.seq_first (.seq_first hrelation))) (.alt_first hgroup)
  | clause _ ih => exact .one ih
  | and _ _ ihl ihr =>
    exact ihl.more (takes_logicOps .and) (fun _ => .word (by decide)) ihr
  | conjunction _ ih => exact .one fun rest hrest => ih.conjunction hrest
  | or _ _ ihl ihr =>
    exact ihl.more (takes_logicOps .or) (fun _ => .word (by decide)) fun rest hrest =>
      ihr.conjunction hrest

theorem takes_condition_before {c : Condition} (h : SpellsCondition .disjunction ts c)
    {text : String} (htext : text ∉ conditionSymbols) :
    Takes grammar (.rule condition) (ts ++ .word text :: rest) c (.word text :: rest) :=
  (takesCondition_of_spells h).disjunction (.word htext)

/-! ## Statements -/

/-- The semicolon between two statements. -/
def semicolon : Parser Tree (Program → Program → Program) := .map (fun _ => Stmt.seq) (word ";")

/-- How the parse of statements takes the tokens. -/
def TakesProgram : ProgramTier → List Token → Program → Prop
  | .statement, ts, s =>
    ∀ rest, Clear arithSymbols rest → Takes grammar (.rule statement) (ts ++ rest) s rest
  | .statements, ts, s => Starts grammar (.rule statement) semicolon (Clear arithSymbols) ts s

/-- Statements end where neither a semicolon nor an arithmetic operator stands. -/
theorem TakesProgram.takes {s : Program} (h : TakesProgram .statements ts s)
    (hrest : Clear (";" :: arithSymbols) rest) :
    Takes grammar (.rule statements) (ts ++ rest) s rest := by
  have hsemicolon : Refuses grammar semicolon rest := .map _ (.word hrest List.mem_cons_self)
  exact .rule (Starts.takes h (hrest.mono (List.subset_cons_self _ _)) hsemicolon)

/-- The statements of a block end before the word that ends it. -/
theorem TakesProgram.block {s : Program} (h : TakesProgram .statements ts s) {text : String}
    (htext : text ∉ ";" :: arithSymbols) :
    Takes grammar (.rule statements) (ts ++ .word text :: rest) s (.word text :: rest) :=
  h.takes (.word htext)

section Forms

variable {name : String} {a b : Expr} {c : Condition} {s t : Program} {input mid last : List Token}

theorem takes_assignment (hvalue : Takes grammar (.rule expression) input a rest) :
    Takes grammar assignment (.name name :: .word "=" :: input) (.assign name a) rest :=
  ((Takes.identifier name).beforeWord.seq hvalue).map _

theorem takes_forLoop (hstart : Takes grammar (.rule arithmetic) input a (.word "to" :: mid))
    (hstop : Takes grammar (.rule arithmetic) mid b (.word "do" :: last))
    (hbody : Takes grammar (.rule statements) last s (.word "end" :: rest)) :
    Takes grammar forLoop (.word "for" :: .name name :: .word "=" :: input) (.for name a b s)
      rest := by
  have hname : Takes grammar (keepLeft (keepRight (word "for") identifier) (word "="))
      (.word "for" :: .name name :: .word "=" :: input) name input :=
    (Takes.identifier name).afterWord.beforeWord
  have hbounds := (hname.seq hstart).beforeWord.seq hstop
  exact (hbounds.beforeWord.seq hbody).beforeWord.map _

/-- An `if` is taken with or without its `else` branch. -/
theorem takes_choice {other : Option Program}
    (hcond : Takes grammar (.rule condition) input c (.word "then" :: mid))
    (hthen : Takes grammar (.rule statements) mid s last)
    (helse : Takes grammar (.opt (keepRight (word "else") (.rule statements))) last other
      (.word "end" :: rest)) :
    Takes grammar choice (.word "if" :: input) (.ifWith c s other) rest :=
  ((hcond.afterWord.beforeWord.seq hthen).seq helse).beforeWord.map _

theorem takes_whileLoop (hcond : Takes grammar (.rule condition) input c (.word "do" :: mid))
    (hbody : Takes grammar (.rule statements) mid s (.word "end" :: rest)) :
    Takes grammar whileLoop (.word "while" :: input) (.while c s) rest :=
  (hcond.afterWord.beforeWord.seq hbody).beforeWord.map _

theorem takes_declaration
    (hbody : Takes grammar (.rule statements) input s (.word "end" :: rest)) :
    Takes grammar declaration (.word "func" :: .name name :: .word "do" :: input) (.func () name s)
      rest :=
  ((Takes.identifier name).afterWord.beforeWord.seq hbody).beforeWord.map _

end Forms

/-- **The parse of statements takes what is derived.** -/
theorem takesProgram_of_spells {tier : ProgramTier} {s : Program} (h : SpellsProgram tier ts s) :
    TakesProgram tier ts s := by
  induction h with
  | assign value =>
    intro rest hrest
    exact .rule (.anyOf [] rfl (takes_assignment (takes_expression value hrest)))
  | «for» start stop _ ih =>
    intro rest _
    simp only [List.cons_append, List.append_assoc, List.nil_append]
    exact .rule (.anyOf [assignment] rfl (takes_forLoop (takes_arithmetic_before start (by decide))
      (takes_arithmetic_before stop (by decide)) (ih.block (by decide))))
  | ifThen cond _ ih =>
    intro rest _
    have helse : Takes grammar (.opt (keepRight (word "else") (.rule statements)))
        (.word "end" :: rest) none (.word "end" :: rest) := .opt_none (.of_turnsAway rfl)
    simp only [List.cons_append, List.append_assoc, List.nil_append]
    exact .rule (.anyOf [assignment, forLoop] rfl
      (takes_choice (takes_condition_before cond (by decide)) (ih.block (by decide)) helse))
  | @ifThenElse us ts vs c s t cond _ _ ihThen ihElse =>
    intro rest _
    have helse : Takes grammar (.opt (keepRight (word "else") (.rule statements)))
        (.word "else" :: (vs ++ .word "end" :: rest)) (some t) (.word "end" :: rest) :=
      (ihElse.block (by decide)).afterWord.opt
    simp only [List.cons_append, List.append_assoc, List.nil_append]
    exact .rule (.anyOf [assignment, forLoop] rfl
      (takes_choice (takes_condition_before cond (by decide)) (ihThen.block (by decide)) helse))
  | «while» cond _ ih =>
    intro rest _
    simp only [List.cons_append, List.append_assoc, List.nil_append]
    exact .rule (.anyOf [assignment, forLoop, choice] rfl
      (takes_whileLoop (takes_condition_before cond (by decide)) (ih.block (by decide))))
  | print value =>
    intro rest hrest
    exact .rule (.anyOf [assignment, forLoop, choice, whileLoop] rfl
      (.map Stmt.print (takes_expression value hrest).afterWord))
  | @input name =>
    intro rest _
    exact .rule (.anyOf [assignment, forLoop, choice, whileLoop, printing] rfl
      (.map Stmt.input (Takes.identifier name).afterWord))
  | @call name =>
    intro rest _
    exact .rule (.anyOf [assignment, forLoop, choice, whileLoop, printing, reading] rfl
      (.map Stmt.call (Takes.identifier name).afterWord))
  | func _ ih =>
    intro rest _
    simp only [List.cons_append, List.append_assoc, List.nil_append]
    exact .rule (.anyOf [assignment, forLoop, choice, whileLoop, printing, reading, calling] rfl
      (takes_declaration (ih.block (by decide))))
  | statement _ ih => exact .one ih
  | seq _ _ ihFirst ihSecond =>
    exact ihFirst.more (fun _ => .map _ (.word ";")) (fun _ => .word (by decide)) ihSecond

/-! ## The budget -/

/-- How many rules deep a rule may go before it reads a token. -/
def rank : Nonterminal → Nat
  | .operand => 0
  | .arithmetic => 1
  | .expression => 2
  | .clause => 3
  | .condition => 4
  | .statement => 0
  | .statements => 1

theorem ranked_grammar : grammar.Ranked rank 5 where
  consumes i := by cases i <;> rfl
  steady i := by cases i <;> rfl
  width_pos := by decide
  rank_lt i := by cases i <;> decide
  rank_lt_of_mem i := by cases i <;> decide

/-- A budget of five for each token, and three more, is never used up. -/
theorem reply_whole_ne_exhausted {tokens : Array Token} {n : Nat} (hn : 5 * tokens.size + 3 ≤ n) :
    whole.reply grammar tokens n 0 ≠ .exhausted := by
  have hheads : ∀ j ∈ whole.heads, rank j < 2 := by decide
  exact reply_ne_exhausted ranked_grammar rfl hheads (by decide) (Nat.zero_le _) hn

/-- The budget of a parse is no smaller. -/
theorem le_budget (n : Nat) : 5 * n + 3 ≤ budget n := by
  rw [budget]
  omega

/-! ## Whole programs -/

/-- The reply of a parse of whole programs. -/
def replyTo (ts : List Token) : Reply Program :=
  whole.reply grammar ts.toArray (budget ts.toArray.size) 0

/-- What becomes of a list of tokens, by how its parse ends. -/
theorem ofTokens_ends (ts : List Token) :
    ∃ fs, Task.Ends grammar ts.toArray (.parse whole 0) (replyTo ts) fs ∧
      ((∃ s next, replyTo ts = .matched s next ∧ ofTokens ts = .ok s) ∨
        (replyTo ts = .noMatch ∧
          ofTokens ts = .error ((Furthest.recordAll (fs.map Failure.note)).error ts.toArray))) := by
  have hne := reply_whole_ne_exhausted (le_budget ts.toArray.size)
  obtain ⟨fs, hends, hrun⟩ := run_furthest grammar ts.toArray _ whole 0 hne
  rw [← replyTo] at hends hrun
  refine ⟨fs, hends, ?_⟩
  rcases hreply : replyTo ts with ⟨s, next⟩ | _ | _
  · rw [hreply] at hrun
    exact .inl ⟨s, next, rfl, by rw [ofTokens, hrun]⟩
  · rw [hreply] at hrun
    exact .inr ⟨rfl, by rw [ofTokens, hrun]⟩
  · exact absurd hreply hne

/-- What is read as a program spells it. -/
theorem spells_of_ofTokens {s : Program} (h : ofTokens ts = .ok s) :
    SpellsProgram .statements ts s := by
  obtain ⟨fs, hends, ⟨s', next, hreply, heq⟩ | ⟨_, heq⟩⟩ := ofTokens_ends ts
  · obtain rfl : s = s' := Except.ok.inj (h.symm.trans heq)
    rw [hreply] at hends
    rcases hends.of_phrase with ⟨a, hmatched, inner⟩ | ⟨hnone, _⟩ | ⟨_, _, _, hnone, _⟩
    · obtain ⟨us, hspan, hus⟩ := inner.spells closed_grammar hmatched
      have htake := hspan.take_eq
      rw [List.size_toArray, List.take_length] at htake
      obtain ⟨rfl, _⟩ := Reply.matched.inj hmatched
      exact htake ▸ hus
    · cases hnone
    · cases hnone
  · exact absurd (h.symm.trans heq) nofun

/-- A program is read to its end. -/
theorem reply_of_spells {s : Program} (h : SpellsProgram .statements ts s) :
    (Parser.rule statements).reply grammar ts.toArray (budget ts.toArray.size) 0 =
      .matched s ts.length := by
  have htakes : Takes grammar (.rule statements) (ts ++ []) s [] :=
    (takesProgram_of_spells h).takes .nil
  rw [List.append_nil] at htakes
  obtain ⟨next, hnext, hreply⟩ := htakes ts.toArray 0 rfl
  rcases hreply (budget ts.toArray.size) with hmatch | hout
  · have hle : next ≤ ts.length := (le_next hmatch).2 (Nat.zero_le _)
    have hge : ts.length ≤ next := List.drop_eq_nil_iff.1 hnext
    rw [hmatch, Nat.le_antisymm hle hge]
  · have hne := reply_whole_ne_exhausted (le_budget ts.toArray.size)
    rw [whole, reply_phrase, hout] at hne
    exact absurd rfl hne

/-- What spells a program is read as that program. -/
theorem ofTokens_of_spells {s : Program} (h : SpellsProgram .statements ts s) :
    ofTokens ts = .ok s := by
  have hwhole : replyTo ts = .matched s ts.length := by
    rw [replyTo, whole, reply_phrase, reply_of_spells h, Reply.elim_matched, List.size_toArray,
      if_pos rfl]
  obtain ⟨fs, _, ⟨s', next, hreply, heq⟩ | ⟨hnone, _⟩⟩ := ofTokens_ends ts
  · obtain ⟨rfl, _⟩ := Reply.matched.inj (hreply.symm.trans hwhole)
    exact heq
  · exact absurd (hnone.symm.trans hwhole) nofun

/-- **The parser accepts exactly its grammar and builds exactly its tree.** -/
theorem ofTokens_eq_ok_iff (ts : List Token) (s : Program) :
    ofTokens ts = .ok s ↔ SpellsProgram .statements ts s :=
  ⟨spells_of_ofTokens, ofTokens_of_spells⟩

/-- The grammar is unambiguous. -/
theorem spellsProgram_unique {s t : Program} (hs : SpellsProgram .statements ts s)
    (ht : SpellsProgram .statements ts t) : s = t :=
  Except.ok.inj ((ofTokens_of_spells hs).symm.trans (ofTokens_of_spells ht))

end Program

end Cam
