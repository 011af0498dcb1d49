import Cam.Proofs.Grammar.Completion
import Cam.Program.Grammar

/-!
# Proofs/Program/Derivation — which tokens spell which program

The grammar of programs as a plain context-free relation between tokens and trees: choice is
unordered, a list or an operator expression is its first part joined with one more item, and nothing
is said about where a reader should stop.  Each relation has one index for the tiers of its
grammar, the tightest first.

`Program.closed_grammar` says that the expressions of `Program.grammar` derive nothing else, and
`Program.finishes_grammar` that whatever they begin can be finished.
-/

namespace Cam

/-- The reserved word or operator with this text. -/
def Token.word (text : String) : Token := ⟨text, .reserved⟩

/-- The identifier with this name. -/
def Token.name (name : String) : Token := ⟨name, .id⟩

/-! ## Derivations -/

/-- The tiers of arithmetic. -/
inductive ArithTier where
  | operand
  | product
  | sum

/-- The tokens spell the arithmetic expression. -/
inductive SpellsArithmetic : ArithTier → List Token → Expr → Prop where
  | int {text : String} {n : Int64} (h : Integer.ofText? text = some n) :
      SpellsArithmetic .operand [⟨text, .int⟩] (.int n)
  | var {name : String} : SpellsArithmetic .operand [.name name] (.var name)
  | group {ts : List Token} {e : Expr} (inner : SpellsArithmetic .sum ts e) :
      SpellsArithmetic .operand (.word "(" :: (ts ++ [.word ")"])) e
  | operand {ts : List Token} {e : Expr} (h : SpellsArithmetic .operand ts e) :
      SpellsArithmetic .product ts e
  | scaled {us vs : List Token} {a b : Expr} {op : ArithOp} (hop : op ∈ [ArithOp.mul, .div])
      (left : SpellsArithmetic .product us a) (right : SpellsArithmetic .operand vs b) :
      SpellsArithmetic .product (us ++ .word op.symbol :: vs) (.binary op a b)
  | product {ts : List Token} {e : Expr} (h : SpellsArithmetic .product ts e) :
      SpellsArithmetic .sum ts e
  | added {us vs : List Token} {a b : Expr} {op : ArithOp} (hop : op ∈ [ArithOp.add, .sub])
      (left : SpellsArithmetic .sum us a) (right : SpellsArithmetic .product vs b) :
      SpellsArithmetic .sum (us ++ .word op.symbol :: vs) (.binary op a b)

/-- The tokens spell the expression: a string literal, or arithmetic. -/
inductive SpellsExpression : List Token → Expr → Prop where
  | str {raw : String} : SpellsExpression [⟨raw, .string⟩] (.str raw)
  | arithmetic {ts : List Token} {e : Expr} (h : SpellsArithmetic .sum ts e) :
      SpellsExpression ts e

/-- The tiers of conditions. -/
inductive LogicTier where
  | clause
  | conjunction
  | disjunction

/-- The tokens spell the condition. -/
inductive SpellsCondition : LogicTier → List Token → Condition → Prop where
  | not {ts : List Token} {c : Condition} (inner : SpellsCondition .clause ts c) :
      SpellsCondition .clause (.word "not" :: ts) (.not c)
  | true : SpellsCondition .clause [.word "true"] (.literal true)
  | false : SpellsCondition .clause [.word "false"] (.literal false)
  | relation {us vs : List Token} {a b : Expr} {op : RelOp} (left : SpellsExpression us a)
      (right : SpellsExpression vs b) :
      SpellsCondition .clause (us ++ .word op.symbol :: vs) (.relation op a b)
  | group {ts : List Token} {c : Condition} (inner : SpellsCondition .disjunction ts c) :
      SpellsCondition .clause (.word "(" :: (ts ++ [.word ")"])) c
  | clause {ts : List Token} {c : Condition} (h : SpellsCondition .clause ts c) :
      SpellsCondition .conjunction ts c
  | and {us vs : List Token} {a b : Condition} (left : SpellsCondition .conjunction us a)
      (right : SpellsCondition .clause vs b) :
      SpellsCondition .conjunction (us ++ .word "and" :: vs) (.logic .and a b)
  | conjunction {ts : List Token} {c : Condition} (h : SpellsCondition .conjunction ts c) :
      SpellsCondition .disjunction ts c
  | or {us vs : List Token} {a b : Condition} (left : SpellsCondition .disjunction us a)
      (right : SpellsCondition .conjunction vs b) :
      SpellsCondition .disjunction (us ++ .word "or" :: vs) (.logic .or a b)

/-- A single statement, or statements joined by semicolons. -/
inductive ProgramTier where
  | statement
  | statements

/-- The tokens spell the statement, or the statements. -/
inductive SpellsProgram : ProgramTier → List Token → Program → Prop where
  | assign {name : String} {ts : List Token} {e : Expr} (value : SpellsExpression ts e) :
      SpellsProgram .statement (.name name :: .word "=" :: ts) (.assign name e)
  | for {name : String} {us vs ts : List Token} {a b : Expr} {s : Program}
      (start : SpellsArithmetic .sum us a) (stop : SpellsArithmetic .sum vs b)
      (body : SpellsProgram .statements ts s) :
      SpellsProgram .statement
        (.word "for" :: .name name :: .word "=" ::
          (us ++ .word "to" :: (vs ++ .word "do" :: (ts ++ [.word "end"]))))
        (.for name a b s)
  | ifThen {us ts : List Token} {c : Condition} {s : Program}
      (cond : SpellsCondition .disjunction us c) (thenBranch : SpellsProgram .statements ts s) :
      SpellsProgram .statement (.word "if" :: (us ++ .word "then" :: (ts ++ [.word "end"])))
        (.ifThen c s)
  | ifThenElse {us ts vs : List Token} {c : Condition} {s t : Program}
      (cond : SpellsCondition .disjunction us c) (thenBranch : SpellsProgram .statements ts s)
      (elseBranch : SpellsProgram .statements vs t) :
      SpellsProgram .statement
        (.word "if" :: (us ++ .word "then" :: (ts ++ .word "else" :: (vs ++ [.word "end"]))))
        (.ifThenElse c s t)
  | while {us ts : List Token} {c : Condition} {s : Program}
      (cond : SpellsCondition .disjunction us c) (body : SpellsProgram .statements ts s) :
      SpellsProgram .statement (.word "while" :: (us ++ .word "do" :: (ts ++ [.word "end"])))
        (.while c s)
  | print {ts : List Token} {e : Expr} (value : SpellsExpression ts e) :
      SpellsProgram .statement (.word "print" :: ts) (.print e)
  | input {name : String} : SpellsProgram .statement [.word "input", .name name] (.input name)
  | call {name : String} : SpellsProgram .statement [.word "call", .name name] (.call name)
  | func {name : String} {ts : List Token} {s : Program}
      (body : SpellsProgram .statements ts s) :
      SpellsProgram .statement
        (.word "func" :: .name name :: .word "do" :: (ts ++ [.word "end"])) (.func () name s)
  | statement {ts : List Token} {s : Program} (h : SpellsProgram .statement ts s) :
      SpellsProgram .statements ts s
  | seq {us vs : List Token} {s t : Program} (first : SpellsProgram .statements us s)
      (second : SpellsProgram .statement vs t) :
      SpellsProgram .statements (us ++ .word ";" :: vs) (.seq s t)

namespace Program

/-- What each rule of the grammar is meant to derive. -/
def Derives : (i : Nonterminal) → List Token → i.Tree → Prop
  | .statements => SpellsProgram .statements
  | .statement => SpellsProgram .statement
  | .expression => SpellsExpression
  | .arithmetic => SpellsArithmetic .sum
  | .operand => SpellsArithmetic .operand
  | .condition => SpellsCondition .disjunction
  | .clause => SpellsCondition .clause

end Program

/-! ## Derived expressions -/

namespace Parser

variable {ι : Type} {sort : ι → Type} {α β : Type} {lang : (i : ι) → List Token → sort i → Prop}
  {ts : List Token}

/-- A word derives itself. -/
theorem spells_word {text v : String} (h : (word text : Parser sort String).Spells lang ts v) :
    ts = [Token.word text] := by
  obtain ⟨⟨text', tag⟩, hread, rfl⟩ := h
  obtain ⟨⟨rfl, rfl⟩, _⟩ := Option.ite_none_right_eq_some.1 hread
  rfl

/-- An identifier derives any name, and its value is that name. -/
theorem spells_identifier {v : String}
    (h : (identifier : Parser sort String).Spells lang ts v) : ts = [Token.name v] := by
  obtain ⟨⟨text, tag⟩, hread, rfl⟩ := h
  obtain ⟨rfl, hv⟩ := Option.ite_none_right_eq_some.1 hread
  obtain rfl : text = v := Option.some.inj hv
  rfl

/-- What is left out of a value is still part of the text. -/
theorem spells_keepLeft {p : Parser sort α} {q : Parser sort β} {v : α}
    (h : (keepLeft p q).Spells lang ts v) :
    ∃ us vs b, p.Spells lang us v ∧ q.Spells lang vs b ∧ ts = us ++ vs := by
  obtain ⟨⟨a, b⟩, ⟨us, vs, hp, hq, rfl⟩, rfl⟩ := h
  exact ⟨us, vs, b, hp, hq, rfl⟩

theorem spells_keepRight {p : Parser sort α} {q : Parser sort β} {v : β}
    (h : (keepRight p q).Spells lang ts v) :
    ∃ us vs a, p.Spells lang us a ∧ q.Spells lang vs v ∧ ts = us ++ vs := by
  obtain ⟨⟨a, b⟩, ⟨us, vs, hp, hq, rfl⟩, rfl⟩ := h
  exact ⟨us, vs, a, hp, hq, rfl⟩

/-- A choice of many derives what one of its alternatives derives. -/
theorem spells_anyOf {ps : List (Parser sort α)} {v : α} (h : (anyOf ps).Spells lang ts v) :
    ∃ p ∈ ps, p.Spells lang ts v := by
  induction ps with
  | nil => exact h.elim
  | cons p ps ih =>
    rcases h with hp | hps
    · exact ⟨p, List.mem_cons_self, hp⟩
    · obtain ⟨q, hq, hspells⟩ := ih hps
      exact ⟨q, List.mem_cons_of_mem p hq, hspells⟩

/-- An operator to join with derives its symbol. -/
theorem spells_operators {symbol : β → String} {combine : β → α → α → α} {ops : List β}
    {f : α → α → α}
    (h : (anyOf (ops.map (operator symbol combine)) : Parser sort _).Spells lang ts f) :
    ∃ op ∈ ops, ts = [Token.word (symbol op)] ∧ f = combine op := by
  obtain ⟨p, hp, hspells⟩ := spells_anyOf h
  obtain ⟨op, hop, rfl⟩ := List.mem_map.1 hp
  obtain ⟨text, hword, rfl⟩ := hspells
  exact ⟨op, hop, spells_word hword, rfl⟩

/-- A chain of operators derives what is closed under joining by one of them. -/
theorem of_chained_operators {symbol : β → String} {combine : β → α → α → α} {ops : List β}
    {item level : List Token → α → Prop} (hone : ∀ ts a, item ts a → level ts a)
    (hjoin : ∀ op ∈ ops, ∀ us a vs b, level us a → item vs b →
      level (us ++ Token.word (symbol op) :: vs) (combine op a b)) {a : α}
    (h : Chained item
      ((anyOf (ops.map (operator symbol combine)) : Parser sort _).Spells lang) ts a) :
    level ts a := by
  induction h with
  | one h => exact hone _ _ h
  | join _ hsep hright ih =>
    obtain ⟨op, hop, rfl, rfl⟩ := spells_operators hsep
    rw [List.append_assoc]
    exact hjoin op hop _ _ _ _ ih hright

/-- …and so does an operator that stands for itself. -/
theorem spells_anyOperator {symbol : β → String} {ops : List β} {v : β}
    (h : (anyOperator symbol ops : Parser sort β).Spells lang ts v) :
    ts = [Token.word (symbol v)] := by
  obtain ⟨p, hp, hspells⟩ := spells_anyOf h
  obtain ⟨op, hop, rfl⟩ := List.mem_map.1 hp
  obtain ⟨text, hword, rfl⟩ := hspells
  exact spells_word hword

end Parser

/-! ## The grammar derives nothing else -/

namespace Program

open Cam.Parser

variable {ts : List Token}

/-- Products are chains of operands and sums are chains of products, both joined from the left. -/
theorem spells_arithmeticRule {e : Expr} (h : arithmeticRule.Spells Derives ts e) :
    SpellsArithmetic .sum ts e := by
  have hproduct : ∀ {ts e}, Chained (SpellsArithmetic .operand)
      ((anyOf ([ArithOp.mul, .div].map (operator ArithOp.symbol Expr.binary))).Spells Derives)
      ts e → SpellsArithmetic .product ts e :=
    of_chained_operators (fun _ _ => .operand) fun op hop _ _ _ _ => .scaled hop
  exact of_chained_operators (fun us a hus => .product (hproduct hus))
    (fun op hop us a vs b hus hvs => .added hop hus (hproduct hvs)) h

/-- An operand is a number, a variable or a sum in parentheses. -/
theorem spells_operandRule {e : Expr} (h : operandRule.Spells Derives ts e) :
    SpellsArithmetic .operand ts e := by
  rcases h with (⟨n, ⟨⟨text, tag⟩, hread, rfl⟩, rfl⟩ | ⟨name, hname, rfl⟩) | hgroup
  · obtain ⟨rfl, hn⟩ := Option.ite_none_right_eq_some.1 hread
    exact .int hn
  · rw [spells_identifier hname]
    exact .var
  · obtain ⟨us, vs, _, hus, hvs, rfl⟩ := spells_keepLeft hgroup
    obtain ⟨ws, xs, _, hws, hxs, rfl⟩ := spells_keepRight hus
    rw [spells_word hws, spells_word hvs]
    exact .group hxs

/-- An expression is a string literal or arithmetic. -/
theorem spells_expressionRule {e : Expr} (h : expressionRule.Spells Derives ts e) :
    SpellsExpression ts e := by
  rcases h with ⟨raw, ⟨⟨text, tag⟩, hread, rfl⟩, rfl⟩ | h
  · obtain ⟨rfl, hraw⟩ := Option.ite_none_right_eq_some.1 hread
    obtain rfl : text = raw := Option.some.inj hraw
    exact .str
  · exact .arithmetic h

/-- Conjunctions are chains of clauses and disjunctions are chains of conjunctions. -/
theorem spells_conditionRule {c : Condition} (h : conditionRule.Spells Derives ts c) :
    SpellsCondition .disjunction ts c := by
  have hconjunction : ∀ {ts c}, Chained (SpellsCondition .clause)
      ((anyOf ([LogicOp.and].map (operator LogicOp.symbol Condition.logic))).Spells Derives) ts c →
      SpellsCondition .conjunction ts c := by
    refine of_chained_operators (fun _ _ => .clause) fun op hop _ _ _ _ hus hvs => ?_
    obtain rfl := List.mem_singleton.1 hop
    exact .and hus hvs
  refine of_chained_operators (fun us a hus => .conjunction (hconjunction hus))
    (fun op hop us a vs b hus hvs => ?_) h
  obtain rfl := List.mem_singleton.1 hop
  exact .or hus (hconjunction hvs)

/-- A clause is a negation, a literal, a relation or a condition in parentheses. -/
theorem spells_clauseRule {c : Condition} (h : clauseRule.Spells Derives ts c) :
    SpellsCondition .clause ts c := by
  rcases h with ⟨c, hnot, rfl⟩ | (⟨_, htrue, rfl⟩ | ⟨_, hfalse, rfl⟩) | hrelation | hgroup | hnone
  · obtain ⟨us, vs, _, hus, hvs, rfl⟩ := spells_keepRight hnot
    rw [spells_word hus]
    exact .not hvs
  · rw [spells_word htrue]
    exact .true
  · rw [spells_word hfalse]
    exact .false
  · obtain ⟨⟨⟨a, op⟩, b⟩, ⟨us, vs, ⟨ws, xs, ha, hop, rfl⟩, hb, rfl⟩, rfl⟩ := hrelation
    rw [spells_anyOperator hop, List.append_assoc]
    exact .relation ha hb
  · obtain ⟨us, vs, _, hus, hvs, rfl⟩ := spells_keepLeft hgroup
    obtain ⟨ws, xs, _, hws, hxs, rfl⟩ := spells_keepRight hus
    rw [spells_word hws, spells_word hvs]
    exact .group hxs
  · exact hnone.elim

theorem spells_assignment {s : Program} (h : assignment.Spells Derives ts s) :
    SpellsProgram .statement ts s := by
  obtain ⟨⟨name, e⟩, ⟨us, vs, hname, he, rfl⟩, rfl⟩ := h
  obtain ⟨us, ws, _, hus, hws, rfl⟩ := spells_keepLeft hname
  rw [spells_identifier hus, spells_word hws]
  exact .assign he

theorem spells_forLoop {s : Program} (h : forLoop.Spells Derives ts s) :
    SpellsProgram .statement ts s := by
  obtain ⟨⟨⟨⟨name, a⟩, b⟩, s⟩, h, rfl⟩ := h
  obtain ⟨_, tend, _, ⟨_, body, h₁, hbody, rfl⟩, hend, rfl⟩ := spells_keepLeft h
  obtain ⟨_, tdo, _, ⟨_, stop, h₂, hstop, rfl⟩, hdo, rfl⟩ := spells_keepLeft h₁
  obtain ⟨_, tto, _, ⟨_, start, h₃, hstart, rfl⟩, hto, rfl⟩ := spells_keepLeft h₂
  obtain ⟨_, teq, _, h₄, heq, rfl⟩ := spells_keepLeft h₃
  obtain ⟨tfor, tname, _, hfor, hname, rfl⟩ := spells_keepRight h₄
  rw [spells_word hend, spells_word hdo, spells_word hto, spells_word heq, spells_word hfor,
    spells_identifier hname]
  simpa only [List.append_assoc, List.cons_append, List.nil_append] using
    SpellsProgram.for hstart hstop hbody

/-- The two forms of `if` differ in their last part only. -/
theorem spells_choice {s : Program} (h : choice.Spells Derives ts s) :
    SpellsProgram .statement ts s := by
  obtain ⟨⟨⟨c, s⟩, other⟩, h, rfl⟩ := h
  obtain ⟨_, tend, _, ⟨_, vs, ⟨_, body, h₁, hbody, rfl⟩, hother, rfl⟩, hend, rfl⟩ :=
    spells_keepLeft h
  obtain ⟨_, tthen, _, h₂, hthen, rfl⟩ := spells_keepLeft h₁
  obtain ⟨tif, cond, _, hif, hcond, rfl⟩ := spells_keepRight h₂
  rw [spells_word hend, spells_word hthen, spells_word hif]
  rcases hother with ⟨rfl, hnone⟩ | ⟨t, helse, hsome⟩
  · obtain rfl : other = none := hnone
    simpa only [List.append_assoc, List.cons_append, List.nil_append, List.append_nil,
      Stmt.ifWith] using SpellsProgram.ifThen hcond hbody
  · obtain rfl : other = some t := hsome
    obtain ⟨telse, body', _, hword, hbody', rfl⟩ := spells_keepRight helse
    rw [spells_word hword]
    simpa only [List.append_assoc, List.cons_append, List.nil_append, Stmt.ifWith] using
      SpellsProgram.ifThenElse hcond hbody hbody'

theorem spells_whileLoop {s : Program} (h : whileLoop.Spells Derives ts s) :
    SpellsProgram .statement ts s := by
  obtain ⟨⟨c, s⟩, h, rfl⟩ := h
  obtain ⟨_, tend, _, ⟨_, body, h₁, hbody, rfl⟩, hend, rfl⟩ := spells_keepLeft h
  obtain ⟨_, tdo, _, h₂, hdo, rfl⟩ := spells_keepLeft h₁
  obtain ⟨twhile, cond, _, hwhile, hcond, rfl⟩ := spells_keepRight h₂
  rw [spells_word hend, spells_word hdo, spells_word hwhile]
  simpa only [List.append_assoc, List.cons_append, List.nil_append] using
    SpellsProgram.while hcond hbody

theorem spells_declaration {s : Program} (h : declaration.Spells Derives ts s) :
    SpellsProgram .statement ts s := by
  obtain ⟨⟨name, s⟩, h, rfl⟩ := h
  obtain ⟨_, tend, _, ⟨_, body, h₁, hbody, rfl⟩, hend, rfl⟩ := spells_keepLeft h
  obtain ⟨_, tdo, _, h₂, hdo, rfl⟩ := spells_keepLeft h₁
  obtain ⟨tfunc, tname, _, hfunc, hname, rfl⟩ := spells_keepRight h₂
  rw [spells_word hend, spells_word hdo, spells_word hfunc, spells_identifier hname]
  exact .func hbody

/-- A statement is one of eight kinds, told apart by their first words. -/
theorem spells_statementRule {s : Program} (h : statementRule.Spells Derives ts s) :
    SpellsProgram .statement ts s := by
  rcases h with h | h | h | h | ⟨e, h, rfl⟩ | ⟨name, h, rfl⟩ | ⟨name, h, rfl⟩ | h | hnone
  · exact spells_assignment h
  · exact spells_forLoop h
  · exact spells_choice h
  · exact spells_whileLoop h
  · obtain ⟨us, vs, _, hus, hvs, rfl⟩ := spells_keepRight h
    rw [spells_word hus]
    exact .print hvs
  · obtain ⟨us, vs, _, hus, hvs, rfl⟩ := spells_keepRight h
    rw [spells_word hus, spells_identifier hvs]
    exact .input
  · obtain ⟨us, vs, _, hus, hvs, rfl⟩ := spells_keepRight h
    rw [spells_word hus, spells_identifier hvs]
    exact .call
  · exact spells_declaration h
  · exact hnone.elim

/-- Statements are a chain with semicolons, joined from the left. -/
theorem spells_statementsRule {s : Program} (h : statementsRule.Spells Derives ts s) :
    SpellsProgram .statements ts s := by
  induction h with
  | one h => exact .statement h
  | join _ hsep hright ih =>
    obtain ⟨_, hword, rfl⟩ := hsep
    rw [spells_word hword, List.append_assoc]
    exact .seq ih hright

/-- **The grammar derives only what spells a program.** -/
theorem closed_grammar : grammar.Closed Derives := by
  intro i ts v h
  cases i with
  | statements => exact spells_statementsRule h
  | statement => exact spells_statementRule h
  | expression => exact spells_expressionRule h
  | arithmetic => exact spells_arithmeticRule h
  | operand => exact spells_operandRule h
  | condition => exact spells_conditionRule h
  | clause => exact spells_clauseRule h

end Program

/-! ## What is begun can be finished -/

namespace Parser

variable {ι : Type} {sort : ι → Type} {α β : Type} {lang : (i : ι) → List Token → sort i → Prop}

/-- A word can always be written. -/
theorem productive_word (text : String) : (word text : Parser sort String).Productive lang :=
  ⟨[.word text], text, .word text, if_pos ⟨rfl, rfl⟩, rfl⟩

theorem productive_identifier : (identifier : Parser sort String).Productive lang := by
  have hread : (Terminal.tagged .id).read? (.name "") = some "" := rfl
  exact ⟨[.name ""], "", .name "", hread, rfl⟩

theorem productive_opt (p : Parser sort α) : (opt p).Productive lang := ⟨[], none, .inl ⟨rfl, rfl⟩⟩

/-- A chain can be written if its item can. -/
theorem productive_chain {item : Parser sort α} {separator : Parser sort (α → α → α)}
    (h : item.Productive lang) : (chain item separator).Productive lang := by
  obtain ⟨ts, v, hts⟩ := h
  exact ⟨ts, v, .one hts⟩

theorem productive_anyOperator (symbol : β → String) (op : β) (ops : List β) :
    (anyOperator symbol (op :: ops) : Parser sort β).Productive lang := by
  have hword : (word (symbol op) : Parser sort String).Productive lang := productive_word _
  obtain ⟨ts, v, hts⟩ := hword
  exact ⟨ts, op, .inl ⟨v, hts, rfl⟩⟩

/-- A choice can be finished if each of its alternatives can. -/
theorem finishes_anyOf {ps : List (Parser sort α)} (h : ∀ p ∈ ps, p.Finishes lang) :
    (anyOf ps).Finishes lang := by
  induction ps with
  | nil => trivial
  | cons p ps ih =>
    obtain ⟨hp, hps⟩ := List.forall_mem_cons.1 h
    exact ⟨hp, ih hps⟩

/-- Operators are single words, so that there is nothing to finish. -/
theorem finishes_operators (symbol : β → String) (combine : β → α → α → α) (ops : List β) :
    (anyOf (ops.map (operator symbol combine)) : Parser sort _).Finishes lang := by
  refine finishes_anyOf fun p hp => ?_
  obtain ⟨op, _, rfl⟩ := List.mem_map.1 hp
  trivial

theorem finishes_anyOperator (symbol : β → String) (ops : List β) :
    (anyOperator symbol ops : Parser sort β).Finishes lang := by
  refine finishes_anyOf fun p hp => ?_
  obtain ⟨op, _, rfl⟩ := List.mem_map.1 hp
  trivial

/-- Operators between terms can be finished if the terms can. -/
theorem finishes_precedence {symbol : β → String} {combine : β → α → α → α} {term : Parser sort α}
    {levels : List (List β)} (hterm : term.Finishes lang) (hproductive : term.Productive lang) :
    (precedence symbol combine term levels).Finishes lang := by
  unfold precedence
  induction levels generalizing term with
  | nil => exact hterm
  | cons ops levels ih =>
    exact ih ⟨hterm, finishes_operators symbol combine ops, hproductive⟩
      (productive_chain hproductive)

end Parser

namespace Program

open Cam.Parser

/-- Each rule derives something; the shortest texts do for all of them. -/
theorem derives_nonempty (i : Nonterminal) : ∃ ts v, Derives i ts v := by
  have harith : SpellsArithmetic .operand [.name ""] (.var "") := .var
  have hclause : SpellsCondition .clause [.word "true"] (.literal true) := .true
  have hstatement : SpellsProgram .statement [.word "input", .name ""] (.input "") := .input
  cases i with
  | statements => exact ⟨_, _, SpellsProgram.statement hstatement⟩
  | statement => exact ⟨_, _, hstatement⟩
  | expression => exact ⟨_, _, SpellsExpression.arithmetic (.product (.operand harith))⟩
  | arithmetic => exact ⟨_, _, SpellsArithmetic.product (.operand harith)⟩
  | operand => exact ⟨_, _, harith⟩
  | condition => exact ⟨_, _, SpellsCondition.conjunction (.clause hclause)⟩
  | clause => exact ⟨_, _, hclause⟩

/-- **Whatever the grammar begins can be finished.** -/
theorem finishes_grammar (i : Nonterminal) : (grammar i).Finishes Derives := by
  have hstatements := derives_nonempty .statements
  have hexpression := derives_nonempty .expression
  have harithmetic := derives_nonempty .arithmetic
  have hcondition := derives_nonempty .condition
  have hword : ∀ text, (word text : Parser Nonterminal.Tree String).Productive Derives :=
    productive_word
  have hname : (identifier : Parser Nonterminal.Tree String).Productive Derives :=
    productive_identifier
  cases i with
  | statements => exact ⟨trivial, trivial, derives_nonempty .statement⟩
  | statement =>
    have hassign : assignment.Finishes Derives :=
      ⟨⟨trivial, trivial, hword _⟩, trivial, hexpression⟩
    have hfor : forLoop.Finishes Derives :=
      ⟨⟨⟨⟨⟨⟨⟨⟨trivial, trivial, hname⟩, trivial, hword _⟩, trivial, harithmetic⟩, trivial, hword _⟩,
        trivial, harithmetic⟩, trivial, hword _⟩, trivial, hstatements⟩, trivial, hword _⟩
    have hchoice : choice.Finishes Derives :=
      ⟨⟨⟨⟨⟨trivial, trivial, hcondition⟩, trivial, hword _⟩, trivial, hstatements⟩,
        ⟨trivial, trivial, hstatements⟩, productive_opt _⟩, trivial, hword _⟩
    have hwhile : whileLoop.Finishes Derives :=
      ⟨⟨⟨⟨trivial, trivial, hcondition⟩, trivial, hword _⟩, trivial, hstatements⟩, trivial, hword _⟩
    have hfunc : declaration.Finishes Derives :=
      ⟨⟨⟨⟨trivial, trivial, hname⟩, trivial, hword _⟩, trivial, hstatements⟩, trivial, hword _⟩
    exact ⟨hassign, hfor, hchoice, hwhile, ⟨trivial, trivial, hexpression⟩,
      ⟨trivial, trivial, hname⟩, ⟨trivial, trivial, hname⟩, hfunc, trivial⟩
  | expression => exact ⟨trivial, trivial⟩
  | arithmetic => exact finishes_precedence trivial (derives_nonempty .operand)
  | operand => exact ⟨⟨trivial, trivial⟩, ⟨trivial, trivial, harithmetic⟩, trivial, hword _⟩
  | condition => exact finishes_precedence trivial (derives_nonempty .clause)
  | clause =>
    have hrelation : relation.Finishes Derives :=
      ⟨⟨trivial, finishes_anyOperator _ _, productive_anyOperator _ _ _⟩, trivial, hexpression⟩
    have hgroup : group.Finishes Derives := ⟨⟨trivial, trivial, hcondition⟩, trivial, hword _⟩
    exact ⟨⟨trivial, trivial, derives_nonempty .clause⟩, ⟨trivial, trivial⟩, hrelation, hgroup,
      trivial⟩

end Program

end Cam
