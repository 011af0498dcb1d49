import Cam.Proofs.Grammar.Determinacy
import Cam.Proofs.Grammar.Entry
import Cam.Proofs.Program.Acceptance

/-!
# Proofs/Program/Termination — every parse of a program ends

The rules of the grammar refer to each other in circles: a parenthesis holds arithmetic or a
condition, `not` a clause, and `do`, `then` and `else` are followed by statements.  Each of these
references stands behind a word (`Nonterminal.comesBack`), so that a rule that is come back to has a
token less before it.  A parse therefore nests no deeper than the tokens allow, and five rules a
token are enough (`Program.whole_ends`).
-/

namespace Cam

/-- The references by which the grammar comes back to a rule it is in. -/
def Nonterminal.comesBack : Nonterminal → Nonterminal → Bool
  | .operand, .arithmetic => true
  | .clause, .clause => true
  | .clause, .condition => true
  | .statement, .statements => true
  | _, _ => false

namespace Program

open Nonterminal Relation

/-- A rule that is come back to does not stand first. -/
theorem not_mem_heads_of_comesBack {i j : Nonterminal} (h : i.comesBack j) :
    j ∉ (grammar i).heads := by
  revert h
  cases i <;> cases j <;> decide

/-- **Every parse of a program ends**, in a tree or in none, within a budget that is linear in the
number of tokens, and with a larger one it goes the same, whatever is kept of its failures.  For
every rule reads a token where it matches, and nothing past the end; a reference that comes back is
followed further on than any rule around it was entered, so no rule is entered inside itself at the
same place; and each round of a chain moves on. -/
theorem whole_ends {σ : Type} (r : Reading σ) :
    (∀ budget record, 5 * r.tokens.size + 3 ≤ budget →
      (whole.run grammar r budget 0 record).1 ≠ .exhausted ∧
        whole.run grammar r budget 0 record =
          whole.run grammar r (5 * r.tokens.size + 3) 0 record) ∧
    (∀ i budget pos record tree next,
      ((Parser.rule i).run grammar r budget pos record).1 = .matched tree next →
        pos < next ∧ next ≤ r.tokens.size) ∧
    (∀ outer a b, ReflTransGen (grammar.Enters r.tokens) outer a → grammar.Enters r.tokens a b →
      a.1.comesBack b.1 → outer.2 < b.2) ∧
    (∀ i pos place, TransGen (grammar.Enters r.tokens) (i, pos) (i, place) → pos < place) ∧
    ∀ i (α : Type) (item : Parser Tree α) (separator : Parser Tree (α → α → α)),
      (Parser.chain item separator).Within (grammar i) →
        ∀ budget pos mid next join right record record',
          (separator.run grammar r budget pos record).1 = .matched join mid →
            (item.run grammar r budget mid record').1 = .matched right next →
              pos < next ∧ next ≤ r.tokens.size := by
  have hg := ranked_grammar
  refine ⟨fun budget record hbudget => ⟨?_, ?_⟩, fun i budget pos record tree next h => ?_,
    fun outer a b hdescent hentry hback => ?_, fun i pos place => hg.lt_of_reenters,
    fun i α item separator hchain budget pos mid next join right record record' hsep hitem => ?_⟩
  · rw [Parser.fst_run]
    exact reply_whole_ne_exhausted hbudget
  · have hless := reply_whole_ne_exhausted (Nat.le_refl (5 * r.tokens.size + 3))
    rw [Parser.run_eq_run (reply_whole_ne_exhausted hbudget) hless]
  · rw [Parser.fst_run] at h
    exact ⟨Parser.lt_next hg.consumes rfl h, Parser.next_le_size hg.consumes rfl h⟩
  · exact Nat.lt_of_le_of_lt (hg.le_of_descends hdescent)
      (hg.lt_of_enters hentry (not_mem_heads_of_comesBack hback))
  · rw [Parser.fst_run] at hsep hitem
    exact hg.lt_of_round hchain hsep hitem

/-- A condition that breaks off.  The clause at the parenthesis reads arithmetic up to the end of
the input, gives that up, and comes back to conditions one token further on. -/
theorem whole_ends_unfinished :
    let tokens : Array Token :=
      #[⟨"if", .reserved⟩, ⟨"(", .reserved⟩, ⟨"x", .id⟩, ⟨"*", .reserved⟩, ⟨"2", .int⟩]
    let r := Reading.furthest tokens
    let operators := Parser.anyOf ([ArithOp.mul, .div].map (.operator ArithOp.symbol Expr.binary))
    (∀ budget, 28 ≤ budget → whole.run grammar r budget 0 .start =
      (.noMatch, ⟨5, ["'*'", "'/'", "'+'", "'-'", "')'", "'<'", "'<='", "'>'", "'>='", "'=='",
        "'!='"]⟩)) ∧
    (((Parser.rule arithmetic).run grammar r 9 2 .start).1 =
      .matched (.binary .mul (.var "x") (.int 2)) 5 ∧ 2 < 5 ∧ 5 ≤ tokens.size) ∧
    (grammar.Enters tokens (.clause, 1) (.condition, 2) ∧ 1 < 2) ∧
    (TransGen (grammar.Enters tokens) (.clause, 1) (.clause, 2) ∧ 1 < 2) ∧
    (Parser.chain (.rule operand) operators).Within (grammar .arithmetic) ∧
    (operators.run grammar r 9 3 .start).1 = .matched (Expr.binary .mul) 4 ∧
    ((Parser.rule operand).run grammar r 9 4 .start).1 = .matched (.int 2) 5 ∧ 3 < 5 := by
  intro tokens r operators
  obtain ⟨hbudget, hreads, hback, hagain, hround⟩ := whole_ends r
  have harithmetic : ((Parser.rule arithmetic).run grammar r 9 2 .start).1 =
      .matched (.binary .mul (.var "x") (.int 2)) 5 := by decide +kernel
  have hgroup : grammar.Enters tokens (.clause, 1) (.condition, 2) := ⟨20, by decide +kernel⟩
  have hclause : grammar.Enters tokens (.condition, 2) (.clause, 2) := ⟨20, by decide +kernel⟩
  have hdescent := TransGen.tail (.single hgroup) hclause
  have hchain : (Parser.chain (.rule operand) operators).Within (grammar .arithmetic) :=
    .chain_item .self
  have hoperator : (operators.run grammar r 9 3 .start).1 = .matched (Expr.binary .mul) 4 := rfl
  have hoperand : ((Parser.rule operand).run grammar r 9 4 .start).1 = .matched (.int 2) 5 := by
    decide +kernel
  refine ⟨fun budget hle => ?_, ⟨harithmetic, hreads _ _ _ _ _ _ harithmetic⟩,
    ⟨hgroup, hback (.clause, 1) _ _ .refl hgroup rfl⟩, ⟨hdescent, hagain .clause 1 2 hdescent⟩,
    hchain, hoperator, hoperand, (hround _ _ _ _ hchain _ _ _ _ _ _ _ _ hoperator hoperand).1⟩
  rw [(hbudget budget .start hle).2]
  decide +kernel

end Program

end Cam
