import Cam.Proofs.Program.Acceptance
import Cam.Proofs.Token.Lexeme

/-!
# Proofs/Program/Rendering — the trees that source texts are read as

Not every tree can be written.  A name has to be a word that is no keyword, a number must not be
negative, a string stands alone and between its quotes, and statements are joined from the left.
The trees that keep to this are the *surface* trees.

`Program.surface_iff` says that they are the trees that source texts are read as, and that one of
the texts which are read as a given surface tree is its rendering: its tokens with single spaces
between them, and every operation of arithmetic or logic in parentheses.
-/

namespace Cam

/-! ## Surface trees -/

namespace Expr

/-- Arithmetic that can be written: there are no strings in it. -/
def Plain : Expr → Prop
  | .int n => 0 ≤ n.toInt
  | .str _ => False
  | .var name => IsName name
  | .binary _ left right => left.Plain ∧ right.Plain

/-- An expression that can be written: a string, or arithmetic. -/
def Surface : Expr → Prop
  | .str raw => IsQuoted raw
  | e => e.Plain

theorem Plain.surface {e : Expr} (h : e.Plain) : e.Surface := by
  cases e with
  | str raw => exact h.elim
  | _ => exact h

/-- The tokens of an expression, with parentheses around each operation. -/
def tokens : Expr → List Token
  | .int n => [⟨Integer.text n, .int⟩]
  | .str raw => [⟨raw, .string⟩]
  | .var name => [.name name]
  | .binary op left right =>
    .word "(" :: (left.tokens ++ .word op.symbol :: right.tokens ++ [.word ")"])

end Expr

namespace Condition

/-- A condition that can be written. -/
def Surface : Condition → Prop
  | .literal _ => True
  | .relation _ left right => left.Surface ∧ right.Surface
  | .logic _ left right => left.Surface ∧ right.Surface
  | .not inner => inner.Surface

/-- The tokens of a condition, with parentheses around each operation. -/
def tokens : Condition → List Token
  | .literal true => [.word "true"]
  | .literal false => [.word "false"]
  | .relation op left right => left.tokens ++ .word op.symbol :: right.tokens
  | .logic op left right =>
    .word "(" :: (left.tokens ++ .word op.symbol :: right.tokens ++ [.word ")"])
  | .not inner => .word "not" :: inner.tokens

end Condition

namespace Stmt

variable {ℓ : Type}

/-- Whether the statement is two statements joined. -/
def isSeq : Stmt ℓ → Bool
  | .seq _ _ => true
  | _ => false

/-- A statement that can be written. -/
def Surface : Stmt ℓ → Prop
  | .assign name value => IsName name ∧ value.Surface
  | .seq first second => first.Surface ∧ second.Surface ∧ second.isSeq = false
  | .print value => value.Surface
  | .input name => IsName name
  | .ifThen cond t => cond.Surface ∧ t.Surface
  | .ifThenElse cond t e => cond.Surface ∧ t.Surface ∧ e.Surface
  | .while cond body => cond.Surface ∧ body.Surface
  | .for name start stop body => IsName name ∧ start.Plain ∧ stop.Plain ∧ body.Surface
  | .func _ name body => IsName name ∧ body.Surface
  | .call name => IsName name

/-- The tokens of a statement. -/
def tokens : Stmt ℓ → List Token
  | .assign name value => .name name :: .word "=" :: value.tokens
  | .seq first second => first.tokens ++ .word ";" :: second.tokens
  | .print value => .word "print" :: value.tokens
  | .input name => [.word "input", .name name]
  | .ifThen cond t =>
    .word "if" :: (cond.tokens ++ .word "then" :: (t.tokens ++ [.word "end"]))
  | .ifThenElse cond t e =>
    .word "if" :: (cond.tokens ++ .word "then" ::
      (t.tokens ++ .word "else" :: (e.tokens ++ [.word "end"])))
  | .while cond body =>
    .word "while" :: (cond.tokens ++ .word "do" :: (body.tokens ++ [.word "end"]))
  | .for name start stop body =>
    .word "for" :: .name name :: .word "=" :: (start.tokens ++ .word "to" ::
      (stop.tokens ++ .word "do" :: (body.tokens ++ [.word "end"])))
  | .func _ name body =>
    .word "func" :: .name name :: .word "do" :: (body.tokens ++ [.word "end"])
  | .call name => [.word "call", .name name]

/-- The text of a statement. -/
def render (s : Stmt ℓ) : String := Token.spaced s.tokens

end Stmt

namespace Program

variable {ts : List Token}

/-! ## What is read is a surface tree -/

/-- Arithmetic that is read from tokens that fit has no sign in its numbers and no string in it. -/
theorem plain_of_spells {tier : ArithTier} {e : Expr} (h : SpellsArithmetic tier ts e)
    (hts : ∀ token ∈ ts, token.Fits) : e.Plain := by
  induction h with
  | int hn =>
    have hnumber : IsNumber _ := hts _ (List.mem_singleton_self _)
    exact Integer.toInt_nonneg hnumber.1 hn
  | var => exact hts _ (List.mem_singleton_self _)
  | group _ ih =>
    obtain ⟨_, hinner⟩ := List.forall_mem_cons.1 hts
    exact ih (List.forall_mem_append.1 hinner).1
  | operand _ ih => exact ih hts
  | scaled _ _ _ ihl ihr =>
    obtain ⟨hleft, hright⟩ := List.forall_mem_append.1 hts
    exact ⟨ihl hleft, ihr (List.forall_mem_cons.1 hright).2⟩
  | product _ ih => exact ih hts
  | added _ _ _ ihl ihr =>
    obtain ⟨hleft, hright⟩ := List.forall_mem_append.1 hts
    exact ⟨ihl hleft, ihr (List.forall_mem_cons.1 hright).2⟩

theorem surface_expression {e : Expr} (h : SpellsExpression ts e)
    (hts : ∀ token ∈ ts, token.Fits) : e.Surface := by
  cases h with
  | str => exact hts _ (List.mem_singleton_self _)
  | arithmetic h => exact (plain_of_spells h hts).surface

theorem surface_condition {tier : LogicTier} {c : Condition} (h : SpellsCondition tier ts c)
    (hts : ∀ token ∈ ts, token.Fits) : c.Surface := by
  induction h with
  | not _ ih => exact ih (List.forall_mem_cons.1 hts).2
  | true => exact trivial
  | false => exact trivial
  | relation left right =>
    obtain ⟨hleft, hright⟩ := List.forall_mem_append.1 hts
    exact ⟨surface_expression left hleft,
      surface_expression right (List.forall_mem_cons.1 hright).2⟩
  | group _ ih =>
    obtain ⟨_, hinner⟩ := List.forall_mem_cons.1 hts
    exact ih (List.forall_mem_append.1 hinner).1
  | clause _ ih => exact ih hts
  | and _ _ ihl ihr =>
    obtain ⟨hleft, hright⟩ := List.forall_mem_append.1 hts
    exact ⟨ihl hleft, ihr (List.forall_mem_cons.1 hright).2⟩
  | conjunction _ ih => exact ih hts
  | or _ _ ihl ihr =>
    obtain ⟨hleft, hright⟩ := List.forall_mem_append.1 hts
    exact ⟨ihl hleft, ihr (List.forall_mem_cons.1 hright).2⟩

theorem isSeq_statement {s : Program} (h : SpellsProgram .statement ts s) : s.isSeq = false := by
  cases h <;> rfl

/-- A program that is read from tokens that fit is a surface tree: what stands right of a semicolon
is a single statement. -/
theorem surface_program {tier : ProgramTier} {s : Program} (h : SpellsProgram tier ts s)
    (hts : ∀ token ∈ ts, token.Fits) : s.Surface := by
  induction h with
  | assign value =>
    simp only [List.forall_mem_cons] at hts
    obtain ⟨hname, _, hvalue⟩ := hts
    exact ⟨hname, surface_expression value hvalue⟩
  | «for» start stop _ ih =>
    simp only [List.forall_mem_cons, List.forall_mem_append] at hts
    obtain ⟨_, hname, _, hstart, _, hstop, _, hbody, _⟩ := hts
    exact ⟨hname, plain_of_spells start hstart, plain_of_spells stop hstop, ih hbody⟩
  | ifThen cond _ ih =>
    simp only [List.forall_mem_cons, List.forall_mem_append] at hts
    obtain ⟨_, hcond, _, hthen, _⟩ := hts
    exact ⟨surface_condition cond hcond, ih hthen⟩
  | ifThenElse cond _ _ ihThen ihElse =>
    simp only [List.forall_mem_cons, List.forall_mem_append] at hts
    obtain ⟨_, hcond, _, hthen, _, helse, _⟩ := hts
    exact ⟨surface_condition cond hcond, ihThen hthen, ihElse helse⟩
  | «while» cond _ ih =>
    simp only [List.forall_mem_cons, List.forall_mem_append] at hts
    obtain ⟨_, hcond, _, hbody, _⟩ := hts
    exact ⟨surface_condition cond hcond, ih hbody⟩
  | print value => exact surface_expression value (List.forall_mem_cons.1 hts).2
  | input => exact hts _ (List.mem_cons_of_mem _ (List.mem_singleton_self _))
  | call => exact hts _ (List.mem_cons_of_mem _ (List.mem_singleton_self _))
  | func _ ih =>
    simp only [List.forall_mem_cons, List.forall_mem_append] at hts
    obtain ⟨_, hname, _, hbody, _⟩ := hts
    exact ⟨hname, ih hbody⟩
  | statement _ ih => exact ih hts
  | seq _ second ihFirst ihSecond =>
    obtain ⟨hfirst, hsecond⟩ := List.forall_mem_append.1 hts
    exact ⟨ihFirst hfirst, ihSecond (List.forall_mem_cons.1 hsecond).2, isSeq_statement second⟩

/-! ## A surface tree is spelled by its tokens -/

/-- Written in parentheses, any operation is an operand, whatever stands around it. -/
theorem spells_arithmetic {e : Expr} (h : e.Plain) : SpellsArithmetic .operand e.tokens e := by
  induction e with
  | int n => exact .int (Integer.ofText?_text h)
  | str raw => exact h.elim
  | var name => exact .var
  | binary op left right ihl ihr =>
    refine .group ?_
    have hleft := ihl h.1
    have hright := ihr h.2
    cases op with
    | add => exact .added (by decide) (.product (.operand hleft)) (.operand hright)
    | sub => exact .added (by decide) (.product (.operand hleft)) (.operand hright)
    | mul => exact .product (.scaled (by decide) (.operand hleft) hright)
    | div => exact .product (.scaled (by decide) (.operand hleft) hright)

theorem spells_expression {e : Expr} (h : e.Surface) : SpellsExpression e.tokens e := by
  have harithmetic : e.Plain → SpellsExpression e.tokens e := fun h =>
    .arithmetic (.product (.operand (spells_arithmetic h)))
  cases e with
  | str raw => exact .str
  | _ => exact harithmetic h

/-- …and any connective is a clause. -/
theorem spells_condition {c : Condition} (h : c.Surface) : SpellsCondition .clause c.tokens c := by
  induction c with
  | literal value =>
    cases value with
    | true => exact .true
    | false => exact .false
  | relation op left right => exact .relation (spells_expression h.1) (spells_expression h.2)
  | logic op left right ihl ihr =>
    refine .group ?_
    have hleft := ihl h.1
    have hright := ihr h.2
    cases op with
    | and => exact .conjunction (.and (.clause hleft) hright)
    | or => exact .or (.conjunction (.clause hleft)) (.clause hright)
  | not inner ih => exact .not (ih h)

/-- **A surface tree is spelled by its tokens**, as a single statement unless two are joined. -/
theorem spells_program {s : Program} (h : s.Surface) :
    SpellsProgram .statements s.tokens s ∧
      (s.isSeq = false → SpellsProgram .statement s.tokens s) := by
  have hsingle : ∀ {s : Program}, SpellsProgram .statement s.tokens s →
      SpellsProgram .statements s.tokens s ∧
        (s.isSeq = false → SpellsProgram .statement s.tokens s) :=
    fun h => ⟨.statement h, fun _ => h⟩
  have hcondition : ∀ {c : Condition}, c.Surface → SpellsCondition .disjunction c.tokens c :=
    fun h => .conjunction (.clause (spells_condition h))
  have hbound : ∀ {e : Expr}, e.Plain → SpellsArithmetic .sum e.tokens e :=
    fun h => .product (.operand (spells_arithmetic h))
  induction s with
  | assign name value => exact hsingle (.assign (spells_expression h.2))
  | seq first second ihFirst ihSecond =>
    obtain ⟨hfirst, hsecond, hseq⟩ := h
    exact ⟨.seq (ihFirst hfirst).1 ((ihSecond hsecond).2 hseq), nofun⟩
  | print value => exact hsingle (.print (spells_expression h))
  | input name => exact hsingle .input
  | ifThen cond t ih => exact hsingle (.ifThen (hcondition h.1) (ih h.2).1)
  | ifThenElse cond t e iht ihe =>
    exact hsingle (.ifThenElse (hcondition h.1) (iht h.2.1).1 (ihe h.2.2).1)
  | «while» cond body ih => exact hsingle (.while (hcondition h.1) (ih h.2).1)
  | «for» name start stop body ih =>
    obtain ⟨_, hstart, hstop, hbody⟩ := h
    exact hsingle (.for (hbound hstart) (hbound hstop) (ih hbody).1)
  | func label name body ih => exact hsingle (.func (ih h.2).1)
  | call name => exact hsingle .call

/-! ## The tokens of a surface tree fit -/

theorem fits_word {text : String} (h : text ∈ operators ++ keywords) : (Token.word text).Fits :=
  List.mem_append.1 h

/-- Parentheses around two parts and an operator fit if the parts do. -/
theorem fits_grouped {us vs : List Token} {text : String} (hus : ∀ token ∈ us, token.Fits)
    (htext : text ∈ operators ++ keywords) (hvs : ∀ token ∈ vs, token.Fits) :
    ∀ token ∈ .word "(" :: (us ++ .word text :: vs ++ [.word ")"]), token.Fits := by
  simp only [List.forall_mem_cons, List.forall_mem_append]
  exact ⟨fits_word (by decide), ⟨hus, fits_word htext, hvs⟩, fits_word (by decide),
    List.forall_mem_nil _⟩

theorem fits_arithmetic {e : Expr} (h : e.Plain) : ∀ token ∈ e.tokens, token.Fits := by
  induction e with
  | int n =>
    have hnumber : IsNumber (Integer.text n) :=
      ⟨Integer.isDigit_text h, Integer.ofText?_text h ▸ rfl⟩
    exact List.forall_mem_singleton.2 hnumber
  | str raw => exact h.elim
  | var name => exact List.forall_mem_singleton.2 h
  | binary op left right ihl ihr => exact fits_grouped (ihl h.1) (by cases op <;> decide) (ihr h.2)

theorem fits_expression {e : Expr} (h : e.Surface) : ∀ token ∈ e.tokens, token.Fits := by
  cases e with
  | str raw => exact List.forall_mem_singleton.2 h
  | _ => exact fits_arithmetic h

theorem fits_condition {c : Condition} (h : c.Surface) : ∀ token ∈ c.tokens, token.Fits := by
  induction c with
  | literal value =>
    cases value with
    | true => exact List.forall_mem_singleton.2 (fits_word (by decide))
    | false => exact List.forall_mem_singleton.2 (fits_word (by decide))
  | relation op left right =>
    simp only [Condition.tokens, List.forall_mem_cons, List.forall_mem_append]
    exact ⟨fits_expression h.1, fits_word (by cases op <;> decide), fits_expression h.2⟩
  | logic op left right ihl ihr => exact fits_grouped (ihl h.1) (by cases op <;> decide) (ihr h.2)
  | not inner ih => exact List.forall_mem_cons.2 ⟨fits_word (by decide), ih h⟩

/-- All tokens of a surface tree fit, so that they can be written side by side with a blank between
them. -/
theorem fits_program {s : Program} (h : s.Surface) : ∀ token ∈ s.tokens, token.Fits := by
  have hend : (Token.word "end").Fits ∧ ∀ token ∈ ([] : List Token), token.Fits :=
    ⟨fits_word (by decide), List.forall_mem_nil _⟩
  induction s with
  | assign name value =>
    simp only [Stmt.tokens, List.forall_mem_cons]
    exact ⟨h.1, fits_word (by decide), fits_expression h.2⟩
  | seq first second ihFirst ihSecond =>
    simp only [Stmt.tokens, List.forall_mem_cons, List.forall_mem_append]
    exact ⟨ihFirst h.1, fits_word (by decide), ihSecond h.2.1⟩
  | print value => exact List.forall_mem_cons.2 ⟨fits_word (by decide), fits_expression h⟩
  | input name =>
    exact List.forall_mem_cons.2 ⟨fits_word (by decide), List.forall_mem_singleton.2 h⟩
  | ifThen cond t ih =>
    simp only [Stmt.tokens, List.forall_mem_cons, List.forall_mem_append]
    exact ⟨fits_word (by decide), fits_condition h.1, fits_word (by decide), ih h.2, hend⟩
  | ifThenElse cond t e iht ihe =>
    simp only [Stmt.tokens, List.forall_mem_cons, List.forall_mem_append]
    exact ⟨fits_word (by decide), fits_condition h.1, fits_word (by decide), iht h.2.1,
      fits_word (by decide), ihe h.2.2, hend⟩
  | «while» cond body ih =>
    simp only [Stmt.tokens, List.forall_mem_cons, List.forall_mem_append]
    exact ⟨fits_word (by decide), fits_condition h.1, fits_word (by decide), ih h.2, hend⟩
  | «for» name start stop body ih =>
    obtain ⟨hname, hstart, hstop, hbody⟩ := h
    simp only [Stmt.tokens, List.forall_mem_cons, List.forall_mem_append]
    exact ⟨fits_word (by decide), hname, fits_word (by decide), fits_arithmetic hstart,
      fits_word (by decide), fits_arithmetic hstop, fits_word (by decide), ih hbody, hend⟩
  | func label name body ih =>
    simp only [Stmt.tokens, List.forall_mem_cons, List.forall_mem_append]
    exact ⟨fits_word (by decide), h.1, fits_word (by decide), ih h.2, hend⟩
  | call name =>
    exact List.forall_mem_cons.2 ⟨fits_word (by decide), List.forall_mem_singleton.2 h⟩

/-! ## The round trip -/

/-- What a text is read as is a surface tree. -/
theorem surface_of_ofSource {source : String} {s : Program} (hlex : Token.ofSource source = .ok ts)
    (hparse : ofTokens ts = .ok s) : s.Surface :=
  surface_program (spells_of_ofTokens hparse) (Token.fits_of_scan hlex)

/-- The text of a surface tree is read as the tree. -/
theorem ofSource_render {s : Program} (h : s.Surface) :
    Token.ofSource s.render = .ok s.tokens ∧ ofTokens s.tokens = .ok s :=
  ⟨Token.scan_spaced (fits_program h), ofTokens_of_spells (spells_program h).1⟩

/-- **The trees that source texts are read as are the surface trees**, and the text of a surface
tree is read as the tree. -/
theorem surface_iff (s : Program) :
    (s.Surface ↔ ∃ source ts, Token.ofSource source = .ok ts ∧ ofTokens ts = .ok s) ∧
      (s.Surface → Token.ofSource s.render = .ok s.tokens ∧ ofTokens s.tokens = .ok s) := by
  refine ⟨⟨fun h => ⟨s.render, s.tokens, ofSource_render h⟩, ?_⟩, ofSource_render⟩
  rintro ⟨source, ts, hlex, hparse⟩
  exact surface_of_ofSource hlex hparse

/-- A sum that is assigned and a string that is printed, as they are written and read. -/
theorem surface_assign_print :
    ∃ ts, Token.ofSource "x = ( 1 + y ) ; print \"a\"" = .ok ts ∧
      ofTokens ts = .ok (.seq (.assign "x" (.binary .add (.int 1) (.var "y")))
        (.print (.str "\"a\""))) := by
  have hone : 0 ≤ (1 : Int64).toInt := by decide
  have hquoted : IsQuoted "\"a\"" := ⟨['a'], rfl, List.forall_mem_singleton.2 (by decide)⟩
  have hsurface : (.seq (.assign "x" (.binary .add (.int 1) (.var "y"))) (.print (.str "\"a\"")) :
      Program).Surface :=
    ⟨⟨⟨rfl, by decide⟩, hone, rfl, by decide⟩, hquoted, rfl⟩
  exact ⟨_, ((surface_iff _).2 hsurface).1, ((surface_iff _).2 hsurface).2⟩

end Program

end Cam
