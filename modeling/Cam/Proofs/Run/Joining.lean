import Cam.Program.Run
import Cam.Proofs.Program.Acceptance
import Cam.Proofs.Run.Invariant
import Cam.Proofs.Token.Lines

/-!
# Proofs/Run/Joining — two programs joined by a semicolon

Two source texts with a semicolon between them, on a line of its own, are read as one program: that
of the first text with the statements of the second hung onto it one by one (`Stmt.chain`).  It runs
like the two programs one after the other in one environment, whose functions the second program may
call (`Program.runs_joined`).
-/

namespace Cam

/-! ## Trees -/

namespace Stmt

variable {ℓ : Type}

/-- The statements of `p` and then those of `q`, as one sequence that leans to the left. -/
def chain (p : Stmt ℓ) : Stmt ℓ → Stmt ℓ
  | .seq first second => .seq (p.chain first) second
  | q => .seq p q

/-- The declarations of a chain are numbered through. -/
theorem number_chain (p q : Stmt ℓ) (next : Nat) :
    (p.chain q).number next =
      ((p.number next).1.chain (q.number (p.number next).2).1, (q.number (p.number next).2).2) := by
  induction q with
  | seq first second ih _ => simp only [chain, number, ih]
  | _ => rfl

/-- **A chain runs its two parts in turn**, however they are nested. -/
theorem exec_chain (budget : Nat) (env : EnvId) (p q : Stmt Nat) :
    (p.chain q).exec budget env = (do p.exec budget env; q.exec budget env) := by
  induction q with
  | seq first second ih _ => rw [chain, exec_seq, exec_seq, ih, bind_assoc]
  | _ => exact exec_seq budget env p _

/-- A chain finishes as the sequence of its two parts does. -/
theorem finishes_chain_iff {p q : Stmt Nat} {env : EnvId} {w w' : World}
    {r : Except RuntimeError Unit} :
    (p.chain q).Finishes env w r w' ↔
      (∃ e, r = .error e ∧ p.Finishes env w (.error e) w') ∨
        ∃ w₁, p.Finishes env w (.ok ()) w₁ ∧ q.Finishes env w₁ r w' := by
  rw [← finishes_seq_iff]
  simp only [Finishes, exec_chain, exec_seq]

end Stmt

/-! ## Texts -/

namespace SpellsProgram

variable {ts us : List Token} {p q : Program}

/-- A single statement is hung on as it is. -/
theorem chain_eq_seq (p : Program) (hq : SpellsProgram .statement us q) : p.chain q = .seq p q := by
  cases hq <;> rfl

/-- **Statements, a semicolon and more statements spell the chain of the two programs.** -/
theorem chain (hp : SpellsProgram .statements ts p) (hq : SpellsProgram .statements us q) :
    SpellsProgram .statements (ts ++ .word ";" :: us) (p.chain q) := by
  generalize htier : ProgramTier.statements = tier at hq
  induction hq with
  | statement h _ =>
    rw [h.chain_eq_seq]
    exact .seq hp h
  | @seq us vs s t _ second ih _ =>
    have hseq := (ih rfl).seq second
    rwa [List.append_assoc, List.cons_append] at hseq
  | _ => cases htier

end SpellsProgram

namespace Program

/-- A text is read as a program by way of its tokens. -/
theorem ofSource_ok_iff {source : String} {p : Program} :
    ofSource source = .ok p ↔ ∃ ts, Token.ofSource source = .ok ts ∧ ofTokens ts = .ok p := by
  unfold ofSource
  cases Token.ofSource source with
  | error e => exact ⟨nofun, nofun⟩
  | ok ts =>
    change (ofTokens ts).mapError RunError.parse = .ok p ↔ _
    cases hparse : ofTokens ts with
    | error e =>
      refine ⟨nofun, ?_⟩
      rintro ⟨_, ⟨⟩, h⟩
      exact absurd (hparse.symm.trans h) nofun
    | ok p' =>
      constructor
      · rintro ⟨⟩
        exact ⟨ts, rfl, hparse⟩
      · rintro ⟨_, ⟨⟩, h⟩
        exact congrArg Except.ok (Except.ok.inj (hparse.symm.trans h))

/-- **Two texts joined by a semicolon are read as the chain of their programs.** -/
theorem ofSource_joined {a b : String} {pa pb : Program} (ha : ofSource a = .ok pa)
    (hb : ofSource b = .ok pb) : ofSource (a ++ "\n;\n" ++ b) = .ok (pa.chain pb) := by
  obtain ⟨ts, hts, hpa⟩ := ofSource_ok_iff.1 ha
  obtain ⟨us, hus, hpb⟩ := ofSource_ok_iff.1 hb
  have hmark : Token.ofSource ";" = .ok [.word ";"] := by with_unfolding_all rfl
  have hlines : a ++ "\n;\n" ++ b = a ++ "\n" ++ (";" ++ "\n" ++ b) := by
    have hmiddle : "\n;\n" = "\n" ++ ";" ++ "\n" := by decide
    rw [hmiddle]
    simp only [String.append_assoc]
  have hlex : Token.ofSource (a ++ "\n;\n" ++ b) = .ok (ts ++ .word ";" :: us) := by
    rw [hlines, Token.ofSource_below, Token.ofSource_below, hts, hmark, hus]
    rfl
  have hspells := (spells_of_ofTokens hpa).chain (spells_of_ofTokens hpb)
  exact ofSource_ok_iff.2 ⟨_, hlex, ofTokens_of_spells hspells⟩

/-! ## Outcomes -/

/-- How a run of a text ended, as far as one can tell from outside: its error or the final values of
its variables, and what became of the streams. -/
structure Outcome where
  result : Except RunError Bindings
  input : Input
  output : Output

/-- The outcome of a statement that finished in the environment. -/
def Outcome.ofStmt (env : EnvId) (r : Except RuntimeError Unit) (w : World) : Outcome where
  result :=
    match r with
    | .ok () => .ok (w.store.scope env)
    | .error e => .error (.runtime e)
  input := w.input
  output := w.output

/-- The outcome of a run of a text, unless its budget was too small to tell. -/
def outcome? : EStateM.Result (Stop RunError) World EnvId → Option Outcome
  | .ok env w => some ⟨.ok (w.store.scope env), w.input, w.output⟩
  | .error (.failed e) w => some ⟨.error e, w.input, w.output⟩
  | .error .exhausted _ => none

/-- The text can be run to its end, with this outcome. -/
def Runs (source : String) (w : World) (o : Outcome) : Prop :=
  ∃ budget, outcome? (runSource budget source w) = some o

/-- The first statement, and if that went well the second, finishes in the environment with this
outcome. -/
inductive RunsInTurn (env : EnvId) (first second : Stmt Nat) (w : World) : Outcome → Prop where
  | fails {e : RuntimeError} {w' : World} (h : first.Finishes env w (.error e) w') :
      RunsInTurn env first second w (.ofStmt env (.error e) w')
  | passes {r : Except RuntimeError Unit} {w₁ w' : World}
      (hfirst : first.Finishes env w (.ok ()) w₁)
      (hsecond : second.Finishes env w₁ r w') :
      RunsInTurn env first second w (.ofStmt env r w')

variable {source : String} {p : Program} {w : World} {o : Outcome}

/-- What a text comes to is what its program comes to in a new environment; where the output can be
handed on before the run it can be so after it. -/
theorem outcome?_runSource (h : ofSource source = .ok p) (hw : w.output.flush = none)
    (budget : Nat) : outcome? (runSource budget source w) =
      match (p.number 0).1.exec budget w.store.next w.fresh with
      | .ok _ w' => some (.ofStmt w.store.next (.ok ()) w')
      | .error (.failed e) w' => some (.ofStmt w.store.next (.error e) w')
      | .error .exhausted _ => none := by
  have hkeeps := Stmt.exec_keeps (I := fun w => w.output.flush = none) (fun _ _ _ _ hw => hw)
    (fun w bytes hw => (w.output.flush_write bytes).trans hw) (fun _ _ hw => hw) budget
    (p.number 0).1 w.store.next w.fresh hw
  rw [runSource, h]
  simp only [Action.mapError, Stmt.run_apply, bind, EStateM.bind]
  rcases hexec : (p.number 0).1.exec budget w.store.next w.fresh with ⟨_, w'⟩ | ⟨_ | _, w'⟩
  · rw [hexec] at hkeeps
    simp only [Action.flush, hkeeps.1]
    rfl
  · rfl
  · rfl

theorem runs_iff (h : ofSource source = .ok p) (hw : w.output.flush = none) :
    Runs source w o ↔ ∃ r w',
      (p.number 0).1.Finishes w.store.next w.fresh r w' ∧ .ofStmt w.store.next r w' = o := by
  simp only [Runs, outcome?_runSource h hw]
  constructor
  · rintro ⟨budget, ho⟩
    split at ho
    next w' hexec => exact ⟨.ok (), w', ⟨budget, hexec⟩, Option.some.inj ho⟩
    next e w' hexec => exact ⟨.error e, w', ⟨budget, hexec⟩, Option.some.inj ho⟩
    next => cases ho
  · rintro ⟨r, w', ⟨budget, hexec⟩, rfl⟩
    refine ⟨budget, ?_⟩
    rw [hexec]
    cases r <;> rfl

/-- **Two texts joined by a semicolon run one after the other.**  The first program runs in a new
environment and then, if that went well, the second one in the same environment with what is left of
the input; its declarations are numbered on from those of the first, so that no two are taken for
one.  The joined text ends if and only if this does, and with the same outcome. -/
theorem runs_joined {a b : String} {pa pb : Program} (ha : ofSource a = .ok pa)
    (hb : ofSource b = .ok pb) {w : World} (hw : w.output.flush = none) (o : Outcome) :
    Runs (a ++ "\n;\n" ++ b) w o ↔
      RunsInTurn w.store.next (pa.number 0).1 (pb.number (pa.number 0).2).1 w.fresh o := by
  rw [runs_iff (ofSource_joined ha hb) hw, Stmt.number_chain]
  constructor
  · rintro ⟨r, w', hfinishes, rfl⟩
    rcases Stmt.finishes_chain_iff.1 hfinishes with ⟨e, rfl, hfirst⟩ | ⟨w₁, hfirst, hsecond⟩
    · exact .fails hfirst
    · exact .passes hfirst hsecond
  · rintro (hfirst | ⟨hfirst, hsecond⟩)
    · exact ⟨_, _, Stmt.finishes_chain_iff.2 (.inl ⟨_, rfl, hfirst⟩), rfl⟩
    · exact ⟨_, _, Stmt.finishes_chain_iff.2 (.inr ⟨_, hfirst, hsecond⟩), rfl⟩

/-- A function of the first text, which ends in a comment, is called by the second one. -/
theorem runs_declared_then_called : ∃ o scope,
    Runs ("func f do x = 1 end # sets x" ++ "\n;\n" ++ "call f")
      (.start (.ofBytes []) .unlimited) o ∧
      o.result = .ok scope ∧ scope.get? "x" = some (.integer 1) := by
  let w : World := .start (.ofBytes []) .unlimited
  let declared : Stmt Nat := .func 0 "f" (.assign "x" (.int 1))
  let called : Stmt Nat := .call "f"
  let w₁ : World := (declared.exec 2 ⟨0⟩).leaves w.fresh
  let w₂ : World := (called.exec 2 ⟨0⟩).leaves w₁
  have ha : ofSource "func f do x = 1 end # sets x" = .ok (.func () "f" (.assign "x" (.int 1))) :=
    ofSource_ok_iff.2 ⟨[.word "func", .name "f", .word "do", .name "x", .word "=", ⟨"1", .int⟩,
      .word "end"], by with_unfolding_all rfl, rfl⟩
  have hb : ofSource "call f" = .ok (.call "f") :=
    ofSource_ok_iff.2 ⟨[.word "call", .name "f"], by with_unfolding_all rfl, rfl⟩
  have hfirst : declared.Finishes ⟨0⟩ w.fresh (.ok ()) w₁ := ⟨2, by with_unfolding_all rfl⟩
  have hsecond : called.Finishes ⟨0⟩ w₁ (.ok ()) w₂ := ⟨2, by with_unfolding_all rfl⟩
  refine ⟨_, _, (runs_joined ha hb (w := w) rfl _).2 (.passes hfirst hsecond), rfl, ?_⟩
  decide +kernel

end Program

end Cam
