import Cam.Proofs.Program.Rendering
import Cam.Proofs.Run.Joining
import Cam.Proofs.Run.LineFeed

/-!
# Proofs/Run/Literals — a string literal is the text between its quotes

A literal keeps its quotes from the source text to the tree and sheds them only when it is
evaluated, and then every quote at its ends goes.  That takes nothing off the text between them,
since a text with a quote in it is no literal (`unquote_literal`).  So whatever means something
elsewhere in a source text, such as `#` or a keyword, is between quotes part of the value that is
assigned or printed (`Program.literal_unchanged`).
-/

namespace Cam

/-! ## Texts between quotes -/

/-- **Marks around a text without such marks come off, and nothing else**: from either end the first
character of the text stays. -/
theorem Text.trim_enclosed {p : Char → Bool} {c : Char} (hc : p c) {cs : List Char}
    (hcs : ∀ d ∈ cs, p d = false) : trim p (c :: (cs ++ [c])) = cs := by
  rcases cs with _ | ⟨d, ds⟩
  · simp [trim, hc]
  · have hstart : Halts p (d :: (ds ++ [c])) := .cons (hcs d List.mem_cons_self)
    have hend : Halts p (d :: ds).reverse := fun e he =>
      hcs e (List.mem_reverse.1 (List.mem_of_mem_head? he))
    rw [trim, List.dropWhile_cons_of_pos hc, List.cons_append, hstart.dropWhile_eq_self,
      ← List.cons_append, List.reverse_append, List.reverse_singleton, List.singleton_append,
      List.dropWhile_cons_of_pos hc, hend.dropWhile_eq_self, List.reverse_reverse]

/-- The text between double quotes. -/
def literal (content : String) : String := "\"" ++ content ++ "\""

section Literal

variable {content : String}

theorem toList_literal (content : String) :
    (literal content).toList = '"' :: (content.toList ++ ['"']) := by
  rw [literal, String.toList_append, String.toList_append]
  rfl

theorem isQuoted_literal (h : ∀ c ∈ content.toList, c ≠ '"' ∧ c ≠ '\n') :
    IsQuoted (literal content) :=
  ⟨content.toList, toList_literal content, h⟩

/-- **The quotes come off, and nothing else.** -/
theorem unquote_literal (h : ∀ c ∈ content.toList, c ≠ '"') :
    unquote (literal content) = content := by
  rw [unquote, toList_literal, Text.trim_enclosed rfl fun c hc => decide_eq_false (h c hc),
    String.ofList_toList]

end Literal

/-! ## Programs of one statement -/

/-- A new environment has no variables. -/
theorem Store.scope_create (s : Store) : s.create.scope s.next = .empty := by
  rw [scope, get?_create, if_pos rfl]
  rfl

namespace Program

variable {source : String} {e : Expr} {v : Value} {w : World}

/-- A program that assigns a value leaves that variable and no other. -/
theorem outcome?_assign {name : String} (h : ofSource source = .ok (.assign name e))
    (hflush : w.output.flush = none) (heval : e.eval .empty = .ok v) (budget : Nat) :
    outcome? (runSource (budget + 1) source w) =
      some ⟨.ok (Dict.empty.insert name v), w.input, w.output⟩ := by
  have hexec : (Stmt.assign name e).exec (budget + 1) w.store.next w.fresh =
      .ok () ⟨w.store.create.set w.store.next name v, w.input, w.output⟩ := by
    rw [Stmt.exec_succ budget _ (s := .assign name e) nofun]
    simp only [Action.single, bind, EStateM.bind, Action.reading, World.fresh, Store.scope_create,
      heval]
    rfl
  have halive : w.store.create.isAlive w.store.next := (w.store.isAlive_create _).2 (.inl rfl)
  rw [outcome?_runSource h hflush]
  simp only [Stmt.number, hexec, Outcome.ofStmt, Store.scope_set_self halive, Store.scope_create]

/-- A program that prints a value writes its line, on an output that takes it, and leaves no
variable. -/
theorem outcome?_print (h : ofSource source = .ok (.print e)) (hflush : w.output.flush = none)
    (heval : e.eval .empty = .ok v) {output : Output}
    (hwrite : w.output.write (v.text ++ "\n").toUTF8 = (none, output)) (budget : Nat) :
    outcome? (runSource (budget + 1) source w) = some ⟨.ok .empty, w.input, output⟩ := by
  have hexec : (Stmt.print e).exec (budget + 1) w.store.next w.fresh =
      .ok () ⟨w.store.create, w.input, output⟩ := by
    rw [Stmt.exec_succ budget _ (s := .print e) nofun]
    simp only [Action.single, bind, EStateM.bind, Action.reading, World.fresh, Store.scope_create,
      heval, Action.writeLine, hwrite]
  rw [outcome?_runSource h hflush]
  simp only [Stmt.number, hexec, Outcome.ofStmt, Store.scope_create]

/-! ## Programs of one literal -/

theorem ofSource_of_surface {p : Program} (h : p.Surface) : ofSource p.render = .ok p :=
  ofSource_ok_iff.2 ⟨p.tokens, ofSource_render h⟩

theorem ofSource_assign_literal {name raw : String} (hname : IsName name) (hraw : IsQuoted raw) :
    ofSource (name ++ " = " ++ raw) = .ok (.assign name (.str raw)) := by
  have hrender : name ++ " = " ++ raw = (.assign name (.str raw) : Program).render := by
    have hmark : " = " = " " ++ ("=" ++ " ") := by decide
    rw [hmark]
    simp only [Stmt.render, Stmt.tokens, Expr.tokens, Token.spaced, List.map_cons, List.map_nil,
      String.intercalate_cons_cons, String.intercalate_singleton, String.append_assoc]
    rfl
  rw [hrender]
  exact ofSource_of_surface ⟨hname, hraw⟩

theorem ofSource_print_literal {raw : String} (hraw : IsQuoted raw) :
    ofSource ("print " ++ raw) = .ok (.print (.str raw)) := by
  have hrender : "print " ++ raw = (.print (.str raw) : Program).render := by
    have hword : "print " = "print" ++ " " := by decide
    rw [hword]
    simp only [Stmt.render, Stmt.tokens, Expr.tokens, Token.spaced, List.map_cons, List.map_nil,
      String.intercalate_cons_cons, String.intercalate_singleton]
    rfl
  rw [hrender]
  exact ofSource_of_surface hraw

/-- **A string literal reaches the program unchanged.**  Whatever text without double quotes and
line feeds stands between the quotes, a program that assigns the literal to a name succeeds and
leaves this variable only, whose value is the text; a program that prints the literal writes the
text and a line feed, on an output that takes them. -/
theorem literal_unchanged {content : String} (hcontent : ∀ c ∈ content.toList, c ≠ '"' ∧ c ≠ '\n')
    {w : World} (hflush : w.output.flush = none) (budget : Nat) :
    (∀ name, IsName name → ∃ scope,
      outcome? (runSource (budget + 1) (name ++ " = " ++ literal content) w) =
        some ⟨.ok scope, w.input, w.output⟩ ∧
      scope.entries = [(name, .string content)]) ∧
    ((w.output.write (content ++ "\n").toUTF8).1 = none → ∃ output,
      outcome? (runSource (budget + 1) ("print " ++ literal content) w) =
        some ⟨.ok .empty, w.input, output⟩ ∧
      output.written = w.output.written ++ (content ++ "\n").toUTF8) := by
  have hquoted := isQuoted_literal hcontent
  have heval : (Expr.str (literal content)).eval .empty = .ok (.string content) := by
    rw [Expr.eval, unquote_literal fun c hc => (hcontent c hc).1]
  refine ⟨fun name hname => ?_, fun hwrite => ?_⟩
  · have hsource := ofSource_assign_literal hname hquoted
    exact ⟨_, outcome?_assign hsource hflush heval budget, rfl⟩
  · have hsource := ofSource_print_literal hquoted
    have hpair : w.output.write (content ++ "\n").toUTF8 = (none, _) := Prod.ext hwrite rfl
    exact ⟨_, outcome?_print hsource hflush heval hpair budget, Output.written_of_write hpair⟩

/-- A comment sign, a keyword, a carriage return, a tab and a character of two bytes are all part of
the text. -/
theorem literal_unchanged_marks :
    let w := World.start (.ofBytes []) .unlimited
    (∃ scope, outcome? (runSource 1 "x = \"# end\r\té\"" w) = some ⟨.ok scope, w.input, w.output⟩ ∧
      scope.entries = [("x", .string "# end\r\té")]) ∧
    ∃ output, outcome? (runSource 1 "print \"# end\r\té\"" w) = some ⟨.ok .empty, w.input, output⟩ ∧
      output.written = "# end\r\té\n".toUTF8 := by
  intro w
  have hcontent : ∀ c ∈ "# end\r\té".toList, c ≠ '"' ∧ c ≠ '\n' := by simp
  have hflush : w.output.flush = none := rfl
  obtain ⟨hassign, hprint⟩ := literal_unchanged hcontent hflush 0
  obtain ⟨output, hrun, hwritten⟩ := hprint rfl
  refine ⟨hassign "x" ⟨rfl, by decide⟩, output, hrun, ?_⟩
  rw [hwritten]
  exact ByteArray.empty_append

end Program

end Cam
