import Cam.Command
import Cam.Proofs.Program.Rendering
import Cam.Proofs.Run.Joining
import Cam.Proofs.Run.Printing
import Cam.Proofs.Run.Regime

/-!
# Proofs/Run/Framing — output comes in lines

A string literal and a name stand on one line of the source text, and so does what is read of the
input.  Values are made from these by taking off quotes and by joining strings, so no value that
comes up in a run has a line feed in its text, whatever functions are declared, copied and called
(`Stmt.unbroken_of_reaches`).  Each value that is printed is therefore one line of the output, and
each variable one line of the listing of an environment (`Program.output_in_lines`).
-/

namespace Cam

open Text Input

/-! ## Expressions on one line -/

/-- An expression and the operands in it. -/
def Expr.parts : Expr → List Expr
  | .binary op left right => .binary op left right :: (left.parts ++ right.parts)
  | e => [e]

/-- The expressions in a condition. -/
def Condition.exprs : Condition → List Expr
  | .literal _ => []
  | .relation _ left right => left.parts ++ right.parts
  | .logic _ left right => left.exprs ++ right.exprs
  | .not inner => inner.exprs

/-- The expressions that a statement evaluates itself, with their operands; those of the statements
in it are not among them. -/
def Stmt.exprs {ℓ : Type} : Stmt ℓ → List Expr
  | .assign _ e | .print e => e.parts
  | .ifThen cond _ | .ifThenElse cond _ _ | .while cond _ => cond.exprs
  | .for _ start stop _ => start.parts ++ stop.parts
  | .seq _ _ | .input _ | .func _ _ _ | .call _ => []

theorem Expr.mem_parts_self (e : Expr) : e ∈ e.parts := by
  cases e <;> exact List.mem_cons_self

theorem Expr.mem_parts_trans {d e f : Expr} (hd : d ∈ e.parts) (he : e ∈ f.parts) :
    d ∈ f.parts := by
  induction f with
  | binary op left right ihLeft ihRight =>
    rw [parts] at he ⊢
    rcases List.mem_cons.1 he with rfl | he
    · rwa [parts] at hd
    · refine List.mem_cons_of_mem _ (List.mem_append.2 ?_)
      exact (List.mem_append.1 he).imp ihLeft ihRight
  | int | str | var =>
    obtain rfl := List.mem_singleton.1 he
    exact hd

theorem Condition.mem_exprs_trans {d e : Expr} {c : Condition} (hd : d ∈ e.parts)
    (he : e ∈ c.exprs) : d ∈ c.exprs := by
  induction c with
  | literal => cases he
  | relation op left right =>
    refine List.mem_append.2 ?_
    exact (List.mem_append.1 he).imp (Expr.mem_parts_trans hd) (Expr.mem_parts_trans hd)
  | logic op left right ihLeft ihRight =>
    exact List.mem_append.2 ((List.mem_append.1 he).imp ihLeft ihRight)
  | not inner ih => exact ih he

theorem Stmt.mem_exprs_trans {ℓ : Type} {d e : Expr} {s : Stmt ℓ} (hd : d ∈ e.parts)
    (he : e ∈ s.exprs) : d ∈ s.exprs := by
  cases s with
  | assign | print => exact Expr.mem_parts_trans hd he
  | ifThen | ifThenElse | «while» => exact Condition.mem_exprs_trans hd he
  | «for» name start stop body =>
    refine List.mem_append.2 ?_
    exact (List.mem_append.1 he).imp (Expr.mem_parts_trans hd) (Expr.mem_parts_trans hd)
  | seq | input | func | call => cases he

theorem Text.mem_of_mem_trim {p : Char → Bool} {cs : List Char} {c : Char} (h : c ∈ trim p cs) :
    c ∈ cs := by
  have hsub {ds : List Char} : ds.dropWhile p ⊆ ds := List.dropWhile_subset p
  exact hsub (List.mem_reverse.1 (hsub (List.mem_reverse.1 h)))

/-- What stands between the quotes is on one line with them. -/
theorem oneLine_unquote {raw : String} (h : OneLine raw) : OneLine (unquote raw) := by
  rw [OneLine, unquote, String.toList_ofList]
  exact fun hmem => h (mem_of_mem_trim hmem)

theorem ArithOp.oneLine_apply (op : ArithOp) {left right : Value} (hleft : OneLine left.text)
    (hright : OneLine right.text) :
    Yields (fun _ => True) (fun v => OneLine v.text) (op.apply left right) := by
  unfold ArithOp.apply
  split
  next a b =>
    cases op.onIntegers a b with
    | error => trivial
    | ok n => exact Integer.oneLine_text n
  next => exact oneLine_append.2 ⟨hleft, hright⟩
  next => trivial

/-- **An expression whose strings and variables are on one line has a value on one line.** -/
theorem Expr.oneLine_eval {scope : Bindings}
    (hscope : ∀ name v, scope.get? name = some v → OneLine v.text) {e : Expr}
    (hstrings : ∀ raw, .str raw ∈ e.parts → OneLine raw) :
    Yields (fun _ => True) (fun v => OneLine v.text) (e.eval scope) := by
  induction e with
  | int n => exact Integer.oneLine_text n
  | str raw => exact oneLine_unquote (hstrings raw List.mem_cons_self)
  | var name =>
    unfold Expr.eval
    split
    next v hget => exact hscope name v hget
    next => trivial
  | binary op left right ihLeft ihRight =>
    have hleft : ∀ raw, .str raw ∈ left.parts → OneLine raw := fun raw h =>
      hstrings raw (List.mem_cons_of_mem _ (List.mem_append_left _ h))
    have hright : ∀ raw, .str raw ∈ right.parts → OneLine raw := fun raw h =>
      hstrings raw (List.mem_cons_of_mem _ (List.mem_append_right _ h))
    exact (ihLeft hleft).bind fun a ha => (ihRight hright).bind fun b hb => op.oneLine_apply ha hb

/-- **What is read is a value on one line.** -/
theorem Value.oneLine_ofLine {text : String} (h : OneLine text) : OneLine (ofLine text).text := by
  simp only [ofLine, dropLastChar_of_not_mem h]
  split
  next n _ => exact Integer.oneLine_text n
  next =>
    rw [Value.text, OneLine, String.toList_ofList]
    refine fun hmem => h ?_
    rw [dropLastChar] at hmem
    split at hmem
    next => exact List.dropLast_subset _ hmem
    next => exact hmem

/-! ## Runs on one line -/

/-- The name that the statement sets and its strings are on one line. -/
structure Stmt.Unbroken {ℓ : Type} (s : Stmt ℓ) : Prop where
  target (name : String) (h : s.target? = some name) : OneLine name
  strings (raw : String) (h : .str raw ∈ s.exprs) : OneLine raw

theorem Yields.and {ε α : Type} {Q R : α → Prop} {r : Except ε α} (hQ : Yields (fun _ => True) Q r)
    (hR : Yields (fun _ => True) R r) : Yields (fun _ => True) (fun x => Q x ∧ R x) r := by
  cases r with
  | error => trivial
  | ok x => exact ⟨hQ, hR⟩

/-- Statements whose names and strings are on one line make values on one line, and functions of
such statements. -/
def Regime.unbroken (env : EnvId) : Regime env where
  allows := Stmt.Unbroken
  target := OneLine
  value v := OneLine v.text ∧
    v.Known fun f => f.home = env ∧ ∀ t ∈ f.body.parts, t.Unbroken
  sets {_} hs name h := hs.target name h
  eval {_ e} hs _ hscope :=
    .and (Expr.oneLine_eval (fun name v h => (hscope name v h).1) hs.strings)
      (e.known_eval fun name f h => (hscope name (.function f) h).2)
  integer n := ⟨Integer.oneLine_text n, trivial⟩
  line {_ _ line} h := by
    obtain ⟨text, htext, rfl | rfl⟩ := readLine_eq_ok h
    · rw [Value.ofLine_append_feed htext]
      exact ⟨Value.oneLine_ofLine htext, Value.known_ofLine _ _⟩
    · exact ⟨Value.oneLine_ofLine htext, Value.known_ofLine _ _⟩
  declared {label name body} h := by
    have hname : OneLine name := (h _ (Stmt.mem_parts_self _)).target name rfl
    have hbody : body ∈ (Stmt.func label name body).parts := by simp [Stmt.parts]
    refine ⟨?_, rfl, fun t ht => h t (Stmt.mem_parts_trans ht hbody)⟩
    simp only [Value.text, oneLine_append]
    exact ⟨⟨by decide, hname⟩, by decide⟩
  function h := h.2

namespace Point

/-- The next step at the point evaluates some expression, or an operand in one, to the value. -/
def Evaluates : Point → Value → Prop
  | running (.run s env :: _) w, v => ∃ e ∈ s.exprs, e.eval (w.store.scope env) = .ok v
  | _, _ => False

theorem Prints.evaluates {q : Point} {v : Value} (h : q.Prints v) : q.Evaluates v := by
  unfold Prints at h
  split at h
  next e env jobs w => exact ⟨e, e.mem_parts_self, h⟩
  next => exact h.elim

/-- There is no line feed in the name of a variable of the environment, nor in the text of its value
or of a value that is evaluated at the point. -/
structure Unbroken (env : EnvId) (q : Point) : Prop where
  name (name : String) (v : Value) (h : (q.world.store.scope env).get? name = some v) : OneLine name
  bound (name : String) (v : Value) (h : (q.world.store.scope env).get? name = some v) :
    OneLine v.text
  evaluated (v : Value) (h : q.Evaluates v) : OneLine v.text

end Point

theorem Regime.Governs.oneLine_evaluated {env : EnvId} {q : Point}
    (h : (Regime.unbroken env).Governs q) {v : Value} (hv : q.Evaluates v) : OneLine v.text := by
  rcases q with ⟨_ | ⟨⟨s, home⟩ | ⟨_, _, _, _, _⟩, jobs⟩, w⟩ | ⟨_, _⟩
  · exact hv.elim
  · obtain ⟨rfl, hs⟩ := h.jobs _ List.mem_cons_self
    obtain ⟨e, he, heval⟩ := hv
    have hstrings : ∀ raw, .str raw ∈ e.parts → OneLine raw := fun raw hraw =>
      (hs s s.mem_parts_self).strings raw (Stmt.mem_exprs_trans hraw he)
    have hyields := Expr.oneLine_eval (fun name v hget => (h.value name v hget).1) hstrings
    rw [Point.world, heval] at hyields
    exact hyields
  · exact hv.elim
  · exact hv.elim

/-- **A run of statements on one line stays on one line.**  Names that the program does not set are
as at the start, when none was bound. -/
theorem Stmt.unbroken_of_reaches {p : Stmt Nat} (hp : ∀ t ∈ p.parts, t.Unbroken) {w : World}
    {q : Point} (hreaches : (p.start w).Reaches q) : q.Unbroken w.store.next := by
  have hempty (name : String) : ((p.start w).world.store.scope w.store.next).get? name = none := by
    have hget : (p.start w).world.store.get? w.store.next = some .empty := by
      rw [start, Point.world, World.fresh, Store.get?_create, if_pos rfl]
    rw [Store.scope, hget]
    rfl
  have hstart : (Regime.unbroken w.store.next).Governs (p.start w) := by
    refine ⟨fun name v hget => ?_, List.forall_mem_singleton.2 ⟨rfl, hp⟩⟩
    rw [hempty] at hget
    cases hget
  obtain ⟨hgoverns, hframed⟩ := hstart.of_reaches hreaches
  refine ⟨fun name v hget => ?_, fun name v hget => (hgoverns.value name v hget).1,
    fun v => hgoverns.oneLine_evaluated⟩
  by_contra hname
  rw [hframed.kept name hname, hempty] at hget
  cases hget

/-! ## Programs from source text -/

theorem IsName.oneLine {name : String} (h : IsName name) : OneLine name := fun hmem =>
  absurd (isWordChar_of_isWord h.1 '\n' hmem) (by decide)

theorem IsQuoted.oneLine {raw : String} (h : IsQuoted raw) : OneLine raw := by
  obtain ⟨body, hraw, hbody⟩ := h
  have hfeed : '\n' ∉ body := fun hmem => (hbody '\n' hmem).2 rfl
  simp [OneLine, hraw, hfeed]

theorem Expr.Plain.not_mem_parts {e : Expr} (h : e.Plain) (raw : String) : .str raw ∉ e.parts := by
  induction e with
  | int | var => simp [parts]
  | str => exact h.elim
  | binary op left right ihLeft ihRight => simp [parts, ihLeft h.1, ihRight h.2]

theorem Expr.Surface.strings {e : Expr} (h : e.Surface) (raw : String) (hraw : .str raw ∈ e.parts) :
    OneLine raw := by
  cases e with
  | str =>
    cases List.mem_singleton.1 hraw
    exact IsQuoted.oneLine h
  | int | var | binary => exact absurd hraw (Plain.not_mem_parts h raw)

theorem Condition.Surface.strings {c : Condition} (h : c.Surface) (raw : String)
    (hraw : .str raw ∈ c.exprs) : OneLine raw := by
  induction c with
  | literal => cases hraw
  | relation op left right =>
    exact (List.mem_append.1 hraw).elim (h.1.strings raw) (h.2.strings raw)
  | logic op left right ihLeft ihRight =>
    exact (List.mem_append.1 hraw).elim (ihLeft h.1) (ihRight h.2)
  | not inner ih => exact ih h hraw

namespace Stmt

variable {ℓ : Type} {s t : Stmt ℓ}

/-- A statement that can be written has its names and strings on one line. -/
theorem Surface.unbroken (h : s.Surface) : s.Unbroken := by
  cases s with
  | assign name e => exact ⟨fun _ heq => Option.some.inj heq ▸ h.1.oneLine, h.2.strings⟩
  | seq => exact ⟨nofun, nofun⟩
  | print e => exact ⟨nofun, Expr.Surface.strings h⟩
  | input name => exact ⟨fun _ heq => Option.some.inj heq ▸ IsName.oneLine h, nofun⟩
  | ifThen | ifThenElse | «while» => exact ⟨nofun, h.1.strings⟩
  | «for» name start stop body =>
    obtain ⟨hname, hstart, hstop, -⟩ := h
    refine ⟨fun _ heq => Option.some.inj heq ▸ hname.oneLine, fun raw hraw => ?_⟩
    exact (List.mem_append.1 hraw).elim (hstart.surface.strings raw) (hstop.surface.strings raw)
  | func label name body => exact ⟨fun _ heq => Option.some.inj heq ▸ h.1.oneLine, nofun⟩
  | call => exact ⟨nofun, nofun⟩

theorem Surface.of_mem_parts (h : s.Surface) (ht : t ∈ s.parts) : t.Surface := by
  induction s with
  | assign | print | input | call =>
    obtain rfl := List.mem_singleton.1 ht
    exact h
  | seq first second ihFirst ihSecond =>
    rcases List.mem_cons.1 ht with rfl | ht
    · exact h
    · exact (List.mem_append.1 ht).elim (ihFirst h.1) (ihSecond h.2.1)
  | ifThenElse cond t e ihThen ihElse =>
    rcases List.mem_cons.1 ht with rfl | ht
    · exact h
    · exact (List.mem_append.1 ht).elim (ihThen h.2.1) (ihElse h.2.2)
  | ifThen _ _ ih | «while» _ _ ih | func _ _ _ ih =>
    rcases List.mem_cons.1 ht with rfl | ht
    · exact h
    · exact ih h.2 ht
  | «for» name start stop body ih =>
    rcases List.mem_cons.1 ht with rfl | ht
    · exact h
    · exact ih h.2.2.2 ht

theorem isSeq_number (s : Stmt ℓ) (next : Nat) : (s.number next).1.isSeq = s.isSeq := by
  cases s <;> simp [number, isSeq]

theorem Surface.number (h : s.Surface) (next : Nat) : (s.number next).1.Surface := by
  induction s generalizing next <;> simp_all [Stmt.number, Surface, isSeq_number]

end Stmt

/-! ## Lines of output -/

/-- The bytes are so many lines. -/
def InLines (n : Nat) (bytes : List UInt8) : Prop :=
  ∃ lines : List (List UInt8),
    lines.length = n ∧ (∀ line ∈ lines, IsLine line) ∧ lines.flatten = bytes

/-- There are as many lines as line feeds. -/
theorem InLines.count_eq {n : Nat} {bytes : List UInt8} (h : InLines n bytes) :
    bytes.count 10 = n := by
  obtain ⟨lines, rfl, hlines, rfl⟩ := h
  induction lines with
  | nil => rfl
  | cons line lines ih =>
    obtain ⟨⟨text, htext, rfl⟩, hrest⟩ := List.forall_mem_cons.1 hlines
    rw [List.flatten_cons, List.count_append, List.count_append, List.count_eq_zero.2 htext,
      ih hrest,
      List.count_singleton_self, List.length_cons]
    omega

theorem Value.inLines_lines {values : List Value} (h : ∀ v ∈ values, OneLine v.text) :
    InLines values.length (lines values) := by
  refine ⟨values.map fun (v : Value) => bytes (v.text ++ "\n"), List.length_map .., ?_, rfl⟩
  intro line hline
  obtain ⟨v, hv, rfl⟩ := List.mem_map.1 hline
  exact isLine_bytes (h v hv)

theorem Text.bytes_join (texts : List String) :
    bytes (String.join texts) = texts.flatMap bytes := by
  induction texts with
  | nil => rfl
  | cons text texts ih => rw [String.join_cons, bytes_append, ih, List.flatMap_cons]

/-- With `--env` the variables are listed after what was printed. -/
theorem Invocation.run_listing {i : Invocation} (hinspects : i.inspects = false)
    (henv : i.options.env) {file : Except FileError ByteArray} {source : String}
    (hfile : textOf file = .ok source) {budget : Nat} {input : List UInt8} {env : EnvId} {w : World}
    (hrun : Program.runSource budget source (.start (.ofBytes input) .unlimited) = .ok env w) :
    ∃ outcome, i.run budget file input = some outcome ∧
      outcome.stdout.data.toList = w.output.written.data.toList ++
        (w.store.scope env).entries.flatMap fun entry => bytes (bindingLine entry) := by
  simp only [run, hfile, hinspects, execute, hrun, henv]
  refine ⟨_, rfl, ?_⟩
  have hlisting := bytes_join ((w.store.scope env).entries.map bindingLine)
  rw [List.flatMap_map] at hlisting
  rw [← hlisting]
  exact ByteArray.toList_data_append

/-- What a run prints is on one line, if all values that are evaluated are. -/
theorem Point.Printing.oneLine {p q : Point} {values : List Value} (h : p.Printing values q)
    (hevaluated : ∀ q v, p.Reaches q → q.Evaluates v → OneLine v.text) :
    ∀ v ∈ values, OneLine v.text := by
  induction h with
  | refl => exact List.forall_mem_nil _
  | @print q values v jobs w h hprints hnext ih =>
    have hv : OneLine v.text := hevaluated q v h.reaches hprints.evaluates
    exact List.forall_mem_append.2 ⟨ih, List.forall_mem_singleton.2 hv⟩
  | quiet _ _ _ ih => exact ih

namespace Program

variable {source : String} {program : Program}

/-- The point at which a run of the program starts. -/
def entry (program : Program) (w : World) : Point := (program.number 0).1.start w

theorem unbroken_of_ofSource (h : ofSource source = .ok program) :
    ∀ t ∈ (program.number 0).1.parts, t.Unbroken := by
  obtain ⟨ts, hlex, hparse⟩ := ofSource_ok_iff.1 h
  have hsurface := (surface_of_ofSource hlex hparse).number 0
  exact fun t ht => (hsurface.of_mem_parts ht).unbroken

/-- A run of a text that goes well ends at a point of the run of its program, with nothing left to
do. -/
theorem reaches_of_runSource (h : ofSource source = .ok program) {budget : Nat} {w w' : World}
    {env : EnvId} (hrun : runSource budget source w = .ok env w') :
    env = w.store.next ∧ (program.entry w).Reaches (.running [] w') := by
  have hruns : (program.number 0).1.Runs w (.ok env) w' := by
    refine ⟨budget, ?_⟩
    rw [runSource, h] at hrun
    simp only [Action.mapError] at hrun
    split at hrun
    next heq =>
      cases hrun
      exact heq
    next => cases hrun
    next => cases hrun
  obtain ⟨r, w₁, hfinishes, hconclude⟩ := Stmt.runs_iff.1 hruns
  unfold Stmt.conclude at hconclude
  split at hconclude
  next =>
    cases hconclude
    exact ⟨rfl, Stmt.finishes_iff.1 hfinishes⟩
  next => cases hconclude
  next => cases hconclude

/-- **Output comes in lines.**  At every point of a run of a source text no variable holds and no
evaluation gives a value with a line feed in its text.  So, on an output that takes everything, each
value that is printed adds one line, with its line feed at the end, and what has been written is as
many lines as values have been printed.  The listing of the variables has one line for each, in
increasing order of their names. -/
theorem output_in_lines (h : ofSource source = .ok program) (w : World) :
    (∀ q, (program.entry w).Reaches q → q.Unbroken w.store.next) ∧
    (w.output.limit = none → ∀ q, (program.entry w).Reaches q →
      (∀ v q', q.Prints v → q.Next q' → ∃ line, IsLine line ∧
        q'.world.output.written.data.toList = q.world.output.written.data.toList ++ line) ∧
      (∃ values, (program.entry w).Printing values q) ∧
      ∀ values, (program.entry w).Printing values q → ∃ printed, InLines values.length printed ∧
        q.world.output.written.data.toList = w.output.written.data.toList ++ printed) ∧
    ∀ (i : Invocation) (file : Except FileError ByteArray) (budget : Nat) (input : List UInt8)
      (env : EnvId) (w' : World), i.inspects = false → i.options.env →
      Invocation.textOf file = .ok source →
      runSource budget source (.start (.ofBytes input) .unlimited) = .ok env w' →
      ∃ outcome, i.run budget file input = some outcome ∧
        outcome.stdout.data.toList = w'.output.written.data.toList ++
          ((w'.store.scope env).entries.flatMap fun entry => bytes (Invocation.bindingLine entry)) ∧
        (∀ entry ∈ (w'.store.scope env).entries, IsLine (bytes (Invocation.bindingLine entry))) ∧
        (w'.store.scope env).entries.Pairwise fun a b => a.1 < b.1 := by
  have hunbroken {w : World} {q : Point} (hreaches : (program.entry w).Reaches q) :
      q.Unbroken w.store.next := Stmt.unbroken_of_reaches (unbroken_of_ofSource h) hreaches
  refine ⟨fun q => hunbroken, fun hlimit q hreaches => ⟨fun v q' hprints hnext => ?_, ?_, ?_⟩, ?_⟩
  · have hv : OneLine v.text := (hunbroken hreaches).evaluated v hprints.evaluates
    obtain ⟨jobs, w', rfl⟩ := hprints.running_of_next (hreaches.exists_printing hlimit).1 hnext
    refine ⟨_, isLine_bytes hv, ?_⟩
    rw [Point.world, hprints.written hnext, ByteArray.toList_data_append]
    rfl
  · exact (hreaches.exists_printing hlimit).2
  · intro values hprinting
    have hvalues := hprinting.oneLine fun q v hreaches => (hunbroken hreaches).evaluated v
    exact ⟨Value.lines values, Value.inLines_lines hvalues, hprinting.written⟩
  · intro i file budget input env w' hinspects henv hfile hrun
    obtain ⟨outcome, houtcome, hstdout⟩ := Invocation.run_listing hinspects henv hfile hrun
    obtain ⟨rfl, hreaches⟩ := reaches_of_runSource h hrun
    refine ⟨outcome, houtcome, hstdout, fun entry hentry => ?_, Dict.sorted _⟩
    obtain ⟨name, value⟩ := entry
    have hget := (Dict.mem_entries_iff _ name value).1 hentry
    refine isLine_bytes (oneLine_append.2 ⟨oneLine_append.2 ⟨?_, by decide⟩, ?_⟩)
    · exact (hunbroken hreaches).name name value hget
    · exact (hunbroken hreaches).bound name value hget

/-- What is read is joined with a string of the text, printed and listed. -/
def greeting : Program :=
  .seq (.seq (.seq (.input "x") (.assign "y" (.str "\" b\"")))
    (.assign "z" (.binary .add (.var "x") (.var "y")))) (.print (.var "z"))

/-- One value is printed, on one line, and each of the three variables has a line of the listing. -/
theorem greeting_in_lines :
    let source := "input x ; y = \" b\" ; z = ( x + y ) ; print z"
    ∃ w' outcome, runSource 1 source (.start (.ofBytes [97, 10]) .unlimited) = .ok ⟨0⟩ w' ∧
      InLines 1 w'.output.written.data.toList ∧
      Invocation.run ⟨⟨false, false, true, false⟩, "greeting"⟩ 1 (.ok source.toUTF8) [97, 10] =
        some outcome ∧
      (w'.store.scope ⟨0⟩).entries =
        [("x", .string "a"), ("y", .string " b"), ("z", .string "a b")] ∧
      ∀ entry ∈ (w'.store.scope ⟨0⟩).entries, IsLine (bytes (Invocation.bindingLine entry)) := by
  intro source
  let w : World := .start (.ofBytes [97, 10]) .unlimited
  let w' : World := ((greeting.number 0).1.exec 1 ⟨0⟩).leaves w.fresh
  have hx : IsName "x" := ⟨rfl, by decide⟩
  have hy : IsName "y" := ⟨rfl, by decide⟩
  have hz : IsName "z" := ⟨rfl, by decide⟩
  have hquoted : IsQuoted "\" b\"" :=
    ⟨[' ', 'b'], rfl, List.forall_mem_cons.2 ⟨by decide, List.forall_mem_singleton.2 (by decide)⟩⟩
  have hsurface : greeting.Surface := ⟨⟨⟨hx, ⟨hy, hquoted⟩, rfl⟩, ⟨hz, hx, hy⟩, rfl⟩, hz, rfl⟩
  have hrender : greeting.render = source := by decide +kernel
  have hsource : ofSource source = .ok greeting :=
    hrender ▸ ofSource_ok_iff.2 ⟨greeting.tokens, ofSource_render hsurface⟩
  have hrun : runSource 1 source w = .ok ⟨0⟩ w' := by
    rw [runSource, hsource]
    with_unfolding_all rfl
  have hfile : Invocation.textOf (.ok source.toUTF8) = .ok source := by
    have htext : String.fromUTF8? source.toUTF8 = some source := fromUTF8?_eq_some_iff.2 rfl
    simp only [Invocation.textOf, bind, Except.bind, htext]
    rfl
  have hwritten : w'.output.written.data.toList = [97, 32, 98, 10] := by decide +kernel
  obtain ⟨-, hlines, hlisting⟩ := output_in_lines hsource w
  obtain ⟨-, ⟨values, hprinting⟩, hinLines⟩ := hlines rfl _ (reaches_of_runSource hsource hrun).2
  obtain ⟨printed, hprinted, heq⟩ := hinLines values hprinting
  obtain ⟨outcome, houtcome, -, hentries, -⟩ :=
    hlisting ⟨⟨false, false, true, false⟩, "greeting"⟩ _ 1 [97, 10] ⟨0⟩ w' rfl rfl hfile hrun
  obtain rfl : printed = w'.output.written.data.toList := heq.symm
  have hone : values.length = 1 := by
    rw [← hprinted.count_eq, hwritten]
    rfl
  exact ⟨w', outcome, hrun, hone ▸ hprinted, houtcome, by decide +kernel, hentries⟩

end Program

end Cam
