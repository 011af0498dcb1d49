import Cam.Proofs.Run.Invariant

/-!
# Proofs/Run/Environment — what the environment of a run can hold

A run of a program `p` has one environment.  At every point of it a name is bound only if some
statement of `p` sets it, and to an integer, a string or a function that `p` declares
(`Store.Sound`).  Functions refer to that same environment, and so no call finds it gone, however
functions are copied, declared anew or declared inside one another; and since no variable ever holds
a truth value, no error speaks of one (`Stmt.environment_of_run`).
-/

namespace Cam

/-! ## The statements of a program -/

namespace Stmt

variable {ℓ : Type}

/-- The statements that occur in a statement, itself included. -/
def parts (s : Stmt ℓ) : List (Stmt ℓ) :=
  s :: match s with
    | .seq first second => first.parts ++ second.parts
    | .ifThen _ t => t.parts
    | .ifThenElse _ t e => t.parts ++ e.parts
    | .while _ body => body.parts
    | .for _ _ _ body => body.parts
    | .func _ _ body => body.parts
    | .assign _ _ | .print _ | .input _ | .call _ => []

/-- The name a statement sets itself, if it sets one. -/
def target? : Stmt ℓ → Option String
  | .assign name _ | .input name | .for name _ _ _ | .func _ name _ => some name
  | _ => none

/-- The names that are set somewhere in a statement. -/
def targets (s : Stmt ℓ) : List String := s.parts.filterMap target?

@[simp] theorem mem_parts_self (s : Stmt ℓ) : s ∈ s.parts := by
  cases s <;> exact List.mem_cons_self

/-- What occurs in a part occurs in the whole. -/
theorem mem_parts_trans {s t p : Stmt ℓ} (hs : s ∈ t.parts) (ht : t ∈ p.parts) : s ∈ p.parts := by
  induction p with
  | seq _ _ ih₁ ih₂ | ifThenElse _ _ _ ih₁ ih₂ =>
    rw [parts] at ht ⊢
    rcases List.mem_cons.1 ht with rfl | ht
    · rwa [parts] at hs
    · refine List.mem_cons_of_mem _ (List.mem_append.2 ?_)
      exact (List.mem_append.1 ht).imp ih₁ ih₂
  | ifThen _ _ ih | «while» _ _ ih | «for» _ _ _ _ ih | func _ _ _ ih =>
    rw [parts] at ht ⊢
    rcases List.mem_cons.1 ht with rfl | ht
    · rwa [parts] at hs
    · exact List.mem_cons_of_mem _ (ih ht)
  | assign | print | input | call =>
    obtain rfl := List.mem_singleton.1 ht
    exact hs

theorem mem_targets {s p : Stmt ℓ} (hs : s ∈ p.parts) {name : String}
    (h : s.target? = some name) : name ∈ p.targets := List.mem_filterMap.2 ⟨s, hs, h⟩

end Stmt

/-! ## Values and errors -/

/-- A value that a run of the program against the environment can come to. -/
inductive Value.Arises (p : Stmt Nat) (env : EnvId) : Value → Prop where
  | integer (n : Int64) : Arises p env (.integer n)
  | string (s : String) : Arises p env (.string s)
  /-- The function of a declaration in the program, at home in the environment. -/
  | function {label : Nat} {name : String} {body : Stmt Nat}
      (h : .func label name body ∈ p.parts) : Arises p env (.function ⟨name, label, body, env⟩)

/-- The kinds of values that an error names. -/
def RuntimeError.kinds : RuntimeError → List Kind
  | .notCallable _ found => [found]
  | .typeMismatch _ left right => [left, right]
  | .expectedInteger _ found => [found]
  | _ => []

/-- An error that speaks neither of a lost environment nor of a truth value. -/
structure RuntimeError.Plain (e : RuntimeError) : Prop where
  dropped (name : String) : e ≠ .environmentDropped name
  kinds : .boolean ∉ e.kinds

variable {p : Stmt Nat} {env : EnvId}

/-- No truth value arises: there is no way to write one. -/
theorem Value.Arises.kind_ne {value : Value} (h : value.Arises p env) : .boolean ≠ value.kind := by
  cases h <;> exact nofun

/-- What is read from a line is an integer or a string. -/
theorem Value.arises_ofLine (line : String) : (Value.ofLine line).Arises p env := by
  simp only [Value.ofLine]
  split
  next => exact .integer _
  next => exact .string _

namespace RuntimeError.Plain

/-- An error that is not about kinds of values is plain. -/
theorem of_kinds_eq_nil {e : RuntimeError} (h : ∀ name, e ≠ .environmentDropped name)
    (hkinds : e.kinds = []) : e.Plain := ⟨h, hkinds ▸ List.not_mem_nil⟩

theorem of_kinds_eq_singleton {e : RuntimeError} {kind : Kind}
    (h : ∀ name, e ≠ .environmentDropped name) (hkinds : e.kinds = [kind])
    (hkind : .boolean ≠ kind) : e.Plain :=
  ⟨h, fun hmem => hkind (List.mem_singleton.1 (hkinds ▸ hmem))⟩

/-- A mismatch between values that arise is plain. -/
theorem typeMismatch {op : ValueOp} {left right : Value} (hleft : left.Arises p env)
    (hright : right.Arises p env) : (RuntimeError.typeMismatch op left.kind right.kind).Plain :=
  ⟨nofun, by simp [RuntimeError.kinds, hleft.kind_ne, hright.kind_ne]⟩

end RuntimeError.Plain

/-- Arithmetic on integers fails by a division by zero or by an overflow. -/
theorem ArithOp.yields_onIntegers (op : ArithOp) (a b : Int64) :
    Yields RuntimeError.Plain (fun _ => True) (op.onIntegers a b) := by
  cases h : op.onIntegers a b with
  | ok n => trivial
  | error e =>
    have he : e = .divisionByZero ∨ e = .overflow op := by
      cases op <;> simp only [ArithOp.onIntegers] at h <;> grind
    rcases he with rfl | rfl <;> exact .of_kinds_eq_nil nofun rfl

/-- Of values that arise, arithmetic makes others that do, or fails plainly. -/
theorem ArithOp.yields_apply (op : ArithOp) {left right : Value} (hleft : left.Arises p env)
    (hright : right.Arises p env) :
    Yields RuntimeError.Plain (Value.Arises p env) (op.apply left right) := by
  unfold ArithOp.apply
  split
  next a b =>
    have h := op.yields_onIntegers a b
    cases hab : op.onIntegers a b with
    | ok n => exact .integer n
    | error e =>
      rw [hab] at h
      exact h
  next => exact .string _
  next => exact .typeMismatch hleft hright

/-- Values that arise are compared, or the comparison fails plainly. -/
theorem RelOp.yields_apply (op : RelOp) {left right : Value} (hleft : left.Arises p env)
    (hright : right.Arises p env) :
    Yields RuntimeError.Plain (fun _ => True) (op.apply left right) := by
  unfold RelOp.apply
  split
  next => trivial
  next => trivial
  next =>
    split
    next => trivial
    next => exact RuntimeError.Plain.typeMismatch hleft hright

/-! ## Evaluation -/

section Evaluation

variable {scope : Bindings}
  (hscope : ∀ name value, scope.get? name = some value → value.Arises p env)

include hscope

/-- **An expression has a value that arises from those of the variables.** -/
theorem Expr.yields_eval (e : Expr) :
    Yields RuntimeError.Plain (Value.Arises p env) (e.eval scope) := by
  induction e with
  | int n => exact .integer n
  | str raw => exact .string _
  | var name =>
    unfold Expr.eval
    split
    next value h => exact hscope name value h
    next => exact .of_kinds_eq_nil nofun rfl
  | binary op left right ihLeft ihRight =>
    exact ihLeft.bind fun a ha => ihRight.bind fun b hb => op.yields_apply ha hb

theorem Condition.yields_eval (c : Condition) :
    Yields RuntimeError.Plain (fun _ => True) (c.eval scope) := by
  induction c with
  | literal b => trivial
  | relation op left right =>
    exact (left.yields_eval hscope).bind fun a ha =>
      (right.yields_eval hscope).bind fun b hb => op.yields_apply ha hb
  | logic op left right ihLeft ihRight =>
    exact ihLeft.bind fun a _ => ihRight.bind fun b _ => trivial
  | not inner ih => exact ih.bind fun _ _ => trivial

end Evaluation

/-! ## The environment -/

/-- What the environment of a run of `p` is like: it is there, and the variables it holds are set
in `p` to values that `p` can come to. -/
structure Store.Sound (p : Stmt Nat) (env : EnvId) (store : Store) : Prop where
  alive : store.isAlive env
  bound (name : String) (value : Value) (h : (store.scope env).get? name = some value) :
    name ∈ p.targets ∧ value.Arises p env

namespace Store.Sound

variable {store : Store} (h : store.Sound p env)

include h

theorem arises (name : String) (value : Value) (hget : (store.scope env).get? name = some value) :
    value.Arises p env := (h.bound name value hget).2

/-- A sound environment stays sound when a name of the program is set to a value that arises. -/
theorem set {name : String} {value : Value} (hname : name ∈ p.targets)
    (hvalue : value.Arises p env) : (store.set env name value).Sound p env where
  alive := by
    rw [isAlive_set]
    exact h.alive
  bound other v hget := by
    rw [scope_set_self h.alive, Dict.get?_insert] at hget
    split at hget
    next heq =>
      cases hget
      exact ⟨heq ▸ hname, hvalue⟩
    next => exact h.bound other v hget

end Store.Sound

/-- A new environment is sound, because it is empty. -/
theorem Store.sound_create (p : Stmt Nat) (store : Store) :
    store.create.Sound p store.next := by
  have hget : store.create.get? store.next = some .empty := by rw [get?_create, if_pos rfl]
  constructor
  · rw [isAlive, hget]
    rfl
  · intro name value h
    rw [scope, hget] at h
    cases h

/-! ## Steps -/

/-- A job that a run of the program against the environment can come to. -/
def Job.Arises (p : Stmt Nat) (env : EnvId) : Job → Prop
  | .run s home => s ∈ p.parts ∧ home = env
  | .rounds name body home _ _ => name ∈ p.targets ∧ body ∈ p.parts ∧ home = env

/-- The action keeps the environment of a run of the program sound, and its errors are plain. -/
abbrev Action.Safe {α : Type} (p : Stmt Nat) (env : EnvId) (a : Action RuntimeError α)
    (Q : α → Prop) : Prop :=
  Action.Keeps (fun w => w.store.Sound p env) RuntimeError.Plain a Q

namespace Action.Safe

theorem assign {name : String} {value : Value} (hname : name ∈ p.targets)
    (hvalue : value.Arises p env) : Safe p env (assign env name value) fun _ => True :=
  Keeps.assign fun _ hw => hw.set hname hvalue

theorem eval (e : Expr) :
    Safe p env (reading env fun scope => e.eval scope) (Value.Arises p env) :=
  Keeps.reading fun _ hw => e.yields_eval hw.arises

theorem test (cond : Condition) :
    Safe p env (reading env fun scope => cond.eval scope) fun _ => True :=
  Keeps.reading fun _ hw => cond.yields_eval hw.arises

theorem writeLine (text : String) : Safe p env (writeLine text) fun _ => True :=
  Keeps.writeLine (fun _ _ hw => hw) fun _ => .of_kinds_eq_nil nofun rfl

theorem readValue (name : String) : Safe p env (readValue name) (Value.Arises p env) :=
  Keeps.readValue (fun _ _ hw => hw) Value.arises_ofLine (.of_kinds_eq_nil nofun rfl) fun _ =>
    .of_kinds_eq_nil nofun rfl

theorem loopBound (bound : LoopBound) (e : Expr) :
    Safe p env (loopBound env bound e) fun _ => True :=
  Keeps.loopBound (fun _ hw => e.yields_eval hw.arises) fun _ hvalue =>
    .of_kinds_eq_singleton nofun rfl hvalue.kind_ne

/-- A call finds the body of a declared function, and its environment. -/
theorem call (name : String) :
    Safe p env (Job.run (.call name) env).step fun more => ∀ k ∈ more, k.Arises p env := by
  refine .bind .get fun w hw => ?_
  cases hget : (w.store.scope env).get? name with
  | none => exact .fail (.of_kinds_eq_nil nofun rfl)
  | some value =>
    have hvalue := hw.arises name value hget
    cases hvalue with
    | integer n => exact .fail (.of_kinds_eq_singleton nofun rfl nofun)
    | string s => exact .fail (.of_kinds_eq_singleton nofun rfl nofun)
    | function hfunc =>
      refine .bind .get fun w hw => ?_
      rw [if_pos hw.alive]
      refine .pure fun k hk => ?_
      obtain rfl := List.mem_singleton.1 hk
      exact ⟨Stmt.mem_parts_trans (by simp [Stmt.parts]) hfunc, rfl⟩

/-- **A step keeps the environment sound.** -/
theorem step {job : Job} (h : job.Arises p env) :
    Safe p env job.step fun more => ∀ k ∈ more, k.Arises p env := by
  cases job with
  | rounds name body home count first =>
    obtain ⟨hname, hbody, rfl⟩ := h
    cases count with
    | zero => exact .pure (by simp)
    | succ count =>
      refine .bind (assign hname (.integer first)) fun _ _ => .pure ?_
      simp [Job.Arises, hname, hbody]
  | run s home =>
    obtain ⟨hs, rfl⟩ := h
    have htarget {name : String} (h : s.target? = some name) : name ∈ p.targets :=
      Stmt.mem_targets hs h
    have hpart {t : Stmt Nat} (ht : t ∈ s.parts) : t ∈ p.parts := Stmt.mem_parts_trans ht hs
    cases s with
    | assign name e =>
      exact .bind (eval e) fun value hvalue =>
        .bind (assign (htarget rfl) hvalue) fun _ _ => .pure (by simp)
    | seq first second =>
      have hfirst : first ∈ p.parts := hpart (by simp [Stmt.parts])
      have hsecond : second ∈ p.parts := hpart (by simp [Stmt.parts])
      exact .pure (by simp [Job.Arises, hfirst, hsecond])
    | print e =>
      exact .bind (eval e) fun value _ => .bind (writeLine value.text) fun _ _ => .pure (by simp)
    | input name =>
      exact .bind (readValue name) fun value hvalue =>
        .bind (assign (htarget rfl) hvalue) fun _ _ => .pure (by simp)
    | ifThen cond t =>
      have ht : t ∈ p.parts := hpart (by simp [Stmt.parts])
      refine .bind (test cond) fun go _ => .pure ?_
      cases go <;> simp [Job.Arises, ht]
    | ifThenElse cond t e =>
      have ht : t ∈ p.parts := hpart (by simp [Stmt.parts])
      have he : e ∈ p.parts := hpart (by simp [Stmt.parts])
      refine .bind (test cond) fun go _ => .pure ?_
      cases go <;> simp [Job.Arises, ht, he]
    | «while» cond body =>
      have hbody : body ∈ p.parts := hpart (by simp [Stmt.parts])
      refine .bind (test cond) fun go _ => .pure ?_
      cases go <;> simp [Job.Arises, hbody, hs]
    | «for» name start stop body =>
      have hbody : body ∈ p.parts := hpart (by simp [Stmt.parts])
      have hname : name ∈ p.targets := htarget rfl
      refine .bind (loopBound .start start) fun first _ =>
        .bind (loopBound .stop stop) fun last _ => .pure ?_
      simp [Job.Arises, hbody, hname]
    | func label name body =>
      exact .bind (assign (htarget rfl) (.function hs)) fun _ _ => .pure (by simp)
    | call name => exact call name

end Action.Safe

/-! ## Runs -/

namespace Stmt

/-- The environment of a run of the program is sound at every point. -/
def environment (p : Stmt Nat) (env : EnvId) : Invariant where
  world w := w.store.Sound p env
  job := Job.Arises p env
  error := RuntimeError.Plain
  step := Action.Safe.step

/-- The point at which a run of the program starts. -/
def start (p : Stmt Nat) (w : World) : Point := .running [.run p w.store.next] w.fresh

/-- **What the environment of a run holds.**  The steps from the start of a run come to an end as
the run does.  At every point on the way, in what is left with any budget, and in the environment
the run ends with, all names are set somewhere in the program, to integers, strings or functions
that the program declares and that are at home in this environment, which is still there.  So no run
fails for want of an environment, and no error speaks of a truth value. -/
theorem environment_of_run (p : Stmt Nat) (w : World) :
    (∀ r w', p.Finishes w.store.next w.fresh r w' ↔ (p.start w).Reaches (.ended r w')) ∧
    (∀ q, (p.start w).Reaches q → q.world.store.Sound p w.store.next) ∧
    (∀ budget, ((p.exec budget w.store.next).leaves w.fresh).store.Sound p w.store.next) ∧
    (∀ budget env w', p.run budget w = .ok env w' →
      env = w.store.next ∧ w'.store.Sound p env) ∧
    ∀ budget e w', p.run budget w = .error (.failed e) w' →
      (∀ name, e ≠ .environmentDropped name) ∧ .boolean ∉ e.kinds := by
  have hfresh : (p.environment w.store.next).world w.fresh := w.store.sound_create p
  have hjob : (p.environment w.store.next).job (.run p w.store.next) := ⟨p.mem_parts_self, rfl⟩
  have hstart : (p.environment w.store.next).At (p.start w) :=
    ⟨hfresh, List.forall_mem_singleton.2 hjob⟩
  have hrun := Invariant.run hjob hfresh fun _ => .of_kinds_eq_nil nofun rfl
  refine ⟨fun r w' => finishes_iff, fun q hq => (hstart.of_reaches hq).world,
    fun budget => (Invariant.exec hjob budget).leaves hfresh, fun budget env w' h => ?_,
    fun budget e w' h => ?_⟩
  · have hended := hrun budget
    rw [h] at hended
    obtain ⟨rfl, hsound⟩ := hended
    exact ⟨rfl, hsound⟩
  · have hplain := hrun budget
    rw [h] at hplain
    exact ⟨hplain.dropped, hplain.kinds⟩

/-- A function that declares another one and gives it a second name, by which it is then called. -/
def nested : Stmt Nat :=
  .seq (.func 0 "f" (.seq (.func 1 "g" (.assign "x" (.int 1))) (.assign "h" (.var "g"))))
    (.seq (.call "f") (.call "h"))

theorem environment_of_nested : ∃ w',
    nested.run 5 ⟨.empty, .ofBytes [], .unlimited⟩ = .ok ⟨0⟩ w' ∧
    (w'.store.scope ⟨0⟩).get? "h" = some (.function ⟨"g", 1, .assign "x" (.int 1), ⟨0⟩⟩) ∧
    w'.store.Sound nested ⟨0⟩ := by
  let w : World := ⟨.empty, .ofBytes [], .unlimited⟩
  have hrun : nested.run 5 w = .ok ⟨0⟩ ((nested.exec 5 ⟨0⟩).leaves w.fresh) := by
    with_unfolding_all rfl
  refine ⟨_, hrun, ?_, ?_⟩
  · decide +kernel
  · exact ((environment_of_run nested w).2.2.2.1 5 _ _ hrun).2

end Stmt

end Cam
