import Cam.Proofs.Run.Invariant

/-!
# Proofs/Run/Effect — what a step can do

The first step of a job looks at the variables, and on what it finds there it fails or has one of
four effects (`Job.effect`): it only leaves jobs, it sets a variable, it writes a line or it reads
one.  So the next point of a run is a function of the point (`Point.next_iff`), and two runs can be
compared effect by effect: whatever relation between points survives a step survives the run
(`Point.Reaches.simulated`).
-/

namespace Cam

/-- What a step does, once it has looked at the variables. -/
inductive Effect where
  /-- It changes nothing, and leaves these jobs. -/
  | leave (more : List Job)
  | set (env : EnvId) (name : String) (value : Value) (more : List Job)
  | write (text : String)
  /-- It reads a line into the variable. -/
  | read (env : EnvId) (name : String)

/-- The integer that an end of a counted loop has to be. -/
def Value.asBound (bound : LoopBound) : Value → Except RuntimeError Int64
  | .integer n => .ok n
  | value => .error (.expectedInteger bound value.kind)

/-- The effect of the first step of a job, as the environments stand. -/
def Job.effect (store : Store) : Job → Except RuntimeError Effect
  | .run (.assign name e) env => return .set env name (← e.eval (store.scope env)) []
  | .run (.seq first second) env => return .leave [.run first env, .run second env]
  | .run (.print e) env => return .write (← e.eval (store.scope env)).text
  | .run (.input name) env => return .read env name
  | .run (.ifThen cond thenBranch) env => do
    let go ← cond.eval (store.scope env)
    return .leave (if go then [.run thenBranch env] else [])
  | .run (.ifThenElse cond thenBranch elseBranch) env => do
    let go ← cond.eval (store.scope env)
    return .leave [.run (if go then thenBranch else elseBranch) env]
  | .run (.while cond body) env => do
    let go ← cond.eval (store.scope env)
    return .leave (if go then [.run body env, .run (.while cond body) env] else [])
  | .run (.for name start stop body) env => do
    let first ← (← start.eval (store.scope env)).asBound .start
    let last ← (← stop.eval (store.scope env)).asBound .stop
    return .leave [.rounds name body env (last.toInt - first.toInt).toNat first]
  | .run (.func label name body) env => return .set env name (.function ⟨name, label, body, env⟩) []
  | .run (.call name) env =>
    match (store.scope env).get? name with
    | some (.function f) =>
      if store.isAlive f.home then return .leave [.run f.body f.home]
      else .error (.environmentDropped f.name)
    | some value => .error (.notCallable name value.kind)
    | none => .error (.undefinedFunction name)
  | .rounds _ _ _ 0 _ => return .leave []
  | .rounds name body env (count + 1) first =>
    return .set env name (.integer first) [.run body env, .rounds name body env count (first + 1)]

/-! ## Functions

An expression makes no function: it can only copy one. -/

/-- The value is no function, or a function with the property. -/
def Value.Known (K : Function → Prop) : Value → Prop
  | .function f => K f
  | _ => True

theorem Value.known_ofLine (K : Function → Prop) (line : String) : (Value.ofLine line).Known K := by
  simp only [Value.ofLine]
  split <;> trivial

theorem ArithOp.known_apply (K : Function → Prop) (op : ArithOp) (left right : Value) :
    Yields (fun _ => True) (Value.Known K) (op.apply left right) := by
  unfold ArithOp.apply
  split
  next a b => cases op.onIntegers a b <;> trivial
  next => trivial
  next => trivial

/-- **What all functions among the variables have, the function that an expression gives has.** -/
theorem Expr.known_eval {K : Function → Prop} {scope : Bindings}
    (h : ∀ name f, scope.get? name = some (.function f) → K f) (e : Expr) :
    Yields (fun _ => True) (Value.Known K) (e.eval scope) := by
  cases e with
  | int | str => trivial
  | var name =>
    unfold Expr.eval
    split
    next value hget =>
      cases value with
      | function f => exact h name f hget
      | integer | string | boolean => trivial
    next => trivial
  | binary op left right =>
    exact .bind (.always _) fun a _ => .bind (.always _) fun b _ => op.known_apply K a b

/-! ## The next point -/

/-- The world with a variable set. -/
def World.set (w : World) (env : EnvId) (name : String) (value : Value) : World :=
  ⟨w.store.set env name value, w.input, w.output⟩

/-- The point to which an effect leads, with the jobs that come after it. -/
def Effect.next (jobs : List Job) (w : World) : Effect → Point
  | .leave more => .running (more ++ jobs) w
  | .set env name value more => .running (more ++ jobs) (w.set env name value)
  | .write text =>
    match w.output.write (text ++ "\n").toUTF8 with
    | (none, output) => .running jobs ⟨w.store, w.input, output⟩
    | (some fault, output) => .failed (.stream fault) ⟨w.store, w.input, output⟩
  | .read env name =>
    match w.input.readLine with
    | (.ok (some line), input) =>
      .running jobs ⟨w.store.set env name (.ofLine line), input, w.output⟩
    | (.ok none, input) => .failed (.endOfInput name) ⟨w.store, input, w.output⟩
    | (.error fault, input) => .failed (.stream fault) ⟨w.store, input, w.output⟩

namespace Point

/-- The point with another world. -/
def map (f : World → World) : Point → Point
  | running jobs w => running jobs (f w)
  | failed e w => failed e (f w)

@[simp] theorem map_ended (f : World → World) (r : Except RuntimeError Unit) (w : World) :
    (ended r w).map f = ended r (f w) := by
  cases r <;> rfl

@[simp] theorem world_ended (r : Except RuntimeError Unit) (w : World) : (ended r w).world = w := by
  cases r <;> rfl

/-- The point to which a step leads that fails or has an effect. -/
def after (jobs : List Job) (w : World) : Except RuntimeError Effect → Point
  | .ok effect => effect.next jobs w
  | .error e => .failed e w

section Changes

variable {r : Except RuntimeError Effect} (jobs : List Job) (w : World)

/-- **A step sets at most one variable**, to a value it comes with or to one that is read. -/
theorem store_after (r : Except RuntimeError Effect) :
    (after jobs w r).world.store = w.store ∨
      ∃ env name value, (after jobs w r).world.store = w.store.set env name value ∧
        ((∃ more, r = .ok (.set env name value more)) ∨ ∃ line, value = .ofLine line) := by
  rcases r with e | more | ⟨env, name, value, more⟩ | text | ⟨env, name⟩
  · exact .inl rfl
  · exact .inl rfl
  · exact .inr ⟨env, name, value, rfl, .inl ⟨more, rfl⟩⟩
  · simp only [after, Effect.next]
    rcases w.output.write (text ++ "\n").toUTF8 with ⟨_ | fault, output⟩ <;> exact .inl rfl
  · simp only [after, Effect.next]
    rcases w.input.readLine with ⟨fault | _ | line, input⟩
    · exact .inl rfl
    · exact .inl rfl
    · exact .inr ⟨env, name, .ofLine line, rfl, .inr ⟨line, rfl⟩⟩

/-- Only what is written changes the output. -/
theorem output_after (h : ∀ text, r ≠ .ok (.write text)) :
    (after jobs w r).world.output = w.output := by
  rcases r with e | more | ⟨env, name, value, more⟩ | text | ⟨env, name⟩
  · rfl
  · rfl
  · rfl
  · exact absurd rfl (h text)
  · simp only [after, Effect.next]
    rcases w.input.readLine with ⟨fault | _ | line, input⟩ <;> rfl

/-- Only what is read changes the input. -/
theorem input_after (h : ∀ env name, r ≠ .ok (.read env name)) :
    (after jobs w r).world.input = w.input := by
  rcases r with e | more | ⟨env, name, value, more⟩ | text | ⟨env, name⟩
  · rfl
  · rfl
  · rfl
  · simp only [after, Effect.next]
    rcases w.output.write (text ++ "\n").toUTF8 with ⟨_ | fault, output⟩ <;> rfl
  · exact absurd rfl (h env name)

/-- What is read is a line. -/
theorem input_after_read (env : EnvId) (name : String) :
    (after jobs w (.ok (.read env name))).world.input = w.input.readLine.2 := by
  simp only [after, Effect.next]
  rcases w.input.readLine with ⟨fault | _ | line, input⟩ <;> rfl

end Changes

/-- The point is the one that the result of a step leads to. -/
def IsAfter (jobs : List Job) (p : Point) :
    EStateM.Result (Stop RuntimeError) World (List Job) → Prop
  | .ok more w => p = running (more ++ jobs) w
  | .error (.failed e) w => p = failed e w
  | .error .exhausted _ => False

namespace IsAfter

open Cam.Action

variable {α : Type} {jobs : List Job} {w : World} {env : EnvId}

theorem reading {f : Bindings → Except RuntimeError α} {g : α → Action RuntimeError (List Job)}
    {h : α → Except RuntimeError Effect}
    (hrest : ∀ x, (after jobs w (h x)).IsAfter jobs (g x w)) :
    (after jobs w (f (w.store.scope env) >>= h)).IsAfter jobs ((reading env f >>= g) w) := by
  simp only [bind, EStateM.bind, Action.reading]
  cases f (w.store.scope env) with
  | ok x => exact hrest x
  | error e => rfl

theorem loopBound {bound : LoopBound} {e : Expr} {g : Int64 → Action RuntimeError (List Job)}
    {h : Int64 → Except RuntimeError Effect}
    (hrest : ∀ n, (after jobs w (h n)).IsAfter jobs (g n w)) :
    (after jobs w (do h (← (← e.eval (w.store.scope env)).asBound bound))).IsAfter jobs
      ((loopBound env bound e >>= g) w) := by
  rw [Action.loopBound, bind_assoc]
  refine .reading (f := fun scope => e.eval scope) fun value => ?_
  cases value with
  | integer n => exact hrest n
  | string | boolean | function => rfl

theorem writeLine (text : String) :
    (after jobs w (.ok (.write text))).IsAfter jobs ((do writeLine text; return []) w) := by
  simp only [after, Effect.next, bind, EStateM.bind, Action.writeLine]
  rcases w.output.write (text ++ "\n").toUTF8 with ⟨_ | fault, output⟩ <;> rfl

theorem readValue (name : String) :
    (after jobs w (.ok (.read env name))).IsAfter jobs
      ((do let value ← readValue name; assign env name value; return []) w) := by
  simp only [after, Effect.next, bind, EStateM.bind, Action.readValue]
  rcases w.input.readLine with ⟨fault | _ | line, input⟩ <;> rfl

theorem call (name : String) :
    (after jobs w ((Job.run (.call name) env).effect w.store)).IsAfter jobs
      ((Job.run (.call name) env).step w) := by
  simp only [Job.step, Job.effect, get_bind]
  rcases (w.store.scope env).get? name with _ | n | s | b | f
  · rfl
  · rfl
  · rfl
  · rfl
  · simp only [get_bind]
    split <;> rfl

/-- **A step has its effect.** -/
theorem step (job : Job) : (after jobs w (job.effect w.store)).IsAfter jobs (job.step w) := by
  cases job with
  | rounds name body env count first =>
    cases count with
    | zero => rfl
    | succ count => rfl
  | run s env =>
    cases s with
    | assign name e => exact .reading fun value => rfl
    | seq first second => rfl
    | print e => exact .reading fun value => .writeLine value.text
    | input name => exact .readValue name
    | ifThen cond t => exact .reading fun go => rfl
    | ifThenElse cond t e => exact .reading fun go => rfl
    | «while» cond body => exact .reading fun go => rfl
    | «for» name start stop body => exact .loopBound fun first => .loopBound fun last => rfl
    | func label name body => rfl
    | call name => exact .call name

end IsAfter

/-- **The next point of a run is where the effect of its first job leads.** -/
theorem next_iff {job : Job} {jobs : List Job} {w : World} {q : Point} :
    Next (running (job :: jobs) w) q ↔ q = after jobs w (job.effect w.store) := by
  have hstep : (after jobs w (job.effect w.store)).IsAfter jobs (job.step w) := .step job
  constructor
  · intro h
    cases h with
    | step h | fail h =>
      rw [h] at hstep
      exact hstep.symm
  · rintro rfl
    rcases h : job.step w with ⟨more, w'⟩ | ⟨e | _, w'⟩
    · rw [h] at hstep
      exact hstep ▸ .step h
    · rw [h] at hstep
      exact hstep ▸ .fail h
    · rw [h] at hstep
      exact hstep.elim

/-- **What a step keeps between two runs, a run keeps.**  The second run may take any number of
steps to each step of the first. -/
theorem Reaches.simulated {R : Point → Point → Prop}
    (hstep : ∀ {p q p'}, R p q → Next p p' → ∃ q', q.Reaches q' ∧ R p' q') {p q p' : Point}
    (h : p.Reaches p') (hR : R p q) : ∃ q', q.Reaches q' ∧ R p' q' := by
  induction h with
  | refl => exact ⟨q, .refl, hR⟩
  | tail _ hnext ih =>
    obtain ⟨q₁, hq, hR₁⟩ := ih
    obtain ⟨q', hq', hR'⟩ := hstep hR₁ hnext
    exact ⟨q', hq.trans hq', hR'⟩

end Point

end Cam
