import Cam.Proofs.Run.Budget
import Mathlib.Logic.Relation

/-!
# Proofs/Run/Machine — the points of a run

A run is at any time a list of jobs still to be done and a world.  One step carries out the first
job as far as its own effect goes and puts what is left of it in front of the others (`Job.step`);
there is no budget, and a step changes at most one variable.  The points of a run are those reached
by steps (`Point.Reaches`).

`Action.CarriedOutBy.exec` says that every run of `Stmt.exec`, also one that is cut short, ends at
such a point, and `Stmt.finishes_iff` that the run and the steps finish alike.
-/

namespace Cam

/-- Something that is still to be done. -/
inductive Job where
  /-- To run a statement against an environment. -/
  | run (s : Stmt Nat) (env : EnvId)
  /-- To run the body of a counted loop for so many integers in a row. -/
  | rounds (name : String) (body : Stmt Nat) (env : EnvId) (count : Nat) (first : Int64)

namespace Job

open Cam.Action

/-- The first step of a job, and the jobs that are left of it. -/
def step : Job → Action RuntimeError (List Job)
  | .run (.assign name e) env => do
    let value ← reading env fun scope => e.eval scope
    assign env name value
    return []
  | .run (.seq first second) env => return [.run first env, .run second env]
  | .run (.print e) env => do
    let value ← reading env fun scope => e.eval scope
    writeLine value.text
    return []
  | .run (.input name) env => do
    let value ← readValue name
    assign env name value
    return []
  | .run (.ifThen cond thenBranch) env => do
    let go ← reading env fun scope => cond.eval scope
    return if go then [.run thenBranch env] else []
  | .run (.ifThenElse cond thenBranch elseBranch) env => do
    let go ← reading env fun scope => cond.eval scope
    return [.run (if go then thenBranch else elseBranch) env]
  | .run (.while cond body) env => do
    let go ← reading env fun scope => cond.eval scope
    return if go then [.run body env, .run (.while cond body) env] else []
  | .run (.for name start stop body) env => do
    let first ← loopBound env .start start
    let last ← loopBound env .stop stop
    return [.rounds name body env (last.toInt - first.toInt).toNat first]
  | .run (.func label name body) env => do
    assign env name (.function ⟨name, label, body, env⟩)
    return []
  | .run (.call name) env => do
    match (← get).store.scope env |>.get? name with
    | some (.function f) =>
      if (← get).store.isAlive f.home then return [.run f.body f.home]
      else fail (.environmentDropped f.name)
    | some value => fail (.notCallable name value.kind)
    | none => fail (.undefinedFunction name)
  | .rounds _ _ _ 0 _ => return []
  | .rounds name body env (count + 1) first => do
    assign env name (.integer first)
    return [.run body env, .rounds name body env count (first + 1)]

end Job

/-- A point of a run. -/
inductive Point where
  /-- There are jobs left, or none and the run went well. -/
  | running (jobs : List Job) (world : World)
  /-- The run has failed. -/
  | failed (error : RuntimeError) (world : World)

namespace Point

/-- The world at a point. -/
def world : Point → World
  | running _ w => w
  | failed _ w => w

/-- One step of a run. -/
inductive Next : Point → Point → Prop where
  | step {job : Job} {jobs more : List Job} {w w' : World} (h : job.step w = .ok more w') :
      Next (running (job :: jobs) w) (running (more ++ jobs) w')
  | fail {job : Job} {jobs : List Job} {e : RuntimeError} {w w' : World}
      (h : job.step w = .error (.failed e) w') : Next (running (job :: jobs) w) (failed e w')

/-- The run passes the second point, once it is at the first. -/
abbrev Reaches : Point → Point → Prop := Relation.ReflTransGen Next

/-- The point at which a run is that has ended. -/
def ended (r : Except RuntimeError Unit) (w : World) : Point :=
  match r with
  | .ok () => running [] w
  | .error e => failed e w

/-! ## What the steps of a statement are

The clauses of `Action.single` and of `Job.step` are compared once, for any way `Does` of saying
that jobs do what an action does; it is used for both directions below. -/

end Point

namespace Action

variable {α β : Type}

/-- An action that needs no budget. -/
def Prompt (a : Action RuntimeError α) : Prop := ∀ w w', a w ≠ .error .exhausted w'

namespace Prompt

theorem pure (x : α) : Prompt (pure x) := nofun

theorem fail (e : RuntimeError) : Prompt (fail e : Action RuntimeError α) := nofun

/-- Only what is called for needs a budget: the actions that read or change the world by themselves
do not. -/
theorem bind {a : Action RuntimeError α} {f : α → Action RuntimeError β} (h : Prompt a)
    (hf : ∀ x, Prompt (f x)) : Prompt (a >>= f) := by
  intro w w'
  simp only [Bind.bind, EStateM.bind]
  rcases ha : a w with ⟨x, w₁⟩ | ⟨stop, w₁⟩
  · exact hf x w₁ w'
  · rintro heq
    cases heq
    exact h w w' ha

theorem get : Prompt (get : Action RuntimeError World) := nofun

theorem reading (env : EnvId) (f : Bindings → Except RuntimeError α) : Prompt (reading env f) := by
  intro w w'
  unfold Action.reading
  split <;> exact nofun

theorem assign (env : EnvId) (name : String) (value : Value) : Prompt (assign env name value) :=
  nofun

theorem writeLine (text : String) : Prompt (writeLine text) := by
  intro ⟨store, input, output⟩ w'
  simp only [Action.writeLine]
  split <;> exact nofun

theorem readValue (name : String) : Prompt (readValue name) := by
  intro ⟨store, input, output⟩ w'
  simp only [Action.readValue]
  split <;> exact nofun

theorem loopBound (env : EnvId) (bound : LoopBound) (e : Expr) :
    Prompt (loopBound env bound e) := by
  refine .bind (.reading env _) fun value => ?_
  split
  next => exact .pure _
  next => exact .fail _

end Prompt

/-- A way of saying that jobs do what an action does: no jobs do nothing, and jobs in turn do
actions in turn. -/
structure Lawful (Does : Action RuntimeError Unit → List Job → Prop) : Prop where
  nil : Does (pure ()) []
  append {a b : Action RuntimeError Unit} {jobs more : List Job} (ha : Does a jobs)
    (hb : Does b more) : Does (do a; b) (jobs ++ more)

/-- The action does what `m` does, and then what the jobs do that `m` leaves. -/
def Unfolds (Does : Action RuntimeError Unit → List Job → Prop) (a : Action RuntimeError Unit)
    (m : Action RuntimeError (List Job)) : Prop :=
  ∀ w, match m w with
    | .ok more w' => ∃ b, a w = b w' ∧ Does b more
    | .error (.failed e) w' => a w = .error (.failed e) w'
    | .error .exhausted _ => False

namespace Unfolds

variable {Does : Action RuntimeError Unit → List Job → Prop} {a : Action RuntimeError Unit}

theorem pure {jobs : List Job} (h : Does a jobs) : Unfolds Does a (pure jobs) :=
  fun _ => ⟨a, rfl, h⟩

/-- Both fail alike, and there is nothing left to do. -/
theorem fail (e : RuntimeError) : Unfolds Does (fail e) (fail e) := fun _ => rfl

/-- What is done first is done in both, and takes no budget; then they go on from the same value. -/
theorem bind {m : Action RuntimeError α} {f : α → Action RuntimeError Unit}
    {g : α → Action RuntimeError (List Job)} (hm : Prompt m) (h : ∀ x, Unfolds Does (f x) (g x)) :
    Unfolds Does (m >>= f) (m >>= g) := by
  intro w
  simp only [Bind.bind, EStateM.bind]
  rcases hw : m w with ⟨x, w'⟩ | ⟨_ | _, w'⟩
  · exact h x w'
  · exact rfl
  · exact hm w w' hw

section Statements

variable (hDoes : Lawful Does)

include hDoes

/-- An action that leaves no jobs. -/
theorem last (ha : Prompt a) : Unfolds Does a (do a; return []) := by
  have hbind : Unfolds Does (do a; Pure.pure ()) (do a; return []) :=
    .bind ha fun _ => .pure hDoes.nil
  rwa [bind_pure_unit] at hbind

/-- A loop with a condition ends, or leaves its body and itself to be done. -/
theorem whileLoop {cond : Condition} {body : Stmt Nat} {env : EnvId} {budget : Nat}
    (ha : Does a [.run body env])
    (hloop : Does (whileLoop (reading env fun scope => cond.eval scope) a budget)
      [.run (.while cond body) env]) :
    Unfolds Does (Action.whileLoop (reading env fun scope => cond.eval scope) a (budget + 1))
      (Job.run (.while cond body) env).step := by
  refine .bind (.reading env _) fun go => ?_
  cases go with
  | false => exact .pure hDoes.nil
  | true => exact .pure (hDoes.append ha hloop)

/-- A counted loop sets its variable, and leaves its body and the other rounds to be done. -/
theorem forLoop {name : String} {body : Stmt Nat} {env : EnvId} {count : Nat} {first : Int64}
    (ha : Does a [.run body env])
    (hloop : Does (forLoop (fun i => do assign env name (.integer i); a) count (first + 1))
      [.rounds name body env count (first + 1)]) :
    Unfolds Does (Action.forLoop (fun i => do assign env name (.integer i); a) (count + 1) first)
      (Job.rounds name body env (count + 1) first).step := by
  rw [Action.forLoop, bind_assoc]
  exact .bind (.assign env name _) fun _ => .pure (hDoes.append ha hloop)

/-- **The steps of a statement are the parts of its run**, loops with a condition apart. -/
theorem single {exec : Stmt Nat → EnvId → Action RuntimeError Unit}
    (hexec : ∀ s env, Does (exec s env) [.run s env])
    (hrounds : ∀ name body env count first,
      Does (Action.forLoop (fun i => do assign env name (.integer i); exec body env) count first)
        [.rounds name body env count first])
    {s : Stmt Nat} (hs : ∀ cond body, s ≠ .while cond body) (budget : Nat) (env : EnvId) :
    Unfolds Does (single exec budget env s) (Job.run s env).step := by
  cases s with
  | assign name e => exact .bind (.reading env _) fun value => .last hDoes (.assign env name value)
  | seq first second => exact .pure (hDoes.append (hexec first env) (hexec second env))
  | print e => exact .bind (.reading env _) fun value => .last hDoes (.writeLine value.text)
  | input name => exact .bind (.readValue name) fun value => .last hDoes (.assign env name value)
  | ifThen cond t =>
    refine .bind (.reading env _) fun go => ?_
    cases go with
    | false => exact .pure hDoes.nil
    | true => exact .pure (hexec t env)
  | ifThenElse cond t e =>
    refine .bind (.reading env _) fun go => ?_
    cases go with
    | false => exact .pure (hexec e env)
    | true => exact .pure (hexec t env)
  | «while» cond body => exact absurd rfl (hs cond body)
  | «for» name start stop body =>
    exact .bind (.loopBound env _ start) fun first =>
      .bind (.loopBound env _ stop) fun last => .pure (hrounds name body env _ first)
  | func label name body => exact .last hDoes (.assign env name _)
  | call name =>
    refine .bind .get fun w => ?_
    rcases (w.store.scope env).get? name with _ | n | s | b | f
    · exact .fail _
    · exact .fail _
    · exact .fail _
    · exact .fail _
    · refine .bind .get fun w => ?_
      split
      next => exact .pure (hexec f.body f.home)
      next => exact .fail _

end Statements

end Unfolds

end Action

/-! ## From actions to steps -/

namespace Point

/-- From the point the run comes to the rest of its jobs, to its failure, or to some point at which
its budget is used up, as the result says. -/
def Leads (p : Point) (rest : List Job) : EStateM.Result (Stop RuntimeError) World Unit → Prop
  | .ok _ w => p.Reaches (running rest w)
  | .error (.failed e) w => p.Reaches (failed e w)
  | .error .exhausted w => ∃ jobs, p.Reaches (running jobs w)

/-- Steps that are taken before make no difference to where a run leads. -/
theorem Leads.of_reaches {p q : Point} {rest : List Job}
    {r : EStateM.Result (Stop RuntimeError) World Unit} (h : p.Reaches q) (hq : q.Leads rest r) :
    p.Leads rest r := by
  rcases r with ⟨_, w⟩ | ⟨_ | _, w⟩
  · exact h.trans hq
  · exact h.trans hq
  · obtain ⟨jobs, hq⟩ := hq
    exact ⟨jobs, h.trans hq⟩

end Point

namespace Action

/-- The jobs do what the action does, and then the run goes on with what comes after them. -/
def CarriedOutBy (a : Action RuntimeError Unit) (jobs : List Job) : Prop :=
  ∀ w rest, (Point.running (jobs ++ rest) w).Leads rest (a w)

namespace CarriedOutBy

variable {a b : Action RuntimeError Unit} {jobs more : List Job}

/-- Jobs in turn carry out actions in turn, and stop where the first of these stops. -/
theorem append (ha : CarriedOutBy a jobs) (hb : CarriedOutBy b more) :
    CarriedOutBy (do a; b) (jobs ++ more) := by
  intro w rest
  have hfirst := ha w (more ++ rest)
  rw [List.append_assoc]
  simp only [Bind.bind, EStateM.bind]
  generalize a w = r at hfirst ⊢
  rcases r with ⟨_, w'⟩ | ⟨_ | _, w'⟩
  · exact .of_reaches hfirst (hb w' rest)
  · exact hfirst
  · exact hfirst

theorem lawful : Lawful CarriedOutBy := ⟨fun _ _ => .refl, append⟩

/-- An action without budget is carried out by any jobs: it says nothing about them. -/
theorem exhaust : CarriedOutBy exhaust jobs := fun _ _ => ⟨_, .refl⟩

/-- A job does what unfolds to its first step. -/
theorem of_step {job : Job} (h : Unfolds CarriedOutBy a job.step) : CarriedOutBy a [job] := by
  intro w rest
  have hstep := h w
  rcases hw : job.step w with ⟨more, w'⟩ | ⟨e | _, w'⟩
  · rw [hw] at hstep
    obtain ⟨b, haw, hb⟩ := hstep
    rw [haw]
    exact .of_reaches (.single (.step hw)) (hb w' rest)
  · rw [hw] at hstep
    rw [hstep]
    exact .single (.fail hw)
  · rw [hw] at hstep
    exact hstep.elim

/-- A loop with a condition is carried out round by round, as far as its budget goes. -/
theorem whileLoop {cond : Condition} {body : Stmt Nat} {env : EnvId}
    (ha : CarriedOutBy a [.run body env]) (budget : Nat) :
    CarriedOutBy (whileLoop (reading env fun scope => cond.eval scope) a budget)
      [.run (.while cond body) env] := by
  induction budget with
  | zero => exact .exhaust
  | succ budget ih => exact .of_step (.whileLoop lawful ha ih)

/-- A counted loop is carried out round by round. -/
theorem forLoop {name : String} {body : Stmt Nat} {env : EnvId}
    (ha : CarriedOutBy a [.run body env]) (count : Nat) (first : Int64) :
    CarriedOutBy (forLoop (fun i => do assign env name (.integer i); a) count first)
      [.rounds name body env count first] := by
  induction count generalizing first with
  | zero => exact .of_step (.pure lawful.nil)
  | succ count ih => exact .of_step (.forLoop lawful ha (ih (first + 1)))

/-- **A run is carried out by steps.** -/
theorem exec (budget : Nat) (s : Stmt Nat) (env : EnvId) :
    CarriedOutBy (s.exec budget env) [.run s env] := by
  induction budget generalizing s env with
  | zero => exact .exhaust
  | succ budget ih =>
    have hsingle : ∀ {s : Stmt Nat}, (∀ cond body, s ≠ .while cond body) →
        CarriedOutBy (single (Stmt.exec budget) budget env s) [.run s env] := fun hs =>
      .of_step (.single lawful ih (fun _ body env => .forLoop (ih body env)) hs budget env)
    induction s with
    | seq first second ihFirst ihSecond =>
      rw [Stmt.exec_seq]
      exact .of_step (.pure (ihFirst.append ihSecond))
    | «while» cond body =>
      rw [Stmt.exec_succ (s := .while cond body) budget env nofun]
      exact .whileLoop (ih body env) budget
    | _ =>
      rw [Stmt.exec_succ]
      · exact hsingle nofun
      · exact nofun

end CarriedOutBy

end Action

/-! ## From steps to actions

What a run by steps comes to is also what a run with a budget comes to, if the budget grows by two
with each step. -/

namespace Job

open Cam.Action

/-- Does what a job asks for. -/
def perform (budget : Nat) : Job → Action RuntimeError Unit
  | .run s env => s.exec budget env
  | .rounds name body env count first =>
    forLoop (fun i => do assign env name (.integer i); body.exec budget env) count first

/-- Does what the jobs ask for, in turn. -/
def performAll (budget : Nat) : List Job → Action RuntimeError Unit
  | [] => pure ()
  | job :: jobs => do
    job.perform budget
    performAll budget jobs

/-- Jobs that follow others are done after them. -/
theorem performAll_append (budget : Nat) (jobs more : List Job) :
    performAll budget (jobs ++ more) = (do performAll budget jobs; performAll budget more) := by
  induction jobs with
  | nil => rw [List.nil_append, performAll, pure_bind]
  | cons job jobs ih => rw [List.cons_append, performAll, performAll, ih, bind_assoc]

theorem performAll_singleton (budget : Nat) (job : Job) :
    performAll budget [job] = job.perform budget := bind_pure_unit

theorem perform_upTo {m n : Nat} (h : m ≤ n) (job : Job) :
    UpTo (job.perform m) (job.perform n) := by
  cases job with
  | run s env => exact s.exec_upTo h env
  | rounds name body env count first =>
    exact .forLoop (fun i => .bind (.refl _) fun _ => body.exec_upTo h env) count first

/-- A larger budget does what a smaller one does, unless that one is used up. -/
theorem performAll_upTo {m n : Nat} (h : m ≤ n) (jobs : List Job) :
    UpTo (performAll m jobs) (performAll n jobs) := by
  induction jobs with
  | nil => exact .refl _
  | cons job jobs ih => exact (perform_upTo h job).andThen ih

/-- The jobs, within the budget, do what the action does. -/
def Within (budget : Nat) (a : Action RuntimeError Unit) (jobs : List Job) : Prop :=
  UpTo (performAll budget jobs) a

theorem Within.lawful (budget : Nat) : Lawful (Within budget) where
  nil := .refl _
  append {a b jobs more} ha hb := by
    rw [Within, performAll_append]
    exact ha.andThen hb

theorem Within.perform {m n : Nat} (h : m ≤ n) (job : Job) :
    Within m (job.perform n) [job] := by
  rw [Within, performAll_singleton]
  exact perform_upTo h job

/-- The rounds of a loop fit into a budget that is by one larger than the loop has on its own. -/
theorem Within.whileLoop {budget : Nat} (cond : Condition) (body : Stmt Nat) (env : EnvId) :
    Within budget (whileLoop (reading env fun scope => cond.eval scope)
      (body.exec (budget + 1) env) budget) [.run (.while cond body) env] := by
  rw [Within, performAll_singleton, Job.perform]
  cases budget with
  | zero => exact .exhaust _
  | succ budget =>
    have hbody := body.exec_upTo (Nat.le_add_right budget 2) env
    rw [Stmt.exec_succ (s := .while cond body) budget env nofun]
    exact .whileLoop _ hbody (Nat.le_succ budget)

/-- To do the first step and then the jobs that it leaves is to do the action, if the budget lasts.
-/
theorem upTo_of_unfolds {budget : Nat} {a : Action RuntimeError Unit}
    {m : Action RuntimeError (List Job)} (h : Unfolds (Within budget) a m) :
    UpTo (m >>= performAll budget) a := by
  intro w
  have hw := h w
  simp only [bind, EStateM.bind]
  generalize m w = r at hw ⊢
  rcases r with ⟨more, w'⟩ | ⟨e | _, w'⟩
  · obtain ⟨b, haw, hb⟩ := hw
    rw [haw]
    exact hb w'
  · exact .inr hw
  · exact hw.elim

/-- A step, and then what it leaves, is what the job asks for. -/
theorem step_upTo_perform (budget : Nat) (job : Job) :
    UpTo (job.step >>= performAll budget) (job.perform (budget + 2)) := by
  have hlawful := Within.lawful budget
  have hexec : ∀ {n}, budget ≤ n → ∀ s env, Within budget (Stmt.exec n s env) [.run s env] :=
    fun h s env => .perform h (.run s env)
  have hsucc := Nat.le_succ budget
  have htwo := Nat.le_add_right budget 2
  refine upTo_of_unfolds ?_
  cases job with
  | rounds name body env count first =>
    cases count with
    | zero => exact .pure hlawful.nil
    | succ count =>
      exact .forLoop hlawful (hexec htwo body env) (.perform htwo (.rounds name body env count _))
  | run s env =>
    have hsingle : (∀ cond body, s ≠ .while cond body) → Unfolds (Within budget)
        (single (Stmt.exec (budget + 1)) (budget + 1) env s) (run s env).step := fun hs =>
      .single hlawful (hexec hsucc)
        (fun name body env count first => .perform hsucc (.rounds name body env count first))
        hs (budget + 1) env
    cases s with
    | seq first second =>
      rw [perform, Stmt.exec_seq]
      exact .pure (hlawful.append (hexec htwo first env) (hexec htwo second env))
    | «while» cond body =>
      rw [perform, Stmt.exec_succ (s := .while cond body) (budget + 1) env nofun]
      exact .whileLoop hlawful (hexec hsucc body env) (.whileLoop cond body env)
    | _ =>
      rw [perform, Stmt.exec_succ]
      · exact hsingle nofun
      · exact nofun

end Job

namespace Point

open Cam.Action

/-- A run that has failed goes nowhere else. -/
theorem eq_ended_of_failed {e : RuntimeError} {w w' : World} {r : Except RuntimeError Unit}
    (h : (failed e w).Reaches (ended r w')) : r = .error e ∧ w' = w := by
  rcases h.cases_head with heq | ⟨_, hnext, _⟩
  · rcases r with _ | _ <;> cases heq
    exact ⟨rfl, rfl⟩
  · cases hnext

/-- **A run that ends by steps ends with a budget**, in the same way. -/
theorem performAll_of_reaches {p : Point} {r : Except RuntimeError Unit} {w' : World}
    (h : p.Reaches (ended r w')) {jobs : List Job} {w : World} (hp : p = running jobs w) :
    ∃ budget, Job.performAll budget jobs w = Action.ended r w' := by
  induction h using Relation.ReflTransGen.head_induction_on generalizing jobs w with
  | refl =>
    rcases r with e | _
    · cases hp
    · cases hp
      exact ⟨0, rfl⟩
  | head hnext hrest ih =>
    subst hp
    cases hnext with
    | @step job jobs more _ w₁ hstep =>
      obtain ⟨budget, hended⟩ := ih rfl
      have hupTo := (Job.step_upTo_perform budget job).andThen
        (Job.performAll_upTo (Nat.le_add_right budget 2) jobs)
      refine ⟨budget + 2, hupTo.ended ?_⟩
      rw [Job.performAll_append] at hended
      rw [bind_assoc]
      simpa only [bind, EStateM.bind, hstep] using hended
    | @fail job jobs e _ w₁ hstep =>
      obtain ⟨rfl, rfl⟩ := eq_ended_of_failed hrest
      have hupTo := (Job.step_upTo_perform 0 job).andThen
        (Job.performAll_upTo (Nat.zero_le 2) jobs)
      refine ⟨2, hupTo.ended ?_⟩
      simp only [bind, EStateM.bind, hstep]
      rfl

end Point

namespace Stmt

/-- **A run with a budget and a run by steps finish alike.** -/
theorem finishes_iff {s : Stmt Nat} {env : EnvId} {w w' : World} {r : Except RuntimeError Unit} :
    s.Finishes env w r w' ↔ (Point.running [.run s env] w).Reaches (.ended r w') := by
  constructor
  · rintro ⟨budget, h⟩
    have hleads := Action.CarriedOutBy.exec budget s env w []
    rw [h] at hleads
    cases r <;> exact hleads
  · intro h
    obtain ⟨budget, hended⟩ := Point.performAll_of_reaches h rfl
    rw [Job.performAll_singleton] at hended
    exact ⟨budget, hended⟩

end Stmt

end Cam
