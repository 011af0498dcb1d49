import Cam.Proofs.Run.Effect

/-!
# Proofs/Run/Visibility — a name that is not mentioned cannot be seen

What a statement can look at is not in the statement alone: it may call the functions that are bound
in its environment, and these may declare others.  But a name that occurs neither in the statement
nor in the body of such a function does not come up at any point of the run (`Point.Unaware`).  A
variable of that name therefore makes no difference to any step (`Hides.next`), and a statement with
it finishes like the statement without it (`Stmt.finishes_set_iff`).
-/

namespace Cam

/-! ## Names -/

/-- The names of the variables in an expression. -/
def Expr.names : Expr → List String
  | .int _ | .str _ => []
  | .var name => [name]
  | .binary _ left right => left.names ++ right.names

/-- The names of the variables in a condition. -/
def Condition.names : Condition → List String
  | .literal _ => []
  | .relation _ left right => left.names ++ right.names
  | .logic _ left right => left.names ++ right.names
  | .not inner => inner.names

/-- The names that occur in a statement: those of variables, those that are set and those that are
called. -/
def Stmt.names {ℓ : Type} : Stmt ℓ → List String
  | .assign name e => name :: e.names
  | .seq first second => first.names ++ second.names
  | .print e => e.names
  | .input name => [name]
  | .ifThen cond t => cond.names ++ t.names
  | .ifThenElse cond t e => cond.names ++ t.names ++ e.names
  | .while cond body => cond.names ++ body.names
  | .for name start stop body => name :: start.names ++ stop.names ++ body.names
  | .func _ name body => name :: body.names
  | .call name => [name]

section Evaluation

variable {z : String} (scope : Bindings) (v : Value)

/-- A variable that does not occur in an expression makes no difference to its value. -/
theorem Expr.eval_insert {e : Expr} (hz : z ∉ e.names) :
    e.eval (scope.insert z v) = e.eval scope := by
  induction e with
  | int | str => rfl
  | var name =>
    have hne : z ≠ name := fun h => hz (h ▸ List.mem_singleton_self z)
    rw [Expr.eval, Expr.eval, Dict.get?_insert, if_neg hne]
  | binary op left right ihLeft ihRight =>
    rw [names, List.mem_append, not_or] at hz
    rw [Expr.eval, Expr.eval, ihLeft hz.1, ihRight hz.2]

theorem Condition.eval_insert {c : Condition} (hz : z ∉ c.names) :
    c.eval (scope.insert z v) = c.eval scope := by
  induction c with
  | literal => rfl
  | relation op left right =>
    rw [names, List.mem_append, not_or] at hz
    rw [Condition.eval, Condition.eval, left.eval_insert scope v hz.1,
      right.eval_insert scope v hz.2]
  | logic op left right ihLeft ihRight =>
    rw [names, List.mem_append, not_or] at hz
    rw [Condition.eval, Condition.eval, ihLeft hz.1, ihRight hz.2]
  | not inner ih => rw [Condition.eval, Condition.eval, ih hz]

end Evaluation

/-! ## Points at which a name does not come up -/

variable {env : EnvId} {z : String}

/-- A function that runs in the environment and does not mention the name. -/
structure Function.Unaware (env : EnvId) (z : String) (f : Function) : Prop where
  home : f.home = env
  names : z ∉ f.body.names

/-- The environment is there, the name is not bound in it, and the functions that are bound in it
belong to it and do not mention the name. -/
structure Store.Unaware (env : EnvId) (z : String) (store : Store) : Prop where
  alive : store.isAlive env
  unbound : (store.scope env).get? z = none
  functions (name : String) (f : Function)
    (h : (store.scope env).get? name = some (.function f)) : f.Unaware env z

/-- A job in the environment that does not mention the name. -/
def Job.Unaware (env : EnvId) (z : String) : Job → Prop
  | .run s home => home = env ∧ z ∉ s.names
  | .rounds name body home _ _ => home = env ∧ z ≠ name ∧ z ∉ body.names

/-- An effect on the environment to which the name makes no difference. -/
def Effect.Unaware (env : EnvId) (z : String) : Effect → Prop
  | .leave more => ∀ job ∈ more, job.Unaware env z
  | .set home name value more =>
    home = env ∧ z ≠ name ∧ value.Known (Function.Unaware env z) ∧ ∀ job ∈ more, job.Unaware env z
  | .write _ => True
  | .read home name => home = env ∧ z ≠ name

/-- A point of a run at which the name does not come up any more. -/
def Point.Unaware (env : EnvId) (z : String) : Point → Prop
  | .running jobs w => w.store.Unaware env z ∧ ∀ job ∈ jobs, job.Unaware env z
  | .failed _ w => w.store.Unaware env z

theorem Store.Unaware.set {store : Store} (h : store.Unaware env z) {name : String} {value : Value}
    (hname : z ≠ name) (hvalue : value.Known (Function.Unaware env z)) :
    (store.set env name value).Unaware env z where
  alive := by
    rw [Store.isAlive_set]
    exact h.alive
  unbound := by
    rw [Store.scope_set_self h.alive, Dict.get?_insert, if_neg (Ne.symm hname)]
    exact h.unbound
  functions other f hget := by
    rw [Store.scope_set_self h.alive, Dict.get?_insert] at hget
    split at hget
    next =>
      cases hget
      exact hvalue
    next => exact h.functions other f hget

/-! ## Steps -/

section Steps

variable {store : Store} (hstore : store.Unaware env z)

include hstore

/-- **A job has the same effect with the variable as without it.** -/
theorem Job.Unaware.effect_set {job : Job} (hjob : job.Unaware env z) (v : Value) :
    job.effect (store.set env z v) = job.effect store := by
  have hscope : (store.set env z v).scope env = (store.scope env).insert z v :=
    Store.scope_set_self hstore.alive z v
  cases job with
  | rounds name body home count first => cases count <;> rfl
  | run s home =>
    obtain ⟨rfl, hz⟩ := hjob
    cases s with
    | assign name e =>
      have hz : z ∉ e.names := List.not_mem_of_not_mem_cons hz
      simp only [Job.effect, hscope, e.eval_insert _ v hz]
    | seq | input | func => rfl
    | print e => simp only [Job.effect, hscope, e.eval_insert _ v hz]
    | ifThen cond t =>
      rw [Stmt.names, List.mem_append, not_or] at hz
      simp only [Job.effect, hscope, cond.eval_insert _ v hz.1]
    | ifThenElse cond t e =>
      simp only [Stmt.names, List.mem_append, not_or] at hz
      simp only [Job.effect, hscope, cond.eval_insert _ v hz.1.1]
    | «while» cond body =>
      rw [Stmt.names, List.mem_append, not_or] at hz
      simp only [Job.effect, hscope, cond.eval_insert _ v hz.1]
    | «for» name start stop body =>
      simp only [Stmt.names, List.mem_append, List.mem_cons, not_or] at hz
      simp only [Job.effect, hscope, start.eval_insert _ v hz.1.1.2, stop.eval_insert _ v hz.1.2]
    | call name =>
      have hne : z ≠ name := List.ne_of_not_mem_cons hz
      simp only [Job.effect, hscope, Dict.get?_insert, if_neg hne, Store.isAlive_set]

/-- **What a job does not mention, its effect does not touch.** -/
theorem Job.Unaware.yields_effect {job : Job} (hjob : job.Unaware env z) :
    Yields (fun _ => True) (Effect.Unaware env z) (job.effect store) := by
  have hnone : ∀ job ∈ ([] : List Job), job.Unaware env z := List.forall_mem_nil _
  have hone {s : Stmt Nat} (hs : z ∉ s.names) : ∀ job ∈ [Job.run s env], job.Unaware env z :=
    List.forall_mem_singleton.2 ⟨rfl, hs⟩
  cases job with
  | rounds name body home count first =>
    cases count with
    | zero => exact hnone
    | succ count =>
      obtain ⟨rfl, hname, hbody⟩ := hjob
      have hrest : ∀ job ∈ [Job.rounds name body home count (first + 1)], job.Unaware home z :=
        List.forall_mem_singleton.2 ⟨rfl, hname, hbody⟩
      exact ⟨rfl, hname, trivial, List.forall_mem_cons.2 ⟨⟨rfl, hbody⟩, hrest⟩⟩
  | run s home =>
    obtain ⟨rfl, hz⟩ := hjob
    cases s with
    | assign name e =>
      have hname : z ≠ name := List.ne_of_not_mem_cons hz
      exact .bind (e.known_eval hstore.functions) fun value hvalue => ⟨rfl, hname, hvalue, hnone⟩
    | seq first second =>
      rw [Stmt.names, List.mem_append, not_or] at hz
      exact List.forall_mem_cons.2 ⟨⟨rfl, hz.1⟩, hone hz.2⟩
    | print e => exact .bind (.always _) fun _ _ => trivial
    | input name => exact ⟨rfl, List.ne_of_not_mem_cons hz⟩
    | ifThen cond t =>
      rw [Stmt.names, List.mem_append, not_or] at hz
      refine .bind (.always _) fun go _ => ?_
      cases go with
      | false => exact hnone
      | true => exact hone hz.2
    | ifThenElse cond t e =>
      simp only [Stmt.names, List.mem_append, not_or] at hz
      refine .bind (.always _) fun go _ => ?_
      cases go with
      | false => exact hone hz.2
      | true => exact hone hz.1.2
    | «while» cond body =>
      have hbody : z ∉ body.names := fun h => hz (List.mem_append_right _ h)
      refine .bind (.always _) fun go _ => ?_
      cases go with
      | false => exact hnone
      | true => exact List.forall_mem_cons.2 ⟨⟨rfl, hbody⟩, hone hz⟩
    | «for» name start stop body =>
      simp only [Stmt.names, List.mem_append, List.mem_cons, not_or] at hz
      refine .bind (.always _) fun _ _ => .bind (.always _) fun first _ => ?_
      refine .bind (.always _) fun _ _ => .bind (.always _) fun last _ => ?_
      exact List.forall_mem_singleton.2 ⟨rfl, hz.1.1.1, hz.2⟩
    | func label name body =>
      have hname : z ≠ name := List.ne_of_not_mem_cons hz
      have hbody : z ∉ body.names := List.not_mem_of_not_mem_cons hz
      exact ⟨rfl, hname, ⟨rfl, hbody⟩, hnone⟩
    | call name =>
      simp only [Job.effect]
      cases hget : (store.scope home).get? name with
      | none => trivial
      | some value =>
        cases value with
        | integer | string | boolean => trivial
        | function f =>
          obtain ⟨rfl, hbody⟩ := hstore.functions name f hget
          simp only [hstore.alive]
          exact hone hbody

end Steps

namespace Point

variable {p q : Point} {jobs : List Job} {w : World} {r : Except RuntimeError Effect}

theorem Unaware.after (hw : w.store.Unaware env z) (hjobs : ∀ job ∈ jobs, job.Unaware env z)
    (hr : Yields (fun _ => True) (Effect.Unaware env z) r) : (after jobs w r).Unaware env z := by
  have happend {more : List Job} (hmore : ∀ job ∈ more, job.Unaware env z) :
      ∀ job ∈ more ++ jobs, job.Unaware env z :=
    fun job hjob => (List.mem_append.1 hjob).elim (hmore job) (hjobs job)
  rcases r with e | more | ⟨home, name, value, more⟩ | text | ⟨home, name⟩
  · exact hw
  · exact ⟨hw, happend hr⟩
  · obtain ⟨rfl, hname, hvalue, hmore⟩ := hr
    exact ⟨hw.set hname hvalue, happend hmore⟩
  · simp only [Point.after, Effect.next]
    rcases w.output.write (text ++ "\n").toUTF8 with ⟨_ | fault, output⟩
    · exact ⟨hw, hjobs⟩
    · exact hw
  · obtain ⟨rfl, hname⟩ := hr
    simp only [Point.after, Effect.next]
    rcases w.input.readLine with ⟨fault | _ | line, input⟩
    · exact hw
    · exact hw
    · exact ⟨hw.set hname (Value.known_ofLine _ line), hjobs⟩

/-- An effect that does not touch the variable is the same with it as without it. -/
theorem after_set (hr : Yields (fun _ => True) (Effect.Unaware env z) r) (v : Value) :
    after jobs (w.set env z v) r = (after jobs w r).map (·.set env z v) := by
  rcases r with e | more | ⟨home, name, value, more⟩ | text | ⟨home, name⟩
  · rfl
  · rfl
  · obtain ⟨rfl, hname, -, -⟩ := hr
    simp only [Point.after, Effect.next, Point.map, World.set, w.store.set_comm home hname]
  · simp only [Point.after, Effect.next, World.set]
    rcases w.output.write (text ++ "\n").toUTF8 with ⟨_ | fault, output⟩ <;> rfl
  · obtain ⟨rfl, hname⟩ := hr
    simp only [Point.after, Effect.next, World.set]
    rcases w.input.readLine with ⟨fault | _ | line, input⟩
    · rfl
    · rfl
    · simp only [Point.map, w.store.set_comm home hname]

/-- A point that is the end of a run in another world is the end of a run. -/
theorem ended_of_map {f : World → World} {r : Except RuntimeError Unit} {w' : World}
    (h : ended r w' = p.map f) : ∃ w, p = ended r w ∧ w' = f w := by
  rcases p with ⟨jobs, w⟩ | ⟨e, w⟩
  · cases r with
    | ok =>
      cases h
      exact ⟨w, rfl, rfl⟩
    | error => cases h
  · cases r with
    | ok => cases h
    | error =>
      cases h
      exact ⟨w, rfl, rfl⟩

theorem Unaware.ended {r : Except RuntimeError Unit} (h : (ended r w).Unaware env z) :
    w.store.Unaware env z := by
  cases r with
  | ok => exact h.1
  | error => exact h

end Point

/-! ## Two runs -/

/-- The second point is the first with the variable, of which the first is not aware. -/
def Hides (env : EnvId) (z : String) (v : Value) (p q : Point) : Prop :=
  p.Unaware env z ∧ q = p.map (·.set env z v)

namespace Hides

variable {v : Value} {p q p' q' : Point}

theorem after {job : Job} {jobs : List Job} {w : World}
    (h : (Point.running (job :: jobs) w).Unaware env z) :
    Hides env z v (.after jobs w (job.effect w.store))
      (.after jobs (w.set env z v) (job.effect (w.set env z v).store)) := by
  obtain ⟨hw, hjobs⟩ := h
  obtain ⟨hjob, hjobs⟩ := List.forall_mem_cons.1 hjobs
  have hr := hjob.yields_effect hw
  refine ⟨.after hw hjobs hr, ?_⟩
  rw [World.set, hjob.effect_set hw]
  exact Point.after_set hr v

/-- **A step without the variable is a step with it.** -/
theorem next (h : Hides env z v p q) (hnext : p.Next p') :
    ∃ q', q.Reaches q' ∧ Hides env z v p' q' := by
  obtain ⟨hp, rfl⟩ := h
  rcases p with ⟨_ | ⟨job, jobs⟩, w⟩ | ⟨e, w⟩
  · cases hnext
  · obtain rfl := Point.next_iff.1 hnext
    exact ⟨_, .single (Point.next_iff.2 rfl), .after hp⟩
  · cases hnext

/-- **A step with the variable is a step without it.** -/
theorem next_of_hidden (h : Hides env z v p q) (hnext : q.Next q') :
    ∃ p', p.Reaches p' ∧ Hides env z v p' q' := by
  obtain ⟨hp, rfl⟩ := h
  rcases p with ⟨_ | ⟨job, jobs⟩, w⟩ | ⟨e, w⟩
  · cases hnext
  · obtain rfl := Point.next_iff.1 hnext
    exact ⟨_, .single (Point.next_iff.2 rfl), .after hp⟩
  · cases hnext

end Hides

namespace Stmt

/-- **A variable that is not mentioned is not seen.**  If neither the statement nor any function of
its environment mentions the name, and these functions belong to that environment, then the
statement finishes with a variable of that name, whatever its value, if and only if it finishes
without it: with the same result or error and the same streams, and in the same environments but for
the variable, which is still there and would not be there otherwise. -/
theorem finishes_set_iff {s : Stmt Nat} {env : EnvId} {z : String} {w : World}
    (hw : w.store.Unaware env z) (hz : z ∉ s.names) (v : Value) (r : Except RuntimeError Unit)
    (w₂ : World) :
    s.Finishes env (w.set env z v) r w₂ ↔
      ∃ w', s.Finishes env w r w' ∧ (w'.store.scope env).get? z = none ∧ w₂ = w'.set env z v := by
  have hstart : Hides env z v (.running [.run s env] w) (.running [.run s env] (w.set env z v)) :=
    ⟨⟨hw, List.forall_mem_singleton.2 ⟨rfl, hz⟩⟩, rfl⟩
  simp only [finishes_iff]
  constructor
  · intro h
    obtain ⟨p, hreaches, hp, hmap⟩ :=
      h.simulated (R := flip (Hides env z v)) Hides.next_of_hidden hstart
    obtain ⟨w', rfl, rfl⟩ := Point.ended_of_map hmap
    exact ⟨w', hreaches, hp.ended.unbound, rfl⟩
  · rintro ⟨w', h, -, rfl⟩
    obtain ⟨q, hreaches, -, rfl⟩ := h.simulated Hides.next hstart
    rwa [Point.map_ended] at hreaches

/-- A function is called that sets the variable to be printed. -/
def callAndPrint : Stmt Nat := .seq (.call "f") (.print (.var "x"))

/-- The world with one environment, in which the function is bound. -/
def callAndPrintWorld : World :=
  World.set ⟨Store.empty.create, .ofBytes [], .unlimited⟩ ⟨0⟩ "f"
    (.function ⟨"f", 0, .assign "x" (.int 1), ⟨0⟩⟩)

/-- The statement does the same if there is another variable, here a function that mentions itself
and belongs to an environment that is not there. -/
theorem callAndPrint_finishes : ∃ w',
    callAndPrint.Finishes ⟨0⟩ callAndPrintWorld (.ok ()) w' ∧
    w'.output.written.data = #[49, 10] ∧
    callAndPrint.Finishes ⟨0⟩
      (callAndPrintWorld.set ⟨0⟩ "z" (.function ⟨"z", 1, .call "z", ⟨5⟩⟩)) (.ok ())
      (w'.set ⟨0⟩ "z" (.function ⟨"z", 1, .call "z", ⟨5⟩⟩)) := by
  let w' : World := (callAndPrint.exec 3 ⟨0⟩).leaves callAndPrintWorld
  have hempty : Store.empty.create.Unaware ⟨0⟩ "z" := ⟨rfl, rfl, nofun⟩
  have hw : callAndPrintWorld.store.Unaware ⟨0⟩ "z" := hempty.set (by decide) ⟨rfl, by decide⟩
  have hfinishes : callAndPrint.Finishes ⟨0⟩ callAndPrintWorld (.ok ()) w' :=
    ⟨3, by with_unfolding_all rfl⟩
  have hunbound : (w'.store.scope ⟨0⟩).get? "z" = none := by decide +kernel
  exact ⟨w', hfinishes, by decide +kernel,
    (finishes_set_iff hw (by decide) _ _ _).2 ⟨w', hfinishes, hunbound, rfl⟩⟩

end Stmt

end Cam
