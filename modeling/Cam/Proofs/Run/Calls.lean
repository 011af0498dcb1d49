import Cam.Proofs.Run.Effect
import Cam.Proofs.Run.Environment

/-!
# Proofs/Run/Calls — where functions come from, and what becomes of their calls

A run neither creates nor drops an environment (`Point.isAlive_of_reaches`), and the only functions
it makes are those it declares, each at home in the environment it is declared in
(`Point.binds_of_reaches`).  So whether a call finds the home of its function is settled before the
run starts: a call goes on with the body in that home, or it fails (`Point.next_call_iff`), and
nothing else fails for want of an environment (`Point.reaches_dropped_iff`).
-/

namespace Cam

/-! ## Errors -/

/-- An error other than a lost environment. -/
def RuntimeError.NotDropped (e : RuntimeError) : Prop := ∀ name, e ≠ .environmentDropped name

theorem ArithOp.notDropped_apply (op : ArithOp) (left right : Value) :
    Yields RuntimeError.NotDropped (fun _ => True) (op.apply left right) := by
  unfold ArithOp.apply
  split
  next a b =>
    have h := op.yields_onIntegers a b
    generalize op.onIntegers a b = result at h ⊢
    cases result with
    | ok n => trivial
    | error e => exact h.dropped
  next => trivial
  next => exact nofun

theorem RelOp.notDropped_apply (op : RelOp) (left right : Value) :
    Yields RuntimeError.NotDropped (fun _ => True) (op.apply left right) := by
  unfold RelOp.apply
  split
  next => trivial
  next => trivial
  next =>
    split
    next => trivial
    next => exact nofun

theorem Expr.notDropped_eval (scope : Bindings) (e : Expr) :
    Yields RuntimeError.NotDropped (fun _ => True) (e.eval scope) := by
  induction e with
  | int | str => trivial
  | var name =>
    unfold Expr.eval
    split
    next => trivial
    next => exact nofun
  | binary op left right ihLeft ihRight =>
    exact ihLeft.bind fun a _ => ihRight.bind fun b _ => op.notDropped_apply a b

theorem Condition.notDropped_eval (scope : Bindings) (c : Condition) :
    Yields RuntimeError.NotDropped (fun _ => True) (c.eval scope) := by
  induction c with
  | literal => trivial
  | relation op left right =>
    exact (left.notDropped_eval scope).bind fun a _ =>
      (right.notDropped_eval scope).bind fun b _ => op.notDropped_apply a b
  | logic op left right ihLeft ihRight =>
    exact ihLeft.bind fun _ _ => ihRight.bind fun _ _ => trivial
  | not inner ih => exact ih.bind fun _ _ => trivial

theorem Value.notDropped_asBound (bound : LoopBound) (value : Value) :
    Yields RuntimeError.NotDropped (fun _ => True) (value.asBound bound) := by
  cases value with
  | integer => trivial
  | string | boolean | function => exact nofun

/-- **Only a call fails for want of an environment**, and only if that of its function is gone. -/
theorem Job.call_of_dropped {job : Job} {store : Store} {name : String}
    (h : job.effect store = .error (.environmentDropped name)) :
    ∃ called env f, job = .run (.call called) env ∧
      (store.scope env).get? called = some (.function f) ∧ f.name = name ∧
      store.isAlive f.home = false := by
  have hother (hyields : Yields RuntimeError.NotDropped (fun _ => True) (job.effect store)) :
      False := by
    rw [h] at hyields
    exact hyields name rfl
  cases job with
  | rounds name body env count first => cases count <;> cases h
  | run s env =>
    cases s with
    | seq | input | func => cases h
    | assign _ e | print e => exact (hother ((e.notDropped_eval _).bind fun _ _ => trivial)).elim
    | ifThen cond | ifThenElse cond | «while» cond =>
      exact (hother ((cond.notDropped_eval _).bind fun _ _ => trivial)).elim
    | «for» _ start stop =>
      refine (hother ?_).elim
      refine (start.notDropped_eval _).bind fun a _ => (a.notDropped_asBound _).bind fun _ _ => ?_
      exact (stop.notDropped_eval _).bind fun b _ =>
        (b.notDropped_asBound _).bind fun _ _ => trivial
    | call called =>
      simp only [Job.effect] at h
      split at h
      next f hget =>
        split at h
        next => cases h
        next hdead =>
          cases h
          exact ⟨called, env, f, rfl, hget, rfl, by simpa using hdead⟩
      next => cases h
      next => cases h

/-! ## Functions -/

/-- The function is bound in some environment. -/
def Store.Binds (store : Store) (f : Function) : Prop :=
  ∃ env name, (store.scope env).get? name = some (.function f)

theorem Store.Binds.of_set {store : Store} {env : EnvId} {name : String} {value : Value}
    {f : Function} (h : (store.set env name value).Binds f) :
    store.Binds f ∨ value = .function f := by
  obtain ⟨other, name', hget⟩ := h
  by_cases heq : other = env
  · subst heq
    simp only [Store.scope, Store.get?_set, if_true] at hget
    cases hold : store.get? other with
    | none =>
      rw [hold] at hget
      cases hget
    | some bindings =>
      rw [hold, Option.map_some, Option.getD_some, Dict.get?_insert] at hget
      split at hget
      next =>
        cases hget
        exact .inr rfl
      next => exact .inl ⟨other, name', by rwa [Store.scope, hold]⟩
  · rw [Store.scope_set_of_ne store heq] at hget
    exact .inl ⟨other, name', hget⟩

namespace Point

/-- The function is about to be declared, in the environment that will be its home. -/
def Declares (p : Point) (f : Function) : Prop :=
  ∃ jobs w, p = running (.run (.func f.label f.name f.body) f.home :: jobs) w

/-- The function is about to be called. -/
def Calls (p : Point) (f : Function) : Prop :=
  ∃ name env jobs w, p = running (.run (.call name) env :: jobs) w ∧
    (w.store.scope env).get? name = some (.function f)

end Point

/-- **A step sets a function only if it declares it or has found it bound.** -/
theorem Job.known_effect (job : Job) (store : Store) :
    Yields (fun _ => True)
      (fun effect => ∀ env name f more, effect = .set env name (.function f) more →
        store.Binds f ∨ job = .run (.func f.label f.name f.body) f.home)
      (job.effect store) := by
  cases job with
  | rounds name body env count first =>
    cases count with
    | zero => exact nofun
    | succ count => exact nofun
  | run s env =>
    cases s with
    | assign name e =>
      have hknown : Yields (fun _ => True) (Value.Known store.Binds) (e.eval (store.scope env)) :=
        e.known_eval fun name f hget => ⟨env, name, hget⟩
      refine hknown.bind fun value hvalue => ?_
      rintro env name f more ⟨⟩
      exact .inl hvalue
    | seq | input => exact nofun
    | func label name body =>
      rintro env name f more ⟨⟩
      exact .inr rfl
    | print e => exact .bind (.always _) fun _ _ => nofun
    | ifThen cond | ifThenElse cond | «while» cond => exact .bind (.always _) fun _ _ => nofun
    | «for» _ start stop =>
      refine .bind (.always _) fun _ _ => .bind (.always _) fun _ _ => ?_
      exact .bind (.always _) fun _ _ => .bind (.always _) fun _ _ => nofun
    | call name =>
      simp only [Job.effect]
      split
      next =>
        split
        next =>
          intro env name f more heq
          cases heq
        next => trivial
      next => trivial
      next => trivial

namespace Point

variable {p q : Point} {f : Function}

/-! ## What a run keeps -/

/-- A step neither creates nor drops an environment. -/
theorem Next.isAlive (h : p.Next q) (env : EnvId) :
    q.world.store.isAlive env = p.world.store.isAlive env := by
  rcases p with ⟨_ | ⟨job, jobs⟩, w⟩ | ⟨e, w⟩
  · cases h
  · obtain rfl := next_iff.1 h
    rcases store_after jobs w (job.effect w.store) with hsame | ⟨home, name, value, hset, -⟩
    · rw [hsame]
      rfl
    · rw [hset, Store.isAlive_set]
      rfl
  · cases h

/-- **A run neither creates nor drops an environment.** -/
theorem isAlive_of_reaches (h : p.Reaches q) (env : EnvId) :
    q.world.store.isAlive env = p.world.store.isAlive env := by
  induction h with
  | refl => rfl
  | tail _ hnext ih => exact (hnext.isAlive env).trans ih

theorem Next.binds (h : p.Next q) (hf : q.world.store.Binds f) :
    p.world.store.Binds f ∨ p.Declares f := by
  rcases p with ⟨_ | ⟨job, jobs⟩, w⟩ | ⟨e, w⟩
  · cases h
  · obtain rfl := next_iff.1 h
    rcases store_after jobs w (job.effect w.store) with hsame | ⟨env, name, value, hset, hvalue⟩
    · rw [hsame] at hf
      exact .inl hf
    · rw [hset] at hf
      rcases hf.of_set with hf | rfl
      · exact .inl hf
      · rcases hvalue with ⟨more, heffect⟩ | ⟨line, hline⟩
        · have hknown := job.known_effect w.store
          rw [heffect] at hknown
          refine (hknown env name f more rfl).imp id ?_
          rintro rfl
          exact ⟨jobs, w, rfl⟩
        · have hknown := Value.known_ofLine (fun _ => False) line
          rw [← hline] at hknown
          exact hknown.elim
  · cases h

/-- **The functions bound at the end of a run were bound at its start or are declared in it.** -/
theorem binds_of_reaches (h : p.Reaches q) (hf : q.world.store.Binds f) :
    p.world.store.Binds f ∨ ∃ q', p.Reaches q' ∧ q'.Declares f := by
  induction h with
  | refl => exact .inl hf
  | @tail q' q hreaches hnext ih =>
    rcases hnext.binds hf with hf | hdeclares
    · exact ih hf
    · exact .inr ⟨q', hreaches, hdeclares⟩

/-! ## Calls -/

/-- **A call runs the body of the function in its home**, if that is still there, wherever the
function was found. -/
theorem next_call_iff {called : String} {env : EnvId} {jobs : List Job} {w : World}
    (hf : (w.store.scope env).get? called = some (.function f)) :
    Next (running (.run (.call called) env :: jobs) w) q ↔
      q = if w.store.isAlive f.home then running (.run f.body f.home :: jobs) w
        else failed (.environmentDropped f.name) w := by
  rw [next_iff]
  simp only [Job.effect, hf]
  split <;> rfl

/-- A stream that fails is another error. -/
theorem dropped_of_after {jobs : List Job} {w w' : World} {r : Except RuntimeError Effect}
    {name : String} (h : failed (.environmentDropped name) w' = after jobs w r) :
    r = .error (.environmentDropped name) := by
  rcases r with e | more | ⟨env, name, value, more⟩ | text | ⟨env, name⟩
  · cases h
    rfl
  · cases h
  · cases h
  · simp only [after, Effect.next] at h
    split at h <;> cases h
  · simp only [after, Effect.next] at h
    split at h <;> cases h

/-- **A run fails for want of an environment where it calls a function whose home is gone**, and
nowhere else. -/
theorem reaches_dropped_iff {jobs : List Job} {w : World} {name : String} :
    (∃ w', (running jobs w).Reaches (failed (.environmentDropped name) w')) ↔
      ∃ q f, (running jobs w).Reaches q ∧ q.Calls f ∧ f.name = name ∧
        w.store.isAlive f.home = false := by
  constructor
  · rintro ⟨w', h⟩
    obtain ⟨q, hreaches, hnext⟩ := h.cases_tail.resolve_left nofun
    rcases q with ⟨_ | ⟨job, jobs'⟩, w₁⟩ | ⟨e, w₁⟩
    · cases hnext
    · obtain ⟨called, env, f, rfl, hf, hname, hdead⟩ :=
        Job.call_of_dropped (dropped_of_after (next_iff.1 hnext))
      have halive : w₁.store.isAlive f.home = w.store.isAlive f.home :=
        isAlive_of_reaches hreaches f.home
      exact ⟨_, f, hreaches, ⟨called, env, jobs', w₁, rfl, hf⟩, hname, halive.symm.trans hdead⟩
    · cases hnext
  · rintro ⟨q, f, hreaches, ⟨called, env, jobs', w', rfl, hf⟩, rfl, hdead⟩
    refine ⟨w', hreaches.tail ((next_call_iff hf).2 ?_)⟩
    have halive : w'.store.isAlive f.home = w.store.isAlive f.home :=
      isAlive_of_reaches hreaches f.home
    rw [halive, hdead]
    rfl

end Point

end Cam
