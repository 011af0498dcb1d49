import Cam.Proofs.Run.Effect
import Cam.Proofs.Run.Environment

/-!
# Proofs/Run/Regime — what may run in an environment, and what it may leave there

A call runs what is stored, so what a statement can do is not bounded by its text.  It is bounded by
a *regime*: statements of some kind that set variables of some names to values of some kind, where
the functions among these values belong to the environment and have bodies of that kind again.  A
run that starts under a regime stays under it, and all it does to the environments is to set such
variables (`Regime.Governs.next`, `Regime.Governs.of_reaches`).
-/

namespace Cam

/-! ## Changes to one environment -/

namespace Store

/-- What setting a variable does to all variables of its environment, if that is still there. -/
theorem get?_scope_set (s : Store) (env : EnvId) (name : String) (value : Value) (other : String) :
    ((s.set env name value).scope env).get? other =
      if s.isAlive env ∧ name = other then some value else (s.scope env).get? other := by
  rw [scope, scope, isAlive, get?_set, if_pos rfl]
  cases s.get? env with
  | none => rfl
  | some bindings =>
    rw [Option.map_some, Option.getD_some, Option.getD_some, Dict.get?_insert]
    simp only [Option.isSome_some, true_and]

/-- The second store is the first one but for variables of the environment that have such names, and
no variable has gone. -/
structure Framed (env : EnvId) (target : String → Prop) (before after : Store) : Prop where
  others (other : EnvId) (h : other ≠ env) : after.get? other = before.get? other
  alive : after.isAlive env = before.isAlive env
  kept (name : String) (h : ¬ target name) :
    (after.scope env).get? name = (before.scope env).get? name
  bound (name : String) (h : ((before.scope env).get? name).isSome) :
    ((after.scope env).get? name).isSome

namespace Framed

variable {env : EnvId} {target : String → Prop} {store store₁ store₂ : Store}

theorem refl : Framed env target store store :=
  ⟨fun _ _ => rfl, rfl, fun _ _ => rfl, fun _ h => h⟩

theorem trans (h : Framed env target store store₁) (h' : Framed env target store₁ store₂) :
    Framed env target store store₂ where
  others other hother := (h'.others other hother).trans (h.others other hother)
  alive := h'.alive.trans h.alive
  kept name hname := (h'.kept name hname).trans (h.kept name hname)
  bound name hname := h'.bound name (h.bound name hname)

theorem mono {target' : String → Prop} (h : Framed env target store store₁)
    (hsub : ∀ name, target name → target' name) : Framed env target' store store₁ where
  others := h.others
  alive := h.alive
  kept name hname := h.kept name fun htarget => hname (hsub name htarget)
  bound := h.bound

theorem set {name : String} (hname : target name) (value : Value) :
    Framed env target store (store.set env name value) where
  others other hother := by rw [get?_set, if_neg hother]
  alive := isAlive_set ..
  kept other hother := by
    have hne : name ≠ other := fun h => hother (h ▸ hname)
    rw [get?_scope_set, if_neg fun h => hne h.2]
  bound other hother := by
    rw [get?_scope_set]
    split
    next => rfl
    next => exact hother

end Framed

end Store

/-- The jobs that are left at a point. -/
def Point.jobs : Point → List Job
  | running jobs _ => jobs
  | failed _ _ => []

/-! ## Regimes -/

/-- What may run in an environment, which of its variables may be set, and what they may hold.  A
statement may run if all statements that occur in it are allowed. -/
structure Regime (env : EnvId) where
  allows : Stmt Nat → Prop
  target : String → Prop
  value : Value → Prop
  /-- A statement that is allowed sets variables that may be set... -/
  sets {s : Stmt Nat} (hs : allows s) {name : String} (h : s.target? = some name) : target name
  /-- ...to the value of an expression, -/
  eval {name : String} {e : Expr} (hs : allows (.assign name e)) {scope : Bindings}
    (hscope : ∀ name v, scope.get? name = some v → value v) :
    Yields (fun _ => True) value (e.eval scope)
  /-- to the integers of a counted loop, -/
  integer (n : Int64) : value (.integer n)
  /-- to what it reads, -/
  line {input rest : Input} {line : String} (h : input.readLine = (.ok (some line), rest)) :
    value (.ofLine line)
  /-- or to the function it declares. -/
  declared {label : Nat} {name : String} {body : Stmt Nat}
    (h : ∀ t ∈ (Stmt.func label name body).parts, allows t) :
    value (.function ⟨name, label, body, env⟩)
  /-- Functions belong to the environment, and their bodies may run. -/
  function {f : Function} (h : value (.function f)) : f.home = env ∧ ∀ t ∈ f.body.parts, allows t

namespace Regime

variable {env : EnvId} (R : Regime env)

/-- A job that may be done. -/
def job : Job → Prop
  | .run s home => home = env ∧ ∀ t ∈ s.parts, R.allows t
  | .rounds name body home _ _ => home = env ∧ R.target name ∧ ∀ t ∈ body.parts, R.allows t

/-- An effect that a job may have. -/
def effect : Effect → Prop
  | .leave more => ∀ job ∈ more, R.job job
  | .set home name value more =>
    home = env ∧ R.target name ∧ R.value value ∧ ∀ job ∈ more, R.job job
  | .write _ => True
  | .read home name => home = env ∧ R.target name

/-- A point at which the variables of the environment hold what they may, and only what may be done
is left to do. -/
structure Governs (p : Point) : Prop where
  value (name : String) (v : Value) (h : (p.world.store.scope env).get? name = some v) : R.value v
  jobs : ∀ job ∈ p.jobs, R.job job

variable {R}

/-- **What may be done has the effects it may have.** -/
theorem yields_effect {store : Store}
    (hscope : ∀ name v, (store.scope env).get? name = some v → R.value v) {job : Job}
    (hjob : R.job job) : Yields (fun _ => True) R.effect (job.effect store) := by
  have hnone : ∀ job ∈ ([] : List Job), R.job job := List.forall_mem_nil _
  cases job with
  | rounds name body home count first =>
    cases count with
    | zero => exact hnone
    | succ count =>
      obtain ⟨rfl, hname, hbody⟩ := hjob
      have hrest : ∀ job ∈ [Job.rounds name body home count (first + 1)], R.job job :=
        List.forall_mem_singleton.2 ⟨rfl, hname, hbody⟩
      exact ⟨rfl, hname, R.integer first, List.forall_mem_cons.2 ⟨⟨rfl, hbody⟩, hrest⟩⟩
  | run s home =>
    obtain ⟨rfl, hs⟩ := hjob
    have hself : R.allows s := hs s s.mem_parts_self
    have hpart {t : Stmt Nat} (ht : t ∈ s.parts) : R.job (.run t home) :=
      ⟨rfl, fun u hu => hs u (Stmt.mem_parts_trans hu ht)⟩
    have hone {t : Stmt Nat} (ht : t ∈ s.parts) : ∀ job ∈ [Job.run t home], R.job job :=
      List.forall_mem_singleton.2 (hpart ht)
    cases s with
    | assign name e =>
      exact .bind (R.eval hself hscope) fun value hvalue => ⟨rfl, R.sets hself rfl, hvalue, hnone⟩
    | seq first second =>
      exact List.forall_mem_cons.2
        ⟨hpart (by simp [Stmt.parts]), hone (by simp [Stmt.parts])⟩
    | print e => exact .bind (.always _) fun _ _ => trivial
    | input name => exact ⟨rfl, R.sets hself rfl⟩
    | ifThen cond t =>
      refine .bind (.always _) fun go _ => ?_
      cases go with
      | false => exact hnone
      | true => exact hone (by simp [Stmt.parts])
    | ifThenElse cond t e =>
      refine .bind (.always _) fun go _ => ?_
      cases go with
      | false => exact hone (by simp [Stmt.parts])
      | true => exact hone (by simp [Stmt.parts])
    | «while» cond body =>
      refine .bind (.always _) fun go _ => ?_
      cases go with
      | false => exact hnone
      | true =>
        exact List.forall_mem_cons.2
          ⟨hpart (by simp [Stmt.parts]), hone (by simp [Stmt.parts])⟩
    | «for» name start stop body =>
      have hbody : R.job (.run body home) := hpart (by simp [Stmt.parts])
      refine .bind (.always _) fun _ _ => .bind (.always _) fun first _ => ?_
      refine .bind (.always _) fun _ _ => .bind (.always _) fun last _ => ?_
      exact List.forall_mem_singleton.2 ⟨rfl, R.sets hself rfl, hbody.2⟩
    | func label name body => exact ⟨rfl, R.sets hself rfl, R.declared hs, hnone⟩
    | call name =>
      simp only [Job.effect]
      split
      next f hget =>
        obtain ⟨rfl, hbody⟩ := R.function (hscope name _ hget)
        split
        next => exact List.forall_mem_singleton.2 ⟨rfl, hbody⟩
        next => trivial
      next => trivial
      next => trivial

namespace Governs

variable {p q : Point}

/-- Where an effect that a job may have leads. -/
theorem after {jobs : List Job} {w : World}
    (hw : ∀ name v, (w.store.scope env).get? name = some v → R.value v)
    (hjobs : ∀ job ∈ jobs, R.job job) {r : Except RuntimeError Effect}
    (hr : Yields (fun _ => True) R.effect r) :
    R.Governs (.after jobs w r) ∧
      w.store.Framed env R.target (Point.after jobs w r).world.store := by
  have happend {more : List Job} (hmore : ∀ job ∈ more, R.job job) :
      ∀ job ∈ more ++ jobs, R.job job := List.forall_mem_append.2 ⟨hmore, hjobs⟩
  have hset {name : String} {value : Value} (hvalue : R.value value) (other : String) (v : Value)
      (hget : ((w.store.set env name value).scope env).get? other = some v) : R.value v := by
    rw [Store.get?_scope_set] at hget
    split at hget
    next =>
      cases hget
      exact hvalue
    next => exact hw other v hget
  rcases r with e | more | ⟨home, name, value, more⟩ | text | ⟨home, name⟩
  · exact ⟨⟨hw, List.forall_mem_nil _⟩, .refl⟩
  · exact ⟨⟨hw, happend hr⟩, .refl⟩
  · obtain ⟨rfl, hname, hvalue, hmore⟩ := hr
    exact ⟨⟨hset hvalue, happend hmore⟩, .set hname value⟩
  · simp only [Point.after, Effect.next]
    rcases w.output.write (text ++ "\n").toUTF8 with ⟨_ | fault, output⟩
    · exact ⟨⟨hw, hjobs⟩, .refl⟩
    · exact ⟨⟨hw, List.forall_mem_nil _⟩, .refl⟩
  · obtain ⟨rfl, hname⟩ := hr
    simp only [Point.after, Effect.next]
    rcases hread : w.input.readLine with ⟨fault | _ | line, input⟩
    · exact ⟨⟨hw, List.forall_mem_nil _⟩, .refl⟩
    · exact ⟨⟨hw, List.forall_mem_nil _⟩, .refl⟩
    · exact ⟨⟨hset (R.line hread), hjobs⟩, .set hname _⟩

/-- **A step stays under the regime**, and sets at most a variable that may be set. -/
theorem next (h : R.Governs p) (hnext : p.Next q) :
    R.Governs q ∧ p.world.store.Framed env R.target q.world.store := by
  rcases p with ⟨_ | ⟨job, jobs⟩, w⟩ | ⟨e, w⟩
  · cases hnext
  · obtain rfl := Point.next_iff.1 hnext
    obtain ⟨hjob, hjobs⟩ := List.forall_mem_cons.1 h.jobs
    exact after h.value hjobs (yields_effect h.value hjob)
  · cases hnext

/-- **A run stays under the regime**, and sets only variables that may be set. -/
theorem of_reaches (h : R.Governs p) (hreaches : p.Reaches q) :
    R.Governs q ∧ p.world.store.Framed env R.target q.world.store := by
  induction hreaches with
  | refl => exact ⟨h, .refl⟩
  | tail _ hnext ih =>
    obtain ⟨hgoverns, hframed⟩ := ih.1.next hnext
    exact ⟨hgoverns, ih.2.trans hframed⟩

end Governs

end Regime

end Cam
