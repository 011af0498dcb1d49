import Cam.Proofs.Run.Framing
import Cam.Proofs.Run.Literals
import Mathlib.Data.List.Forall2

/-!
# Proofs/Run/Origin — functions are the same if one declaration made them

A run can be followed through the text of its program: each job that is left stands at a *place*,
and each variable that holds a function has an *origin*, the place of the declaration that made this
function.  The `Trail` of a run keeps both.  It is moved on by what the statements say and by what
the conditions come to; the numbers on the declarations play no part in it.

`Trail.Fits.of_follows` says that the trail is right at every point.  The numbers of a program are
those of its places (`Stmt.place_unique`), and so two functions are equal in the language exactly if
they have the same origin (`Program.equal_iff_same_origin`).
-/

namespace Cam

/-! ## Places in a program -/

/-- The way from a statement to one directly inside it. -/
inductive Branch where
  /-- To the first part of a sequence or an `if`, or to the body of a loop or a function. -/
  | first
  /-- To the second part of a sequence, or to an `else` branch. -/
  | second
  deriving DecidableEq

/-- Where a statement stands in a program: the way to it, from the outside in. -/
abbrev Place := List Branch

namespace Stmt

variable {ℓ : Type}

/-- The statement directly inside, on that branch. -/
def inside? : Stmt ℓ → Branch → Option (Stmt ℓ)
  | .seq s _, .first | .ifThen _ s, .first | .ifThenElse _ s _, .first | .while _ s, .first
  | .for _ _ _ s, .first | .func _ _ s, .first => some s
  | .seq _ s, .second | .ifThenElse _ _ s, .second => some s
  | _, _ => none

/-- The statement at a place. -/
def at? (s : Stmt ℓ) : Place → Option (Stmt ℓ)
  | [] => some s
  | b :: place => do (← s.inside? b).at? place

theorem at?_append (s : Stmt ℓ) (place rest : Place) :
    s.at? (place ++ rest) = (s.at? place).bind (·.at? rest) := by
  induction place generalizing s with
  | nil => rfl
  | cons b place ih =>
    simp only [List.cons_append, at?]
    cases s.inside? b with
    | none => rfl
    | some t => exact ih t

theorem at?_inside {s t u : Stmt ℓ} {place : Place} {b : Branch} (h : s.at? place = some t)
    (hu : t.inside? b = some u) : s.at? (place ++ [b]) = some u := by
  rw [at?_append, h, Option.bind_some, at?, hu]
  rfl

/-- Labels do not change the places. -/
theorem at?_unlabelled (s : Stmt ℓ) (place : Place) :
    s.unlabelled.at? place = (s.at? place).map unlabelled := by
  induction place generalizing s with
  | nil => rfl
  | cons b place ih =>
    have hinside : s.unlabelled.inside? b = (s.inside? b).map unlabelled := by
      cases s <;> cases b <;> rfl
    rw [at?, at?, hinside]
    cases s.inside? b with
    | none => rfl
    | some t => exact ih t

theorem unlabelled_program (program : Program) : program.unlabelled = program := by
  induction program <;> simp_all [unlabelled]

/-- The program has the numbered statements at their places, without the numbers. -/
theorem at?_of_number {program : Program} {place : Place} {s : Stmt Nat}
    (h : (program.number 0).1.at? place = some s) : program.at? place = some s.unlabelled := by
  have hplace := at?_unlabelled (program.number 0).1 place
  rwa [unlabelled_number, unlabelled_program, h] at hplace

/-- The places of the declarations, in the order in which they are numbered. -/
def declarations : Stmt ℓ → List Place
  | .seq s t | .ifThenElse _ s t =>
    s.declarations.map (.first :: ·) ++ t.declarations.map (.second :: ·)
  | .ifThen _ s | .while _ s | .for _ _ _ s => s.declarations.map (.first :: ·)
  | .func _ _ s => [] :: s.declarations.map (.first :: ·)
  | .assign _ _ | .print _ | .input _ | .call _ => []

theorem number_snd (s : Stmt ℓ) (next : Nat) :
    (s.number next).2 = next + s.declarations.length := by
  induction s generalizing next <;> simp_all [number, declarations] <;> omega

/-- **A declaration has its position among the declarations for its number.** -/
theorem declarations_of_number {s : Stmt ℓ} {next label : Nat} {name : String} {body : Stmt Nat}
    {place : Place} (h : (s.number next).1.at? place = some (.func label name body)) :
    ∃ i, label = next + i ∧ s.declarations[i]? = some place := by
  induction s generalizing next place with
  | assign | print | input | call => rcases place with _ | ⟨_ | _, place⟩ <;> cases h
  | ifThen _ _ ih | «while» _ _ ih | «for» _ _ _ _ ih =>
    rcases place with _ | ⟨_ | _, place⟩
    · cases h
    · obtain ⟨i, hlabel, hi⟩ := ih h
      exact ⟨i, hlabel, by simp [declarations, hi]⟩
    · cases h
  | seq first second ihFirst ihSecond | ifThenElse _ first second ihFirst ihSecond =>
    rcases place with _ | ⟨_ | _, place⟩
    · cases h
    · obtain ⟨i, hlabel, hi⟩ := ihFirst h
      obtain ⟨hlt, hplace⟩ := List.getElem?_eq_some_iff.1 hi
      exact ⟨i, hlabel, by simp [declarations, List.getElem?_append, hlt, hplace]⟩
    · obtain ⟨i, hlabel, hi⟩ := ihSecond h
      rw [number_snd, Nat.add_assoc] at hlabel
      exact ⟨_, hlabel, by simp [declarations, List.getElem?_append, hi]⟩
  | func _ _ _ ih =>
    rcases place with _ | ⟨_ | _, place⟩
    · cases h
      exact ⟨0, rfl, rfl⟩
    · obtain ⟨i, hlabel, hi⟩ := ih h
      exact ⟨i + 1, by omega, by simp [declarations, hi]⟩
    · cases h

/-- **No two declarations have the same number.** -/
theorem place_unique {s : Stmt ℓ} {next label : Nat} {name name' : String} {body body' : Stmt Nat}
    {place place' : Place} (h : (s.number next).1.at? place = some (.func label name body))
    (h' : (s.number next).1.at? place' = some (.func label name' body')) : place = place' := by
  obtain ⟨i, rfl, hi⟩ := declarations_of_number h
  obtain ⟨j, hij, hj⟩ := declarations_of_number h'
  obtain rfl := Nat.add_left_cancel hij
  exact Option.some.inj (hi.symm.trans hj)

end Stmt

/-! ## Trails -/

/-- Where a run stands in its program, and where the functions it has declared come from. -/
structure Trail where
  /-- The places of the jobs that are left.  Rounds of a counted loop stand at the place of the
  loop. -/
  places : List Place
  /-- The places of the declarations whose functions the variables hold. -/
  origins : String → Option Place

/-- The condition comes to true. -/
def Condition.passes (cond : Condition) (scope : Bindings) : Bool :=
  (cond.eval scope).toOption = some true

/-- The origin of the value of an expression: only a variable gives a function. -/
def Expr.origin (origins : String → Option Place) : Expr → Option Place
  | .var name => origins name
  | .int _ | .str _ | .binary _ _ _ => none

namespace Trail

/-- The variable holds a value of this origin from now on. -/
def setOrigin (origins : String → Option Place) (name : String) (origin : Option Place) :
    String → Option Place :=
  fun other => if name = other then origin else origins other

/-- The trail after the first step of a job at the place, as the environments stand; `rest` are the
places of the other jobs. -/
def onward (store : Store) (place : Place) (rest : List Place) (origins : String → Option Place) :
    Job → Trail
  | .run (.assign name e) _ => ⟨rest, setOrigin origins name (e.origin origins)⟩
  | .run (.seq _ _) _ => ⟨(place ++ [.first]) :: (place ++ [.second]) :: rest, origins⟩
  | .run (.print _) _ => ⟨rest, origins⟩
  | .run (.input name) _ => ⟨rest, setOrigin origins name none⟩
  | .run (.ifThen cond _) env =>
    ⟨if cond.passes (store.scope env) then (place ++ [.first]) :: rest else rest, origins⟩
  | .run (.ifThenElse cond _ _) env =>
    ⟨(place ++ [if cond.passes (store.scope env) then .first else .second]) :: rest, origins⟩
  | .run (.while cond _) env =>
    ⟨if cond.passes (store.scope env) then (place ++ [.first]) :: place :: rest else rest, origins⟩
  | .run (.for _ _ _ _) _ => ⟨place :: rest, origins⟩
  | .run (.func _ name _) _ => ⟨rest, setOrigin origins name (some place)⟩
  | .run (.call name) _ =>
    ⟨match origins name with
      | some declared => (declared ++ [.first]) :: rest
      | none => rest, origins⟩
  | .rounds _ _ _ 0 _ => ⟨rest, origins⟩
  | .rounds name _ _ (_ + 1) _ =>
    ⟨(place ++ [.first]) :: place :: rest, setOrigin origins name none⟩

end Trail

/-- The run of the program is at the point and has this trail.  It starts with the whole program and
without functions; a step that fails sets no variable and leaves nothing to do. -/
inductive Program.Follows (program : Program) (w : World) : Point → Trail → Prop where
  | start : Follows program w (program.entry w) ⟨[[]], fun _ => none⟩
  | step {job : Job} {jobs jobs' : List Job} {w₁ w₂ : World} {place : Place} {rest : List Place}
      {origins : String → Option Place}
      (h : Follows program w (.running (job :: jobs) w₁) ⟨place :: rest, origins⟩)
      (hnext : (Point.running (job :: jobs) w₁).Next (.running jobs' w₂)) :
      Follows program w (.running jobs' w₂) (Trail.onward w₁.store place rest origins job)
  | fail {p : Point} {e : RuntimeError} {w₂ : World} {trail : Trail} (h : Follows program w p trail)
      (hnext : p.Next (.failed e w₂)) : Follows program w (.failed e w₂) ⟨[], trail.origins⟩

/-! ## The trail is right -/

/-- The job is to run what stands at the place, in the environment. -/
def Job.Stands (p : Stmt Nat) (env : EnvId) : Job → Place → Prop
  | .run s home, place => home = env ∧ p.at? place = some s
  | .rounds name body home _ _, place =>
    home = env ∧ ∃ start stop, p.at? place = some (.for name start stop body)

/-- The function is the one that the declaration at the place makes in the environment. -/
structure Function.MadeAt (p : Stmt Nat) (env : EnvId) (f : Function) (place : Place) : Prop where
  home : f.home = env
  declared : p.at? place = some (.func f.label f.name f.body)

/-- The value is no function, or one of this origin. -/
def Value.From (p : Stmt Nat) (env : EnvId) (origin : Option Place) (value : Value) : Prop :=
  value.Known fun f => ∃ place, origin = some place ∧ f.MadeAt p env place

/-- The variables of the environment hold values of these origins. -/
def Store.Traced (p : Stmt Nat) (env : EnvId) (store : Store) (origins : String → Option Place) :
    Prop :=
  ∀ name value, (store.scope env).get? name = some value → value.From p env (origins name)

/-- The trail tells where the run stands, and where its functions come from. -/
structure Trail.Fits (p : Stmt Nat) (env : EnvId) (q : Point) (trail : Trail) : Prop where
  alive : q.world.store.isAlive env
  jobs : List.Forall₂ (Job.Stands p env) q.jobs trail.places
  origins : q.world.store.Traced p env trail.origins

section Fits

variable {p : Stmt Nat} {env : EnvId} {store : Store} {place : Place} {rest : List Place}
  {origins : String → Option Place}

namespace Store.Traced

/-- An expression has a value of its origin. -/
theorem eval (h : store.Traced p env origins) (e : Expr) :
    Yields (fun _ => True) (Value.From p env (e.origin origins)) (e.eval (store.scope env)) := by
  cases e with
  | int | str => trivial
  | var name =>
    unfold Expr.eval
    split
    next value hget => exact h name value hget
    next => trivial
  | binary op left right =>
    exact .bind (.always _) fun a _ => .bind (.always _) fun b _ => op.known_apply _ a b

/-- A variable that is set has the origin of its value. -/
theorem set (h : store.Traced p env origins) (halive : store.isAlive env) {value : Value}
    {origin : Option Place} (hvalue : value.From p env origin) (name : String) :
    (store.set env name value).Traced p env (Trail.setOrigin origins name origin) := by
  intro other v hget
  rw [Store.scope_set_self halive, Dict.get?_insert] at hget
  unfold Trail.setOrigin
  split at hget
  next heq =>
    cases hget
    rwa [if_pos heq]
  next hne =>
    rw [if_neg hne]
    exact h other v hget

end Store.Traced

theorem Condition.yields_passes (cond : Condition) (scope : Bindings) :
    Yields (fun _ => True) (fun go => cond.passes scope = go) (cond.eval scope) := by
  unfold passes
  rcases cond.eval scope with e | _ | _
  · trivial
  · rfl
  · rfl

/-- The effect of a job leads on to the trail; `rest` are the places of the other jobs. -/
def Effect.LeadsTo (p : Stmt Nat) (env : EnvId) (rest : List Place)
    (origins : String → Option Place)
    (trail : Trail) : Effect → Prop
  | .leave more => ∃ places, trail = ⟨places ++ rest, origins⟩ ∧
      List.Forall₂ (Job.Stands p env) more places
  | .set home name value more => home = env ∧ ∃ places origin,
      trail = ⟨places ++ rest, Trail.setOrigin origins name origin⟩ ∧
      List.Forall₂ (Job.Stands p env) more places ∧ value.From p env origin
  | .write _ => trail = ⟨rest, origins⟩
  | .read home name => home = env ∧ trail = ⟨rest, Trail.setOrigin origins name none⟩

/-- **The effect of a job leads on to its trail.** -/
theorem Job.Stands.leadsTo {job : Job} (hjob : job.Stands p env place)
    (horigins : store.Traced p env origins) (rest : List Place) :
    Yields (fun _ => True)
      (Effect.LeadsTo p env rest origins (.onward store place rest origins job))
      (job.effect store) := by
  cases job with
  | rounds name body home count first =>
    obtain ⟨rfl, start, stop, hplace⟩ := hjob
    cases count with
    | zero => exact ⟨[], rfl, .nil⟩
    | succ count =>
      have hbody : (Job.run body home).Stands p home (place ++ [.first]) :=
        ⟨rfl, Stmt.at?_inside hplace rfl⟩
      have hrounds : (Job.rounds name body home count (first + 1)).Stands p home place :=
        ⟨rfl, start, stop, hplace⟩
      exact ⟨rfl, [_, _], none, rfl, .cons hbody (.cons hrounds .nil), trivial⟩
  | run s home =>
    obtain ⟨rfl, hplace⟩ := hjob
    have hinside {t : Stmt Nat} {b : Branch} (h : s.inside? b = some t) :
        (Job.run t home).Stands p home (place ++ [b]) := ⟨rfl, Stmt.at?_inside hplace h⟩
    cases s with
    | assign name e =>
      exact .bind (horigins.eval e) fun value hvalue => ⟨rfl, [], _, rfl, .nil, hvalue⟩
    | seq first second => exact ⟨[_, _], rfl, .cons (hinside rfl) (.cons (hinside rfl) .nil)⟩
    | print e => exact .bind (.always _) fun _ _ => rfl
    | input name => exact ⟨rfl, rfl⟩
    | ifThen cond t =>
      refine .bind (cond.yields_passes _) fun go hgo => ?_
      rw [Trail.onward, hgo]
      cases go with
      | false => exact ⟨[], rfl, .nil⟩
      | true => exact ⟨[_], rfl, .cons (hinside rfl) .nil⟩
    | ifThenElse cond t e =>
      refine .bind (cond.yields_passes _) fun go hgo => ?_
      rw [Trail.onward, hgo]
      cases go with
      | false => exact ⟨[_], rfl, .cons (hinside rfl) .nil⟩
      | true => exact ⟨[_], rfl, .cons (hinside rfl) .nil⟩
    | «while» cond body =>
      refine .bind (cond.yields_passes _) fun go hgo => ?_
      rw [Trail.onward, hgo]
      cases go with
      | false => exact ⟨[], rfl, .nil⟩
      | true => exact ⟨[_, _], rfl, .cons (hinside rfl) (.cons ⟨rfl, hplace⟩ .nil)⟩
    | «for» name start stop body =>
      refine .bind (.always _) fun _ _ => .bind (.always _) fun first _ => ?_
      refine .bind (.always _) fun _ _ => .bind (.always _) fun last _ => ?_
      exact ⟨[_], rfl, .cons ⟨rfl, start, stop, hplace⟩ .nil⟩
    | func label name body => exact ⟨rfl, [], some place, rfl, .nil, place, rfl, rfl, hplace⟩
    | call name =>
      simp only [Job.effect]
      split
      next f hget =>
        obtain ⟨declared, horigin, hmade⟩ := horigins name _ hget
        split
        next =>
          have hbody : (Job.run f.body f.home).Stands p home (declared ++ [.first]) :=
            ⟨hmade.home, Stmt.at?_inside hmade.declared rfl⟩
          rw [Trail.onward, horigin]
          exact ⟨[_], rfl, .cons hbody .nil⟩
        next => trivial
      next => trivial
      next => trivial

/-- A step that fails sets no variable. -/
theorem Point.store_of_next_failed {q : Point} {e : RuntimeError} {w : World}
    (h : q.Next (.failed e w)) : w.store = q.world.store := by
  rcases q with ⟨_ | ⟨job, jobs⟩, w₁⟩ | ⟨e, w₁⟩
  · cases h
  · have heq := next_iff.1 h
    generalize job.effect w₁.store = r at heq
    rcases r with e | more | ⟨home, name, value, more⟩ | text | ⟨home, name⟩
    · cases heq
      rfl
    · cases heq
    · cases heq
    · simp only [after, Effect.next] at heq
      split at heq
      next => cases heq
      next =>
        cases heq
        rfl
    · simp only [after, Effect.next] at heq
      split at heq
      next => cases heq
      next =>
        cases heq
        rfl
      next =>
        cases heq
        rfl
  · cases h

namespace Trail.Fits

variable {q : Point} {trail : Trail}

/-- The trail stays right where a variable is set to a value of the origin it gets. -/
theorem set {jobs : List Job} {places : List Place} {value : Value} {origin : Option Place}
    (halive : store.isAlive env) (horigins : store.Traced p env origins)
    (hjobs : List.Forall₂ (Job.Stands p env) jobs places) (hvalue : value.From p env origin)
    (name : String) (input : Input) (output : Output) :
    Fits p env (.running jobs ⟨store.set env name value, input, output⟩)
      ⟨places, setOrigin origins name origin⟩ :=
  ⟨(Store.isAlive_set ..).trans halive, hjobs, horigins.set halive hvalue name⟩

/-- **The trail stays right with each step.** -/
theorem next {job : Job} {jobs jobs' : List Job} {w w' : World}
    (h : Fits p env (.running (job :: jobs) w) ⟨place :: rest, origins⟩)
    (hnext : (Point.running (job :: jobs) w).Next (.running jobs' w')) :
    Fits p env (.running jobs' w') (onward w.store place rest origins job) := by
  obtain ⟨hjob, hjobs⟩ := List.forall₂_cons.1 h.jobs
  have hleads : Yields (fun _ => True)
      (Effect.LeadsTo p env rest origins (onward w.store place rest origins job))
      (job.effect w.store) := hjob.leadsTo h.origins rest
  have heq := Point.next_iff.1 hnext
  generalize onward w.store place rest origins job = trail at hleads ⊢
  generalize job.effect w.store = r at hleads heq
  rcases r with e | more | ⟨home, name, value, more⟩ | text | ⟨home, name⟩
  · cases heq
  · obtain ⟨places, rfl, hmore⟩ := hleads
    cases heq
    exact ⟨h.alive, List.rel_append hmore hjobs, h.origins⟩
  · obtain ⟨rfl, places, origin, rfl, hmore, hvalue⟩ := hleads
    cases heq
    exact .set h.alive h.origins (List.rel_append hmore hjobs) hvalue name w.input w.output
  · obtain rfl := hleads
    simp only [Point.after, Effect.next] at heq
    split at heq
    next =>
      cases heq
      exact ⟨h.alive, hjobs, h.origins⟩
    next => cases heq
  · obtain ⟨rfl, rfl⟩ := hleads
    simp only [Point.after, Effect.next] at heq
    split at heq
    next line input _ =>
      cases heq
      exact .set h.alive h.origins hjobs (Value.known_ofLine _ line) name input w.output
    next => cases heq
    next => cases heq

theorem fail {e : RuntimeError} {w : World} (h : Fits p env q trail)
    (hnext : q.Next (.failed e w)) :
    Fits p env (.failed e w) ⟨[], trail.origins⟩ := by
  have hstore := Point.store_of_next_failed hnext
  exact ⟨hstore ▸ h.alive, .nil, hstore ▸ h.origins⟩

variable {program : Program} {w : World}

/-- **The trail is right at every point.** -/
theorem of_follows (h : program.Follows w q trail) :
    Fits (program.number 0).1 w.store.next q trail := by
  induction h with
  | start =>
    have halive : w.store.create.isAlive w.store.next := (w.store.isAlive_create _).2 (.inl rfl)
    refine ⟨halive, .cons ⟨rfl, rfl⟩ .nil, fun name value hget => ?_⟩
    rw [Program.entry, Stmt.start, Point.world, World.fresh, Store.scope_create] at hget
    cases hget
  | step _ hnext ih => exact ih.next hnext
  | fail _ hnext ih => exact ih.fail hnext

end Trail.Fits

end Fits

/-- Comparing two variables is comparing their values. -/
theorem Condition.eval_equal {scope : Bindings} {x y : String} {u v : Value}
    (hx : scope.get? x = some u)
    (hy : scope.get? y = some v) :
    (Condition.relation .equal (.var x) (.var y)).eval scope = .ok (u.equal v) := by
  simp only [Condition.eval, Expr.eval, hx, hy]
  rfl

namespace Program

variable {program : Program} {w : World} {q : Point}

theorem Follows.reaches {trail : Trail} (h : program.Follows w q trail) :
    (program.entry w).Reaches q := by
  induction h with
  | start => exact .refl
  | step _ hnext ih | fail _ hnext ih => exact ih.tail hnext

/-- Every run can be followed. -/
theorem exists_follows (h : (program.entry w).Reaches q) : ∃ trail, program.Follows w q trail := by
  induction h with
  | refl => exact ⟨_, .start⟩
  | @tail q q' _ hnext ih =>
    obtain ⟨⟨places, origins⟩, hfollows⟩ := ih
    rcases q' with ⟨jobs', w'⟩ | ⟨e, w'⟩
    · rcases q with ⟨_ | ⟨job, jobs⟩, w₁⟩ | ⟨e, w₁⟩
      · cases hnext
      · have hjobs := (Trail.Fits.of_follows hfollows).jobs
        obtain ⟨place, rest, -, -, rfl⟩ := List.forall₂_cons_left_iff.1 hjobs
        exact ⟨_, hfollows.step hnext⟩
      · cases hnext
    · exact ⟨_, hfollows.fail hnext⟩

/-! ## Equality -/

/-- **Functions are the same if one declaration made them**, and only then. -/
theorem same_iff_place_eq {env : EnvId} {f g : Function} {place place' : Place}
    (hf : f.MadeAt (program.number 0).1 env place) (hg : g.MadeAt (program.number 0).1 env place') :
    f.same g ↔ place = place' := by
  constructor
  · intro hsame
    have hlabel : f.label = g.label := by simp_all [Function.same]
    exact Stmt.place_unique hf.declared (hlabel ▸ hg.declared)
  · rintro rfl
    have hdeclared := hf.declared.symm.trans hg.declared
    have hhome := hf.home.trans hg.home.symm
    simp_all [Function.same]

/-- **Equality of functions is identity of declarations.**  Every point of a run of a source text
has a trail, which says of each variable that holds a function at which place of the program this
function was declared.  A comparison of two such variables comes to true if the places are the same,
however often the declaration there was executed and whatever copies were made, and to false if they
are not; a comparison with another value comes to false. -/
theorem equal_iff_same_origin {source : String} (h : ofSource source = .ok program) (w : World) :
    (∀ q, (program.entry w).Reaches q ↔ ∃ trail, program.Follows w q trail) ∧
    (∀ budget env w', runSource budget source w = .ok env w' →
      env = w.store.next ∧ ∃ trail, program.Follows w (.running [] w') trail) ∧
    ∀ q trail, program.Follows w q trail →
      let scope := q.world.store.scope w.store.next
      ∀ x f, scope.get? x = some (.function f) →
        (∃ place, trail.origins x = some place ∧
          program.at? place = some (.func () f.name f.body.unlabelled)) ∧
        (∀ y g, scope.get? y = some (.function g) →
          (Condition.relation .equal (.var x) (.var y)).eval scope =
            .ok (decide (trail.origins x = trail.origins y))) ∧
        ∀ y v, scope.get? y = some v → v.kind ≠ .function →
          (Condition.relation .equal (.var x) (.var y)).eval scope = .ok false ∧
          (Condition.relation .equal (.var y) (.var x)).eval scope = .ok false := by
  refine ⟨fun q => ⟨exists_follows, fun ⟨_, hfollows⟩ => hfollows.reaches⟩, ?_, ?_⟩
  · intro budget env w' hrun
    obtain ⟨henv, hreaches⟩ := reaches_of_runSource h hrun
    exact ⟨henv, exists_follows hreaches⟩
  · intro q trail hfollows scope x f hx
    have horigins := (Trail.Fits.of_follows hfollows).origins
    obtain ⟨place, hplace, hf⟩ := horigins x _ hx
    refine ⟨⟨place, hplace, Stmt.at?_of_number hf.declared⟩, fun y g hy => ?_, fun y v hy hv => ?_⟩
    · obtain ⟨place', hplace', hg⟩ := horigins y _ hy
      have hsame : f.same g = decide (trail.origins x = trail.origins y) := by
        rw [Bool.eq_iff_iff, same_iff_place_eq hf hg, hplace, hplace']
        simp
      rw [Condition.eval_equal hx hy, Value.equal, hsame]
    · have hdiffer : (Value.function f).equal v = false ∧ v.equal (.function f) = false := by
        cases v with
        | integer | string | boolean => exact ⟨rfl, rfl⟩
        | function g => exact absurd rfl hv
      rw [Condition.eval_equal hx hy, Condition.eval_equal hy hx, hdiffer.1, hdiffer.2]
      exact ⟨rfl, rfl⟩

/-- A function is declared and copied, the same text declares another one, and the copy is copied.
-/
def redeclaring : Program :=
  .seq (.seq (.seq (.func () "f" (.assign "x" (.int 1))) (.assign "g" (.var "f")))
    (.func () "f" (.assign "x" (.int 1)))) (.assign "h" (.var "g"))

/-- The copies are equal to each other, but not to the function of the second declaration. -/
theorem redeclaring_differs :
    let source := "func f do x = 1 end ; g = f ; func f do x = 1 end ; h = g"
    let w := World.start (.ofBytes []) .unlimited
    ∃ q trail, ofSource source = .ok redeclaring ∧ redeclaring.Follows w q trail ∧
      redeclaring.at? [.first, .first, .first] = redeclaring.at? [.first, .second] ∧
      trail.origins "g" = some [.first, .first, .first] ∧
      trail.origins "f" = some [.first, .second] ∧
      (Condition.relation .equal (.var "g") (.var "h")).eval (q.world.store.scope ⟨0⟩) = .ok true ∧
      (Condition.relation .equal (.var "g") (.var "f")).eval (q.world.store.scope ⟨0⟩) =
        .ok false := by
  intro source w
  have hf : IsName "f" := ⟨rfl, by decide⟩
  have hg : IsName "g" := ⟨rfl, by decide⟩
  have hh : IsName "h" := ⟨rfl, by decide⟩
  have hx : IsName "x" := ⟨rfl, by decide⟩
  have hone : (Expr.int 1).Surface := show (0 : Int) ≤ (1 : Int64).toInt by decide
  have hdeclared : (.func () "f" (.assign "x" (.int 1)) : Program).Surface := ⟨hf, hx, hone⟩
  have hsurface : redeclaring.Surface :=
    ⟨⟨⟨hdeclared, ⟨hg, hf⟩, rfl⟩, hdeclared, rfl⟩, ⟨hh, hg⟩, rfl⟩
  have hrender : redeclaring.render = source := by decide +kernel
  have hsource : ofSource source = .ok redeclaring :=
    hrender ▸ ofSource_ok_iff.2 ⟨redeclaring.tokens, ofSource_render hsurface⟩
  have hstart : redeclaring.Follows w (redeclaring.entry w) ⟨[[]], fun _ => none⟩ := .start
  have hapart := ((hstart.step (Point.next_iff.2 rfl)).step (Point.next_iff.2 rfl)).step
    (Point.next_iff.2 rfl)
  have hcopied := (hapart.step (Point.next_iff.2 rfl)).step (Point.next_iff.2 rfl)
  have hfollows := (hcopied.step (Point.next_iff.2 rfl)).step (Point.next_iff.2 rfl)
  obtain ⟨-, -, hequal⟩ := equal_iff_same_origin hsource w
  obtain ⟨-, hfunctions, -⟩ := hequal _ _ hfollows "g" _ rfl
  refine ⟨_, _, hsource, hfollows, rfl, rfl, rfl, ?_, ?_⟩
  · exact hfunctions "h" _ rfl
  · exact hfunctions "f" _ rfl

end Program

end Cam
