import Cam.Proofs.Run.Calls
import Cam.Proofs.Session.Step

/-!
# Proofs/Session/Lifetime — how long environments live, and what becomes of calls

After every history an environment is there exactly if some handle refers to it (`Session.Tended`):
no variable, kept value or function counts.  Every function that a session holds was declared, in
its home, by a program that an earlier step ran (`Session.holds_after`).  So a call is refused
exactly if the function was declared in an environment that has lost all its handles, and otherwise
runs the body there (`Session.call_after`).  A call inside the body may then be refused for its own
function, which also ends the call of the host (`Session.dropped_by_nested_call`).
-/

namespace Cam

/-! ## Functions -/

namespace Store.Binds

variable {store : Store} {env : EnvId} {f : Function}

theorem of_create (h : store.create.Binds f) : store.Binds f := by
  obtain ⟨env, name, hget⟩ := h
  rw [Store.scope, Store.get?_create] at hget
  split at hget
  next => cases hget
  next => exact ⟨env, name, hget⟩

theorem of_drop (h : (store.drop env).Binds f) : store.Binds f := by
  obtain ⟨other, name, hget⟩ := h
  rw [Store.scope, Store.get?_drop] at hget
  split at hget
  next => cases hget
  next => exact ⟨other, name, hget⟩

end Store.Binds

/-- The value that a step brings in from outside. -/
def Step.given? : Step → Option Value
  | .set _ _ (.constant value) | .hold (.constant value) _ => some value
  | _ => none

namespace Session

variable {s s' : Session} {step : Step} {budget : Nat} {f : Function}

/-! ## Handles -/

theorem mem_handlesTo {handle : String} {env : EnvId} :
    handle ∈ s.handlesTo env ↔ s.handles.get? handle = some env := by
  simp [handlesTo, ← Dict.mem_entries_iff]

/-- An environment is there exactly if some handle refers to it, this one perhaps excepted. -/
def TendedBut (s : Session) (env : EnvId) : Prop :=
  ∀ other, other ≠ env →
    (s.world.store.isAlive other ↔ ∃ handle, s.handles.get? handle = some other)

/-- Every environment is there exactly if some handle refers to it. -/
def Tended (s : Session) : Prop :=
  ∀ env, s.world.store.isAlive env ↔ ∃ handle, s.handles.get? handle = some env

theorem Tended.but (h : s.Tended) (env : EnvId) : s.TendedBut env := fun other _ => h other

theorem TendedBut.tended {env : EnvId} (h : s.TendedBut env)
    (henv : s.world.store.isAlive env ↔ ∃ handle, s.handles.get? handle = some env) : s.Tended := by
  intro other
  by_cases heq : other = env
  · exact heq ▸ henv
  · exact h other heq

/-- **No handle, no environment**: what a session does with an environment that may have lost its
last handle. -/
theorem TendedBut.release {env : EnvId} (h : s.TendedBut env)
    (henv : (∃ handle, s.handles.get? handle = some env) → s.world.store.isAlive env) :
    (s.release env).Tended := by
  unfold Session.release
  split
  next hnone =>
    have hnone : s.handlesTo env = [] := List.isEmpty_iff.1 hnone
    intro other
    rw [Store.isAlive_drop]
    by_cases heq : other = env
    · subst heq
      refine iff_of_false (fun halive => halive.1 rfl) ?_
      rintro ⟨handle, hget⟩
      exact List.not_mem_nil (hnone ▸ mem_handlesTo.2 hget)
    · exact (and_iff_right heq).trans (h other heq)
  next hsome =>
    refine h.tended ⟨fun _ => ?_, henv⟩
    obtain ⟨handle, hmem⟩ := List.exists_mem_of_ne_nil _ (mt List.isEmpty_iff.2 hsome)
    exact ⟨handle, mem_handlesTo.1 hmem⟩

/-- A change of one handle is felt only by the environments that it leaves and comes to. -/
theorem exists_handle_iff {handles handles' : Dict EnvId} {handle : String} {env : EnvId}
    (hrest : ∀ other, handle ≠ other → handles'.get? other = handles.get? other)
    (hold : handles.get? handle ≠ some env) (hnew : handles'.get? handle ≠ some env) :
    (∃ other, handles.get? other = some env) ↔ ∃ other, handles'.get? other = some env := by
  refine exists_congr fun other => ?_
  by_cases heq : handle = other
  · subst heq
    exact iff_of_false hold hnew
  · rw [hrest other heq]

theorem Tended.dropHandle (h : s.Tended) (handle : String) : (s.dropHandle handle).Tended := by
  unfold Session.dropHandle
  split
  next => exact h
  next env hget =>
    refine TendedBut.release (fun other hne => (h other).trans ?_) fun _ => (h env).2 ⟨handle, hget⟩
    have hold : s.handles.get? handle ≠ some other := by
      rw [hget]
      exact fun heq => hne (Option.some.inj heq).symm
    refine exists_handle_iff (fun handle' hne' => ?_) hold ?_
    · rw [Dict.get?_erase, if_neg hne']
    · rw [Dict.get?_erase, if_pos rfl]
      exact nofun

/-- A handle to an environment that is there, be it the first one or not.  What the handle referred
to before may be that same environment, so that it is released only after the change. -/
theorem TendedBut.setHandle {env : EnvId} (h : s.TendedBut env) (henv : s.world.store.isAlive env)
    (handle : String) : (s.setHandle handle env).Tended := by
  have hother {other : EnvId} (hold : s.handles.get? handle ≠ some other) :
      s.world.store.isAlive other ↔
        ∃ handle', (s.handles.insert handle env).get? handle' = some other := by
    by_cases heq : other = env
    · subst heq
      exact iff_of_true henv ⟨handle, s.handles.get?_insert_self handle other⟩
    · refine (h other heq).trans (exists_handle_iff (fun handle' hne => ?_) hold ?_)
      · rw [Dict.get?_insert, if_neg hne]
      · rw [Dict.get?_insert_self]
        exact fun heq' => heq (Option.some.inj heq').symm
  unfold Session.setHandle
  split
  next hget =>
    intro other
    exact hother (hget ▸ nofun)
  next old hget =>
    refine TendedBut.release (fun other hne => ?_) fun _ => ?_
    · exact hother (hget ▸ fun heq => hne (Option.some.inj heq).symm)
    · by_cases heq : old = env
      · exact heq ▸ henv
      · exact (h old heq).2 ⟨handle, hget⟩

/-- A first handle, to an environment that is there in addition to the others. -/
theorem Tended.setHandle (h : s.Tended) {env : EnvId} {w : World}
    (halive : ∀ other, w.store.isAlive other ↔ other = env ∨ s.world.store.isAlive other)
    (next : Nat) (handle : String) :
    ({ s with nextLabel := next, world := w }.setHandle handle env).Tended := by
  refine TendedBut.setHandle (fun other hne => ?_) ((halive env).2 (.inl rfl)) handle
  exact ((halive other).trans (or_iff_right hne)).trans (h other)

/-! ## Every step keeps environments and handles together -/

/-- A program that is run leaves all environments where they are. -/
theorem Tended.leaves (h : s.Tended) {body : Stmt Nat} {env : EnvId} (budget next : Nat) :
    Tended { s with nextLabel := next, world := (body.exec budget env).leaves s.world } := by
  obtain ⟨q, hreaches, hworld⟩ := body.reaches_leaves budget env s.world
  intro other
  have halive := Point.isAlive_of_reaches hreaches other
  rw [hworld] at halive
  exact (Bool.eq_iff_iff.1 halive).trans (h other)

/-- While a program runs in an environment of its own, that is there, with all others. -/
theorem isAlive_fresh (budget : Nat) (body : Stmt Nat) (w : World) (env : EnvId) :
    ((body.exec budget w.store.next).leaves w.fresh).store.isAlive env ↔
      env = w.store.next ∨ w.store.isAlive env := by
  obtain ⟨q, hreaches, hworld⟩ := body.reaches_leaves budget w.store.next w.fresh
  have halive := Point.isAlive_of_reaches hreaches env
  rw [hworld] at halive
  exact (Bool.eq_iff_iff.1 halive).trans (w.store.isAlive_create env)

/-- **A step keeps the environments that have handles, and no others.**  The environment of a run
that fails is dropped again, and its number was not in use before. -/
theorem Changes.tended (h : s.Changes budget step s') (hs : s.Tended) : s'.Tended := by
  cases h with
  | nothing => exact hs
  | @create handle => exact hs.setHandle s.world.store.isAlive_create s.nextLabel handle
  | @share handle other env henv =>
    exact (hs.but env).setHandle ((hs env).2 ⟨handle, henv⟩) other
  | @drop handle => exact hs.dropHandle handle
  | set henv hvalue =>
    intro other
    rw [Store.isAlive_set]
    exact hs other
  | hold hvalue => exact hs
  | call hf halive => exact hs.leaves budget s.nextLabel
  | exec henv hload => exact hs.leaves budget _
  | @run handle code body next env w hload hrun =>
    have hleaves := body.leaves_run budget s.world
    rw [hrun] at hleaves
    obtain ⟨rfl, rfl⟩ := hleaves
    exact hs.setHandle (isAlive_fresh budget body s.world) next handle
  | @runFails handle code body next stop w hload hrun =>
    have hleaves := body.leaves_run budget s.world
    rw [hrun] at hleaves
    intro other
    rw [hleaves, Store.isAlive_drop, isAlive_fresh, ← hs other]
    constructor
    · rintro ⟨hne, heq | halive⟩
      · exact absurd heq hne
      · exact halive
    · refine fun halive => ⟨?_, .inr halive⟩
      rintro rfl
      rw [Store.isAlive_next] at halive
      cases halive

theorem tended_start (input : Input) (output : Output) : (start input output).Tended := by
  intro env
  refine iff_of_false ?_ ?_
  · simp [start, World.start, Store.isAlive]
  · rintro ⟨handle, hget⟩
    cases hget

/-- **After every history an environment is there exactly if a handle refers to it.** -/
theorem Tended.after (h : s.Tended) (history : List (Nat × Step)) : (s.after history).Tended := by
  induction history generalizing s with
  | nil => exact h
  | cons entry history ih =>
    obtain ⟨budget, step⟩ := entry
    exact ih ((changes_perform budget s step).tended h)

theorem Tended.handlesTo_eq_nil_iff (h : s.Tended) (env : EnvId) :
    s.handlesTo env = [] ↔ s.world.store.isAlive env = false := by
  rw [List.eq_nil_iff_forall_not_mem, ← Bool.not_eq_true, h env, not_exists]
  exact forall_congr' fun handle => not_congr mem_handlesTo

/-! ## Every function has been declared -/

/-- The session has the function, in a variable or as a kept value. -/
def Holds (s : Session) (f : Function) : Prop :=
  s.world.store.Binds f ∨ ∃ key, s.held.get? key = some (.function f)

/-- The point at which a step starts to run a program, if it does. -/
inductive Launches (s : Session) : Step → Point → Prop where
  | call {operand : Operand} {f : Function} (hf : s.resolve operand = some (.function f))
      (halive : s.world.store.isAlive f.home) :
      Launches s (.call operand) (.running [.run f.body f.home] s.world)
  | exec {handle : String} {code : Code} {env : EnvId} {body : Stmt Nat} {s' : Session}
      (henv : s.handles.get? handle = some env) (hload : s.load code = .ok (body, s')) :
      Launches s (.exec handle code) (.running [.run body env] s.world)
  | run {handle : String} {code : Code} {body : Stmt Nat} {s' : Session}
      (hload : s.load code = .ok (body, s')) : Launches s (.run handle code) (body.start s.world)

/-- The step runs a program that declares the function in its home. -/
def Declares (s : Session) (step : Step) (f : Function) : Prop :=
  ∃ p q, s.Launches step p ∧ p.Reaches q ∧ q.Declares f

theorem holds_of_resolve {operand : Operand} (h : s.resolve operand = some (.function f)) :
    s.Holds f ∨ operand = .constant (.function f) := by
  cases operand with
  | constant value =>
    cases h
    exact .inr rfl
  | «variable» handle name =>
    obtain ⟨env, -, hget⟩ := Option.bind_eq_some_iff.1 h
    exact .inl (.inl ⟨env, name, hget⟩)
  | held key => exact .inl (.inr ⟨key, h⟩)

theorem Holds.of_release {env : EnvId} (h : (s.release env).Holds f) : s.Holds f := by
  unfold Session.release at h
  split at h
  next => exact h.imp_left Store.Binds.of_drop
  next => exact h

theorem Holds.of_dropHandle {handle : String} (h : (s.dropHandle handle).Holds f) : s.Holds f := by
  unfold Session.dropHandle at h
  split at h
  next => exact h
  next => exact h.of_release

theorem Holds.of_setHandle {handle : String} {env : EnvId} (h : (s.setHandle handle env).Holds f) :
    s.Holds f := by
  unfold Session.setHandle at h
  split at h
  next => exact h
  next => exact h.of_release

theorem Launches.binds {p : Point} (h : s.Launches step p) (hf : p.world.store.Binds f) :
    s.world.store.Binds f := by
  cases h with
  | call | exec => exact hf
  | run => exact Store.Binds.of_create hf

/-- What a program leaves bound was bound before or is declared by it. -/
theorem Launches.holds {body : Stmt Nat} {env : EnvId} {w : World}
    (h : s.Launches step (.running [.run body env] w)) (budget : Nat)
    (hf : ((body.exec budget env).leaves w).store.Binds f ∨
      ∃ key, s.held.get? key = some (.function f)) :
    s.Holds f ∨ s.Declares step f ∨ step.given? = some (.function f) := by
  rcases hf with hf | hf
  · obtain ⟨q, hreaches, hworld⟩ := body.reaches_leaves budget env w
    rcases Point.binds_of_reaches hreaches (hworld ▸ hf) with hf | ⟨q', hreaches', hdeclares⟩
    · exact .inl (.inl (h.binds hf))
    · exact .inr (.inl ⟨_, q', h, hreaches', hdeclares⟩)
  · exact .inl (.inr hf)

/-- **A step makes no function**, other than those that it declares or is given. -/
theorem Changes.holds (h : s.Changes budget step s') (hf : s'.Holds f) :
    s.Holds f ∨ s.Declares step f ∨ step.given? = some (.function f) := by
  cases h with
  | nothing => exact .inl hf
  | create => exact .inl (hf.of_setHandle.imp_left Store.Binds.of_create)
  | share henv => exact .inl hf.of_setHandle
  | drop => exact .inl hf.of_dropHandle
  | set henv hvalue =>
    rcases hf with hf | hf
    · rcases hf.of_set with hf | rfl
      · exact .inl (.inl hf)
      · refine (holds_of_resolve hvalue).imp_right ?_
        rintro rfl
        exact .inr rfl
    · exact .inl (.inr hf)
  | @hold operand key value hvalue =>
    rcases hf with hf | ⟨key', hget⟩
    · exact .inl (.inl hf)
    · rw [Dict.get?_insert] at hget
      split at hget
      next =>
        cases hget
        refine (holds_of_resolve hvalue).imp_right ?_
        rintro rfl
        exact .inr rfl
      next => exact .inl (.inr ⟨key', hget⟩)
  | call hg halive => exact (Launches.call hg halive).holds budget hf
  | exec henv hload => exact (Launches.exec henv hload).holds budget hf
  | @run handle code body next env w hload hrun =>
    have hleaves := body.leaves_run budget s.world
    rw [hrun] at hleaves
    obtain ⟨rfl, rfl⟩ := hleaves
    exact (Launches.run hload).holds budget hf.of_setHandle
  | @runFails handle code body next stop w hload hrun =>
    have hleaves := body.leaves_run budget s.world
    rw [hrun] at hleaves
    refine (Launches.run hload).holds budget (hf.imp_left fun hf => ?_)
    rw [hleaves] at hf
    exact hf.of_drop

theorem not_holds_start (input : Input) (output : Output) (f : Function) :
    ¬(start input output).Holds f := by
  rintro (⟨env, name, hget⟩ | ⟨key, hget⟩)
  · simp [start, World.start, Store.scope] at hget
  · cases hget

/-- **Every function that a session holds has its origin in the history**: a step has run a program
that declares it in its home, or was given it.  This is the first step, or one of those that follow.
-/
theorem holds_after {history : List (Nat × Step)} (h : (s.after history).Holds f) :
    s.Holds f ∨ ∃ earlier budget step later, history = earlier ++ (budget, step) :: later ∧
      ((s.after earlier).Declares step f ∨ step.given? = some (.function f)) := by
  induction history generalizing s with
  | nil => exact .inl h
  | cons entry history ih =>
    obtain ⟨budget, step⟩ := entry
    rcases ih h with hs | ⟨earlier, budget', step', later, rfl, horigin⟩
    · refine ((changes_perform budget s step).holds hs).imp_right fun horigin => ?_
      exact ⟨[], budget, step, history, rfl, horigin⟩
    · exact .inr ⟨(budget, step) :: earlier, budget', step', later, rfl, horigin⟩

/-! ## Calls -/

/-- A program run with enough budget fails as its steps do. -/
theorem exists_act_iff {body : Stmt Nat} {env : EnvId} {e : RuntimeError} :
    (∃ budget, (s.act (body.exec budget env)).1 = .error (.failed e)) ↔
      ∃ w', (Point.running [.run body env] s.world).Reaches (.failed e w') := by
  constructor
  · rintro ⟨budget, hact⟩
    unfold act at hact
    split at hact
    next => cases hact
    next stop w' hexec =>
      cases hact
      have hfinishes : body.Finishes env s.world (.error e) w' := ⟨budget, hexec⟩
      exact ⟨w', Stmt.finishes_iff.1 hfinishes⟩
  · rintro ⟨w', hreaches⟩
    have hfinishes : body.Finishes env s.world (.error e) w' := Stmt.finishes_iff.2 hreaches
    obtain ⟨budget, hexec⟩ := hfinishes
    exact ⟨budget, by simp [act, hexec, Action.ended]⟩

section Calls

variable (h : s.Tended)

include h

/-- **A call runs the body in the home of the function, or is refused**, by whether a handle refers
to that home. -/
theorem Tended.perform_call {operand : Operand} (hf : s.resolve operand = some (.function f))
    (budget : Nat) :
    s.perform budget (.call operand) =
      if s.handlesTo f.home = [] then
        (.called (.error (.failed (.environmentDropped f.name))), s)
      else
        (.called (s.act (f.body.exec budget f.home)).1, (s.act (f.body.exec budget f.home)).2) := by
  have hcall : s.perform budget (.call operand) =
      (.called (s.act (f.call budget)).1, (s.act (f.call budget)).2) := by
    simp only [perform, perform?, hf, bind, Option.bind]
    rfl
  have halive := h.handlesTo_eq_nil_iff f.home
  rw [hcall]
  split
  next hnil => simp [act, Function.call_apply, halive.1 hnil]
  next hne => simp [act, Function.call_apply, mt halive.2 hne]

/-- The same of a call in a program. -/
theorem Tended.next_call_iff {p q : Point} {called : String} {env : EnvId} {jobs : List Job}
    {w : World} (hp : p.world = s.world)
    (hreaches : p.Reaches (.running (.run (.call called) env :: jobs) w))
    (hf : (w.store.scope env).get? called = some (.function f)) :
    Point.Next (.running (.run (.call called) env :: jobs) w) q ↔
      q = if s.handlesTo f.home = [] then .failed (.environmentDropped f.name) w
        else .running (.run f.body f.home :: jobs) w := by
  have halive : w.store.isAlive f.home = s.world.store.isAlive f.home :=
    hp ▸ Point.isAlive_of_reaches hreaches f.home
  have hgone := h.handlesTo_eq_nil_iff f.home
  rw [Point.next_call_iff hf, halive]
  by_cases hnil : s.handlesTo f.home = []
  · simp only [if_pos hnil, hgone.1 hnil, Bool.false_eq_true, if_false]
  · simp only [if_neg hnil, mt hgone.2 hnil, if_true]

/-- **A call answers that an environment is gone** where its own function or one that is called on
the way was declared in an environment without handles. -/
theorem Tended.dropped_iff {operand : Operand} (hf : s.resolve operand = some (.function f))
    {name : String} :
    (∃ budget, (s.perform budget (.call operand)).1 =
        .called (.error (.failed (.environmentDropped name)))) ↔
      if s.handlesTo f.home = [] then f.name = name
      else ∃ q g, (Point.running [.run f.body f.home] s.world).Reaches q ∧ q.Calls g ∧
        g.name = name ∧ s.handlesTo g.home = [] := by
  simp only [h.perform_call hf]
  split
  next => simp
  next =>
    simp only [Answer.called.injEq, exists_act_iff, h.handlesTo_eq_nil_iff]
    exact Point.reaches_dropped_iff

end Calls

/-- **Environments live as long as their handles, and calls go to the environment of the
declaration.**  After every history:

* an environment is there exactly if a handle refers to it, whatever is bound or kept;
* every function that the session holds was declared in its home, by a program that a step of the
  history ran, unless the host brought it along;
* a call by the host, wherever it finds the function, is refused and changes nothing if no handle
  refers to that home; otherwise it is the run of the body there;
* it answers that an environment is gone exactly if it is refused, or if a function that is called
  on the way is at home in an environment without handles;
* a call in a program goes on with the body in that home, or fails there, by the same rule; the
  function was bound before the program started, or the program has declared it in its home. -/
theorem call_after (input : Input) (output : Output) (history : List (Nat × Step)) :
    let s := (start input output).after history
    (∀ env, s.world.store.isAlive env ↔ ∃ handle, s.handles.get? handle = some env) ∧
    (∀ f, s.Holds f →
      ∃ earlier budget step later, history = earlier ++ (budget, step) :: later ∧
        (((start input output).after earlier).Declares step f ∨
          step.given? = some (.function f))) ∧
    (∀ operand f, s.resolve operand = some (.function f) →
      (∀ budget, s.perform budget (.call operand) =
        if s.handlesTo f.home = [] then
          (.called (.error (.failed (.environmentDropped f.name))), s)
        else
          (.called (s.act (f.body.exec budget f.home)).1,
            (s.act (f.body.exec budget f.home)).2)) ∧
      ∀ name, (∃ budget, (s.perform budget (.call operand)).1 =
          .called (.error (.failed (.environmentDropped name)))) ↔
        if s.handlesTo f.home = [] then f.name = name
        else ∃ q g, (Point.running [.run f.body f.home] s.world).Reaches q ∧ q.Calls g ∧
          g.name = name ∧ s.handlesTo g.home = []) ∧
    ∀ body env called env' jobs w f,
      (Point.running [.run body env] s.world).Reaches
        (.running (.run (.call called) env' :: jobs) w) →
      (w.store.scope env').get? called = some (.function f) →
      (∀ q, Point.Next (.running (.run (.call called) env' :: jobs) w) q ↔
        q = if s.handlesTo f.home = [] then .failed (.environmentDropped f.name) w
          else .running (.run f.body f.home :: jobs) w) ∧
      (s.Holds f ∨ ∃ q, (Point.running [.run body env] s.world).Reaches q ∧ q.Declares f) := by
  intro s
  have hs : s.Tended := (tended_start input output).after history
  refine ⟨hs, fun f hf => ?_,
    fun operand f hf => ⟨hs.perform_call hf, fun name => hs.dropped_iff hf⟩,
    fun body env called env' jobs w f hreaches hf =>
      ⟨fun q => hs.next_call_iff rfl hreaches hf, ?_⟩⟩
  · exact (holds_after hf).resolve_left (not_holds_start input output f)
  · exact (Point.binds_of_reaches hreaches ⟨env', called, hf⟩).imp_left .inl

/-- One environment declares a function, and another one has it under a second name. -/
def lent : List (Nat × Step) :=
  [(0, .create "a"), (0, .create "b"),
    (2, .exec "a" (.tree (.func () "f" (.assign "x" (.int 1))))),
    (0, .set "b" "g" (.variable "a" "f"))]

theorem call_after_lent :
    let s := (start (.ofBytes []) .unlimited).after lent
    let gone := (start (.ofBytes []) .unlimited).after (lent ++ [(0, .drop "a")])
    (∀ budget, s.perform budget (.call (.variable "b" "g")) =
      (.called (s.act ((Stmt.assign "x" (.int 1)).exec budget ⟨0⟩)).1,
        (s.act ((Stmt.assign "x" (.int 1)).exec budget ⟨0⟩)).2)) ∧
    (∀ budget, gone.perform budget (.call (.variable "b" "g")) =
      (.called (.error (.failed (.environmentDropped "f"))), gone)) ∧
    (∃ earlier budget step later, lent ++ [(0, .drop "a")] = earlier ++ (budget, step) :: later ∧
      (((start (.ofBytes []) .unlimited).after earlier).Declares step
          ⟨"f", 0, .assign "x" (.int 1), ⟨0⟩⟩ ∨
        step.given? = some (.function ⟨"f", 0, .assign "x" (.int 1), ⟨0⟩⟩))) ∧
    ∀ q, Point.Next (.running [.run (.call "g") ⟨1⟩] gone.world) q ↔
      q = .failed (.environmentDropped "f") gone.world := by
  intro s gone
  let f : Function := ⟨"f", 0, .assign "x" (.int 1), ⟨0⟩⟩
  have hf : s.resolve (.variable "b" "g") = some (.function f) := by decide +kernel
  have hgone : gone.resolve (.variable "b" "g") = some (.function f) := by decide +kernel
  have hscope : (gone.world.store.scope ⟨1⟩).get? "g" = some (.function f) := by decide +kernel
  have hhandles : s.handlesTo f.home ≠ [] := by decide +kernel
  have hnone : gone.handlesTo f.home = [] := by decide +kernel
  have hlent := (call_after (.ofBytes []) .unlimited lent).2.2.1 _ _ hf
  have hdropped := call_after (.ofBytes []) .unlimited (lent ++ [(0, .drop "a")])
  refine ⟨fun budget => ?_, fun budget => ?_, ?_, fun q => ?_⟩
  · exact (hlent.1 budget).trans (if_neg hhandles)
  · exact ((hdropped.2.2.1 _ _ hgone).1 budget).trans (if_pos hnone)
  · exact hdropped.2.1 f (.inl ⟨⟨1⟩, "g", hscope⟩)
  · have hcall := hdropped.2.2.2 (.call "g") ⟨1⟩ "g" ⟨1⟩ [] gone.world f .refl hscope
    refine (hcall.1 q).trans ?_
    rw [if_pos hnone]

/-- One environment has a function that calls a function of another one, whose handle is dropped. -/
def orphaned : List (Nat × Step) :=
  [(0, .create "a"), (0, .create "b"),
    (2, .exec "b" (.tree (.func () "g" (.print (.int 1))))),
    (2, .exec "a" (.tree (.func () "f" (.call "g")))),
    (0, .set "a" "g" (.variable "b" "g")), (0, .drop "b")]

/-- A call answers that an environment is gone though its own function is at home in one that has a
handle: the answer is about the function that is called on the way. -/
theorem dropped_by_nested_call :
    let s := (start (.ofBytes []) .unlimited).after orphaned
    let f : Function := ⟨"f", 1, .call "g", ⟨0⟩⟩
    s.resolve (.variable "a" "f") = some (.function f) ∧ s.handlesTo f.home = ["a"] ∧
      (s.perform 2 (.call (.variable "a" "f"))).1 =
        .called (.error (.failed (.environmentDropped "g"))) ∧
      ¬((∃ budget name, (s.perform budget (.call (.variable "a" "f"))).1 =
          .called (.error (.failed (.environmentDropped name)))) ↔ s.handlesTo f.home = []) := by
  intro s f
  have hf : s.resolve (.variable "a" "f") = some (.function f) := by decide +kernel
  have hhandles : s.handlesTo f.home = ["a"] := by decide +kernel
  have hcall : (s.perform 2 (.call (.variable "a" "f"))).1 =
      .called (.error (.failed (.environmentDropped "g"))) := by with_unfolding_all rfl
  refine ⟨hf, hhandles, hcall, fun hiff => ?_⟩
  have hnone : s.handlesTo f.home = [] := hiff.1 ⟨2, "g", hcall⟩
  exact List.cons_ne_nil _ _ (hhandles.symm.trans hnone)

end Session

end Cam
