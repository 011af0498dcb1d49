import Cam.Proofs.Run.Invariant
import Cam.Session

/-!
# Proofs/Session/Step — what a step of a host does to a session

`Session.Changes` says once what each step makes of a session: it rebinds or drops a handle, sets a
variable, keeps a value or runs a program; `Session.changes_perform` says that this is all.  A
history is a list of steps, each with the budget for what it runs (`Session.after`).
-/

namespace Cam

/-! ## Runs -/

theorem Action.leaves_mapError {ε ε' α : Type} (f : ε → ε') (a : Action ε α) (w : World) :
    (a.mapError f).leaves w = a.leaves w := by
  simp only [leaves, mapError]
  rcases a w with ⟨x, w'⟩ | ⟨e | _, w'⟩ <;> rfl

/-- **A call runs the body in the home of the function**, if that is still there. -/
theorem Function.call_apply (budget : Nat) (f : Function) (w : World) :
    f.call budget w =
      if w.store.isAlive f.home then f.body.exec budget f.home w
      else .error (.failed (.environmentDropped f.name)) w := by
  simp only [Function.call, Action.callWith, Action.get_bind]
  split <;> rfl

theorem Function.leaves_call (budget : Nat) (f : Function) (w : World) :
    (f.call budget).leaves w =
      if w.store.isAlive f.home then (f.body.exec budget f.home).leaves w else w := by
  simp only [Action.leaves, call_apply]
  cases w.store.isAlive f.home <;> rfl

/-- What a run leaves behind: the world that its statement left, without the environment of the run
unless all went well. -/
theorem Stmt.leaves_run (budget : Nat) (s : Stmt Nat) (w : World) :
    match s.run budget w with
    | .ok env w' => env = w.store.next ∧ w' = (s.exec budget w.store.next).leaves w.fresh
    | .error _ w' =>
      w'.store = ((s.exec budget w.store.next).leaves w.fresh).store.drop w.store.next := by
  simp only [run_apply, bind, EStateM.bind, Action.leaves]
  rcases s.exec budget w.store.next w.fresh with ⟨_, w₁⟩ | ⟨stop, w₁⟩
  · simp only [Action.flush]
    cases w₁.output.flush with
    | none => exact ⟨rfl, rfl⟩
    | some fault => rfl
  · rfl

namespace Session

/-! ## Steps -/

theorem act_snd {ε α : Type} (s : Session) (a : Action ε α) :
    (s.act a).2 = { s with world := a.leaves s.world } := by
  simp only [act, Action.leaves]
  cases a s.world <;> rfl

/-- To take a program up changes the numbers for declarations only. -/
theorem eq_of_load {s s' : Session} {code : Code} {body : Stmt Nat}
    (h : s.load code = .ok (body, s')) : ∃ next, s' = { s with nextLabel := next } := by
  cases code with
  | tree program =>
    cases h
    exact ⟨_, rfl⟩
  | source text =>
    simp only [load, bind, Except.bind] at h
    split at h
    next => cases h
    next program =>
      cases h
      exact ⟨_, rfl⟩

/-- What a step makes of a session. -/
inductive Changes (budget : Nat) (s : Session) : Step → Session → Prop where
  | nothing {step : Step} : Changes budget s step s
  | create {handle : String} : Changes budget s (.create handle)
      ({ s with world := { s.world with store := s.world.store.create } }.setHandle handle
        s.world.store.next)
  | share {handle other : String} {env : EnvId} (henv : s.handles.get? handle = some env) :
      Changes budget s (.share handle other) (s.setHandle other env)
  | drop {handle : String} : Changes budget s (.drop handle) (s.dropHandle handle)
  | set {handle name : String} {operand : Operand} {env : EnvId} {value : Value}
      (henv : s.handles.get? handle = some env) (hvalue : s.resolve operand = some value) :
      Changes budget s (.set handle name operand)
        { s with world := { s.world with store := s.world.store.set env name value } }
  | hold {operand : Operand} {key : String} {value : Value}
      (hvalue : s.resolve operand = some value) :
      Changes budget s (.hold operand key) { s with held := s.held.insert key value }
  | call {operand : Operand} {f : Function} (hf : s.resolve operand = some (.function f))
      (halive : s.world.store.isAlive f.home) :
      Changes budget s (.call operand)
        { s with world := (f.body.exec budget f.home).leaves s.world }
  | exec {handle : String} {code : Code} {env : EnvId} {body : Stmt Nat} {next : Nat}
      (henv : s.handles.get? handle = some env)
      (hload : s.load code = .ok (body, { s with nextLabel := next })) :
      Changes budget s (.exec handle code)
        { s with nextLabel := next, world := (body.exec budget env).leaves s.world }
  | run {handle : String} {code : Code} {body : Stmt Nat} {next : Nat} {env : EnvId} {w : World}
      (hload : s.load code = .ok (body, { s with nextLabel := next }))
      (hrun : body.run budget s.world = .ok env w) :
      Changes budget s (.run handle code)
        ({ s with nextLabel := next, world := w }.setHandle handle env)
  | runFails {handle : String} {code : Code} {body : Stmt Nat} {next : Nat}
      {stop : Stop RuntimeError} {w : World}
      (hload : s.load code = .ok (body, { s with nextLabel := next }))
      (hrun : body.run budget s.world = .error stop w) :
      Changes budget s (.run handle code) { s with nextLabel := next, world := w }

/-- **A step makes of a session what is listed, and nothing else.** -/
theorem changes_perform (budget : Nat) (s : Session) (step : Step) :
    s.Changes budget step (s.perform budget step).2 := by
  unfold perform
  cases step with
  | create handle => exact .create
  | share handle other =>
    simp only [perform?, bind, Option.bind]
    cases henv : s.handles.get? handle with
    | none => exact .nothing
    | some env => exact .share henv
  | drop handle => exact .drop
  | set handle name operand =>
    simp only [perform?, bind, Option.bind]
    cases henv : s.handles.get? handle with
    | none => exact .nothing
    | some env =>
      cases hvalue : s.resolve operand with
      | none => exact .nothing
      | some value => exact .set henv hvalue
  | get handle | size handle | snapshot handle | outline handle | eval handle | test handle =>
    simp only [perform?, bind, Option.bind]
    cases s.handles.get? handle <;> exact .nothing
  | same handle other =>
    simp only [perform?, bind, Option.bind]
    cases s.handles.get? handle with
    | none => exact .nothing
    | some env => cases s.handles.get? other <;> exact .nothing
  | hold operand key =>
    simp only [perform?, bind, Option.bind]
    cases hvalue : s.resolve operand with
    | none => exact .nothing
    | some value => exact .hold hvalue
  | describe operand | inspect operand =>
    simp only [perform?, bind, Option.bind]
    cases s.resolve operand <;> exact .nothing
  | equal left right =>
    simp only [perform?, bind, Option.bind]
    cases s.resolve left with
    | none => exact .nothing
    | some a => cases s.resolve right <;> exact .nothing
  | call operand =>
    simp only [perform?, bind, Option.bind]
    cases hvalue : s.resolve operand with
    | none => exact .nothing
    | some value =>
      cases value with
      | function f =>
        have hcall : (s.callValue budget (.function f)).2 = (s.act (f.call budget)).2 := rfl
        rw [act_snd] at hcall
        by_cases halive : s.world.store.isAlive f.home
        · rw [Function.leaves_call, if_pos halive] at hcall
          exact hcall ▸ .call hvalue halive
        · rw [Function.leaves_call, if_neg halive] at hcall
          exact hcall ▸ .nothing
      | integer | string | boolean => exact .nothing
  | exec handle code =>
    simp only [perform?, bind, Option.bind]
    cases henv : s.handles.get? handle with
    | none => exact .nothing
    | some env =>
      simp only [execIn]
      cases hload : s.load code with
      | error error => exact .nothing
      | ok loaded =>
        obtain ⟨body, s'⟩ := loaded
        obtain ⟨next, rfl⟩ := eq_of_load hload
        have hact := act_snd { s with nextLabel := next }
          ((body.exec budget env).mapError RunError.runtime)
        rw [Action.leaves_mapError] at hact
        exact hact ▸ .exec henv hload
  | run handle code =>
    simp only [perform?, runAs]
    cases hload : s.load code with
    | error error => exact .nothing
    | ok loaded =>
      obtain ⟨body, s'⟩ := loaded
      obtain ⟨next, rfl⟩ := eq_of_load hload
      simp only [act, Action.mapError]
      cases hrun : body.run budget s.world with
      | ok env w => exact .run hload hrun
      | error stop w => cases stop <;> exact .runFails hload hrun

/-- The session after a history: steps in turn, each with the budget for what it runs. -/
def after (s : Session) (history : List (Nat × Step)) : Session :=
  history.foldl (fun s (budget, step) => (s.perform budget step).2) s

end Session

end Cam
