import Cam.Proofs.Program.Comparison
import Cam.Proofs.Session.Lifetime

/-!
# Proofs/Session/Sharing — handles share environments, and environments share nothing

What a host may expect of its handles can be told from its steps alone: which environment a handle
refers to (`Session.referent`) and which value was last set for a name there, through whichever
handle (`Session.lastSet`).  As long as the host runs no program, a session agrees with this account
after every step (`Session.Agrees.perform`), and so does all that it answers
(`Session.bindings_shared`).
-/

namespace Cam

/-- Whether the step runs a program or a function. -/
def Step.runs : Step → Bool
  | .call _ | .exec _ _ | .run _ _ => true
  | _ => false

/-! ## What the steps say by themselves

The steps that were taken are listed from the last one back, so that what was set last comes first.
-/

/-- The value of an operand, by what handles refer to, what is bound and what is kept. -/
def Operand.worth (refers : String → Option EnvId) (bound : EnvId → String → Option Value)
    (kept : String → Option Value) : Operand → Option Value
  | .constant value => some value
  | .variable handle name => (refers handle).bind (bound · name)
  | .held key => kept key

namespace Session

/-- The number of environments that were created. -/
def creations : List Step → Nat
  | [] => 0
  | .create _ :: past => creations past + 1
  | _ :: past => creations past

/-- The environment that a handle refers to: the one that it was last created for or shared with,
unless it was dropped since. -/
def referent : List Step → String → Option EnvId
  | [], _ => none
  | .create other :: past, handle =>
    if other = handle then some ⟨creations past⟩ else referent past handle
  | .share source other :: past, handle =>
    if other = handle then (referent past source).or (referent past handle)
    else referent past handle
  | .drop other :: past, handle => if other = handle then none else referent past handle
  | _ :: past, handle => referent past handle

mutual

/-- The value that was last set for the name through any handle to the environment. -/
def lastSet : List Step → EnvId → String → Option Value
  | [], _, _ => none
  | .set handle other operand :: past, env, name =>
    if referent past handle = some env ∧ other = name then
      (operand.worth (referent past) (lastSet past) (lastKept past)).or (lastSet past env name)
    else lastSet past env name
  | _ :: past, env, name => lastSet past env name

/-- The value that was last kept under the key. -/
def lastKept : List Step → String → Option Value
  | [], _ => none
  | .hold operand other :: past, key =>
    if other = key then
      (operand.worth (referent past) (lastSet past) (lastKept past)).or (lastKept past key)
    else lastKept past key
  | _ :: past, key => lastKept past key

end

/-- The value of an operand after the steps. -/
def worth (past : List Step) (operand : Operand) : Option Value :=
  operand.worth (referent past) (lastSet past) (lastKept past)

section Account

variable {past : List Step} {env : EnvId}

/-- A handle refers to an environment that was created. -/
theorem index_lt_of_referent {handle : String} (h : referent past handle = some env) :
    env.index < creations past := by
  induction past generalizing handle with
  | nil => cases h
  | cons step past ih =>
    cases step with
    | create other =>
      rw [referent] at h
      split at h
      next =>
        cases h
        exact Nat.lt_succ_self _
      next => exact Nat.lt_succ_of_lt (ih h)
    | share source other =>
      rw [referent] at h
      split at h
      next =>
        rcases Option.or_eq_some_iff.1 h with h | ⟨-, h⟩
        · exact ih h
        · exact ih h
      next => exact ih h
    | drop other =>
      rw [referent] at h
      split at h
      next => cases h
      next => exact ih h
    | _ => exact ih h

/-- In an environment that is still to be created nothing was set. -/
theorem lastSet_of_le (h : creations past ≤ env.index) (name : String) :
    lastSet past env name = none := by
  induction past with
  | nil => rfl
  | cons step past ih =>
    cases step with
    | create other => exact ih (Nat.le_of_succ_le h)
    | set handle other operand =>
      have hne : referent past handle ≠ some env := fun hsome =>
        absurd (index_lt_of_referent hsome) (Nat.not_lt.2 h)
      rw [lastSet, if_neg fun hset => hne hset.1]
      exact ih h
    | _ => exact ih h

end Account

/-! ## What a change of handles does to the store -/

/-- Some environments may be gone, and the others are as they were. -/
structure Thins (s s' : Session) : Prop where
  size : s'.world.store.cells.size = s.world.store.cells.size
  bound : ∀ {env bindings}, s'.world.store.get? env = some bindings →
    s.world.store.get? env = some bindings
  held : s'.held = s.held

theorem thins_release (s : Session) (env : EnvId) : s.Thins (s.release env) := by
  unfold release
  split
  next =>
    refine ⟨Array.size_modify, fun {other bindings} hget => ?_, rfl⟩
    rw [Store.get?_drop] at hget
    split at hget
    next => cases hget
    next => exact hget
  next => exact ⟨rfl, id, rfl⟩

theorem thins_setHandle (s : Session) (handle : String) (env : EnvId) :
    s.Thins (s.setHandle handle env) := by
  unfold setHandle
  split
  next => exact ⟨rfl, id, rfl⟩
  next old _ =>
    have h := thins_release { s with handles := s.handles.insert handle env } old
    exact ⟨h.size, h.bound, h.held⟩

theorem thins_dropHandle (s : Session) (handle : String) : s.Thins (s.dropHandle handle) := by
  unfold dropHandle
  split
  next => exact ⟨rfl, id, rfl⟩
  next env _ =>
    have h := thins_release { s with handles := s.handles.erase handle } env
    exact ⟨h.size, h.bound, h.held⟩

@[simp] theorem handles_release (s : Session) (env : EnvId) :
    (s.release env).handles = s.handles := by
  unfold release
  split <;> rfl

theorem get?_handles_setHandle (s : Session) (handle : String) (env : EnvId) (other : String) :
    (s.setHandle handle env).handles.get? other =
      if handle = other then some env else s.handles.get? other := by
  rw [← Dict.get?_insert]
  unfold setHandle
  split
  next => rfl
  next => rw [handles_release]

theorem get?_handles_dropHandle (s : Session) (handle other : String) :
    (s.dropHandle handle).handles.get? other =
      if handle = other then none else s.handles.get? other := by
  unfold dropHandle
  split
  next hnone =>
    split
    next heq => exact heq ▸ hnone
    next => rfl
  next => rw [handles_release, Dict.get?_erase]

/-! ## A session agrees with the account of its steps -/

/-- The session has the environments, the bindings and the kept values that the steps say. -/
structure Agrees (past : List Step) (s : Session) : Prop where
  size : s.world.store.cells.size = creations past
  handles : ∀ handle, s.handles.get? handle = referent past handle
  bound : ∀ {env bindings}, s.world.store.get? env = some bindings →
    ∀ name, bindings.get? name = lastSet past env name
  kept : ∀ key, s.held.get? key = lastKept past key

namespace Agrees

variable {past : List Step} {s s' : Session}

theorem start (input : Input) (output : Output) : Agrees [] (start input output) where
  size := rfl
  handles _ := rfl
  bound hget := nomatch (Store.get?_empty _).symm.trans hget
  kept _ := rfl

/-- The variables of an environment with a handle are what was set in it. -/
theorem get?_scope (h : Agrees past s) (hs : s.Tended) {handle : String} {env : EnvId}
    (henv : referent past handle = some env) (name : String) :
    (s.world.store.scope env).get? name = lastSet past env name := by
  have halive : s.world.store.isAlive env := (hs env).2 ⟨handle, (h.handles handle).trans henv⟩
  obtain ⟨bindings, hget⟩ := Option.isSome_iff_exists.1 halive
  rw [Store.scope, hget]
  exact h.bound hget name

/-- **An operand stands for its value by the account.** -/
theorem resolve_eq (h : Agrees past s) (hs : s.Tended) (operand : Operand) :
    s.resolve operand = worth past operand := by
  cases operand with
  | constant value => rfl
  | «variable» handle name =>
    change (s.handles.get? handle).bind (fun env => (s.world.store.scope env).get? name) =
      (referent past handle).bind fun env => lastSet past env name
    rw [h.handles]
    exact Option.bind_congr fun env henv => h.get?_scope hs henv name
  | held key => exact h.kept key

/-! ### One step -/

/-- A change of handles alone, seen from before the change. -/
theorem thin {past' : List Step} (h : Agrees past s) (hthin : s.Thins s')
    (hhandles : ∀ handle, s'.handles.get? handle = referent past' handle)
    (hsize : creations past' = creations past) (hset : lastSet past' = lastSet past)
    (hkept : lastKept past' = lastKept past) : Agrees past' s' where
  size := hthin.size.trans (h.size.trans hsize.symm)
  handles := hhandles
  bound hget name := (h.bound (hthin.bound hget) name).trans (by rw [hset])
  kept key := by rw [hthin.held, hkept, h.kept]

theorem share (h : Agrees past s) {handle : String} {env : EnvId}
    (henv : s.handles.get? handle = some env) (other : String) :
    Agrees (.share handle other :: past) (s.setHandle other env) := by
  refine h.thin (s.thins_setHandle other env) (fun name => ?_) rfl rfl rfl
  rw [get?_handles_setHandle, referent, ← h.handles handle, henv, Option.some_or, h.handles]

theorem drop (h : Agrees past s) (handle : String) :
    Agrees (.drop handle :: past) (s.dropHandle handle) := by
  refine h.thin (s.thins_dropHandle handle) (fun name => ?_) rfl rfl rfl
  rw [get?_handles_dropHandle, referent, h.handles]

theorem create (h : Agrees past s) (handle : String) :
    Agrees (.create handle :: past)
      ({ s with world := { s.world with store := s.world.store.create } }.setHandle handle
        s.world.store.next) := by
  have hnext : s.world.store.next = ⟨creations past⟩ := congrArg EnvId.mk h.size
  have hthin := thins_setHandle
    { s with world := { s.world with store := s.world.store.create } } handle s.world.store.next
  constructor
  · rw [hthin.size, Store.create, Array.size_push, h.size]
    rfl
  · intro other
    rw [get?_handles_setHandle, referent, hnext, h.handles]
  · intro env bindings hget name
    have hcreated := hthin.bound hget
    rw [Store.get?_create] at hcreated
    split at hcreated
    next heq =>
      cases hcreated
      obtain rfl : env = ⟨creations past⟩ := heq.trans hnext
      exact (lastSet_of_le (Nat.le_refl _) name).symm
    next => exact h.bound hcreated name
  · intro key
    rw [hthin.held]
    exact h.kept key

/-- What is set is there, in the environment of the handle and under the name. -/
theorem set (h : Agrees past s) (hs : s.Tended) {handle name : String} {operand : Operand}
    {env : EnvId} {value : Value} (henv : s.handles.get? handle = some env)
    (hvalue : s.resolve operand = some value) :
    Agrees (.set handle name operand :: past)
      { s with world := { s.world with store := s.world.store.set env name value } } := by
  rw [h.handles] at henv
  rw [h.resolve_eq hs, worth] at hvalue
  refine ⟨?_, h.handles, fun {other bindings} hget name' => ?_, h.kept⟩
  · exact Array.size_modify.trans h.size
  · rw [lastSet, henv, hvalue, Option.some_or]
    replace hget : (s.world.store.set env name value).get? other = some bindings := hget
    rw [Store.get?_set] at hget
    split at hget
    next heq =>
      obtain ⟨before, hbefore, rfl⟩ := Option.map_eq_some_iff.1 hget
      subst heq
      rw [Dict.get?_insert, h.bound hbefore]
      simp
    next hne =>
      have hother : ¬(some env = some other ∧ name = name') := fun heq =>
        hne (Option.some.inj heq.1).symm
      rw [if_neg hother]
      exact h.bound hget name'

theorem hold (h : Agrees past s) (hs : s.Tended) {operand : Operand} {value : Value}
    (hvalue : s.resolve operand = some value) (key : String) :
    Agrees (.hold operand key :: past) { s with held := s.held.insert key value } := by
  rw [h.resolve_eq hs, worth] at hvalue
  refine ⟨h.size, h.handles, h.bound, fun key' => ?_⟩
  rw [Dict.get?_insert, lastKept, hvalue, Option.some_or, h.kept]

/-- **After every step that runs no program the session agrees with the account.**  Steps that only
ask change nothing. -/
theorem perform (h : Agrees past s) (hs : s.Tended) {step : Step} (hstep : step.runs = false)
    (budget : Nat) : Agrees (step :: past) (s.perform budget step).2 := by
  have hchanges := changes_perform budget s step
  cases step with
  | create handle => exact h.create handle
  | share handle other =>
    simp only [Session.perform, perform?, bind, Option.bind]
    cases henv : s.handles.get? handle with
    | some env => exact h.share henv other
    | none =>
      refine ⟨h.size, fun name => ?_, h.bound, h.kept⟩
      rw [referent, ← h.handles handle, henv, Option.none_or, ite_self]
      exact h.handles name
  | drop handle => exact h.drop handle
  | set handle name operand =>
    simp only [Session.perform, perform?, bind, Option.bind]
    cases henv : s.handles.get? handle with
    | none =>
      refine ⟨h.size, h.handles, fun {env bindings} hget name' => ?_, h.kept⟩
      rw [lastSet, ← h.handles, henv, if_neg fun heq => Option.some_ne_none env heq.1.symm]
      exact h.bound hget name'
    | some env =>
      cases hvalue : s.resolve operand with
      | some value => exact h.set hs henv hvalue
      | none =>
        refine ⟨h.size, h.handles, fun hget name' => ?_, h.kept⟩
        rw [h.resolve_eq hs, worth] at hvalue
        rw [lastSet, hvalue, Option.none_or, ite_self]
        exact h.bound hget name'
  | hold operand key =>
    simp only [Session.perform, perform?, bind, Option.bind]
    cases hvalue : s.resolve operand with
    | some value => exact h.hold hs hvalue key
    | none =>
      refine ⟨h.size, h.handles, h.bound, fun key' => ?_⟩
      rw [h.resolve_eq hs, worth] at hvalue
      rw [lastKept, hvalue, Option.none_or, ite_self]
      exact h.kept key'
  | call | exec | run => cases hstep
  | get | size | snapshot | outline | same | describe | equal | inspect | eval | test =>
    generalize (s.perform budget _).2 = s' at hchanges ⊢
    cases hchanges
    exact ⟨h.size, h.handles, h.bound, h.kept⟩

/-- **A session that has run no program agrees with the account of its history.** -/
theorem after (h : Agrees past s) (hs : s.Tended) {history : List (Nat × Step)}
    (hhistory : ∀ entry ∈ history, entry.2.runs = false) :
    Agrees ((history.map Prod.snd).reverse ++ past) (s.after history) := by
  induction history generalizing s past with
  | nil => exact h
  | cons entry history ih =>
    obtain ⟨budget, step⟩ := entry
    obtain ⟨hstep, hhistory⟩ := List.forall_mem_cons.1 hhistory
    rw [List.map_cons, List.reverse_cons, List.append_assoc]
    exact ih (h.perform hs hstep budget) ((changes_perform budget s step).tended hs) hhistory

/-! ### Answers -/

section Answers

variable (h : Agrees past s) {handle : String} {env : EnvId}
  (henv : referent past handle = some env)

include h henv

theorem perform_get (hs : s.Tended) (budget : Nat) (name : String) :
    s.perform budget (.get handle name) = (.value (lastSet past env name), s) := by
  rw [← h.get?_scope hs henv name]
  simp only [Session.perform, perform?, h.handles, henv]
  rfl

theorem perform_snapshot (budget : Nat) :
    s.perform budget (.snapshot handle) = (.variables (s.world.store.scope env), s) := by
  simp only [Session.perform, perform?, h.handles, henv]
  rfl

theorem perform_size (budget : Nat) :
    s.perform budget (.size handle) = (.size (s.world.store.scope env).entries.length, s) := by
  simp only [Session.perform, perform?, h.handles, henv]
  rfl

theorem perform_same (budget : Nat) {other : String} {env' : EnvId}
    (henv' : referent past other = some env') :
    s.perform budget (.same handle other) = (.truth (env = env'), s) := by
  simp only [Session.perform, perform?, h.handles, henv, henv']
  rfl

/-- **What is set through one handle is seen through every handle to the same environment**, and
through no other. -/
theorem perform_get_set (hs : s.Tended) (budget : Nat) {other : String} {env' : EnvId}
    (henv' : referent past other = some env') (name' : String) (value : Value) (name : String) :
    ((s.perform budget (.set other name' (.constant value))).2.perform budget
        (.get handle name)).1 =
      .value (if env' = env ∧ name' = name then some value else lastSet past env name) := by
  have hset : Agrees (.set other name' (.constant value) :: past) _ := h.perform hs rfl budget
  rw [hset.perform_get henv ((changes_perform budget s _).tended hs), lastSet, henv']
  simp only [Option.some_inj]
  rfl

end Answers

end Agrees

/-- **Environments are finite maps that their handles share.**  After every history in which no
program runs, be the environments created, shared, dropped and set in any order:

* the environments that are there are those that some handle refers to;
* a handle answers to every name with the value that was last set for it, through whichever handle
  to the environment, and with none if there was no such step;
* its variables are listed in the order of their code points, each with that value and no other, and
  there are as many as it counts;
* it is the same as another one exactly if both refer to one environment;
* a value that is set is then seen through all handles to that environment, and changes no other
  name and no other environment. -/
theorem bindings_shared (input : Input) (output : Output) {history : List (Nat × Step)}
    (hhistory : ∀ entry ∈ history, entry.2.runs = false) :
    let s := (start input output).after history
    let past := (history.map Prod.snd).reverse
    (∀ env, s.world.store.isAlive env ↔ ∃ handle, referent past handle = some env) ∧
    ∀ handle env, referent past handle = some env → ∀ budget,
      (∀ name, s.perform budget (.get handle name) = (.value (lastSet past env name), s)) ∧
      (∃ bindings, s.perform budget (.snapshot handle) = (.variables bindings, s) ∧
        (∀ name value, (name, value) ∈ bindings.entries ↔ lastSet past env name = some value) ∧
        (bindings.entries.map fun entry => Text.scalars entry.1).Pairwise (· < ·) ∧
        s.perform budget (.size handle) = (.size bindings.entries.length, s)) ∧
      ∀ other env', referent past other = some env' →
        s.perform budget (.same handle other) = (.truth (env = env'), s) ∧
        ∀ name' value name,
          ((s.perform budget (.set other name' (.constant value))).2.perform budget
            (.get handle name)).1 =
          .value (if env' = env ∧ name' = name then some value else lastSet past env name) := by
  intro s past
  have hs : s.Tended := (tended_start input output).after history
  have h : Agrees past s := by
    have hafter := (Agrees.start input output).after (tended_start input output) hhistory
    rwa [List.append_nil] at hafter
  refine ⟨fun env => ?_, fun handle env henv budget => ⟨h.perform_get henv hs budget, ?_, ?_⟩⟩
  · rw [hs env]
    simp only [h.handles]
  · refine ⟨_, h.perform_snapshot henv budget, fun name value => ?_, ?_, h.perform_size henv budget⟩
    · rw [Dict.mem_entries_iff, h.get?_scope hs henv]
    · exact List.pairwise_map.2 ((Dict.sorted _).imp Text.scalars_lt_iff.2)
  · exact fun other env' henv' => ⟨h.perform_same henv budget henv',
      h.perform_get_set henv hs budget henv'⟩

/-- Two handles to one environment, of which the first is dropped, and one to another environment.
-/
def aliased : List (Nat × Step) :=
  [(0, .create "a"), (0, .share "a" "b"), (0, .create "c"),
    (0, .set "b" "x" (.constant (.integer 1))), (0, .set "c" "x" (.constant (.string "one"))),
    (0, .set "a" "é" (.variable "c" "x")), (0, .set "a" "x" (.constant (.integer 2))),
    (0, .drop "a")]

theorem bindings_shared_aliased :
    (∀ entry ∈ aliased, entry.2.runs = false) ∧
    let s := (start (.ofBytes []) .unlimited).after aliased
    (∀ budget, s.perform budget (.get "b" "x") = (.value (some (.integer 2)), s)) ∧
    (∀ budget, s.perform budget (.get "b" "é") = (.value (some (.string "one")), s)) ∧
    (∀ budget, s.perform budget (.same "b" "c") = (.truth false, s)) ∧
    ∀ budget, ((s.perform budget (.set "c" "x" (.constant (.boolean true)))).2.perform budget
      (.get "b" "x")).1 = .value (some (.integer 2)) := by
  have hquiet : ∀ entry ∈ aliased, entry.2.runs = false := by decide
  let past := (aliased.map Prod.snd).reverse
  have hb : referent past "b" = some ⟨0⟩ := by decide +kernel
  have hc : referent past "c" = some ⟨1⟩ := by decide +kernel
  have hx : lastSet past ⟨0⟩ "x" = some (.integer 2) := by decide +kernel
  have haccent : lastSet past ⟨0⟩ "é" = some (.string "one") := by decide +kernel
  have hshared := (bindings_shared (.ofBytes []) .unlimited hquiet).2 "b" ⟨0⟩ hb
  refine ⟨hquiet, fun budget => ?_, fun budget => ?_, fun budget => ?_, fun budget => ?_⟩
  · exact hx ▸ (hshared budget).1 "x"
  · exact haccent ▸ (hshared budget).1 "é"
  · exact ((hshared budget).2.2 "c" ⟨1⟩ hc).1
  · exact hx ▸ ((hshared budget).2.2 "c" ⟨1⟩ hc).2 "x" (.boolean true) "x"

end Session

end Cam
