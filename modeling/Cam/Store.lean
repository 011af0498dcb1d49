import Cam.Value

/-!
# Store — the environments in use

Environments are numbered in the order of their creation and keep their number for good.  One that
is dropped leaves its number behind, so a function that still names it is found out.
-/

namespace Cam

/-- All environments created so far; a dropped one has no variables any more. -/
structure Store where
  cells : Array (Option Bindings)
  deriving DecidableEq

/-- Environments with the same number are the same. -/
theorem EnvId.eq_of_index {env other : EnvId} (h : env.index = other.index) : env = other := by
  cases env
  cases other
  exact congrArg EnvId.mk h

namespace Store

/-- No environment yet. -/
def empty : Store := ⟨#[]⟩

/-- The variables of an environment, unless it was dropped. -/
def get? (s : Store) (env : EnvId) : Option Bindings := (s.cells[env.index]?).join

/-- The variables of an environment; a dropped one has none. -/
def scope (s : Store) (env : EnvId) : Bindings := (s.get? env).getD .empty

/-- Whether the environment is still there. -/
def isAlive (s : Store) (env : EnvId) : Bool := (s.get? env).isSome

/-- The name the next environment will have. -/
def next (s : Store) : EnvId := ⟨s.cells.size⟩

/-- A new environment without variables. -/
def create (s : Store) : Store := ⟨s.cells.push (some .empty)⟩

/-- Sets a variable of an environment that is still there. -/
def set (s : Store) (env : EnvId) (name : String) (value : Value) : Store :=
  ⟨s.cells.modify env.index fun cell => cell.map (·.insert name value)⟩

/-- Drops an environment. -/
def drop (s : Store) (env : EnvId) : Store := ⟨s.cells.modify env.index fun _ => none⟩

/-! ## What a change does to every environment -/

@[simp] theorem get?_empty (env : EnvId) : empty.get? env = none := by
  simp [get?, empty]

theorem get?_create (s : Store) (env : EnvId) :
    s.create.get? env = if env = s.next then some .empty else s.get? env := by
  by_cases h : env = s.next
  · subst h
    simp [get?, create, next]
  · have hne : env.index ≠ s.cells.size := fun heq => h (EnvId.eq_of_index heq)
    simp [get?, create, h, Array.getElem?_push, hne]

/-- **Setting a variable changes one environment**, and that only if it is still there. -/
theorem get?_set (s : Store) (env : EnvId) (name : String) (value : Value) (other : EnvId) :
    (s.set env name value).get? other =
      if other = env then (s.get? env).map (·.insert name value) else s.get? other := by
  by_cases h : other = env
  · subst h
    simp only [get?, set, Array.getElem?_modify, if_true]
    rcases s.cells[other.index]? with _ | _ | _ <;> rfl
  · have hne : env.index ≠ other.index := fun heq => h (EnvId.eq_of_index heq.symm)
    simp [get?, set, h, Array.getElem?_modify, hne]

/-- Setting a variable neither creates nor drops an environment. -/
@[simp] theorem isAlive_set (s : Store) (env : EnvId) (name : String) (value : Value)
    (other : EnvId) : (s.set env name value).isAlive other = s.isAlive other := by
  rw [isAlive, isAlive, get?_set]
  split
  next h => rw [h, Option.isSome_map]
  next => rfl

/-- A new environment is there, with those there were. -/
theorem isAlive_create (s : Store) (env : EnvId) :
    s.create.isAlive env ↔ env = s.next ∨ s.isAlive env := by
  rw [isAlive, isAlive, get?_create]
  split
  next h => simp [h]
  next h => simp [h]

/-- The name of the next environment is not in use. -/
theorem isAlive_next (s : Store) : s.isAlive s.next = false := by
  simp [isAlive, get?, next]

/-- The variables of an environment that is still there, with one of them set. -/
theorem scope_set_self {s : Store} {env : EnvId} (h : s.isAlive env) (name : String)
    (value : Value) : (s.set env name value).scope env = (s.scope env).insert name value := by
  obtain ⟨bindings, hget⟩ := Option.isSome_iff_exists.1 h
  rw [scope, scope, get?_set, if_pos rfl, hget]
  rfl

/-- **Dropping an environment leaves the others.** -/
theorem get?_drop (s : Store) (env other : EnvId) :
    (s.drop env).get? other = if other = env then none else s.get? other := by
  by_cases h : other = env
  · subst h
    simp only [get?, drop, Array.getElem?_modify, if_true]
    rcases s.cells[other.index]? with _ | _ <;> rfl
  · have hne : env.index ≠ other.index := fun heq => h (EnvId.eq_of_index heq.symm)
    simp [get?, drop, h, Array.getElem?_modify, hne]

/-- A dropped environment is gone, and no other. -/
theorem isAlive_drop (s : Store) (env other : EnvId) :
    (s.drop env).isAlive other ↔ other ≠ env ∧ s.isAlive other := by
  rw [isAlive, isAlive, get?_drop]
  split
  next h => simp [h]
  next h => simp [h]

/-- The variables of the other environments stay as they are. -/
theorem scope_set_of_ne (s : Store) {env other : EnvId} (h : other ≠ env) (name : String)
    (value : Value) : (s.set env name value).scope other = s.scope other := by
  rw [scope, scope, get?_set, if_neg h]

/-- Two variables of an environment can be set in either order. -/
theorem set_comm (s : Store) (env : EnvId) {name name' : String} (hne : name ≠ name')
    (value value' : Value) :
    (s.set env name value).set env name' value' = (s.set env name' value').set env name value := by
  refine congrArg Store.mk (Array.ext_getElem? fun i => ?_)
  simp only [set, Array.getElem?_modify]
  split
  next =>
    rcases s.cells[i]? with _ | _ | bindings
    · rfl
    · rfl
    · exact congrArg (some ∘ some) (bindings.insert_comm hne value value')
  next => rfl

end Store

end Cam
