import Cam.Program.Run

/-!
# Session — a host that works with environments through handles

A host program holds environments by named handles and values by keys.  Several handles may refer
to one environment, which lives as long as one of them does; values kept by the host, and the
functions among them, keep no environment alive.

`Session.perform` takes one step.  A step that names a handle, a variable or a key that is not
there is answered by `missing` and changes nothing.
-/

namespace Cam

/-- What a host works with. -/
structure Session where
  world : World
  /-- The environments, by handle. -/
  handles : Dict EnvId
  /-- The kept values, by key. -/
  held : Dict Value
  /-- The first number for a function declaration that is still free. -/
  nextLabel : Nat

/-- Where a step takes a value from. -/
inductive Operand where
  | constant (value : Value)
  /-- The variable of an environment. -/
  | variable (handle name : String)
  /-- A kept value. -/
  | held (key : String)

/-- A program, ready or in writing. -/
inductive Code where
  | tree (program : Program)
  | source (text : String)

/-- What a host can do. -/
inductive Step where
  /-- A new environment under the handle. -/
  | create (handle : String)
  /-- A second handle to the same environment. -/
  | share (handle other : String)
  | drop (handle : String)
  | set (handle name : String) (value : Operand)
  | get (handle name : String)
  | size (handle : String)
  | snapshot (handle : String)
  /-- The variables with the shapes of their values. -/
  | outline (handle : String)
  /-- Whether two handles refer to one environment. -/
  | same (handle other : String)
  | hold (value : Operand) (key : String)
  | describe (value : Operand)
  | equal (left right : Operand)
  /-- What there is to know about a function. -/
  | inspect (value : Operand)
  | call (value : Operand)
  /-- Runs a program against an environment. -/
  | exec (handle : String) (code : Code)
  /-- Runs a program against a new environment, which the handle then refers to. -/
  | run (handle : String) (code : Code)
  | eval (handle : String) (e : Expr)
  | test (handle : String) (c : Condition)

/-- How a part of a run ended. -/
abbrev Ending (ε α : Type) := Except (Stop ε) α

/-- The answer to a step. -/
inductive Answer where
  | missing
  | done
  /-- Whether the handle to be dropped was there. -/
  | dropped (existed : Bool)
  | variables (bindings : Bindings)
  | value (value : Option Value)
  | size (count : Nat)
  | text (text : String)
  | truth (holds : Bool)
  /-- A function, whether its environment is still there, and the handles to that. -/
  | function (f : Function) (alive : Bool) (handles : List String)
  /-- Not a function. -/
  | kind (kind : Kind)
  | called (ending : Ending RuntimeError Unit)
  | executed (ending : Ending RunError Unit) (bindings : Bindings)
  | ran (ending : Ending RunError Bindings)
  | evaluated (ending : Ending RuntimeError Value)

namespace Session

/-- A session on these streams, without environments and values. -/
def start (input : Input) (output : Output) : Session := ⟨.start input output, .empty, .empty, 0⟩

/-! ## Handles -/

/-- The handles that refer to an environment. -/
def handlesTo (s : Session) (env : EnvId) : List String :=
  (s.handles.entries.filter (·.2 = env)).map Prod.fst

/-- Drops the environment if no handle refers to it. -/
def release (s : Session) (env : EnvId) : Session :=
  if (s.handlesTo env).isEmpty then
    { s with world := { s.world with store := s.world.store.drop env } }
  else s

/-- Drops a handle, and with the last handle the environment. -/
def dropHandle (s : Session) (handle : String) : Session :=
  match s.handles.get? handle with
  | none => s
  | some env => { s with handles := s.handles.erase handle }.release env

/-- Lets a handle refer to an environment; what it referred to before is dropped if this was its
last handle. -/
def setHandle (s : Session) (handle : String) (env : EnvId) : Session :=
  let s' := { s with handles := s.handles.insert handle env }
  match s.handles.get? handle with
  | none => s'
  | some old => s'.release old

/-! ## Values and programs -/

/-- The value an operand stands for. -/
def resolve (s : Session) : Operand → Option Value
  | .constant value => some value
  | .variable handle name => do
    let env ← s.handles.get? handle
    (s.world.store.scope env).get? name
  | .held key => s.held.get? key

/-- Takes a program up, with its function declarations numbered afresh. -/
def load (s : Session) : Code → Except RunError (Stmt Nat × Session)
  | .tree program =>
    let (body, next) := program.number s.nextLabel
    .ok (body, { s with nextLabel := next })
  | .source text => do
    let program ← Program.ofSource text
    let (body, next) := program.number s.nextLabel
    return (body, { s with nextLabel := next })

/-- Performs an action on the session's world. -/
def act {ε α : Type} (s : Session) (action : Action ε α) : Ending ε α × Session :=
  match action s.world with
  | .ok value world => (.ok value, { s with world := world })
  | .error stop world => (.error stop, { s with world := world })

/-! ## Steps -/

/-- Executes a program against an environment. -/
def execIn (budget : Nat) (s : Session) (env : EnvId) (code : Code) : Answer × Session :=
  match s.load code with
  | .error error => (.executed (.error (.failed error)) (s.world.store.scope env), s)
  | .ok (body, s) =>
    let (ending, s) := s.act ((body.exec budget env).mapError RunError.runtime)
    (.executed ending (s.world.store.scope env), s)

/-- Runs a program against a new environment. -/
def runAs (budget : Nat) (s : Session) (handle : String) (code : Code) : Answer × Session :=
  match s.load code with
  | .error error => (.ran (.error (.failed error)), s)
  | .ok (body, s) =>
    match s.act ((body.run budget).mapError RunError.runtime) with
    | (.ok env, s) => (.ran (.ok (s.world.store.scope env)), s.setHandle handle env)
    | (.error stop, s) => (.ran (.error stop), s)

/-- What there is to know about a value as a function. -/
def inspectValue (s : Session) : Value → Answer
  | .function f => .function f (s.world.store.isAlive f.home) (s.handlesTo f.home)
  | value => .kind value.kind

/-- Calls a value, if it is a function. -/
def callValue (budget : Nat) (s : Session) : Value → Answer × Session
  | .function f =>
    let (ending, s) := s.act (f.call budget)
    (.called ending, s)
  | value => (.kind value.kind, s)

/-- The step, where everything that it names is there. -/
def perform? (budget : Nat) (s : Session) : Step → Option (Answer × Session)
  | .create handle =>
    let env := s.world.store.next
    let s := { s with world := { s.world with store := s.world.store.create } }
    some (.done, s.setHandle handle env)
  | .share handle other => do
    let env ← s.handles.get? handle
    return (.done, s.setHandle other env)
  | .drop handle => some (.dropped (s.handles.get? handle).isSome, s.dropHandle handle)
  | .set handle name operand => do
    let env ← s.handles.get? handle
    let value ← s.resolve operand
    let store := s.world.store.set env name value
    return (.variables (store.scope env), { s with world := { s.world with store := store } })
  | .get handle name => do
    let env ← s.handles.get? handle
    return (.value ((s.world.store.scope env).get? name), s)
  | .size handle => do
    let env ← s.handles.get? handle
    return (.size (s.world.store.scope env).size, s)
  | .snapshot handle => do
    let env ← s.handles.get? handle
    return (.variables (s.world.store.scope env), s)
  | .outline handle => do
    let env ← s.handles.get? handle
    return (.text (s.world.store.scope env).description, s)
  | .same handle other => do
    let env ← s.handles.get? handle
    let env' ← s.handles.get? other
    return (.truth (env = env'), s)
  | .hold operand key => do
    let value ← s.resolve operand
    return (.value (some value), { s with held := s.held.insert key value })
  | .describe operand => do
    let value ← s.resolve operand
    return (.value (some value), s)
  | .equal left right => do
    let a ← s.resolve left
    let b ← s.resolve right
    return (.truth (a.equal b), s)
  | .inspect operand => do
    let value ← s.resolve operand
    return (s.inspectValue value, s)
  | .call operand => do
    let value ← s.resolve operand
    return s.callValue budget value
  | .exec handle code => do
    let env ← s.handles.get? handle
    return s.execIn budget env code
  | .run handle code => some (s.runAs budget handle code)
  | .eval handle e => do
    let env ← s.handles.get? handle
    return (.evaluated ((e.eval (s.world.store.scope env)).mapError .failed), s)
  | .test handle c => do
    let env ← s.handles.get? handle
    return (.evaluated (((c.eval (s.world.store.scope env)).map Value.boolean).mapError .failed), s)

/-- Takes one step. -/
def perform (budget : Nat) (s : Session) (step : Step) : Answer × Session :=
  (s.perform? budget step).getD (.missing, s)

end Session

end Cam
