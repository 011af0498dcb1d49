import Cam.Program.Eval
import Cam.Store
import Cam.Stream

/-!
# Program/Exec — running statements

A run changes a `World`: the environments, the input and the output.  Statements run against one
environment; a call runs the body of a function against the environment it was declared in.

Nothing bounds the rounds of a `while` loop or the depth of calls, so a run has a budget: nesting
and rounds each stay within it, or the run stops as exhausted.
-/

namespace Cam

/-- What a run changes. -/
structure World where
  store : Store
  input : Input
  output : Output

/-- Why a run did not end well. -/
inductive Stop (ε : Type) where
  | failed (error : ε)
  /-- The budget was too small to tell. -/
  | exhausted
  deriving DecidableEq

/-- A part of a run: it changes the world, also where it stops early. -/
abbrev Action (ε : Type) : Type → Type := EStateM (Stop ε) World

namespace Action

/-- Stops with an error. -/
def fail {ε α : Type} (error : ε) : Action ε α := throw (.failed error)

/-- Stops for want of budget. -/
def exhaust {ε α : Type} : Action ε α := throw .exhausted

/-- The same action with its errors seen as others. -/
def mapError {ε ε' α : Type} (f : ε → ε') (a : Action ε α) : Action ε' α := fun w =>
  match a w with
  | .ok value w => .ok value w
  | .error (.failed error) w => .error (.failed (f error)) w
  | .error .exhausted w => .error .exhausted w

/-- An action that only looks at the variables of an environment. -/
def reading {α : Type} (env : EnvId) (f : Bindings → Except RuntimeError α) :
    Action RuntimeError α := fun w =>
  match f (w.store.scope env) with
  | .ok value => .ok value w
  | .error error => .error (.failed error) w

/-- Sets a variable. -/
def assign (env : EnvId) (name : String) (value : Value) : Action RuntimeError Unit :=
  modify fun ⟨store, input, output⟩ => ⟨store.set env name value, input, output⟩

/-- Writes a line. -/
def writeLine (text : String) : Action RuntimeError Unit := fun ⟨store, input, output⟩ =>
  match output.write (text ++ "\n").toUTF8 with
  | (none, output) => .ok () ⟨store, input, output⟩
  | (some fault, output) => .error (.failed (.stream fault)) ⟨store, input, output⟩

/-- Reads a line as a value for the variable of that name. -/
def readValue (name : String) : Action RuntimeError Value := fun ⟨store, input, output⟩ =>
  match input.readLine with
  | (.ok (some line), input) => .ok (.ofLine line) ⟨store, input, output⟩
  | (.ok none, input) => .error (.failed (.endOfInput name)) ⟨store, input, output⟩
  | (.error fault, input) => .error (.failed (.stream fault)) ⟨store, input, output⟩

/-- Hands on what was written. -/
def flush : Action RuntimeError Unit := fun w =>
  match w.output.flush with
  | none => .ok () w
  | some fault => .error (.failed (.stream fault)) w

/-- Creates an environment. -/
def createEnv {ε : Type} : Action ε EnvId := fun ⟨store, input, output⟩ =>
  .ok store.next ⟨store.create, input, output⟩

/-- Drops an environment. -/
def dropEnv {ε : Type} (env : EnvId) : Action ε Unit :=
  modify fun ⟨store, input, output⟩ => ⟨store.drop env, input, output⟩

/-! ## Loops -/

/-- Repeats `body` while `test` says so, each round taking one off the budget. -/
def whileLoop (test : Action RuntimeError Bool) (body : Action RuntimeError Unit) :
    (budget : Nat) → Action RuntimeError Unit
  | 0 => exhaust
  | budget + 1 => do
    if ← test then
      body
      whileLoop test body budget

/-- Runs `body` for `count` integers in a row, from `first` on. -/
def forLoop (body : Int64 → Action RuntimeError Unit) :
    (count : Nat) → (first : Int64) → Action RuntimeError Unit
  | 0, _ => pure ()
  | count + 1, first => do
    body first
    forLoop body count (first + 1)

end Action

namespace Stmt

variable {ℓ : Type}

/-! ## Sequences

Long programs are deep trees, one level for each semicolon, so a sequence is walked with a list of
the statements still to run. -/

/-- The number of single statements in a sequence, and of the joints between them. -/
def spread : Stmt ℓ → Nat
  | .seq first second => first.spread + second.spread + 1
  | _ => 1

theorem spread_pos (s : Stmt ℓ) : 0 < s.spread := by cases s <;> simp [spread]

/-- The same over several sequences. -/
def spreadAll : List (Stmt ℓ) → Nat
  | [] => 0
  | s :: rest => s.spread + spreadAll rest

/-- Runs `single` on the pending statements from left to right, taking sequences apart. -/
def walk (single : Stmt ℓ → Action RuntimeError Unit) (pending : List (Stmt ℓ)) :
    Action RuntimeError Unit :=
  match pending with
  | [] => pure ()
  | .seq first second :: rest => walk single (first :: second :: rest)
  | s :: rest => do
    single s
    walk single rest
termination_by spreadAll pending
decreasing_by
  · simp only [spreadAll, spread]
    omega
  · have := s.spread_pos
    simp only [spreadAll]
    omega

end Stmt

/-! ## Statements -/

namespace Action

/-- The integer an end of a counted loop has to be. -/
def loopBound (env : EnvId) (bound : LoopBound) (e : Expr) : Action RuntimeError Int64 := do
  match ← reading env fun scope => e.eval scope with
  | .integer n => pure n
  | value => fail (.expectedInteger bound value.kind)

/-- Runs a function, in the environment it was declared in. -/
def callWith (exec : Stmt Nat → EnvId → Action RuntimeError Unit) (f : Function) :
    Action RuntimeError Unit := do
  if (← get).store.isAlive f.home then exec f.body f.home
  else fail (.environmentDropped f.name)

/-- Runs one statement, with `exec` for the statements inside it and `budget` for the rounds of a
`while` loop.  `Stmt.walk` takes sequences apart before it runs a statement in this way, so the
branch of a sequence is there for completeness only and is never reached from it. -/
def single (exec : Stmt Nat → EnvId → Action RuntimeError Unit) (budget : Nat) (env : EnvId) :
    Stmt Nat → Action RuntimeError Unit
  | .assign name e => do
    let value ← reading env fun scope => e.eval scope
    assign env name value
  | .seq first second => do
    exec first env
    exec second env
  | .print e => do
    let value ← reading env fun scope => e.eval scope
    writeLine value.text
  | .input name => do
    let value ← readValue name
    assign env name value
  | .ifThen cond thenBranch => do
    if ← reading env fun scope => cond.eval scope then exec thenBranch env
  | .ifThenElse cond thenBranch elseBranch => do
    if ← reading env fun scope => cond.eval scope then exec thenBranch env
    else exec elseBranch env
  | .while cond body => whileLoop (reading env fun scope => cond.eval scope) (exec body env) budget
  | .for name start stop body => do
    let first ← loopBound env .start start
    let last ← loopBound env .stop stop
    forLoop (fun i => do assign env name (.integer i); exec body env)
      (last.toInt - first.toInt).toNat first
  | .func label name body => assign env name (.function ⟨name, label, body, env⟩)
  | .call name => do
    match (← get).store.scope env |>.get? name with
    | some (.function f) => callWith exec f
    | some value => fail (.notCallable name value.kind)
    | none => fail (.undefinedFunction name)

end Action

namespace Stmt

/-- Runs a statement against an environment. -/
def exec : (budget : Nat) → Stmt Nat → EnvId → Action RuntimeError Unit
  | 0, _, _ => .exhaust
  | budget + 1, s, env => walk (Action.single (exec budget) budget env) [s]

/-- Runs a statement against an environment of its own, which is dropped again if it fails, and
hands on its output at the end. -/
def run (budget : Nat) (s : Stmt Nat) : Action RuntimeError EnvId := do
  let env ← Action.createEnv
  try
    s.exec budget env
    Action.flush
    pure env
  catch stop =>
    Action.dropEnv env
    throw stop

end Stmt

/-- Runs a function, in the environment it was declared in. -/
def Function.call (budget : Nat) (f : Function) : Action RuntimeError Unit :=
  Action.callWith (Stmt.exec budget) f

end Cam
