import Cam.Dict
import Cam.Integer
import Cam.Program.Tree
import Cam.Text.Outline
import Cam.Text.Quoted

/-!
# Value — what variables hold

Integers, strings, truth values and functions.  A function is the declaration it came from (name,
number and body) together with the environment it was declared in; it holds the name of that
environment only, and so does not keep it alive.
-/

namespace Cam

/-- The name of an environment. -/
structure EnvId where
  index : Nat
  deriving DecidableEq

/-- A declared function. -/
structure Function where
  /-- The name it was declared with. -/
  name : String
  /-- The number of its declaration. -/
  label : Nat
  body : Stmt Nat
  /-- The environment it was declared in, which is also the one it runs in. -/
  home : EnvId
  deriving DecidableEq

/-- The kinds of values. -/
inductive Kind where
  | integer
  | string
  | boolean
  | function
  deriving DecidableEq

/-- The kind, as messages name it. -/
def Kind.name : Kind → String
  | .integer => "integer"
  | .string => "string"
  | .boolean => "boolean"
  | .function => "function"

/-- A value. -/
inductive Value where
  | integer (value : Int64)
  | string (value : String)
  | boolean (value : Bool)
  | function (value : Function)
  deriving DecidableEq

/-- The variables of an environment. -/
abbrev Bindings := Dict Value

/-- Two functions are the same if they have the same name, the same environment and come from the
same declaration; how often that was executed makes no difference. -/
def Function.same (f g : Function) : Bool :=
  f.name = g.name && f.label = g.label && f.home = g.home

/-- The shape of a function, of which only the name is shown. -/
def Function.outline (f : Function) : Text.Outline :=
  .record "Function" [("name", .leaf (Text.quoted f.name))] true

namespace Value

/-- The kind of a value. -/
def kind : Value → Kind
  | .integer _ => .integer
  | .string _ => .string
  | .boolean _ => .boolean
  | .function _ => .function

/-- Whether a value counts as true. -/
def truthy : Value → Bool
  | .integer n => n ≠ 0
  | .string s => s ≠ ""
  | .boolean b => b
  | .function _ => true

/-- Equality in the language: values of different kinds are different. -/
def equal : Value → Value → Bool
  | .integer a, .integer b => a = b
  | .string a, .string b => a = b
  | .boolean a, .boolean b => a = b
  | .function f, .function g => f.same g
  | _, _ => false

/-- The order of two integers or of two strings; other pairs have none. -/
def order? : Value → Value → Option Ordering
  | .integer a, .integer b => some (compareOfLessAndEq a b)
  | .string a, .string b => some (compareOfLessAndEq a b)
  | _, _ => none

/-- The text a value is printed as. -/
def text : Value → String
  | .integer n => Integer.text n
  | .string s => s
  | .boolean b => if b then "true" else "false"
  | .function f => "<func " ++ f.name ++ ">"

/-- The shape of a value. -/
def outline : Value → Text.Outline
  | .integer n => .wrap "Integer" (.leaf (Integer.text n))
  | .string s => .wrap "String" (.leaf (Text.quoted s))
  | .boolean b => .wrap "Boolean" (.leaf (if b then "true" else "false"))
  | .function f => .wrap "Callable" f.outline

end Value

/-- The variables with the shapes of their values, on one line. -/
def Bindings.description (b : Bindings) : String :=
  "\x7b" ++ ", ".intercalate
    (b.entries.map fun (name, value) => Text.quoted name ++ ": " ++ value.outline.inline)
    ++ "\x7d"

end Cam
