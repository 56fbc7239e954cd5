import Rill.Text.Ink

/-!
# Types of values
-/

namespace Rill

inductive Ty where
  | unit
  | bool
  /-- 64-bit integers with a sign. -/
  | int
  /-- 64-bit floats. -/
  | float
  | str
  deriving DecidableEq, Repr, Inhabited

namespace Ty

def name : Ty → String
  | .unit => "()"
  | .bool => "bool"
  | .int => "int"
  | .float => "float"
  | .str => "str"

def all : List Ty := [.unit, .bool, .int, .float, .str]

def ofName? (name : String) : Option Ty :=
  all.find? (·.name == name)

def isUnit (ty : Ty) : Bool :=
  ty == .unit

def isBool (ty : Ty) : Bool :=
  ty == .bool

def isNumeric : Ty → Bool
  | .int | .float => true
  | .unit | .bool | .str => false

def render (ink : Ink) (ty : Ty) : String :=
  ink.paint .yellow ty.name

theorem ofName?_name (ty : Ty) : ofName? ty.name = some ty := by
  cases ty <;> decide

end Ty

end Rill
