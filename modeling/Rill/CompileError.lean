import Rill.Source.Span
import Rill.Ty

/-!
# Errors of compiling a function

An error ends the compilation of its function and is kept as a cause at a span;
the wording of all causes is decided here.
-/

namespace Rill

/-- The place where two types had to agree. -/
inductive Boundary where
  | ifCondition
  | ifBranches
  | whileCondition
  | logicalOperand
  | binaryOperation
  | functionArgument
  | letBinding
  | letRedeclaration
  | assignment
  | returned
  deriving DecidableEq, Repr

/-- What a value of the wrong type was used for. -/
inductive Usage where
  | arithmetic
  | comparison
  | equality
  | logicalNot
  | negation
  | binding
  deriving DecidableEq, Repr

/-- How a tree that was built by hand can be unfit for compilation. -/
inductive Malformation where
  | elseWithoutThen
  | missingThen
  | unknownFunction
  | unassignedRegister
  deriving DecidableEq, Repr

inductive CompileCause where
  | typeMismatch (boundary : Boundary) (expected actual : Ty)
  | malformedTree (what : Malformation)
  /-- A condition is a constant of type bool and yet no literal. -/
  | unfoldedConstant
  | undefinedVariable (name : String)
  | undefinedFunction (name : String)
  | duplicateFunction (name : String)
  | argumentCount (expected actual : Nat)
  | invalidOperation (usage : Usage) (provided : Ty)
  | cannotInfer (name : String)
  | missingReturn (expected : Ty)
  | divisionByZero
  deriving DecidableEq, Repr

structure CompileError where
  cause : CompileCause
  span : Span
  deriving DecidableEq, Repr

def Boundary.message (boundary : Boundary) (expected actual : Ty) : String :=
  let expected := expected.name
  let actual := actual.name
  match boundary with
  | .ifCondition => s!"expected if condition type to be {expected} but found {actual}"
  | .ifBranches =>
    "if/else branches both return a value but their types do not match "
      ++ s!"({expected} and {actual})"
  | .whileCondition => s!"expected while condition type to be {expected} but found {actual}"
  | .logicalOperand => s!"expected logical operand type to be {expected} but found {actual}"
  | .binaryOperation =>
    s!"expected left-hand side of binary op {expected} to match right-hand side {actual}"
  | .functionArgument => s!"expected function argument to be {expected} but found {actual}"
  | .letBinding =>
    s!"let binding initializer type {actual} does not match explicit type {expected}"
  | .letRedeclaration => s!"cannot redeclare a binding of type {expected} with type {actual}"
  | .assignment => s!"cannot assign {actual} to variable with type {expected}"
  | .returned =>
    s!"returned type {actual} does not match the function signature's type {expected}"

def Usage.message (usage : Usage) (provided : Ty) : String :=
  let provided := provided.name
  match usage with
  | .arithmetic => s!"cannot use type {provided} in an arithmetic context"
  | .comparison => s!"cannot compare values of type {provided}"
  | .equality => s!"cannot check values of type {provided} for equality"
  | .logicalNot => s!"cannot apply `!` to type {provided}"
  | .negation => s!"cannot negate type {provided}"
  | .binding => s!"cannot bind a value of type {provided} to a variable"

def Malformation.message : Malformation → String
  | .elseWithoutThen => "if statement has an else branch but no then branch"
  | .missingThen => "if statement has no then branch"
  | .unknownFunction => "lowering outside of a function with a known handle"
  | .unassignedRegister => "binding was never given a register"

def CompileCause.message : CompileCause → String
  | .typeMismatch boundary expected actual => boundary.message expected actual
  | .malformedTree what => "malformed tree: " ++ what.message
  | .unfoldedConstant => "internal error: constant bool condition did not fold to a literal"
  | .undefinedVariable name => s!"cannot find variable `{name}` in this function"
  | .undefinedFunction name => s!"cannot find function `{name}`"
  | .duplicateFunction name => s!"function `{name}` is defined more than once"
  | .argumentCount expected actual =>
    s!"expected {expected} argument(s) to this function but found {actual}"
  | .invalidOperation usage provided => usage.message provided
  | .cannotInfer name =>
    s!"cannot infer the type of `{name}` without an explicit type or initializer expression"
  | .missingReturn expected =>
    s!"expected function to return type {expected.name} but not every path returns a value"
  | .divisionByZero => "attempt to divide by zero"

def CompileError.message (error : CompileError) : String :=
  error.cause.message

end Rill
