import Rill.Source.Span
import Rill.Ty

/-!
# Trees

The tree of a module as it is read from a source. Every node carries its span.
Trees can also be built by hand, so a conditional may lack its first branch and
a branch or body need not be a block; the parser never makes such trees.

Literals compare in two ways. Equality `=` tells all values apart, also the two
zeros; `Literal.same` compares floats as numbers, so that a NaN differs from
itself and the two zeros are alike, and `Expr.same` and `Stmt.same` extend it to
trees.
-/

namespace Rill

structure Ident where
  name : String
  span : Span
  deriving DecidableEq, Repr, Inhabited

inductive Literal where
  | bool (value : Bool)
  | int (value : Int64)
  | float (value : Float)
  | str (value : String)
  deriving DecidableEq, Repr

inductive UnaryOp where
  | not
  | neg
  deriving DecidableEq, Repr

inductive BinaryOp where
  | add
  | sub
  | mul
  | div
  | rem
  | eq
  | ne
  | lt
  | le
  | gt
  | ge
  deriving DecidableEq, Repr

inductive OpClass where
  | arithmetic
  | comparison
  | equality
  deriving DecidableEq, Repr

/-- Operators that evaluate their right side only if the left side does not decide. -/
inductive LogicOp where
  | and
  | or
  deriving DecidableEq, Repr

inductive Expr where
  | literal (span : Span) (value : Literal)
  | var (span : Span) (name : Ident)
  | call (span : Span) (target : Ident) (args : List Expr)
  | unary (span : Span) (op : UnaryOp) (operand : Expr)
  | binary (span : Span) (op : BinaryOp) (lhs rhs : Expr)
  | logic (span : Span) (op : LogicOp) (lhs rhs : Expr)
  deriving Repr

inductive Stmt where
  | ite (span : Span) (condition : Expr) (positive negative : Option Stmt)
  | block (span : Span) (body : List Stmt)
  /-- A local, declared with a type, an initial value, or both. -/
  | decl (span : Span) (name : Ident) (ty : Option Ty) (value : Option Expr)
  | assign (span : Span) (target : Ident) (value : Expr)
  | ret (span : Span) (value : Option Expr)
  | loop (span : Span) (condition : Expr) (body : Stmt)
  /-- An expression run for its effects. -/
  | eval (span : Span) (value : Expr)
  | skip (span : Span)
  deriving Repr

structure Param where
  name : Ident
  ty : Ty
  span : Span
  deriving DecidableEq, Repr

/-- Everything of a function but its body. -/
structure Header where
  name : Ident
  params : List Param
  returnType : Ty
  span : Span
  deriving DecidableEq, Repr

structure Function where
  header : Header
  body : Stmt
  span : Span
  deriving Repr

structure Module where
  functions : List Function
  deriving Repr

namespace UnaryOp

def spelling : UnaryOp → String
  | .not => "!"
  | .neg => "-"

def all : List UnaryOp := [.not, .neg]

def ofSpelling? (text : String) : Option UnaryOp :=
  all.find? (·.spelling == text)

end UnaryOp

namespace BinaryOp

def spelling : BinaryOp → String
  | .add => "+"
  | .sub => "-"
  | .mul => "*"
  | .div => "/"
  | .rem => "%"
  | .eq => "=="
  | .ne => "!="
  | .lt => "<"
  | .le => "<="
  | .gt => ">"
  | .ge => ">="

def all : List BinaryOp := [.add, .sub, .mul, .div, .rem, .eq, .ne, .lt, .le, .gt, .ge]

def ofSpelling? (text : String) : Option BinaryOp :=
  all.find? (·.spelling == text)

def opClass : BinaryOp → OpClass
  | .add | .sub | .mul | .div | .rem => .arithmetic
  | .lt | .le | .gt | .ge => .comparison
  | .eq | .ne => .equality

end BinaryOp

namespace Literal

def ty : Literal → Ty
  | .bool _ => .bool
  | .int _ => .int
  | .float _ => .float
  | .str _ => .str

/-- Equality with floats compared as numbers. -/
def same : Literal → Literal → Bool
  | .bool a, .bool b => a == b
  | .int a, .int b => a == b
  | .float a, .float b => a.beq b
  | .str a, .str b => a == b
  | _, _ => false

end Literal

namespace Expr

def span : Expr → Span
  | .literal span _ | .var span _ | .call span _ _ | .unary span _ _ | .binary span _ _ _
  | .logic span _ _ _ => span

def withSpan (span : Span) : Expr → Expr
  | .literal _ value => .literal span value
  | .var _ name => .var span name
  | .call _ target args => .call span target args
  | .unary _ op operand => .unary span op operand
  | .binary _ op lhs rhs => .binary span op lhs rhs
  | .logic _ op lhs rhs => .logic span op lhs rhs

@[simp] theorem span_withSpan (span : Span) (e : Expr) : (e.withSpan span).span = span := by
  cases e <;> rfl

def literal? : Expr → Option Literal
  | .literal _ value => some value
  | _ => none

mutual

/-- Equality of trees with floats compared as numbers. -/
def same : Expr → Expr → Bool
  | .literal s a, .literal t b => s == t && a.same b
  | .var s a, .var t b => s == t && a == b
  | .call s f as, .call t g bs => s == t && f == g && sameAll as bs
  | .unary s o a, .unary t p b => s == t && o == p && a.same b
  | .binary s o a c, .binary t p b d => s == t && o == p && a.same b && c.same d
  | .logic s o a c, .logic t p b d => s == t && o == p && a.same b && c.same d
  | _, _ => false

def sameAll : List Expr → List Expr → Bool
  | [], [] => true
  | a :: as, b :: bs => a.same b && sameAll as bs
  | _, _ => false

end

/-- Equality of optional trees. -/
def sameOpt : Option Expr → Option Expr → Bool
  | none, none => true
  | some a, some b => a.same b
  | _, _ => false

end Expr

namespace Stmt

def span : Stmt → Span
  | .ite span _ _ _ | .block span _ | .decl span _ _ _ | .assign span _ _ | .ret span _
  | .loop span _ _ | .eval span _ | .skip span => span

def isDecl : Stmt → Bool
  | .decl .. => true
  | _ => false

mutual

/-- Equality of trees with floats compared as numbers. -/
def same : Stmt → Stmt → Bool
  | .ite s c p n, .ite t d q m => s == t && c.same d && sameOpt p q && sameOpt n m
  | .block s as, .block t bs => s == t && sameAll as bs
  | .decl s x a v, .decl t y b w => s == t && x == y && a == b && Expr.sameOpt v w
  | .assign s x v, .assign t y w => s == t && x == y && v.same w
  | .ret s v, .ret t w => s == t && Expr.sameOpt v w
  | .loop s c a, .loop t d b => s == t && c.same d && a.same b
  | .eval s v, .eval t w => s == t && v.same w
  | .skip s, .skip t => s == t
  | _, _ => false

def sameOpt : Option Stmt → Option Stmt → Bool
  | none, none => true
  | some a, some b => a.same b
  | _, _ => false

def sameAll : List Stmt → List Stmt → Bool
  | [], [] => true
  | a :: as, b :: bs => a.same b && sameAll as bs
  | _, _ => false

end

end Stmt

end Rill
