import Rill.Number.Binary
import Rill.Tree.Basic

/-!
# Operators on literals

Integers wrap at 64 bits and divide toward zero; the quotient of the least
integer by minus one wraps to itself. Floats follow IEEE 754. Operands that do
not type check have no result.
-/

namespace Rill

def UnaryOp.apply? : UnaryOp → Literal → Option Literal
  | .not, .bool b => some (.bool (!b))
  | .neg, .int n => some (.int (-n))
  | .neg, .float x => some (.float (-x))
  | _, _ => none

inductive Applied where
  | value (result : Literal)
  | zeroDivisor
  | illTyped
  deriving DecidableEq, Repr

namespace BinaryOp

def onInts (op : BinaryOp) (a b : Int64) : Applied :=
  match op with
  | .add => .value (.int (a + b))
  | .sub => .value (.int (a - b))
  | .mul => .value (.int (a * b))
  | .div => if b = 0 then .zeroDivisor else .value (.int (a / b))
  | .rem => if b = 0 then .zeroDivisor else .value (.int (a % b))
  | .eq => .value (.bool (a == b))
  | .ne => .value (.bool (a != b))
  | .lt => .value (.bool (a < b))
  | .le => .value (.bool (a ≤ b))
  | .gt => .value (.bool (b < a))
  | .ge => .value (.bool (b ≤ a))

def onFloats (op : BinaryOp) (a b : Float) : Literal :=
  match op with
  | .add => .float (a + b)
  | .sub => .float (a - b)
  | .mul => .float (a * b)
  | .div => .float (a / b)
  | .rem => .float (Number.remainder a b)
  | .eq => .bool (a.beq b)
  | .ne => .bool (!a.beq b)
  | .lt => .bool (a.lt b)
  | .le => .bool (a.le b)
  | .gt => .bool (b.lt a)
  | .ge => .bool (b.le a)

/-- Equality of operands of any other type. -/
def onEquals (op : BinaryOp) (equal : Bool) : Applied :=
  match op with
  | .eq => .value (.bool equal)
  | .ne => .value (.bool (!equal))
  | _ => .illTyped

def apply (op : BinaryOp) : Literal → Literal → Applied
  | .int a, .int b => op.onInts a b
  | .float a, .float b => .value (op.onFloats a b)
  | .bool a, .bool b => op.onEquals (a == b)
  | .str a, .str b => op.onEquals (a == b)
  | _, _ => .illTyped

end BinaryOp

def LogicOp.apply : LogicOp → Bool → Bool → Bool
  | .and, a, b => a && b
  | .or, a, b => a || b

end Rill
