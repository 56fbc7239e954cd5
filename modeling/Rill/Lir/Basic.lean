import Rill.Ascending
import Rill.Table
import Rill.Tree.Basic

/-!
# The lowered form

A lowered function is a graph of blocks. A block runs its instructions in order
and hands control on with its last one; expressions have become operations on
virtual registers. Functions, blocks and registers go by their numbers, and
block 0 is the entry.
-/

namespace Rill.Lir

inductive Immediate where
  | unit
  | int (value : Int64)
  | float (value : Float)
  | bool (value : Bool)
  | str (value : String)
  deriving DecidableEq, Repr

inductive Operand where
  | imm (value : Immediate)
  | reg (id : Nat)
  deriving DecidableEq, Repr

inductive Instruction where
  | move (dest : Nat) (source : Operand)
  | unary (op : UnaryOp) (dest : Nat) (operand : Operand)
  | binary (op : BinaryOp) (dest : Nat) (lhs rhs : Operand)
  | branch (condition : Operand) (positive negative : Nat)
  | jump (target : Nat)
  | ret (value : Option Operand)
  | call (target : Nat) (args : List Operand) (dest : Option Nat)
  /-- Ends a block that control never reaches. -/
  | unreachable
  deriving DecidableEq, Repr

namespace Instruction

def isTerminator : Instruction → Bool
  | .branch .. | .jump _ | .ret _ | .unreachable => true
  | .move .. | .unary .. | .binary .. | .call .. => false

/-- The blocks that control may go to. -/
def targets : Instruction → List Nat
  | .branch _ positive negative => [positive, negative]
  | .jump target => [target]
  | _ => []

/-- The instruction with another block in place of one of its targets. -/
def redirect (old new : Nat) : Instruction → Instruction
  | .branch condition positive negative =>
    .branch condition (if positive = old then new else positive)
      (if negative = old then new else negative)
  | .jump target => .jump (if target = old then new else target)
  | i => i

end Instruction

structure Block where
  id : Nat
  /-- What the block was made for. -/
  label : String
  instructions : List Instruction
  /-- The blocks that may hand control to this one. -/
  preds : NatSet
  deriving DecidableEq

namespace Block

def isTerminated (b : Block) : Bool :=
  b.instructions.getLast?.any (·.isTerminator)

/-- The targets of the last instruction; a branch names both, even if they are equal. -/
def successors (b : Block) : List Nat :=
  match b.instructions.getLast? with
  | some i => i.targets
  | none => []

end Block

/-- The blocks of a function by their numbers. -/
abbrev Blocks := Ascending Block.id

structure Register where
  id : Nat
  ty : Ty
  deriving DecidableEq, Repr

/-- The registers of a function in the order in which they were made. -/
structure Registers where
  rows : Table Register
  deriving DecidableEq, Repr

namespace Registers

def empty : Registers := ⟨.empty⟩

/-- Registers of these types, each under the number of its place. -/
def ofList (types : List Ty) : Registers :=
  ⟨.ofList (types.zipIdx.map fun row => ⟨row.2, row.1⟩)⟩

/-- The types in their order. -/
def toList (r : Registers) : List Ty :=
  r.rows.toList.map (·.ty)

def size (r : Registers) : Nat := r.rows.size

def push (r : Registers) (register : Register) : Registers :=
  ⟨r.rows.push register⟩

/-- The type of the register at that place. -/
def get? (r : Registers) (n : Nat) : Option Ty :=
  (r.rows.get? n).map (·.ty)

variable {r : Registers} {n : Nat} {ty : Ty}

@[simp] theorem size_push (r : Registers) (register : Register) :
    (r.push register).size = r.size + 1 :=
  Table.size_push ..

@[simp] theorem toList_push (r : Registers) (register : Register) :
    (r.push register).toList = r.toList ++ [register.ty] := by
  simp [push, toList]

@[simp] theorem length_toList (r : Registers) : r.toList.length = r.size :=
  List.length_map ..

theorem getElem?_toList (r : Registers) (n : Nat) : r.toList[n]? = r.get? n := by
  rw [toList, List.getElem?_map, Table.getElem?_toList, get?]

theorem lt_size_of_get? (h : r.get? n = some ty) : n < r.size := by
  obtain ⟨register, found, _⟩ := Option.map_eq_some_iff.1 h
  exact Table.lt_size_of_get? found

end Registers

structure Function where
  id : Nat
  name : String
  returnType : Ty
  registers : Registers
  arguments : List Nat
  blocks : Blocks
  deriving DecidableEq

/-- All instructions in the order of the blocks. -/
def Function.instructions (f : Function) : List Instruction :=
  f.blocks.items.flatMap (·.instructions)

/-- The lowered functions of a module, with an empty slot for each that is not there yet. -/
structure Module where
  slots : Table (Option Function)
  deriving DecidableEq

namespace Module

def withCapacity (count : Nat) : Module :=
  ⟨⟨.replicate count none⟩⟩

/-- Puts a function into the slot of its number; slots are added as needed. -/
def install (m : Module) (f : Function) : Module :=
  let padding := .replicate (f.id + 1 - m.slots.size) none
  ⟨⟨(m.slots.rows ++ padding).setIfInBounds f.id (some f)⟩⟩

def get? (m : Module) (id : Nat) : Option Function :=
  (m.slots.get? id).join

/-- The functions that are there, in the order of their numbers. -/
def functions (m : Module) : List Function :=
  m.slots.toList.filterMap id

end Module

end Rill.Lir
