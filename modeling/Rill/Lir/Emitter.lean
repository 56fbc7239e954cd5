import Rill.Fault
import Rill.Lir.Basic
import Rill.Signature

/-!
# Building a lowered function

The emitter appends instructions to the block under its cursor. Branches and
jumps go through `branch` and `jump`, which also enter the block as a
predecessor of its targets; `push` leaves predecessors alone.

Blocks and registers get numbers of 32 bits. Whoever makes no more than 2^32 of
them may as well number them by their places.
-/

namespace Rill.Lir

structure Emitter where
  signatures : SignatureTable
  id : Nat
  name : String
  returnType : Ty
  registers : Registers := .empty
  arguments : List Nat := []
  blocks : Table Block := .empty
  cursor : Nat := 0
  deriving DecidableEq

namespace Emitter

/-- The number of any function of the module. -/
def handle? (e : Emitter) (name : String) : Option Nat :=
  e.signatures.handle? name

/-- Adds an empty block to the function and leaves the cursor where it is. -/
def addBlock (e : Emitter) (function : Nat) (label : String) (numbering : Numbering := .cut) :
    Except Fault (Nat × Emitter) :=
  if function = e.id then
    let id := numbering.number e.blocks.next
    .ok (id, { e with blocks := e.blocks.push ⟨id, label, [], .empty⟩ })
  else
    .error (.foreignBlock function)

def moveTo (e : Emitter) (block : Nat) : Emitter :=
  { e with cursor := block }

def addRegister (e : Emitter) (ty : Ty) (numbering : Numbering := .cut) : Nat × Emitter :=
  let id := numbering.number e.registers.rows.next
  (id, { e with registers := e.registers.push ⟨id, ty⟩ })

/-- Adds the register of the next argument. -/
def addArgument (e : Emitter) (ty : Ty) (numbering : Numbering := .cut) : Nat × Emitter :=
  let (id, e) := e.addRegister ty numbering
  (id, { e with arguments := e.arguments ++ [id] })

/-- Appends an instruction to the block under the cursor. -/
def push (e : Emitter) (i : Instruction) : Except Fault Emitter :=
  match e.blocks.get? e.cursor with
  | none => .error (.missingBlock e.cursor)
  | some block =>
    if block.isTerminated then
      .error (.closedBlock e.cursor)
    else
      .ok { e with
        blocks := e.blocks.modify e.cursor fun b =>
          { b with instructions := b.instructions ++ [i] } }

/-- Enters `source` among the predecessors of `target`. -/
def link (e : Emitter) (source target : Nat) : Except Fault Emitter :=
  if target < e.blocks.size then
    .ok { e with
      blocks := e.blocks.modify target fun b => { b with preds := b.preds.insert source } }
  else
    .error (.missingBlock target)

/-- Ends the current block with a two-way branch. -/
def branch (e : Emitter) (condition : Operand) (positive negative : Nat) :
    Except Fault Emitter := do
  let next ← e.push (.branch condition positive negative)
  let next ← next.link e.cursor positive
  next.link e.cursor negative

/-- Ends the current block with a jump. -/
def jump (e : Emitter) (target : Nat) : Except Fault Emitter := do
  let next ← e.push (.jump target)
  next.link e.cursor target

/-- Whether there is a block under the cursor that already ends in a terminator. -/
def isTerminated (e : Emitter) : Bool :=
  (e.blocks.get? e.cursor).any (·.isTerminated)

def finish (e : Emitter) : Function :=
  { id := e.id
    name := e.name
    returnType := e.returnType
    registers := e.registers
    arguments := e.arguments
    blocks := .ofList e.blocks.toList }

end Emitter

end Rill.Lir
