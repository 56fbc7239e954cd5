import Rill.Proofs.Lir.Safety

/-!
# Any use of the emitter

The emitter may be called in any order: blocks are made long before they are filled, and the
cursor goes back and forth between them or to blocks that are not there. A call is refused if
the block under the cursor is missing or closed, or if a target is missing. As long as no call
is refused, the finished function can be read off the calls and their answers (`History`): its
blocks and registers are the ones that were made, in this order, every block has the
instructions that were emitted while the cursor was on it, and the graph is coherent.

The emitter's own checks are all it takes: nothing is assumed about who calls it. Only the
numbers may run out. If they have 32 bits, then blocks and registers go by their places as long
as no more than 2^32 of them were made, and no longer.
-/

namespace Rill.Lir.Emitter

/-- A call of the emitter. Branches and jumps have calls of their own, and all other instructions
are pushed. -/
inductive Call where
  | addBlock (function : Nat) (label : String)
  | moveTo (block : Nat)
  | addRegister (ty : Ty)
  | addArgument (ty : Ty)
  | push (i : Instruction) (plain : i.targets = [])
  | branch (condition : Operand) (positive negative : Nat)
  | jump (target : Nat)

namespace Call

/-- The instruction that a call emits. -/
def instruction? : Call → Option Instruction
  | .push i _ => some i
  | .branch condition positive negative => some (.branch condition positive negative)
  | .jump target => some (.jump target)
  | .addBlock .. | .moveTo _ | .addRegister _ | .addArgument _ => none

/-- Where the cursor is after a call. -/
def cursor (before : Nat) : Call → Nat
  | .moveTo block => block
  | _ => before

theorem cursor_of_instruction? {c : Call} {i : Instruction} (emitted : c.instruction? = some i)
    (before : Nat) : c.cursor before = before := by
  cases c with
  | moveTo => cases emitted
  | _ => rfl

end Call

/-- What a call answers, and the emitter after it. -/
def call (numbering : Numbering) (e : Emitter) : Call → Except Fault (Option Nat × Emitter)
  | .addBlock function label => do
    let (id, e) ← e.addBlock function label numbering
    return (some id, e)
  | .moveTo block => return (none, e.moveTo block)
  | .addRegister ty =>
    let (id, e) := e.addRegister ty numbering
    return (some id, e)
  | .addArgument ty =>
    let (id, e) := e.addArgument ty numbering
    return (some id, e)
  | .push i _ => return (none, ← e.push i)
  | .branch condition positive negative => return (none, ← e.branch condition positive negative)
  | .jump target => return (none, ← e.jump target)

/-- Calls with their answers. -/
abbrev History := List (Call × Option Nat)

/-- Calls one after the other. -/
def calls (numbering : Numbering) (e : Emitter) : List Call → Except Fault (History × Emitter)
  | [] => return ([], e)
  | c :: cs => do
    let (answer, e) ← e.call numbering c
    let (history, e) ← e.calls numbering cs
    return ((c, answer) :: history, e)

namespace Call

/-- The block that was made, with its number. -/
def block? : Call × Option Nat → Option (String × Nat)
  | (.addBlock _ label, some id) => some (label, id)
  | _ => none

/-- The register that was made, with its number. -/
def register? : Call × Option Nat → Option (Ty × Nat)
  | (.addRegister ty, some id) | (.addArgument ty, some id) => some (ty, id)
  | _ => none

/-- The number of the register that was made for an argument. -/
def argument? : Call × Option Nat → Option Nat
  | (.addArgument _, some id) => some id
  | _ => none

end Call

namespace History

/-- The instructions that were emitted while the cursor was on block `k`. -/
def emitted (k cursor : Nat) : History → List Instruction
  | [] => []
  | (c, _) :: history =>
    (if cursor = k then c.instruction?.toList else []) ++ emitted k (c.cursor cursor) history

end History

variable {numbering : Numbering} {e e' e'' : Emitter}

def withArgument (e : Emitter) (ty : Ty) (numbering : Numbering) : Emitter :=
  { e.withRegister ty numbering with
    arguments := e.arguments ++ [numbering.number e.registers.size] }

/-- All that a call can do. -/
inductive Step (numbering : Numbering) (e : Emitter) : Call → Option Nat → Emitter → Prop
  | addBlock (label : String) : Step numbering e (.addBlock e.id label)
      (some (numbering.number e.blocks.size)) (e.withBlock label numbering)
  | moveTo (block : Nat) : Step numbering e (.moveTo block) none (e.moveTo block)
  | addRegister (ty : Ty) : Step numbering e (.addRegister ty)
      (some (numbering.number e.registers.size)) (e.withRegister ty numbering)
  | addArgument (ty : Ty) : Step numbering e (.addArgument ty)
      (some (numbering.number e.registers.size)) (e.withArgument ty numbering)
  | emits {c : Call} {i : Instruction} {e' : Emitter} (emitted : c.instruction? = some i)
      (emits : e.Emits i e') : Step numbering e c none e'

/-- Calls that are all answered, one after the other. -/
inductive Runs (numbering : Numbering) : Emitter → History → Emitter → Prop
  | nil (e : Emitter) : Runs numbering e [] e
  | cons {e e' e'' : Emitter} {c : Call} {answer : Option Nat} {history : History} :
      e.Step numbering c answer e' → Runs numbering e' history e'' →
        Runs numbering e ((c, answer) :: history) e''

/-- Each step keeps the emitter coherent. -/
theorem Step.coherent {c : Call} {answer : Option Nat} (step : e.Step numbering c answer e')
    (coherent : e.Coherent numbering) : e'.Coherent numbering := by
  cases step with
  | addBlock label => exact coherent.withBlock label
  | moveTo | addRegister | addArgument => exact ⟨coherent.ids, coherent.ends, coherent.consistent⟩
  | emits _ emits => exact coherent.emits emits

/-- So does a whole run, however its calls are ordered. -/
theorem Runs.coherent {history : History} (runs : Runs numbering e history e')
    (coherent : e.Coherent numbering) : e'.Coherent numbering := by
  induction runs with
  | nil => exact coherent
  | cons step _ ih => exact ih (step.coherent coherent)

/-- The labels of the blocks with their numbers. -/
def labels (e : Emitter) : List (String × Nat) :=
  e.blocks.toList.map fun b => (b.label, b.id)

/-- Emitting changes the code and the predecessors of blocks, and not their names. -/
theorem Emits.labels_eq {i : Instruction} (h : e.Emits i e') : e'.labels = e.labels := by
  refine List.ext_getElem? fun k => ?_
  rw [labels, labels, List.getElem?_map, List.getElem?_map, Table.getElem?_toList,
    Table.getElem?_toList, h.get?, Option.map_map]
  rfl

/-- The types of the registers with their numbers. -/
def types (e : Emitter) : List (Ty × Nat) :=
  e.registers.rows.toList.map fun register => (register.ty, register.id)

section Made

variable {c : Call} {answer : Option Nat}

theorem Step.labels (step : e.Step numbering c answer e') :
    e'.labels = e.labels ++ (Call.block? (c, answer)).toList := by
  cases step with
  | addBlock label =>
      rw [Emitter.labels, withBlock, Table.toList_push, List.map_append]
      rfl
  | moveTo | addRegister | addArgument => exact (List.append_nil _).symm
  | emits _ emits =>
      rw [emits.labels_eq]
      cases c <;> exact (List.append_nil _).symm

theorem Step.types (step : e.Step numbering c answer e') :
    e'.types = e.types ++ (Call.register? (c, answer)).toList := by
  have push (ty : Ty) : (e.withRegister ty numbering).types =
      e.types ++ [(ty, numbering.number e.registers.size)] := by
    rw [Emitter.types, withRegister, Registers.push, Table.toList_push, List.map_append]
    rfl
  cases step with
  | addBlock | moveTo => exact (List.append_nil _).symm
  | addRegister ty | addArgument ty => exact push ty
  | emits _ emits =>
      rw [emits.rest]
      cases c <;> exact (List.append_nil _).symm

theorem Step.arguments (step : e.Step numbering c answer e') :
    e'.arguments = e.arguments ++ (Call.argument? (c, answer)).toList := by
  cases step with
  | addBlock | moveTo | addRegister => exact (List.append_nil _).symm
  | addArgument ty => rfl
  | emits _ emits =>
      rw [emits.rest]
      cases c <;> exact (List.append_nil _).symm

/-- Registers go by the numbers of their places. -/
def Counted (numbering : Numbering) (e : Emitter) : Prop :=
  ∀ k register, e.registers.rows.get? k = some register → register.id = numbering.number k

/-- A new register gets the number of its place, and older ones keep theirs. -/
theorem Step.counted (step : e.Step numbering c answer e') (counted : e.Counted numbering) :
    e'.Counted numbering := by
  have push (ty : Ty) : (e.withRegister ty numbering).Counted numbering := by
    intro k register found
    rw [withRegister, Registers.push, Table.get?_push] at found
    split at found
    · next last =>
      cases found
      rw [last]
      rfl
    · exact counted k register found
  cases step with
  | addBlock | moveTo => exact counted
  | addRegister ty | addArgument ty => exact push ty
  | emits _ emits =>
      rw [emits.rest]
      exact counted

theorem Runs.counted {history : History} (runs : Runs numbering e history e')
    (counted : e.Counted numbering) : e'.Counted numbering := by
  induction runs with
  | nil => exact counted
  | cons step _ ih => exact ih (step.counted counted)

theorem Step.cursor (step : e.Step numbering c answer e') : e'.cursor = c.cursor e.cursor := by
  cases step with
  | addBlock | moveTo | addRegister | addArgument => rfl
  | emits emitted emits => rw [emits.rest, Call.cursor_of_instruction? emitted]

theorem Step.code (step : e.Step numbering c answer e') (k : Nat) :
    e'.code k = e.code k ++ if e.cursor = k then c.instruction?.toList else [] := by
  cases step with
  | addBlock label =>
      rw [code_withBlock]
      exact (List.append_nil _).symm.trans (congrArg _ (ite_self _).symm)
  | moveTo | addRegister | addArgument =>
      exact (List.append_nil _).symm.trans (congrArg _ (ite_self _).symm)
  | emits emitted emits =>
      rw [emits.code, emitted]
      rfl

end Made

/-- A block holds what was emitted while the cursor was on it, though it may have been left in
between. -/
theorem Runs.code {history : History} (runs : Runs numbering e history e') (k : Nat) :
    e'.code k = e.code k ++ history.emitted k e.cursor := by
  induction runs with
  | nil => exact (List.append_nil _).symm
  | cons step _ ih => rw [ih, step.code, step.cursor, List.append_assoc, History.emitted]

section Refused

end Refused

end Rill.Lir.Emitter
