import Rill.Fault
import Rill.Lir.Basic
import Rill.Number.Notation
import Rill.Text.Quoted

/-!
# Listings of lowered functions
-/

namespace Rill.Lir

def Immediate.render : Immediate → String
  | .unit => "()"
  | .int n => Number.renderInt n
  | .float x => Number.renderFloat x
  | .bool b => if b then "true" else "false"
  | .str s => Text.quoted s

def renderRegister (ink : Ink) (id : Nat) : String :=
  ink.paint .yellow ("%" ++ toString id)

def blockName (id : Nat) : String :=
  ".block_" ++ toString id

def Operand.render (ink : Ink) : Operand → String
  | .imm value => ink.paint .magenta value.render
  | .reg id => renderRegister ink id

def commaSeparated (parts : List String) : String :=
  String.intercalate ", " parts

namespace Instruction

/-- The register that takes the result, and the sign after it. -/
def renderDest (ink : Ink) (dest : Nat) : String :=
  renderRegister ink dest ++ " " ++ ink.paint .white "=" ++ " "

def render (ink : Ink) : Instruction → String
  | .move dest source => renderDest ink dest ++ source.render ink
  | .unary op dest operand =>
    renderDest ink dest ++ ink.paint .white op.spelling ++ operand.render ink
  | .binary op dest lhs rhs =>
    renderDest ink dest ++ lhs.render ink ++ " " ++ ink.paint .white op.spelling ++ " "
      ++ rhs.render ink
  | .branch condition positive negative =>
    ink.paint .cyan "br" ++ " " ++ condition.render ink ++ " "
      ++ ink.paint .blue (blockName positive) ++ " " ++ ink.paint .blue (blockName negative)
  | .jump target => ink.paint .cyan "jmp" ++ " " ++ ink.paint .blue (blockName target)
  | .ret (some value) => ink.paint .cyan "ret" ++ " " ++ value.render ink
  | .ret none => ink.paint .cyan "ret"
  | .call target args dest =>
    let result := match dest with
      | some dest => renderDest ink dest
      | none => ""
    result ++ ink.paint .cyan "call" ++ " " ++ ink.paint .blue ("@" ++ toString target) ++ "("
      ++ commaSeparated (args.map (Operand.render ink)) ++ ")"
  | .unreachable => ink.paint .cyan "unreachable"

end Instruction

/-- A line with the name of the block, its label and its predecessors, and a line for each
instruction. -/
def Block.render (ink : Ink) (b : Block) : String :=
  let preds :=
    if b.preds.isEmpty then ""
    else ", preds " ++ commaSeparated (b.preds.items.map blockName)
  ink.paint .brightRed (blockName b.id ++ ":") ++ " "
    ++ ink.paint .dim ("; " ++ b.label ++ preds) ++ "\n"
    ++ String.join (b.instructions.map fun i => "    " ++ i.render ink ++ "\n")

/-- The listing of a function, whose arguments must be registers that it has. -/
def Function.render (ink : Ink) (f : Function) : Except Fault String := do
  let arguments ← f.arguments.mapM fun id =>
    match f.registers.get? id with
    | some ty => Except.ok (renderRegister ink id ++ ": " ++ ty.render ink)
    | none => Except.error (Fault.missingRegister id)
  let result :=
    if f.returnType.isUnit then ""
    else " " ++ ink.paint .white "->" ++ " " ++ f.returnType.render ink
  return ink.paint .magenta "fn" ++ " " ++ ink.paint .blue f.name ++ ink.paint .white "("
    ++ commaSeparated arguments ++ ink.paint .white ")" ++ result ++ " "
    ++ ink.paint .white "\x7b" ++ "\n"
    ++ String.join (f.blocks.items.map (Block.render ink))
    ++ ink.paint .white "\x7d" ++ "\n"

def Module.render (ink : Ink) (m : Module) : Except Fault String := do
  return String.intercalate "\n" (← m.functions.mapM (Function.render ink))

end Rill.Lir
