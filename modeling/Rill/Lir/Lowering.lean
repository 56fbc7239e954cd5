import Rill.Lir.Emitter
import Rill.Typing

/-!
# Lowering trees

Structured control flow turns into blocks joined by branches and jumps, and
expression trees into operations on registers. Statements are type checked as
they are lowered. A failure keeps the context and the emitter as they were when
it happened, so that one can say what a failed lowering has left behind.

Blocks and registers are numbered by their places: a function is assumed to need
no more than 2^32 of either.
-/

namespace Rill.Lir

inductive Failure where
  | error (error : CompileError)
  | fault (fault : Fault)
  deriving DecidableEq

structure LowerState where
  context : Context
  emitter : Emitter
  deriving DecidableEq

abbrev LowerM := EStateM Failure LowerState

namespace LowerM

variable {α : Type}

def ofExcept : Except CompileError α → LowerM α
  | .ok a => pure a
  | .error e => throw (.error e)

def context : LowerM Context := return (← get).context

def setContext (ctx : Context) : LowerM Unit :=
  modify fun s => { s with context := ctx }

/-- Runs a check on the context. -/
def check (c : CheckM α) : LowerM α := fun s =>
  match c s.context with
  | .ok a ctx => .ok a { s with context := ctx }
  | .error e ctx => .error (.error e) { s with context := ctx }

/-- Lowers in a scope of its own and leaves that scope, however it ends. -/
def inScope (lowering : LowerM α) : LowerM α := fun s =>
  match lowering { s with context := s.context.push } with
  | .ok a s => .ok a { s with context := s.context.pop }
  | .error e s => .error e { s with context := s.context.pop }

def emit (step : Emitter → Except Fault Emitter) : LowerM Unit := fun s =>
  match step s.emitter with
  | .ok e => .ok () { s with emitter := e }
  | .error f => .error (.fault f) s

def newBlock (function : Nat) (label : String) : LowerM Nat := fun s =>
  match s.emitter.addBlock function label .whole with
  | .ok (id, e) => .ok id { s with emitter := e }
  | .error f => .error (.fault f) s

def newRegister (ty : Ty) : LowerM Nat := fun s =>
  let (id, e) := s.emitter.addRegister ty .whole
  .ok id { s with emitter := e }

def newArgument (ty : Ty) : LowerM Nat := fun s =>
  let (id, e) := s.emitter.addArgument ty .whole
  .ok id { s with emitter := e }

def moveTo (block : Nat) : LowerM Unit :=
  modify fun s => { s with emitter := s.emitter.moveTo block }

def push (i : Instruction) : LowerM Unit := emit (·.push i)

def branch (condition : Operand) (positive negative : Nat) : LowerM Unit :=
  emit (·.branch condition positive negative)

def jump (target : Nat) : LowerM Unit := emit (·.jump target)

def typeOf (e : Expr) : LowerM Ty := do
  ofExcept (e.ty (← context))

/-- The function being lowered, in which the thing at `span` needs blocks. -/
def functionAt (span : Span) : LowerM Nat := do
  ofExcept ((← context).handleAt span)

end LowerM

open LowerM

def registerOf (binding : Binding) (span : Span) : Except CompileError Nat :=
  match binding.register with
  | some register => .ok register
  | none => .error ⟨.malformedTree .unassignedRegister, span⟩

end Rill.Lir

namespace Rill

open Lir Lir.LowerM

def Literal.immediate : Literal → Immediate
  | .bool b => .bool b
  | .int n => .int n
  | .float x => .float x
  | .str s => .str s

namespace LogicOp

def rhsLabel : LogicOp → String
  | .and => "and_rhs"
  | .or => "or_rhs"

def endLabel : LogicOp → String
  | .and => "and_end"
  | .or => "or_end"

end LogicOp

namespace Expr

mutual

/-- Emits what computes the expression and says where its value is. The right side of a logical
operator gets a block of its own, which control enters only if the left side does not decide. -/
def lower : Expr → LowerM Operand
  | .literal _ value => pure (.imm value.immediate)
  | .var _ name => do
    let binding ← ofExcept ((← context).lookup name)
    return .reg (← ofExcept (registerOf binding name.span))
  | .call span target args => do
    let ty ← typeOf (.call span target args)
    match (← get).emitter.handle? target.name with
    | none => throw (.error ⟨.undefinedFunction target.name, target.span⟩)
    | some function =>
      let operands ← lowerAll args
      if ty.isUnit then
        push (.call function operands none)
        return .imm .unit
      else
        let dest ← newRegister ty
        push (.call function operands (some dest))
        return .reg dest
  | .unary span op operand => do
    let ty ← typeOf (.unary span op operand)
    let operand ← operand.lower
    let dest ← newRegister ty
    push (.unary op dest operand)
    return .reg dest
  | .binary span op lhs rhs => do
    let ty ← typeOf (.binary span op lhs rhs)
    let lhs ← lhs.lower
    let rhs ← rhs.lower
    let dest ← newRegister ty
    push (.binary op dest lhs rhs)
    return .reg dest
  | .logic span op lhs rhs => do
    let _ ← typeOf (.logic span op lhs rhs)
    let dest ← newRegister .bool
    let lhs ← lhs.lower
    push (.move dest lhs)
    let function ← functionAt span
    let rhsBlock ← newBlock function op.rhsLabel
    let endBlock ← newBlock function op.endLabel
    match op with
    | .and => branch lhs rhsBlock endBlock
    | .or => branch lhs endBlock rhsBlock
    moveTo rhsBlock
    let rhs ← rhs.lower
    push (.move dest rhs)
    jump endBlock
    moveTo endBlock
    return .reg dest

def lowerAll : List Expr → LowerM (List Operand)
  | [] => pure []
  | e :: es => return (← e.lower) :: (← lowerAll es)

end

def lowerOpt : Option Expr → LowerM (Option Operand)
  | none => pure none
  | some e => return some (← e.lower)

end Expr

namespace Stmt

/-- A condition has to be a bool. -/
def checkCondition (boundary : Boundary) (condition : Expr) : LowerM Unit := do
  let ty ← typeOf condition
  if ty ≠ .bool then
    throw (.error ⟨.typeMismatch boundary .bool ty, condition.span⟩)

/-- Goes on at `target` after a statement, unless the statement is sure to return. -/
def jumpAfter (s : Stmt) (target : Nat) : LowerM Unit := do
  if (← check s.returnType).isNone then
    jump target

/-- Declares a local. Its initial value is computed before the name is bound, so that it can still
use an earlier binding of that name. -/
def lowerDecl (span : Span) (name : Ident) (written : Option Ty) (value : Option Expr) :
    LowerM Unit := do
  let ty ← ofExcept (declaredType (← context) span name written value)
  let source ← Expr.lowerOpt value
  let (binding, ctx) ← ofExcept ((← context).declare name ty)
  setContext ctx
  let dest ←
    match binding.register with
    | some register => pure register
    | none => do
      let register ← newRegister ty
      setContext ((← context).setRegister name.name register)
      pure register
  match source with
  | some source => push (.move dest source)
  | none => pure ()

def lowerAssign (target : Ident) (value : Expr) : LowerM Unit := do
  let binding ← ofExcept ((← context).lookup target)
  let ty ← typeOf value
  if ty ≠ binding.ty then
    throw (.error ⟨.typeMismatch .assignment binding.ty ty, value.span⟩)
  let dest ← ofExcept (registerOf binding target.span)
  let source ← value.lower
  push (.move dest source)

/-- Returns a value of the declared type. A unit value is computed and then left out. -/
def lowerReturn (span : Span) (value : Option Expr) : LowerM Unit := do
  let ty ←
    match value with
    | some value => typeOf value
    | none => pure .unit
  let declared := (← context).returnType
  if ty ≠ declared then
    throw (.error ⟨.typeMismatch .returned declared ty, span⟩)
  let operand ← Expr.lowerOpt value
  push (.ret (if ty.isUnit then none else operand))

mutual

def lower : Stmt → LowerM Unit
  | .ite span condition none _ => do
    checkCondition .ifCondition condition
    throw (.error ⟨.malformedTree .missingThen, span⟩)
  | .ite span condition (some positive) none => do
    checkCondition .ifCondition condition
    let operand ← condition.lower
    let function ← functionAt span
    let thenBlock ← newBlock function "then"
    let contBlock ← newBlock function "cont"
    branch operand thenBlock contBlock
    moveTo thenBlock
    positive.lower
    positive.jumpAfter contBlock
    moveTo contBlock
  | .ite span condition (some positive) (some negative) => do
    checkCondition .ifCondition condition
    let operand ← condition.lower
    let function ← functionAt span
    let thenBlock ← newBlock function "then"
    let elseBlock ← newBlock function "else"
    let contBlock ← newBlock function "cont"
    branch operand thenBlock elseBlock
    moveTo thenBlock
    positive.lower
    positive.jumpAfter contBlock
    moveTo elseBlock
    negative.lower
    negative.jumpAfter contBlock
    moveTo contBlock
  | .block _ body => LowerM.inScope (lowerAll body)
  | .decl span name ty value => lowerDecl span name ty value
  | .assign _ target value => lowerAssign target value
  | .ret span value => lowerReturn span value
  | .loop span condition body => do
    checkCondition .whileCondition condition
    let function ← functionAt span
    let condBlock ← newBlock function "while_cond"
    let bodyBlock ← newBlock function "while_body"
    let endBlock ← newBlock function "while_end"
    jump condBlock
    moveTo condBlock
    let operand ← condition.lower
    branch operand bodyBlock endBlock
    moveTo bodyBlock
    body.lower
    body.jumpAfter condBlock
    moveTo endBlock
  | .eval _ value => do
    let _ ← value.lower
  | .skip _ => pure ()

/-- Lowers statements in order. What follows a statement that is sure to return is left out. -/
def lowerAll : List Stmt → LowerM Unit
  | [] => pure ()
  | s :: rest => do
    s.lower
    if (← check s.returnType).isNone then
      lowerAll rest

end

end Stmt

namespace Function

/-- Binds a parameter to the next argument register. -/
def bindParam (param : Param) : LowerM Unit := do
  if param.ty.isUnit then
    throw (.error ⟨.invalidOperation .binding param.ty, param.span⟩)
  let register ← newArgument param.ty
  let (_, ctx) ← ofExcept ((← context).declare param.name param.ty)
  setContext (ctx.setRegister param.name.name register)

/-- Lowers the body and closes the block that it ends in. -/
def lowerBody (f : Function) : LowerM Unit := do
  let returned ← check f.body.returnType
  f.body.lower
  unless (← get).emitter.isTerminated do
    if f.header.returnType.isUnit then
      push (.ret none)
    else if returned.isNone then
      throw (.error ⟨.missingReturn f.header.returnType, f.header.span⟩)
    else
      push .unreachable

def lower (signatures : SignatureTable) (f : Function) : Except Failure Lir.Function :=
  let name := f.header.name
  match signatures.handle? name.name with
  | none => .error (.error ⟨.undefinedFunction name.name, name.span⟩)
  | some id =>
    let start : LowerState :=
      { context := { Context.ofFunction f signatures with handle := some id }
        emitter := { signatures, id, name := name.name, returnType := f.header.returnType } }
    let lowering : LowerM Unit := do
      let entry ← newBlock id "entry"
      moveTo entry
      f.header.params.forM bindParam
      f.lowerBody
    match lowering start with
    | .ok _ s => .ok s.emitter.finish
    | .error failure _ => .error failure

end Function

end Rill
