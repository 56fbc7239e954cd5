import Rill.Signature

/-!
# Bindings in scope

The context of a function holds its parameters in an outermost scope that is
never left, and one further scope for every open block. A binding gets a
register when it is first lowered.
-/

namespace Rill

structure Binding where
  ty : Ty
  register : Option Nat
  span : Span
  deriving DecidableEq, Repr

abbrev Scope := List (String × Binding)

namespace Scope

def get? (scope : Scope) (name : String) : Option Binding :=
  scope.lookup name

def setRegister (scope : Scope) (name : String) (register : Nat) : Scope :=
  scope.map fun (n, b) => if n = name then (n, { b with register := some register }) else (n, b)

end Scope

structure Context where
  name : String
  returnType : Ty
  signatures : SignatureTable
  /-- The number of the function that is being lowered, once it is known. -/
  handle : Option Nat := none
  /-- The innermost scope. -/
  current : Scope := []
  /-- The scopes around it, from the inside. -/
  outer : List Scope := []
  deriving DecidableEq, Repr

namespace Context

def ofFunction (f : Function) (signatures : SignatureTable) : Context :=
  { name := f.header.name.name, returnType := f.header.returnType, signatures }

def push (ctx : Context) : Context :=
  { ctx with current := [], outer := ctx.current :: ctx.outer }

/-- Drops the innermost scope. The outermost one stays. -/
def pop (ctx : Context) : Context :=
  match ctx.outer with
  | [] => ctx
  | scope :: rest => { ctx with current := scope, outer := rest }

@[simp] theorem pop_push (ctx : Context) : ctx.push.pop = ctx := rfl

/-- Introduces a binding in the innermost scope. A name that this scope already has keeps its
binding, and must be declared with the same type again. -/
def declare (ctx : Context) (name : Ident) (ty : Ty) : Except CompileError (Binding × Context) :=
  match ctx.current.get? name.name with
  | some binding =>
    if binding.ty = ty then
      .ok (binding, ctx)
    else
      .error ⟨.typeMismatch .letRedeclaration binding.ty ty, name.span⟩
  | none =>
    let binding : Binding := ⟨ty, none, name.span⟩
    .ok (binding, { ctx with current := (name.name, binding) :: ctx.current })

/-- Gives a register to a binding of the innermost scope. -/
def setRegister (ctx : Context) (name : String) (register : Nat) : Context :=
  { ctx with current := ctx.current.setRegister name register }

/-- The binding that a name refers to, found from the inside. -/
def lookup (ctx : Context) (name : Ident) : Except CompileError Binding :=
  match (ctx.current :: ctx.outer).findSome? (·.get? name.name) with
  | some binding => .ok binding
  | none => .error ⟨.undefinedVariable name.name, name.span⟩

/-- The number of the function that is being lowered, wanted for what stands at `span`. -/
def handleAt (ctx : Context) (span : Span) : Except CompileError Nat :=
  match ctx.handle with
  | some id => .ok id
  | none => .error ⟨.malformedTree .unknownFunction, span⟩

end Context

end Rill
