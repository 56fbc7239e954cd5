import Rill.CompileError
import Rill.Table
import Rill.Tree.Basic

/-!
# Signatures of a module's functions

The table is filled before any body is compiled and only read afterwards.
Functions are numbered in the order of their declarations. The signatures by number
and the numbers by name are kept apart, and grow together.

A number has 32 bits. The table of a module is built on the assumption that the
module has no more than 2^32 functions, whose numbers then are their places.
-/

namespace Rill

structure Signature where
  id : Nat
  name : String
  params : List Ty
  returnType : Ty
  deriving DecidableEq, Repr

structure SignatureTable where
  signatures : Table Signature
  byName : List (String × Nat)
  deriving DecidableEq, Repr, Inhabited

namespace SignatureTable

def empty : SignatureTable := ⟨.empty, []⟩

def size (t : SignatureTable) : Nat := t.signatures.size

def isEmpty (t : SignatureTable) : Bool := t.signatures.isEmpty

/-- The number of the function of that name. -/
def handle? (t : SignatureTable) (name : String) : Option Nat :=
  t.byName.lookup name

def lookup (t : SignatureTable) (name : Ident) : Except CompileError Signature :=
  match (t.handle? name.name).bind t.signatures.get? with
  | some signature => .ok signature
  | none => .error ⟨.undefinedFunction name.name, name.span⟩

/-- Adds a function under the next number. A name can be declared once. -/
def declare (t : SignatureTable) (header : Header) (numbering : Numbering := .cut) :
    Except CompileError (Nat × SignatureTable) :=
  let name := header.name.name
  if (t.handle? name).isSome then
    .error ⟨.duplicateFunction name, header.name.span⟩
  else
    let id := numbering.number t.signatures.next
    let signature := ⟨id, name, header.params.map (·.ty), header.returnType⟩
    .ok (id, ⟨t.signatures.push signature, (name, id) :: t.byName⟩)

def build (m : Module) (numbering : Numbering := .whole) : Except CompileError SignatureTable :=
  m.functions.foldlM (fun t f => return (← t.declare f.header numbering).2) empty

end SignatureTable

end Rill
