import Rill.Table

/-!
# Interned strings

A symbol table keeps each string once; its number stands for it from then on. The strings by
number and the numbers by string are kept apart, and grow together.

The table is shared by all who compile. It is looked up by many at once, but added to by one at a
time, and between looking a string up and adding it others may have their turn. So an insertion
has two halves, and the second one looks the string up again.
-/

namespace Rill

structure SymbolTable where
  strings : Table String
  indices : List (String × Nat)
  deriving DecidableEq, Repr, Inhabited

namespace SymbolTable

def empty : SymbolTable := ⟨.empty, []⟩

def get? (t : SymbolTable) (n : Nat) : Option String :=
  t.strings.get? n

def indexOf? (t : SymbolTable) (s : String) : Option Nat :=
  t.indices.lookup s

/-- The second half of an insertion. Another one may have been faster. -/
def insertLocked (t : SymbolTable) (s : String) : Nat × SymbolTable :=
  match t.indexOf? s with
  | some n => (n, t)
  | none =>
    let n := rowNumber t.strings.next
    (n, ⟨t.strings.push s, (s, n) :: t.indices⟩)

/-- The number of a string, which is added if it is new. -/
def insert (t : SymbolTable) (s : String) : Nat × SymbolTable :=
  match t.indexOf? s with
  | some n => (n, t)
  | none => t.insertLocked s

end SymbolTable

end Rill
