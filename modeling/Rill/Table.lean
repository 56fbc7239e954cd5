/-!
# Tables of numbered rows

A table numbers its rows from zero in the order in which they are added, and
never renumbers them. Functions, blocks, registers and interned names are all
known by such numbers.

A number has 32 bits, so there are 2^32 of them, and rows behind the first 2^32
would get numbers again that others have. Interned names are numbered in this
way, and so are the blocks and registers of an emitter. Compiling a module takes
it for granted that it has no more than 2^32 functions, and no function more than
2^32 blocks or registers: its numbers are the places in the table.
-/

namespace Rill

/-- Row numbers are 32 bits wide: of a wider number only the low bits count. -/
def rowNumber (n : Nat) : Nat :=
  n % 0x100000000

/-- How rows go by numbers: by their places, or by what 32 bits hold of them. -/
inductive Numbering where
  | whole
  | cut
  deriving DecidableEq, Repr

/-- The number of the row at a place. -/
def Numbering.number : Numbering → Nat → Nat
  | .whole, place => place
  | .cut, place => rowNumber place

/-- There is a number for each of so many rows. -/
def Numbering.Covers (count : Nat) : Numbering → Prop
  | .whole => True
  | .cut => count ≤ 0x100000000

namespace Numbering

variable {numbering : Numbering} {count : Nat}

theorem number_le (numbering : Numbering) (place : Nat) : numbering.number place ≤ place := by
  cases numbering with
  | whole => exact Nat.le_refl place
  | cut => exact Nat.mod_le ..

@[simp] theorem number_number (numbering : Numbering) (place : Nat) :
    numbering.number (numbering.number place) = numbering.number place := by
  cases numbering with
  | whole => rfl
  | cut => exact Nat.mod_mod ..

/-- Just as long as there are enough numbers, all rows go by their places. -/
theorem covers_iff : numbering.Covers count ↔ ∀ place < count, numbering.number place = place := by
  cases numbering with
  | whole => simp [Covers, number]
  | cut =>
      refine ⟨fun enough place inside => Nat.mod_eq_of_lt (Nat.lt_of_lt_of_le inside enough), ?_⟩
      intro places
      -- The first place behind the last number would have number zero.
      refine Nat.not_lt.1 fun more => ?_
      have zero : 0 = 0x100000000 := places 0x100000000 more
      cases zero

end Numbering

structure Table (α : Type) where
  rows : Array α
  deriving DecidableEq, Repr

namespace Table

variable {α : Type}

def empty : Table α := ⟨#[]⟩

instance : Inhabited (Table α) := ⟨empty⟩

def ofList (rows : List α) : Table α := ⟨rows.toArray⟩

def toList (t : Table α) : List α := t.rows.toList

def size (t : Table α) : Nat := t.rows.size

def isEmpty (t : Table α) : Bool := t.rows.isEmpty

/-- The number that the next added row will have. -/
def next (t : Table α) : Nat := t.size

/-- Adds a row; `next` says beforehand which number it gets. -/
def push (t : Table α) (row : α) : Table α := ⟨t.rows.push row⟩

def get? (t : Table α) (n : Nat) : Option α := t.rows[n]?

/-- Replaces a row, if there is one of that number. -/
def set? (t : Table α) (n : Nat) (row : α) : Option (Table α) :=
  if h : n < t.rows.size then some ⟨t.rows.set n row⟩ else none

/-- Changes the row of that number, if there is one. -/
def modify (t : Table α) (n : Nat) (f : α → α) : Table α := ⟨t.rows.modify n f⟩

/-- The rows in brackets, each written by `render`. -/
def describe (t : Table α) (render : α → String) : String :=
  "[" ++ String.intercalate ", " (t.toList.map render) ++ "]"

@[simp] theorem size_push (t : Table α) (row : α) : (t.push row).size = t.size + 1 := by
  simp [push, size]

@[simp] theorem toList_push (t : Table α) (row : α) :
    (t.push row).toList = t.toList ++ [row] := by
  simp [push, toList]

theorem getElem?_toList (t : Table α) (n : Nat) : t.toList[n]? = t.get? n :=
  Array.getElem?_toList

theorem get?_push (t : Table α) (row : α) (n : Nat) :
    (t.push row).get? n = if n = t.size then some row else t.get? n :=
  Array.getElem?_push

@[simp] theorem size_modify (t : Table α) (n : Nat) (f : α → α) :
    (t.modify n f).size = t.size := by
  simp [modify, size]

theorem get?_modify (t : Table α) (n : Nat) (f : α → α) (i : Nat) :
    (t.modify n f).get? i = if n = i then (t.get? i).map f else t.get? i := by
  simp [modify, get?, Array.getElem?_modify]

theorem get?_eq_none_iff (t : Table α) (n : Nat) : t.get? n = none ↔ t.size ≤ n := by
  simp [get?, size]

theorem exists_get? (t : Table α) {n : Nat} (h : n < t.size) : ∃ row, t.get? n = some row :=
  ⟨_, Array.getElem?_eq_getElem h⟩

theorem lt_size_of_get? {t : Table α} {n : Nat} {row : α} (h : t.get? n = some row) :
    n < t.size := by
  rw [← Nat.not_le, ← t.get?_eq_none_iff, h]
  exact Option.some_ne_none row

/-- Rows stay when others are added. -/
theorem get?_push_of_get? {t : Table α} {n : Nat} {row : α} (h : t.get? n = some row) (added : α) :
    (t.push added).get? n = some row := by
  rw [get?_push, if_neg (Nat.ne_of_lt (lt_size_of_get? h)), h]

end Table

end Rill
