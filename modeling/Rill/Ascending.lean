/-!
# Ascending collections

Items with distinct numeric keys, kept in ascending order of their keys. The
order is part of the type, so two collections with the same members are equal.
With the identity as key this is a finite set of numbers.
-/

namespace Rill

structure Ascending {α : Type} (key : α → Nat) where
  items : List α
  sorted : items.Pairwise (fun a b => key a < key b)
  deriving DecidableEq

namespace Ascending

variable {α : Type} {key : α → Nat}

def empty : Ascending key := ⟨[], .nil⟩

instance : Inhabited (Ascending key) := ⟨empty⟩

def isEmpty (c : Ascending key) : Bool := c.items.isEmpty

def size (c : Ascending key) : Nat := c.items.length

def keys (c : Ascending key) : List Nat := c.items.map key

def find? (c : Ascending key) (k : Nat) : Option α :=
  c.items.find? (key · == k)

def contains (c : Ascending key) (k : Nat) : Bool :=
  c.items.any (key · == k)

/-- Puts an item at its place in an ascending list, where it replaces one of the same key. -/
def place (key : α → Nat) (a : α) : List α → List α
  | [] => [a]
  | b :: bs =>
    if key a < key b then a :: b :: bs
    else if key a = key b then a :: bs
    else b :: place key a bs

theorem mem_place {a x : α} {l : List α} (h : x ∈ place key a l) : x = a ∨ x ∈ l := by
  induction l with
  | nil => simpa [place] using h
  | cons b bs ih => grind [place]

theorem place_sorted (a : α) {l : List α} (h : l.Pairwise (fun a b => key a < key b)) :
    (place key a l).Pairwise (fun a b => key a < key b) := by
  induction l with
  | nil => simp [place]
  | cons b bs ih =>
    obtain ⟨below, tail⟩ := List.pairwise_cons.1 h
    unfold place
    split
    · refine List.pairwise_cons.2 ⟨fun x hx => ?_, h⟩
      rcases List.mem_cons.1 hx with rfl | hx
      · assumption
      · have := below x hx
        omega
    · split
      · refine List.pairwise_cons.2 ⟨fun x hx => ?_, tail⟩
        have := below x hx
        omega
      · refine List.pairwise_cons.2 ⟨fun x hx => ?_, ih tail⟩
        rcases mem_place hx with rfl | hx
        · omega
        · exact below x hx

def insert (c : Ascending key) (a : α) : Ascending key :=
  ⟨place key a c.items, place_sorted a c.sorted⟩

def filter (c : Ascending key) (p : α → Bool) : Ascending key :=
  ⟨c.items.filter p, c.sorted.filter p⟩

def erase (c : Ascending key) (k : Nat) : Ascending key :=
  c.filter (key · != k)

/-- Changes every item and keeps its key. -/
def map (c : Ascending key) (f : α → α) (h : ∀ a, key (f a) = key a := by intros; rfl) :
    Ascending key :=
  ⟨c.items.map f, by rw [List.pairwise_map]; simpa only [h] using c.sorted⟩

/-- Changes the item of one key. -/
def modify (c : Ascending key) (k : Nat) (f : α → α)
    (h : ∀ a, key (f a) = key a := by intros; rfl) : Ascending key :=
  c.map (fun a => if key a = k then f a else a) fun a => by split <;> simp [h]

def ofList (l : List α) : Ascending key :=
  l.foldl insert empty

def union (c d : Ascending key) : Ascending key :=
  d.items.foldl insert c

end Ascending

/-- Finite sets of numbers. -/
abbrev NatSet := Ascending (id : Nat → Nat)

end Rill
