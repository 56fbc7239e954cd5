import Rill.Ascending

/-!
# Looking up in ascending collections

A collection is known by what it finds under each key: `find?_eq_some_iff` says when
that is a given item, and the other lemmas how each operation changes it. As keys
are distinct, no operation but `insert` has to care about the order of items.
-/

namespace Rill.Ascending

variable {α : Type} {key : α → Nat}

@[ext] theorem ext {c d : Ascending key} (h : c.items = d.items) : c = d := by
  cases c
  cases d
  simpa using h

/-- Items with the same key are the same. -/
theorem eq_of_key_eq {c : Ascending key} {a b : α} (ha : a ∈ c.items) (hb : b ∈ c.items)
    (same : key a = key b) : a = b := by
  have apart : ∀ x ∈ c.items, ∀ y ∈ c.items, key x = key y → x = y := by
    refine List.Pairwise.forall_of_forall_of_flip (fun _ _ _ => rfl) ?_ ?_
    · exact c.sorted.imp fun less same => absurd same (Nat.ne_of_lt less)
    · exact c.sorted.imp fun less same => absurd same (Nat.ne_of_gt less)
  exact apart a ha b hb same

/-- Looking up a key finds the item that has it, of which there is at most one. -/
theorem find?_eq_some_iff {c : Ascending key} {k : Nat} {a : α} :
    c.find? k = some a ↔ a ∈ c.items ∧ key a = k := by
  constructor
  · intro h
    exact ⟨List.mem_of_find?_eq_some h, by simpa using List.find?_some h⟩
  · rintro ⟨mem, rfl⟩
    cases found : c.find? (key a) with
    | none =>
        have := List.find?_eq_none.1 found a mem
        simp at this
    | some b =>
        have same : key b = key a := by simpa using List.find?_some found
        rw [eq_of_key_eq (List.mem_of_find?_eq_some found) mem same]

theorem key_of_find? {c : Ascending key} {k : Nat} {a : α} (h : c.find? k = some a) : key a = k :=
  (find?_eq_some_iff.1 h).2

theorem mem_of_find? {c : Ascending key} {k : Nat} {a : α} (h : c.find? k = some a) :
    a ∈ c.items :=
  (find?_eq_some_iff.1 h).1

theorem contains_eq_isSome (c : Ascending key) (k : Nat) : c.contains k = (c.find? k).isSome := by
  simp only [contains, find?, List.isSome_find?]

theorem find?_map (c : Ascending key) (f : α → α) (h : ∀ a, key (f a) = key a) (k : Nat) :
    (c.map f h).find? k = (c.find? k).map f := by
  have same : ((key · == k) ∘ f) = (key · == k) := by
    funext a
    simp only [Function.comp_apply, h]
  simp only [map, find?, List.find?_map, same]

/-- Filtering drops the item with the key or leaves it. There is no other one to take its place. -/
theorem find?_filter (c : Ascending key) (p : α → Bool) (k : Nat) :
    (c.filter p).find? k = (c.find? k).filter p := by
  ext a
  simp only [Option.filter_eq_some_iff, find?_eq_some_iff, filter, List.mem_filter]
  exact and_right_comm

theorem find?_erase (c : Ascending key) (k l : Nat) :
    (c.erase k).find? l = if l = k then none else c.find? l := by
  rw [erase, find?_filter]
  split
  next same =>
    subst same
    refine Option.filter_eq_none_iff.2 fun a found => ?_
    simp [key_of_find? found]
  next apart =>
    cases found : c.find? l with
    | none => rfl
    | some a => simp [key_of_find? found, apart]

theorem find?_modify (c : Ascending key) (k : Nat) (f : α → α) (h : ∀ a, key (f a) = key a)
    (l : Nat) : (c.modify k f h).find? l = if l = k then (c.find? l).map f else c.find? l := by
  rw [modify, find?_map]
  cases found : c.find? l with
  | none => simp
  | some a =>
      have := key_of_find? found
      split <;> simp_all

/-- An item takes the place of the one with the same key. -/
theorem mem_place_iff (a x : α) (l : List α) (sorted : l.Pairwise (fun a b => key a < key b)) :
    x ∈ place key a l ↔ x = a ∨ (x ∈ l ∧ key x ≠ key a) := by
  induction l with
  | nil => simp [place]
  | cons b bs ih =>
      obtain ⟨below, tail⟩ := List.pairwise_cons.1 sorted
      simp only [place]
      split
      · next less =>
        have : ∀ y ∈ b :: bs, key y ≠ key a := by
          intro y hy
          rcases List.mem_cons.1 hy with rfl | hy
          · omega
          · have := below y hy
            omega
        grind
      · split
        · next same =>
          have : ∀ y ∈ bs, key y ≠ key a := by
            intro y hy
            have := below y hy
            omega
          grind
        · next more =>
          simp only [List.mem_cons, ih tail]
          grind

/-- The item put in last is the one that is found. -/
theorem find?_insert (c : Ascending key) (a : α) (k : Nat) :
    (c.insert a).find? k = if key a = k then some a else c.find? k := by
  ext x
  rw [find?_eq_some_iff]
  simp only [insert, mem_place_iff a x c.items c.sorted]
  split
  next same => grind
  next apart =>
    rw [find?_eq_some_iff]
    grind

theorem contains_insert (s : NatSet) (n k : Nat) :
    (s.insert n).contains k = (k == n || s.contains k) := by
  rw [contains_eq_isSome, contains_eq_isSome, find?_insert]
  grind

theorem contains_filter (s : NatSet) (p : Nat → Bool) (k : Nat) :
    (s.filter p).contains k = (s.contains k && p k) := by
  rw [contains_eq_isSome, contains_eq_isSome, find?_filter]
  cases found : s.find? k with
  | none => rfl
  | some n =>
      obtain rfl : n = k := key_of_find? found
      cases h : p n <;> simp [h]

theorem contains_erase (s : NatSet) (n k : Nat) :
    (s.erase n).contains k = (s.contains k && k != n) := by
  rw [erase, contains_filter]
  rfl

theorem contains_union (s t : NatSet) (k : Nat) :
    (s.union t).contains k = (s.contains k || t.contains k) := by
  have folded : ∀ (l : List Nat) (s : NatSet),
      (l.foldl insert s).contains k = (s.contains k || l.any (· == k)) := by
    intro l
    induction l with
    | nil => simp
    | cons n l ih =>
        intro s
        rw [List.foldl_cons, ih, contains_insert, List.any_cons]
        grind
  exact folded t.items s

theorem isEmpty_iff (s : NatSet) : s.isEmpty = true ↔ ∀ k, s.contains k = false := by
  simp only [isEmpty, contains, List.isEmpty_iff, List.any_eq_false]
  constructor
  · intro empty k
    simp [empty]
  · intro none
    refine List.eq_nil_iff_forall_not_mem.2 fun n mem => ?_
    have := none n n mem
    simp at this

@[simp] theorem contains_empty (k : Nat) : (empty : NatSet).contains k = false := rfl

theorem mem_of_mem_ofList {l : List α} {a : α} (h : a ∈ (ofList l : Ascending key).items) :
    a ∈ l := by
  have spread : ∀ (l : List α) (c : Ascending key), a ∈ (l.foldl insert c).items →
      a ∈ c.items ∨ a ∈ l := by
    intro l
    induction l with
    | nil => exact fun _ mem => .inl mem
    | cons b bs ih =>
        intro c mem
        rcases ih _ mem with mem | mem
        · rcases mem_place mem with rfl | mem
          · exact .inr List.mem_cons_self
          · exact .inl mem
        · exact .inr (List.mem_cons_of_mem b mem)
  exact (spread l empty h).resolve_left List.not_mem_nil

/-- An ascending list is a collection as it is. -/
theorem items_ofList {l : List α} (sorted : l.Pairwise (fun a b => key a < key b)) :
    (ofList l : Ascending key).items = l := by
  have last : ∀ (m : List α) (a : α), (∀ b ∈ m, key b < key a) → place key a m = m ++ [a] := by
    intro m a below
    induction m with
    | nil => rfl
    | cons b bs ih =>
        have less := below b List.mem_cons_self
        simp only [place, if_neg (Nat.lt_asymm less), if_neg (Nat.ne_of_gt less), List.cons_append,
          ih fun x hx => below x (List.mem_cons_of_mem b hx)]
  have folded : ∀ (l : List α) (c : Ascending key),
      (c.items ++ l).Pairwise (fun a b => key a < key b) →
      (l.foldl insert c).items = c.items ++ l := by
    intro l
    induction l with
    | nil => simp
    | cons a l ih =>
        intro c sorted
        have placed : (c.insert a).items = c.items ++ [a] :=
          last c.items a fun b mem =>
            (List.pairwise_append.1 sorted).2.2 b mem a List.mem_cons_self
        rw [List.foldl_cons, ih]
        · rw [placed, List.append_assoc, List.singleton_append]
        · rw [placed, List.append_assoc, List.singleton_append]
          exact sorted
  exact folded l empty sorted

end Rill.Ascending
