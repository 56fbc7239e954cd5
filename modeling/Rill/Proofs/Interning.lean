import Mathlib.Data.Finset.Card
import Mathlib.Logic.Function.Basic
import Mathlib.Logic.Relation
import Rill.Symbol

/-!
# Interning side by side

Any number of threads share one symbol table. In a step one of them looks something up, or goes
through one half of an insertion; a lock makes each of these a step of its own, but between the two
halves of an insertion all the others can have their turns (`Interning.Step`).

Whatever the order is, no string is added twice: the second half of an insertion looks at the table
as it is then. So the strings by number and the numbers by string stay inverse to each other
(`SymbolTable.Consistent`), entries stay where they are, and what a thread has been told once is
true for ever.
-/

namespace Rill

namespace SymbolTable

variable {t t' t'' : SymbolTable} {s : String} {n : Nat}

/-- The strings by number and the numbers by string say the same. -/
def Consistent (t : SymbolTable) : Prop :=
  ∀ s n, t.indexOf? s = some n ↔ t.get? n = some s

/-- All entries of the first table are in the second one, under the same numbers. -/
def Grows (t t' : SymbolTable) : Prop :=
  ∀ n s, t.get? n = some s → t'.get? n = some s

theorem Grows.refl (t : SymbolTable) : t.Grows t :=
  fun _ _ => id

theorem Grows.trans (h : t.Grows t') (h' : t'.Grows t'') : t.Grows t'' :=
  fun n s there => h' n s (h n s there)

theorem consistent_empty : empty.Consistent := by
  intro s n
  simp [empty, indexOf?, get?, Table.get?, Table.empty]

theorem Consistent.nodup (h : t.Consistent) : t.strings.toList.Nodup := by
  rw [List.nodup_iff_getElem?_ne_getElem?]
  intro i j before inside same
  obtain ⟨s, there⟩ : ∃ s, t.strings.toList[j]? = some s :=
    ⟨_, List.getElem?_eq_getElem inside⟩
  have second : t.indexOf? s = some j := (h s j).2 ((t.strings.getElem?_toList j).symm.trans there)
  have first : t.indexOf? s = some i :=
    (h s i).2 ((t.strings.getElem?_toList i).symm.trans (same.trans there))
  cases first.symm.trans second
  exact Nat.lt_irrefl i before

theorem insertLocked_of_some (h : t.indexOf? s = some n) : t.insertLocked s = (n, t) := by
  rw [insertLocked, h]

theorem insertLocked_of_none (h : t.indexOf? s = none) :
    t.insertLocked s = (rowNumber t.strings.size,
      ⟨t.strings.push s, (s, rowNumber t.strings.size) :: t.indices⟩) := by
  rw [insertLocked, h]
  rfl

theorem indexOf?_cons (strings : Table String) (indices : List (String × Nat)) (s s' : String)
    (n : Nat) : indexOf? ⟨strings, (s, n) :: indices⟩ s' =
      if s' = s then some n else indices.lookup s' := by
  by_cases own : s' = s
  · simp [indexOf?, own]
  · have other : (s' == s) = false := beq_false_of_ne own
    simp [indexOf?, List.lookup_cons, other, own]

theorem grows_insertLocked (t : SymbolTable) (s : String) : t.Grows (t.insertLocked s).2 := by
  cases known : t.indexOf? s with
  | some n =>
      rw [insertLocked_of_some known]
      exact .refl t
  | none =>
      rw [insertLocked_of_none known]
      exact fun n s' there => Table.get?_push_of_get? there s

theorem mem_insertLocked {s' : String} (h : (t.insertLocked s).2.get? n = some s') :
    t.get? n = some s' ∨ s' = s := by
  cases known : t.indexOf? s with
  | some m =>
      rw [insertLocked_of_some known] at h
      exact .inl h
  | none =>
      rw [insertLocked_of_none known, get?, Table.get?_push] at h
      split at h
      · exact .inr (Option.some.inj h).symm
      · exact .inl h

/-- As long as there are numbers left, a new string gets its own. -/
theorem Consistent.insertLocked (h : t.Consistent)
    (room : t.indexOf? s = none → t.strings.size < 0x100000000) :
    (t.insertLocked s).2.Consistent ∧
      (t.insertLocked s).2.get? (t.insertLocked s).1 = some s := by
  cases known : t.indexOf? s with
  | some n =>
      rw [insertLocked_of_some known]
      exact ⟨h, (h s n).1 known⟩
  | none =>
      have number : rowNumber t.strings.size = t.strings.size := Nat.mod_eq_of_lt (room known)
      have absent : ∀ n, t.get? n ≠ some s := by
        intro n there
        cases known.symm.trans ((h s n).2 there)
      rw [insertLocked_of_none known, number]
      refine ⟨fun s' n => ?_, ?_⟩
      · rw [indexOf?_cons, get?, Table.get?_push]
        by_cases own : s' = s
        · rw [if_pos own, own]
          by_cases last : n = t.strings.size
          · rw [if_pos last, last]
            exact iff_of_true rfl rfl
          · rw [if_neg last]
            refine iff_of_false (fun same => last (Option.some.inj same).symm) (absent n)
        · rw [if_neg own]
          by_cases last : n = t.strings.size
          · rw [if_pos last]
            refine iff_of_false (fun there => ?_) fun same => own (Option.some.inj same).symm
            exact Nat.ne_of_lt (Table.lt_size_of_get? ((h s' n).1 there)) last
          · rw [if_neg last]
            exact h s' n
      · rw [get?, Table.get?_push, if_pos rfl]

/-- A table of some of the strings has room for all of them. -/
theorem Consistent.size_lt (h : t.Consistent) {names : Finset String}
    (among : ∀ n s, t.get? n = some s → s ∈ names) (mem : s ∈ names)
    (new : t.indexOf? s = none) : t.strings.size < names.card := by
  have absent : s ∉ t.strings.toList := by
    intro there
    obtain ⟨n, there⟩ := List.getElem?_of_mem there
    rw [Table.getElem?_toList] at there
    cases new.symm.trans ((h s n).2 there)
  have subset : (s :: t.strings.toList).toFinset ⊆ names := by
    intro s' there
    rcases List.mem_cons.1 (List.mem_toFinset.1 there) with rfl | there
    · exact mem
    · obtain ⟨n, there⟩ := List.getElem?_of_mem there
      rw [Table.getElem?_toList] at there
      exact among n s' there
  have count := Finset.card_le_card subset
  rw [List.toFinset_card_of_nodup (List.nodup_cons.2 ⟨absent, h.nodup⟩)] at count
  exact count

end SymbolTable

/-- What a thread has been told. -/
inductive Answer where
  | inserted (s : String) (n : Nat)
  | got (n : Nat) (s : Option String)
  | found (s : String) (n : Option Nat)

/-- What has been told of an entry is true of the table. -/
def Answer.Holds (t : SymbolTable) : Answer → Prop
  | .inserted s n => t.get? n = some s
  | .got n s => ∀ s' ∈ s, t.get? n = some s'
  | .found s n => ∀ n' ∈ n, t.get? n' = some s

theorem Answer.Holds.mono {t t' : SymbolTable} {a : Answer} (h : a.Holds t) (grows : t.Grows t') :
    a.Holds t' := by
  cases a with
  | inserted s n => exact grows n s h
  | got n s => exact fun s' told => grows n s' (h s' told)
  | found s n => exact fun n' told => grows n' s (h n' told)

/-- The table and the threads that share it. Some are between the two halves of an insertion: they
have looked up a string and have not found it. -/
structure Interning (ι : Type) where
  table : SymbolTable
  missed : ι → Option String
  answers : List (ι × Answer)

namespace Interning

variable {ι : Type} {names : Finset String} {S T : Interning ι} {i : ι} {s : String}

def initial : Interning ι where
  table := .empty
  missed := fun _ => none
  answers := []

/-- The table is consistent, it has only strings that were to be inserted, and all answers are
true. -/
structure Sound (names : Finset String) (S : Interning ι) : Prop where
  consistent : S.table.Consistent
  among : ∀ n s, S.table.get? n = some s → s ∈ names
  missed : ∀ i s, S.missed i = some s → s ∈ names
  answers : ∀ i a, (i, a) ∈ S.answers → a.Holds S.table

theorem sound_initial : (initial : Interning ι).Sound names where
  consistent := SymbolTable.consistent_empty
  among n s there := by cases there
  missed i s half := by cases half
  answers i a mem := by cases mem

theorem Sound.tell (sound : S.Sound names) (i : ι) {a : Answer} (holds : a.Holds S.table) :
    Sound names ⟨S.table, S.missed, (i, a) :: S.answers⟩ := by
  refine ⟨sound.consistent, sound.among, sound.missed, fun i' a' told => ?_⟩
  rcases List.mem_cons.1 told with same | told
  · cases same
    exact holds
  · exact sound.answers i' a' told

variable [DecidableEq ι]

/-- Some thread takes a step. All strings that are inserted are among `names`. -/
inductive Step (names : Finset String) : Interning ι → Interning ι → Prop
  /-- The first half of an insertion finds the string, and there is no second one. -/
  | finds {S : Interning ι} {i : ι} {s : String} {n : Nat} (idle : S.missed i = none)
      (mem : s ∈ names) (there : S.table.indexOf? s = some n) :
      Step names S ⟨S.table, S.missed, (i, .inserted s n) :: S.answers⟩
  | misses {S : Interning ι} {i : ι} {s : String} (idle : S.missed i = none)
      (mem : s ∈ names) (absent : S.table.indexOf? s = none) :
      Step names S ⟨S.table, Function.update S.missed i (some s), S.answers⟩
  | writes {S : Interning ι} {i : ι} {s : String} (half : S.missed i = some s) :
      Step names S ⟨(S.table.insertLocked s).2, Function.update S.missed i none,
        (i, .inserted s (S.table.insertLocked s).1) :: S.answers⟩
  | gets {S : Interning ι} {i : ι} (idle : S.missed i = none) (n : Nat) :
      Step names S ⟨S.table, S.missed, (i, .got n (S.table.get? n)) :: S.answers⟩
  | asks {S : Interning ι} {i : ι} (idle : S.missed i = none) (s : String) :
      Step names S ⟨S.table, S.missed, (i, .found s (S.table.indexOf? s)) :: S.answers⟩

/-- Steps of any threads, one after the other. -/
abbrev Reaches (names : Finset String) : Interning ι → Interning ι → Prop :=
  Relation.ReflTransGen (Step names)

/-- An insertion that is not interrupted does what `SymbolTable.insert` does. -/
theorem reaches_insert (idle : S.missed i = none) (mem : s ∈ names) :
    Reaches names S ⟨(S.table.insert s).2, S.missed,
      (i, .inserted s (S.table.insert s).1) :: S.answers⟩ := by
  cases known : S.table.indexOf? s with
  | some n =>
      rw [SymbolTable.insert, known]
      exact .single (.finds idle mem known)
  | none =>
      have back : Function.update (Function.update S.missed i (some s)) i none = S.missed := by
        rw [Function.update_idem, ← idle, Function.update_eq_self]
      have second : Step names ⟨S.table, Function.update S.missed i (some s), S.answers⟩ _ :=
        .writes (Function.update_self i (some s) S.missed)
      rw [back] at second
      rw [SymbolTable.insert, known]
      exact .head (.misses idle mem known) (.single second)

theorem Step.grows (h : Step names S T) : S.table.Grows T.table := by
  cases h with
  | writes half => exact S.table.grows_insertLocked _
  | finds | misses | gets | asks => exact .refl S.table

theorem Sound.missed_update (sound : S.Sound names) {o : Option String}
    (among : ∀ s, o = some s → s ∈ names) :
    ∀ i' s, Function.update S.missed i o i' = some s → s ∈ names :=
  (Function.forall_update_iff S.missed fun _ o => ∀ s, o = some s → s ∈ names).2
    ⟨among, fun i' _ => sound.missed i'⟩

theorem Sound.step (few : names.card < 0x100000000) (sound : S.Sound names) (h : Step names S T) :
    T.Sound names := by
  cases h with
  | finds idle mem there => exact sound.tell _ ((sound.consistent _ _).1 there)
  | gets idle n => exact sound.tell _ fun _ there => there
  | asks idle s => exact sound.tell _ fun n there => (sound.consistent s n).1 there
  | @misses i s idle mem absent =>
      refine ⟨sound.consistent, sound.among, sound.missed_update ?_, sound.answers⟩
      rintro _ ⟨⟩
      exact mem
  | @writes i s half =>
      have mem : s ∈ names := sound.missed i s half
      have room (new : S.table.indexOf? s = none) : S.table.strings.size < 0x100000000 :=
        (sound.consistent.size_lt sound.among mem new).trans few
      obtain ⟨consistent, there⟩ := sound.consistent.insertLocked room
      -- All that was true of the table is true of the new one, so the answer can be added to the
      -- others as if there had only been the new table.
      have written : Sound names
          ⟨(S.table.insertLocked s).2, Function.update S.missed i none, S.answers⟩ := by
        refine ⟨consistent, fun n s' there => ?_, sound.missed_update ?_, fun i' a told => ?_⟩
        · rcases SymbolTable.mem_insertLocked there with there | rfl
          · exact sound.among n s' there
          · exact mem
        · intro s' none
          cases none
        · exact (sound.answers i' a told).mono (S.table.grows_insertLocked s)
      exact written.tell i there

theorem Reaches.grows (h : Reaches names S T) : S.table.Grows T.table := by
  induction h with
  | refl => exact .refl S.table
  | tail _ step ih => exact ih.trans step.grows

theorem Sound.reaches (few : names.card < 0x100000000) (sound : S.Sound names)
    (h : Reaches names S T) : T.Sound names := by
  induction h with
  | refl => exact sound
  | tail _ step ih => exact ih.step few step

/-- Insertions that race for one string get the same number, and others get others: in every order
of their steps the table stays consistent, its entries stay, and every answer is and stays true.
There must be a number of 32 bits for each of the strings. -/
theorem interned_once (few : names.card < 0x100000000) (reached : Reaches names initial S) :
    S.table.strings.toList.Nodup ∧
      (∀ s n, S.table.indexOf? s = some n ↔ S.table.get? n = some s) ∧
      (∀ T, Reaches names S T → ∀ s n, S.table.get? n = some s →
        T.table.get? n = some s ∧ T.table.indexOf? s = some n) ∧
      (∀ i s n, (i, .inserted s n) ∈ S.answers →
        S.table.get? n = some s ∧ S.table.indexOf? s = some n) ∧
      (∀ i s n i' s' n', (i, .inserted s n) ∈ S.answers → (i', .inserted s' n') ∈ S.answers →
        (n = n' ↔ s = s')) ∧
      (∀ i a, (i, a) ∈ S.answers → ∀ T, Reaches names S T → a.Holds T.table) := by
  have sound : S.Sound names := sound_initial.reaches few reached
  have told (i : ι) (s : String) (n : Nat) (mem : (i, .inserted s n) ∈ S.answers) :
      S.table.get? n = some s := sound.answers i (.inserted s n) mem
  refine ⟨sound.consistent.nodup, sound.consistent, fun T later s n there => ?_,
    fun i s n mem => ?_, fun i s n i' s' n' mem mem' => ⟨?_, ?_⟩, fun i a mem T later => ?_⟩
  · have there' := later.grows n s there
    exact ⟨there', ((sound.reaches few later).consistent s n).2 there'⟩
  · exact ⟨told i s n mem, (sound.consistent s n).2 (told i s n mem)⟩
  · rintro rfl
    exact Option.some.inj ((told i s n mem).symm.trans (told i' s' n mem'))
  · rintro rfl
    have found := (sound.consistent s n).2 (told i s n mem)
    exact Option.some.inj (found.symm.trans ((sound.consistent s n').2 (told i' s n' mem')))
  · exact (sound.answers i a mem).mono later.grows

/-- Two threads look one string up before either has added it, and another string is added before
the slower one goes on. -/
theorem interned_once_racing : ∃ S : Interning Bool, Reaches {"x", "y"} initial S ∧
    (false, .inserted "x" 0) ∈ S.answers ∧ (false, .inserted "y" 1) ∈ S.answers ∧
    (true, .inserted "x" 0) ∈ S.answers ∧ S.table.strings.toList.Nodup := by
  have few : ({"x", "y"} : Finset String).card < 0x100000000 := by decide
  have run : Reaches {"x", "y"} (initial : Interning Bool) _ :=
    .head (.misses (i := true) (s := "x") rfl (by decide) rfl)
      (.head (.misses (i := false) (s := "x") rfl (by decide) rfl)
        (.head (.writes (i := false) (s := "x") rfl)
          (.trans (reaches_insert (i := false) (s := "y") rfl (by decide))
            (.single (.writes (i := true) (s := "x") rfl)))))
  refine ⟨_, run, .tail _ (.tail _ (.head _)), .tail _ (.head _), .head _, ?_⟩
  exact (interned_once few run).1

end Interning

end Rill
