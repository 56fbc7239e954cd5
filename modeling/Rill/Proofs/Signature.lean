import Mathlib.Data.List.Nodup
import Rill.Proofs.Computation
import Rill.Signature

/-!
# Filling the table of signatures

Names are entered in the order of declaration, each of them once, so that the place of a
name among them gives the number of its function. The rows and the numbers by name are two
records of the same declarations: `Consistent` says that they agree, and every declaration
keeps this. Building the table of a module fails just if a name comes up again, and then it
is about the first function with such a name.
-/

namespace Rill

/-- The names that functions are declared under. -/
def declaredNames (functions : List Function) : List String :=
  functions.map (·.header.name.name)

/-- What is kept of a header under a number. -/
def Header.signature (h : Header) (id : Nat) : Signature :=
  ⟨id, h.name.name, h.params.map (·.ty), h.returnType⟩

namespace SignatureTable

variable {numbering : Numbering} {t : SignatureTable} {name : String} {i : Nat}

def names (t : SignatureTable) : List String :=
  t.signatures.toList.map (·.name)

theorem length_names (t : SignatureTable) : t.names.length = t.size := by
  simp [names, Table.toList, size, Table.size]

theorem getElem?_names (t : SignatureTable) (i : Nat) :
    t.names[i]? = (t.signatures.get? i).map (·.name) := by
  rw [names, List.getElem?_map, Table.getElem?_toList]

/-- The table with a header under the next number. -/
def adding (numbering : Numbering) (t : SignatureTable) (h : Header) : SignatureTable :=
  ⟨t.signatures.push (h.signature (numbering.number t.size)),
    (h.name.name, numbering.number t.size) :: t.byName⟩

theorem names_adding (t : SignatureTable) (h : Header) :
    (t.adding numbering h).names = t.names ++ [h.name.name] := by
  simp [adding, names, Header.signature]

theorem getElem?_names_adding (t : SignatureTable) (h : Header) (name : String) (i : Nat) :
    (t.adding numbering h).names[i]? = some name ↔
      t.names[i]? = some name ∨ i = t.size ∧ h.name.name = name := by
  rw [getElem?_names, getElem?_names, adding, Table.get?_push]
  split
  · next last =>
    subst last
    have missing : t.signatures.get? t.signatures.size = none :=
      (t.signatures.get?_eq_none_iff _).2 (Nat.le_refl _)
    simp [missing, Header.signature, size]
  · next other => simp [other, size]

theorem handle?_adding (t : SignatureTable) (h : Header) (name : String) :
    (t.adding numbering h).handle? name =
      if name = h.name.name then some (numbering.number t.size) else t.handle? name := by
  rw [handle?, adding, List.lookup_cons]
  by_cases same : name = h.name.name
  · simp [same]
  · simp [same, beq_eq_false_iff_ne.2 same, handle?]

/-- No name is there twice, the rows go by the numbers of their places, and under a name there is
the number of the row with that name. -/
structure Consistent (numbering : Numbering) (t : SignatureTable) : Prop where
  nodup : t.names.Nodup
  ids : ∀ i s, t.signatures.get? i = some s → s.id = numbering.number i
  numbers : ∀ name n, t.handle? name = some n ↔
    ∃ i, t.names[i]? = some name ∧ numbering.number i = n

namespace Consistent

theorem empty : empty.Consistent numbering where
  nodup := List.nodup_nil
  ids := fun i s found => by cases found
  numbers := fun name n => iff_of_false (fun found => by cases found) fun ⟨i, found, _⟩ => by
    cases found

theorem handle?_of_names (h : t.Consistent numbering) (there : t.names[i]? = some name) :
    t.handle? name = some (numbering.number i) :=
  (h.numbers name _).2 ⟨i, there, rfl⟩

theorem handle?_eq_none (h : t.Consistent numbering) :
    t.handle? name = none ↔ name ∉ t.names := by
  rw [← not_iff_not, not_not, ← ne_eq, Option.ne_none_iff_exists']
  constructor
  · rintro ⟨n, found⟩
    obtain ⟨i, there, _⟩ := (h.numbers name n).1 found
    exact List.mem_of_getElem? there
  · intro mem
    obtain ⟨i, there⟩ := List.mem_iff_getElem?.1 mem
    exact ⟨_, h.handle?_of_names there⟩

/-- Whatever the number under a name, there is a row of that number. -/
theorem get?_of_handle? (h : t.Consistent numbering) {n : Nat} (found : t.handle? name = some n) :
    ∃ s, t.signatures.get? n = some s := by
  obtain ⟨i, there, rfl⟩ := (h.numbers name n).1 found
  obtain ⟨inside, _⟩ := List.getElem?_eq_some_iff.1 there
  refine t.signatures.exists_get? (Nat.lt_of_le_of_lt (numbering.number_le i) ?_)
  exact Nat.lt_of_lt_of_eq inside t.length_names

/-- Rows and numbers by name belong together just as long as there are enough numbers. -/
theorem covers_iff (h : t.Consistent numbering) : numbering.Covers t.size ↔
    ∀ name n, t.handle? name = some n ↔
      ∃ s, t.signatures.get? n = some s ∧ s.name = name ∧ s.id = n := by
  rw [Numbering.covers_iff]
  constructor
  · intro places name n
    rw [h.numbers]
    simp only [getElem?_names, Option.map_eq_some_iff]
    constructor
    · rintro ⟨i, ⟨s, row, named⟩, rfl⟩
      rw [places i (Table.lt_size_of_get? row)]
      exact ⟨s, row, named, (h.ids i s row).trans (places i (Table.lt_size_of_get? row))⟩
    · rintro ⟨s, row, named, _⟩
      exact ⟨n, ⟨s, row, named⟩, places n (Table.lt_size_of_get? row)⟩
  · intro agree i inside
    rw [← t.length_names] at inside
    -- The row of the number has the same name as the row of the place.
    obtain ⟨s, row, named, _⟩ :=
      (agree _ _).1 (h.handle?_of_names (List.getElem?_eq_getElem inside))
    have there : t.names[numbering.number i]? = some t.names[i] := by
      rw [getElem?_names, row, Option.map_some, named]
    obtain ⟨inside', same⟩ := List.getElem?_eq_some_iff.1 there
    exact h.nodup.getElem_inj_iff.1 same

/-- A new name keeps the rows and the numbers by name in step. -/
theorem adding (h : t.Consistent numbering) {header : Header} (new : header.name.name ∉ t.names) :
    (t.adding numbering header).Consistent numbering where
  nodup := by
    rw [names_adding, ← List.concat_eq_append, List.nodup_concat]
    exact ⟨new, h.nodup⟩
  ids := by
    intro i s found
    rw [SignatureTable.adding, Table.get?_push] at found
    split at found
    · next last =>
      cases found
      rw [last]
      rfl
    · exact h.ids i s found
  numbers := by
    intro name n
    simp only [getElem?_names_adding]
    rw [handle?_adding]
    by_cases same : name = header.name.name
    · subst same
      rw [if_pos rfl]
      constructor
      · intro found
        exact ⟨t.size, .inr ⟨rfl, rfl⟩, Option.some.inj found⟩
      · rintro ⟨i, there | ⟨rfl, _⟩, rfl⟩
        · exact absurd (List.mem_of_getElem? there) new
        · rfl
    · rw [if_neg same, h.numbers]
      refine exists_congr fun i => and_congr_left fun _ => ?_
      exact (or_iff_left fun last => same last.2.symm).symm

theorem declare_of_not_mem (h : t.Consistent numbering) {header : Header}
    (new : header.name.name ∉ t.names) :
    t.declare header numbering = .ok (numbering.number t.size, t.adding numbering header) := by
  rw [declare, h.handle?_eq_none.2 new]
  rfl

theorem declare_of_mem (h : t.Consistent numbering) {header : Header}
    (known : header.name.name ∈ t.names) :
    t.declare header numbering =
      .error ⟨.duplicateFunction header.name.name, header.name.span⟩ := by
  obtain ⟨i, there⟩ := List.mem_iff_getElem?.1 known
  rw [declare, h.handle?_of_names there]
  rfl

end Consistent

/-- Declares functions one after the other. -/
def declareAll (numbering : Numbering) (t : SignatureTable) (fs : List Function) :
    Except CompileError SignatureTable :=
  fs.foldlM (fun t f => return (← t.declare f.header numbering).2) t

theorem declareAll_cons_of_ok {t' : SignatureTable} {f : Function} (fs : List Function)
    (h : t.declare f.header numbering = .ok (i, t')) :
    t.declareAll numbering (f :: fs) = t'.declareAll numbering fs := by
  rw [declareAll, List.foldlM_cons, h]
  rfl

theorem declareAll_cons_of_error {f : Function} {e : CompileError} (fs : List Function)
    (h : t.declare f.header numbering = .error e) :
    t.declareAll numbering (f :: fs) = .error e := by
  rw [declareAll, List.foldlM_cons, h]
  rfl

/-- All functions are declared unless a name comes up again. -/
theorem declareAll_cases (fs : List Function) (consistent : t.Consistent numbering) :
    (∃ t', t.declareAll numbering fs = .ok t' ∧ t'.names = t.names ++ declaredNames fs ∧
        t'.Consistent numbering) ∨
      ∃ before f after, fs = before ++ f :: after ∧ (t.names ++ declaredNames before).Nodup ∧
        f.header.name.name ∈ t.names ++ declaredNames before ∧
        t.declareAll numbering fs =
          .error ⟨.duplicateFunction f.header.name.name, f.header.name.span⟩ := by
  induction fs generalizing t with
  | nil => exact .inl ⟨t, rfl, by simp [declaredNames], consistent⟩
  | cons f fs ih =>
      by_cases known : f.header.name.name ∈ t.names
      · exact .inr ⟨[], f, fs, rfl, by simpa [declaredNames] using consistent.nodup,
          by simpa [declaredNames] using known,
          declareAll_cons_of_error fs (consistent.declare_of_mem known)⟩
      · have behind : ∀ gs, (t.adding numbering f.header).names ++ declaredNames gs =
            t.names ++ declaredNames (f :: gs) := by
          intro gs
          simp [names_adding, declaredNames]
        rw [declareAll_cons_of_ok fs (consistent.declare_of_not_mem known)]
        rcases ih (consistent.adding known) with ⟨t', built, names, consistent'⟩ |
          ⟨before, g, after, rfl, early, again, refused⟩
        · exact .inl ⟨t', built, names.trans (behind fs), consistent'⟩
        · rw [behind] at early again
          exact .inr ⟨f :: before, g, after, rfl, early, again, refused⟩

/-- The table of a module is built if all names are different. Otherwise the error is about the
first function whose name was declared before. -/
theorem build_cases (m : Module) (numbering : Numbering := .whole) :
    (∃ t, build m numbering = .ok t ∧ t.names = declaredNames m.functions ∧
        t.Consistent numbering) ∨
      ∃ before f after, m.functions = before ++ f :: after ∧ (declaredNames before).Nodup ∧
        f.header.name.name ∈ declaredNames before ∧
        build m numbering = .error ⟨.duplicateFunction f.header.name.name, f.header.name.span⟩ := by
  have start : build m numbering = empty.declareAll numbering m.functions := rfl
  have none : empty.names = [] := rfl
  rw [start]
  simpa only [none, List.nil_append] using declareAll_cases m.functions .empty

end SignatureTable

end Rill
