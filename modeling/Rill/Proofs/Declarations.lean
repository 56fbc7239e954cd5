import Mathlib.Data.Finset.Card
import Mathlib.Data.List.Nodup
import Rill.Proofs.Signature

/-!
# Declarations one after the other

Headers are declared in any order and any number of times, and a refused declaration is no
reason to stop. The first declaration of a name is the one that counts: it gets the number of
the names before it, and `Records` says that the table is consistent, has the declaration under
this number and has nothing else. Every declaration keeps this, and all answers of the table
follow from it. Where numbers have 32 bits, the rows and the numbers by name belong together as
long as there are no more than 2^32 names, and no longer.
-/

namespace Rill

/-- The names of headers in their order. -/
def namesOf (headers : List Header) : List String :=
  headers.map (·.name.name)

@[simp] theorem namesOf_append (headers more : List Header) :
    namesOf (headers ++ more) = namesOf headers ++ namesOf more :=
  List.map_append

@[simp] theorem namesOf_cons (h : Header) (headers : List Header) :
    namesOf (h :: headers) = h.name.name :: namesOf headers := rfl

@[simp] theorem namesOf_nil : namesOf [] = [] := rfl

/-- A header among some and one more is the last one, or it is among the others. -/
theorem split_concat {headers before after : List Header} {h g : Header}
    (split : headers ++ [h] = before ++ g :: after) :
    (headers = before ∧ h = g) ∨ ∃ after', headers = before ++ g :: after' := by
  rcases List.eq_nil_or_concat after with rfl | ⟨after, last, rfl⟩
  · obtain ⟨same, last⟩ := List.append_inj' split rfl
    exact .inl ⟨same, List.singleton_injective last⟩
  · rw [List.concat_eq_append, ← List.cons_append, ← List.append_assoc] at split
    exact .inr ⟨after, (List.append_inj' split rfl).1⟩

/-- How many different names there are. -/
def distinctNames (headers : List Header) : Nat :=
  (namesOf headers).toFinset.card

theorem distinctNames_concat_of_mem {headers : List Header} {h : Header}
    (known : h.name.name ∈ namesOf headers) :
    distinctNames (headers ++ [h]) = distinctNames headers := by
  have same : (namesOf (headers ++ [h])).toFinset = (namesOf headers).toFinset := by
    ext name
    simp only [namesOf_append, namesOf_cons, namesOf_nil, List.mem_toFinset, List.mem_append,
      List.mem_singleton, or_iff_left_iff_imp]
    rintro rfl
    exact known
  rw [distinctNames, same, distinctNames]

theorem distinctNames_concat_of_not_mem {headers : List Header} {h : Header}
    (new : h.name.name ∉ namesOf headers) :
    distinctNames (headers ++ [h]) = distinctNames headers + 1 := by
  have more : (namesOf (headers ++ [h])).toFinset =
      insert h.name.name (namesOf headers).toFinset := by
    ext name
    simp
  rw [distinctNames, more, Finset.card_insert_of_notMem (by simpa using new), distinctNames]

theorem distinctNames_of_nodup {headers : List Header} (nodup : (namesOf headers).Nodup) :
    distinctNames headers = headers.length := by
  rw [distinctNames, List.toFinset_card_of_nodup nodup, namesOf, List.length_map]

namespace SignatureTable

variable {numbering : Numbering} {t t' : SignatureTable} {headers : List Header} {h : Header}
  {name : String}

/-- The table after a declaration: if it is refused, there is only the old one. -/
def enter (numbering : Numbering) (t : SignatureTable) (h : Header) : SignatureTable :=
  match t.declare h numbering with
  | .ok (_, t') => t'
  | .error _ => t

/-- The table after declarations that begin with an empty one. -/
def entered (numbering : Numbering) (headers : List Header) : SignatureTable :=
  headers.foldl (enter numbering) empty

theorem entered_concat (numbering : Numbering) (headers : List Header) (h : Header) :
    entered numbering (headers ++ [h]) = (entered numbering headers).enter numbering h := by
  rw [entered, List.foldl_append, List.foldl_cons, List.foldl_nil, entered]

/-- The table is consistent and has every name in the row of its first declaration. -/
structure Records (numbering : Numbering) (t : SignatureTable) (headers : List Header) : Prop where
  consistent : t.Consistent numbering
  size : t.size = distinctNames headers
  mem_names : ∀ name, name ∈ t.names ↔ name ∈ namesOf headers
  first : ∀ before h after, headers = before ++ h :: after → h.name.name ∉ namesOf before →
    t.signatures.get? (distinctNames before) =
      some (h.signature (numbering.number (distinctNames before)))

namespace Records

theorem empty : empty.Records numbering [] where
  consistent := .empty
  size := rfl
  mem_names := fun _ => Iff.rfl
  first := fun before h after split => by simp at split

/-- A name that is known is not entered again. -/
theorem refused (records : t.Records numbering headers) (known : h.name.name ∈ namesOf headers) :
    t.Records numbering (headers ++ [h]) where
  consistent := records.consistent
  size := records.size.trans (distinctNames_concat_of_mem known).symm
  mem_names := by
    intro name
    rw [records.mem_names, namesOf_append, List.mem_append, namesOf_cons, namesOf_nil,
      List.mem_singleton, iff_self_or]
    rintro rfl
    exact known
  first := by
    intro before g after split new
    rcases split_concat split with ⟨rfl, rfl⟩ | ⟨after, split⟩
    · exact absurd known new
    · exact records.first before g after split new

/-- A new name gets the next number, and the others keep theirs. -/
theorem adding (records : t.Records numbering headers) (new : h.name.name ∉ namesOf headers) :
    (t.adding numbering h).Records numbering (headers ++ [h]) where
  consistent := records.consistent.adding (mt (records.mem_names _).1 new)
  size := by
    rw [distinctNames_concat_of_not_mem new, ← records.size]
    exact Table.size_push ..
  mem_names := by
    intro name
    rw [names_adding, List.mem_append, records.mem_names, namesOf_append, List.mem_append,
      namesOf_cons, namesOf_nil]
  first := by
    intro before g after split early
    rcases split_concat split with ⟨rfl, rfl⟩ | ⟨after, split⟩
    · rw [← records.size]
      exact (Table.get?_push ..).trans (if_pos rfl)
    · exact Table.get?_push_of_get? (records.first before g after split early) _

theorem declare_of_mem (records : t.Records numbering headers)
    (known : h.name.name ∈ namesOf headers) :
    t.declare h numbering = .error ⟨.duplicateFunction h.name.name, h.name.span⟩ :=
  records.consistent.declare_of_mem ((records.mem_names _).2 known)

theorem declare_of_not_mem (records : t.Records numbering headers)
    (new : h.name.name ∉ namesOf headers) :
    t.declare h numbering =
      .ok (numbering.number (distinctNames headers), t.adding numbering h) := by
  rw [records.consistent.declare_of_not_mem (mt (records.mem_names _).1 new), records.size]

theorem enter (records : t.Records numbering headers) (h : Header) :
    (t.enter numbering h).Records numbering (headers ++ [h]) := by
  by_cases known : h.name.name ∈ namesOf headers
  · rw [SignatureTable.enter, records.declare_of_mem known]
    exact records.refused known
  · rw [SignatureTable.enter, records.declare_of_not_mem known]
    exact records.adding known

theorem handle?_eq_none (records : t.Records numbering headers) :
    t.handle? name = none ↔ name ∉ namesOf headers := by
  rw [records.consistent.handle?_eq_none, records.mem_names]

theorem handle?_first (records : t.Records numbering headers) {before after : List Header}
    (split : headers = before ++ h :: after) (new : h.name.name ∉ namesOf before) :
    t.handle? h.name.name = some (numbering.number (distinctNames before)) := by
  refine records.consistent.handle?_of_names ?_
  rw [getElem?_names, records.first before h after split new]
  rfl

theorem lookup_first (records : t.Records numbering headers)
    (enough : numbering.Covers (distinctNames headers)) {before after : List Header} {name : Ident}
    (split : headers = before ++ h :: after) (named : h.name.name = name.name)
    (new : h.name.name ∉ namesOf before) :
    t.lookup name = .ok (h.signature (distinctNames before)) := by
  have row := records.first before h after split new
  have place : numbering.number (distinctNames before) = distinctNames before :=
    Numbering.covers_iff.1 enough _ (records.size ▸ Table.lt_size_of_get? row)
  rw [place] at row
  rw [lookup, ← named, records.handle?_first split new, Option.bind_some, place, row]

theorem lookup_eq_error (records : t.Records numbering headers) {name : Ident} :
    t.lookup name = .error ⟨.undefinedFunction name.name, name.span⟩ ↔
      name.name ∉ namesOf headers := by
  rw [← records.mem_names, ← records.consistent.handle?_eq_none, lookup]
  cases found : t.handle? name.name with
  | none => simp
  | some n =>
      obtain ⟨signature, row⟩ := records.consistent.get?_of_handle? found
      simp [row]

end Records

/-- Whatever was declared and refused, the table has the first declarations. -/
theorem records_entered (numbering : Numbering) (headers : List Header) :
    (entered numbering headers).Records numbering headers := by
  induction headers using List.reverseRecOn with
  | nil => exact Records.empty
  | append_singleton headers h ih =>
      rw [entered_concat]
      exact ih.enter h

/-- What is declared without an error is what is entered. -/
theorem eq_foldl_of_declareAll {fs : List Function} (h : t.declareAll numbering fs = .ok t') :
    t' = (fs.map (·.header)).foldl (enter numbering) t := by
  induction fs generalizing t with
  | nil =>
      cases h
      rfl
  | cons f fs ih =>
      cases declared : t.declare f.header numbering with
      | error e =>
          rw [declareAll_cons_of_error fs declared] at h
          cases h
      | ok result =>
          rw [declareAll_cons_of_ok fs declared] at h
          have step : t.enter numbering f.header = result.2 := by rw [enter, declared]
          rw [List.map_cons, List.foldl_cons, step]
          exact ih h

theorem namesOf_headers (fs : List Function) : namesOf (fs.map (·.header)) = declaredNames fs := by
  rw [namesOf, List.map_map]
  rfl

/-- The table of a module is the one of its headers, and there is one if all names are different. -/
theorem build_eq_ok {m : Module} : build m numbering = .ok t ↔
    (namesOf (m.functions.map (·.header))).Nodup ∧
      t = entered numbering (m.functions.map (·.header)) := by
  rw [namesOf_headers]
  rcases build_cases m numbering with
    ⟨t', built, names, consistent⟩ | ⟨before, f, after, split, _, again, refused⟩
  · have same : t' = entered numbering (m.functions.map (·.header)) := eq_foldl_of_declareAll built
    rw [built, ← names, ← same, Except.ok.injEq, and_iff_right consistent.nodup]
    exact eq_comm
  · refine iff_of_false (by simp [refused]) fun h => ?_
    rw [split, declaredNames, List.map_append, List.map_cons] at h
    exact (List.nodup_append.1 h.1).2.2 _ again _ List.mem_cons_self rfl

/-- If all names are different, every one of them is declared first at its place. -/
theorem Records.row_of_nodup (records : t.Records numbering headers)
    (nodup : (namesOf headers).Nodup) {i : Nat} (there : headers[i]? = some h) :
    t.handle? h.name.name = some (numbering.number i) ∧
      t.signatures.get? i = some (h.signature (numbering.number i)) := by
  obtain ⟨inside, rfl⟩ := List.getElem?_eq_some_iff.1 there
  have split : headers = headers.take i ++ headers[i] :: headers.drop (i + 1) := by
    rw [List.cons_getElem_drop_succ, List.take_append_drop]
  have parts := nodup
  rw [split, namesOf_append, List.nodup_append] at parts
  have new : headers[i].name.name ∉ namesOf (headers.take i) := fun mem =>
    parts.2.2 _ mem _ List.mem_cons_self rfl
  have place : distinctNames (headers.take i) = i := by
    rw [distinctNames_of_nodup parts.1, List.length_take_of_le inside.le]
  have handle := records.handle?_first split new
  have row := records.first _ _ _ split new
  rw [place] at handle row
  exact ⟨handle, row⟩

/-- The first declaration of a name is the one that counts. A declaration of a known name is refused
and changes nothing, others get the number of the names so far, and what is looked up is the first
declaration, whatever came later. As long as there are enough numbers, and no longer, the number by
a name and the row with that name belong together. So a module has a table if all names are
different, and then its functions have the numbers of their places. -/
theorem first_declarations (numbering : Numbering) (headers : List Header) :
    (∀ h : Header,
        ((entered numbering headers).declare h numbering =
            .error ⟨.duplicateFunction h.name.name, h.name.span⟩ ↔
          h.name.name ∈ namesOf headers) ∧
        (h.name.name ∈ namesOf headers →
          entered numbering (headers ++ [h]) = entered numbering headers) ∧
        (h.name.name ∉ namesOf headers → (entered numbering headers).declare h numbering =
          .ok (numbering.number (distinctNames headers), entered numbering (headers ++ [h])))) ∧
      (∀ name : Ident,
        ((entered numbering headers).handle? name.name = none ↔ name.name ∉ namesOf headers) ∧
        ((entered numbering headers).lookup name =
            .error ⟨.undefinedFunction name.name, name.span⟩ ↔
          name.name ∉ namesOf headers) ∧
        ∀ before h after, headers = before ++ h :: after → h.name.name = name.name →
          name.name ∉ namesOf before →
          (entered numbering headers).handle? name.name =
            some (numbering.number (distinctNames before)) ∧
          (entered numbering headers).signatures.get? (distinctNames before) =
            some (h.signature (numbering.number (distinctNames before))) ∧
          (numbering.Covers (distinctNames headers) →
            (entered numbering headers).lookup name = .ok (h.signature (distinctNames before)))) ∧
      (numbering.Covers (distinctNames headers) ↔
        ∀ name id, (entered numbering headers).handle? name = some id ↔
          ∃ s, (entered numbering headers).signatures.get? id = some s ∧ s.name = name ∧
            s.id = id) ∧
      ∀ m : Module, m.functions.map (·.header) = headers →
        ((∃ t, build m numbering = .ok t) ↔ (namesOf headers).Nodup) ∧
        ∀ t, build m numbering = .ok t → t = entered numbering headers ∧
          ∀ i f, m.functions[i]? = some f →
            t.handle? f.header.name.name = some (numbering.number i) ∧
            t.signatures.get? i = some (f.header.signature (numbering.number i)) := by
  have records : (entered numbering headers).Records numbering headers :=
    records_entered numbering headers
  refine ⟨fun h => ⟨?_, fun known => ?_, fun new => ?_⟩,
    fun name => ⟨records.handle?_eq_none, records.lookup_eq_error, ?_⟩,
    records.size ▸ records.consistent.covers_iff, ?_⟩
  · by_cases known : h.name.name ∈ namesOf headers
    · exact iff_of_true (records.declare_of_mem known) known
    · refine iff_of_false (fun refused => ?_) known
      rw [records.declare_of_not_mem known] at refused
      cases refused
  · rw [entered_concat, enter, records.declare_of_mem known]
  · rw [entered_concat, enter, records.declare_of_not_mem new]
  · intro before h after split named new
    rw [← named] at new
    refine ⟨?_, records.first before h after split new,
      fun enough => records.lookup_first enough split named new⟩
    rw [← named]
    exact records.handle?_first split new
  · rintro m rfl
    simp only [build_eq_ok]
    refine ⟨?_, ?_⟩
    · simp
    · rintro t ⟨nodup, rfl⟩
      refine ⟨rfl, fun i f there => ?_⟩
      refine records.row_of_nodup nodup ?_
      rw [List.getElem?_map, there]
      rfl

end SignatureTable

end Rill
