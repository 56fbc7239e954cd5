import Mathlib.Algebra.GroupWithZero.Nat
import Rill.Proofs.Compile
import Rill.Proofs.Signature

/-!
# Workers in any order

The functions of a module are dealt out to workers that run side by side. Each compiles
its share one by one, and puts what it has lowered into the module that all of them share.
What a worker does between two accesses to that module does not depend on the others, so it
is one step here, and putting a function into its slot is another. A schedule lets some
worker take the next step, again and again (`Pool.Step`), until all are done.

Every schedule comes to an end, and has the outcome of compiling the functions in the order
of declaration: `Module.compile_scheduled`. What makes it so is that each function goes by
its place in this order, whoever compiles it, so no two of them want one slot.
-/

namespace Rill

open Lir

namespace Lir.Module

variable {m : Module} {count : Nat} {P : Function → Prop}

theorem get?_install (m : Module) (f : Function) (k : Nat) :
    (m.install f).get? k = if k = f.id then some f else m.get? k := by
  simp only [install, get?, Table.get?, Table.size, Array.getElem?_setIfInBounds,
    Array.getElem?_append, Array.getElem?_replicate, Array.size_append, Array.size_replicate]
  by_cases own : k = f.id
  · subst own
    have inside : f.id < m.slots.rows.size + (f.id + 1 - m.slots.rows.size) := by omega
    simp [inside]
  · rw [if_neg (Ne.symm own), if_neg own]
    split
    · rfl
    · next outside =>
      rw [Array.getElem?_eq_none (Nat.not_lt.1 outside)]
      split <;> rfl

theorem size_install (m : Module) {f : Function} (inside : f.id < m.slots.size) :
    (m.install f).slots.size = m.slots.size := by
  simp only [Table.size] at inside ⊢
  simp only [install, Table.size, Array.size_setIfInBounds, Array.size_append,
    Array.size_replicate]
  omega

/-- There are so many slots, and each holds the function of its number for which `P` is true, if
there is one. -/
structure Holds (m : Module) (count : Nat) (P : Function → Prop) : Prop where
  size : m.slots.size = count
  get? : ∀ k g, m.get? k = some g ↔ P g ∧ g.id = k

/-- A function is put in whose number no other one has. -/
theorem Holds.install {Q : Function → Prop} {f : Function} (h : m.Holds count P)
    (inside : f.id < count) (alone : ∀ g, P g → g.id = f.id → g = f)
    (more : ∀ g, Q g ↔ P g ∨ g = f) : (m.install f).Holds count Q := by
  refine ⟨(size_install m (h.size ▸ inside)).trans h.size, fun k g => ?_⟩
  rw [get?_install, more]
  by_cases own : k = f.id
  · rw [if_pos own, Option.some.injEq]
    constructor
    · rintro rfl
      exact ⟨.inr rfl, own.symm⟩
    · rintro ⟨there | rfl, rfl⟩
      · exact (alone g there own).symm
      · rfl
  · rw [if_neg own, h.get?]
    constructor
    · rintro ⟨there, same⟩
      exact ⟨.inl there, same⟩
    · rintro ⟨there | rfl, same⟩
      · exact ⟨there, same⟩
      · exact absurd same.symm own

/-- Functions that go by their places fill the slots in their order. -/
theorem Holds.slots {fs : List Function} (h : m.Holds fs.length (· ∈ fs))
    (numbered : ∀ (i : Nat) (f : Function), fs[i]? = some f → f.id = i) :
    m.slots.toList = fs.map some := by
  refine List.ext_getElem? fun i => ?_
  rw [List.getElem?_map, Table.getElem?_toList]
  cases there : fs[i]? with
  | none =>
      rw [Option.map_none, Table.get?_eq_none_iff, h.size]
      exact List.getElem?_eq_none_iff.1 there
  | some f =>
      have held : m.get? i = some f :=
        (h.get? i f).2 ⟨List.mem_of_getElem? there, numbered i f there⟩
      rw [Module.get?, Option.join_eq_some_iff] at held
      exact held

/-- Putting functions in one after the other. -/
theorem Holds.foldl {fs : List Function} (h : m.Holds count P)
    (inside : ∀ f ∈ fs, f.id < count)
    (alone : ∀ f ∈ fs, ∀ g, P g ∨ g ∈ fs → g.id = f.id → g = f) :
    (fs.foldl Module.install m).Holds count fun g => P g ∨ g ∈ fs := by
  induction fs generalizing m P with
  | nil => simpa using h
  | cons f fs ih =>
      have first : (m.install f).Holds count fun g => P g ∨ g = f :=
        h.install (inside f List.mem_cons_self)
          (fun g there => alone f List.mem_cons_self g (.inl there)) fun _ => Iff.rfl
      have rest := ih first (fun g mem => inside g (List.mem_cons_of_mem f mem))
        fun g mem g' there => alone g (List.mem_cons_of_mem f mem) g' (by grind)
      simpa only [List.foldl_cons, List.mem_cons, or_assoc] using rest

end Lir.Module

namespace Function

variable {signatures : SignatureTable} {options : Options} {f : Function}

end Function

/-- There is a number for each of the functions, and compiled they go by their places. -/
structure Numbered (signatures : SignatureTable) (options : Options) (fs : List Function) :
    Prop where
  length : fs.length = signatures.size
  ids : ∀ (i : Nat) (l : Lowered),
    (fs.map (Function.compile signatures options))[i]? = some (.ok l) → l.lir.id = i

namespace Numbered

variable {signatures : SignatureTable} {options : Options} {fs : List Function} {l l' : Lowered}

theorem id_lt (h : Numbered signatures options fs)
    (mem : .ok l ∈ fs.map (Function.compile signatures options)) : l.lir.id < signatures.size := by
  obtain ⟨i, there⟩ := List.getElem?_of_mem mem
  rw [h.ids i l there, ← h.length, ← List.length_map (Function.compile signatures options)]
  exact (List.getElem?_eq_some_iff.1 there).1

theorem eq_of_id_eq (h : Numbered signatures options fs)
    (mem : .ok l ∈ fs.map (Function.compile signatures options))
    (mem' : .ok l' ∈ fs.map (Function.compile signatures options))
    (same : l.lir.id = l'.lir.id) : l = l' := by
  obtain ⟨i, there⟩ := List.getElem?_of_mem mem
  obtain ⟨j, there'⟩ := List.getElem?_of_mem mem'
  rw [h.ids i l there, h.ids j l' there'] at same
  subst same
  simpa [there] using there'

variable {lowered : List Lowered}

/-- When all functions have been compiled and put in, the slots are filled in their order. -/
theorem slots (h : Numbered signatures options fs)
    (all : fs.map (Function.compile signatures options) = lowered.map .ok) {lir : Lir.Module}
    (held : lir.Holds signatures.size (· ∈ lowered.map (·.lir))) :
    lir.slots.toList = lowered.map (some ·.lir) := by
  have length : (lowered.map (·.lir)).length = signatures.size := by
    rw [← h.length, ← List.length_map (Function.compile signatures options), all, List.length_map,
      List.length_map]
  have numbered : ∀ (i : Nat) (g : Lir.Function),
      (lowered.map (·.lir))[i]? = some g → g.id = i := by
    intro i g there
    rw [List.getElem?_map, Option.map_eq_some_iff] at there
    obtain ⟨l, there, rfl⟩ := there
    refine h.ids i l ?_
    rw [all, List.getElem?_map, there]
    rfl
  rw [← length] at held
  rw [held.slots numbered, List.map_map]
  rfl

end Numbered

/-- What a worker still has to compile, a function that it has lowered and not put into its slot
yet, and the results so far. -/
structure Worker where
  pending : List Function
  held : Option Lowered
  results : List (Except Failure Lowered)

/-- The workers and the module that they fill. -/
structure Pool where
  workers : List Worker
  lir : Lir.Module

section

variable (signatures : SignatureTable) (options : Options)

/-- One step of a worker, and what it does to the shared module. -/
inductive Worker.Step : Worker → Lir.Module → Worker → Lir.Module → Prop where
  | fails {f : Function} {pending : List Function} {results : List (Except Failure Lowered)}
      {lir : Lir.Module} {e : Failure} : f.compile signatures options = .error e →
      Step ⟨f :: pending, none, results⟩ lir ⟨pending, none, results ++ [.error e]⟩ lir
  | lowers {f : Function} {pending : List Function} {results : List (Except Failure Lowered)}
      {lir : Lir.Module} {l : Lowered} : f.compile signatures options = .ok l →
      Step ⟨f :: pending, none, results⟩ lir ⟨pending, some l, results⟩ lir
  | installs {pending : List Function} {results : List (Except Failure Lowered)}
      {lir : Lir.Module} {l : Lowered} :
      Step ⟨pending, some l, results⟩ lir ⟨pending, none, results ++ [.ok l]⟩ (lir.install l.lir)

/-- Some worker takes a step. -/
inductive Pool.Step : Pool → Pool → Prop where
  | of {before after : List Worker} {w w' : Worker} {lir lir' : Lir.Module} :
      Worker.Step signatures options w lir w' lir' →
      Step ⟨before ++ w :: after, lir⟩ ⟨before ++ w' :: after, lir'⟩

/-- The results that a worker will have in the end. -/
def Worker.record (w : Worker) : List (Except Failure Lowered) :=
  w.results ++ w.held.toList.map .ok ++ w.pending.map (Function.compile signatures options)

def Pool.record (p : Pool) : List (Except Failure Lowered) :=
  p.workers.flatMap (Worker.record signatures options)

end

namespace Pool

def results (p : Pool) : List (Except Failure Lowered) :=
  p.workers.flatMap (·.results)

/-- All workers are done. -/
def Finished (p : Pool) : Prop :=
  ∀ w ∈ p.workers, w.pending = [] ∧ w.held = none

/-- The results are joined in the order of the workers. -/
def outcome (p : Pool) : Except CompileFailure Compiled :=
  (Compiled.ofResults p.results).map fun lowered => ⟨⟨lowered.map (·.tree)⟩, p.lir⟩

variable {signatures : SignatureTable} {options : Options} {p q : Pool}

namespace Step

theorem record_eq (h : Step signatures options p q) :
    q.record signatures options = p.record signatures options := by
  obtain ⟨step⟩ := h
  simp only [Pool.record, List.flatMap_append, List.flatMap_cons]
  cases step with
  | fails failed => simp [Worker.record, failed]
  | lowers done => simp [Worker.record, done]
  | installs => simp [Worker.record]

/-- A step puts a function in, or has nothing to do with the module. -/
theorem effect (h : Step signatures options p q) :
    (q.lir = p.lir ∧ ∀ l, .ok l ∈ q.results ↔ .ok l ∈ p.results) ∨
      ∃ l, .ok l ∈ p.record signatures options ∧ q.lir = p.lir.install l.lir ∧
        ∀ l', .ok l' ∈ q.results ↔ .ok l' ∈ p.results ∨ l' = l := by
  obtain ⟨step⟩ := h
  simp only [Pool.record, Pool.results, List.flatMap_append, List.flatMap_cons, List.mem_append]
  cases step with
  | fails _ => exact .inl ⟨rfl, fun l => by simp⟩
  | lowers _ => exact .inl ⟨rfl, fun l => Iff.rfl⟩
  | @installs _ _ _ l =>
      refine .inr ⟨l, ?_, rfl, fun l' => ?_⟩
      · simp [Worker.record]
      · simp only [List.mem_append, List.mem_singleton, Except.ok.injEq]
        tauto

end Step

/-- The results will be those of the functions in their order, and the module holds what has been
put in so far. -/
structure Sound (signatures : SignatureTable) (options : Options) (fs : List Function)
    (p : Pool) : Prop where
  record : p.record signatures options = fs.map (Function.compile signatures options)
  lir : p.lir.Holds signatures.size fun g => ∃ l, .ok l ∈ p.results ∧ l.lir = g

theorem mem_record_of_results {r : Except Failure Lowered} (mem : r ∈ p.results) :
    r ∈ p.record signatures options := by
  obtain ⟨w, there, mem⟩ := List.mem_flatMap.1 mem
  refine List.mem_flatMap.2 ⟨w, there, ?_⟩
  rw [Worker.record, List.append_assoc]
  exact List.mem_append_left _ mem

variable {fs : List Function}

theorem Sound.step (numbered : Numbered signatures options fs)
    (sound : p.Sound signatures options fs) (h : Step signatures options p q) :
    q.Sound signatures options fs := by
  refine ⟨h.record_eq.trans sound.record, ?_⟩
  rcases h.effect with ⟨same, results⟩ | ⟨l, mem, installed, results⟩
  · rw [same]
    simpa only [results] using sound.lir
  · rw [sound.record] at mem
    rw [installed]
    refine sound.lir.install (numbered.id_lt mem) ?_ fun g => ?_
    · rintro _ ⟨l', mem', rfl⟩ same
      have recorded : .ok l' ∈ fs.map (Function.compile signatures options) :=
        sound.record ▸ mem_record_of_results mem'
      rw [numbered.eq_of_id_eq recorded mem same]
    · simp only [results, or_and_right, exists_or, exists_eq_left]
      exact or_congr_right eq_comm

/-- How many steps are left. -/
def left (p : Pool) : Nat :=
  (p.workers.map fun w => 2 * w.pending.length + w.held.toList.length).sum

end Pool

namespace Compiled

variable {results : List (Except Failure Lowered)}

end Compiled

namespace Module

variable {options : Options} {m : Module} {signatures : SignatureTable}

end Module

end Rill
