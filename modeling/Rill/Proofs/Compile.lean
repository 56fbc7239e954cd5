import Rill.Compile
import Rill.Proofs.Lir.Acceptance

/-!
# Compiling ends well

Whatever the tree and the options are, compiling a module gives lowered functions that
can all be listed, or at least one error to report. No fault is committed on the way.
Dealing out the functions to several jobs makes no difference to the results.
-/

namespace Rill

open Lir

theorem flatten_batches {α : Type} (size : Nat) (positive : 0 < size) (items : List α) :
    (batches size positive items).flatten = items := by
  fun_induction batches size positive items with
  | case1 => rfl
  | case2 item rest ih =>
      rw [List.flatten_cons, ih, List.cons_append, List.take_append_drop]

/-- The results come in the order of the items, whatever the number of jobs is. -/
theorem dealOut_eq {α β : Type} (jobs : Nat) (f : α → β) (items : List α) :
    dealOut jobs f items = .ok (items.map f) := by
  rw [dealOut]
  split
  · next several =>
    have positive : 0 < (items.length + jobs - 1) / jobs :=
      Nat.div_pos (by omega) (by omega)
    simp only [dif_pos positive]
    rw [← List.map_flatten, flatten_batches]
  · rfl

namespace Lir

/-- The arguments are registers of the function. -/
def Function.Listable (f : Function) : Prop :=
  ∀ r ∈ f.arguments, ∃ ty, f.registers.get? r = some ty

theorem exists_mapM {α β : Type} {f : α → Except Fault β} {l : List α}
    (h : ∀ a ∈ l, ∃ b, f a = .ok b) : ∃ bs, l.mapM f = .ok bs := by
  induction l with
  | nil => exact ⟨[], rfl⟩
  | cons a l ih =>
      obtain ⟨b, done⟩ := h a List.mem_cons_self
      obtain ⟨bs, rest⟩ := ih fun c mem => h c (List.mem_cons_of_mem a mem)
      refine ⟨b :: bs, ?_⟩
      rw [List.mapM_cons, done, rest]
      rfl

theorem Function.Listable.render {f : Function} (h : f.Listable) (ink : Ink) :
    ∃ text, f.render ink = .ok text := by
  simp only [Function.render, except_bind_eq_ok, except_pure_eq_ok]
  rw [exists_comm]
  refine (exists_mapM fun r mem => ?_).imp fun _ done => ⟨_, done, rfl⟩
  obtain ⟨ty, found⟩ := h r mem
  simp only [found]
  exact ⟨_, rfl⟩

namespace Module

/-- Besides the function that is put in, there are only functions that were there before. -/
theorem mem_functions_install {m : Module} {f g : Function}
    (h : g ∈ (m.install f).functions) : g = f ∨ g ∈ m.functions := by
  simp only [functions, Table.toList, List.mem_filterMap, id, exists_eq_right,
    Array.mem_toList_iff] at h ⊢
  rcases Array.mem_or_eq_of_mem_setIfInBounds h with there | same
  · rcases Array.mem_append.1 there with there | padding
    · exact .inr there
    · cases Array.eq_of_mem_replicate padding
  · exact .inl (Option.some.inj same)

theorem mem_functions_foldl_install {m : Module} {fs : List Function} {g : Function}
    (h : g ∈ (fs.foldl install m).functions) : g ∈ fs ∨ g ∈ m.functions := by
  induction fs generalizing m with
  | nil => exact .inr h
  | cons f fs ih =>
      rcases ih h with later | there
      · exact .inl (List.mem_cons_of_mem f later)
      · rcases mem_functions_install there with rfl | there
        · exact .inl List.mem_cons_self
        · exact .inr there

theorem functions_withCapacity (count : Nat) : (withCapacity count).functions = [] := by
  simp [functions, withCapacity, Table.toList]

theorem exists_render {m : Module} (h : ∀ f ∈ m.functions, f.Listable) (ink : Ink) :
    ∃ text, m.render ink = .ok text := by
  simp only [render, except_bind_eq_ok, except_pure_eq_ok]
  rw [exists_comm]
  exact (exists_mapM fun f mem => (h f mem).render ink).imp fun _ done => ⟨_, done, rfl⟩

end Module

end Lir

theorem Function.listable_lower {f : Function} {signatures : SignatureTable} {g : Lir.Function}
    (h : f.lower signatures = .ok g) : g.Listable := by
  intro r mem
  have known : g.registers.get? r ∈ (f.header.params.map (·.ty)).map some := by
    rw [← (arguments_lower h).2]
    exact List.mem_map_of_mem mem
  obtain ⟨ty, _, same⟩ := List.mem_map.1 known
  exact ⟨ty, same.symm⟩

/-- The compilation of a function gives a lowered function that can be listed, or an error. -/
theorem Function.compile_cases (signatures : SignatureTable) (options : Options) (f : Function) :
    (∃ lowered, f.compile signatures options = .ok lowered ∧ lowered.lir.Listable) ∨
      ∃ e, f.compile signatures options = .error (.error e) := by
  rw [compile]
  split
  · cases f.simplify signatures options.passes with
    | error e => exact .inr ⟨e, rfl⟩
    | ok tree =>
        have step : (do
            let tree ← (Except.ok tree).mapError Failure.error
            let lir ← tree.lower signatures
            return Lowered.mk tree lir.cleanup) =
            tree.lower signatures >>= fun lir => return Lowered.mk tree lir.cleanup := rfl
        rw [step]
        rcases tree.lower_cases signatures with ⟨g, done⟩ | ⟨_, e, failed⟩
        · have listable := listable_lower done
          rw [done]
          exact .inl ⟨_, rfl, listable⟩
        · rw [failed]
          exact .inr ⟨e, rfl⟩
  · rcases f.lower_cases signatures with ⟨g, done⟩ | ⟨_, e, failed⟩
    · have listable := listable_lower done
      rw [done]
      exact .inl ⟨_, rfl, listable⟩
    · rw [failed]
      exact .inr ⟨e, rfl⟩

/-- Without a fault among the results there are either errors to report or none. -/
theorem Compiled.ofResults_cases {P : Lowered → Prop} {results : List (Except Failure Lowered)}
    (h : ∀ r ∈ results, (∃ lowered, r = .ok lowered ∧ P lowered) ∨ ∃ e, r = .error (.error e)) :
    (∃ lowered, ofResults results = .ok lowered ∧ ∀ l ∈ lowered, P l) ∨
      ∃ errors, errors ≠ [] ∧ ofResults results = .error (.compile errors) := by
  rw [ofResults]
  split
  · next fault rest faults =>
    have there := List.mem_cons_self (a := fault) (l := rest)
    rw [← faults, List.mem_filterMap] at there
    obtain ⟨r, mem, found⟩ := there
    rcases h r mem with ⟨_, rfl, _⟩ | ⟨_, rfl⟩
    · cases found
    · cases found
  · refine .inl ⟨_, rfl, fun l there => ?_⟩
    obtain ⟨r, mem, found⟩ := List.mem_filterMap.1 there
    rcases h r mem with ⟨_, rfl, holds⟩ | ⟨_, rfl⟩
    · cases found
      exact holds
    · cases found
  · next some_ => exact .inr ⟨_, some_, rfl⟩

/-- The errors that are reported are those of the functions. -/
theorem Compiled.mem_of_ofResults {results : List (Except Failure Lowered)}
    {errors : List CompileError} (failed : ofResults results = .error (.compile errors))
    {e : CompileError} (mem : e ∈ errors) : .error (.error e) ∈ results := by
  rw [ofResults] at failed
  split at failed
  · cases failed
  · cases failed
  · cases failed
    obtain ⟨r, there, found⟩ := List.mem_filterMap.1 mem
    split at found
    · cases found
      exact there
    · cases found

namespace Module

/-- A module is compiled function by function. -/
theorem compile_eq {options : Options} {m : Module} {signatures : SignatureTable}
    (built : SignatureTable.build m = .ok signatures) :
    m.compile options =
      (Compiled.ofResults (m.functions.map (Function.compile signatures options))).map
        fun lowered => ⟨⟨lowered.map (·.tree)⟩,
          (lowered.map (·.lir)).foldl Lir.Module.install (.withCapacity signatures.size)⟩ := by
  rw [compile, built]
  simp only [dealOut_eq, Except.mapError]
  change (Compiled.ofResults _ >>= _) = _
  cases Compiled.ofResults (m.functions.map (Function.compile signatures options)) <;> rfl

/-- With a table of signatures a module is compiled to functions that can all be listed, or the
errors of some of its functions are reported. -/
theorem compile_cases (options : Options) {m : Module} {signatures : SignatureTable}
    (built : SignatureTable.build m = .ok signatures) :
    (∃ compiled, m.compile options = .ok compiled ∧
        ∀ f ∈ compiled.lir.functions, f.Listable) ∨
      ∃ errors, m.compile options = .error (.compile errors) ∧
        ∀ e ∈ errors, ∃ f ∈ m.functions, f.compile signatures options = .error (.error e) := by
  have results : ∀ r ∈ m.functions.map (Function.compile signatures options),
      (∃ lowered, r = .ok lowered ∧ lowered.lir.Listable) ∨ ∃ e, r = .error (.error e) := by
    intro r mem
    obtain ⟨f, _, rfl⟩ := List.mem_map.1 mem
    exact f.compile_cases signatures options
  rw [compile_eq built]
  rcases Compiled.ofResults_cases results with ⟨lowered, done, listable⟩ | ⟨errors, _, failed⟩
  · rw [done]
    refine .inl ⟨_, rfl, fun f there => ?_⟩
    rcases Lir.Module.mem_functions_foldl_install there with mem | there
    · obtain ⟨l, mem', rfl⟩ := List.mem_map.1 mem
      exact listable l mem'
    · rw [Lir.Module.functions_withCapacity] at there
      cases there
  · rw [failed]
    refine .inr ⟨errors, rfl, fun e mem => ?_⟩
    exact List.mem_map.1 (Compiled.mem_of_ofResults failed mem)

/-- Compiling gives functions that can all be listed, or errors to report. -/
theorem compile_ends (options : Options) (m : Module) :
    (∃ compiled, m.compile options = .ok compiled ∧
        ∀ ink, ∃ text, compiled.lir.render ink = .ok text) ∨
      ∃ errors, errors ≠ [] ∧ m.compile options = .error (.compile errors) := by
  cases built : SignatureTable.build m with
  | error e =>
      refine .inr ⟨[e], List.cons_ne_nil e [], ?_⟩
      rw [compile, built]
      rfl
  | ok signatures =>
      have results : ∀ r ∈ m.functions.map (Function.compile signatures options),
          (∃ lowered, r = .ok lowered ∧ lowered.lir.Listable) ∨ ∃ e, r = .error (.error e) := by
        intro r mem
        obtain ⟨f, _, rfl⟩ := List.mem_map.1 mem
        exact f.compile_cases signatures options
      rw [compile_eq built]
      rcases Compiled.ofResults_cases results with
        ⟨lowered, done, listable⟩ | ⟨errors, some_, failed⟩
      · rw [done]
        refine .inl ⟨_, rfl, Lir.Module.exists_render fun f there => ?_⟩
        rcases Lir.Module.mem_functions_foldl_install there with mem | there
        · obtain ⟨l, mem', rfl⟩ := List.mem_map.1 mem
          exact listable l mem'
        · rw [Lir.Module.functions_withCapacity] at there
          cases there
      · rw [failed]
        exact .inr ⟨errors, some_, rfl⟩

end Module

end Rill
