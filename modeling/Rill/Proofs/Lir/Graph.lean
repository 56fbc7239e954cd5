import Rill.Lir.Basic
import Rill.Proofs.Ascending

/-!
# Graphs of blocks

`Graph.Linked` says when the blocks of a function hang together: only last
instructions hand control on, they hand it to blocks that are there, and every block
knows its predecessors. `Graph.Consistent` is the part of this that asks for no entry and lets
instructions stand behind a terminator. `Graph.Reachable` says which blocks a path from the
entry leads to, whatever the conditions on it.
-/

namespace Rill.Lir

theorem Instruction.targets_of_not_terminator {i : Instruction} (h : i.isTerminator = false) :
    i.targets = [] := by
  cases i <;> first | rfl | cases h

namespace Block

theorem mem_successors {b : Block} {t : Nat} :
    t ∈ b.successors ↔ ∃ i, b.instructions.getLast? = some i ∧ t ∈ i.targets := by
  rw [successors]
  cases b.instructions.getLast? <;> simp

/-- Terminators occur only as last instructions. -/
def EndsOnce (b : Block) : Prop :=
  ∀ i ∈ b.instructions.dropLast, i.isTerminator = false

instance (b : Block) : Decidable b.EndsOnce :=
  inferInstanceAs (Decidable (∀ i ∈ b.instructions.dropLast, i.isTerminator = false))

theorem EndsOnce.getLast? {b : Block} (h : b.EndsOnce) {i : Instruction}
    (mem : i ∈ b.instructions) (last : i.isTerminator = true) :
    b.instructions.getLast? = some i := by
  rcases List.eq_nil_or_concat b.instructions with empty | ⟨before, j, split⟩
  · rw [empty] at mem
    cases mem
  · rw [List.concat_eq_append] at split
    have early : ∀ i ∈ before, i.isTerminator = false := by
      simpa only [EndsOnce, split, List.dropLast_concat] using h
    rw [split, List.mem_append, List.mem_singleton] at mem
    rcases mem with mem | rfl
    · rw [early i mem] at last
      cases last
    · rw [split, List.getLast?_concat]

/-- Every target in a block is one of its successors. -/
theorem EndsOnce.mem_successors {b : Block} (h : b.EndsOnce) {i : Instruction}
    (mem : i ∈ b.instructions) {t : Nat} (target : t ∈ i.targets) : t ∈ b.successors := by
  cases last : i.isTerminator with
  | true => exact Block.mem_successors.2 ⟨i, h.getLast? mem last, target⟩
  | false =>
      rw [Instruction.targets_of_not_terminator last] at target
      cases target

end Block

/-- The blocks that go by each number. -/
abbrev Graph := Nat → Option Block

/-- Terminators come last, targets exist and predecessors are exact. -/
structure Graph.Linked (graph : Graph) : Prop where
  entry : ∃ b, graph 0 = some b
  ends : ∀ k b, graph k = some b → b.EndsOnce
  targets : ∀ k b, graph k = some b → ∀ t ∈ b.successors, ∃ c, graph t = some c
  preds : ∀ k b, graph k = some b → ∀ p,
    b.preds.contains p = true ↔ ∃ c, graph p = some c ∧ k ∈ c.successors

/-- Targets exist and predecessors are exact. -/
structure Graph.Consistent (graph : Graph) : Prop where
  targets : ∀ k b, graph k = some b → ∀ t ∈ b.successors, ∃ c, graph t = some c
  preds : ∀ k b, graph k = some b → ∀ p,
    b.preds.contains p = true ↔ ∃ c, graph p = some c ∧ k ∈ c.successors

theorem Graph.Linked.consistent {graph : Graph} (linked : graph.Linked) :
    graph.Consistent :=
  ⟨linked.targets, linked.preds⟩

/-- There is a path from the entry to the block. -/
inductive Graph.Reachable (graph : Graph) : Nat → Prop where
  | entry : Reachable graph 0
  | next {k t : Nat} {b : Block} : Reachable graph k → graph k = some b → t ∈ b.successors →
      Reachable graph t

namespace Blocks

/-- Terminators come last, targets exist and predecessors are exact. -/
abbrev Linked (blocks : Blocks) : Prop := Graph.Linked blocks.find?

/-- Targets exist and predecessors are exact. -/
abbrev Consistent (blocks : Blocks) : Prop := Graph.Consistent blocks.find?

/-- Whether predecessors are exact can be read off the lists. -/
theorem consistent_iff {blocks : Blocks} :
    blocks.Consistent ↔
      (∀ b ∈ blocks.items, ∀ t ∈ b.successors, (blocks.find? t).isSome = true) ∧
      (∀ b ∈ blocks.items, ∀ p ∈ b.preds.items,
        (blocks.find? p).any (b.id ∈ ·.successors) = true) ∧
      (∀ c ∈ blocks.items, ∀ b ∈ blocks.items, b.id ∈ c.successors → c.id ∈ b.preds.items) := by
  have listed : ∀ (s : NatSet) p, s.contains p = true ↔ p ∈ s.items := by
    intro s p
    simp [Ascending.contains]
  constructor
  · intro h
    refine ⟨?_, ?_, ?_⟩
    · intro b mem t target
      exact Option.isSome_iff_exists.2
        (h.targets b.id b (Ascending.find?_eq_some_iff.2 ⟨mem, rfl⟩) t target)
    · intro b mem p pred
      obtain ⟨c, found, leads⟩ :=
        (h.preds b.id b (Ascending.find?_eq_some_iff.2 ⟨mem, rfl⟩) p).1 ((listed _ p).2 pred)
      simpa [found] using leads
    · intro c from_ b mem leads
      refine (listed _ _).1 ((h.preds b.id b (Ascending.find?_eq_some_iff.2 ⟨mem, rfl⟩) c.id).2 ?_)
      exact ⟨c, Ascending.find?_eq_some_iff.2 ⟨from_, rfl⟩, leads⟩
  · rintro ⟨targets, sound, complete⟩
    refine ⟨?_, ?_⟩
    · intro k b found t target
      exact Option.isSome_iff_exists.1 (targets b (Ascending.mem_of_find? found) t target)
    · intro k b found p
      obtain ⟨mem, rfl⟩ := Ascending.find?_eq_some_iff.1 found
      constructor
      · intro pred
        have := sound b mem p ((listed _ p).1 pred)
        rw [Option.any_eq_true] at this
        simpa using this
      · rintro ⟨c, leader, leads⟩
        obtain ⟨from_, rfl⟩ := Ascending.find?_eq_some_iff.1 leader
        exact (listed _ _).2 (complete c from_ b mem leads)

instance (blocks : Blocks) : Decidable blocks.Consistent :=
  decidable_of_iff _ consistent_iff.symm

/-- Whether blocks are linked can be read off their lists. -/
theorem linked_iff {blocks : Blocks} :
    blocks.Linked ↔
      (blocks.find? 0).isSome = true ∧ (∀ b ∈ blocks.items, b.EndsOnce) ∧ blocks.Consistent := by
  constructor
  · intro h
    refine ⟨Option.isSome_iff_exists.2 h.entry, fun b mem => ?_, h.consistent⟩
    exact h.ends b.id b (Ascending.find?_eq_some_iff.2 ⟨mem, rfl⟩)
  · rintro ⟨entry, ends, consistent⟩
    refine ⟨Option.isSome_iff_exists.1 entry, fun k b found => ?_, consistent.targets,
      consistent.preds⟩
    exact ends b (Ascending.mem_of_find? found)

instance (blocks : Blocks) : Decidable blocks.Linked :=
  decidable_of_iff _ linked_iff.symm

end Blocks

end Rill.Lir
