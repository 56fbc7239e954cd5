import Rill.Proofs.Tree.Shape
import Rill.Proofs.Tree.Unambiguous

/-!
# The shape of parsed trees

In the grammar, first branches and bodies are blocks, and a second branch is a block or a
further conditional. So every function of a parsed module has a braced body.
-/

namespace Rill

namespace Grammar

theorem Block.isBlock_tree (b : Block) : b.tree.isBlock = true := by
  cases b
  rw [Block.tree, Stmt.isBlock]

theorem Conditional.isIf_tree (c : Conditional) : c.tree.isIf = true := by
  cases c <;> rw [Conditional.tree, Stmt.isIf]

mutual

/-- A derivation only has braced statements, since its rules have no others. -/
theorem Stmt.braced_tree : (s : Stmt) → s.tree.braced = true
  | .conditional conditional => by
    rw [Stmt.tree]
    exact conditional.braced_tree
  | .block block => by
    rw [Stmt.tree]
    exact block.braced_tree
  | .loop word condition body => by
    rw [Stmt.tree, Rill.Stmt.braced, body.isBlock_tree, body.braced_tree]
    rfl
  | .decl .. | .assign .. | .ret .. | .eval .. | .skip _ => by rw [Stmt.tree, Rill.Stmt.braced]
termination_by structural s => s

theorem Block.braced_tree : (b : Block) → b.tree.braced = true
  | .braces opening body closing => by
    rw [Block.tree, Rill.Stmt.braced]
    exact bracedAll_trees body
termination_by structural b => b

theorem Conditional.braced_tree : (c : Conditional) → c.tree.braced = true
  | .plain word condition positive => by
    simp only [Conditional.tree, Rill.Stmt.braced, Rill.Stmt.bracedThen, Rill.Stmt.bracedElse,
      positive.isBlock_tree, positive.braced_tree, Bool.and_self]
  | .orBlock word condition positive otherwise negative => by
    simp only [Conditional.tree, Rill.Stmt.braced, Rill.Stmt.bracedThen, Rill.Stmt.bracedElse,
      positive.isBlock_tree, positive.braced_tree, negative.isBlock_tree, negative.braced_tree,
      Bool.true_or, Bool.and_self]
  | .orConditional word condition positive otherwise negative => by
    simp only [Conditional.tree, Rill.Stmt.braced, Rill.Stmt.bracedThen, Rill.Stmt.bracedElse,
      positive.isBlock_tree, positive.braced_tree, negative.isIf_tree, negative.braced_tree,
      Bool.or_true, Bool.and_self]
termination_by structural c => c

theorem bracedAll_trees : (body : List Stmt) → Rill.Stmt.bracedAll (stmtTrees body) = true
  | [] => by rw [stmtTrees, Rill.Stmt.bracedAll]
  | s :: rest => by
    rw [stmtTrees, Rill.Stmt.bracedAll, s.braced_tree, bracedAll_trees rest]
    rfl
termination_by structural body => body

end

end Grammar

/-- The bodies of parsed functions stand in braces, as do all branches and loops in them. -/
theorem Source.braced_of_parse {source : Source} {m : Module} (parsed : source.parse = .ok m) :
    ∀ f ∈ m.functions, f.body.braced = true := by
  obtain ⟨tokens, lexed⟩ := exists_tokens parsed
  obtain ⟨d, _, rfl⟩ := exists_derivation lexed parsed
  intro f mem
  obtain ⟨g, _, rfl⟩ := List.mem_map.1 mem
  exact g.body.braced_tree

end Rill
