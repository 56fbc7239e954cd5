import Rill.Lir.Basic

/-!
# Tidying the graph

Lowering leaves blocks that nothing leads to and blocks that only hand control
on. Orphans are dropped, again and again since dropping one can orphan others,
and jumps to a block that merely jumps are threaded to where it leads. The entry
block always stays. Both steps believe the predecessor sets that they find.
-/

namespace Rill.Lir

/-- The instructions with the targets of the last one redirected. -/
def redirectLast (old new : Nat) : List Instruction → List Instruction
  | [] => []
  | [i] => [i.redirect old new]
  | i :: j :: rest => i :: redirectLast old new (j :: rest)

namespace Block

/-- A block other than the entry that has no predecessors. -/
def isOrphan (b : Block) : Bool :=
  b.id != 0 && b.preds.isEmpty

/-- The block with the targets of its last instruction redirected. -/
def redirect (old new : Nat) (b : Block) : Block :=
  { b with instructions := redirectLast old new b.instructions }

end Block

namespace Blocks

/-- The blocks without the orphans, which no longer count as predecessors. -/
def withoutOrphans (blocks : Blocks) : Blocks :=
  let orphaned := fun id => (blocks.find? id).any (·.isOrphan)
  (blocks.filter (!·.isOrphan)).map fun b =>
    { b with preds := b.preds.filter (!orphaned ·) }

theorem size_withoutOrphans_lt {blocks : Blocks} (h : blocks.items.any (·.isOrphan) = true) :
    (withoutOrphans blocks).size < blocks.size := by
  obtain ⟨b, mem, orphan⟩ := List.any_eq_true.1 h
  simp only [withoutOrphans, Ascending.size, Ascending.map, Ascending.filter, List.length_map]
  exact List.length_filter_lt_length_iff_exists.2 ⟨b, mem, by simp [orphan]⟩

/-- Drops orphans until there are none. -/
def dropOrphans (blocks : Blocks) : Blocks :=
  if _ : blocks.items.any (·.isOrphan) then
    dropOrphans (withoutOrphans blocks)
  else
    blocks
termination_by blocks.size
decreasing_by exact size_withoutOrphans_lt ‹_›

/-- Removes a block that only jumps elsewhere, and sends its predecessors straight there. -/
def threadBlock (blocks : Blocks) (id : Nat) : Blocks :=
  match blocks.find? id with
  | some { instructions := [.jump target], preds, .. } =>
    if id = 0 ∨ target = id then
      blocks
    else
      let redirected := blocks.map
        (fun b => if preds.contains b.id then b.redirect id target else b)
        (fun b => by split <;> rfl)
      (redirected.erase id).modify target fun b =>
        { b with preds := (b.preds.erase id).union preds }
  | _ => blocks

/-- Threads all blocks in the order of their numbers. -/
def threadJumps (blocks : Blocks) : Blocks :=
  blocks.keys.foldl threadBlock blocks

def cleanup (blocks : Blocks) : Blocks :=
  dropOrphans (threadJumps (dropOrphans blocks))

end Blocks

namespace Function

def dropOrphans (f : Function) : Function :=
  { f with blocks := Blocks.dropOrphans f.blocks }

def threadJumps (f : Function) : Function :=
  { f with blocks := Blocks.threadJumps f.blocks }

def cleanup (f : Function) : Function :=
  { f with blocks := Blocks.cleanup f.blocks }

end Function

end Rill.Lir
