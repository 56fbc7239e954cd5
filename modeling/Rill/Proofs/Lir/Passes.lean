import Rill.Proofs.Lir.Cleanup

/-!
# Tidying in any order

Whatever passes a function goes through, its graph changes by single steps: all orphans of
the moment are dropped, or one block is threaded (`Blocks.Tidies`). What a step keeps is
therefore kept by every sequence of passes. Predecessors stay exact if they were so at the
beginning, and the blocks that are left differ from what they were in their predecessors
and in the targets of their last instructions only.

That tidying leaves nothing to do needs no exact predecessors. A block that has had its
turn at threading is gone, or it jumps to itself, or it does more than jump, and later
turns cannot change this: `Function.cleanup_exhausts`.
-/

namespace Rill.Lir

/-- What an instruction does, whatever blocks it leads to. -/
def Instruction.untargeted : Instruction → Instruction
  | .branch condition _ _ => .branch condition 0 0
  | .jump _ => .jump 0
  | i => i

theorem Instruction.untargeted_redirect (old new : Nat) (i : Instruction) :
    (i.redirect old new).untargeted = i.untargeted := by
  cases i <;> rfl

/-- The same block up to its predecessors and the targets of its last instruction. -/
structure Block.Retargeted (b b' : Block) : Prop where
  label : b'.label = b.label
  before : b'.instructions.dropLast = b.instructions.dropLast
  last : b'.instructions.getLast?.map (·.untargeted) = b.instructions.getLast?.map (·.untargeted)

namespace Block.Retargeted

variable {b b' b'' : Block}

theorem refl (b : Block) : b.Retargeted b := ⟨rfl, rfl, rfl⟩

theorem trans (first : b.Retargeted b') (second : b'.Retargeted b'') : b.Retargeted b'' where
  label := second.label.trans first.label
  before := second.before.trans first.before
  last := second.last.trans first.last

theorem redirect (old new : Nat) (b : Block) : b.Retargeted (b.redirect old new) := by
  obtain ⟨id, label, instructions, preds⟩ := b
  rcases List.eq_nil_or_concat instructions with rfl | ⟨before, i, rfl⟩
  · exact .refl _
  · rw [List.concat_eq_append, Block.redirect, redirectLast_concat]
    refine ⟨rfl, ?_, ?_⟩
    · rw [List.dropLast_concat, List.dropLast_concat]
    · rw [List.getLast?_concat, List.getLast?_concat, Option.map_some, Option.map_some,
        i.untargeted_redirect]

theorem withPreds (h : b.Retargeted b') (preds : NatSet) : b.Retargeted { b' with preds } :=
  ⟨h.label, h.before, h.last⟩

end Block.Retargeted

namespace Blocks

variable {blocks blocks' : Blocks} {id k target : Nat} {hop : Block}

/-- One graph comes from the other by single steps of tidying. -/
inductive Tidies (blocks : Blocks) : Blocks → Prop
  | refl : Tidies blocks blocks
  | orphans {blocks' : Blocks} : Tidies blocks blocks' → Tidies blocks (withoutOrphans blocks')
  | thread {blocks' : Blocks} (id : Nat) : Tidies blocks blocks' →
      Tidies blocks (threadBlock blocks' id)

namespace Tidies

theorem dropOrphans (h : blocks.Tidies blocks') : blocks.Tidies (dropOrphans blocks') :=
  dropOrphans_induction h fun _ => .orphans

theorem threadJumps (h : blocks.Tidies blocks') : blocks.Tidies (threadJumps blocks') :=
  threadJumps_induction h fun _ => .thread

theorem cleanup (h : blocks.Tidies blocks') : blocks.Tidies (cleanup blocks') :=
  h.dropOrphans.threadJumps.dropOrphans

theorem consistent (h : blocks.Tidies blocks') (consistent : blocks.Consistent) :
    blocks'.Consistent := by
  induction h with
  | refl => exact consistent
  | orphans _ ih => exact Consistent.withoutOrphans ih
  | @thread blocks' id _ ih =>
      rcases threadBlock_cases blocks' id with same | ⟨target, hop, hops⟩
      · rw [same]
        exact ih
      · exact hops.consistent ih

/-- The entry always stays. -/
theorem entry (h : blocks.Tidies blocks') (there : ∃ b, blocks.find? 0 = some b) :
    ∃ b, blocks'.find? 0 = some b := by
  induction h with
  | refl => exact there
  | orphans _ ih =>
      obtain ⟨b, found⟩ := ih
      exact ⟨_, find?_withoutOrphans_eq_some.2 ⟨b, found, not_orphan_entry found, rfl⟩⟩
  | @thread blocks' id _ ih =>
      rcases threadBlock_cases blocks' id with same | ⟨target, hop, hops⟩
      · rw [same]
        exact ih
      · obtain ⟨b, found⟩ := ih
        rw [hops.find?_threadBlock, if_neg hops.notEntry.symm, found]
        exact ⟨_, rfl⟩

/-- What is left was there before, up to predecessors and targets. -/
theorem retargeted (h : blocks.Tidies blocks') {b' : Block} (found' : blocks'.find? k = some b') :
    ∃ b, blocks.find? k = some b ∧ b.Retargeted b' := by
  induction h generalizing b' with
  | refl => exact ⟨b', found', .refl b'⟩
  | orphans _ ih =>
      obtain ⟨b, found, _, rfl⟩ := find?_withoutOrphans_eq_some.1 found'
      obtain ⟨first, before, same⟩ := ih found
      exact ⟨first, before, same.withPreds _⟩
  | @thread blocks' id _ ih =>
      rcases threadBlock_cases blocks' id with same | ⟨target, hop, hops⟩
      · rw [same] at found'
        exact ih found'
      · rw [hops.find?_threadBlock] at found'
        split at found'
        · cases found'
        · obtain ⟨b, found, rfl⟩ := Option.map_eq_some_iff.1 found'
          obtain ⟨first, before, same⟩ := ih found
          refine ⟨first, before, Block.Retargeted.withPreds ?_ _⟩
          split
          · exact same.trans (.redirect ..)
          · exact same

end Tidies

theorem any_isOrphan_dropOrphans (blocks : Blocks) :
    (dropOrphans blocks).items.any (·.isOrphan) = false := by
  induction blocks using dropOrphans.induct with
  | case1 blocks orphans ih =>
      rw [dropOrphans, dif_pos orphans]
      exact ih
  | case2 blocks none =>
      rw [dropOrphans, dif_neg none]
      simpa using none

theorem dropOrphans_dropOrphans (blocks : Blocks) :
    dropOrphans (dropOrphans blocks) = dropOrphans blocks := by
  rw [dropOrphans.eq_1 (dropOrphans blocks), dif_neg]
  rw [any_isOrphan_dropOrphans]
  exact Bool.false_ne_true

/-- A block of one jump has been such a block before its target was redirected. -/
theorem redirectLast_eq_jump {old new t : Nat} {l : List Instruction}
    (h : redirectLast old new l = [.jump t]) :
    ∃ u, l = [.jump u] ∧ t = if u = old then new else u := by
  rcases List.eq_nil_or_concat l with rfl | ⟨before, i, rfl⟩
  · cases h
  · rw [List.concat_eq_append] at h ⊢
    rw [redirectLast_concat, List.append_eq_singleton_iff] at h
    rcases h with ⟨rfl, last⟩ | ⟨_, none⟩
    · cases i with
      | jump u => exact ⟨u, rfl, (Instruction.jump.inj (List.singleton_inj.1 last)).symm⟩
      | _ => cases last
    · cases none

/-- One turn: the block of that number jumps nowhere else any more, and no other block has begun
to. -/
theorem Forwards.of_threadBlock (h : Forwards (threadBlock blocks id) k target hop) :
    k ≠ id ∧ ∃ target hop, Forwards blocks k target hop := by
  by_cases turn : ∃ target hop, Forwards blocks id target hop
  · obtain ⟨target', hop', hops⟩ := turn
    have found := h.found
    rw [hops.find?_threadBlock] at found
    split at found
    · cases found
    · next other =>
      refine ⟨other, ?_⟩
      obtain ⟨b, before, rfl⟩ := Option.map_eq_some_iff.1 found
      have jumps : (if hop'.preds.contains k then b.redirect id target' else b).instructions =
          [.jump target] := h.jumps
      split at jumps
      · obtain ⟨u, jumped, redirected⟩ := redirectLast_eq_jump jumps
        refine ⟨u, b, before, jumped, h.notEntry, ?_⟩
        -- A block that jumps to itself does not jump to the one that is taken away.
        rintro rfl
        rw [if_neg other] at redirected
        exact h.elsewhere redirected
      · exact ⟨target, b, before, jumps, h.notEntry, h.elsewhere⟩
  · have same := (threadBlock_cases blocks id).resolve_right turn
    rw [same] at h
    refine ⟨?_, target, hop, h⟩
    rintro rfl
    exact turn ⟨target, hop, h⟩

theorem Forwards.of_threadBlocks {ids : List Nat}
    (h : Forwards (ids.foldl threadBlock blocks) k target hop) :
    k ∉ ids ∧ ∃ target hop, Forwards blocks k target hop := by
  induction ids generalizing blocks with
  | nil => exact ⟨List.not_mem_nil, target, hop, h⟩
  | cons id ids ih =>
      obtain ⟨later, _, _, before⟩ := ih h
      obtain ⟨other, first⟩ := before.of_threadBlock
      exact ⟨List.not_mem_cons_of_ne_of_not_mem other later, first⟩

/-- Every block has its turn, so one pass is enough. -/
theorem not_forwards_threadJumps (blocks : Blocks) :
    ¬ Forwards (threadJumps blocks) k target hop := by
  intro h
  obtain ⟨unlisted, _, _, before⟩ := h.of_threadBlocks
  exact unlisted (List.mem_map.2 ⟨_, Ascending.find?_eq_some_iff.1 before.found⟩)

/-- Dropping orphans afterwards changes no instructions. -/
theorem not_forwards_cleanup (blocks : Blocks) :
    ∀ k target hop, ¬ Forwards (cleanup blocks) k target hop := by
  refine dropOrphans_induction (P := fun blocks' => ∀ k target hop, ¬ Forwards blocks' k target hop)
    (fun _ _ _ => not_forwards_threadJumps _) ?_
  intro blocks' none k target hop h
  obtain ⟨b, before, _, rfl⟩ := find?_withoutOrphans_eq_some.1 h.found
  exact none k target b ⟨before, h.jumps, h.notEntry, h.elsewhere⟩

theorem threadJumps_eq_self (h : ∀ k target hop, ¬ Forwards blocks k target hop) :
    threadJumps blocks = blocks := by
  refine threadJumps_induction (P := (· = blocks)) rfl ?_
  rintro _ id rfl
  refine (threadBlock_cases _ id).resolve_right ?_
  rintro ⟨target, hop, hops⟩
  exact h id target hop hops

theorem cleanup_cleanup (blocks : Blocks) : cleanup (cleanup blocks) = cleanup blocks := by
  have tidy : dropOrphans (cleanup blocks) = cleanup blocks := dropOrphans_dropOrphans _
  rw [cleanup.eq_1 (cleanup blocks), tidy, threadJumps_eq_self (not_forwards_cleanup blocks), tidy]

end Blocks

/-- The ways to tidy a function. -/
inductive Pass where
  | dropOrphans
  | threadJumps
  | cleanup
  deriving DecidableEq, Repr

def Pass.apply : Pass → Function → Function
  | .dropOrphans => Function.dropOrphans
  | .threadJumps => Function.threadJumps
  | .cleanup => Function.cleanup

namespace Function

/-- The function after passes in the given order. -/
def afterPasses (f : Function) (passes : List Pass) : Function :=
  passes.foldl (fun f pass => pass.apply f) f

theorem afterPasses_eq (f : Function) (passes : List Pass) :
    f.afterPasses passes = { f with blocks := (f.afterPasses passes).blocks } := by
  induction passes generalizing f with
  | nil => rfl
  | cons pass passes ih => cases pass <;> exact ih _

theorem tidies_apply {blocks : Blocks} {f : Function} (h : blocks.Tidies f.blocks) (pass : Pass) :
    blocks.Tidies (pass.apply f).blocks := by
  cases pass with
  | dropOrphans => exact h.dropOrphans
  | threadJumps => exact h.threadJumps
  | cleanup => exact h.cleanup

theorem tidies_afterPasses {blocks : Blocks} {f : Function} (h : blocks.Tidies f.blocks)
    (passes : List Pass) : blocks.Tidies (f.afterPasses passes).blocks := by
  induction passes generalizing f with
  | nil => exact h
  | cons pass passes ih => exact ih (tidies_apply h pass)

/-- Passes in any order keep predecessors exact, the entry in its place and all that is not about
targets as it was. -/
theorem consistent_afterPasses {f : Function} (consistent : f.blocks.Consistent)
    (passes : List Pass) :
    (f.afterPasses passes).blocks.Consistent ∧
      ((∃ b, f.blocks.find? 0 = some b) → ∃ b, (f.afterPasses passes).blocks.find? 0 = some b) ∧
      f.afterPasses passes = { f with blocks := (f.afterPasses passes).blocks } ∧
      ∀ k b', (f.afterPasses passes).blocks.find? k = some b' →
        ∃ b, f.blocks.find? k = some b ∧ b.Retargeted b' := by
  have tidies : f.blocks.Tidies (f.afterPasses passes).blocks := tidies_afterPasses .refl passes
  exact ⟨tidies.consistent consistent, tidies.entry, f.afterPasses_eq passes,
    fun _ _ => tidies.retargeted⟩

/-- Block 1 returns behind its jump and so leads nowhere, which makes 4 an orphan, as 6 is. Blocks 2
and 3 lead to each other, the latter on either side of its branch, and 5 leads to itself. -/
def knotted : Function where
  id := 0
  name := "knotted"
  returnType := .unit
  registers := .ofList [.bool]
  arguments := [0]
  blocks := .ofList
    [⟨0, "entry", [.branch (.reg 0) 1 2], .empty⟩,
      ⟨1, "then", [.jump 4, .ret none], .ofList [0]⟩,
      ⟨2, "else", [.jump 3], .ofList [0, 3]⟩,
      ⟨3, "while_cond", [.branch (.reg 0) 2 2], .ofList [2]⟩,
      ⟨4, "while_body", [.jump 5], .empty⟩,
      ⟨5, "while_end", [.jump 5], .ofList [4, 5, 6]⟩,
      ⟨6, "cont", [.jump 5], .empty⟩]

theorem consistent_afterPasses_knotted :
    knotted.blocks.Consistent ∧ ¬ knotted.blocks.Linked ∧
      (knotted.afterPasses [.threadJumps, .cleanup, .dropOrphans]).blocks.Consistent ∧
      ∃ b, (knotted.afterPasses [.threadJumps, .cleanup, .dropOrphans]).blocks.find? 0 =
        some b := by
  have consistent : knotted.blocks.Consistent := by decide
  obtain ⟨after, entry, _, _⟩ :=
    consistent_afterPasses consistent [.threadJumps, .cleanup, .dropOrphans]
  exact ⟨consistent, by decide, after, entry ⟨_, rfl⟩⟩

/-- Tidying leaves nothing to do, even where predecessors are wrong or targets are missing. No
block but the entry only jumps elsewhere after threading, none lacks predecessors after orphans
have been dropped, and tidying once more changes nothing. -/
theorem cleanup_exhausts (f : Function) :
    (∀ k b t, f.threadJumps.blocks.find? k = some b → k ≠ 0 → b.instructions = [.jump t] →
        t = k) ∧
      (∀ k b, f.dropOrphans.blocks.find? k = some b → k ≠ 0 → b.preds.isEmpty = false) ∧
      f.cleanup.cleanup = f.cleanup := by
  refine ⟨?_, ?_, ?_⟩
  · intro k b t found inner jumps
    by_contra elsewhere
    exact Blocks.not_forwards_threadJumps f.blocks ⟨found, jumps, inner, elsewhere⟩
  · intro k b found inner
    have none := Blocks.any_isOrphan_dropOrphans f.blocks
    rw [List.any_eq_false] at none
    have stays := none b (Ascending.mem_of_find? found)
    simpa [Block.isOrphan, Ascending.key_of_find? found, inner] using stays
  · exact congrArg (fun blocks => { f with blocks }) (Blocks.cleanup_cleanup f.blocks)

/-- Blocks 1 and 2 jump to each other, which only the former knows. There is no block 7, and block 3
is not ended. -/
def garbled : Function where
  id := 0
  name := "garbled"
  returnType := .unit
  registers := .ofList [.bool]
  arguments := [0]
  blocks := .ofList
    [⟨0, "entry", [.branch (.reg 0) 1 7], .ofList [3]⟩, ⟨1, "then", [.jump 2], .ofList [2]⟩,
      ⟨2, "else", [.jump 1], .ofList [5]⟩, ⟨3, "cont", [], .empty⟩]

theorem cleanup_exhausts_garbled :
    (∃ b t, garbled.threadJumps.blocks.find? 2 = some b ∧ b.instructions = [.jump t] ∧ t = 2) ∧
      garbled.cleanup.cleanup = garbled.cleanup := by
  obtain ⟨threaded, _, once⟩ := garbled.cleanup_exhausts
  have found : garbled.threadJumps.blocks.find? 2 =
      some ⟨2, "else", [.jump 2], .ofList [2, 5]⟩ := by decide
  exact ⟨⟨_, 2, found, rfl, threaded 2 _ 2 found (by decide) rfl⟩, once⟩

end Function

end Rill.Lir
