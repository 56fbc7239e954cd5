import Rill.Lir.Cleanup
import Rill.Proofs.Lir.Graph
import Rill.Proofs.Lir.Machine

/-!
# Tidied graphs are run as before

Dropping orphans takes away only blocks that control never enters, so the rest makes
the same steps. Threading takes a block that merely jumps out of every path: one step
of the new graph is two of the old one where a path went through that block, and one
elsewhere. Both leave linked graphs linked, so they can be repeated in any order.
-/

namespace Rill.Lir

namespace Blocks

variable {blocks : Blocks}

/-- A step in a linked graph stays in its block or enters a successor from the beginning. -/
theorem Linked.step_block (linked : blocks.Linked) {oracle : Oracle} {s t : State}
    (h : blocks.step oracle s = .ok t) :
    ∃ b, blocks.find? s.block = some b ∧
      (t.block = s.block ∨ (t.block ∈ b.successors ∧ t.done = 0)) := by
  simp only [step] at h
  split at h
  · cases h
  · next b found =>
    refine ⟨b, found, ?_⟩
    split at h
    · cases h
    · next i here =>
      rcases Instruction.run_cases h with ⟨target, mem, rfl⟩ | ⟨stays, _, _⟩
      · have leads := (linked.ends _ b found).mem_successors (List.mem_of_getElem? here) mem
        exact .inr ⟨leads, rfl⟩
      · exact .inl stays

theorem find?_withoutOrphans_eq_some {k : Nat} {b' : Block} :
    (withoutOrphans blocks).find? k = some b' ↔
      ∃ b, blocks.find? k = some b ∧ b.isOrphan = false ∧
        b' = { b with preds := b.preds.filter fun p => !(blocks.find? p).any (·.isOrphan) } := by
  simp only [withoutOrphans, Ascending.find?_map, Ascending.find?_filter, Option.map_eq_some_iff,
    Option.filter_eq_some_iff, Bool.not_eq_true', and_assoc]
  simp only [eq_comm]

/-- What has a predecessor is no orphan. -/
theorem Consistent.not_orphan_of_successor (consistent : blocks.Consistent) {k t : Nat}
    {b c : Block} (from_ : blocks.find? k = some b) (leads : t ∈ b.successors)
    (found : blocks.find? t = some c) : c.isOrphan = false := by
  have pred : c.preds.contains k = true := (consistent.preds t c found k).2 ⟨b, from_, leads⟩
  have inhabited : c.preds.isEmpty = false := by
    rw [Bool.eq_false_iff, ne_eq, Ascending.isEmpty_iff]
    intro none
    rw [none k] at pred
    cases pred
  rw [Block.isOrphan, inhabited, Bool.and_false]

theorem not_orphan_entry {b : Block} (found : blocks.find? 0 = some b) : b.isOrphan = false := by
  simp [Block.isOrphan, Ascending.key_of_find? found]

theorem Consistent.withoutOrphans (consistent : blocks.Consistent) :
    (withoutOrphans blocks).Consistent where
  targets := by
    intro k b' found' t leads
    obtain ⟨b, found, _, rfl⟩ := find?_withoutOrphans_eq_some.1 found'
    obtain ⟨c, target⟩ := consistent.targets k b found t leads
    have stays := consistent.not_orphan_of_successor found leads target
    exact ⟨_, find?_withoutOrphans_eq_some.2 ⟨c, target, stays, rfl⟩⟩
  preds := by
    intro k b' found' p
    obtain ⟨b, found, _, rfl⟩ := find?_withoutOrphans_eq_some.1 found'
    rw [Ascending.contains_filter, Bool.and_eq_true, consistent.preds k b found p]
    constructor
    · rintro ⟨⟨c, leader, leads⟩, stays⟩
      rw [leader] at stays
      exact ⟨_, find?_withoutOrphans_eq_some.2 ⟨c, leader, by simpa using stays, rfl⟩, leads⟩
    · rintro ⟨c', leader', leads⟩
      obtain ⟨c, leader, stays, rfl⟩ := find?_withoutOrphans_eq_some.1 leader'
      exact ⟨⟨c, leader, leads⟩, by simp [leader, stays]⟩

theorem Linked.withoutOrphans (linked : blocks.Linked) : (withoutOrphans blocks).Linked where
  entry := by
    obtain ⟨b, found⟩ := linked.entry
    exact ⟨_, find?_withoutOrphans_eq_some.2 ⟨b, found, not_orphan_entry found, rfl⟩⟩
  ends := by
    intro k b' found'
    obtain ⟨b, found, _, rfl⟩ := find?_withoutOrphans_eq_some.1 found'
    exact linked.ends k b found
  targets := (Consistent.withoutOrphans linked.consistent).targets
  preds := (Consistent.withoutOrphans linked.consistent).preds

/-- Control never enters an orphan, so the other blocks make all steps. -/
theorem Linked.run_withoutOrphans (linked : blocks.Linked) (oracle : Oracle)
    (regs : Nat → Value) :
    ((Blocks.withoutOrphans blocks).run oracle (.start regs)).Same
      (blocks.run oracle (.start regs)) := by
  have lockstep : ∀ s b, blocks.find? s.block = some b → b.isOrphan = false →
      (Blocks.withoutOrphans blocks).step oracle s = blocks.step oracle s := by
    intro s b found stays
    have found' := find?_withoutOrphans_eq_some.2 ⟨b, found, stays, rfl⟩
    simp only [step, found, found']
  refine same_of_steps
    (fun s => ∃ b, blocks.find? s.block = some b ∧ b.isOrphan = false) ?_ ?_ ?_
  · rintro s t ⟨b, found, stays⟩ step
    rw [lockstep s b found stays] at step
    refine ⟨?_, 0, runFor_succ_of_ok step 0⟩
    obtain ⟨_, same, moves⟩ := linked.step_block step
    obtain rfl := Option.some.inj (found.symm.trans same)
    rcases moves with same | ⟨leads, _⟩
    · exact ⟨b, same ▸ found, stays⟩
    · obtain ⟨c, target⟩ := linked.targets _ b found _ leads
      exact ⟨c, target, Consistent.not_orphan_of_successor linked.consistent found leads target⟩
  · rintro s e ⟨b, found, stays⟩ step
    rw [← step, lockstep s b found stays]
  · obtain ⟨b, found⟩ := linked.entry
    exact ⟨b, found, not_orphan_entry found⟩

/-- A change to blocks that leaves them linked and is not noticed when they are run. -/
def Unseen (change : Blocks → Blocks) : Prop :=
  ∀ blocks, blocks.Linked → (change blocks).Linked ∧
    ∀ oracle regs, ((change blocks).run oracle (.start regs)).Same
      (blocks.run oracle (.start regs))

theorem Unseen.comp {f g : Blocks → Blocks} (hf : Unseen f) (hg : Unseen g) :
    Unseen (f ∘ g) := by
  intro blocks linked
  obtain ⟨linked', inner⟩ := hg blocks linked
  obtain ⟨linked'', outer⟩ := hf (g blocks) linked'
  exact ⟨linked'', fun oracle regs => (outer oracle regs).trans (inner oracle regs)⟩

/-- What a step of dropping orphans keeps, all of them keep. -/
theorem dropOrphans_induction {P : Blocks → Prop} (start : P blocks)
    (step : ∀ blocks, P blocks → P (Blocks.withoutOrphans blocks)) : P (dropOrphans blocks) := by
  induction blocks using dropOrphans.induct with
  | case1 blocks orphans ih =>
      rw [dropOrphans, dif_pos orphans]
      exact ih (step blocks start)
  | case2 blocks none =>
      rw [dropOrphans, dif_neg none]
      exact start

theorem unseen_dropOrphans : Unseen dropOrphans := by
  intro blocks linked
  refine dropOrphans_induction (P := fun blocks' => blocks'.Linked ∧ ∀ oracle regs,
    (blocks'.run oracle (.start regs)).Same (blocks.run oracle (.start regs)))
    ⟨linked, fun _ _ => .refl _⟩ ?_
  rintro blocks' ⟨linked', same⟩
  refine ⟨linked'.withoutOrphans, fun oracle regs => ?_⟩
  exact (linked'.run_withoutOrphans oracle regs).trans (same oracle regs)

end Blocks

namespace Instruction

variable {old new : Nat}

@[simp] theorem isTerminator_redirect (i : Instruction) :
    (i.redirect old new).isTerminator = i.isTerminator := by
  cases i <;> rfl

theorem redirect_eq_self {i : Instruction} (h : old ∉ i.targets) : i.redirect old new = i := by
  cases i with
  | branch condition positive negative =>
      simp only [targets, List.mem_cons, not_or] at h
      rw [redirect, if_neg (Ne.symm h.1), if_neg (Ne.symm h.2.1)]
  | jump target =>
      simp only [targets, List.mem_singleton] at h
      rw [redirect, if_neg (Ne.symm h)]
  | _ => rfl

theorem targets_redirect (i : Instruction) :
    (i.redirect old new).targets = i.targets.map fun t => if t = old then new else t := by
  cases i <;> rfl

/-- A redirected instruction goes at once where the old block would have led. -/
theorem run_redirect (i : Instruction) (oracle : Oracle) {s : State} (elsewhere : s.block ≠ old) :
    (i.redirect old new).run oracle s =
      (i.run oracle s).map fun t => if t.block = old then t.goto new else t := by
  -- Without targets there is nothing to redirect, and control stays in its block.
  have plain : i.targets = [] → (i.redirect old new).run oracle s =
      (i.run oracle s).map fun t => if t.block = old then t.goto new else t := by
    intro none
    rw [redirect_eq_self (by simp [none])]
    cases result : i.run oracle s with
    | error e => rfl
    | ok t =>
        rcases run_cases result with ⟨target, mem, _⟩ | ⟨same, _, _⟩
        · simp [none] at mem
        · simp only [Except.map, if_neg (same ▸ elsewhere)]
  cases i with
  | branch condition positive negative =>
      simp only [redirect, run]
      split
      · next b _ =>
        cases b <;> simp only [Except.map, State.goto] <;> grind
      · rfl
  | jump target =>
      simp only [redirect, run, Except.map, State.goto]
      grind
  | _ => exact plain rfl

end Instruction

theorem redirectLast_concat (old new : Nat) (before : List Instruction) (i : Instruction) :
    redirectLast old new (before ++ [i]) = before ++ [i.redirect old new] := by
  induction before with
  | nil => rfl
  | cons j before ih =>
      cases before with
      | nil => rfl
      | cons k rest => exact congrArg (j :: ·) ih

theorem redirectLast_eq_map {old new : Nat} {l : List Instruction}
    (h : ∀ i ∈ l.dropLast, i.isTerminator = false) :
    redirectLast old new l = l.map (·.redirect old new) := by
  rcases List.eq_nil_or_concat l with rfl | ⟨before, i, rfl⟩
  · rfl
  · rw [List.concat_eq_append, List.dropLast_concat] at h
    have plain : ∀ j ∈ before, j.redirect old new = j := by
      intro j mem
      refine Instruction.redirect_eq_self ?_
      rw [Instruction.targets_of_not_terminator (h j mem)]
      exact List.not_mem_nil
    rw [List.concat_eq_append, redirectLast_concat, List.map_append, List.map_congr_left plain,
      List.map_id', List.map_singleton]

namespace Block

variable {old new : Nat} {b : Block}

theorem EndsOnce.instructions_redirect (h : b.EndsOnce) :
    (b.redirect old new).instructions = b.instructions.map (·.redirect old new) :=
  redirectLast_eq_map h

theorem EndsOnce.redirect (h : b.EndsOnce) : (b.redirect old new).EndsOnce := by
  intro i mem
  rw [h.instructions_redirect, ← List.map_dropLast] at mem
  obtain ⟨j, early, rfl⟩ := List.mem_map.1 mem
  rw [Instruction.isTerminator_redirect]
  exact h j early

theorem successors_redirect (b : Block) :
    (b.redirect old new).successors =
      b.successors.map fun t => if t = old then new else t := by
  simp only [successors, redirect]
  rcases List.eq_nil_or_concat b.instructions with empty | ⟨before, i, split⟩
  · rw [empty]
    rfl
  · rw [split, List.concat_eq_append, redirectLast_concat, List.getLast?_concat,
      List.getLast?_concat]
    exact i.targets_redirect

/-- A block that does not lead to the old target is left alone. -/
theorem redirect_eq_self (other : old ∉ b.successors) : b.redirect old new = b := by
  have same : redirectLast old new b.instructions = b.instructions := by
    rcases List.eq_nil_or_concat b.instructions with empty | ⟨before, i, split⟩
    · rw [empty]
      rfl
    · rw [List.concat_eq_append] at split
      have elsewhere : old ∉ i.targets := by
        intro target
        exact other (mem_successors.2 ⟨i, by rw [split, List.getLast?_concat], target⟩)
      rw [split, redirectLast_concat, Instruction.redirect_eq_self elsewhere]
  rw [redirect, same]

end Block

namespace Blocks

variable {blocks : Blocks} {id target : Nat} {hop : Block}

/-- A block that only jumps elsewhere. -/
structure Forwards (blocks : Blocks) (id target : Nat) (hop : Block) : Prop where
  found : blocks.find? id = some hop
  jumps : hop.instructions = [.jump target]
  notEntry : id ≠ 0
  elsewhere : target ≠ id

theorem threadBlock_cases (blocks : Blocks) (id : Nat) :
    threadBlock blocks id = blocks ∨ ∃ target hop, Forwards blocks id target hop := by
  rw [threadBlock]
  split
  · next hopId label target preds found =>
    split
    · exact .inl rfl
    · next proper =>
      rw [not_or] at proper
      exact .inr ⟨target, _, found, rfl, proper.1, proper.2⟩
  · exact .inl rfl

namespace Forwards

theorem successors (hops : Forwards blocks id target hop) : hop.successors = [target] := by
  simp [Block.successors, hops.jumps, Instruction.targets]

/-- The blocks after threading. -/
theorem find?_threadBlock (hops : Forwards blocks id target hop) (k : Nat) :
    (threadBlock blocks id).find? k =
      if k = id then none
      else (blocks.find? k).map fun b =>
        { (if hop.preds.contains k then b.redirect id target else b) with
          preds := if k = target then (b.preds.erase id).union hop.preds else b.preds } := by
  obtain ⟨found, jumps, notEntry, elsewhere⟩ := hops
  obtain ⟨hopId, label, instructions, preds⟩ := hop
  obtain rfl : instructions = [.jump target] := jumps
  simp only [threadBlock, found, notEntry, elsewhere, or_self, if_false,
    Ascending.find?_modify, Ascending.find?_erase, Ascending.find?_map]
  cases at_k : blocks.find? k with
  | none => simp
  | some b =>
      obtain rfl : b.id = k := Ascending.key_of_find? at_k
      by_cases gone : b.id = id
      · simp [gone]
      · by_cases there : b.id = target
        · simp only [if_neg gone, if_pos there, Option.map_some]
          split <;> rfl
        · simp only [if_neg gone, if_neg there, Option.map_some]
          split <;> rfl

/-- That only predecessors are redirected makes no difference where they are exact, since no other
block leads to the one that is taken away. -/
theorem find?_of_consistent (hops : Forwards blocks id target hop)
    (consistent : blocks.Consistent) (k : Nat) :
    (threadBlock blocks id).find? k =
      if k = id then none
      else (blocks.find? k).map fun b =>
        { b.redirect id target with
          preds := if k = target then (b.preds.erase id).union hop.preds else b.preds } := by
  rw [hops.find?_threadBlock]
  split
  · rfl
  · refine Option.map_congr fun b at_k => ?_
    split
    · rfl
    · next other =>
      rw [consistent.preds id _ hops.found] at other
      rw [Block.redirect_eq_self fun leads => other ⟨b, at_k, leads⟩]

theorem find?_eq_some (hops : Forwards blocks id target hop) (consistent : blocks.Consistent)
    {k : Nat} {b' : Block} :
    (threadBlock blocks id).find? k = some b' ↔
      k ≠ id ∧ ∃ b, blocks.find? k = some b ∧
        b' = { b.redirect id target with
          preds := if k = target then (b.preds.erase id).union hop.preds else b.preds } := by
  rw [hops.find?_of_consistent consistent]
  by_cases gone : k = id
  · simp [gone]
  · rw [if_neg gone, Option.map_eq_some_iff, and_iff_right gone]
    simp only [eq_comm]

/-- Where control goes after threading in place of `t`. -/
theorem mem_redirected (hops : Forwards blocks id target hop) {k : Nat} (there : k ≠ id)
    (l : List Nat) :
    k ∈ l.map (fun t => if t = id then target else t) ↔ k ∈ l ∨ (k = target ∧ id ∈ l) := by
  have := hops.elsewhere
  rw [List.mem_map]
  constructor
  · rintro ⟨t, mem, rfl⟩
    split at there <;> grind
  · rintro (mem | ⟨rfl, mem⟩)
    · exact ⟨k, mem, if_neg there⟩
    · exact ⟨id, mem, if_pos rfl⟩

theorem consistent (hops : Forwards blocks id target hop) (consistent : blocks.Consistent) :
    (threadBlock blocks id).Consistent where
  targets := by
    intro k b' found' t leads
    obtain ⟨_, b, found, rfl⟩ := (hops.find?_eq_some consistent).1 found'
    change t ∈ (b.redirect id target).successors at leads
    rw [b.successors_redirect] at leads
    obtain ⟨u, led, rfl⟩ := List.mem_map.1 leads
    by_cases through : u = id
    · obtain ⟨c, after⟩ := consistent.targets id hop hops.found target (by simp [hops.successors])
      rw [if_pos through]
      exact ⟨_, (hops.find?_eq_some consistent).2 ⟨hops.elsewhere, c, after, rfl⟩⟩
    · obtain ⟨c, after⟩ := consistent.targets k b found u led
      rw [if_neg through]
      exact ⟨_, (hops.find?_eq_some consistent).2 ⟨through, c, after, rfl⟩⟩
  preds := by
    intro k b' found' p
    obtain ⟨there, b, found, rfl⟩ := (hops.find?_eq_some consistent).1 found'
    have leading : (∃ c', (threadBlock blocks id).find? p = some c' ∧ k ∈ c'.successors) ↔
        p ≠ id ∧ ∃ c, blocks.find? p = some c ∧
          (k ∈ c.successors ∨ (k = target ∧ id ∈ c.successors)) := by
      constructor
      · rintro ⟨c', leader', leads⟩
        obtain ⟨other, c, leader, rfl⟩ := (hops.find?_eq_some consistent).1 leader'
        change k ∈ (c.redirect id target).successors at leads
        rw [c.successors_redirect, hops.mem_redirected there] at leads
        exact ⟨other, c, leader, leads⟩
      · rintro ⟨other, c, leader, leads⟩
        rw [← hops.mem_redirected there, ← c.successors_redirect] at leads
        exact ⟨_, (hops.find?_eq_some consistent).2 ⟨other, c, leader, rfl⟩, leads⟩
    rw [leading]
    -- The block that is taken away was a predecessor of its target and of nothing else.
    have only : ∀ {j}, (∃ c, blocks.find? p = some c ∧ j ∈ c.successors) → p = id → j = target := by
      rintro j ⟨c, leader, leads⟩ rfl
      obtain rfl := Option.some.inj (hops.found.symm.trans leader)
      simpa [hops.successors] using leads
    by_cases after : k = target
    · rw [if_pos after, Ascending.contains_union, Ascending.contains_erase, Bool.or_eq_true,
        Bool.and_eq_true, consistent.preds k b found p, consistent.preds id hop hops.found p]
      have := @only id
      have := hops.elsewhere
      grind
    · rw [if_neg after, consistent.preds k b found p]
      have := @only k
      grind

theorem linked (hops : Forwards blocks id target hop) (linked : blocks.Linked) :
    (threadBlock blocks id).Linked where
  entry := by
    obtain ⟨b, found⟩ := linked.entry
    exact ⟨_, (hops.find?_eq_some linked.consistent).2 ⟨hops.notEntry.symm, b, found, rfl⟩⟩
  ends := by
    intro k b' found'
    obtain ⟨_, b, found, rfl⟩ := (hops.find?_eq_some linked.consistent).1 found'
    exact (linked.ends k b found).redirect
  targets := (hops.consistent linked.consistent).targets
  preds := (hops.consistent linked.consistent).preds

theorem step (hops : Forwards blocks id target hop) (linked : blocks.Linked) (oracle : Oracle)
    {s : State} (elsewhere : s.block ≠ id) :
    (threadBlock blocks id).step oracle s =
      (blocks.step oracle s).map fun t => if t.block = id then t.goto target else t := by
  simp only [Blocks.step, hops.find?_of_consistent linked.consistent, if_neg elsewhere]
  cases found : blocks.find? s.block with
  | none => rfl
  | some b =>
      simp only [Option.map_some, (linked.ends _ b found).instructions_redirect,
        List.getElem?_map]
      cases b.instructions[s.done]? with
      | none => rfl
      | some i => exact i.run_redirect oracle elsewhere

/-- A step that would have entered the block goes on to its target at once. -/
theorem run (hops : Forwards blocks id target hop) (linked : blocks.Linked) (oracle : Oracle)
    (regs : Nat → Value) :
    ((threadBlock blocks id).run oracle (.start regs)).Same
      (blocks.run oracle (.start regs)) := by
  refine same_of_steps (·.block ≠ id) ?_ ?_ hops.notEntry.symm
  · intro s t elsewhere step
    rw [hops.step linked oracle elsewhere] at step
    cases first : blocks.step oracle s with
    | error e => simp [first, Except.map] at step
    | ok u =>
        simp only [first, Except.map, Except.ok.injEq] at step
        subst step
        by_cases through : u.block = id
        · rw [if_pos through]
          have second : blocks.step oracle u = .ok (u.goto target) := by
            obtain ⟨_, _, same | ⟨_, first⟩⟩ := linked.step_block first
            · exact absurd (same.symm.trans through) elsewhere
            · simp [Blocks.step, through, hops.found, first, hops.jumps, Instruction.run]
          refine ⟨hops.elsewhere, 1, ?_⟩
          rw [runFor_succ_of_ok first, runFor_succ_of_ok second]
          rfl
        · rw [if_neg through]
          exact ⟨through, 0, runFor_succ_of_ok first 0⟩
  · intro s e elsewhere step
    rw [hops.step linked oracle elsewhere] at step
    cases first : blocks.step oracle s with
    | error e' => simpa [first, Except.map] using step
    | ok u => simp [first, Except.map] at step

end Forwards

theorem unseen_threadBlock (id : Nat) : Unseen (threadBlock · id) := by
  intro blocks linked
  rcases threadBlock_cases blocks id with same | ⟨target, hop, hops⟩
  · simp only [same]
    exact ⟨linked, fun _ _ => .refl _⟩
  · exact ⟨hops.linked linked, hops.run linked⟩

/-- What the threading of one block keeps, that of all blocks keeps. -/
theorem threadJumps_induction {P : Blocks → Prop} (start : P blocks)
    (step : ∀ blocks id, P blocks → P (threadBlock blocks id)) : P (threadJumps blocks) := by
  have threads : ∀ (ids : List Nat) {blocks : Blocks}, P blocks →
      P (ids.foldl threadBlock blocks) := by
    intro ids
    induction ids with
    | nil => exact fun start => start
    | cons id ids ih => exact fun start => ih (step _ id start)
  exact threads blocks.keys start

theorem unseen_threadJumps : Unseen threadJumps := by
  intro blocks linked
  refine threadJumps_induction (P := fun blocks' => blocks'.Linked ∧ ∀ oracle regs,
    (blocks'.run oracle (.start regs)).Same (blocks.run oracle (.start regs)))
    ⟨linked, fun _ _ => .refl _⟩ ?_
  rintro blocks' id ⟨linked', same⟩
  obtain ⟨linked'', step⟩ := unseen_threadBlock id blocks' linked'
  exact ⟨linked'', fun oracle regs => (step oracle regs).trans (same oracle regs)⟩

theorem unseen_cleanup : Unseen cleanup :=
  unseen_dropOrphans.comp (unseen_threadJumps.comp unseen_dropOrphans)

end Blocks

namespace Function

/-- Tidying a function whose blocks are linked does not change what is seen of it when it is run,
nor does any of its parts alone. -/
theorem run_cleanup {f : Function} (linked : Blocks.Linked f.blocks) (oracle : Oracle)
    (regs : Nat → Value) :
    (f.cleanup.run oracle regs).Same (f.run oracle regs) ∧
      (f.dropOrphans.run oracle regs).Same (f.run oracle regs) ∧
      (f.threadJumps.run oracle regs).Same (f.run oracle regs) :=
  ⟨(Blocks.unseen_cleanup f.blocks linked).2 oracle regs,
    (Blocks.unseen_dropOrphans f.blocks linked).2 oracle regs,
    (Blocks.unseen_threadJumps f.blocks linked).2 oracle regs⟩

/-- Blocks 1 and 3 merely jump, the latter to the entry; 4 and 5 jump to each other. Block 2
branches to the same block on either side, and 6 is an orphan. -/
def tangled : Function where
  id := 0
  name := "tangled"
  returnType := .unit
  registers := .ofList [.bool, .bool]
  arguments := [0, 1]
  blocks := .ofList
    [⟨0, "entry", [.branch (.reg 0) 1 4], .ofList [3]⟩, ⟨1, "then", [.jump 2], .ofList [0]⟩,
      ⟨2, "cont", [.branch (.reg 1) 3 3], .ofList [1]⟩, ⟨3, "cont", [.jump 0], .ofList [2]⟩,
      ⟨4, "while_cond", [.jump 5], .ofList [0, 5]⟩, ⟨5, "while_body", [.jump 4], .ofList [4]⟩,
      ⟨6, "while_end", [.ret none], .empty⟩]

theorem run_cleanup_tangled :
    Blocks.Linked tangled.blocks ∧
      (tangled.cleanup.run (fun _ _ _ => .unit) fun _ => .bool true).Same
        (tangled.run (fun _ _ _ => .unit) fun _ => .bool true) := by
  have linked : Blocks.Linked tangled.blocks := by decide
  exact ⟨linked, (run_cleanup linked _ _).1⟩

end Function

end Rill.Lir
