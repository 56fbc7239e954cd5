import Mathlib.Tactic.Tauto
import Rill.Proofs.Lir.Cleanup
import Rill.Proofs.Lir.Landing

/-!
# What is left of a lowered function

Dropping orphans goes by predecessors and would keep an island, a part of the graph that
leads to itself and that nothing else leads to. Threading gives up on a block that jumps
to itself, and takes turns in a ring of jumps until such a block is left. Lowered functions
have neither islands nor rings, so tidying them leaves just the blocks that a path leads
to, less those that merely jump: `Function.cleanup_lower`.
-/

namespace Rill

namespace Lir

namespace Graph

variable {graph graph' : Graph} {k : Nat}

/-- The instructions of a block. -/
def code (graph : Graph) (k : Nat) : Option (List Instruction) :=
  (graph k).map (·.instructions)

theorem code_eq_some {l : List Instruction} :
    graph.code k = some l ↔ ∃ b, graph k = some b ∧ b.instructions = l :=
  Option.map_eq_some_iff

theorem code_eq_none : graph.code k = none ↔ graph k = none :=
  Option.map_eq_none_iff

/-- The blocks that a path leads to have the same code in the other graph. -/
def KeepsPaths (graph graph' : Graph) : Prop :=
  ∀ k l, graph.Reachable k → graph.code k = some l → graph'.code k = some l

theorem KeepsPaths.exists_block (keeps : graph.KeepsPaths graph') (reached : graph.Reachable k)
    {b : Block} (found : graph k = some b) :
    ∃ b', graph' k = some b' ∧ b'.instructions = b.instructions :=
  code_eq_some.1 (keeps k _ reached (code_eq_some.2 ⟨b, found, rfl⟩))

theorem KeepsPaths.reachable (keeps : graph.KeepsPaths graph') (h : graph.Reachable k) :
    graph'.Reachable k := by
  induction h with
  | entry => exact .entry
  | next reached found leads ih =>
      obtain ⟨b', found', code⟩ := keeps.exists_block reached found
      refine .next ih found' ?_
      rw [Block.successors, code]
      exact leads

/-- A chain of jumps that a path leads to is kept as a whole. -/
theorem KeepsPaths.lands (keeps : graph.KeepsPaths graph') (h : graph.Lands k)
    (reached : graph.Reachable k) : graph'.Lands k := by
  induction h with
  | here found plain =>
      obtain ⟨b', found', code⟩ := keeps.exists_block reached found
      exact .here found' (code ▸ plain)
  | on found jumps _ ih =>
      obtain ⟨b', found', code⟩ := keeps.exists_block reached found
      refine .on found' (code.trans jumps) (ih (.next reached found ?_))
      simp [Block.successors, jumps, Instruction.targets]

end Graph

namespace Blocks

variable {blocks : Blocks} {k : Nat}

/-- What no path leads to has no predecessors at all. -/
def NoIslands (blocks : Blocks) : Prop :=
  ∀ k b, blocks.find? k = some b → ¬ Graph.Reachable blocks.find? k → b.preds.isEmpty = true

/-- A path comes in through a predecessor. -/
theorem Linked.not_orphan_of_reachable (linked : blocks.Linked) {b : Block}
    (found : blocks.find? k = some b) (reached : Graph.Reachable blocks.find? k) :
    b.isOrphan = false := by
  cases reached with
  | entry => exact not_orphan_entry found
  | next _ leader leads =>
      exact Consistent.not_orphan_of_successor linked.consistent leader leads found

theorem NoIslands.isOrphan (islands : blocks.NoIslands) {b : Block}
    (found : blocks.find? k = some b) (unreached : ¬ Graph.Reachable blocks.find? k) :
    b.isOrphan = true := by
  have other : k ≠ 0 := by
    rintro rfl
    exact unreached .entry
  simp [Block.isOrphan, Ascending.key_of_find? found, other, islands k b found unreached]

/-- One round takes away what no path leads to, for without islands that is just the orphans. -/
theorem code_withoutOrphans (linked : blocks.Linked) (islands : blocks.NoIslands)
    {l : List Instruction} :
    Graph.code (withoutOrphans blocks).find? k = some l ↔
      Graph.Reachable blocks.find? k ∧ Graph.code blocks.find? k = some l := by
  simp only [Graph.code_eq_some, find?_withoutOrphans_eq_some]
  constructor
  · rintro ⟨_, ⟨b, found, stays, rfl⟩, rfl⟩
    refine ⟨?_, b, found, rfl⟩
    by_contra unreached
    rw [islands.isOrphan found unreached] at stays
    cases stays
  · rintro ⟨reached, b, found, rfl⟩
    exact ⟨_, ⟨b, found, linked.not_orphan_of_reachable found reached, rfl⟩, rfl⟩

theorem keepsPaths_withoutOrphans (linked : blocks.Linked) (islands : blocks.NoIslands) :
    Graph.KeepsPaths blocks.find? (withoutOrphans blocks).find? :=
  fun _ _ reached there => (code_withoutOrphans linked islands).2 ⟨reached, there⟩

theorem noIslands_withoutOrphans (linked : blocks.Linked) (islands : blocks.NoIslands) :
    (withoutOrphans blocks).NoIslands := by
  intro k b found unreached
  have code := Graph.code_eq_some.2 ⟨b, found, rfl⟩
  have reached := ((code_withoutOrphans linked islands).1 code).1
  exact absurd ((keepsPaths_withoutOrphans linked islands).reachable reached) unreached

/-- Where there are no islands, dropping orphans leaves what a path leads to. -/
theorem code_dropOrphans (linked : blocks.Linked) (islands : blocks.NoIslands)
    {l : List Instruction} :
    Graph.code (dropOrphans blocks).find? k = some l ↔
      Graph.Reachable blocks.find? k ∧ Graph.code blocks.find? k = some l := by
  induction blocks using dropOrphans.induct with
  | case1 blocks orphans ih =>
      rw [dropOrphans, dif_pos orphans,
        ih linked.withoutOrphans (noIslands_withoutOrphans linked islands),
        code_withoutOrphans linked islands]
      exact and_iff_right_of_imp fun there =>
        (keepsPaths_withoutOrphans linked islands).reachable there.1
  | case2 blocks none =>
      rw [dropOrphans, dif_neg none]
      refine (and_iff_right_of_imp fun there => ?_).symm
      obtain ⟨b, found, _⟩ := Graph.code_eq_some.1 there
      by_contra unreached
      exact none (List.any_eq_true.2 ⟨b, Ascending.mem_of_find? found,
        islands.isOrphan found unreached⟩)

/-- A path leads to every block, none of them lacks an end or has a hole, and chains of jumps
end. -/
structure Live (blocks : Blocks) : Prop where
  linked : blocks.Linked
  reached : ∀ k b, blocks.find? k = some b → Graph.Reachable blocks.find? k
  lands : ∀ k b, blocks.find? k = some b → Graph.Lands blocks.find? k
  closed : ∀ k b, blocks.find? k = some b → b.isTerminated = true
  noHole : ∀ k b, blocks.find? k = some b → .unreachable ∉ b.instructions

theorem Live.dropOrphans_eq (live : blocks.Live) : dropOrphans blocks = blocks := by
  rw [dropOrphans, dif_neg]
  intro orphans
  obtain ⟨b, mem, orphan⟩ := List.any_eq_true.1 orphans
  have found : blocks.find? b.id = some b := Ascending.find?_eq_some_iff.2 ⟨mem, rfl⟩
  rw [live.linked.not_orphan_of_reachable found (live.reached _ b found)] at orphan
  cases orphan

/-- A block other than the entry that is a single jump. -/
def Hops (blocks : Blocks) (k : Nat) : Prop :=
  k ≠ 0 ∧ ∃ t, Graph.code blocks.find? k = some [.jump t]

theorem find?_dropOrphans_eq_none (linked : blocks.Linked) (islands : blocks.NoIslands) :
    (dropOrphans blocks).find? k = none ↔
      blocks.find? k = none ∨ ¬ Graph.Reachable blocks.find? k := by
  rw [← Graph.code_eq_none, ← Graph.code_eq_none, Option.eq_none_iff_forall_ne_some,
    Option.eq_none_iff_forall_ne_some]
  simp only [ne_eq, code_dropOrphans linked islands, not_and]
  by_cases reached : Graph.Reachable blocks.find? k <;> simp [reached]

theorem hops_dropOrphans (linked : blocks.Linked) (islands : blocks.NoIslands) :
    (dropOrphans blocks).Hops k ↔ Graph.Reachable blocks.find? k ∧ blocks.Hops k := by
  simp only [Hops, code_dropOrphans linked islands, exists_and_left]
  exact and_left_comm

/-- A single jump comes from a single jump. -/
theorem map_redirect_eq_jump {old new u : Nat} {l : List Instruction} :
    l.map (·.redirect old new) = [.jump u] ↔
      ∃ t, l = [.jump t] ∧ u = if t = old then new else t := by
  rw [List.map_eq_singleton_iff]
  constructor
  · rintro ⟨i, rfl, jumps⟩
    cases i with
    | jump t => exact ⟨t, rfl, (Instruction.jump.inj jumps).symm⟩
    | _ => cases jumps
  · rintro ⟨t, rfl, rfl⟩
    exact ⟨_, rfl, rfl⟩

namespace Forwards

variable {id target : Nat} {hop : Block}

/-- The block is gone, and jumps to it lead to its target. -/
theorem code_threadBlock (hops : Forwards blocks id target hop) (linked : blocks.Linked)
    (k : Nat) :
    Graph.code (threadBlock blocks id).find? k =
      if k = id then none
      else (Graph.code blocks.find? k).map (List.map (·.redirect id target)) := by
  rw [Graph.code, hops.find?_of_consistent linked.consistent]
  split
  · rfl
  · simp only [Graph.code, Option.map_map]
    refine Option.map_congr fun b found => ?_
    exact (linked.ends k b found).instructions_redirect

/-- A path through the block that is taken away goes past it now. -/
theorem reachable (hops : Forwards blocks id target hop) (linked : blocks.Linked)
    (h : Graph.Reachable blocks.find? k) :
    Graph.Reachable (threadBlock blocks id).find? (if k = id then target else k) := by
  induction h with
  | entry =>
      rw [if_neg hops.notEntry.symm]
      exact .entry
  | @next k t b _ found leads ih =>
      by_cases through : k = id
      · subst through
        obtain rfl := Option.some.inj (hops.found.symm.trans found)
        obtain rfl : t = target := by simpa [hops.successors] using leads
        rw [if_pos rfl] at ih
        rwa [if_neg hops.elsewhere]
      · rw [if_neg through] at ih
        refine .next ih ((hops.find?_eq_some linked.consistent).2 ⟨through, b, found, rfl⟩) ?_
        change _ ∈ (b.redirect id target).successors
        rw [b.successors_redirect]
        exact List.mem_map.2 ⟨t, leads, rfl⟩

/-- Chains of jumps have become shorter, or stayed as they are. -/
theorem lands (hops : Forwards blocks id target hop) (linked : blocks.Linked)
    (h : Graph.Lands blocks.find? k) :
    Graph.Lands (threadBlock blocks id).find? (if k = id then target else k) := by
  induction h with
  | @here k b found plain =>
      have other : k ≠ id := by
        rintro rfl
        obtain rfl := Option.some.inj (hops.found.symm.trans found)
        exact plain target hops.jumps
      rw [if_neg other]
      refine .here ((hops.find?_eq_some linked.consistent).2 ⟨other, b, found, rfl⟩) ?_
      intro u jumps
      change (b.redirect id target).instructions = _ at jumps
      rw [(linked.ends k b found).instructions_redirect, map_redirect_eq_jump] at jumps
      obtain ⟨t, jumps, _⟩ := jumps
      exact plain t jumps
  | @on k t b found jumps _ ih =>
      by_cases through : k = id
      · subst through
        obtain rfl := Option.some.inj (hops.found.symm.trans found)
        obtain rfl : t = target := by simpa [hops.jumps, eq_comm] using jumps
        rw [if_neg hops.elsewhere] at ih
        rwa [if_pos rfl]
      · rw [if_neg through]
        refine .on ((hops.find?_eq_some linked.consistent).2 ⟨through, b, found, rfl⟩) ?_ ih
        change (b.redirect id target).instructions = _
        rw [(linked.ends k b found).instructions_redirect, map_redirect_eq_jump]
        exact ⟨t, jumps, rfl⟩

theorem live (hops : Forwards blocks id target hop) (live : blocks.Live) :
    (threadBlock blocks id).Live where
  linked := hops.linked live.linked
  reached := by
    intro k b' found'
    obtain ⟨other, b, found, rfl⟩ := (hops.find?_eq_some live.linked.consistent).1 found'
    simpa only [if_neg other] using hops.reachable live.linked (live.reached k b found)
  lands := by
    intro k b' found'
    obtain ⟨other, b, found, rfl⟩ := (hops.find?_eq_some live.linked.consistent).1 found'
    simpa only [if_neg other] using hops.lands live.linked (live.lands k b found)
  closed := by
    intro k b' found'
    obtain ⟨_, b, found, rfl⟩ := (hops.find?_eq_some live.linked.consistent).1 found'
    have closed := live.closed k b found
    change (b.redirect id target).isTerminated = true
    rw [Block.isTerminated, (live.linked.ends k b found).instructions_redirect, List.getLast?_map]
    rw [Block.isTerminated] at closed
    simpa [Option.any_map, Function.comp_def] using closed
  noHole := by
    intro k b' found' hole
    obtain ⟨_, b, found, rfl⟩ := (hops.find?_eq_some live.linked.consistent).1 found'
    change .unreachable ∈ (b.redirect id target).instructions at hole
    rw [(live.linked.ends k b found).instructions_redirect, List.mem_map] at hole
    obtain ⟨i, mem, redirected⟩ := hole
    have same : i = .unreachable := by
      cases i with
      | unreachable => rfl
      | _ => cases redirected
    exact live.noHole k b found (same ▸ mem)

end Forwards

/-- The blocks `ids` have been threaded: of those, all that merely jumped are gone. -/
structure Threaded (blocks : Blocks) (ids : List Nat) (blocks' : Blocks) : Prop where
  live : blocks'.Live
  hops : ∀ k, blocks'.Hops k ↔ blocks.Hops k ∧ k ∉ ids
  gone : ∀ k, blocks'.find? k = none ↔ blocks.find? k = none ∨ (blocks.Hops k ∧ k ∈ ids)

theorem Live.forwards (live : blocks.Live) {id : Nat} (h : blocks.Hops id) :
    ∃ target hop, Forwards blocks id target hop := by
  obtain ⟨notEntry, target, code⟩ := h
  obtain ⟨hop, found, jumps⟩ := Graph.code_eq_some.1 code
  refine ⟨target, hop, found, jumps, notEntry, ?_⟩
  rintro rfl
  exact (live.lands _ hop found).not_self found jumps

theorem Live.threaded_one (live : blocks.Live) (id : Nat) :
    blocks.Threaded [id] (threadBlock blocks id) := by
  by_cases hops : blocks.Hops id
  · obtain ⟨target, hop, forwards⟩ := live.forwards hops
    refine ⟨forwards.live live, fun k => ?_, fun k => ?_⟩
    · simp only [Hops, forwards.code_threadBlock live.linked, List.mem_singleton]
      by_cases through : k = id
      · simp [through]
      · simp only [if_neg through, Option.map_eq_some_iff, map_redirect_eq_jump]
        constructor
        · rintro ⟨inner, _, _, code, t, rfl, _⟩
          exact ⟨⟨inner, t, code⟩, through⟩
        · rintro ⟨⟨inner, t, code⟩, _⟩
          exact ⟨inner, _, _, code, t, rfl, rfl⟩
    · rw [forwards.find?_of_consistent live.linked.consistent, List.mem_singleton]
      by_cases through : k = id
      · simp [through, hops]
      · simp [through]
  · have same : threadBlock blocks id = blocks := by
      refine (threadBlock_cases blocks id).resolve_right ?_
      rintro ⟨target, hop, found, jumps, notEntry, _⟩
      exact hops ⟨notEntry, target, Graph.code_eq_some.2 ⟨hop, found, jumps⟩⟩
    rw [same]
    refine ⟨live, fun k => ?_, fun k => ?_⟩
    · refine (and_iff_left_of_imp fun hops' => ?_).symm
      rw [List.mem_singleton]
      rintro rfl
      exact hops hops'
    · refine (or_iff_left ?_).symm
      rw [List.mem_singleton]
      rintro ⟨hops', rfl⟩
      exact hops hops'

/-- Threading block after block, each in the graph that the ones before have left. -/
theorem Live.threaded (live : blocks.Live) (ids : List Nat) :
    blocks.Threaded ids (ids.foldl threadBlock blocks) := by
  induction ids generalizing blocks with
  | nil => exact ⟨live, by simp, by simp⟩
  | cons id ids ih =>
      have first := live.threaded_one id
      have rest := ih first.live
      refine ⟨rest.live, fun k => ?_, fun k => ?_⟩
      · simp only [List.foldl_cons, rest.hops, first.hops, List.mem_cons, List.not_mem_nil,
          or_false]
        tauto
      · simp only [List.foldl_cons, rest.gone, first.gone, first.hops, List.mem_cons,
          List.not_mem_nil, or_false]
        tauto

theorem Live.threadJumps (live : blocks.Live) :
    (threadJumps blocks).Live ∧ (∀ k, ¬ (Blocks.threadJumps blocks).Hops k) ∧
      ∀ k, (Blocks.threadJumps blocks).find? k = none ↔ blocks.find? k = none ∨ blocks.Hops k := by
  have threaded := live.threaded blocks.keys
  have listed : ∀ k, blocks.Hops k → k ∈ blocks.keys := by
    rintro k ⟨_, t, code⟩
    obtain ⟨b, found, _⟩ := Graph.code_eq_some.1 code
    exact List.mem_map.2 ⟨b, Ascending.find?_eq_some_iff.1 found⟩
  refine ⟨threaded.live, fun k hops => ?_, fun k => ?_⟩
  · obtain ⟨hops, unlisted⟩ := (threaded.hops k).1 hops
    exact unlisted (listed k hops)
  · rw [Blocks.threadJumps, threaded.gone, and_iff_left_of_imp (listed k)]

end Blocks

namespace Function

variable {f : Function}

/-- The blocks are linked, a path leads to each of them and none lacks an end or has a hole. No
block but the entry merely jumps. -/
structure Tidy (f : Function) : Prop where
  linked : Blocks.Linked f.blocks
  reached : ∀ k b, f.blocks.find? k = some b → Graph.Reachable f.blocks.find? k
  closed : ∀ k b, f.blocks.find? k = some b → b.isTerminated = true
  noHole : ∀ k b, f.blocks.find? k = some b → .unreachable ∉ b.instructions
  noHop : ∀ k b, f.blocks.find? k = some b → k ≠ 0 → ∀ t, b.instructions ≠ [.jump t]

theorem WellFormed.noIslands (wellFormed : f.WellFormed) : f.blocks.NoIslands :=
  fun k b found unreached => (wellFormed.unused k b found unreached).1

theorem WellFormed.live_dropOrphans (wellFormed : f.WellFormed)
    (lands : ∀ k b, f.blocks.find? k = some b → Graph.Lands f.blocks.find? k) :
    (Blocks.dropOrphans f.blocks).Live := by
  have linked := wellFormed.linked
  have islands := wellFormed.noIslands
  have keeps : Graph.KeepsPaths f.blocks.find? (Blocks.dropOrphans f.blocks).find? :=
    fun _ _ reached there => (Blocks.code_dropOrphans linked islands).2 ⟨reached, there⟩
  have before : ∀ k b', (Blocks.dropOrphans f.blocks).find? k = some b' →
      Graph.Reachable f.blocks.find? k ∧
        ∃ b, f.blocks.find? k = some b ∧ b.instructions = b'.instructions := by
    intro k b' found'
    rw [← Graph.code_eq_some]
    exact (Blocks.code_dropOrphans linked islands).1 (Graph.code_eq_some.2 ⟨b', found', rfl⟩)
  refine ⟨(Blocks.unseen_dropOrphans f.blocks linked).1, ?_, ?_, ?_, ?_⟩
  · intro k b' found'
    exact keeps.reachable (before k b' found').1
  · intro k b' found'
    obtain ⟨reached, b, found, _⟩ := before k b' found'
    exact keeps.lands (lands k b found) reached
  · intro k b' found'
    obtain ⟨reached, b, found, instructions⟩ := before k b' found'
    rw [Block.isTerminated, ← instructions]
    exact wellFormed.closed k b found reached
  · intro k b' found'
    obtain ⟨reached, b, found, instructions⟩ := before k b' found'
    rw [← instructions]
    exact wellFormed.noHole k b found reached

end Function

end Lir

open Lir

namespace Function

/-- Tidying a lowered function leaves the blocks that a path leads to and that do more than jump,
and the entry. -/
theorem cleanup_lower {f : Function} {signatures : SignatureTable} {g : Lir.Function}
    (h : f.lower signatures = .ok g) :
    g.cleanup.Tidy ∧
      (∀ k, g.blocks.find? k = none → g.cleanup.blocks.find? k = none) ∧
      ∀ k b, g.blocks.find? k = some b →
        (g.cleanup.blocks.find? k = none ↔
          ¬ Graph.Reachable g.blocks.find? k ∨ (k ≠ 0 ∧ ∃ t, b.instructions = [.jump t])) := by
  have wellFormed : g.WellFormed := by
    obtain ⟨id, S₁, S₂, _, bound, body, rfl⟩ := lower_eq_ok h
    obtain ⟨ready, alone, start, declared, named⟩ := ready_bound bound
    exact (finished_lowerBody body ready alone start declared named).1.wellFormed
  have live := wellFormed.live_dropOrphans fun k b found => lands_lower h found
  obtain ⟨live', noHops, gone⟩ := live.threadJumps
  have cleaned : g.cleanup.blocks = Blocks.threadJumps (Blocks.dropOrphans g.blocks) :=
    live'.dropOrphans_eq
  have islands := wellFormed.noIslands
  have missing : ∀ k, g.cleanup.blocks.find? k = none ↔
      (g.blocks.find? k = none ∨ ¬ Graph.Reachable g.blocks.find? k) ∨
        (Graph.Reachable g.blocks.find? k ∧ Blocks.Hops g.blocks k) := by
    intro k
    rw [cleaned, gone, Blocks.find?_dropOrphans_eq_none wellFormed.linked islands,
      Blocks.hops_dropOrphans wellFormed.linked islands]
  refine ⟨⟨cleaned ▸ live'.linked, cleaned ▸ live'.reached, cleaned ▸ live'.closed,
    cleaned ▸ live'.noHole, ?_⟩, ?_, ?_⟩
  · intro k b found inner t jumps
    rw [cleaned] at found
    exact noHops k ⟨inner, t, Graph.code_eq_some.2 ⟨b, found, jumps⟩⟩
  · intro k none
    exact (missing k).2 (.inl (.inl none))
  · intro k b found
    have hops : Blocks.Hops g.blocks k ↔ k ≠ 0 ∧ ∃ t, b.instructions = [.jump t] := by
      simp [Blocks.Hops, Graph.code, found]
    rw [missing, hops, found]
    by_cases reached : Graph.Reachable g.blocks.find? k <;> simp [reached]

/-- `while a { if a {} else { return 1; } } if a { return 1; } else { return 2; }` -/
def winding : Function :=
  let at_ : Span := ⟨0, 0⟩
  let test := Expr.var at_ ⟨"a", at_⟩
  let answer := fun n => Stmt.block at_ [.ret at_ (some (.literal at_ (.int n)))]
  { header :=
      { name := ⟨"wind", at_⟩, params := [⟨⟨"a", at_⟩, .bool, at_⟩], returnType := .int,
        span := at_ }
    body := .block at_
      [.loop at_ test (.block at_ [.ite at_ test (some (.block at_ [])) (some (answer 1))]),
        .ite at_ test (some (answer 1)) (some (answer 2))]
    span := at_ }

/-- Blocks 4 and 6 merely jump, as the entry does, and nothing leads to block 9. -/
def windingGraph : Lir.Function where
  id := 0
  name := "wind"
  returnType := .int
  registers := .ofList [.bool]
  arguments := [0]
  blocks := .ofList
    [⟨0, "entry", [.jump 1], .empty⟩,
      ⟨1, "while_cond", [.branch (.reg 0) 2 3], .ofList [0, 6]⟩,
      ⟨2, "while_body", [.branch (.reg 0) 4 5], .ofList [1]⟩,
      ⟨3, "while_end", [.branch (.reg 0) 7 8], .ofList [1]⟩,
      ⟨4, "then", [.jump 6], .ofList [2]⟩,
      ⟨5, "else", [.ret (some (.imm (.int 1)))], .ofList [2]⟩,
      ⟨6, "cont", [.jump 1], .ofList [4]⟩,
      ⟨7, "then", [.ret (some (.imm (.int 1)))], .ofList [3]⟩,
      ⟨8, "else", [.ret (some (.imm (.int 2)))], .ofList [3]⟩,
      ⟨9, "cont", [.unreachable], .empty⟩]

theorem cleanup_lower_winding :
    winding.lower ⟨.ofList [⟨0, "wind", [.bool], .int⟩], [("wind", 0)]⟩ = .ok windingGraph ∧
      windingGraph.cleanup.Tidy ∧ windingGraph.cleanup.blocks.find? 6 = none := by
  have lowered : winding.lower ⟨.ofList [⟨0, "wind", [.bool], .int⟩], [("wind", 0)]⟩ =
      .ok windingGraph := by
    decide +kernel
  obtain ⟨tidy, _, removed⟩ := cleanup_lower lowered
  exact ⟨lowered, tidy, (removed 6 _ rfl).2 (.inr ⟨by decide, 1, rfl⟩)⟩

end Function

end Rill
