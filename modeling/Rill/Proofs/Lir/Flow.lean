import Mathlib.Logic.Relation
import Rill.Proofs.Lir.Safety

/-!
# Where lowering comes to

A tree can be lowered from any open block, however the blocks around it have come about.
`Emitter.Flows` says what this does: all goes on in the block under the cursor and in blocks
that are new. Behind a statement that is sure to return, the cursor is on a block that is
closed or that nothing leads to. Behind any other statement it is on an open block, and a
path leads there from the block where lowering began.
-/

namespace Rill

namespace Lir

/-- The last instruction of block `k` can hand control to block `t`. -/
def Graph.Edge (graph : Graph) (k t : Nat) : Prop :=
  ∃ b, graph k = some b ∧ t ∈ b.successors

/-- There is a path between the blocks, whatever the conditions on it. -/
abbrev Graph.Path (graph : Graph) : Nat → Nat → Prop :=
  Relation.ReflTransGen graph.Edge

namespace Emitter

variable {e e' e'' : Emitter} {i : Instruction} {k t : Nat}

theorem Later.path (later : e.Later e') (path : Graph.Path e.blocks.get? k t) :
    Graph.Path e'.blocks.get? k t := by
  induction path with
  | refl => exact .refl
  | tail _ edge ih =>
      obtain ⟨b, found, leads⟩ := edge
      obtain ⟨b', found', _, closed⟩ := later.blocks _ _ found
      refine ih.tail ⟨b', found', ?_⟩
      rw [Block.successors, closed (Block.isTerminated_of_mem_successors leads)]
      exact leads

theorem Emits.edge (h : e.Emits i e') (target : t ∈ i.targets) :
    Graph.Edge e'.blocks.get? e.cursor t := by
  obtain ⟨b, found, _⟩ := h.isOpen
  refine ⟨_, h.get?_eq_some.2 ⟨b, found, rfl⟩, ?_⟩
  rw [successors_appended, if_pos rfl]
  exact target

theorem IsOpen.lt_size (isOpen : e.IsOpen) : e.cursor < e.blocks.size := by
  obtain ⟨b, found, _⟩ := isOpen
  exact Table.lt_size_of_get? found

theorem isOpen_moveTo {b : Block} (found : e.blocks.get? k = some b)
    (empty : b.instructions = []) : (e.moveTo k).IsOpen := by
  refine ⟨b, found, ?_⟩
  rw [Block.isTerminated, empty]
  rfl

/-- Control does not go on from the cursor: the block there has its terminator, or nothing leads
to it. -/
def Stops (e : Emitter) : Prop :=
  ∃ b, e.blocks.get? e.cursor = some b ∧
    (b.isTerminated = true ∨ ∀ p, b.preds.contains p = false)

/-- Nothing has been done to the block under the cursor but to append instructions. -/
def Appends (e e' : Emitter) : Prop :=
  ∀ b, e.blocks.get? e.cursor = some b → ∃ added,
    e'.blocks.get? e.cursor = some { b with instructions := b.instructions ++ added }

/-- An instruction that does not lead back to its own block. -/
theorem Emits.appends (h : e.Emits i e') (elsewhere : e.cursor ∉ i.targets) : e.Appends e' := by
  intro b found
  refine ⟨[i], h.get?_eq_some.2 ⟨b, found, ?_⟩⟩
  rw [appended, if_pos rfl, if_neg elsewhere]

/-- What lowering does to the blocks and to control. -/
structure Flows (e : Emitter) (returns : Bool) (e' : Emitter) : Prop where
  later : e.Later e'
  kept : ∀ k < e.blocks.size, k ≠ e.cursor → e'.blocks.get? k = e.blocks.get? k
  appends : e.Appends e'
  cursor : e'.cursor = e.cursor ∨ e.blocks.size ≤ e'.cursor
  ends : if returns then e'.Stops else e'.IsOpen ∧ Graph.Path e'.blocks.get? e.cursor e'.cursor

namespace Flows

variable {returns : Bool}

theorem isOpen (h : e.Flows false e') : e'.IsOpen := h.ends.1

theorem path (h : e.Flows false e') : Graph.Path e'.blocks.get? e.cursor e'.cursor := h.ends.2

theorem refl (isOpen : e.IsOpen) : e.Flows false e where
  later := .refl e
  kept := fun _ _ _ => rfl
  appends := fun b found => ⟨[], by rw [List.append_nil, found]⟩
  cursor := .inl rfl
  ends := ⟨isOpen, .refl⟩

theorem trans (first : e.Flows false e') (second : e'.Flows returns e'') :
    e.Flows returns e'' where
  later := first.later.trans second.later
  kept := by
    intro k old other
    have apart : k ≠ e'.cursor := by
      rcases first.cursor with same | new
      · rw [same]
        exact other
      · omega
    rw [second.kept k (Nat.lt_of_lt_of_le old first.later.size) apart, first.kept k old other]
  appends := by
    intro b found
    obtain ⟨added, found'⟩ := first.appends b found
    by_cases stays : e'.cursor = e.cursor
    · rw [← stays] at found' ⊢
      obtain ⟨added', found''⟩ := second.appends _ found'
      exact ⟨added ++ added', by rw [found'', List.append_assoc]⟩
    · exact ⟨added, (second.kept _ (Table.lt_size_of_get? found') (Ne.symm stays)).trans found'⟩
  cursor := by
    have := first.later.size
    rcases second.cursor with same | new
    · rw [same]
      exact first.cursor
    · exact .inr (by omega)
  ends := by
    cases returns with
    | true => exact second.ends
    | false => exact ⟨second.isOpen, (second.later.path first.path).trans second.path⟩

theorem register (h : e.Flows false e') (ty : Ty) : e.Flows false (e'.withRegister ty) where
  later := h.later.trans (.withRegister e' ty)
  kept := h.kept
  appends := h.appends
  cursor := h.cursor
  ends := h.ends

/-- An instruction without targets ends its block or leaves it open. -/
theorem of_emits (h : e.Emits i e') (plain : i.targets = []) : e.Flows i.isTerminator e' where
  later := .of_emits h
  kept := fun k _ other => h.kept other (by simp [plain])
  appends := h.appends (by simp [plain])
  cursor := .inl h.cursor
  ends := by
    obtain ⟨b, found, _⟩ := h.isOpen
    have found' : e'.blocks.get? e'.cursor = some (e.appended i e.cursor b) := by
      rw [h.cursor]
      exact h.get?_eq_some.2 ⟨b, found, rfl⟩
    have ends : (e.appended i e.cursor b).isTerminated = i.isTerminator := by
      simp [Block.isTerminated, appended]
    cases last : i.isTerminator with
    | true => exact ⟨_, found', .inl (ends.trans last)⟩
    | false =>
        refine ⟨⟨_, found', ends.trans last⟩, ?_⟩
        rw [h.cursor]

theorem push (h : e.Flows false e') (emits : e'.Emits i e'') (plain : i.isTerminator = false) :
    e.Flows false e'' := by
  have last := of_emits emits (Instruction.targets_of_not_terminator plain)
  rw [plain] at last
  exact h.trans last

end Flows

/-- The emitter with an empty block for each label. -/
def withBlocks (e : Emitter) (labels : List String) : Emitter :=
  labels.foldl withBlock e

theorem size_withBlocks (labels : List String) :
    (e.withBlocks labels).blocks.size = e.blocks.size + labels.length := by
  induction labels generalizing e with
  | nil => rfl
  | cons label labels ih =>
      change ((e.withBlock label).withBlocks labels).blocks.size = _
      rw [ih, size_withBlock, List.length_cons]
      omega

theorem cursor_withBlocks (labels : List String) : (e.withBlocks labels).cursor = e.cursor := by
  induction labels generalizing e with
  | nil => rfl
  | cons label labels ih => exact ih

theorem Later.withBlocks (labels : List String) : e.Later (e.withBlocks labels) := by
  induction labels generalizing e with
  | nil => exact .refl e
  | cons label labels ih => exact (Later.withBlock e label).trans ih

theorem get?_withBlocks_of_lt (labels : List String) (old : k < e.blocks.size) :
    (e.withBlocks labels).blocks.get? k = e.blocks.get? k := by
  induction labels generalizing e with
  | nil => rfl
  | cons label labels ih =>
      have there : k < (e.withBlock label).blocks.size := by
        rw [size_withBlock]
        omega
      refine (ih there).trans ?_
      rw [withBlock, Table.get?_push, if_neg (Nat.ne_of_lt old)]

theorem get?_withBlocks_of_le (labels : List String) (new : e.blocks.size ≤ k)
    (there : k < e.blocks.size + labels.length) :
    ∃ label, (e.withBlocks labels).blocks.get? k = some ⟨k, label, [], .empty⟩ := by
  induction labels generalizing e with
  | nil => exact absurd there (Nat.not_lt.2 new)
  | cons label labels ih =>
      change ∃ label', ((e.withBlock label).withBlocks labels).blocks.get? k = _
      have size := e.size_withBlock label .whole
      rw [List.length_cons] at there
      by_cases first : k = e.blocks.size
      · subst first
        refine ⟨label, ?_⟩
        rw [get?_withBlocks_of_lt labels (by omega), withBlock, Table.get?_push, if_pos rfl]
        rfl
      · exact ih (by omega) (by omega)

/-- The block under the cursor is ended by an instruction that leads to some of `count` new blocks,
which are still empty. -/
structure Leads (e : Emitter) (count : Nat) (targets : List Nat) (e' : Emitter) : Prop where
  later : e.Later e'
  size : e'.blocks.size = e.blocks.size + count
  kept : ∀ k < e.blocks.size, k ≠ e.cursor → e'.blocks.get? k = e.blocks.get? k
  appends : e.Appends e'
  fresh : ∀ k, e.blocks.size ≤ k → k < e.blocks.size + count →
    ∃ b, e'.blocks.get? k = some b ∧ b.instructions = [] ∧
      (k ∉ targets → ∀ p, b.preds.contains p = false)
  edges : ∀ t ∈ targets, Graph.Edge e'.blocks.get? e.cursor t

theorem leads_of_emits (isOpen : e.IsOpen) (labels : List String)
    (h : (e.withBlocks labels).Emits i e') (ahead : ∀ t ∈ i.targets, e.blocks.size ≤ t) :
    e.Leads labels.length i.targets e' where
  later := (Later.withBlocks labels).trans (.of_emits h)
  size := h.size.trans (size_withBlocks labels)
  kept := by
    intro k old other
    rw [← cursor_withBlocks labels] at other
    rw [h.kept other fun target => absurd (ahead k target) (Nat.not_le.2 old)]
    exact get?_withBlocks_of_lt labels old
  appends := by
    intro b found
    have old := Table.lt_size_of_get? found
    have elsewhere : (e.withBlocks labels).cursor ∉ i.targets := by
      rw [cursor_withBlocks]
      exact fun target => absurd (ahead _ target) (Nat.not_le.2 old)
    have appends := h.appends elsewhere b
    rw [cursor_withBlocks, get?_withBlocks_of_lt labels old] at appends
    exact appends found
  fresh := by
    intro k new there
    obtain ⟨label, found⟩ := get?_withBlocks_of_le labels new there
    have apart : k ≠ (e.withBlocks labels).cursor := by
      have := isOpen.lt_size
      rw [cursor_withBlocks]
      omega
    refine ⟨_, h.get?_eq_some.2 ⟨_, found, rfl⟩, by simp [appended, apart], ?_⟩
    intro other p
    simp [appended, other]
  edges := by
    intro t target
    rw [← cursor_withBlocks labels]
    exact h.edge target

/-- Control flows from block `arm`, and goes on at block `join` unless it returns. -/
structure Joins (e : Emitter) (arm join : Nat) (returns : Bool) (e' : Emitter) : Prop where
  later : e.Later e'
  kept : ∀ k < e.blocks.size, k ≠ arm → k ≠ join → e'.blocks.get? k = e.blocks.get? k
  joined : ∀ b, e.blocks.get? join = some b →
    ∃ b', e'.blocks.get? join = some b' ∧ b'.instructions = b.instructions ∧
      (returns = true → b' = b)
  path : returns = false → Graph.Path e'.blocks.get? arm join

theorem Flows.joins {arm join : Nat} {returns : Bool} {e₁ e₂ : Emitter}
    (flows : (e.moveTo arm).Flows returns e₁) (goes : e₁.GoesOn returns join e₂)
    (there : join < e.blocks.size) (apart : join ≠ arm) : e.Joins arm join returns e₂ := by
  have later : e.Later e₁ := (Later.moveTo e arm).trans flows.later
  have kept : ∀ k < e.blocks.size, k ≠ arm → e₁.blocks.get? k = e.blocks.get? k := flows.kept
  cases returns with
  | true =>
      obtain rfl : e₂ = e₁ := goes
      refine ⟨later, fun k old other _ => kept k old other, ?_, fun stays => Bool.noConfusion stays⟩
      intro b found
      exact ⟨b, (kept join there apart).trans found, rfl, fun _ => rfl⟩
  | false =>
      have goes : e₁.Emits (.jump join) e₂ := goes
      have inside : ∀ k < e.blocks.size, k ≠ arm → k ≠ e₁.cursor := by
        intro k old other
        rcases flows.cursor with same | new
        · rw [same]
          exact other
        · exact Nat.ne_of_lt (Nat.lt_of_lt_of_le old new)
      refine ⟨later.trans (.of_emits goes), ?_, ?_, ?_⟩
      · intro k old other elsewhere
        rw [goes.kept (inside k old other) (by simpa [Instruction.targets] using elsewhere)]
        exact kept k old other
      · intro b found
        obtain ⟨b', found', same⟩ :=
          goes.instructions (inside join there apart) ((kept join there apart).trans found)
        exact ⟨b', found', same, fun stops => Bool.noConfusion stops⟩
      · intro _
        exact ((Later.of_emits goes).path flows.path).tail
          (goes.edge (List.mem_singleton_self join))

namespace Leads

variable {count : Nat} {targets : List Nat}

/-- Lowering can go on in every new block. -/
theorem isOpen (leads : e.Leads count targets e') (new : e.blocks.size ≤ k)
    (there : k < e.blocks.size + count) : (e'.moveTo k).IsOpen := by
  obtain ⟨b, found, empty, _⟩ := leads.fresh k new there
  exact isOpen_moveTo found empty

/-- What follows may go on in the new blocks, and comes to one of them. -/
theorem flows {returns : Bool} {e₁ e₂ : Emitter} (leads : e.Leads count targets e₁)
    (later : e₁.Later e₂) (kept : ∀ k < e.blocks.size, e₂.blocks.get? k = e₁.blocks.get? k)
    (new : e.blocks.size ≤ t)
    (ends : if returns then (e₂.moveTo t).Stops
      else (e₂.moveTo t).IsOpen ∧ Graph.Path e₂.blocks.get? e.cursor t) :
    e.Flows returns (e₂.moveTo t) where
  later := (leads.later.trans later).trans (.moveTo ..)
  kept := fun k old other => (kept k old).trans (leads.kept k old other)
  appends := by
    intro b found
    obtain ⟨added, found'⟩ := leads.appends b found
    exact ⟨added, (kept _ (Table.lt_size_of_get? found)).trans found'⟩
  cursor := .inr new
  ends := ends

/-- One arm, and the block where it joins what skips it. -/
theorem flows_one {returns : Bool} {e₁ e₂ : Emitter} (leads : e.Leads 2 targets e₁)
    (skips : e.blocks.size + 1 ∈ targets)
    (joins : e₁.Joins e.blocks.size (e.blocks.size + 1) returns e₂) :
    e.Flows false (e₂.moveTo (e.blocks.size + 1)) := by
  have size := leads.size
  refine leads.flows joins.later ?_ (Nat.le_succ _) ?_
  · intro k old
    exact joins.kept k (by omega) (by omega) (by omega)
  · obtain ⟨b, found, empty, _⟩ := leads.fresh (e.blocks.size + 1) (by omega) (by omega)
    obtain ⟨b', found', same, _⟩ := joins.joined b found
    exact ⟨isOpen_moveTo found' (same.trans empty),
      joins.later.path (.single (leads.edges _ skips))⟩

/-- Two arms, and the block where they join. If both return then nothing leads there. -/
theorem flows_two {first second : Bool} {e₁ e₂ e₃ : Emitter}
    (leads : e.Leads 3 [e.blocks.size, e.blocks.size + 1] e₁)
    (joins : e₁.Joins e.blocks.size (e.blocks.size + 2) first e₂)
    (joins' : e₂.Joins (e.blocks.size + 1) (e.blocks.size + 2) second e₃) :
    e.Flows (first && second) (e₃.moveTo (e.blocks.size + 2)) := by
  have size := leads.size
  have size' := joins.later.size
  refine leads.flows (joins.later.trans joins'.later) ?_ (Nat.le_add_right _ _) ?_
  · intro k old
    exact (joins'.kept k (by omega) (by omega) (by omega)).trans
      (joins.kept k (by omega) (by omega) (by omega))
  · obtain ⟨b, found, empty, unled⟩ := leads.fresh (e.blocks.size + 2) (by omega) (by omega)
    obtain ⟨b', found', same, kept⟩ := joins.joined b found
    obtain ⟨b'', found'', same', kept'⟩ := joins'.joined b' found'
    have isOpen := isOpen_moveTo found'' (by rw [same', same, empty])
    have edge : ∀ t ∈ [e.blocks.size, e.blocks.size + 1], Graph.Path e₃.blocks.get? e.cursor t :=
      fun t target => (joins.later.trans joins'.later).path (.single (leads.edges t target))
    cases first with
    | false =>
        exact ⟨isOpen, (edge _ (by simp)).trans (joins'.later.path (joins.path rfl))⟩
    | true =>
        cases second with
        | false => exact ⟨isOpen, (edge _ (by simp)).trans (joins'.path rfl)⟩
        | true =>
            refine ⟨b'', found'', .inr ?_⟩
            rw [kept' rfl, kept rfl]
            exact unled (by simp)

/-- The blocks of the body and behind the loop are still empty after its condition. -/
theorem fresh_branch {a : Operand} {e₁ e₂ e₃ : Emitter} (leads : e.Leads 3 targets e₁)
    (condition : (e₁.moveTo e.blocks.size).Flows false e₂)
    (branches : e₂.Emits (.branch a (e.blocks.size + 1) (e.blocks.size + 2)) e₃)
    (target : t = e.blocks.size + 1 ∨ t = e.blocks.size + 2) :
    ∃ b, e₃.blocks.get? t = some b ∧ b.instructions = [] := by
  have size := leads.size
  have cursor : e₂.cursor = e.blocks.size ∨ e₁.blocks.size ≤ e₂.cursor := condition.cursor
  obtain ⟨b, found, empty, _⟩ := leads.fresh t (by omega) (by omega)
  have kept : e₂.blocks.get? t = e₁.blocks.get? t :=
    condition.kept t (by change t < e₁.blocks.size; omega) (by change t ≠ e.blocks.size; omega)
  obtain ⟨b', found', same⟩ := branches.instructions (by omega) (kept.trans found)
  exact ⟨b', found', same.trans empty⟩

/-- A loop: the block of the condition is entered from outside and at the end of the body. -/
theorem flows_loop {returns : Bool} {a : Operand} {e₁ e₂ e₃ e₄ : Emitter}
    (leads : e.Leads 3 [e.blocks.size] e₁) (condition : (e₁.moveTo e.blocks.size).Flows false e₂)
    (branches : e₂.Emits (.branch a (e.blocks.size + 1) (e.blocks.size + 2)) e₃)
    (joins : e₃.Joins (e.blocks.size + 1) e.blocks.size returns e₄) :
    e.Flows false (e₄.moveTo (e.blocks.size + 2)) := by
  have onwards := Later.of_emits branches
  have later : e₁.Later e₃ := ((Later.moveTo e₁ _).trans condition.later).trans onwards
  have size := leads.size
  have size' : e₁.blocks.size ≤ e₃.blocks.size := later.size
  have cursor : e₂.cursor = e.blocks.size ∨ e₁.blocks.size ≤ e₂.cursor := condition.cursor
  refine leads.flows (later.trans joins.later) ?_ (Nat.le_add_right _ _) ⟨?_, ?_⟩
  · intro k old
    have elsewhere : k ∉ [e.blocks.size + 1, e.blocks.size + 2] := by
      simp only [List.mem_cons, List.not_mem_nil, or_false]
      omega
    calc e₄.blocks.get? k
      _ = e₃.blocks.get? k := joins.kept k (by omega) (by omega) (by omega)
      _ = e₂.blocks.get? k := branches.kept (by omega) elsewhere
      _ = e₁.blocks.get? k := condition.kept k (Nat.lt_of_lt_of_le old leads.later.size)
          (Nat.ne_of_lt old)
  · -- Neither the condition nor the body comes to the block behind the loop.
    obtain ⟨b, found, same⟩ := leads.fresh_branch condition branches (.inr rfl)
    have kept := joins.kept (e.blocks.size + 2) (by omega) (by omega) (by omega)
    exact isOpen_moveTo (kept.trans found) same
  · have enters : Graph.Path e₂.blocks.get? e.cursor e₂.cursor :=
      (condition.later.path (.single (leads.edges _ (List.mem_singleton_self _)))).trans
        condition.path
    have leaves : Graph.Edge e₃.blocks.get? e₂.cursor (e.blocks.size + 2) :=
      branches.edge (by simp [Instruction.targets])
    exact joins.later.path ((onwards.path enters).tail leaves)

end Leads

/-- The branch of a logical operator leads to the blocks of its right side and behind it. -/
theorem leads_logic {op : LogicOp} {a : Operand} (isOpen : e.IsOpen)
    (h : ((e.withBlock op.rhsLabel).withBlock op.endLabel).Emits
      (op.branch a e.blocks.size (e.blocks.size + 1)) e') :
    e.Leads 2 (op.branch a e.blocks.size (e.blocks.size + 1)).targets e' := by
  refine leads_of_emits isOpen [op.rhsLabel, op.endLabel] h ?_
  cases op <;> simp [LogicOp.branch, Instruction.targets]

/-- A logical operator: the right side is an arm that the left side may skip. -/
theorem flows_logic {op : LogicOp} {a b : Operand} {r : Nat} {e₁ e₂ e₃ e₄ e₅ e₆ : Emitter}
    (left : e.Flows false e₁) (moves : e₁.Emits (.move r a) e₂)
    (branches : ((e₂.withBlock op.rhsLabel).withBlock op.endLabel).Emits
      (op.branch a e₂.blocks.size (e₂.blocks.size + 1)) e₃)
    (right : (e₃.moveTo e₂.blocks.size).IsOpen → (e₃.moveTo e₂.blocks.size).Flows false e₄)
    (moves' : e₄.Emits (.move r b) e₅) (jumps : e₅.Emits (.jump (e₂.blocks.size + 1)) e₆) :
    e.Flows false (e₆.moveTo (e₂.blocks.size + 1)) := by
  have flows := left.push moves rfl
  have leads := leads_logic flows.isOpen branches
  have size := leads.size
  have arm := (right (leads.isOpen (Nat.le_refl _) (by omega))).push moves' rfl
  have joins := arm.joins jumps (by omega) (Nat.succ_ne_self _)
  refine flows.trans (leads.flows_one ?_ joins)
  cases op <;> simp [LogicOp.branch, Instruction.targets]

end Emitter

end Lir

open Lir

namespace Expr

mutual

theorem lower_flows {S S' : LowerState} {operand : Operand} : (e : Expr) →
    e.lower S = .ok operand S' → S.emitter.IsOpen → S.emitter.Flows false S'.emitter
  | .literal .., h, isOpen => by
    rw [(lower_literal h).2]
    exact .refl isOpen
  | .var .., h, isOpen => by
    obtain ⟨_, _, _, _, _, rfl⟩ := lower_var h
    exact .refl isOpen
  | .call _ _ args, h, isOpen => by
    obtain ⟨ty, _, _, S₁, e₂, _, _, lowered, result, rfl⟩ := lower_call h
    have flows := lowerAll_flows args lowered isOpen
    rcases result with ⟨_, _, emits⟩ | ⟨_, _, emits⟩
    · exact flows.push emits rfl
    · exact (flows.register ty).push emits rfl
  | .unary _ _ arg, h, isOpen => by
    obtain ⟨ty, _, S₁, e₂, _, lowered, emits, _, rfl⟩ := lower_unary h
    exact ((lower_flows arg lowered isOpen).register ty).push emits rfl
  | .binary _ _ lhs rhs, h, isOpen => by
    obtain ⟨ty, _, S₁, _, S₂, e₃, _, left, right, emits, _, rfl⟩ := lower_binary h
    have flows := lower_flows lhs left isOpen
    have flows' := flows.trans (lower_flows rhs right flows.isOpen)
    exact (flows'.register ty).push emits rfl
  | .logic _ op lhs rhs, h, isOpen => by
    obtain ⟨_, a, S₁, e₂, e₃, b, S₄, e₅, e₆, _, left, moves, branches, right, moves', jumps, _,
      rfl⟩ := lower_logic h
    have begun := (Emitter.Flows.refl isOpen).register .bool
    exact begun.trans (Emitter.flows_logic (lower_flows lhs left begun.isOpen) moves branches
      (lower_flows rhs right) moves' jumps)

theorem lowerAll_flows {S S' : LowerState} {operands : List Operand} : (es : List Expr) →
    lowerAll es S = .ok operands S' → S.emitter.IsOpen → S.emitter.Flows false S'.emitter
  | [], h, isOpen => by
    rw [(lowerAll_nil h).2]
    exact .refl isOpen
  | e :: es, h, isOpen => by
    obtain ⟨_, _, _, first, others, _⟩ := lowerAll_cons h
    have flows := lower_flows e first isOpen
    exact flows.trans (lowerAll_flows es others flows.isOpen)

end

theorem lowerOpt_flows {S S' : LowerState} {e : Option Expr} {operand : Option Operand}
    (h : lowerOpt e S = .ok operand S') (isOpen : S.emitter.IsOpen) :
    S.emitter.Flows false S'.emitter := by
  cases e with
  | none =>
      rw [(lowerOpt_none h).2]
      exact .refl isOpen
  | some e =>
      obtain ⟨_, lowered, _⟩ := lowerOpt_some h
      exact lower_flows e lowered isOpen

end Expr

namespace Stmt

theorem Allots.flows {S S' : LowerState} {e : Emitter} {name : Ident} {ty : Ty} {dest : Nat}
    (h : Allots name ty S dest S') (flows : e.Flows false S.emitter) :
    e.Flows false S'.emitter := by
  obtain ⟨_, _, _, ⟨_, rfl⟩ | ⟨_, _, rfl⟩⟩ := h
  · exact flows
  · exact flows.register ty

mutual

theorem lower_flows {S S' : LowerState} {u : Unit} : (s : Stmt) → s.lower S = .ok u S' →
    S.emitter.IsOpen → S.emitter.Flows s.returns S'.emitter
  | .ite _ _ none _, h, _ => absurd h not_lower_ite_none
  | .ite _ condition (some positive) none, h, isOpen => by
    obtain ⟨a, S₁, e₂, S₃, e₄, _, tested, branches, lowered, goes, rfl⟩ := lower_ite h
    have flows := Expr.lower_flows condition tested isOpen
    have leads := Emitter.leads_of_emits flows.isOpen ["then", "cont"] branches
      (by simp [Instruction.targets])
    have flows' := lower_flows positive lowered (leads.isOpen (Nat.le_refl _) (by simp))
    have joins := flows'.joins goes (by simp [leads.size]) (Nat.succ_ne_self _)
    simp only [returns, returnsOpt, Bool.and_false]
    exact flows.trans (leads.flows_one (by simp [Instruction.targets]) joins)
  | .ite _ condition (some positive) (some negative), h, isOpen => by
    obtain ⟨a, S₁, e₂, S₃, e₄, S₅, e₆, _, tested, branches, first, goes, second, goes', rfl⟩ :=
      lower_ite_else h
    have flows := Expr.lower_flows condition tested isOpen
    have leads : S₁.emitter.Leads 3 [S₁.emitter.blocks.size, S₁.emitter.blocks.size + 1] e₂ :=
      Emitter.leads_of_emits flows.isOpen ["then", "else", "cont"] branches
        (by simp [Instruction.targets])
    have size := leads.size
    have flows₁ := lower_flows positive first (leads.isOpen (Nat.le_refl _) (by omega))
    have joins := flows₁.joins goes (by omega) (by omega)
    have size' := joins.later.size
    have isOpen' : (e₄.moveTo (S₁.emitter.blocks.size + 1)).IsOpen := by
      obtain ⟨b, found, empty, _⟩ := leads.fresh (S₁.emitter.blocks.size + 1) (by omega) (by omega)
      have kept := joins.kept (S₁.emitter.blocks.size + 1) (by omega) (by omega) (by omega)
      exact Emitter.isOpen_moveTo (kept.trans found) empty
    have joins' := (lower_flows negative second isOpen').joins goes' (by omega) (by omega)
    simp only [returns, returnsOpt]
    exact flows.trans (leads.flows_two joins joins')
  | .block _ body, h, isOpen => by
    obtain ⟨T, lowered, rfl⟩ := lower_block h
    have flows := lowerAll_flows body lowered isOpen
    simp only [returns]
    exact flows
  | .decl .., h, isOpen => by
    obtain ⟨_, source, S₁, _, S₂, _, lowered, allots, h⟩ := lower_decl h
    have flows := allots.flows (Expr.lowerOpt_flows lowered isOpen)
    simp only [returns]
    cases source with
    | none =>
        rw [h]
        exact flows
    | some a =>
        obtain ⟨_, emits, rfl⟩ := h
        exact flows.push emits rfl
  | .assign _ _ value, h, isOpen => by
    obtain ⟨_, _, _, _, _, _, _, _, lowered, emits, rfl⟩ := lower_assign h
    simp only [returns]
    exact (Expr.lower_flows value lowered isOpen).push emits rfl
  | .ret .., h, isOpen => by
    obtain ⟨_, S₁, _, _, lowered, emits, rfl⟩ := lower_ret h
    simp only [returns]
    exact (Expr.lowerOpt_flows lowered isOpen).trans (.of_emits emits rfl)
  | .loop _ condition body, h, isOpen => by
    obtain ⟨e₁, a, S₂, e₃, S₄, e₅, _, jumps, tested, branches, lowered, goes, rfl⟩ := lower_loop h
    have leads : S.emitter.Leads 3 [S.emitter.blocks.size] e₁ :=
      Emitter.leads_of_emits isOpen ["while_cond", "while_body", "while_end"] jumps
        (by simp [Instruction.targets])
    have size := leads.size
    have flows := Expr.lower_flows condition tested (leads.isOpen (Nat.le_refl _) (by omega))
    obtain ⟨b, found, empty⟩ := leads.fresh_branch flows branches (.inl rfl)
    have flows' := lower_flows body lowered (Emitter.isOpen_moveTo found empty)
    have size' : e₁.blocks.size ≤ e₃.blocks.size :=
      Nat.le_trans flows.later.size (Nat.le_of_eq branches.size.symm)
    have joins := flows'.joins goes (by omega) (by omega)
    simp only [returns]
    exact leads.flows_loop flows branches joins
  | .eval _ value, h, isOpen => by
    obtain ⟨_, lowered⟩ := lower_eval h
    simp only [returns]
    exact Expr.lower_flows value lowered isOpen
  | .skip _, h, isOpen => by
    rw [lower_skip h]
    simp only [returns]
    exact .refl isOpen

theorem lowerAll_flows {S S' : LowerState} {u : Unit} : (ss : List Stmt) →
    lowerAll ss S = .ok u S' → S.emitter.IsOpen → S.emitter.Flows (returnsAny ss) S'.emitter
  | [], h, isOpen => by
    rw [lowerAll_nil h]
    simp only [returnsAny]
    exact .refl isOpen
  | s :: rest, h, isOpen => by
    obtain ⟨S₁, first, h⟩ := lowerAll_cons h
    have flows := lower_flows s first isOpen
    simp only [returnsAny]
    cases returned : s.returns with
    | true =>
        simp only [returned, if_true] at h flows
        rw [h]
        exact flows
    | false =>
        simp only [returned, Bool.false_eq_true, if_false] at h flows
        exact flows.trans (lowerAll_flows rest h flows.isOpen)

end

end Stmt

end Rill
