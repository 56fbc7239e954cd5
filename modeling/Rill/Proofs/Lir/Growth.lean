import Rill.Proofs.Lir.Lowering

/-!
# How a graph grows

Lowering a tree continues the block under the cursor and adds blocks. When it is done,
all blocks that it has touched are settled, except for the one that it leaves the
cursor on: a settled block is reached and has its terminator, or is empty and nothing
leads to it. `Emitter.Extends` says this, and that all other blocks stay as they are.

The rest is about putting such growth together: one after the other, and from a block
that forks (`Forks`) along its arms (`Arm`) to the block where these join again.
-/

namespace Rill.Lir

/-- What is emitted for a statement: no hole, only returns that fit the declared type, and no way
back to the entry. -/
structure Instruction.Proper (returnType : Ty) (i : Instruction) : Prop where
  noHole : i ≠ .unreachable
  returns : ∀ value, i = .ret value → value.isSome = !returnType.isUnit
  noEntry : 0 ∉ i.targets

theorem Instruction.proper_of_plain {returnType : Ty} {i : Instruction}
    (plain : i.isTerminator = false) : i.Proper returnType := by
  refine ⟨?_, ?_, ?_⟩
  · rintro rfl
    cases plain
  · rintro value rfl
    cases plain
  · rw [targets_of_not_terminator plain]
    exact List.not_mem_nil

theorem Instruction.proper_of_targets {returnType : Ty} {i : Instruction} (leads : i.targets ≠ [])
    (noEntry : 0 ∉ i.targets) : i.Proper returnType := by
  refine ⟨?_, ?_, noEntry⟩
  · rintro rfl
    exact leads rfl
  · rintro value rfl
    exact absurd rfl leads

theorem Instruction.isTerminator_of_targets {i : Instruction} (leads : i.targets ≠ []) :
    i.isTerminator = true := by
  rw [← Bool.not_eq_false]
  exact fun plain => leads (targets_of_not_terminator plain)

/-- A reached block other than the entry has a predecessor. -/
theorem Graph.Linked.pred_of_reachable {graph : Graph} (linked : graph.Linked) {k : Nat}
    (reached : graph.Reachable k) (other : k ≠ 0) {b : Block} (found : graph k = some b) :
    ∃ p, b.preds.contains p = true := by
  cases reached with
  | entry => exact absurd rfl other
  | next _ leader leads => exact ⟨_, (linked.preds k b found _).2 ⟨_, leader, leads⟩⟩

namespace Emitter

variable {e e' e'' : Emitter} {k : Nat} {i : Instruction}

def Proper (e : Emitter) : Prop :=
  ∀ k b, e.blocks.get? k = some b → ∀ i ∈ b.instructions, i.Proper e.returnType

/-- Control comes to the cursor and can go on from there. -/
structure Active (e : Emitter) : Prop where
  isOpen : ∃ b, e.blocks.get? e.cursor = some b ∧ b.isTerminated = false
  reached : Graph.Reachable e.blocks.get? e.cursor

/-- The block is reached, and hands control on. -/
def Closed (e : Emitter) (k : Nat) : Prop :=
  (∃ b, e.blocks.get? k = some b ∧ b.isTerminated = true) ∧ Graph.Reachable e.blocks.get? k

/-- The block is empty, and nothing leads to it. -/
def Unused (e : Emitter) (k : Nat) : Prop :=
  k ≠ 0 ∧ ∃ b, e.blocks.get? k = some b ∧ b.instructions = [] ∧ ∀ p, b.preds.contains p = false

def Settled (e : Emitter) (k : Nat) : Prop :=
  e.Closed k ∨ e.Unused k

theorem Closed.later (closed : e.Closed k) (later : e.Later e') : e'.Closed k := by
  obtain ⟨⟨b, found, terminated⟩, reached⟩ := closed
  obtain ⟨b', found', _, same⟩ := later.blocks k b found
  refine ⟨⟨b', found', ?_⟩, later.reachable reached⟩
  rw [Block.isTerminated, same terminated]
  exact terminated

theorem Settled.later (settled : e.Settled k) (later : e.Later e')
    (same : e'.blocks.get? k = e.blocks.get? k) : e'.Settled k := by
  rcases settled with closed | ⟨other, unused⟩
  · exact .inl (closed.later later)
  · exact .inr ⟨other, by rwa [same]⟩

namespace Emits

theorem cursor (h : e.Emits i e') : e'.cursor = e.cursor := by
  rw [h.rest]

theorem kept (h : e.Emits i e') (other : k ≠ e.cursor) (elsewhere : k ∉ i.targets) :
    e'.blocks.get? k = e.blocks.get? k := by
  rw [h.get?]
  cases e.blocks.get? k with
  | none => rfl
  | some b => simp [appended, other, elsewhere]

/-- All blocks but the one under the cursor keep their instructions. -/
theorem instructions (h : e.Emits i e') (other : k ≠ e.cursor) {b : Block}
    (found : e.blocks.get? k = some b) :
    ∃ b', e'.blocks.get? k = some b' ∧ b'.instructions = b.instructions :=
  ⟨_, h.get?_eq_some.2 ⟨b, found, rfl⟩, by simp [appended, other]⟩

/-- What stands in a block afterwards is the new instruction, or stood there before. -/
theorem mem_instructions (h : e.Emits i e') {b' : Block} {j : Instruction}
    (found' : e'.blocks.get? k = some b') (mem : j ∈ b'.instructions) :
    j = i ∨ ∃ b, e.blocks.get? k = some b ∧ j ∈ b.instructions := by
  obtain ⟨b, found, rfl⟩ := h.get?_eq_some.1 found'
  simp only [appended] at mem
  split at mem
  · rcases List.mem_append.1 mem with mem | mem
    · exact .inr ⟨b, found, mem⟩
    · exact .inl (List.mem_singleton.1 mem)
  · exact .inr ⟨b, found, mem⟩

theorem proper (h : e.Emits i e') (proper : e.Proper) (fits : i.Proper e.returnType) :
    e'.Proper := by
  intro k b' found j mem
  have same : e'.returnType = e.returnType := by rw [h.rest]
  rw [same]
  rcases h.mem_instructions found mem with rfl | ⟨b, found, mem⟩
  · exact fits
  · exact proper k b found j mem

theorem reached (h : e.Emits i e') (from_ : Graph.Reachable e.blocks.get? e.cursor) {t : Nat}
    (target : t ∈ i.targets) : Graph.Reachable e'.blocks.get? t := by
  obtain ⟨b, found, _⟩ := h.isOpen
  refine .next ((Later.of_emits h).reachable from_) (h.get?_eq_some.2 ⟨b, found, rfl⟩) ?_
  rw [successors_appended, if_pos rfl]
  exact target

theorem closed (h : e.Emits i e') (from_ : Graph.Reachable e.blocks.get? e.cursor)
    (last : i.isTerminator = true) : e'.Closed e.cursor := by
  obtain ⟨b, found, _⟩ := h.isOpen
  refine ⟨⟨_, h.get?_eq_some.2 ⟨b, found, rfl⟩, ?_⟩, (Later.of_emits h).reachable from_⟩
  simp [Block.isTerminated, appended, last]

end Emits

/-- Lowering can begin. -/
structure Ready (e : Emitter) : Prop where
  sound : e.Sound
  proper : e.Proper
  active : e.Active

/-- What lowering has done to the graph. If it is sure to return, then control does not come to the
cursor afterwards, or the block there has its terminator already. -/
structure Extends (e : Emitter) (returns : Bool) (e' : Emitter) : Prop where
  sound : e'.Sound
  proper : e'.Proper
  later : e.Later e'
  kept : ∀ k < e.blocks.size, k ≠ e.cursor → e'.blocks.get? k = e.blocks.get? k
  cursor : e'.cursor = e.cursor ∨ e.blocks.size ≤ e'.cursor
  left : e'.cursor ≠ e.cursor → e'.Closed e.cursor
  settled : ∀ k, e.blocks.size ≤ k → k < e'.blocks.size → k ≠ e'.cursor → e'.Settled k
  ends : if returns then e'.Settled e'.cursor else e'.Active

namespace Extends

theorem ready (h : e.Extends false e') : e'.Ready :=
  ⟨h.sound, h.proper, by simpa using h.ends⟩

theorem refl (ready : e.Ready) : e.Extends false e where
  sound := ready.sound
  proper := ready.proper
  later := .refl e
  kept := fun _ _ _ => rfl
  cursor := .inl rfl
  left := fun moved => absurd rfl moved
  settled := fun _ old new _ => absurd new (Nat.not_lt.2 old)
  ends := by simpa using ready.active

theorem trans {returns : Bool} (first : e.Extends false e') (second : e'.Extends returns e'') :
    e.Extends returns e'' where
  sound := second.sound
  proper := second.proper
  later := first.later.trans second.later
  kept := by
    intro k old other
    have apart : k ≠ e'.cursor := by
      rcases first.cursor with same | new
      · rw [same]
        exact other
      · omega
    rw [second.kept k (Nat.lt_of_lt_of_le old first.later.size) apart, first.kept k old other]
  cursor := by
    have := first.later.size
    rcases second.cursor with same | new
    · rw [same]
      exact first.cursor
    · exact .inr (by omega)
  left := by
    intro moved
    by_cases stayed : e'.cursor = e.cursor
    · rw [← stayed]
      exact second.left (stayed ▸ moved)
    · exact (first.left stayed).later second.later
  settled := by
    intro k new there apart
    by_cases early : k < e'.blocks.size
    · by_cases here : k = e'.cursor
      · subst here
        exact .inl (second.left apart.symm)
      · exact (first.settled k new early here).later second.later (second.kept k early here)
    · exact second.settled k (Nat.not_lt.1 early) there apart
  ends := second.ends

theorem withRegister (ready : e.Ready) (ty : Ty) : e.Extends false (e.withRegister ty) where
  sound := ⟨ready.sound.linked, ready.sound.ids⟩
  proper := ready.proper
  later := .withRegister e ty
  kept := fun _ _ _ => rfl
  cursor := .inl rfl
  left := fun moved => absurd rfl moved
  settled := fun _ old new _ => absurd new (Nat.not_lt.2 old)
  ends := by
    simp only [Bool.false_eq_true, if_false]
    exact ⟨ready.active.isOpen, ready.active.reached⟩

/-- An instruction without targets ends its block or leaves it open. -/
theorem of_emits (ready : e.Ready) (h : e.Emits i e') (plain : i.targets = [])
    (fits : i.Proper e.returnType) : e.Extends i.isTerminator e' where
  sound := ready.sound.emits h
  proper := h.proper ready.proper fits
  later := .of_emits h
  kept := fun k _ other => h.kept other (by simp [plain])
  cursor := .inl h.cursor
  left := fun moved => absurd h.cursor moved
  settled := fun k old new _ => absurd new (by rw [h.size]; exact Nat.not_lt.2 old)
  ends := by
    rw [h.cursor]
    cases last : i.isTerminator with
    | true => exact .inl (h.closed ready.active.reached last)
    | false =>
        obtain ⟨b, found, _⟩ := h.isOpen
        simp only [Bool.false_eq_true, if_false]
        refine ⟨?_, ?_⟩
        · rw [h.cursor]
          exact ⟨_, h.get?_eq_some.2 ⟨b, found, rfl⟩, by simp [Block.isTerminated, appended, last]⟩
        · rw [h.cursor]
          exact (Later.of_emits h).reachable ready.active.reached

theorem register (h : e.Extends false e') (ty : Ty) : e.Extends false (e'.withRegister ty) :=
  h.trans (.withRegister h.ready ty)

theorem push (h : e.Extends false e') (emits : e'.Emits i e'') (plain : i.isTerminator = false) :
    e.Extends false e'' := by
  have last := of_emits h.ready emits (Instruction.targets_of_not_terminator plain)
    (Instruction.proper_of_plain plain)
  rw [plain] at last
  exact h.trans last

end Extends

/-- So many empty blocks are added. -/
structure Opens (e : Emitter) (count : Nat) (e' : Emitter) : Prop where
  sound : e'.Sound
  proper : e'.Proper
  later : e.Later e'
  size : e'.blocks.size = e.blocks.size + count
  cursor : e'.cursor = e.cursor
  old : ∀ k < e.blocks.size, e'.blocks.get? k = e.blocks.get? k
  new : ∀ k, e.blocks.size ≤ k → k < e.blocks.size + count →
    ∃ label, e'.blocks.get? k = some ⟨k, label, [], .empty⟩

theorem Opens.none (ready : e.Ready) : e.Opens 0 e where
  sound := ready.sound
  proper := ready.proper
  later := .refl e
  size := rfl
  cursor := rfl
  old := fun _ _ => rfl
  new := fun _ old new => absurd new (Nat.not_lt.2 old)

theorem Opens.withBlock {count : Nat} (h : e.Opens count e') (label : String) :
    e.Opens (count + 1) (e'.withBlock label) where
  sound := h.sound.withBlock label
  proper := by
    intro k b found i mem
    rw [Emitter.withBlock, Table.get?_push] at found
    split at found
    · cases found
      cases mem
    · exact h.proper k b found i mem
  later := h.later.trans (.withBlock e' label)
  size := by rw [size_withBlock, h.size, Nat.add_assoc]
  cursor := h.cursor
  old := by
    intro k old
    have apart : k ≠ e'.blocks.size := by
      rw [h.size]
      omega
    rw [Emitter.withBlock, Table.get?_push, if_neg apart]
    exact h.old k old
  new := by
    intro k old new
    rw [Emitter.withBlock, Table.get?_push]
    split
    · next last =>
      subst last
      exact ⟨label, rfl⟩
    · next apart =>
      rw [h.size] at apart
      exact h.new k old (by omega)

/-- The block under the cursor is ended by an instruction that leads to some of `count` new blocks,
which are still empty. -/
structure Forks (e : Emitter) (count : Nat) (targets : List Nat) (e' : Emitter) : Prop where
  sound : e'.Sound
  proper : e'.Proper
  later : e.Later e'
  size : e'.blocks.size = e.blocks.size + count
  kept : ∀ k < e.blocks.size, k ≠ e.cursor → e'.blocks.get? k = e.blocks.get? k
  closed : e'.Closed e.cursor
  fresh : ∀ k, e.blocks.size ≤ k → k < e.blocks.size + count →
    ∃ b, e'.blocks.get? k = some b ∧ b.instructions = [] ∧
      (k ∉ targets → ∀ p, b.preds.contains p = false)
  reached : ∀ t ∈ targets, Graph.Reachable e'.blocks.get? t

theorem Sound.size_pos (sound : e.Sound) : 0 < e.blocks.size := by
  obtain ⟨b, found⟩ := sound.linked.entry
  exact Table.lt_size_of_get? found

theorem Active.lt_size (active : e.Active) : e.cursor < e.blocks.size := by
  obtain ⟨b, found, _⟩ := active.isOpen
  exact Table.lt_size_of_get? found

theorem Opens.forks {count : Nat} {e₁ e₂ : Emitter} (ready : e.Ready) (opens : e.Opens count e₁)
    (h : e₁.Emits i e₂) (leads : i.targets ≠ []) (ahead : ∀ t ∈ i.targets, e.blocks.size ≤ t) :
    e.Forks count i.targets e₂ where
  sound := opens.sound.emits h
  proper := by
    refine h.proper opens.proper (Instruction.proper_of_targets leads fun entry => ?_)
    have := ready.sound.size_pos
    have := ahead 0 entry
    omega
  later := opens.later.trans (.of_emits h)
  size := by rw [h.size, opens.size]
  kept := by
    intro k old other
    rw [h.kept (opens.cursor ▸ other) fun target => absurd (ahead k target) (by omega)]
    exact opens.old k old
  closed := by
    rw [← opens.cursor]
    refine h.closed ?_ (Instruction.isTerminator_of_targets leads)
    rw [opens.cursor]
    exact opens.later.reachable ready.active.reached
  fresh := by
    intro k old new
    obtain ⟨label, found⟩ := opens.new k old new
    have apart : k ≠ e₁.cursor := by
      have := ready.active.lt_size
      rw [opens.cursor]
      omega
    refine ⟨_, h.get?_eq_some.2 ⟨_, found, rfl⟩, by simp [appended, apart], ?_⟩
    intro other p
    simp [appended, other]
  reached := by
    intro t target
    refine h.reached ?_ target
    rw [opens.cursor]
    exact opens.later.reachable ready.active.reached

theorem forks_if {a : Operand} {first second : String} (ready : e.Ready)
    (branches : ((e.withBlock first).withBlock second).Emits
      (.branch a e.blocks.size (e.blocks.size + 1)) e') :
    e.Forks 2 [e.blocks.size, e.blocks.size + 1] e' :=
  (((Opens.none ready).withBlock first).withBlock second).forks ready branches
    (by simp [Instruction.targets]) (by simp [Instruction.targets])

theorem forks_if_else {a : Operand} {first second third : String} (ready : e.Ready)
    (branches : (((e.withBlock first).withBlock second).withBlock third).Emits
      (.branch a e.blocks.size (e.blocks.size + 1)) e') :
    e.Forks 3 [e.blocks.size, e.blocks.size + 1] e' :=
  ((((Opens.none ready).withBlock first).withBlock second).withBlock third).forks ready branches
    (by simp [Instruction.targets]) (by simp [Instruction.targets])

theorem forks_loop {first second third : String} (ready : e.Ready)
    (jumps : (((e.withBlock first).withBlock second).withBlock third).Emits
      (.jump e.blocks.size) e') : e.Forks 3 [e.blocks.size] e' :=
  ((((Opens.none ready).withBlock first).withBlock second).withBlock third).forks ready jumps
    (by simp [Instruction.targets]) (by simp [Instruction.targets])

theorem forks_logic {op : LogicOp} {a : Operand} {first second : String} (ready : e.Ready)
    (branches : ((e.withBlock first).withBlock second).Emits
      (op.branch a e.blocks.size (e.blocks.size + 1)) e') :
    ∃ targets, e.Forks 2 targets e' ∧ e.blocks.size ∈ targets ∧ e.blocks.size + 1 ∈ targets := by
  have opens := ((Opens.none ready).withBlock first).withBlock second
  have forks := opens.forks ready branches
    (by cases op <;> simp [LogicOp.branch, Instruction.targets])
    (by cases op <;> simp [LogicOp.branch, Instruction.targets])
  exact ⟨_, forks, by cases op <;> simp [LogicOp.branch, Instruction.targets]⟩

/-- A part of the graph grows from block `arm`, and goes on at block `join` unless it returns. -/
structure Arm (e : Emitter) (arm join : Nat) (returns : Bool) (e' : Emitter) : Prop where
  sound : e'.Sound
  proper : e'.Proper
  later : e.Later e'
  kept : ∀ k < e.blocks.size, k ≠ arm → k ≠ join → e'.blocks.get? k = e.blocks.get? k
  joins : ∀ b, e.blocks.get? join = some b →
    ∃ b', e'.blocks.get? join = some b' ∧ b'.instructions = b.instructions ∧
      (returns = true → b' = b)
  settled : ∀ k, k = arm ∨ e.blocks.size ≤ k → k < e'.blocks.size → e'.Settled k
  reached : returns = false → Graph.Reachable e'.blocks.get? join

theorem Extends.arm {arm join : Nat} {returns : Bool} {e₁ e₂ : Emitter}
    (grown : (e.moveTo arm).Extends returns e₁) (goes : e₁.GoesOn returns join e₂)
    (there : join < e.blocks.size) (apart : join ≠ arm) (inner : join ≠ 0) :
    e.Arm arm join returns e₂ := by
  have kept : ∀ k < e.blocks.size, k ≠ arm → e₁.blocks.get? k = e.blocks.get? k := grown.kept
  have later : e.Later e₁ := (Later.moveTo e arm).trans grown.later
  have inside : ∀ k < e.blocks.size, k ≠ arm → k ≠ e₁.cursor := by
    intro k old other
    rcases grown.cursor with same | new
    · rw [same]
      exact other
    · change e.blocks.size ≤ e₁.cursor at new
      omega
  have settled : ∀ k, k = arm ∨ e.blocks.size ≤ k → k < e₁.blocks.size → k ≠ e₁.cursor →
      e₁.Settled k := by
    rintro k (rfl | touched) new other
    · exact .inl (grown.left other.symm)
    · exact grown.settled k touched new other
  cases returns with
  | true =>
      obtain rfl : e₂ = e₁ := goes
      refine ⟨grown.sound, grown.proper, later, fun k old other _ => kept k old other, ?_, ?_, ?_⟩
      · intro b found
        exact ⟨b, (kept join there apart).trans found, rfl, fun _ => rfl⟩
      · intro k touched new
        by_cases here : k = e₂.cursor
        · rw [here]
          simpa using grown.ends
        · exact settled k touched new here
      · intro h
        cases h
  | false =>
      have goes : e₁.Emits (.jump join) e₂ := goes
      have active := grown.ready.active
      have onwards := Later.of_emits goes
      refine ⟨grown.sound.emits goes, ?_, later.trans onwards, ?_, ?_, ?_, ?_⟩
      · refine goes.proper grown.proper ⟨by simp, by simp, ?_⟩
        simpa [Instruction.targets] using inner.symm
      · intro k old other elsewhere
        rw [goes.kept (inside k old other) (by simpa [Instruction.targets] using elsewhere)]
        exact kept k old other
      · intro b found
        obtain ⟨b', found', same⟩ :=
          goes.instructions (inside join there apart) ((kept join there apart).trans found)
        exact ⟨b', found', same, fun h => by cases h⟩
      · intro k touched new
        rw [goes.size] at new
        by_cases here : k = e₁.cursor
        · rw [here]
          exact .inl (goes.closed active.reached rfl)
        · have elsewhere : k ≠ join := by omega
          exact (settled k touched new here).later onwards
            (goes.kept here (by simpa [Instruction.targets] using elsewhere))
      · intro _
        exact goes.reached active.reached (List.mem_singleton_self join)

/-- Lowering can still begin in the blocks beside an arm. -/
theorem Arm.ready {arm join : Nat} {returns : Bool} (h : e.Arm arm join returns e')
    (ready : (e.moveTo k).Ready) (other : k ≠ arm) (elsewhere : k ≠ join) :
    (e'.moveTo k).Ready := by
  have same : e'.blocks.get? k = e.blocks.get? k := h.kept k ready.active.lt_size other elsewhere
  obtain ⟨b, found, isOpen⟩ := ready.active.isOpen
  exact ⟨⟨h.sound.linked, h.sound.ids⟩, h.proper, ⟨b, same.trans found, isOpen⟩,
    h.later.reachable ready.active.reached⟩

theorem active_moveTo {b : Block} (found : e.blocks.get? k = some b) (empty : b.instructions = [])
    (reached : Graph.Reachable e.blocks.get? k) : (e.moveTo k).Active := by
  refine ⟨⟨b, found, ?_⟩, reached⟩
  rw [Block.isTerminated, empty]
  rfl

namespace Forks

variable {count : Nat} {targets : List Nat}

/-- Lowering can go on in every new block that is led to. -/
theorem ready (forks : e.Forks count targets e') {t : Nat} (old : e.blocks.size ≤ t)
    (new : t < e.blocks.size + count) (target : t ∈ targets) : (e'.moveTo t).Ready := by
  obtain ⟨b, found, empty, _⟩ := forks.fresh t old new
  exact ⟨⟨forks.sound.linked, forks.sound.ids⟩, forks.proper,
    active_moveTo found empty (forks.reached t target)⟩

/-- One arm, and the block where it joins what skips it. -/
theorem extends_one {returns : Bool} {e₁ e₂ : Emitter} (ready : e.Ready)
    (forks : e.Forks 2 targets e₁) (skips : e.blocks.size + 1 ∈ targets)
    (arm : e₁.Arm e.blocks.size (e.blocks.size + 1) returns e₂) :
    e.Extends false (e₂.moveTo (e.blocks.size + 1)) := by
  have size := forks.size
  have inside := ready.active.lt_size
  have later := forks.later.trans arm.later
  refine ⟨⟨arm.sound.linked, arm.sound.ids⟩, arm.proper, later.trans (.moveTo ..), ?_,
    .inr (Nat.le_succ _), fun _ => ?_, ?_, ?_⟩
  · intro k old other
    change e₂.blocks.get? k = _
    rw [arm.kept k (by omega) (by omega) (by omega)]
    exact forks.kept k old other
  · exact (forks.closed.later arm.later).later (.moveTo ..)
  · intro k new there apart
    change k ≠ e.blocks.size + 1 at apart
    exact arm.settled k (by omega) there
  · obtain ⟨b, found, empty, _⟩ := forks.fresh (e.blocks.size + 1) (by omega) (by omega)
    obtain ⟨b', found', same, _⟩ := arm.joins b found
    exact active_moveTo found' (same.trans empty)
      (arm.later.reachable (forks.reached _ skips))

/-- Two arms, and the block where they join. If both return then nothing leads there. -/
theorem extends_two {first second : Bool} {e₁ e₂ e₃ : Emitter} (ready : e.Ready)
    (forks : e.Forks 3 targets e₁) (skipped : e.blocks.size + 2 ∉ targets)
    (arm : e₁.Arm e.blocks.size (e.blocks.size + 2) first e₂)
    (arm' : e₂.Arm (e.blocks.size + 1) (e.blocks.size + 2) second e₃) :
    e.Extends (first && second) (e₃.moveTo (e.blocks.size + 2)) := by
  have size := forks.size
  have size' := arm.later.size
  have inside := ready.active.lt_size
  have later := (forks.later.trans arm.later).trans arm'.later
  refine ⟨⟨arm'.sound.linked, arm'.sound.ids⟩, arm'.proper, later.trans (.moveTo ..), ?_,
    .inr (Nat.le_add_right _ _), fun _ => ?_, ?_, ?_⟩
  · intro k old other
    change e₃.blocks.get? k = _
    rw [arm'.kept k (by omega) (by omega) (by omega), arm.kept k (by omega) (by omega) (by omega)]
    exact forks.kept k old other
  · exact ((forks.closed.later arm.later).later arm'.later).later (.moveTo ..)
  · intro k new there apart
    change k ≠ e.blocks.size + 2 at apart
    change e₃.Settled k
    by_cases second : k = e.blocks.size + 1 ∨ e₂.blocks.size ≤ k
    · exact arm'.settled k second there
    · have settled := arm.settled k (by omega) (by omega)
      exact settled.later arm'.later (arm'.kept k (by omega) (by omega) (by omega))
  · obtain ⟨b, found, empty, unled⟩ := forks.fresh (e.blocks.size + 2) (by omega) (by omega)
    obtain ⟨b', found', same, kept⟩ := arm.joins b found
    obtain ⟨b'', found'', same', kept'⟩ := arm'.joins b' found'
    have empty'' : b''.instructions = [] := by rw [same', same, empty]
    cases first with
    | false =>
        exact active_moveTo found'' empty'' (arm'.later.reachable (arm.reached rfl))
    | true =>
        cases second with
        | false => exact active_moveTo found'' empty'' (arm'.reached rfl)
        | true =>
            refine .inr ⟨Nat.succ_ne_zero _, b'', found'', empty'', ?_⟩
            rw [kept' rfl, kept rfl]
            exact unled skipped

/-- The blocks of the body and behind the loop are still empty after its condition. -/
theorem fresh_branch {a : Operand} {e₁ e₂ e₃ : Emitter}
    (forks : e.Forks 3 targets e₁) (condition : (e₁.moveTo e.blocks.size).Extends false e₂)
    (branches : e₂.Emits (.branch a (e.blocks.size + 1) (e.blocks.size + 2)) e₃)
    {t : Nat} (target : t = e.blocks.size + 1 ∨ t = e.blocks.size + 2) :
    ∃ b, e₃.blocks.get? t = some b ∧ b.instructions = [] := by
  have size := forks.size
  have cursor : e₂.cursor = e.blocks.size ∨ e₁.blocks.size ≤ e₂.cursor := condition.cursor
  obtain ⟨b, found, empty, _⟩ := forks.fresh t (by omega) (by omega)
  have found₂ : e₂.blocks.get? t = some b :=
    (condition.kept t (by change t < e₁.blocks.size; omega)
      (by change t ≠ e.blocks.size; omega)).trans found
  obtain ⟨b', found₃, same⟩ := branches.instructions (by omega) found₂
  exact ⟨b', found₃, same.trans empty⟩

/-- After the condition of a loop, lowering can go on in the body and behind the loop. -/
theorem ready_branch {a : Operand} {e₁ e₂ e₃ : Emitter}
    (forks : e.Forks 3 targets e₁) (condition : (e₁.moveTo e.blocks.size).Extends false e₂)
    (branches : e₂.Emits (.branch a (e.blocks.size + 1) (e.blocks.size + 2)) e₃)
    {t : Nat} (target : t = e.blocks.size + 1 ∨ t = e.blocks.size + 2) : (e₃.moveTo t).Ready := by
  obtain ⟨b, found, empty⟩ := forks.fresh_branch condition branches target
  have sound := condition.sound.emits branches
  have proper := branches.proper condition.proper
    (Instruction.proper_of_targets (by simp [Instruction.targets]) (by simp [Instruction.targets]))
  refine ⟨⟨sound.linked, sound.ids⟩, proper, active_moveTo found empty ?_⟩
  exact branches.reached condition.ready.active.reached
    (by simpa [Instruction.targets] using target)

/-- A loop: the block of the condition is entered from outside and at the end of the body. -/
theorem extends_loop {returns : Bool} {a : Operand} {e₁ e₂ e₃ e₄ : Emitter} (ready : e.Ready)
    (forks : e.Forks 3 targets e₁) (condition : (e₁.moveTo e.blocks.size).Extends false e₂)
    (branches : e₂.Emits (.branch a (e.blocks.size + 1) (e.blocks.size + 2)) e₃)
    (arm : e₃.Arm (e.blocks.size + 1) e.blocks.size returns e₄) :
    e.Extends false (e₄.moveTo (e.blocks.size + 2)) := by
  have size := forks.size
  have size' : e₁.blocks.size ≤ e₂.blocks.size := condition.later.size
  have size'' := branches.size
  have inside := ready.active.lt_size
  have from_ := condition.ready.active.reached
  have onwards := Later.of_emits branches
  have later : e₁.Later e₄ :=
    (((Later.moveTo e₁ _).trans condition.later).trans onwards).trans arm.later
  -- The condition leaves the cursor on its own blocks.
  have cursor : e₂.cursor = e.blocks.size ∨ e₁.blocks.size ≤ e₂.cursor := condition.cursor
  have kept : ∀ k < e₁.blocks.size, k ≠ e.blocks.size → e₂.blocks.get? k = e₁.blocks.get? k :=
    condition.kept
  have kept' : ∀ k, k ≠ e₂.cursor → k ≠ e.blocks.size + 1 → k ≠ e.blocks.size + 2 →
      e₃.blocks.get? k = e₂.blocks.get? k := by
    intro k other first second
    exact branches.kept other (by simp [Instruction.targets, first, second])
  refine ⟨⟨arm.sound.linked, arm.sound.ids⟩, arm.proper,
    (forks.later.trans later).trans (.moveTo ..), ?_, .inr (Nat.le_add_right _ _), fun _ => ?_, ?_,
    ?_⟩
  · intro k old other
    change e₄.blocks.get? k = _
    rw [arm.kept k (by omega) (by omega) (by omega), kept' k (by omega) (by omega) (by omega),
      kept k (by omega) (by omega)]
    exact forks.kept k old other
  · exact (forks.closed.later later).later (.moveTo ..)
  · intro k new there apart
    change k ≠ e.blocks.size + 2 at apart
    change e₄.Settled k
    by_cases body : k = e.blocks.size + 1 ∨ e₃.blocks.size ≤ k
    · exact arm.settled k body there
    · by_cases here : k = e₂.cursor
      · have closed := branches.closed from_ rfl
        rw [here]
        exact .inl (closed.later arm.later)
      · by_cases head : k = e.blocks.size
        · have closed : e₂.Closed k := by
            rw [head]
            exact condition.left (head ▸ Ne.symm here)
          exact .inl ((closed.later onwards).later arm.later)
        · have settled := condition.settled k (by change e₁.blocks.size ≤ k; omega) (by omega) here
          have settled' := settled.later onwards (kept' k here (by omega) apart)
          exact settled'.later arm.later (arm.kept k (by omega) (by omega) head)
  · have behind := forks.ready_branch condition branches (.inr rfl)
    exact (arm.ready behind (by omega) (by omega)).active

end Forks

end Emitter

end Rill.Lir
