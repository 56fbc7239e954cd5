import Rill.Proofs.Lir.WellFormed

/-!
# Chains of jumps end

A block that holds a single jump hands control on and does nothing else. Following such
blocks in a lowered function always leads to one that does more (`Graph.Lands`): there
are no rings of jumps, nor does a block merely jump to itself.

Expressions never make such a block, since a jump behind an operand follows a move
(`Emitter.AddsNoHop`). Statements do, but each of their jumps goes to a block that is
empty then, or that begins with the condition of a loop.
-/

namespace Rill

namespace Lir

/-- Control that comes to the block gets to one that is no single jump. -/
inductive Graph.Lands (graph : Graph) : Nat → Prop where
  | here {k : Nat} {b : Block} : graph k = some b → (∀ t, b.instructions ≠ [.jump t]) →
      Lands graph k
  | on {k t : Nat} {b : Block} : graph k = some b → b.instructions = [.jump t] →
      Lands graph t → Lands graph k

/-- A block that jumps to itself does not land anywhere. -/
theorem Graph.Lands.not_self {graph : Graph} {k : Nat} (h : graph.Lands k) {b : Block}
    (found : graph k = some b) : b.instructions ≠ [.jump k] := by
  induction h generalizing b with
  | here there plain =>
      obtain rfl := Option.some.inj (there.symm.trans found)
      exact plain _
  | on there jumps _ ih =>
      obtain rfl := Option.some.inj (there.symm.trans found)
      intro self
      obtain rfl : _ = _ := by simpa [jumps] using self
      exact ih found self

namespace Emitter

variable {e e' e'' : Emitter} {i : Instruction} {k : Nat}

/-- Every chain of jumps ends. -/
def Lands (e : Emitter) : Prop :=
  ∀ k b, e.blocks.get? k = some b → Graph.Lands e.blocks.get? k

/-- Blocks that are single jumps have been so before. -/
def AddsNoHop (e e' : Emitter) : Prop :=
  ∀ k b' t, e'.blocks.get? k = some b' → b'.instructions = [.jump t] →
    ∃ b, e.blocks.get? k = some b ∧ b.instructions = [.jump t]

namespace AddsNoHop

theorem refl (e : Emitter) : e.AddsNoHop e :=
  fun _ b _ found jumps => ⟨b, found, jumps⟩

theorem trans (first : e.AddsNoHop e') (second : e'.AddsNoHop e'') : e.AddsNoHop e'' := by
  intro k b'' t found jumps
  obtain ⟨b', found', jumps'⟩ := second k b'' t found jumps
  exact first k b' t found' jumps'

theorem withRegister (h : e.AddsNoHop e') (ty : Ty) : e.AddsNoHop (e'.withRegister ty) :=
  h

theorem withBlock (h : e.AddsNoHop e') (label : String) : e.AddsNoHop (e'.withBlock label) := by
  intro k b' t found jumps
  rw [Emitter.withBlock, Table.get?_push] at found
  split at found
  · cases found
    cases jumps
  · exact h k b' t found jumps

/-- A jump makes a block a single jump only if it was empty. -/
theorem emits (h : e.AddsNoHop e') (emits : e'.Emits i e'')
    (plain : (∀ t, i ≠ .jump t) ∨
      ∀ b, e'.blocks.get? e'.cursor = some b → b.instructions ≠ []) : e.AddsNoHop e'' := by
  intro k b' t found' jumps
  obtain ⟨b, found, rfl⟩ := emits.get?_eq_some.1 found'
  refine h k b t found ?_
  simp only [appended] at jumps
  split at jumps
  · next here =>
    subst here
    rw [List.append_eq_singleton_iff] at jumps
    rcases jumps with ⟨empty, last⟩ | ⟨_, none⟩
    · rcases plain with plain | plain
      · exact absurd (List.head_eq_of_cons_eq last) (plain t)
      · exact absurd empty (plain b found)
    · cases none
  · exact jumps

end AddsNoHop

/-- Blocks grow at their ends, so one that does more than a jump still does, and no new single jump
leads elsewhere. -/
theorem lands_of_later (lands : e.Lands) (later : e.Later e') (h : e.AddsNoHop e') : e'.Lands := by
  have kept : ∀ k, Graph.Lands e.blocks.get? k → Graph.Lands e'.blocks.get? k := by
    intro k lands
    induction lands with
    | here found plain =>
        obtain ⟨b', found', _⟩ := later.blocks _ _ found
        refine .here found' fun t jumps => ?_
        obtain ⟨_, same, jumped⟩ := h _ b' t found' jumps
        obtain rfl := Option.some.inj (found.symm.trans same)
        exact plain t jumped
    | on found jumps _ ih =>
        obtain ⟨b', found', _, closed⟩ := later.blocks _ _ found
        refine .on found' ((closed ?_).trans jumps) ih
        rw [Block.isTerminated, jumps]
        rfl
  intro k b' found'
  by_cases hops : ∃ t, b'.instructions = [.jump t]
  · obtain ⟨t, jumps⟩ := hops
    obtain ⟨b, found, _⟩ := h k b' t found' jumps
    exact kept k (lands k b found)
  · exact .here found' (not_exists.1 hops)

/-- A jump to a block that does more. -/
theorem Lands.jump {t : Nat} (lands : e.Lands) (emits : e.Emits (.jump t) e')
    (apart : t ≠ e.cursor) {c : Block} (target : e.blocks.get? t = some c)
    (plain : ∀ u, c.instructions ≠ [.jump u]) : e'.Lands := by
  have ahead : Graph.Lands e'.blocks.get? t := by
    obtain ⟨c', target', same⟩ := emits.instructions apart target
    exact .here target' (same ▸ plain)
  have kept : ∀ k, Graph.Lands e.blocks.get? k → Graph.Lands e'.blocks.get? k := by
    intro k lands
    induction lands with
    | @here k b found plain =>
        have found' := emits.get?_eq_some.2 ⟨b, found, rfl⟩
        by_cases hops : ∃ u, (e.appended (.jump t) k b).instructions = [.jump u]
        · obtain ⟨u, jumps⟩ := hops
          have same : u = t := by
            simp only [appended] at jumps
            split at jumps
            · have last := congrArg List.getLast? jumps
              simpa [eq_comm] using last
            · exact absurd jumps (plain u)
          exact .on found' jumps (same ▸ ahead)
        · exact .here found' (not_exists.1 hops)
    | @on k u b found jumps _ ih =>
        have other : k ≠ e.cursor := by
          rintro rfl
          obtain ⟨_, same, isOpen⟩ := emits.isOpen
          obtain rfl := Option.some.inj (found.symm.trans same)
          rw [Block.isTerminated, jumps] at isOpen
          cases isOpen
        obtain ⟨b', found', same⟩ := emits.instructions other found
        exact .on found' (same.trans jumps) ih
  intro k b' found'
  obtain ⟨b, found, _⟩ := emits.get?_eq_some.1 found'
  exact kept k (lands k b found)

/-- The end of an arm is a jump to its join, which the arm has left alone. -/
theorem Extends.lands_arm {arm join : Nat} {returns : Bool} {e₁ e₂ : Emitter}
    (grown : (e.moveTo arm).Extends returns e₁) (lands : e₁.Lands)
    (goes : e₁.GoesOn returns join e₂) (apart : join ≠ arm) {c : Block}
    (target : e.blocks.get? join = some c) (plain : ∀ u, c.instructions ≠ [.jump u]) :
    e₂.Lands := by
  have there : join < e.blocks.size := Table.lt_size_of_get? target
  cases returns with
  | true =>
      obtain rfl : e₂ = e₁ := goes
      exact lands
  | false =>
      refine lands.jump goes ?_ ((grown.kept join there apart).trans target) plain
      rcases grown.cursor with same | new
      · rw [same]
        exact apart
      · change e.blocks.size ≤ e₁.cursor at new
        omega

end Emitter

end Lir

open Lir

namespace Expr

mutual

/-- The jumps in an expression stand behind the move to its register. -/
theorem lower_addsNoHop {S S' : LowerState} {operand : Operand} : (e : Expr) →
    e.lower S = .ok operand S' → S.emitter.AddsNoHop S'.emitter
  | .literal .., h => by
    rw [(lower_literal h).2]
    exact .refl _
  | .var .., h => by
    obtain ⟨_, _, _, _, _, rfl⟩ := lower_var h
    exact .refl _
  | .call _ _ args, h => by
    obtain ⟨ty, _, _, _, _, _, _, lowered, result, rfl⟩ := lower_call h
    have added := lowerAll_addsNoHop args lowered
    rcases result with ⟨_, _, emits⟩ | ⟨_, _, emits⟩
    · exact added.emits emits (.inl (by simp))
    · exact (added.withRegister ty).emits emits (.inl (by simp))
  | .unary _ _ arg, h => by
    obtain ⟨ty, _, _, _, _, lowered, emits, _, rfl⟩ := lower_unary h
    exact ((lower_addsNoHop arg lowered).withRegister ty).emits emits (.inl (by simp))
  | .binary _ _ lhs rhs, h => by
    obtain ⟨ty, _, _, _, _, _, _, left, right, emits, _, rfl⟩ := lower_binary h
    have added := (lower_addsNoHop lhs left).trans (lower_addsNoHop rhs right)
    exact (added.withRegister ty).emits emits (.inl (by simp))
  | .logic _ op lhs rhs, h => by
    obtain ⟨_, _, _, e₂, e₃, _, S₄, e₅, e₆, _, left, moves, branches, right, moves', jumps, _,
      rfl⟩ := lower_logic h
    have added : S.emitter.AddsNoHop e₂ := (lower_addsNoHop lhs left).emits moves (.inl (by simp))
    have added' : S.emitter.AddsNoHop e₃ := ((added.withBlock _).withBlock _).emits branches
      (.inl (by cases op <;> simp [LogicOp.branch]))
    have added'' : S.emitter.AddsNoHop e₅ :=
      (added'.trans (lower_addsNoHop rhs right)).emits moves' (.inl (by simp))
    change S.emitter.AddsNoHop e₆
    refine added''.emits jumps (.inr fun b found => ?_)
    -- The jump follows the move.
    rw [moves'.cursor] at found
    obtain ⟨_, _, rfl⟩ := moves'.get?_eq_some.1 found
    simp [Emitter.appended]

theorem lowerAll_addsNoHop {S S' : LowerState} {operands : List Operand} : (es : List Expr) →
    lowerAll es S = .ok operands S' → S.emitter.AddsNoHop S'.emitter
  | [], h => by
    rw [(lowerAll_nil h).2]
    exact .refl _
  | e :: es, h => by
    obtain ⟨_, _, _, first, others, _⟩ := lowerAll_cons h
    exact (lower_addsNoHop e first).trans (lowerAll_addsNoHop es others)

end

variable {S S' : LowerState}

theorem lowerOpt_addsNoHop {e : Option Expr} {operand : Option Operand}
    (h : lowerOpt e S = .ok operand S') : S.emitter.AddsNoHop S'.emitter := by
  cases e with
  | none =>
      rw [(lowerOpt_none h).2]
      exact .refl _
  | some e =>
      obtain ⟨_, lowered, _⟩ := lowerOpt_some h
      exact lower_addsNoHop e lowered

theorem lower_lands {e : Expr} {operand : Operand} (h : e.lower S = .ok operand S')
    (ready : S.emitter.Ready) (lands : S.emitter.Lands) : S'.emitter.Lands :=
  Emitter.lands_of_later lands (lower_extends e h ready).later (lower_addsNoHop e h)

theorem lowerOpt_lands {e : Option Expr} {operand : Option Operand}
    (h : lowerOpt e S = .ok operand S') (ready : S.emitter.Ready) (lands : S.emitter.Lands) :
    S'.emitter.Lands :=
  Emitter.lands_of_later lands (lowerOpt_extends h ready).later (lowerOpt_addsNoHop h)

end Expr

namespace Lir.Emitter

variable {e e' : Emitter} {i : Instruction}

theorem Lands.withBlock (lands : e.Lands) (label : String) : (e.withBlock label).Lands :=
  lands_of_later lands (.withBlock e label) ((AddsNoHop.refl e).withBlock label)

theorem Lands.moveTo (lands : e.Lands) (block : Nat) : (e.moveTo block).Lands :=
  lands

theorem Lands.emits (lands : e.Lands) (emits : e.Emits i e') (plain : ∀ t, i ≠ .jump t) :
    e'.Lands :=
  lands_of_later lands (.of_emits emits) ((AddsNoHop.refl e).emits emits (.inl plain))

end Lir.Emitter

namespace Stmt

theorem Allots.lands {S S' : LowerState} {name : Ident} {ty : Ty} {dest : Nat}
    (h : Allots name ty S dest S') (lands : S.emitter.Lands) : S'.emitter.Lands := by
  obtain ⟨_, _, _, ⟨_, rfl⟩ | ⟨_, _, rfl⟩⟩ := h
  · exact lands
  · exact lands

mutual

theorem lower_lands {S S' : LowerState} {u : Unit} : (s : Stmt) → s.lower S = .ok u S' →
    S.emitter.Ready → S.context.returnType = S.emitter.returnType → S.emitter.Lands →
    S'.emitter.Lands
  | .ite _ _ none _, h, _, _, _ => absurd h not_lower_ite_none
  | .ite _ condition (some positive) none, h, ready, declared, lands => by
    obtain ⟨a, S₁, e₂, S₃, e₄, _, tested, branches, lowered, goes, rfl⟩ := lower_ite h
    have grown := Expr.lower_extends condition tested ready
    have forks := Emitter.forks_if grown.ready branches
    have there := forks.ready (Nat.le_refl _) (by omega) (by simp)
    have declared' : S₁.context.returnType = e₂.returnType := by
      rw [forks.later.header.2.2.1]
      exact declared_later declared (Expr.lower_outer tested) grown.later
    have lands₂ : e₂.Lands :=
      (((Expr.lower_lands tested ready lands).withBlock _).withBlock _).emits branches (by simp)
    have lands₃ := lower_lands positive lowered there declared' lands₂
    obtain ⟨b, found, empty, _⟩ :=
      forks.fresh (S₁.emitter.blocks.size + 1) (by omega) (by omega)
    have lands₄ := (lower_extends positive lowered there declared').lands_arm lands₃ goes
      (by omega) found (by simp [empty])
    exact lands₄.moveTo _
  | .ite _ condition (some positive) (some negative), h, ready, declared, lands => by
    obtain ⟨a, S₁, e₂, S₃, e₄, S₅, e₆, _, tested, branches, first, goes, second, goes', rfl⟩ :=
      lower_ite_else h
    have grown := Expr.lower_extends condition tested ready
    have declared₁ := declared_later declared (Expr.lower_outer tested) grown.later
    have forks := Emitter.forks_if_else grown.ready branches
    have there := forks.ready (Nat.le_refl _) (by omega) (by simp)
    have declared₂ : S₁.context.returnType = e₂.returnType := by
      rw [forks.later.header.2.2.1]
      exact declared₁
    have lands₂ : e₂.Lands := ((((Expr.lower_lands tested ready lands).withBlock _).withBlock
      _).withBlock _).emits branches (by simp)
    have grown₁ := lower_extends positive first there declared₂
    have lands₃ := lower_lands positive first there declared₂ lands₂
    obtain ⟨b, found, empty, _⟩ :=
      forks.fresh (S₁.emitter.blocks.size + 2) (by omega) (by omega)
    have lands₄ := grown₁.lands_arm lands₃ goes (by omega) found (by simp [empty])
    have arm := grown₁.arm goes (by rw [forks.size]; omega) (by omega) (by omega)
    have there' := arm.ready (forks.ready (t := S₁.emitter.blocks.size + 1) (by omega) (by omega)
      (by simp)) (by omega) (by omega)
    have declared₃ : S₃.context.returnType = e₄.returnType := by
      rw [(lower_context positive first).1, arm.later.header.2.2.1]
      exact declared₂
    have lands₅ := lower_lands negative second there' declared₃ lands₄
    obtain ⟨b', found', same, _⟩ := arm.joins b found
    have lands₆ := (lower_extends negative second there' declared₃).lands_arm lands₅ goes'
      (by omega) found' (by simp [same, empty])
    exact lands₆.moveTo _
  | .block _ body, h, ready, declared, lands => by
    obtain ⟨T, lowered, rfl⟩ := lower_block h
    have lands' : T.emitter.Lands := lowerAll_lands body lowered ready declared lands
    exact lands'
  | .decl .., h, ready, _, lands => by
    obtain ⟨_, source, _, _, _, _, lowered, allots, h⟩ := lower_decl h
    have lands' := allots.lands (Expr.lowerOpt_lands lowered ready lands)
    cases source with
    | none =>
        rw [h]
        exact lands'
    | some a =>
        obtain ⟨_, emits, rfl⟩ := h
        exact lands'.emits emits (by simp)
  | .assign .., h, ready, _, lands => by
    obtain ⟨_, _, _, _, _, _, _, _, lowered, emits, rfl⟩ := lower_assign h
    exact (Expr.lower_lands lowered ready lands).emits emits (by simp)
  | .ret .., h, ready, _, lands => by
    obtain ⟨_, _, _, _, lowered, emits, rfl⟩ := lower_ret h
    exact (Expr.lowerOpt_lands lowered ready lands).emits emits (by simp)
  | .loop _ condition body, h, ready, declared, lands => by
    obtain ⟨e₁, a, S₂, e₃, S₄, e₅, _, jumps, tested, branches, lowered, goes, rfl⟩ := lower_loop h
    have forks := Emitter.forks_loop ready jumps
    have there := forks.ready (Nat.le_refl _) (by omega) (by simp)
    have grown := Expr.lower_extends condition tested there
    have later := forks.later.trans ((Emitter.Later.moveTo ..).trans grown.later)
    have there' := forks.ready_branch grown branches (.inl rfl)
    have outer := Expr.lower_outer tested
    have declared' : S₂.context.returnType = e₃.returnType := by
      rw [(Emitter.Later.of_emits branches).header.2.2.1]
      exact declared_later declared outer later
    have lands₁ : e₁.Lands := by
      have opened := (((Emitter.Opens.none ready).withBlock "while_cond").withBlock
        "while_body").withBlock "while_end"
      obtain ⟨_, head⟩ := opened.new S.emitter.blocks.size (Nat.le_refl _) (by omega)
      have inside := ready.active.lt_size
      exact (((lands.withBlock _).withBlock _).withBlock _).jump jumps (Nat.ne_of_gt inside) head
        (by simp)
    have lands₃ := (Expr.lower_lands tested there lands₁).emits branches (by simp)
    have lands₄ := lower_lands body lowered there' declared' lands₃
    -- The block of the condition was empty, and what is in it by now is no single jump.
    obtain ⟨b₁, head₁, empty, _⟩ := forks.fresh S.emitter.blocks.size (Nat.le_refl _) (by omega)
    obtain ⟨b₃, head₃, _⟩ := (grown.later.trans (.of_emits branches)).blocks _ b₁ head₁
    have added : e₁.AddsNoHop e₃ :=
      (Expr.lower_addsNoHop condition tested).emits branches (.inl (by simp))
    have plain : ∀ t, b₃.instructions ≠ [.jump t] := by
      intro t hops
      obtain ⟨_, same, jumped⟩ := added _ b₃ t head₃ hops
      obtain rfl := Option.some.inj (head₁.symm.trans same)
      simp [empty] at jumped
    have lands₅ := (lower_extends body lowered there' declared').lands_arm lands₄ goes
      (by omega) head₃ plain
    exact lands₅.moveTo _
  | .eval _ value, h, ready, _, lands => by
    obtain ⟨_, lowered⟩ := lower_eval h
    exact Expr.lower_lands lowered ready lands
  | .skip _, h, _, _, lands => by
    rw [lower_skip h]
    exact lands

theorem lowerAll_lands {S S' : LowerState} {u : Unit} : (ss : List Stmt) →
    lowerAll ss S = .ok u S' → S.emitter.Ready → S.context.returnType = S.emitter.returnType →
    S.emitter.Lands → S'.emitter.Lands
  | [], h, _, _, lands => by
    rw [lowerAll_nil h]
    exact lands
  | s :: rest, h, ready, declared, lands => by
    obtain ⟨S₁, first, h⟩ := lowerAll_cons h
    have grown := lower_extends s first ready declared
    have lands₁ := lower_lands s first ready declared lands
    cases returned : s.returns with
    | true =>
        simp only [returned, if_true] at h
        rw [h]
        exact lands₁
    | false =>
        simp only [returned, Bool.false_eq_true, if_false] at h
        rw [returned] at grown
        have declared' := declared_later declared (lower_context s first).1 grown.later
        exact lowerAll_lands rest h grown.ready declared' lands₁

end

end Stmt

namespace Function

theorem lands_bound {f : Function} {signatures : SignatureTable} {id : Nat} {u : Unit}
    {S : LowerState} (h : f.header.params.forM bindParam (f.entered signatures id) = .ok u S) :
    S.emitter.Lands := by
  obtain ⟨_, _, _, rfl⟩ := bindParams_eq_ok h
  intro k b found
  refine .here found fun t jumps => ?_
  change (Table.push .empty (Block.mk 0 "entry" [] .empty)).get? k = some b at found
  rw [Table.get?_push] at found
  split at found
  · cases found
    cases jumps
  · simp [Table.get?, Table.empty] at found

theorem lands_lowerBody {f : Function} {u : Unit} {S S' : LowerState}
    (h : f.lowerBody S = .ok u S') (ready : S.emitter.Ready)
    (declared : S.context.returnType = S.emitter.returnType) (lands : S.emitter.Lands) :
    S'.emitter.Lands := by
  obtain ⟨S₁, lowered, h⟩ := lowerBody_eq_ok h
  have lands₁ := f.body.lower_lands lowered ready declared lands
  split at h
  · rw [h]
    exact lands₁
  · obtain ⟨i, _, emits, rfl, kind⟩ := h
    refine lands₁.emits emits ?_
    split at kind
    · simp [kind]
    · simp [kind.1]

/-- Following single jumps in a lowered function leads to a block that does more. -/
theorem lands_lower {f : Function} {signatures : SignatureTable} {g : Lir.Function}
    (h : f.lower signatures = .ok g) {k : Nat} {b : Block} (found : g.blocks.find? k = some b) :
    Graph.Lands g.blocks.find? k := by
  obtain ⟨id, S₁, S₂, _, bound, body, rfl⟩ := lower_eq_ok h
  obtain ⟨ready, alone, start, declared, named⟩ := ready_bound bound
  have sound := (finished_lowerBody body ready alone start declared named).1.sound
  rw [sound.find?_finish] at found ⊢
  exact lands_lowerBody body ready declared (lands_bound bound) k b found

end Function

end Rill
