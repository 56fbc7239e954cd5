import Mathlib.Control.Monad.Basic
import Rill.Proofs.Lir.Growth

/-!
# Lowered functions are well-formed

Whether a branch is closed by a jump is decided by return analysis and not by looking
at the emitter. The analysis is right about it: by induction over a tree, its lowering
leaves all blocks settled, and the cursor on a block that control comes to just if
some path falls through. Ending the last block then makes a well-formed function,
`Function.wellFormed_lower`. Trees need not be of the form that the parser makes.
-/

namespace Rill

open Lir

namespace Expr

mutual

theorem lower_extends {S S' : LowerState} {operand : Operand} : (e : Expr) →
    e.lower S = .ok operand S' → S.emitter.Ready → S.emitter.Extends false S'.emitter
  | .literal .., h, ready => by
    rw [(lower_literal h).2]
    exact .refl ready
  | .var .., h, ready => by
    obtain ⟨_, _, _, _, _, rfl⟩ := lower_var h
    exact .refl ready
  | .call _ _ args, h, ready => by
    obtain ⟨ty, _, _, S₁, e₂, _, _, lowered, result, rfl⟩ := lower_call h
    have grown := lowerAll_extends args lowered ready
    rcases result with ⟨_, _, emits⟩ | ⟨_, _, emits⟩
    · exact grown.push emits rfl
    · exact (grown.register ty).push emits rfl
  | .unary _ _ arg, h, ready => by
    obtain ⟨ty, _, S₁, e₂, _, lowered, emits, _, rfl⟩ := lower_unary h
    have grown := lower_extends arg lowered ready
    exact (grown.register ty).push emits rfl
  | .binary _ _ lhs rhs, h, ready => by
    obtain ⟨ty, _, S₁, _, S₂, e₃, _, left, right, emits, _, rfl⟩ := lower_binary h
    have grown := lower_extends lhs left ready
    have grown' := grown.trans (lower_extends rhs right grown.ready)
    exact (grown'.register ty).push emits rfl
  | .logic _ op lhs rhs, h, ready => by
    obtain ⟨_, a, S₁, e₂, e₃, b, S₄, e₅, e₆, _, left, moves, branches, right, moves', jumps, _,
      rfl⟩ := lower_logic h
    have begun := (Emitter.Extends.refl ready).register .bool
    have grown := (begun.trans (lower_extends lhs left begun.ready)).push moves rfl
    obtain ⟨_, forks, enters, skips⟩ := Emitter.forks_logic grown.ready branches
    have there := forks.ready (Nat.le_refl _) (by omega) enters
    have grown' := (lower_extends rhs right there).push moves' rfl
    have arm := grown'.arm jumps (by rw [forks.size]; omega) (by omega) (by omega)
    exact grown.trans (forks.extends_one grown.ready skips arm)

theorem lowerAll_extends {S S' : LowerState} {operands : List Operand} : (es : List Expr) →
    lowerAll es S = .ok operands S' → S.emitter.Ready → S.emitter.Extends false S'.emitter
  | [], h, ready => by
    rw [(lowerAll_nil h).2]
    exact .refl ready
  | e :: es, h, ready => by
    obtain ⟨_, _, _, first, others, _⟩ := lowerAll_cons h
    have grown := lower_extends e first ready
    exact grown.trans (lowerAll_extends es others grown.ready)

end

theorem lowerOpt_extends {S S' : LowerState} {e : Option Expr} {operand : Option Operand}
    (h : lowerOpt e S = .ok operand S') (ready : S.emitter.Ready) :
    S.emitter.Extends false S'.emitter := by
  cases e with
  | none =>
      rw [(lowerOpt_none h).2]
      exact .refl ready
  | some e =>
      obtain ⟨_, lowered, _⟩ := lowerOpt_some h
      exact lower_extends e lowered ready

end Expr

theorem Expr.lower_outer {S S' : LowerState} {e : Expr} {operand : Operand}
    (h : e.lower S = .ok operand S') :
    S'.context = { S.context with current := S'.context.current } := by
  rw [lower_context e h]

namespace Stmt

theorem Allots.extends {S S' : LowerState} {e : Emitter} {name : Ident} {ty : Ty} {dest : Nat}
    (h : Allots name ty S dest S') (grown : e.Extends false S.emitter) :
    e.Extends false S'.emitter := by
  obtain ⟨_, _, _, ⟨_, rfl⟩ | ⟨_, _, rfl⟩⟩ := h
  · exact grown
  · exact grown.register ty

/-- The instruction of a return fits the declared type. -/
theorem proper_ret {S S₁ : LowerState} {value : Option Expr} {source : Option Operand}
    (typed : returnedType S.context value = .ok S.context.returnType)
    (lowered : Expr.lowerOpt value S = .ok source S₁) :
    (Instruction.ret (if S.context.returnType.isUnit then none else source)).Proper
      S.context.returnType := by
  refine ⟨by simp, ?_, by simp [Instruction.targets]⟩
  rintro _ h
  cases h
  cases unit : S.context.returnType.isUnit with
  | true => rfl
  | false =>
      cases value with
      | none =>
          rw [← Except.ok.inj typed] at unit
          cases unit
      | some value =>
          obtain ⟨_, _, rfl⟩ := Expr.lowerOpt_some lowered
          rfl

/-- The context and the emitter keep agreeing on the declared type. -/
theorem declared_later {S S' : LowerState} (declared : S.context.returnType = S.emitter.returnType)
    (outer : S'.context = { S.context with current := S'.context.current })
    (later : S.emitter.Later S'.emitter) : S'.context.returnType = S'.emitter.returnType := by
  rw [outer, later.header.2.2.1]
  exact declared

mutual

theorem lower_extends {S S' : LowerState} {u : Unit} : (s : Stmt) → s.lower S = .ok u S' →
    S.emitter.Ready → S.context.returnType = S.emitter.returnType →
    S.emitter.Extends s.returns S'.emitter
  | .ite _ _ none _, h, _, _ => absurd h not_lower_ite_none
  | .ite _ condition (some positive) none, h, ready, declared => by
    obtain ⟨a, S₁, e₂, S₃, e₄, _, tested, branches, lowered, goes, rfl⟩ := lower_ite h
    have grown := Expr.lower_extends condition tested ready
    have forks := Emitter.forks_if grown.ready branches
    have there := forks.ready (Nat.le_refl _) (by omega) (by simp)
    have declared' := declared_later declared (Expr.lower_outer tested) grown.later
    have grown' := lower_extends positive lowered there
      (declared_later declared' rfl (forks.later.trans (.moveTo ..)))
    have arm := grown'.arm goes (by rw [forks.size]; omega) (by omega) (by omega)
    simp only [returns, returnsOpt, Bool.and_false]
    exact grown.trans (forks.extends_one grown.ready (by simp) arm)
  | .ite _ condition (some positive) (some negative), h, ready, declared => by
    obtain ⟨a, S₁, e₂, S₃, e₄, S₅, e₆, _, tested, branches, first, goes, second, goes', rfl⟩ :=
      lower_ite_else h
    have grown := Expr.lower_extends condition tested ready
    have declared' := declared_later declared (Expr.lower_outer tested) grown.later
    have forks := Emitter.forks_if_else grown.ready branches
    have there := forks.ready (Nat.le_refl _) (by omega) (by simp)
    have grown₁ := lower_extends positive first there
      (declared_later declared' rfl (forks.later.trans (.moveTo ..)))
    have arm := grown₁.arm goes (by rw [forks.size]; omega) (by omega) (by omega)
    have there' := arm.ready (forks.ready (t := S₁.emitter.blocks.size + 1) (by omega) (by omega)
      (by simp)) (by omega) (by omega)
    have grown₂ := lower_extends negative second there'
      (declared_later declared' (lower_context positive first).1
        ((forks.later.trans arm.later).trans (.moveTo ..)))
    have size : S₁.emitter.blocks.size + 3 ≤ e₄.blocks.size := forks.size ▸ arm.later.size
    have arm' := grown₂.arm goes' (by omega) (by omega) (by omega)
    simp only [returns, returnsOpt]
    exact grown.trans
      (forks.extends_two grown.ready (by simp) arm arm')
  | .block _ body, h, ready, declared => by
    obtain ⟨T, lowered, rfl⟩ := lower_block h
    have grown := lowerAll_extends body lowered ready declared
    simp only [returns]
    exact grown
  | .decl .., h, ready, _ => by
    obtain ⟨_, source, S₁, _, S₂, _, lowered, allots, h⟩ := lower_decl h
    have grown := allots.extends (Expr.lowerOpt_extends lowered ready)
    simp only [returns]
    cases source with
    | none =>
        rw [h]
        exact grown
    | some a =>
        obtain ⟨_, emits, rfl⟩ := h
        exact grown.push emits rfl
  | .assign _ _ value, h, ready, _ => by
    obtain ⟨_, _, _, _, _, _, _, _, lowered, emits, rfl⟩ := lower_assign h
    simp only [returns]
    exact (Expr.lower_extends value lowered ready).push emits rfl
  | .ret .., h, ready, declared => by
    obtain ⟨_, S₁, _, typed, lowered, emits, rfl⟩ := lower_ret h
    have grown := Expr.lowerOpt_extends lowered ready
    have same : S₁.emitter.returnType = S.context.returnType := by
      rw [grown.later.header.2.2.1, declared]
    simp only [returns]
    refine grown.trans (.of_emits grown.ready emits rfl ?_)
    rw [same]
    exact proper_ret typed lowered
  | .loop _ condition body, h, ready, declared => by
    obtain ⟨e₁, a, S₂, e₃, S₄, e₅, _, jumps, tested, branches, lowered, goes, rfl⟩ := lower_loop h
    have forks := Emitter.forks_loop ready jumps
    have there := forks.ready (Nat.le_refl _) (by omega) (by simp)
    have grown := Expr.lower_extends condition tested there
    have later := forks.later.trans ((Emitter.Later.moveTo ..).trans grown.later)
    have outer := Expr.lower_outer tested
    have there' := forks.ready_branch grown branches (.inl rfl)
    have grown' := lower_extends body lowered there'
      (declared_later declared outer ((later.trans (.of_emits branches)).trans (.moveTo ..)))
    have size := forks.size
    have size' : e₁.blocks.size ≤ e₃.blocks.size :=
      Nat.le_trans grown.later.size (Nat.le_of_eq branches.size.symm)
    have arm := grown'.arm goes (by omega) (by omega) (Nat.ne_of_gt ready.sound.size_pos)
    simp only [returns]
    exact forks.extends_loop ready grown branches arm
  | .eval _ value, h, ready, _ => by
    obtain ⟨_, lowered⟩ := lower_eval h
    simp only [returns]
    exact Expr.lower_extends value lowered ready
  | .skip _, h, ready, _ => by
    rw [lower_skip h]
    simp only [returns]
    exact .refl ready

theorem lowerAll_extends {S S' : LowerState} {u : Unit} : (ss : List Stmt) →
    lowerAll ss S = .ok u S' → S.emitter.Ready → S.context.returnType = S.emitter.returnType →
    S.emitter.Extends (returnsAny ss) S'.emitter
  | [], h, ready, _ => by
    rw [lowerAll_nil h]
    simp only [returnsAny]
    exact .refl ready
  | s :: rest, h, ready, declared => by
    obtain ⟨S₁, first, h⟩ := lowerAll_cons h
    have grown := lower_extends s first ready declared
    simp only [returnsAny]
    cases returned : s.returns with
    | true =>
        simp only [returned, if_true] at h grown
        rw [h]
        exact grown
    | false =>
        simp only [returned, Bool.false_eq_true, if_false] at h grown
        have declared' := declared_later declared (lower_context s first).1 grown.later
        exact grown.trans (lowerAll_extends rest h grown.ready declared')

end

end Stmt

namespace Lir

namespace Emitter

variable {e : Emitter}

theorem Sound.find?_finish (sound : e.Sound) : e.finish.blocks.find? = e.blocks.get? :=
  sound.coherent.find?_finish

theorem Sound.keys_finish (sound : e.Sound) :
    e.finish.blocks.keys = List.range e.finish.blocks.size := by
  rw [Ascending.size, sound.coherent.items_finish]
  exact sound.coherent.keys_finish.2 trivial

/-- Every block is done with, and at most a terminator was put into a block that nothing leads
to. -/
structure Finished (e : Emitter) : Prop where
  sound : e.Sound
  blocks : ∀ k b, e.blocks.get? k = some b →
    (e.Closed k ∧ ∀ i ∈ b.instructions, i.Proper e.returnType) ∨
    (k ≠ 0 ∧ (∀ p, b.preds.contains p = false) ∧ b.successors = [] ∧
      b.instructions.length ≤ 1 ∧ ∀ i ∈ b.instructions, i.isTerminator = true)

theorem Settled.finished {k : Nat} {b : Block} (settled : e.Settled k) (proper : e.Proper)
    (found : e.blocks.get? k = some b) :
    (e.Closed k ∧ ∀ i ∈ b.instructions, i.Proper e.returnType) ∨
    (k ≠ 0 ∧ (∀ p, b.preds.contains p = false) ∧ b.successors = [] ∧
      b.instructions.length ≤ 1 ∧ ∀ i ∈ b.instructions, i.isTerminator = true) := by
  rcases settled with closed | ⟨other, b', found', empty, unled⟩
  · exact .inl ⟨closed, proper k b found⟩
  · obtain rfl := Option.some.inj (found'.symm.trans found)
    refine .inr ⟨other, unled, ?_, ?_, ?_⟩
    · rw [Block.successors, empty]
      rfl
    · rw [empty]
      exact Nat.zero_le 1
    · rw [empty]
      exact fun i mem => by cases mem

namespace Extends

variable {e' e'' : Emitter} {returns : Bool} {i : Instruction}

/-- When lowering began with nothing but an empty entry, then all blocks are settled at the end
except for the last. -/
theorem settled_of_entry (grown : e.Extends returns e') (alone : e.blocks.size = 1)
    (start : e.cursor = 0) {k : Nat} {b : Block} (found : e'.blocks.get? k = some b)
    (other : k ≠ e'.cursor) : e'.Settled k := by
  have there : k < e'.blocks.size := Table.lt_size_of_get? found
  by_cases entry : k = 0
  · rw [entry, ← start] at other ⊢
    exact .inl (grown.left other.symm)
  · exact grown.settled k (by omega) there other

theorem finished_of_terminated (grown : e.Extends returns e') (alone : e.blocks.size = 1)
    (start : e.cursor = 0) (terminated : e'.isTerminated = true) : e'.Finished := by
  refine ⟨grown.sound, fun k b found => ?_⟩
  by_cases last : k = e'.cursor
  · subst last
    cases returns with
    | true => exact Settled.finished grown.ends grown.proper found
    | false =>
        obtain ⟨b', found', isOpen⟩ := grown.ready.active.isOpen
        rw [Emitter.isTerminated, found', Option.any_some, isOpen] at terminated
        cases terminated
  · exact (grown.settled_of_entry alone start found last).finished grown.proper found

theorem finished_of_emits (grown : e.Extends returns e') (alone : e.blocks.size = 1)
    (start : e.cursor = 0) (emits : e'.Emits i e'') (plain : i.targets = [])
    (last : i.isTerminator = true) (fits : returns = false → i.Proper e'.returnType) :
    e''.Finished := by
  have later := Later.of_emits emits
  refine ⟨grown.sound.emits emits, fun k b' found' => ?_⟩
  obtain ⟨b, found, rfl⟩ := emits.get?_eq_some.1 found'
  cases returns with
  | false =>
      have proper := emits.proper grown.proper (fits rfl)
      have settled : e''.Settled k := by
        by_cases here : k = e'.cursor
        · rw [here]
          exact .inl (emits.closed grown.ready.active.reached last)
        · exact (grown.settled_of_entry alone start found here).later later
            (emits.kept here (by simp [plain]))
      exact settled.finished proper found'
  | true =>
      by_cases here : k = e'.cursor
      · -- The last block is open, so nothing leads to it.
        obtain ⟨opened, at_cursor, isOpen⟩ := emits.isOpen
        obtain rfl := Option.some.inj (found.symm.trans (here ▸ at_cursor))
        have ends : e'.Settled e'.cursor := grown.ends
        rcases ends with ⟨⟨b', found₁, terminated⟩, _⟩ | ⟨other, b', found₁, empty, unled⟩
        · obtain rfl := Option.some.inj (found₁.symm.trans at_cursor)
          rw [terminated] at isOpen
          cases isOpen
        · obtain rfl := Option.some.inj (found₁.symm.trans at_cursor)
          refine .inr ⟨here ▸ other, ?_, ?_, ?_, ?_⟩
          · simpa [appended, plain] using unled
          · rw [successors_appended, if_pos here, plain]
          · simp [appended, here, empty]
          · simpa [appended, here, empty] using last
      · have same := emits.kept here (by simp [plain] : k ∉ i.targets)
        have settled := grown.settled_of_entry alone start found here
        rw [found', found, Option.some.injEq] at same
        rw [same]
        rcases settled.finished grown.proper found with ⟨closed, proper⟩ | unused
        · rw [← later.header.2.2.1] at proper
          exact .inl ⟨closed.later later, proper⟩
        · exact .inr unused

end Extends

end Emitter

/-- Control cannot fall off the end of a block, nor come to a hole. -/
structure Function.WellFormed (f : Function) : Prop where
  ids : f.blocks.keys = List.range f.blocks.size
  linked : Blocks.Linked f.blocks
  entry : ∀ b, f.blocks.find? 0 = some b → b.preds.isEmpty = true
  closed : ∀ k b, f.blocks.find? k = some b → Graph.Reachable f.blocks.find? k →
    b.isTerminated = true
  unused : ∀ k b, f.blocks.find? k = some b → ¬ Graph.Reachable f.blocks.find? k →
    b.preds.isEmpty = true ∧ b.instructions.length ≤ 1 ∧
      ∀ i ∈ b.instructions, i.isTerminator = true
  noHole : ∀ k b, f.blocks.find? k = some b → Graph.Reachable f.blocks.find? k →
    .unreachable ∉ b.instructions
  returns : ∀ k b, f.blocks.find? k = some b → Graph.Reachable f.blocks.find? k →
    ∀ value, .ret value ∈ b.instructions → value.isSome = !f.returnType.isUnit

theorem Emitter.Finished.wellFormed {e : Emitter} (h : e.Finished) : e.finish.WellFormed := by
  have graph := h.sound.find?_finish
  -- What is reached is not among the blocks that nothing leads to.
  have proper : ∀ k b, e.blocks.get? k = some b → Graph.Reachable e.blocks.get? k →
      e.Closed k ∧ ∀ i ∈ b.instructions, i.Proper e.returnType := by
    intro k b found reached
    rcases h.blocks k b found with closed | ⟨other, unled, _⟩
    · exact closed
    · obtain ⟨p, pred⟩ := h.sound.linked.pred_of_reachable reached other found
      rw [unled p] at pred
      cases pred
  refine ⟨h.sound.keys_finish, ?_, ?_, ?_, ?_, ?_, ?_⟩
  · rw [Blocks.Linked, graph]
    exact h.sound.linked
  · intro b found
    rw [graph] at found
    rw [Ascending.isEmpty_iff]
    intro p
    rw [Bool.eq_false_iff, ne_eq, h.sound.linked.preds 0 b found]
    rintro ⟨c, leader, leads⟩
    rcases h.blocks p c leader with ⟨_, proper⟩ | ⟨_, _, none, _⟩
    · obtain ⟨i, last, target⟩ := Block.mem_successors.1 leads
      exact (proper i (List.mem_of_getLast? last)).noEntry target
    · rw [none] at leads
      cases leads
  · intro k b found reached
    rw [graph] at found reached
    obtain ⟨⟨⟨b', found', terminated⟩, _⟩, _⟩ := proper k b found reached
    exact Option.some.inj (found'.symm.trans found) ▸ terminated
  · intro k b found unreached
    rw [graph] at found unreached
    rcases h.blocks k b found with ⟨⟨_, reached⟩, _⟩ | ⟨_, unled, _, short, last⟩
    · exact absurd reached unreached
    · exact ⟨(Ascending.isEmpty_iff _).2 unled, short, last⟩
  · intro k b found reached hole
    rw [graph] at found reached
    exact ((proper k b found reached).2 _ hole).noHole rfl
  · intro k b found reached value mem
    rw [graph] at found reached
    exact ((proper k b found reached).2 _ mem).returns value rfl

end Lir

namespace Function

variable {S S' : LowerState}

/-- Binding parameters emits nothing, and binds in the innermost scope only. -/
theorem bindParams_eq_ok {params : List Param} {u : Unit}
    (h : params.forM bindParam S = .ok u S') :
    ∃ scope registers arguments,
      S' = ⟨{ S.context with current := scope }, { S.emitter with registers, arguments }⟩ := by
  induction params generalizing S with
  | nil =>
      obtain ⟨_, rfl⟩ := pure_eq_ok.1 h
      exact ⟨S.context.current, S.emitter.registers, S.emitter.arguments, rfl⟩
  | cons param params ih =>
      obtain ⟨_, S₁, first, rest⟩ := bind_eq_ok.1 h
      obtain ⟨binding, ctx, _, declared, rfl⟩ := bindParam_eq_ok first
      obtain ⟨scope, registers, arguments, rfl⟩ := ih rest
      refine ⟨scope, registers, arguments, ?_⟩
      rw [Context.declare_outer declared]
      rfl

theorem ready_entered (f : Function) (signatures : SignatureTable) (id : Nat) :
    (f.entered signatures id).emitter.Ready := by
  have get? : ∀ k b, (f.entered signatures id).emitter.blocks.get? k = some b →
      k = 0 ∧ b = ⟨0, "entry", [], .empty⟩ := by
    intro k b found
    change (Table.push .empty (Block.mk 0 "entry" [] .empty)).get? k = some b at found
    rw [Table.get?_push] at found
    split at found
    · next first => exact ⟨first, (Option.some.inj found).symm⟩
    · simp [Table.get?, Table.empty] at found
  have entry : (f.entered signatures id).emitter.blocks.get? 0 =
      some ⟨0, "entry", [], .empty⟩ := rfl
  refine ⟨⟨⟨⟨_, entry⟩, ?_, ?_, ?_⟩, ?_⟩, ?_, ⟨⟨_, entry, rfl⟩, .entry⟩⟩
  · intro k b found
    obtain ⟨rfl, rfl⟩ := get? k b found
    intro i mem
    cases mem
  · intro k b found t target
    obtain ⟨rfl, rfl⟩ := get? k b found
    cases target
  · intro k b found p
    obtain ⟨rfl, rfl⟩ := get? k b found
    refine iff_of_false (by simp) ?_
    rintro ⟨c, leader, leads⟩
    obtain ⟨rfl, rfl⟩ := get? p c leader
    cases leads
  · intro k b found
    obtain ⟨rfl, rfl⟩ := get? k b found
    rfl
  · intro k b found i mem
    obtain ⟨rfl, rfl⟩ := get? k b found
    cases mem

/-- What the parameters leave is ready for the body. -/
theorem ready_bound {f : Function} {signatures : SignatureTable} {id : Nat} {u : Unit}
    (h : f.header.params.forM bindParam (f.entered signatures id) = .ok u S) :
    S.emitter.Ready ∧ S.emitter.blocks.size = 1 ∧ S.emitter.cursor = 0 ∧
      S.context.returnType = S.emitter.returnType ∧
      S.emitter.returnType = f.header.returnType := by
  obtain ⟨scope, registers, arguments, rfl⟩ := bindParams_eq_ok h
  obtain ⟨⟨linked, ids⟩, proper, ⟨isOpen, reached⟩⟩ := f.ready_entered signatures id
  exact ⟨⟨⟨linked, ids⟩, proper, ⟨isOpen, reached⟩⟩, rfl, rfl, rfl, rfl⟩

/-- Ending the last block finishes the graph. -/
theorem finished_lowerBody {f : Function} {u : Unit} (h : f.lowerBody S = .ok u S')
    (ready : S.emitter.Ready) (alone : S.emitter.blocks.size = 1) (start : S.emitter.cursor = 0)
    (declared : S.context.returnType = S.emitter.returnType)
    (named : S.emitter.returnType = f.header.returnType) :
    S'.emitter.Finished ∧ S'.emitter.returnType = f.header.returnType := by
  obtain ⟨S₁, lowered, h⟩ := lowerBody_eq_ok h
  have grown := f.body.lower_extends lowered ready declared
  have same : S₁.emitter.returnType = f.header.returnType := by
    rw [grown.later.header.2.2.1, named]
  cases terminated : S₁.emitter.isTerminated with
  | true =>
      simp only [terminated, if_true] at h
      rw [h]
      exact ⟨grown.finished_of_terminated alone start terminated, same⟩
  | false =>
      simp only [terminated, Bool.false_eq_true, if_false] at h
      obtain ⟨i, e, emits, rfl, kind⟩ := h
      have same' : e.returnType = f.header.returnType := by
        rw [(Emitter.Later.of_emits emits).header.2.2.1, same]
      refine ⟨?_, same'⟩
      split at kind
      · next unit =>
        subst kind
        refine grown.finished_of_emits alone start emits rfl rfl fun _ => ⟨by simp, ?_, ?_⟩
        · rintro _ ⟨⟩
          rw [same, unit]
          rfl
        · simp [Instruction.targets]
      · obtain ⟨rfl, returned⟩ := kind
        refine grown.finished_of_emits alone start emits rfl rfl fun falls => ?_
        rw [returned] at falls
        cases falls

/-- The body is lowered first. If control comes to its end, then nothing is to be returned, and this
is what is emitted there. -/
theorem lowerBody_later {f : Function} {u : Unit} (h : f.lowerBody S = .ok u S')
    (ready : S.emitter.Ready) (declared : S.context.returnType = S.emitter.returnType) :
    ∃ S₁, f.body.lower S = .ok () S₁ ∧ S.emitter.Later S₁.emitter ∧
      S₁.emitter.Later S'.emitter ∧
      (f.body.returns = false → f.header.returnType.isUnit = true ∧
        S₁.emitter.Emits (.ret none) S'.emitter) := by
  obtain ⟨S₁, lowered, h⟩ := lowerBody_eq_ok h
  have grown := f.body.lower_extends lowered ready declared
  refine ⟨S₁, lowered, grown.later, ?_⟩
  split at h
  · next terminated =>
    rw [h]
    refine ⟨.refl _, fun falls => ?_⟩
    rw [falls] at grown
    obtain ⟨b, found, isOpen⟩ := grown.ready.active.isOpen
    rw [Emitter.isTerminated, found, Option.any_some, isOpen] at terminated
    cases terminated
  · obtain ⟨i, e, emits, rfl, kind⟩ := h
    refine ⟨.of_emits emits, fun falls => ?_⟩
    split at kind
    · next unit => exact ⟨unit, kind ▸ emits⟩
    · rw [falls] at kind
      cases kind.2

/-- Lowering makes a well-formed function of every tree that it accepts. -/
theorem wellFormed_lower {f : Function} {signatures : SignatureTable} {g : Lir.Function}
    (h : f.lower signatures = .ok g) :
    g.WellFormed ∧ g.returnType = f.header.returnType := by
  obtain ⟨id, S₁, S₂, _, bound, body, rfl⟩ := lower_eq_ok h
  obtain ⟨ready, alone, start, declared, named⟩ := ready_bound bound
  obtain ⟨finished, returnType⟩ := finished_lowerBody body ready alone start declared named
  exact ⟨finished.wellFormed, returnType⟩

/-- `if a return 1; else return 2;`, which no parser makes for want of braces. -/
def unbraced : Function :=
  let at_ : Span := ⟨0, 0⟩
  let answer := fun n => Stmt.ret at_ (some (.literal at_ (.int n)))
  { header :=
      { name := ⟨"pick", at_⟩, params := [⟨⟨"a", at_⟩, .bool, at_⟩], returnType := .int,
        span := at_ }
    body := .ite at_ (.var at_ ⟨"a", at_⟩) (some (answer 1)) (some (answer 2))
    span := at_ }

/-- Nothing leads to the block after the conditional, which ends in a hole. -/
def unbracedGraph : Lir.Function where
  id := 0
  name := "pick"
  returnType := .int
  registers := .ofList [.bool]
  arguments := [0]
  blocks := .ofList
    [⟨0, "entry", [.branch (.reg 0) 1 2], .empty⟩,
      ⟨1, "then", [.ret (some (.imm (.int 1)))], .ofList [0]⟩,
      ⟨2, "else", [.ret (some (.imm (.int 2)))], .ofList [0]⟩,
      ⟨3, "cont", [.unreachable], .empty⟩]

theorem wellFormed_lower_unbraced :
    unbraced.lower ⟨.ofList [⟨0, "pick", [.bool], .int⟩], [("pick", 0)]⟩ = .ok unbracedGraph ∧
      unbracedGraph.WellFormed ∧ unbracedGraph.returnType = unbraced.header.returnType := by
  have lowered : unbraced.lower ⟨.ofList [⟨0, "pick", [.bool], .int⟩], [("pick", 0)]⟩ =
      .ok unbracedGraph := by
    decide +kernel
  exact ⟨lowered, wellFormed_lower lowered⟩

end Function

end Rill
