import Rill.Proofs.Lir.Flow
import Rill.Proofs.Lir.Typing

/-!
# Checking an expression is all it takes

Lowering checks the types of an expression again at every node it comes to. From a state
in which names can be used (`LowerState.Able`) the first of these checks decides: if it
fails then nothing has happened yet, and if it passes then so do all those inside, and no step
between them fails. This holds in the midst of any function, whatever the blocks around the
open one look like.
-/

namespace Rill

open Lir

namespace Lir.LowerState

variable {S S' : LowerState} {e : Emitter}

/-- Expressions can be lowered here: the names that can be seen have registers of their types,
context and emitter belong to the same function, and there is an open block. -/
structure Able (S : LowerState) : Prop where
  signatures : S.context.signatures = S.emitter.signatures
  bindings : ∀ name b, S.context.lookup name = .ok b → b.TypedIn S.emitter.registers
  handle : S.context.handle = some S.emitter.id
  isOpen : S.emitter.IsOpen

theorem Able.later (able : S.Able) (later : S.emitter.Later e) (isOpen : e.IsOpen) :
    Able ⟨S.context, e⟩ where
  signatures := able.signatures.trans later.header.1.symm
  bindings := fun name b found => (able.bindings name b found).mono later.registers
  handle := by
    rw [later.header.2.1]
    exact able.handle
  isOpen := isOpen

theorem Able.flows (able : S.Able) (flows : S.emitter.Flows false S'.emitter)
    (same : S'.context = S.context) : S'.Able := by
  have able' := able.later flows.later flows.isOpen
  rw [← same] at able'
  exact able'

/-- The value of an expression of this type can be had from the operand, and what was there before
is left alone, apart from instructions at the end of the block under the cursor. -/
structure Computes (S : LowerState) (ty : Ty) (operand : Operand) (S' : LowerState) : Prop where
  context : S'.context = S.context
  typed : operand.HasType S'.emitter.registers ty
  registers : S.emitter.registers.toList <+: S'.emitter.registers.toList
  kept : ∀ k b, S.emitter.blocks.get? k = some b → k ≠ S.emitter.cursor →
    S'.emitter.blocks.get? k = some b
  appends : S.emitter.Appends S'.emitter
  isOpen : S'.emitter.IsOpen

end Lir.LowerState

open Lir.LowerM

namespace Expr

theorem lower_able {S S' : LowerState} {e : Expr} {operand : Operand}
    (h : e.lower S = .ok operand S') (able : S.Able) : S'.Able :=
  able.flows (lower_flows e h able.isOpen) (lower_context e h)

mutual

/-- An expression that has a type is lowered. -/
theorem lower_safe {S : LowerState} : (e : Expr) → S.Able →
    LowerM.Safe (∃ ty, e.ty S.context = .ok ty) e.lower S
  | .literal .., _ => by
    simp only [lower]
    exact .pure _
  | .var _ name, able => by
    simp only [lower]
    refine .context_bind (.ofExcept_bind ?_ fun binding found => ?_)
    · rintro ⟨ty, typed⟩
      obtain ⟨binding, found, _⟩ := ty_var typed
      exact ⟨binding, found⟩
    · obtain ⟨r, register, _⟩ := able.bindings name binding found
      refine .ofExcept_bind (fun _ => ⟨r, registerOf_eq_ok.2 register⟩) fun _ _ => .pure _
  | .call span target args, able => by
    simp only [lower]
    refine .typeOf_bind id fun ty typed => ?_
    obtain ⟨signature, declared, count, checked, rfl⟩ := ty_call typed
    obtain ⟨id, handle, _⟩ := SignatureTable.lookup_eq_ok.1 declared
    have handle : S.emitter.handle? target.name = some id := by
      rw [able.signatures] at handle
      exact handle
    refine .bind_of_ok (get_eq_ok.2 ⟨rfl, rfl⟩) ?_
    simp only [handle]
    refine ((lowerAll_safe args able).imp fun _ => ⟨_, count, checked⟩).bind
      fun operands S₁ lowered => ?_
    have isOpen := (lowerAll_flows args lowered able.isOpen).isOpen
    split
    · exact .push_bind rfl isOpen fun _ _ => .pure _
    · exact .newRegister_bind (.push_bind rfl isOpen fun _ _ => .pure _)
  | .unary span op arg, able => by
    simp only [lower]
    refine .typeOf_bind id fun ty typed => ?_
    obtain ⟨known, _⟩ := ty_unary typed
    refine ((lower_safe arg able).imp fun _ => ⟨ty, known⟩).bind fun a S₁ lowered => ?_
    have isOpen := (lower_able lowered able).isOpen
    exact .newRegister_bind (.push_bind rfl isOpen fun _ _ => .pure _)
  | .binary span op lhs rhs, able => by
    simp only [lower]
    refine .typeOf_bind id fun ty typed => ?_
    obtain ⟨common, left, right, _⟩ := ty_binary typed
    refine ((lower_safe lhs able).imp fun _ => ⟨common, left⟩).bind fun a S₁ lowered => ?_
    have able₁ := lower_able lowered able
    have kept := lower_context lhs lowered
    refine ((lower_safe rhs able₁).imp fun _ => ⟨common, kept ▸ right⟩).bind
      fun b S₂ lowered' => ?_
    have isOpen := (lower_able lowered' able₁).isOpen
    exact .newRegister_bind (.push_bind rfl isOpen fun _ _ => .pure _)
  | .logic span op lhs rhs, able => by
    simp only [lower]
    refine .typeOf_bind id fun ty typed => ?_
    obtain ⟨left, right, rfl⟩ := ty_logic typed
    refine .newRegister_bind ?_
    have able₀ := able.later (.withRegister S.emitter .bool) able.isOpen
    refine ((lower_safe lhs able₀).imp fun _ => ⟨.bool, left⟩).bind fun a S₁ lowered => ?_
    have able₁ := lower_able lowered able₀
    have kept : S₁.context = S.context := by
      have kept := lower_context lhs lowered
      exact kept
    refine .push_bind rfl able₁.isOpen fun e₂ moves => ?_
    have able₂ := able₁.later (.of_emits moves)
      ((Emitter.Flows.refl able₁.isOpen).push moves rfl).isOpen
    -- Both operators go on in the same way after their branch.
    have onwards : ∀ e₃, ((e₂.withBlock op.rhsLabel).withBlock op.endLabel).Emits
        (op.branch a e₂.blocks.size (e₂.blocks.size + 1)) e₃ →
        LowerM.Safe (∃ ty, (logic span op lhs rhs).ty S.context = .ok ty) (do
          moveTo e₂.blocks.size
          let rhs ← rhs.lower
          push (.move S.emitter.registers.size rhs)
          jump (e₂.blocks.size + 1)
          moveTo (e₂.blocks.size + 1)
          return Operand.reg S.emitter.registers.size) { S₁ with emitter := e₃ } := by
      intro e₃ branches
      have leads := Emitter.leads_logic able₂.isOpen branches
      have able₃ := able₂.later (leads.later.trans (.moveTo ..))
        (leads.isOpen (Nat.le_refl _) (by omega))
      refine .moveTo_bind (((lower_safe rhs able₃).imp fun _ => ⟨.bool, kept ▸ right⟩).bind
        fun b S₄ lowered' => ?_)
      have flows' := lower_flows rhs lowered' able₃.isOpen
      refine .push_bind rfl flows'.isOpen fun e₅ moves' => ?_
      have there : e₂.blocks.size + 1 < e₅.blocks.size := by
        have size : e₃.blocks.size = e₂.blocks.size + 2 := leads.size
        have size' : e₃.blocks.size ≤ S₄.emitter.blocks.size := flows'.later.size
        have size'' := moves'.size
        omega
      exact .jump_bind (flows'.push moves' rfl).isOpen there fun e₆ _ => .moveTo_bind (.pure _)
    refine .functionAt_bind able₂.handle (.newBlock_bind (.newBlock_bind ?_))
    have isOpen := (able₂.isOpen.withBlock op.rhsLabel).withBlock op.endLabel
    have inside :
        e₂.blocks.size < ((e₂.withBlock op.rhsLabel).withBlock op.endLabel).blocks.size := by
      rw [Emitter.size_withBlock, Emitter.size_withBlock]
      omega
    simp only [Emitter.size_withBlock]
    cases op with
    | and => exact .branch_bind isOpen inside (by simp) onwards
    | or => exact .branch_bind isOpen (by simp) inside onwards

theorem lowerAll_safe {S : LowerState} : (es : List Expr) → S.Able →
    LowerM.Safe (∃ params, params.length = es.length ∧ checkArgs S.context es params = .ok ())
      (lowerAll es) S
  | [], _ => by
    simp only [lowerAll]
    exact .pure _
  | e :: es, able => by
    simp only [lowerAll]
    refine ((lower_safe e able).imp ?_).bind fun a S₁ lowered => ?_
    · rintro ⟨_ | ⟨param, params⟩, count, checked⟩
      · cases count
      · exact ⟨param, (checkArgs_cons checked).1⟩
    · refine ((lowerAll_safe es (lower_able lowered able)).imp ?_).bind fun _ _ _ => .pure _
      rw [lower_context e lowered]
      rintro ⟨_ | ⟨param, params⟩, count, checked⟩
      · cases count
      · exact ⟨params, Nat.succ.inj count, (checkArgs_cons checked).2⟩

end

theorem lowerOpt_safe {S : LowerState} {e : Option Expr} (able : S.Able) :
    LowerM.Safe (∀ value, e = some value → ∃ ty, value.ty S.context = .ok ty) (lowerOpt e) S := by
  cases e with
  | none => exact .pure none
  | some e =>
      simp only [lowerOpt]
      exact ((lower_safe e able).imp fun h => h e rfl).bind fun _ _ _ => .pure _

theorem typeOf_bind_of_error {α : Type} {S : LowerState} {e : Expr} {error : CompileError}
    (h : e.ty S.context = .error error) (next : Ty → LowerM α) :
    (typeOf e >>= next) S = .error (.error error) S := by
  have failed : typeOf e S = .error (.error error) S := by
    change ofExcept (e.ty S.context) S = _
    rw [h]
    rfl
  rw [bind_apply, failed]

/-- An expression without a type is not begun with. -/
theorem lower_of_ty_error {S : LowerState} {e : Expr} {error : CompileError}
    (h : e.ty S.context = .error error) : e.lower S = .error (.error error) S := by
  cases e with
  | literal => cases h
  | var span name =>
      have unbound : S.context.lookup name = .error error := by
        rw [Expr.ty, except_bind_eq_error] at h
        simpa [except_pure_eq_error] using h
      rw [lower]
      change (ofExcept (S.context.lookup name) >>= _) S = _
      rw [unbound]
      rfl
  | call | unary | binary | logic =>
      rw [lower]
      exact typeOf_bind_of_error h _

/-- The operand has the type of the expression. -/
theorem hasType_of_lower {S S' : LowerState} {e : Expr} {operand : Operand} {ty : Ty}
    (able : S.Able) (h : e.lower S = .ok operand S') (typed : e.ty S.context = .ok ty) :
    operand.HasType S'.emitter.registers ty := by
  cases e with
  | literal span value =>
      obtain ⟨rfl, rfl⟩ := lower_literal h
      rw [Expr.ty] at typed
      obtain rfl := Except.ok.inj typed
      rw [← Literal.ty_immediate]
      exact .imm value.immediate
  | var span name =>
      obtain ⟨binding, r, found, register, rfl, rfl⟩ := lower_var h
      obtain ⟨_, found', rfl⟩ := ty_var typed
      obtain rfl := Except.ok.inj (found.symm.trans found')
      obtain ⟨_, register', known⟩ := able.bindings name binding found
      obtain rfl := Option.some.inj (register.symm.trans register')
      exact .reg known
  | call span target args =>
      obtain ⟨_, _, _, S₁, e₂, typed', _, _, result, rfl⟩ := lower_call h
      obtain rfl := Except.ok.inj (typed.symm.trans typed')
      rcases result with ⟨unit, rfl, _⟩ | ⟨_, rfl, emits⟩
      · rw [show ty = .unit from eq_of_beq unit]
        exact .imm .unit
      · exact emits.hasType_register
  | unary span op arg =>
      obtain ⟨_, _, S₁, e₂, typed', _, emits, rfl, rfl⟩ := lower_unary h
      obtain rfl := Except.ok.inj (typed.symm.trans typed')
      exact emits.hasType_register
  | binary span op lhs rhs =>
      obtain ⟨_, _, _, _, S₂, e₃, typed', _, _, emits, rfl, rfl⟩ := lower_binary h
      obtain rfl := Except.ok.inj (typed.symm.trans typed')
      exact emits.hasType_register
  | logic span op lhs rhs =>
      obtain ⟨_, _, S₁, e₂, e₃, _, S₄, e₅, e₆, typed', left, moves, branches, right, moves', jumps,
        rfl, rfl⟩ := lower_logic h
      obtain ⟨_, _, rfl⟩ := ty_logic typed
      have flows := Emitter.flows_logic (lower_flows lhs left able.isOpen) moves branches
        (lower_flows rhs right) moves' jumps
      exact .reg (get?_mono flows.later.registers (Emitter.get?_withRegister ..))

theorem lower_computes {S S' : LowerState} {e : Expr} {operand : Operand} {ty : Ty}
    (able : S.Able) (h : e.lower S = .ok operand S') (typed : e.ty S.context = .ok ty) :
    S.Computes ty operand S' := by
  have flows := lower_flows e h able.isOpen
  refine ⟨lower_context e h, hasType_of_lower able h typed, flows.later.registers, ?_,
    flows.appends, flows.isOpen⟩
  intro k b found other
  rw [flows.kept k (Table.lt_size_of_get? found) other, found]

/-- Lowering an expression and checking it come to the same. If the check fails then lowering fails
with its error, before anything is changed; otherwise it computes a value of the type found. -/
theorem lower_checked {S : LowerState} (able : S.Able) (e : Expr) :
    (∀ failure T, e.lower S = .error failure T ↔
        ∃ error, e.ty S.context = .error error ∧ failure = .error error ∧ T = S) ∧
      ∀ ty, e.ty S.context = .ok ty →
        ∃ operand T, e.lower S = .ok operand T ∧ S.Computes ty operand T := by
  have accepts : ∀ ty, e.ty S.context = .ok ty → ∃ operand T, e.lower S = .ok operand T := by
    intro ty typed
    rcases lower_safe e able with done | ⟨wrong, _⟩
    · exact done
    · exact absurd ⟨ty, typed⟩ wrong
  refine ⟨fun failure T => ⟨fun failed => ?_, ?_⟩, fun ty typed => ?_⟩
  · cases checked : e.ty S.context with
    | error error =>
        rw [lower_of_ty_error checked] at failed
        cases failed
        exact ⟨error, rfl, rfl, rfl⟩
    | ok ty =>
        obtain ⟨operand, T', done⟩ := accepts ty checked
        rw [done] at failed
        cases failed
  · rintro ⟨error, checked, rfl, rfl⟩
    exact lower_of_ty_error checked
  · obtain ⟨operand, T, done⟩ := accepts ty typed
    exact ⟨operand, T, done, lower_computes able done typed⟩

section Witness

/-- The tree of `c && f(x) || x == 1`. -/
def sided : Expr :=
  .logic ⟨0, 19⟩ .or
    (.logic ⟨0, 9⟩ .and (.var ⟨0, 1⟩ ⟨"c", ⟨0, 1⟩⟩)
      (.call ⟨5, 9⟩ ⟨"f", ⟨5, 6⟩⟩ [.var ⟨7, 8⟩ ⟨"x", ⟨7, 8⟩⟩]))
    (.binary ⟨13, 19⟩ .eq (.var ⟨13, 14⟩ ⟨"x", ⟨13, 14⟩⟩) (.literal ⟨18, 19⟩ (.int 1)))

/-- The tree of `c || f(c)`, where `f` takes an integer. -/
def misled : Expr :=
  .logic ⟨0, 9⟩ .or (.var ⟨0, 1⟩ ⟨"c", ⟨0, 1⟩⟩)
    (.call ⟨5, 9⟩ ⟨"f", ⟨5, 6⟩⟩ [.var ⟨7, 8⟩ ⟨"c", ⟨7, 8⟩⟩])

/-- The outer `x` has no register yet and cannot be seen. Block 0 is not as lowering makes them. -/
def amid : LowerState where
  context :=
    { name := "g"
      returnType := .int
      signatures :=
        ⟨.ofList [⟨0, "g", [.bool], .int⟩, ⟨1, "f", [.int], .bool⟩], [("f", 1), ("g", 0)]⟩
      handle := some 0
      current := [("x", ⟨.int, some 1, ⟨30, 31⟩⟩)]
      outer := [[("x", ⟨.bool, none, ⟨20, 21⟩⟩), ("c", ⟨.bool, some 0, ⟨5, 6⟩⟩)]] }
  emitter :=
    { signatures :=
        ⟨.ofList [⟨0, "g", [.bool], .int⟩, ⟨1, "f", [.int], .bool⟩], [("f", 1), ("g", 0)]⟩
      id := 0
      name := "g"
      returnType := .int
      registers := .ofList [.bool, .int]
      arguments := [0]
      blocks := .ofList
        [⟨0, "entry", [.jump 5, .ret none], .ofList [7]⟩,
          ⟨1, "cont", [.move 1 (.imm (.int 1))], .empty⟩]
      cursor := 1 }

theorem amid_able : amid.Able where
  signatures := rfl
  bindings := by
    rintro ⟨name, span⟩ b found
    have found := Context.lookup_eq_ok.1 found
    by_cases inner : name = "x"
    · subst inner
      obtain rfl := Option.some.inj found
      exact ⟨1, rfl, rfl⟩
    · by_cases outer : name = "c"
      · subst outer
        obtain rfl := Option.some.inj found
        exact ⟨0, rfl, rfl⟩
      · simp [amid, Context.scopes, Scope.get?, inner, outer] at found
  handle := rfl
  isOpen := ⟨_, rfl, rfl⟩

theorem lower_checked_amid :
    amid.Able ∧
      (∃ operand T, sided.lower amid = .ok operand T ∧ amid.Computes .bool operand T) ∧
      misled.lower amid =
        .error (.error ⟨.typeMismatch .functionArgument .int .bool, ⟨7, 8⟩⟩) amid := by
  have declared : amid.context.signatures.lookup ⟨"f", ⟨5, 6⟩⟩ =
      .ok ⟨1, "f", [.int], .bool⟩ := by
    rfl
  refine ⟨amid_able, (lower_checked amid_able sided).2 .bool ?_,
    ((lower_checked amid_able misled).1 _ _).2 ⟨_, ?_, rfl, rfl⟩⟩
  · simp only [sided, Expr.ty, declared]
    rfl
  · simp only [misled, Expr.ty, declared]
    rfl

end Witness

end Expr

end Rill
