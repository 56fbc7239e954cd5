import Rill.Proofs.Lir.Execution
import Rill.Proofs.Lir.Layout
import Rill.Proofs.Lir.WellFormed
import Rill.Proofs.Tree.Typed

/-!
# Lowered code follows its tree

Control that comes to the place where lowering began, with registers that hold the
locals, follows what the tree does. It comes to the place where lowering ended with the
operand of an expression holding the value, and after a statement with registers that
hold the new locals. This is shown of one construct at a time, from the lemmas on how its
lowering went and the same of its parts, and then of every tree by induction.

An expression writes only registers that are new, so what its operands hold is still
there when they are used. Statements write the registers of locals, and nothing else
that was there before matters to them.
-/

namespace Rill

open Lir

variable {signatures : SignatureTable} {returnType : Ty} {oracle : Oracle} {blocks : Blocks}

namespace Lir

theorem Emitter.Later.registers_le {e e' : Emitter} (h : e.Later e') :
    e.registers.size ≤ e'.registers.size := by
  simpa using h.registers.length_le

/-- Everything is in place for a tree to be lowered, in a function that returns
`returnType`. -/
structure LowerState.Fits (S : LowerState) (signatures : SignatureTable) (returnType : Ty) :
    Prop where
  ready : S.emitter.Ready
  signatures : S.context.signatures = signatures ∧ S.emitter.signatures = signatures
  returnType : S.context.returnType = returnType ∧ S.emitter.returnType = returnType
  allotted : Allotted S.context.scopes S.emitter.registers.size

namespace LowerState.Fits

variable {S S' : LowerState}

theorem declared (fits : S.Fits signatures returnType) :
    S.context.returnType = S.emitter.returnType :=
  fits.returnType.1.trans fits.returnType.2.symm

theorem of_outer (fits : S.Fits signatures returnType)
    (outer : S'.context = { S.context with current := S'.context.current })
    (ready : S'.emitter.Ready) (later : S.emitter.Later S'.emitter)
    (allotted : Allotted S'.context.scopes S'.emitter.registers.size) :
    S'.Fits signatures returnType where
  ready := ready
  signatures := by
    rw [outer, later.header.1]
    exact fits.signatures
  returnType := by
    rw [outer, later.header.2.2.1]
    exact fits.returnType
  allotted := allotted

theorem later (fits : S.Fits signatures returnType) (same : S'.context = S.context)
    (ready : S'.emitter.Ready) (later : S.emitter.Later S'.emitter) :
    S'.Fits signatures returnType := by
  refine fits.of_outer (by rw [same]) ready later ?_
  rw [same]
  exact fits.allotted.mono later.registers_le

end LowerState.Fits

/-- The register that an operand reads, if any, is below `size`. -/
def Operand.Below (size : Nat) (operand : Operand) : Prop :=
  ∀ r, operand = .reg r → r < size

theorem Operand.Below.value_eq {operand : Operand} {size : Nat} (below : operand.Below size)
    {regs regs' : Nat → Value} (same : ∀ r < size, regs' r = regs r) :
    operand.value regs' = operand.value regs := by
  cases operand with
  | imm value => rfl
  | reg r => exact same r (below r rfl)

theorem Operand.value_update (operand : Operand) (regs : Nat → Value) (dest : Nat) :
    operand.value (Function.update regs dest (operand.value regs)) = operand.value regs := by
  cases operand with
  | imm value => rfl
  | reg r =>
      by_cases same : r = dest
      · subst same
        exact Function.update_self ..
      · exact Function.update_of_ne same ..

/-- Control has come from `s`, where the emitter was `e`, to `t`, where it is `e'` and the operands
have these values. -/
structure Evaluated (e e' : Emitter) (operands : List Operand) (s : State) (values : List Value)
    (t : State) : Prop where
  at_ : t.At e'
  values : operands.map (·.value t.regs) = values
  below : ∀ operand ∈ operands, operand.Below e'.registers.size
  kept : ∀ r < e.registers.size, t.regs r = s.regs r

namespace Evaluated

variable {e e₁ e₂ : Emitter} {a : Operand} {operands : List Operand} {s t u : State} {v : Value}
  {values : List Value}

theorem value (h : Evaluated e e₁ [a] s [v] t) : a.value t.regs = v := by
  simpa using h.values

theorem value? {source : Option Operand} {v : Option Value}
    (h : Evaluated e e₁ source.toList s v.toList t) : v = source.map (·.value t.regs) := by
  have values := h.values
  cases source <;> cases v <;> simp_all

theorem holds {S : LowerState} {env : Env} (h : Evaluated S.emitter e₁ operands s values t)
    (fits : S.Fits signatures returnType) (holds : Holds S.context.scopes s.regs env) :
    Holds S.context.scopes t.regs env :=
  holds.of_below fits.allotted h.kept

/-- Evaluating further expressions leaves the first operand its value. -/
theorem cons (first : Evaluated e e₁ [a] s [v] t) (rest : Evaluated e₁ e₂ operands t values u)
    (later : e.Later e₁) (later' : e₁.Later e₂) :
    Evaluated e e₂ (a :: operands) s (v :: values) u where
  at_ := rest.at_
  values := by
    have below := first.below a (List.mem_singleton_self a)
    rw [List.map_cons, rest.values, below.value_eq rest.kept, first.value]
  below := by
    intro operand mem
    rcases List.mem_cons.1 mem with rfl | mem
    · intro r reads
      have := first.below operand (List.mem_singleton_self operand) r reads
      exact Nat.lt_of_lt_of_le this later'.registers_le
    · exact rest.below operand mem
  kept := by
    intro r old
    rw [rest.kept r (Nat.lt_of_lt_of_le old later.registers_le), first.kept r old]

theorem record (h : Evaluated e e₁ operands s values t) (call : Call) :
    Evaluated e e₁ operands s values (t.record call) :=
  ⟨⟨h.at_.block, h.at_.done⟩, h.values, h.below, h.kept⟩

/-- The result of an instruction goes to a new register. -/
theorem result {ty : Ty} {i : Instruction} (h : Evaluated e e₁ operands s values t)
    (emits : (e₁.withRegister ty).Emits i e₂) (later : e.Later e₁) (v : Value) :
    Evaluated e e₂ [.reg e₁.registers.size] s [v] (t.write e₁.registers.size v) where
  at_ := emits.at_next ⟨h.at_.block, h.at_.done⟩ rfl rfl
  values := by simp [Operand.value, State.write]
  below := by
    have size : e₂.registers.size = e₁.registers.size + 1 := by
      rw [emits.rest]
      exact Table.size_push ..
    simp [Operand.Below, size]
  kept := by
    intro r old
    have other : r ≠ e₁.registers.size := Nat.ne_of_lt (Nat.lt_of_lt_of_le old later.registers_le)
    exact (Function.update_of_ne other _ _).trans (h.kept r old)

/-- A register that was new at the start is written where control comes together again. -/
theorem joined {k : Nat} (empty : e₁.code k = []) (below : e.registers.size < e₁.registers.size)
    (kept : ∀ r < e.registers.size, t.regs r = s.regs r) (v : Value) :
    Evaluated e (e₁.moveTo k) [.reg e.registers.size] s [v]
      ((t.write e.registers.size v).goto k) where
  at_ := Emitter.at_goto _ empty
  values := by simp [Operand.value, State.goto, State.write]
  below := by
    intro operand mem r reads
    obtain rfl := Operand.reg.inj ((List.mem_singleton.1 mem).symm.trans reads)
    exact below
  kept := by
    intro r old
    exact (Function.update_of_ne (Nat.ne_of_lt old) _ _).trans (kept r old)

end Evaluated

namespace Emitter

variable {e e' : Emitter} {k : Nat}

theorem Opens.at_ {count : Nat} {s : State} (opens : e.Opens count e') (ready : e.Ready)
    (at_ : s.At e) : s.At e' := by
  refine ⟨at_.block.trans opens.cursor.symm, ?_⟩
  rw [at_.done, opens.cursor, code, code, opens.old _ ready.active.lt_size]

theorem Forks.code_eq_nil {count : Nat} {targets : List Nat} (forks : e.Forks count targets e')
    (old : e.blocks.size ≤ k) (new : k < e.blocks.size + count) : e'.code k = [] := by
  obtain ⟨b, found, empty, _⟩ := forks.fresh k old new
  rw [code_of_get? found, empty]

theorem Arm.code_join {arm join : Nat} {returns : Bool} (h : e.Arm arm join returns e')
    (there : join < e.blocks.size) : e'.code join = e.code join := by
  obtain ⟨b, found⟩ := e.blocks.exists_get? there
  obtain ⟨b', found', same, _⟩ := h.joins b found
  rw [code_of_get? found', code_of_get? found, same]

theorem Arm.code_beside {arm join : Nat} {returns : Bool} (h : e.Arm arm join returns e')
    (there : k < e.blocks.size) (other : k ≠ arm) (elsewhere : k ≠ join) :
    e'.code k = e.code k := by
  rw [code, h.kept k there other elsewhere, code]

theorem GoesOn.later {returns : Bool} {target : Nat} (h : e.GoesOn returns target e') :
    e.Later e' := by
  cases returns with
  | true =>
      obtain rfl : e' = e := h
      exact .refl e'
  | false => exact .of_emits h

theorem Forks.code_branch {targets : List Nat} {a : Operand} {e₁ e₂ e₃ : Emitter}
    (forks : e.Forks 3 targets e₁) (condition : (e₁.moveTo e.blocks.size).Extends false e₂)
    (branches : e₂.Emits (.branch a (e.blocks.size + 1) (e.blocks.size + 2)) e₃)
    (target : k = e.blocks.size + 1 ∨ k = e.blocks.size + 2) : e₃.code k = [] := by
  obtain ⟨b, found, empty⟩ := forks.fresh_branch condition branches target
  rw [code_of_get? found, empty]

theorem Emits.move {dest : Nat} {a : Operand} {s : State} {v : Value}
    (h : e.Emits (.move dest a) e') (placed : e'.Placed blocks) (at_ : s.At e)
    (value : a.value s.regs = v) :
    blocks.step oracle s = .ok (s.write dest v) ∧ (s.write dest v).At e' := by
  subst value
  exact ⟨h.step placed at_, h.at_next at_ rfl rfl⟩

/-- A branch follows the truth of its condition. -/
theorem Emits.follows_truth {a : Operand} {positive negative : Nat} {s : State} {v : Value}
    (h : e.Emits (.branch a positive negative) e') (placed : e'.Placed blocks) (at_ : s.At e)
    (value : a.value s.regs = v) :
    blocks.Follows oracle s
      (fun b t => v = .bool b ∧ t = s.goto (if b then positive else negative))
      (EvalM.truth v s.calls) := by
  have step : blocks.step oracle s = _ := h.step placed at_
  simp only [Instruction.run, value] at step
  cases v with
  | bool b => exact ⟨_, .of_step step, rfl, rfl, rfl⟩
  | _ => exact .of_step step

theorem Emits.follows_decides {op : LogicOp} {a : Operand} {rhs join : Nat} {s : State} {v : Value}
    (h : e.Emits (op.branch a rhs join) e') (placed : e'.Placed blocks) (at_ : s.At e)
    (value : a.value s.regs = v) :
    blocks.Follows oracle s
      (fun b t => v = .bool b ∧ t = s.goto (if op.decides b then join else rhs))
      (EvalM.truth v s.calls) := by
  cases op with
  | or => exact h.follows_truth placed at_ value
  | and =>
      refine (h.follows_truth placed at_ value).onwards fun b t ⟨known, reached⟩ => ?_
      exact ⟨t, .refl t, rfl, known, by rw [reached]; cases b <;> rfl⟩

end Emitter

/-- The right side of a logical operator: its value is moved to the result, and control goes to
where it joins the left side. -/
theorem Blocks.Follows.join {e e₁ e₂ e₃ e₄ : Emitter} {b : Operand} {join : Nat} {s t : State}
    {r : EStateM.Result Ending (List Call) Value}
    (right : blocks.Follows oracle t (fun w => Evaluated e₁ e₂ [b] t [w]) r)
    (moves : e₂.Emits (.move e.registers.size b) e₃) (jumps : e₃.Emits (.jump join) e₄)
    (placed : e₄.Placed blocks) (joined : e₄.code join = []) (later : e.Later e₁)
    (below : e.registers.size < e₄.registers.size)
    (kept : ∀ r < e.registers.size, t.regs r = s.regs r) :
    blocks.Follows oracle t
      (fun w => Evaluated e (e₄.moveTo join) [.reg e.registers.size] s [w]) r := by
  refine right.onwards fun w u two => ?_
  obtain ⟨moved, at_⟩ : blocks.step oracle u = .ok (u.write e.registers.size w) ∧ _ :=
    moves.move (placed.of_later (.of_emits jumps)) two.at_ two.value
  have jumped : blocks.step oracle (u.write e.registers.size w) = _ := jumps.step placed at_
  refine ⟨_, (Goes.of_step moved).trans (.of_step jumped), rfl, .joined joined below ?_ w⟩
  intro r old
  rw [two.kept r (Nat.lt_of_lt_of_le old later.registers_le), kept r old]

end Lir

namespace Expr

theorem lower_fits {S S' : LowerState} {e : Expr} {operand : Operand}
    (h : e.lower S = .ok operand S') (fits : S.Fits signatures returnType) :
    S'.Fits signatures returnType := by
  have grown := lower_extends e h fits.ready
  exact fits.later (lower_context e h) grown.ready grown.later

/-- Control that comes to where the expression is lowered, with registers that hold the locals,
follows its evaluation. -/
def Followed (signatures : SignatureTable) (returnType : Ty) (oracle : Oracle) (blocks : Blocks)
    (e : Expr) : Prop :=
  ∀ ⦃S S' : LowerState⦄ ⦃operand : Operand⦄ ⦃env : Env⦄ ⦃s : State⦄, e.lower S = .ok operand S' →
    S.Fits signatures returnType → S'.emitter.Placed blocks → s.At S.emitter →
    Holds S.context.scopes s.regs env →
    blocks.Follows oracle s (fun v => Evaluated S.emitter S'.emitter [operand] s [v])
      (e.eval signatures oracle env s.calls)

/-- The same for expressions in a row. -/
def FollowedAll (signatures : SignatureTable) (returnType : Ty) (oracle : Oracle) (blocks : Blocks)
    (es : List Expr) : Prop :=
  ∀ ⦃S S' : LowerState⦄ ⦃operands : List Operand⦄ ⦃env : Env⦄ ⦃s : State⦄,
    lowerAll es S = .ok operands S' → S.Fits signatures returnType → S'.emitter.Placed blocks →
    s.At S.emitter → Holds S.context.scopes s.regs env →
    blocks.Follows oracle s (Evaluated S.emitter S'.emitter operands s)
      (evalAll signatures oracle env es s.calls)

section Constructors

variable {span : Span}

theorem followed_literal {value : Literal} :
    (literal span value).Followed signatures returnType oracle blocks := by
  intro S S' operand env s h _ _ at_ _
  obtain ⟨rfl, rfl⟩ := lower_literal h
  simp only [eval]
  exact .pure ⟨at_, rfl, by simp [Operand.Below], fun _ _ => rfl⟩

/-- A variable is already in its register. -/
theorem followed_var {name : Ident} :
    (var span name).Followed signatures returnType oracle blocks := by
  intro S S' operand env s h fits _ at_ holds
  obtain ⟨binding, r, found, register, rfl, rfl⟩ := lower_var h
  rw [Context.lookup_eq_ok] at found
  obtain ⟨entry, here, held⟩ := holds.lookup found
  simp only [eval, here]
  cases entry with
  | none => exact trivial
  | some v =>
      refine .pure ⟨at_, by simp [Operand.value, held v rfl r register], ?_, fun _ _ => rfl⟩
      obtain ⟨scope, mem, bound⟩ := List.exists_of_findSome?_eq_some found
      obtain ⟨r', register', below⟩ := (fits.allotted.each scope mem).registers _ _ bound
      obtain rfl := Option.some.inj (register.symm.trans register')
      simpa [Operand.Below] using below

/-- The arguments are evaluated from left to right, and then the call is made. -/
theorem followed_call {target : Ident} {args : List Expr}
    (inner : FollowedAll signatures returnType oracle blocks args) :
    (call span target args).Followed signatures returnType oracle blocks := by
  intro S S' operand env s h fits placed at_ holds
  obtain ⟨ty, function, operands, S₁, e₂, typed, handle, lowered, result, rfl⟩ := lower_call h
  simp only [eval]
  have grown := lowerAll_extends args lowered fits.ready
  have before : S₁.emitter.Placed blocks := by
    rcases result with ⟨_, _, emits⟩ | ⟨_, _, emits⟩
    · exact placed.of_later (.of_emits emits)
    · exact (placed.of_later (.of_emits emits)).of_later (.withRegister S₁.emitter ty)
  refine (inner lowered fits before at_ holds).bind fun vs t many => ?_
  obtain ⟨signature, declared, _, _, rfl⟩ := ty_call typed
  rw [fits.signatures.1] at declared
  rw [Emitter.handle?, fits.signatures.2] at handle
  simp only [EvalM.call, handle, declared]
  rcases result with ⟨unit, rfl, emits⟩ | ⟨value, rfl, emits⟩
  · have step : blocks.step oracle t = .ok (t.record ⟨function, vs⟩).next := by
      rw [emits.step placed many.at_, Instruction.run, many.values]
    refine ⟨_, .of_step step, rfl, ?_⟩
    rw [if_pos unit]
    exact ⟨emits.at_next many.at_ rfl rfl, rfl, by simp [Operand.Below], many.kept⟩
  · have step : blocks.step oracle t = .ok ((t.record ⟨function, vs⟩).write
        S₁.emitter.registers.size (oracle function vs t.calls)) := by
      rw [emits.step placed ⟨many.at_.block, many.at_.done⟩, Instruction.run, many.values]
    refine ⟨_, .of_step step, rfl, ?_⟩
    rw [if_neg (by simpa using value)]
    exact (many.record _).result emits grown.later _

theorem followed_unary {op : UnaryOp} {arg : Expr}
    (inner : arg.Followed signatures returnType oracle blocks) :
    (unary span op arg).Followed signatures returnType oracle blocks := by
  intro S S' operand env s h fits placed at_ holds
  obtain ⟨ty, a, S₁, e₂, _, lowered, emits, rfl, rfl⟩ := lower_unary h
  have later := (lower_extends arg lowered fits.ready).later
  have before := (placed.of_later (.of_emits emits)).of_later (.withRegister S₁.emitter ty)
  simp only [eval]
  refine (inner lowered fits before at_ holds).bind fun v t one => ?_
  have step : blocks.step oracle t = (op.onValue v).map (t.write S₁.emitter.registers.size) := by
    rw [emits.step placed ⟨one.at_.block, one.at_.done⟩, Instruction.run, one.value]
  refine .ofExcept step (fun _ => rfl) fun v' _ => ?_
  exact one.result emits later v'

theorem followed_binary {op : BinaryOp} {lhs rhs : Expr}
    (first : lhs.Followed signatures returnType oracle blocks)
    (second : rhs.Followed signatures returnType oracle blocks) :
    (binary span op lhs rhs).Followed signatures returnType oracle blocks := by
  intro S S' operand env s h fits placed at_ holds
  obtain ⟨ty, a, S₁, b, S₂, e₃, _, left, right, emits, rfl, rfl⟩ := lower_binary h
  have fits₁ := lower_fits left fits
  have later := (lower_extends lhs left fits.ready).later
  have later' := (lower_extends rhs right fits₁.ready).later
  have before := (placed.of_later (.of_emits emits)).of_later (.withRegister S₂.emitter ty)
  simp only [eval]
  refine (first left fits (before.of_later later') at_ holds).bind fun v t one => ?_
  have holds₁ := one.holds fits holds
  rw [← lower_context lhs left] at holds₁
  refine (second right fits₁ before one.at_ holds₁).bind fun w u two => ?_
  have both := one.cons two later later'
  have values : a.value u.regs = v ∧ b.value u.regs = w := by simpa using both.values
  have step : blocks.step oracle u =
      (op.onValues v w).map (u.write S₂.emitter.registers.size) := by
    rw [emits.step placed ⟨two.at_.block, two.at_.done⟩, Instruction.run, values.1, values.2]
  refine .ofExcept step (fun _ => rfl) fun v' _ => ?_
  exact both.result emits (later.trans later') v'

/-- The left side is moved to the register of the result. The right side takes its place there
unless the left one decides. -/
theorem followed_logic {op : LogicOp} {lhs rhs : Expr}
    (first : lhs.Followed signatures returnType oracle blocks)
    (second : rhs.Followed signatures returnType oracle blocks) :
    (logic span op lhs rhs).Followed signatures returnType oracle blocks := by
  intro S S' operand env s h fits placed at_ holds
  obtain ⟨_, a, S₁, e₂, e₃, b, S₄, e₅, e₆, _, left, moves, branches, right, moves', jumps, rfl,
    rfl⟩ := lower_logic h
  have begun : LowerState.Fits { S with emitter := S.emitter.withRegister .bool } signatures
      returnType :=
    fits.later rfl (Emitter.Extends.withRegister fits.ready .bool).ready (.withRegister ..)
  have fits₁ := lower_fits left begun
  have same := lower_context lhs left
  have grown := (Emitter.Extends.refl fits₁.ready).push moves rfl
  obtain ⟨_, forks, enters, _⟩ := Emitter.forks_logic grown.ready branches
  have size := forks.size
  have there := forks.ready (Nat.le_refl _) (by omega) enters
  have arm := ((lower_extends rhs right there).push moves' rfl).arm jumps (by omega) (by omega)
    (by omega)
  have later₁ := ((lower_extends lhs left begun.ready).later.trans grown.later).trans forks.later
  have later := (Emitter.Later.withRegister S.emitter .bool).trans later₁
  have fits₃ : LowerState.Fits { S₁ with emitter := e₃.moveTo e₂.blocks.size } signatures
      returnType :=
    fits.later same there (later.trans (.moveTo ..))
  have placed₆ : e₆.Placed blocks := placed
  have placed₃ := placed₆.of_later arm.later
  have placed₂ := placed₃.of_later forks.later
  have placed₄ := (placed₆.of_later (.of_emits jumps)).of_later (.of_emits moves')
  have below : S.emitter.registers.size < e₆.registers.size := by
    have := (later₁.trans arm.later).registers_le
    rw [Emitter.withRegister, Registers.size_push] at this
    exact this
  have joined : e₆.code (e₂.blocks.size + 1) = [] := by
    rw [arm.code_join (by omega)]
    exact forks.code_eq_nil (by omega) (by omega)
  have opens := ((Emitter.Opens.none grown.ready).withBlock op.rhsLabel).withBlock op.endLabel
  simp only [eval]
  refine (first left begun (placed₂.of_later (.of_emits moves)) ⟨at_.block, at_.done⟩
    holds).bind fun v t one => ?_
  -- The value of the left side is that of the whole, unless the right side is evaluated.
  obtain ⟨moved, at₂⟩ : blocks.step oracle t = .ok (t.write S.emitter.registers.size v) ∧ _ :=
    moves.move placed₂ one.at_ one.value
  have value : a.value (t.write S.emitter.registers.size v).regs = v := by
    have updated := a.value_update t.regs S.emitter.registers.size
    rwa [one.value] at updated
  refine .goes (.of_step moved) ?_
  refine (branches.follows_decides placed₃ (opens.at_ grown.ready at₂) value).bind ?_
  rintro truth _ ⟨rfl, rfl⟩
  have kept : ∀ r < S.emitter.registers.size, t.regs r = s.regs r := fun r old =>
    one.kept r (Nat.lt_of_lt_of_le old (Emitter.Later.withRegister ..).registers_le)
  cases op.decides truth with
  | true => exact .pure (.joined joined below kept (.bool truth))
  | false =>
      have kept' : ∀ r < S.emitter.registers.size,
          (t.write S.emitter.registers.size (.bool truth)).regs r = s.regs r := fun r old =>
        (Function.update_of_ne (Nat.ne_of_lt old) _ _).trans (kept r old)
      have holds₃ := holds.of_below fits.allotted kept'
      rw [← same] at holds₃
      have at₃ := Emitter.at_goto (t.write S.emitter.registers.size (.bool truth))
        (forks.code_eq_nil (Nat.le_refl _) (by omega))
      exact (second right fits₃ placed₄ at₃ holds₃).join moves' jumps placed₆ joined
        (later.trans (.moveTo ..)) below kept'

theorem followedAll_nil : FollowedAll signatures returnType oracle blocks [] := by
  intro S S' operands env s h _ _ at_ _
  obtain ⟨rfl, rfl⟩ := lowerAll_nil h
  simp only [evalAll]
  exact .pure ⟨at_, rfl, by simp, fun _ _ => rfl⟩

theorem followedAll_cons {e : Expr} {es : List Expr}
    (inner : e.Followed signatures returnType oracle blocks)
    (rest : FollowedAll signatures returnType oracle blocks es) :
    FollowedAll signatures returnType oracle blocks (e :: es) := by
  intro S S' operands env s h fits placed at_ holds
  obtain ⟨a, S₁, _, first, others, rfl⟩ := lowerAll_cons h
  have fits₁ := lower_fits first fits
  have later := (lower_extends e first fits.ready).later
  have later' := (lowerAll_extends es others fits₁.ready).later
  simp only [evalAll]
  refine (inner first fits (placed.of_later later') at_ holds).bind fun v t one => ?_
  have holds₁ := one.holds fits holds
  rw [← lower_context e first] at holds₁
  refine (rest others fits₁ placed one.at_ holds₁).bind fun vs u many => ?_
  exact .pure (one.cons many later later')

end Constructors

mutual

/-- What was lowered from an expression computes its value, makes its calls and fails as it does. -/
theorem follows : (e : Expr) → e.Followed signatures returnType oracle blocks
  | .literal .. => followed_literal
  | .var .. => followed_var
  | .call _ _ args => followed_call (followsAll args)
  | .unary _ _ arg => followed_unary (follows arg)
  | .binary _ _ lhs rhs => followed_binary (follows lhs) (follows rhs)
  | .logic _ _ lhs rhs => followed_logic (follows lhs) (follows rhs)

theorem followsAll : (es : List Expr) → FollowedAll signatures returnType oracle blocks es
  | [] => followedAll_nil
  | e :: es => followedAll_cons (follows e) (followsAll es)

end

theorem followsOpt {S S' : LowerState} {e : Option Expr} {source : Option Operand} {env : Env}
    {s : State} (h : lowerOpt e S = .ok source S') (fits : S.Fits signatures returnType)
    (placed : S'.emitter.Placed blocks) (at_ : s.At S.emitter)
    (holds : Holds S.context.scopes s.regs env) :
    blocks.Follows oracle s
      (fun v => Evaluated S.emitter S'.emitter source.toList s v.toList)
      (evalOpt signatures oracle env e s.calls) := by
  cases e with
  | none =>
      obtain ⟨rfl, rfl⟩ := lowerOpt_none h
      exact .pure ⟨at_, rfl, by simp, fun _ _ => rfl⟩
  | some e =>
      obtain ⟨a, lowered, rfl⟩ := lowerOpt_some h
      exact (follows e lowered fits placed at_ holds).bind fun v t one => .pure one

/-- A condition and the branch on it. -/
theorem follows_test {S S₁ : LowerState} {e e' : Emitter} {condition : Expr} {a : Operand}
    {positive negative count : Nat} {env : Env} {s : State} (h : condition.lower S = .ok a S₁)
    (fits : S.Fits signatures returnType) (opens : S₁.emitter.Opens count e)
    (branches : e.Emits (.branch a positive negative) e') (placed : e'.Placed blocks)
    (at_ : s.At S.emitter) (holds : Holds S.context.scopes s.regs env) :
    blocks.Follows oracle s
      (fun b t => ∃ u, t = State.goto u (if b then positive else negative) ∧
        Holds S.context.scopes u.regs env)
      (condition.test signatures oracle env s.calls) := by
  have placed₁ := (placed.of_later (.of_emits branches)).of_later opens.later
  refine (follows condition h fits placed₁ at_ holds).bind fun v t one => ?_
  have at₁ := opens.at_ (lower_fits h fits).ready one.at_
  refine (branches.follows_truth placed at₁ one.value).onwards fun b u ⟨_, reached⟩ => ?_
  exact ⟨u, .refl u, rfl, t, reached, one.holds fits holds⟩

end Expr

namespace Stmt

variable {rounds : Nat}

/-- The end of an arm, from where control goes on at `join` unless the arm returns. -/
theorem simulates_arm {scopes : List Scope} {e e' : Emitter} {unit : Bool} {join : Nat} {s : State}
    {arm : Stmt} {frame : Frame}
    (h : blocks.Simulates oracle rounds unit s
      (fun _ env t => t.At e ∧ Holds scopes t.regs env)
      (arm.exec signatures oracle rounds frame))
    (goes : e.GoesOn arm.returns join e') (placed : e'.Placed blocks) :
    blocks.Simulates oracle rounds unit s
      (fun _ env t => blocks.step oracle t = .ok (t.goto join) ∧ Holds scopes t.regs env)
      (arm.exec signatures oracle rounds frame) := by
  cases returned : arm.returns with
  | true => exact h.of_never fun _ _ => exec_ne_ok arm returned
  | false =>
      rw [returned] at goes
      have goes : e.Emits (.jump join) e' := goes
      refine h.onwards fun _ env t ⟨at_, holds⟩ => ?_
      exact ⟨t, .refl t, rfl, goes.step placed at_, holds⟩

/-- The same, with the jump. -/
theorem simulates_join {scopes : List Scope} {e e' e'' : Emitter} {unit : Bool} {join : Nat}
    {s : State} {arm : Stmt} {frame : Frame}
    (h : blocks.Simulates oracle rounds unit s
      (fun _ env t => t.At e ∧ Holds scopes t.regs env)
      (arm.exec signatures oracle rounds frame))
    (goes : e.GoesOn arm.returns join e') (placed : e'.Placed blocks)
    (joined : e''.code join = []) :
    blocks.Simulates oracle rounds unit s
      (fun _ env t => t.At (e''.moveTo join) ∧ Holds scopes t.regs env)
      (arm.exec signatures oracle rounds frame) := by
  refine (simulates_arm h goes placed).onwards fun _ env t ⟨jumps, holds⟩ => ?_
  exact ⟨_, .of_step jumps, rfl, Emitter.at_goto t joined, holds⟩

theorem Allots.at_ {S S' : LowerState} {name : Ident} {ty : Ty} {dest : Nat} {t : State}
    (h : Allots name ty S dest S') (at_ : t.At S.emitter) : t.At S'.emitter := by
  obtain ⟨_, _, _, ⟨_, rfl⟩ | ⟨_, _, rfl⟩⟩ := h
  · exact at_
  · exact ⟨at_.block, at_.done⟩

theorem allotted_decl {S S' : LowerState} {span : Span} {name : Ident} {written : Option Ty}
    {value : Option Expr} {u : Unit} (h : (decl span name written value).lower S = .ok u S')
    (fits : S.Fits signatures returnType) :
    Allotted S'.context.scopes S'.emitter.registers.size := by
  obtain ⟨_, source, S₁, _, S₂, _, lowered, allots, h⟩ := lower_decl h
  have allotted := fits.allotted.mono (Expr.lowerOpt_extends lowered fits.ready).later.registers_le
  rw [← Expr.lowerOpt_context lowered] at allotted
  have allotted' := allots.allotted allotted
  cases source with
  | none =>
      rw [h]
      exact allotted'
  | some a =>
      obtain ⟨e₃, emits, rfl⟩ := h
      exact allotted'.mono (Emitter.Later.of_emits emits).registers_le

/-- After a statement that control comes out of, everything is in place for the next one. -/
theorem lower_fits {S S' : LowerState} {s : Stmt} {u : Unit} (h : s.lower S = .ok u S')
    (contained : s.contained = true) (falls : s.returns = false)
    (fits : S.Fits signatures returnType) : S'.Fits signatures returnType := by
  have grown := lower_extends s h fits.ready fits.declared
  rw [falls] at grown
  have outer := lower_context s h
  refine fits.of_outer outer.1 grown.ready grown.later ?_
  cases isDecl : s.isDecl with
  | false =>
      rw [outer.2 contained isDecl]
      exact fits.allotted.mono grown.later.registers_le
  | true =>
      cases s with
      | decl span name written value => exact allotted_decl h fits
      | _ => cases isDecl

/-- Control that comes to where the statement is lowered, with registers that hold the locals,
follows its execution for so many rounds. -/
def Simulated (signatures : SignatureTable) (returnType : Ty) (oracle : Oracle) (blocks : Blocks)
    (rounds : Nat) (stmt : Stmt) : Prop :=
  ∀ ⦃S S' : LowerState⦄ ⦃u : Unit⦄ ⦃env : Env⦄ ⦃s : State⦄, stmt.lower S = .ok u S' →
    stmt.contained = true → S.Fits signatures returnType → S'.emitter.Placed blocks →
    s.At S.emitter → Holds S.context.scopes s.regs env →
    blocks.Simulates oracle rounds returnType.isUnit s
      (fun _ env t => t.At S'.emitter ∧ Holds S'.context.scopes t.regs env)
      (stmt.exec signatures oracle rounds ⟨env, s.calls⟩)

/-- The same for statements one after the other. -/
def SimulatedAll (signatures : SignatureTable) (returnType : Ty) (oracle : Oracle)
    (blocks : Blocks) (rounds : Nat) (ss : List Stmt) : Prop :=
  ∀ ⦃S S' : LowerState⦄ ⦃u : Unit⦄ ⦃env : Env⦄ ⦃s : State⦄, lowerAll ss S = .ok u S' →
    containedAll ss = true → S.Fits signatures returnType → S'.emitter.Placed blocks →
    s.At S.emitter → Holds S.context.scopes s.regs env →
    blocks.Simulates oracle rounds returnType.isUnit s
      (fun _ env t => t.At S'.emitter ∧ Holds S'.context.scopes t.regs env)
      (execAll signatures oracle rounds ss ⟨env, s.calls⟩)

section Constructors

variable {span : Span} {condition : Expr} {positive negative body : Stmt}

theorem simulated_ite (inner : positive.Simulated signatures returnType oracle blocks rounds) :
    (ite span condition (some positive) none).Simulated signatures returnType oracle blocks
      rounds := by
  intro S S' u env s h contained fits placed at_ holds
  obtain ⟨a, S₁, e₂, S₃, e₄, _, tested, branches, lowered, goes, rfl⟩ := lower_ite h
  simp only [Stmt.contained, containedOpt, Bool.and_eq_true, Bool.not_eq_true'] at contained
  have fits₁ := Expr.lower_fits tested fits
  have same := Expr.lower_context condition tested
  have forks := Emitter.forks_if fits₁.ready branches
  have there := forks.ready (Nat.le_refl _) (by omega) (by simp)
  have fits₂ : LowerState.Fits { S₁ with emitter := e₂.moveTo S₁.emitter.blocks.size } signatures
      returnType :=
    fits₁.later rfl there (forks.later.trans (.moveTo ..))
  have size := forks.size
  have arm := (lower_extends positive lowered there fits₂.declared).arm goes (by omega) (by omega)
    (by omega)
  have kept := (lower_context positive lowered).2 contained.1.2 contained.1.1
  have placed₄ : e₄.Placed blocks := placed
  have joined : e₄.code (S₁.emitter.blocks.size + 1) = [] := by
    rw [arm.code_join (by omega)]
    exact forks.code_eq_nil (by omega) (by omega)
  have opens := ((Emitter.Opens.none fits₁.ready).withBlock "then").withBlock "cont"
  simp only [exec]
  refine .bind (.ofEval (Expr.follows_test tested fits opens branches
    (placed₄.of_later arm.later) at_ holds)) ?_
  rintro b _ _ ⟨rfl, t, rfl, held⟩
  rw [← same] at held
  cases b with
  | true =>
      simp only [execOpt]
      have at₂ := Emitter.at_goto t (forks.code_eq_nil (Nat.le_refl _) (by omega))
      have run := inner lowered contained.1.2 fits₂ (placed₄.of_later goes.later) at₂ held
      exact simulates_join run goes placed₄ joined
  | false =>
      simp only [execOpt]
      refine .pure ⟨Emitter.at_goto t joined, ?_⟩
      rw [kept]
      exact held

/-- Control comes together behind the arms, or is gone if both return. -/
theorem simulated_ite_else (one : positive.Simulated signatures returnType oracle blocks rounds)
    (two : negative.Simulated signatures returnType oracle blocks rounds) :
    (ite span condition (some positive) (some negative)).Simulated signatures returnType oracle
      blocks rounds := by
  intro S S' u env s h contained fits placed at_ holds
  obtain ⟨a, S₁, e₂, S₃, e₄, S₅, e₆, _, tested, branches, first, goes, second, goes', rfl⟩ :=
    lower_ite_else h
  simp only [Stmt.contained, containedOpt, Bool.and_eq_true, Bool.not_eq_true'] at contained
  have fits₁ := Expr.lower_fits tested fits
  have same := Expr.lower_context condition tested
  have forks := Emitter.forks_if_else fits₁.ready branches
  have there := forks.ready (Nat.le_refl _) (by omega) (by simp)
  have fits₂ : LowerState.Fits { S₁ with emitter := e₂.moveTo S₁.emitter.blocks.size } signatures
      returnType :=
    fits₁.later rfl there (forks.later.trans (.moveTo ..))
  have size := forks.size
  have arm := (lower_extends positive first there fits₂.declared).arm goes (by omega) (by omega)
    (by omega)
  have kept := (lower_context positive first).2 contained.1.2 contained.1.1
  have there' := arm.ready (forks.ready (t := S₁.emitter.blocks.size + 1) (by omega) (by omega)
    (by simp)) (by omega) (by omega)
  have fits₄ : LowerState.Fits { S₃ with emitter := e₄.moveTo (S₁.emitter.blocks.size + 1) }
      signatures returnType :=
    fits₁.later kept there' ((forks.later.trans arm.later).trans (.moveTo ..))
  have size' := arm.later.size
  have arm' := (lower_extends negative second there' fits₄.declared).arm goes' (by omega)
    (by omega) (by omega)
  have kept' := (lower_context negative second).2 contained.2.2 contained.2.1
  have placed₆ : e₆.Placed blocks := placed
  have placed₄ := placed₆.of_later arm'.later
  have joined : e₆.code (S₁.emitter.blocks.size + 2) = [] := by
    rw [arm'.code_join (by omega), arm.code_join (by omega)]
    exact forks.code_eq_nil (by omega) (by omega)
  have opens :=
    (((Emitter.Opens.none fits₁.ready).withBlock "then").withBlock "else").withBlock "cont"
  simp only [exec]
  refine .bind (.ofEval (Expr.follows_test tested fits opens branches
    (placed₄.of_later arm.later) at_ holds)) ?_
  rintro b _ _ ⟨rfl, t, rfl, held⟩
  rw [← same] at held
  cases b with
  | true =>
      simp only [execOpt]
      have at₂ := Emitter.at_goto t (forks.code_eq_nil (Nat.le_refl _) (by omega))
      rw [kept']
      have inner := one first contained.1.2 fits₂ (placed₄.of_later goes.later) at₂ held
      exact simulates_join inner goes placed₄ joined
  | false =>
      simp only [execOpt]
      have empty : e₄.code (S₁.emitter.blocks.size + 1) = [] := by
        rw [arm.code_beside (by omega) (by omega) (by omega)]
        exact forks.code_eq_nil (by omega) (by omega)
      rw [← kept] at held
      have inner := two second contained.2.2 fits₄ (placed₆.of_later goes'.later)
        (Emitter.at_goto t empty) held
      exact simulates_join inner goes' placed₆ joined

theorem simulated_block {body : List Stmt}
    (inner : SimulatedAll signatures returnType oracle blocks rounds body) :
    (block span body).Simulated signatures returnType oracle blocks rounds := by
  intro S S' u env s h contained fits placed at_ holds
  obtain ⟨T, lowered, rfl⟩ := lower_block h
  simp only [Stmt.contained] at contained
  have fits' : LowerState.Fits { S with context := S.context.push } signatures returnType :=
    ⟨fits.ready, fits.signatures, fits.returnType, fits.allotted.push⟩
  have run := inner lowered contained fits' placed at_ holds.push
  simp only [exec]
  refine .inScope (run.onwards fun _ env t ⟨at', held⟩ => ⟨t, .refl t, rfl, at', ?_⟩)
  have outer := lowerAll_context body lowered
  rw [outer] at held ⊢
  exact held.tail

theorem simulated_decl {name : Ident} {written : Option Ty} {value : Option Expr} :
    (decl span name written value).Simulated signatures returnType oracle blocks rounds := by
  intro S S' u env s h _ fits placed at_ holds
  have allotted' := allotted_decl h fits
  obtain ⟨_, source, S₁, dest, S₂, _, lowered, allots, h⟩ := lower_decl h
  have grown := Expr.lowerOpt_extends lowered fits.ready
  have same := Expr.lowerOpt_context lowered
  have binds := allots.binds
  have later := (allots.extends (.refl grown.ready)).later
  have placed₂ : S₂.emitter.Placed blocks := by
    cases source with
    | none => exact h ▸ placed
    | some a =>
        obtain ⟨e₃, emits, rfl⟩ := h
        exact placed.of_later (.of_emits emits)
  simp only [exec]
  refine .bind (.ofEval (Expr.followsOpt lowered fits (placed₂.of_later later) at_ holds)) ?_
  rintro v _ t ⟨rfl, one⟩
  have held := one.holds fits holds
  rw [← same] at held
  obtain rfl := one.value?
  cases source with
  | none =>
      subst h
      exact ⟨t, .refl t, rfl, allots.at_ one.at_, binds.declare held fun _ _ _ _ => nofun⟩
  | some a =>
      obtain ⟨e₃, emits, rfl⟩ := h
      obtain ⟨step, at₃⟩ : blocks.step oracle t = .ok (t.write dest (a.value t.regs)) ∧ _ :=
        emits.move placed (allots.at_ one.at_) rfl
      exact ⟨_, .of_step step, rfl, at₃, binds.holds_some allotted' held (a.value t.regs)⟩

theorem simulated_assign {target : Ident} {value : Expr} :
    (assign span target value).Simulated signatures returnType oracle blocks rounds := by
  intro S S' u env s h _ fits placed at_ holds
  obtain ⟨binding, dest, a, S₁, e₂, found, _, register, lowered, emits, rfl⟩ := lower_assign h
  have same := Expr.lower_context value lowered
  have placed₁ := placed.of_later (.of_emits emits)
  simp only [exec]
  refine .bind (.ofEval (Expr.follows value lowered fits placed₁ at_ holds)) ?_
  rintro v _ t ⟨rfl, one⟩
  rw [Context.lookup_eq_ok] at found
  obtain ⟨env', assigned, holds'⟩ :=
    (one.holds fits holds).assign fits.allotted found register v
  obtain ⟨step, at₂⟩ : blocks.step oracle t = .ok (t.write dest v) ∧ _ :=
    emits.move placed one.at_ one.value
  simp only [ExecM.assign, assigned]
  refine ⟨_, .of_step step, rfl, at₂, ?_⟩
  rw [same]
  exact holds'

theorem simulated_ret {value : Option Expr} :
    (ret span value).Simulated signatures returnType oracle blocks rounds := by
  intro S S' u env s h _ fits placed at_ holds
  obtain ⟨source, S₁, e₂, typed, lowered, emits, rfl⟩ := lower_ret h
  have placed₁ := placed.of_later (.of_emits emits)
  have isSome := (proper_ret typed lowered).returns _ rfl
  rw [fits.returnType.1] at emits isSome
  simp only [exec]
  refine .bind (.ofEval (Expr.followsOpt lowered fits placed₁ at_ holds)) ?_
  rintro v _ t ⟨rfl, one⟩
  have step : blocks.step oracle t = _ := emits.step placed one.at_
  obtain rfl := one.value?
  cases unit : returnType.isUnit with
  | true =>
      rw [unit] at step
      exact .of_step step
  | false =>
      rw [unit] at step isSome
      obtain ⟨a, rfl⟩ := Option.isSome_iff_exists.1 isSome
      exact .of_step step

/-- Control comes back to the block of the condition with each round, in a state that fits the start
of the next one. -/
theorem simulated_loop (inner : body.Simulated signatures returnType oracle blocks rounds) :
    (loop span condition body).Simulated signatures returnType oracle blocks rounds := by
  intro S S' u env s h contained fits placed at_ holds
  obtain ⟨e₁, a, S₂, e₃, S₄, e₅, _, jumps, tested, branches, lowered, goes, rfl⟩ := lower_loop h
  simp only [Stmt.contained, Bool.and_eq_true, Bool.not_eq_true'] at contained
  have forks := Emitter.forks_loop fits.ready jumps
  have there := forks.ready (Nat.le_refl _) (by omega) (by simp)
  have fits₁ : LowerState.Fits { S with emitter := e₁.moveTo S.emitter.blocks.size } signatures
      returnType :=
    fits.later rfl there (forks.later.trans (.moveTo ..))
  have fits₂ := Expr.lower_fits tested fits₁
  have same := Expr.lower_context condition tested
  have grown := Expr.lower_extends condition tested there
  have there' := forks.ready_branch grown branches (.inl rfl)
  have fits₃ : LowerState.Fits { S₂ with emitter := e₃.moveTo (S.emitter.blocks.size + 1) }
      signatures returnType :=
    fits₂.later rfl there' ((Emitter.Later.of_emits branches).trans (.moveTo ..))
  have size := forks.size
  have size' : e₁.blocks.size ≤ e₃.blocks.size :=
    Nat.le_trans grown.later.size (Nat.le_of_eq branches.size.symm)
  have arm := (lower_extends body lowered there' fits₃.declared).arm goes (by omega) (by omega)
    (Nat.ne_of_gt fits.ready.sound.size_pos)
  have kept := (lower_context body lowered).2 contained.2 contained.1
  have placed₅ : e₅.Placed blocks := placed
  have placed₃ := placed₅.of_later arm.later
  have placed₁ : e₁.Placed blocks :=
    (placed₃.of_later (.of_emits branches)).of_later ((Emitter.Later.moveTo ..).trans grown.later)
  have behind : e₅.code (S.emitter.blocks.size + 2) = [] := by
    rw [arm.code_beside (by omega) (by omega) (by omega)]
    exact forks.code_branch grown branches (.inr rfl)
  -- The test leads from the head into the body or behind the loop, and the body back to the head.
  have test : ∀ env (s : State), Holds S.context.scopes s.regs env →
      blocks.Simulates oracle rounds returnType.isUnit (s.goto S.emitter.blocks.size)
        (fun b env t => if b
          then t.At (e₃.moveTo (S.emitter.blocks.size + 1)) ∧ Holds S₂.context.scopes t.regs env
          else t.At (e₅.moveTo (S.emitter.blocks.size + 2)) ∧ Holds S₄.context.scopes t.regs env)
        (ExecM.ofEval (condition.test signatures oracle) ⟨env, s.calls⟩) := by
    intro env s held
    refine (Blocks.Simulates.ofEval (Expr.follows_test tested fits₁ (.none fits₂.ready) branches
      placed₃ (Emitter.at_goto s (forks.code_eq_nil (Nat.le_refl _) (by omega))) held)).onwards ?_
    rintro b _ _ ⟨rfl, t, rfl, held'⟩
    refine ⟨_, .refl _, rfl, ?_⟩
    rw [kept, same]
    cases b with
    | true => exact ⟨Emitter.at_goto t (forks.code_branch grown branches (.inl rfl)), held'⟩
    | false => exact ⟨Emitter.at_goto t behind, held'⟩
  have run : ∀ env (s : State), s.At (e₃.moveTo (S.emitter.blocks.size + 1)) ∧
        Holds S₂.context.scopes s.regs env →
      blocks.Simulates oracle rounds returnType.isUnit s
        (fun _ env t => blocks.step oracle t = .ok (t.goto S.emitter.blocks.size) ∧
          Holds S.context.scopes t.regs env)
        (body.exec signatures oracle rounds ⟨env, s.calls⟩) := by
    rintro env s ⟨at', held⟩
    have inside := inner lowered contained.2 fits₃ (placed₅.of_later goes.later) at' held
    have jumps' := simulates_arm inside goes placed₅
    rw [kept, same] at jumps'
    exact jumps'
  have opens := (((Emitter.Opens.none fits.ready).withBlock "while_cond").withBlock
    "while_body").withBlock "while_end"
  simp only [exec]
  exact .loop test run (Nat.le_refl rounds)
    (jumps.step placed₁ (opens.at_ fits.ready at_)) holds

theorem simulated_eval {value : Expr} :
    (eval span value).Simulated signatures returnType oracle blocks rounds := by
  intro S S' u env s h _ fits placed at_ holds
  obtain ⟨a, lowered⟩ := lower_eval h
  have same := Expr.lower_context value lowered
  simp only [exec]
  refine .bind (.ofEval (Expr.follows value lowered fits placed at_ holds)) ?_
  rintro v _ t ⟨rfl, one⟩
  refine .pure ⟨one.at_, ?_⟩
  rw [same]
  exact one.holds fits holds

theorem simulated_skip : (skip span).Simulated signatures returnType oracle blocks rounds := by
  intro S S' u env s h _ _ _ at_ holds
  rw [lower_skip h]
  simp only [exec]
  exact .pure ⟨at_, holds⟩

theorem simulatedAll_nil : SimulatedAll signatures returnType oracle blocks rounds [] := by
  intro S S' u env s h _ _ _ at_ holds
  rw [lowerAll_nil h]
  simp only [execAll]
  exact .pure ⟨at_, holds⟩

theorem simulatedAll_cons {stmt : Stmt} {rest : List Stmt}
    (one : stmt.Simulated signatures returnType oracle blocks rounds)
    (others : SimulatedAll signatures returnType oracle blocks rounds rest) :
    SimulatedAll signatures returnType oracle blocks rounds (stmt :: rest) := by
  intro S S' u env s h contained fits placed at_ holds
  obtain ⟨S₁, first, h⟩ := lowerAll_cons h
  simp only [containedAll, Bool.and_eq_true] at contained
  simp only [execAll]
  cases returned : stmt.returns with
  | true =>
      rw [returned, if_pos rfl] at h
      subst h
      have inner := one first contained.1 fits placed at_ holds
      exact .bind (inner.of_never fun _ _ => exec_ne_ok stmt returned)
        fun _ _ _ (never : False) => never.elim
  | false =>
      rw [returned, if_neg Bool.false_ne_true] at h
      have fits₁ := lower_fits first contained.1 returned fits
      have later := (lowerAll_extends rest h fits₁.ready fits₁.declared).later
      refine .bind (one first contained.1 fits (placed.of_later later) at_ holds) ?_
      exact fun _ env t ⟨at', held⟩ => others h contained.2 fits₁ placed at' held

end Constructors

mutual

/-- What was lowered from a statement does what the statement does. -/
theorem simulates : (stmt : Stmt) → stmt.Simulated signatures returnType oracle blocks rounds
  | .ite _ _ none _ => fun _ _ _ _ _ h => absurd h not_lower_ite_none
  | .ite _ _ (some positive) none => simulated_ite (simulates positive)
  | .ite _ _ (some positive) (some negative) =>
    simulated_ite_else (simulates positive) (simulates negative)
  | .block _ body => simulated_block (simulatesAll body)
  | .decl .. => simulated_decl
  | .assign .. => simulated_assign
  | .ret .. => simulated_ret
  | .loop _ _ body => simulated_loop (simulates body)
  | .eval .. => simulated_eval
  | .skip _ => simulated_skip

theorem simulatesAll : (ss : List Stmt) →
    SimulatedAll signatures returnType oracle blocks rounds ss
  | [] => simulatedAll_nil
  | stmt :: rest => simulatedAll_cons (simulates stmt) (simulatesAll rest)

end

end Stmt

end Rill
