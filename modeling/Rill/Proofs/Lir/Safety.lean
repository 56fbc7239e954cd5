import Rill.Proofs.Lir.Growth

/-!
# Lowering without faults

`LowerM.Safe P` says two things at once about a computation: that it commits no fault,
and that it reports an error only if `P` does not hold. There is a rule for every step
that lowering takes. Emitting an instruction is without fault as long as the block under
the cursor is there and open.
-/

namespace Rill

open Lir

namespace Lir

namespace Emitter

variable {e : Emitter}

/-- There is a block under the cursor, and it has no terminator yet. -/
def IsOpen (e : Emitter) : Prop :=
  ∃ b, e.blocks.get? e.cursor = some b ∧ b.isTerminated = false

theorem Ready.isOpen (ready : e.Ready) : e.IsOpen :=
  ready.active.isOpen

theorem Extends.active_of {e' : Emitter} {returns : Bool} (grown : e.Extends returns e')
    (falls : returns = false) : e'.Active := by
  subst falls
  exact grown.ready.active

/-- There is a block under the cursor whatever has been lowered, so it is open if it has no
terminator. -/
theorem Extends.isOpen {e' : Emitter} {returns : Bool} (grown : e.Extends returns e')
    (h : e'.isTerminated = false) : e'.IsOpen := by
  have there : ∃ b, e'.blocks.get? e'.cursor = some b := by
    cases returns with
    | false =>
        obtain ⟨b, found, _⟩ := grown.ready.active.isOpen
        exact ⟨b, found⟩
    | true =>
        have ends : e'.Settled e'.cursor := grown.ends
        rcases ends with ⟨⟨b, found, _⟩, _⟩ | ⟨_, b, found, _⟩
        · exact ⟨b, found⟩
        · exact ⟨b, found⟩
  obtain ⟨b, found⟩ := there
  rw [isTerminated, found] at h
  exact ⟨b, found, h⟩

theorem IsOpen.withBlock (isOpen : e.IsOpen) (label : String) : (e.withBlock label).IsOpen := by
  obtain ⟨b, found, isOpen⟩ := isOpen
  exact ⟨b, Table.get?_push_of_get? found _, isOpen⟩

/-- An open block takes any instruction. -/
theorem exists_push (isOpen : e.IsOpen) (i : Instruction) :
    ∃ e', e.push i = .ok e' ∧ e'.blocks.size = e.blocks.size := by
  obtain ⟨b, found, isOpen⟩ := isOpen
  simp [push, found, isOpen]

/-- Only the target of a link has to be there. The source is noted in it. -/
theorem exists_link {source target : Nat} (there : target < e.blocks.size) :
    ∃ e', e.link source target = .ok e' ∧ e'.blocks.size = e.blocks.size := by
  simp [link, there]

theorem exists_jump (isOpen : e.IsOpen) {target : Nat} (there : target < e.blocks.size) :
    ∃ e', e.jump target = .ok e' := by
  obtain ⟨e₁, pushed, size⟩ := exists_push isOpen (.jump target)
  obtain ⟨e₂, linked, _⟩ := exists_link (e := e₁) (size ▸ there)
  exact ⟨e₂, except_bind_eq_ok.2 ⟨e₁, pushed, linked⟩⟩

/-- Both links of a branch are made, also if both go to one block. -/
theorem exists_branch (isOpen : e.IsOpen) (condition : Operand) {positive negative : Nat}
    (there : positive < e.blocks.size) (there' : negative < e.blocks.size) :
    ∃ e', e.branch condition positive negative = .ok e' := by
  obtain ⟨e₁, pushed, size⟩ := exists_push isOpen (.branch condition positive negative)
  obtain ⟨e₂, linked, size'⟩ := exists_link (e := e₁) (size ▸ there)
  obtain ⟨e₃, linked', _⟩ := exists_link (e := e₂) ((size'.trans size) ▸ there')
  exact ⟨e₃, except_bind_eq_ok.2 ⟨e₁, pushed, except_bind_eq_ok.2 ⟨e₂, linked, linked'⟩⟩⟩

end Emitter

namespace LowerM

variable {α β : Type} {P Q : Prop} {S : LowerState} {x : LowerM α} {f : α → LowerM β}

/-- The lowering commits no fault, and reports an error only if `P` does not hold. -/
def Safe (P : Prop) (x : LowerM α) (S : LowerState) : Prop :=
  (∃ a T, x S = .ok a T) ∨ ¬ P ∧ ∃ e T, x S = .error (.error e) T

namespace Safe

theorem of_ok {a : α} {T : LowerState} (h : x S = .ok a T) : Safe P x S :=
  .inl ⟨a, T, h⟩

/-- The more is assumed, the fewer errors are left to explain. -/
theorem imp (h : Safe P x S) (weaker : Q → P) : Safe Q x S := by
  rcases h with done | ⟨wrong, error⟩
  · exact .inl done
  · exact .inr ⟨fun q => wrong (weaker q), error⟩

theorem pure (a : α) : Safe P (Pure.pure a) S :=
  of_ok rfl

theorem throw {e : CompileError} (wrong : ¬ P) :
    Safe P (MonadExcept.throw (.error e) : LowerM α) S :=
  .inr ⟨wrong, e, S, rfl⟩

/-- Faults cannot arise in either step, and an error of either one refutes `P`. -/
theorem bind (first : Safe P x S) (next : ∀ a T, x S = .ok a T → Safe P (f a) T) :
    Safe P (x >>= f) S := by
  rcases first with ⟨a, T, h⟩ | ⟨wrong, e, T, h⟩
  · have step : (x >>= f) S = f a T := by rw [bind_apply, h]
    rw [Safe, step]
    exact next a T h
  · exact .inr ⟨wrong, e, T, by rw [bind_apply, h]⟩

/-- What would follow an error does not matter. -/
theorem throw_bind {e : CompileError} (wrong : ¬ P) :
    Safe P ((MonadExcept.throw (.error e) : LowerM α) >>= f) S :=
  bind (throw wrong) fun _ _ done => (throw_eq_ok.1 done).elim

theorem bind_of_ok {a : α} {T : LowerState} (h : x S = .ok a T) (next : Safe P (f a) T) :
    Safe P (x >>= f) S := by
  refine bind (of_ok h) fun a' T' h' => ?_
  obtain ⟨rfl, rfl⟩ := EStateM.Result.ok.inj (h.symm.trans h')
  exact next

theorem context_bind {f : Context → LowerM β} (next : Safe P (f S.context) S) :
    Safe P (LowerM.context >>= f) S :=
  bind_of_ok (context_eq_ok.2 ⟨rfl, rfl⟩) next

theorem setContext_bind {f : Unit → LowerM β} {ctx : Context}
    (next : Safe P (f ()) { S with context := ctx }) : Safe P (setContext ctx >>= f) S :=
  bind_of_ok (setContext_eq_ok.2 rfl) next

theorem newRegister_bind {f : Nat → LowerM β} {ty : Ty}
    (next : Safe P (f S.emitter.registers.size)
      { S with emitter := S.emitter.withRegister ty }) : Safe P (newRegister ty >>= f) S :=
  bind_of_ok (newRegister_eq_ok.2 ⟨rfl, rfl⟩) next

/-- A new block is for the function that is being lowered. For another one it would be a fault. -/
theorem newBlock_bind {f : Nat → LowerM β} {label : String}
    (next : Safe P (f S.emitter.blocks.size)
      { S with emitter := S.emitter.withBlock label }) :
    Safe P (newBlock S.emitter.id label >>= f) S :=
  bind_of_ok (newBlock_eq_ok.2 ⟨rfl, rfl, rfl⟩) next

theorem moveTo (block : Nat) : Safe P (LowerM.moveTo block) S :=
  of_ok (a := ()) (moveTo_eq_ok.2 rfl)

theorem moveTo_bind {f : Unit → LowerM β} {block : Nat}
    (next : Safe P (f ()) { S with emitter := S.emitter.moveTo block }) :
    Safe P (LowerM.moveTo block >>= f) S :=
  bind_of_ok (moveTo_eq_ok.2 rfl) next

theorem emit {step : Emitter → Except Fault Emitter} (h : ∃ e, step S.emitter = .ok e) :
    Safe P (LowerM.emit step) S := by
  obtain ⟨e, done⟩ := h
  exact of_ok (a := ()) (emit_eq_ok.2 ⟨e, done, rfl⟩)

theorem push {i : Instruction} (isOpen : S.emitter.IsOpen) : Safe P (LowerM.push i) S := by
  obtain ⟨e, pushed, _⟩ := Emitter.exists_push isOpen i
  exact emit ⟨e, pushed⟩

/-- Nothing is linked for an instruction without targets. -/
theorem push_bind {f : Unit → LowerM β} {i : Instruction} (plain : i.targets = [])
    (isOpen : S.emitter.IsOpen)
    (next : ∀ e, S.emitter.Emits i e → Safe P (f ()) { S with emitter := e }) :
    Safe P (LowerM.push i >>= f) S := by
  refine (push isOpen).bind fun _ T h => ?_
  obtain ⟨e, pushed, rfl⟩ := emit_eq_ok.1 h
  exact next e (Emitter.emits_push plain pushed)

theorem jump {target : Nat} (isOpen : S.emitter.IsOpen)
    (there : target < S.emitter.blocks.size) : Safe P (LowerM.jump target) S :=
  emit (Emitter.exists_jump isOpen there)

theorem jump_bind {f : Unit → LowerM β} {target : Nat} (isOpen : S.emitter.IsOpen)
    (there : target < S.emitter.blocks.size)
    (next : ∀ e, S.emitter.Emits (.jump target) e → Safe P (f ()) { S with emitter := e }) :
    Safe P (LowerM.jump target >>= f) S := by
  refine (jump isOpen there).bind fun _ T h => ?_
  obtain ⟨e, jumped, rfl⟩ := emit_eq_ok.1 h
  exact next e (Emitter.emits_jump jumped)

/-- A branch ends the block. Where lowering goes on is for the next step to say. -/
theorem branch_bind {f : Unit → LowerM β} {condition : Operand} {positive negative : Nat}
    (isOpen : S.emitter.IsOpen)
    (there : positive < S.emitter.blocks.size) (there' : negative < S.emitter.blocks.size)
    (next : ∀ e, S.emitter.Emits (.branch condition positive negative) e →
      Safe P (f ()) { S with emitter := e }) :
    Safe P (branch condition positive negative >>= f) S := by
  refine (emit (Emitter.exists_branch isOpen condition there there')).bind fun _ T h => ?_
  obtain ⟨e, branched, rfl⟩ := emit_eq_ok.1 h
  exact next e (Emitter.emits_branch branched)

/-- A check may fail if the assumption does not hold. -/
theorem ofExcept_bind {r : Except CompileError α} (h : P → ∃ a, r = .ok a)
    (next : ∀ a, r = .ok a → Safe P (f a) S) : Safe P (ofExcept r >>= f) S := by
  cases r with
  | ok a => exact bind_of_ok (ofExcept_eq_ok.2 ⟨rfl, rfl⟩) (next a rfl)
  | error e =>
      refine .inr ⟨fun p => ?_, e, S, rfl⟩
      obtain ⟨a, done⟩ := h p
      cases done

theorem typeOf_bind {f : Ty → LowerM β} {e : Expr} (h : P → ∃ ty, e.ty S.context = .ok ty)
    (next : ∀ ty, e.ty S.context = .ok ty → Safe P (f ty) S) : Safe P (typeOf e >>= f) S := by
  have split : typeOf e >>= f = LowerM.context >>= fun ctx => ofExcept (e.ty ctx) >>= f := by
    rw [typeOf, bind_assoc]
  rw [split]
  exact context_bind (ofExcept_bind h next)

theorem functionAt_bind {f : Nat → LowerM β} {span : Span} {id : Nat}
    (handle : S.context.handle = some id) (next : Safe P (f id) S) :
    Safe P (functionAt span >>= f) S := by
  refine bind_of_ok (functionAt_eq_ok.2 ⟨?_, rfl⟩) next
  rw [Context.handleAt, handle]

/-- As `ofExcept_bind`, for checks that keep track of scopes. -/
theorem check_bind {c : CheckM α} (h : P → ∃ a ctx, c S.context = .ok a ctx)
    (next : ∀ a ctx, c S.context = .ok a ctx → Safe P (f a) { S with context := ctx }) :
    Safe P (check c >>= f) S := by
  cases result : c S.context with
  | ok a ctx => exact bind_of_ok (check_eq_ok.2 ⟨ctx, result, rfl⟩) (next a ctx result)
  | error e ctx =>
      refine .inr ⟨fun p => ?_, e, { S with context := ctx }, ?_⟩
      · obtain ⟨a, ctx, done⟩ := h p
        rw [done] at result
        cases result
      · rw [bind_apply, check, result]

/-- The scope is left whether lowering succeeds or not. -/
theorem inScope (h : Safe P x { S with context := S.context.push }) :
    Safe P (LowerM.inScope x) S := by
  rcases h with ⟨a, T, done⟩ | ⟨wrong, e, T, failed⟩
  · exact of_ok (inScope_eq_ok.2 ⟨T, done, rfl⟩)
  · exact .inr ⟨wrong, e, { T with context := T.context.pop }, by rw [LowerM.inScope, failed]⟩

end Safe

end LowerM

end Lir

end Rill
