import Rill.Proofs.Lir.Checked
import Rill.Proofs.Tree.WellTyped

/-!
# Lowering goes through

From a state in which everything is in place (`LowerState.Prepared`), lowering commits
no fault, whatever the tree is like: blocks are made in the function that is being
lowered, and every instruction comes to a block that is there and still open. If lowering
reports an error then the tree is not well typed.
-/

namespace Rill

open Lir

namespace Lir

/-- Everything is in place for a tree to be lowered. -/
structure LowerState.Prepared (S : LowerState) : Prop where
  ready : S.emitter.Ready
  typed : S.Typed
  handle : S.context.handle = some S.emitter.id

theorem LowerState.Prepared.of_advances {S S' : LowerState} (prepared : S.Prepared)
    (advances : S.Advances S')
    (outer : S'.context = { S.context with current := S'.context.current })
    (ready : S'.emitter.Ready) : S'.Prepared where
  ready := ready
  typed := advances.typed
  handle := by
    rw [outer, advances.later.header.2.1]
    exact prepared.handle

theorem LowerState.Prepared.able {S : LowerState} (prepared : S.Prepared) : S.Able where
  signatures := prepared.typed.signatures
  bindings := fun _ _ found => prepared.typed.lookup found
  handle := prepared.handle
  isOpen := prepared.ready.isOpen

end Lir

open Lir.LowerM

theorem Expr.lower_prepared {S S' : LowerState} {e : Expr} {operand : Operand}
    (h : e.lower S = .ok operand S') (prepared : S.Prepared) : S'.Prepared :=
  prepared.of_advances (lower_advances e h prepared.typed).1 (lower_outer h)
    (lower_extends e h prepared.ready).ready

namespace Stmt

theorem lower_prepared {S S' : LowerState} {s : Stmt} {u : Unit} (h : s.lower S = .ok u S')
    (prepared : S.Prepared) (falls : s.returns = false) : S'.Prepared := by
  have grown := lower_extends s h prepared.ready prepared.typed.returnType
  rw [falls] at grown
  exact prepared.of_advances (lower_advances s h prepared.typed) (lower_context s h).1 grown.ready

theorem Allots.declares {S S' : LowerState} {name : Ident} {ty : Ty} {dest : Nat}
    (h : Allots name ty S dest S') : S.context.Declares name.name ty S'.context := by
  refine ⟨h.context, fun n => ?_⟩
  obtain ⟨b, bound, rfl, _⟩ := h.binds.bound
  split
  · next same =>
    rw [same, Scope.typeOf?, bound]
    rfl
  · next other => rw [Scope.typeOf?, Scope.typeOf?, h.binds.others n other]

/-- A well-typed statement other than a declaration leaves the context alone. -/
theorem WellTyped.lower_context {S S' : LowerState} {u : Unit} : (s : Stmt) →
    s.WellTyped S.context → s.isDecl = false → s.lower S = .ok u S' → S'.context = S.context
  | .ite _ condition (some positive) none, .ite _ plain first, _, h => by
    obtain ⟨_, S₁, _, S₃, _, _, tested, _, lowered, _, rfl⟩ := lower_ite h
    have same := Expr.lower_context condition tested
    have kept := WellTyped.lower_context positive (same ▸ first) plain lowered
    exact kept.trans same
  | .ite _ condition (some positive) (some negative), .iteElse _ plain first plain' second, _,
      h => by
    obtain ⟨_, S₁, _, S₃, _, S₅, _, _, tested, _, lowered, _, lowered', _, rfl⟩ := lower_ite_else h
    have same := Expr.lower_context condition tested
    have kept := WellTyped.lower_context positive (same ▸ first) plain lowered
    have same' : S₃.context = S.context := kept.trans same
    have kept' := WellTyped.lower_context negative (same' ▸ second) plain' lowered'
    exact kept'.trans same'
  | .loop _ condition body, .loop _ plain inside, _, h => by
    obtain ⟨_, _, S₂, _, S₄, _, _, _, tested, _, lowered, _, rfl⟩ := lower_loop h
    have same : S₂.context = S.context := by
      have same := Expr.lower_context condition tested
      exact same
    have kept := WellTyped.lower_context body (same ▸ inside) plain lowered
    exact kept.trans same
  | .block _ body, _, _, h => by
    obtain ⟨T, lowered, rfl⟩ := lower_block h
    change T.context.pop = S.context
    rw [lowerAll_context body lowered]
    rfl
  | .assign .., _, plain, h | .ret .., _, plain, h | .eval .., _, plain, h | .skip _, _, plain, h =>
    (Stmt.lower_context _ h).2 (by simp only [contained]) plain

/-- What lowering a declaration does to the types of names is what binding its name does. -/
theorem lower_agrees {S S' : LowerState} {s : Stmt} {ctx : Context} {u v : Unit}
    (kept : s.isDecl = false → S'.context = S.context) (lowered : s.lower S = .ok u S')
    (bound : s.bindLocal S.context = .ok v ctx) : ctx.Agrees true S'.context := by
  cases isDecl : s.isDecl with
  | false =>
      rw [bindLocal_of_isDecl_eq_false isDecl] at bound
      cases bound
      rw [kept isDecl]
      exact .refl _
  | true =>
      cases s with
      | decl span name written value =>
          obtain ⟨ty, binding, typed, declared⟩ := bindLocal_decl.1 bound
          obtain ⟨ty', source, S₁, dest, S₂, typed', lowered, allots, h⟩ := lower_decl lowered
          obtain rfl := Except.ok.inj (typed.symm.trans typed')
          have same : S'.context = S₂.context := by
            cases source with
            | none => rw [h]
            | some a =>
                obtain ⟨_, _, rfl⟩ := h
                rfl
          have allotted := allots.declares
          rw [Expr.lowerOpt_context lowered, ← same] at allotted
          exact (Context.declares_of_declare declared).agrees (.refl _) allotted
      | ite | block | assign | ret | loop | eval | skip => cases isDecl

theorem returnType_of_lower {S S' : LowerState} {s : Stmt} {r : Option Ty} {u : Unit}
    (typed : s.WellTyped S.context) (lowered : s.lower S = .ok u S')
    (analysed : s.returnType S.context = .ok r S.context) :
    s.returnType S'.context = .ok r S'.context := by
  cases isDecl : s.isDecl with
  | false =>
      rw [WellTyped.lower_context s typed isDecl lowered]
      exact analysed
  | true =>
      cases s with
      | decl =>
          simp only [returnType, pure_eq_ok, and_true] at analysed ⊢
          exact analysed
      | ite | block | assign | ret | loop | eval | skip => cases isDecl

section Steps

variable {β : Type} {P : Prop} {S : LowerState} {f : Unit → LowerM β}

theorem checkCondition_bind {boundary : Boundary} {condition : Expr}
    (h : P → condition.ty S.context = .ok .bool)
    (next : condition.ty S.context = .ok .bool → LowerM.Safe P (f ()) S) :
    LowerM.Safe P (checkCondition boundary condition >>= f) S := by
  by_cases typed : condition.ty S.context = .ok .bool
  · exact .bind_of_ok (checkCondition_eq_ok.2 ⟨typed, rfl⟩) (next typed)
  · refine LowerM.Safe.bind ?_ fun _ _ done => absurd (checkCondition_eq_ok.1 done).1 typed
    rw [checkCondition]
    refine .typeOf_bind (fun p => ⟨.bool, h p⟩) fun ty known => ?_
    have other : ty ≠ .bool := by
      rintro rfl
      exact typed known
    simp only [if_pos other]
    exact .throw fun p => typed (h p)

theorem jumpAfter_bind {s : Stmt} {target : Nat}
    (analysed : P → ∃ r ctx, s.returnType S.context = .ok r ctx)
    (active : s.returns = false → S.emitter.Active) (there : target < S.emitter.blocks.size)
    (next : ∀ e, S.emitter.GoesOn s.returns target e →
      LowerM.Safe P (f ()) { S with emitter := e }) :
    LowerM.Safe P (s.jumpAfter target >>= f) S := by
  refine LowerM.Safe.bind ?_ fun _ T done => ?_
  · rw [jumpAfter]
    refine .check_bind analysed fun r ctx done => ?_
    obtain ⟨rfl, found⟩ := returnType_eq_ok s done
    cases r with
    | some ty => exact .pure ()
    | none => exact .jump (active found.symm).isOpen there
  · obtain ⟨e, goes, rfl⟩ := jumpAfter_eq_ok done
    exact next e goes

/-- A branch or the body of a loop, after which control goes on at `join`. -/
theorem arm_bind {s : Stmt} {join : Nat} (prepared : S.Prepared)
    (lowers : LowerM.Safe (s.WellTyped S.context) s.lower S)
    (rules : P → s.isDecl = false ∧ s.WellTyped S.context) (there : join < S.emitter.blocks.size)
    (next : ∀ S₁ e, s.lower S = .ok () S₁ → S₁.emitter.GoesOn s.returns join e →
      LowerM.Safe P (f ()) { S₁ with emitter := e }) :
    LowerM.Safe P (s.lower >>= fun _ => s.jumpAfter join >>= f) S := by
  refine (lowers.imp fun h => (rules h).2).bind fun _ S₁ lowered => ?_
  have grown := lower_extends s lowered prepared.ready prepared.typed.returnType
  refine jumpAfter_bind (fun h => ?_) grown.active_of (Nat.lt_of_lt_of_le there grown.later.size)
    fun e goes => next S₁ e lowered goes
  obtain ⟨plain, typed⟩ := rules h
  obtain ⟨r, analysed, _⟩ := WellTyped.returnType_eq s typed
  rw [WellTyped.lower_context s typed plain lowered]
  exact ⟨r, S.context, analysed⟩

end Steps

section Constructors

variable {S : LowerState} {span : Span}

theorem assign_safe {target : Ident} {value : Expr} (prepared : S.Prepared) :
    LowerM.Safe ((assign span target value).WellTyped S.context) (assign span target value).lower
      S := by
  have rules : ∀ binding, S.context.lookup target = .ok binding →
      (assign span target value).WellTyped S.context →
        value.ty S.context = .ok binding.ty := by
    intro binding found h
    cases h with
    | assign known typed =>
        obtain ⟨b, found', rfl⟩ := Context.typeOf?_eq_some_iff.1 known
        obtain rfl := Except.ok.inj (found.symm.trans found')
        exact typed
  simp only [lower, lowerAssign]
  refine .context_bind (.ofExcept_bind (fun h => ?_) fun binding found => ?_)
  · cases h with
    | assign known _ =>
        obtain ⟨b, found, _⟩ := Context.typeOf?_eq_some_iff.1 known
        exact ⟨b, found⟩
  · refine .typeOf_bind (fun h => ⟨_, rules binding found h⟩) fun ty typed => ?_
    split
    · next other =>
      refine .throw_bind fun h => ?_
      exact other (Except.ok.inj (typed.symm.trans (rules binding found h)))
    · obtain ⟨r, register, _⟩ := prepared.typed.lookup found
      refine .ofExcept_bind (fun _ => ⟨r, registerOf_eq_ok.2 register⟩) fun dest _ => ?_
      refine ((value.lower_safe prepared.able).imp fun _ => ⟨ty, typed⟩).bind fun a S₁ lowered => ?_
      exact .push (Expr.lower_extends value lowered prepared.ready).ready.isOpen

theorem ret_safe {value : Option Expr} (prepared : S.Prepared) :
    LowerM.Safe ((ret span value).WellTyped S.context) (ret span value).lower S := by
  have rules : (ret span value).WellTyped S.context →
      returnedType S.context value = .ok S.context.returnType := by
    intro h
    cases h with
    | retUnit unit => rw [unit]; rfl
    | ret typed => exact typed
  simp only [lower, lowerReturn_eq]
  refine .context_bind (.ofExcept_bind (fun h => ⟨_, rules h⟩) fun ty typed => .context_bind ?_)
  split
  · next other =>
    refine .throw_bind fun h => ?_
    exact other (Except.ok.inj (typed.symm.trans (rules h)))
  · refine ((Expr.lowerOpt_safe prepared.able).imp fun _ => ?_).bind fun source S₁ lowered => ?_
    · rintro value rfl
      exact ⟨ty, typed⟩
    · exact .push (Expr.lowerOpt_extends lowered prepared.ready).ready.isOpen

theorem decl_safe {name : Ident} {written : Option Ty} {value : Option Expr}
    (prepared : S.Prepared) :
    LowerM.Safe ((decl span name written value).WellTyped S.context)
      (decl span name written value).lower S := by
  simp only [lower, lowerDecl]
  have rules : (decl span name written value).WellTyped S.context →
      ∃ ty pair, declaredType S.context span name written value = .ok ty ∧
        S.context.declare name ty = .ok pair := by
    intro h
    cases h with
    | decl bound =>
        obtain ⟨ty, binding, typed, declared⟩ := bindLocal_decl.1 bound
        exact ⟨ty, _, typed, declared⟩
  refine .context_bind (.ofExcept_bind (fun h => ?_) fun ty typed => ?_)
  · obtain ⟨ty, _, typed, _⟩ := rules h
    exact ⟨ty, typed⟩
  refine ((Expr.lowerOpt_safe prepared.able).imp fun _ value given =>
    ⟨ty, ty_of_declaredType typed value given⟩).bind fun source S₁ lowered => ?_
  have isOpen := (Expr.lowerOpt_extends lowered prepared.ready).ready.isOpen
  refine .context_bind (.ofExcept_bind (fun h => ?_) fun pair declared => ?_)
  · obtain ⟨ty', pair, typed', declared⟩ := rules h
    obtain rfl := Except.ok.inj (typed.symm.trans typed')
    rw [Expr.lowerOpt_context lowered]
    exact ⟨pair, declared⟩
  obtain ⟨binding, ctx⟩ := pair
  refine .setContext_bind ?_
  cases binding.register with
  | some dest =>
      cases source with
      | none => exact .pure ()
      | some a => exact .push isOpen
  | none =>
      refine .newRegister_bind (.context_bind (.setContext_bind ?_))
      cases source with
      | none => exact .pure ()
      | some a => exact .push isOpen

variable {condition : Expr} {positive negative body : Stmt}

theorem ite_safe
    (lowers : ∀ {T : LowerState}, T.Prepared →
      LowerM.Safe (positive.WellTyped T.context) positive.lower T)
    (prepared : S.Prepared) :
    LowerM.Safe ((ite span condition (some positive) none).WellTyped S.context)
      (ite span condition (some positive) none).lower S := by
  have rules : (ite span condition (some positive) none).WellTyped S.context →
      condition.ty S.context = .ok .bool ∧ positive.isDecl = false ∧
        positive.WellTyped S.context := by
    intro h
    cases h with
    | ite tested plain first => exact ⟨tested, plain, first⟩
  simp only [lower]
  refine checkCondition_bind (fun h => (rules h).1) fun known => ?_
  refine ((condition.lower_safe prepared.able).imp fun _ => ⟨.bool, known⟩).bind
    fun a S₁ tested => ?_
  have prepared₁ := Expr.lower_prepared tested prepared
  obtain ⟨advances, passed⟩ := Expr.lower_advances condition tested prepared.typed
  refine .functionAt_bind prepared₁.handle (.newBlock_bind (.newBlock_bind ?_))
  have isOpen := (prepared₁.ready.isOpen.withBlock "then").withBlock "cont"
  have inside : S₁.emitter.blocks.size <
      ((S₁.emitter.withBlock "then").withBlock "cont").blocks.size := by
    rw [Emitter.size_withBlock, Emitter.size_withBlock]
    omega
  simp only [Emitter.size_withBlock]
  refine .branch_bind isOpen inside (by simp) fun e₂ branches => .moveTo_bind ?_
  have forks := Emitter.forks_if prepared₁.ready branches
  have entered := (((advances.block "then").block "cont").emit branches
    (.branch _ _ (passed .bool known))).moveTo S₁.emitter.blocks.size
  have outer := Expr.lower_outer tested
  have prepared₂ := prepared.of_advances entered outer
    (forks.ready (Nat.le_refl _) (by omega) (by simp))
  have same := Expr.lower_context condition tested
  have size := forks.size
  exact arm_bind prepared₂ (lowers prepared₂) (fun h => same ▸ (rules h).2)
    (by change _ < e₂.blocks.size; omega) fun _ _ _ _ => .moveTo _

theorem ite_else_safe
    (lowers : ∀ {T : LowerState}, T.Prepared →
      LowerM.Safe (positive.WellTyped T.context) positive.lower T)
    (lowers' : ∀ {T : LowerState}, T.Prepared →
      LowerM.Safe (negative.WellTyped T.context) negative.lower T)
    (prepared : S.Prepared) :
    LowerM.Safe ((ite span condition (some positive) (some negative)).WellTyped S.context)
      (ite span condition (some positive) (some negative)).lower S := by
  have rules : (ite span condition (some positive) (some negative)).WellTyped S.context →
      condition.ty S.context = .ok .bool ∧
        (positive.isDecl = false ∧ positive.WellTyped S.context) ∧
        negative.isDecl = false ∧ negative.WellTyped S.context := by
    intro h
    cases h with
    | iteElse tested plain first plain' second =>
        exact ⟨tested, ⟨plain, first⟩, plain', second⟩
  simp only [lower]
  refine checkCondition_bind (fun h => (rules h).1) fun known => ?_
  refine ((condition.lower_safe prepared.able).imp fun _ => ⟨.bool, known⟩).bind
    fun a S₁ tested => ?_
  have prepared₁ := Expr.lower_prepared tested prepared
  obtain ⟨advances, passed⟩ := Expr.lower_advances condition tested prepared.typed
  refine .functionAt_bind prepared₁.handle (.newBlock_bind (.newBlock_bind (.newBlock_bind ?_)))
  have isOpen := ((prepared₁.ready.isOpen.withBlock "then").withBlock "else").withBlock "cont"
  simp only [Emitter.size_withBlock]
  refine .branch_bind isOpen (by simp; omega) (by simp) fun e₂ branches => .moveTo_bind ?_
  have forks := Emitter.forks_if_else prepared₁.ready branches
  have there := forks.ready (Nat.le_refl _) (by omega) (by simp)
  have entered := ((((advances.block "then").block "else").block "cont").emit branches
    (.branch _ _ (passed .bool known))).moveTo S₁.emitter.blocks.size
  have outer := Expr.lower_outer tested
  have prepared₂ := prepared.of_advances entered outer there
  have same := Expr.lower_context condition tested
  have size := forks.size
  refine arm_bind prepared₂ (lowers prepared₂) (fun h => same ▸ (rules h).2.1)
    (by change _ < e₂.blocks.size; omega) fun S₃ e₄ lowered goes => .moveTo_bind ?_
  have grown : (e₂.moveTo S₁.emitter.blocks.size).Extends positive.returns S₃.emitter :=
    lower_extends positive lowered there prepared₂.typed.returnType
  have arm := grown.arm goes (by omega) (by omega) (by omega)
  have there' := arm.ready (forks.ready (t := S₁.emitter.blocks.size + 1) (by omega) (by omega)
    (by simp)) (by omega) (by omega)
  have entered' := ((entered.trans (lower_advances positive lowered entered.typed)).goesOn
    goes).moveTo (S₁.emitter.blocks.size + 1)
  have outer' : S₃.context = { S.context with current := S₃.context.current } := by
    have outer' := (Stmt.lower_context positive lowered).1
    rw [outer] at outer'
    exact outer'
  have prepared₃ := prepared.of_advances entered' outer' there'
  have size' := arm.later.size
  refine arm_bind prepared₃ (lowers' prepared₃) (fun h => ?_)
    (by change _ < e₄.blocks.size; omega) fun _ _ _ _ => .moveTo _
  obtain ⟨_, ⟨plain, first⟩, second⟩ := rules h
  have kept := WellTyped.lower_context positive (same ▸ first) plain lowered
  have same' : S₃.context = S.context := kept.trans same
  exact same' ▸ second

theorem loop_safe
    (lowers : ∀ {T : LowerState}, T.Prepared →
      LowerM.Safe (body.WellTyped T.context) body.lower T)
    (prepared : S.Prepared) :
    LowerM.Safe ((loop span condition body).WellTyped S.context) (loop span condition body).lower
      S := by
  have rules : (loop span condition body).WellTyped S.context →
      condition.ty S.context = .ok .bool ∧ body.isDecl = false ∧ body.WellTyped S.context := by
    intro h
    cases h with
    | loop tested plain inside => exact ⟨tested, plain, inside⟩
  simp only [lower]
  refine checkCondition_bind (fun h => (rules h).1) fun known => ?_
  refine .functionAt_bind prepared.handle (.newBlock_bind (.newBlock_bind (.newBlock_bind ?_)))
  have isOpen := ((prepared.ready.isOpen.withBlock "while_cond").withBlock
    "while_body").withBlock "while_end"
  simp only [Emitter.size_withBlock]
  refine .jump_bind isOpen (by simp; omega) fun e₁ jumps => .moveTo_bind ?_
  have forks := Emitter.forks_loop prepared.ready jumps
  have there := forks.ready (Nat.le_refl _) (by omega) (by simp)
  have entered := (((((LowerState.Advances.refl prepared.typed).block "while_cond").block
    "while_body").block "while_end").emit jumps (.jump _)).moveTo S.emitter.blocks.size
  have prepared₁ := prepared.of_advances entered rfl there
  refine ((condition.lower_safe prepared₁.able).imp fun _ => ⟨.bool, known⟩).bind
    fun a S₂ tested => ?_
  obtain ⟨advances, passed⟩ := Expr.lower_advances condition tested prepared₁.typed
  have grown : (e₁.moveTo S.emitter.blocks.size).Extends false S₂.emitter :=
    Expr.lower_extends condition tested there
  have size := forks.size
  have size' : e₁.blocks.size ≤ S₂.emitter.blocks.size := grown.later.size
  refine .branch_bind grown.ready.isOpen (by omega) (by omega)
    fun e₃ branches => .moveTo_bind ?_
  have entered' := ((entered.trans advances).emit branches
    (.branch _ _ (passed .bool known))).moveTo (S.emitter.blocks.size + 1)
  have outer := Expr.lower_outer tested
  have prepared₂ := prepared.of_advances entered' outer
    (forks.ready_branch grown branches (.inl rfl))
  have same : S₂.context = S.context := by
    have same := Expr.lower_context condition tested
    exact same
  have size'' := branches.size
  exact arm_bind prepared₂ (lowers prepared₂) (fun h => same ▸ (rules h).2)
    (by change _ < e₃.blocks.size; omega) fun _ _ _ _ => .moveTo _

end Constructors

mutual

/-- A well-typed statement is lowered. -/
theorem lower_safe {S : LowerState} : (s : Stmt) → S.Prepared →
    LowerM.Safe (s.WellTyped S.context) s.lower S
  | .ite _ condition none _, _ => by
    simp only [lower]
    exact checkCondition_bind nofun fun _ => .throw nofun
  | .ite _ _ (some positive) none, prepared => ite_safe (lower_safe positive) prepared
  | .ite _ _ (some positive) (some negative), prepared =>
    ite_else_safe (lower_safe positive) (lower_safe negative) prepared
  | .block _ body, prepared => by
    simp only [lower]
    have inner : LowerState.Prepared { S with context := S.context.push } :=
      ⟨prepared.ready, prepared.typed.push, prepared.handle⟩
    refine .inScope ((lowerAll_safe body inner).imp fun h => ?_)
    cases h with
    | block inside => exact inside
  | .loop _ _ body, prepared => loop_safe (lower_safe body) prepared
  | .eval _ value, prepared => by
    simp only [lower]
    refine ((value.lower_safe prepared.able).imp fun h => ?_).bind fun _ _ _ => .pure ()
    cases h with
    | eval typed => exact ⟨_, typed⟩
  | .skip _, _ => by
    simp only [lower]
    exact .pure ()
  | .assign .., prepared => assign_safe prepared
  | .ret .., prepared => ret_safe prepared
  | .decl .., prepared => decl_safe prepared

theorem lowerAll_safe {S : LowerState} : (ss : List Stmt) → S.Prepared →
    LowerM.Safe (WellTypedAll S.context ss) (lowerAll ss) S
  | [], _ => by
    simp only [lowerAll]
    exact .pure ()
  | s :: rest, prepared => by
    have rules : WellTypedAll S.context (s :: rest) → s.WellTyped S.context := by
      intro h
      cases h with
      | last first _ => exact first
      | cons first _ _ _ => exact first
    simp only [lowerAll]
    refine ((lower_safe s prepared).imp rules).bind fun _ S₁ lowered => ?_
    refine .check_bind (fun h => ?_) fun r ctx analysed => ?_
    · obtain ⟨r, analysed, _⟩ := WellTyped.returnType_eq s (rules h)
      exact ⟨r, S₁.context, returnType_of_lower (rules h) lowered analysed⟩
    obtain ⟨rfl, found⟩ := returnType_eq_ok s analysed
    cases r with
    | some ty => exact .pure ()
    | none =>
        have prepared₁ := lower_prepared lowered prepared found.symm
        refine (lowerAll_safe rest prepared₁).imp fun h => ?_
        cases h with
        | last _ returns =>
            rw [← found] at returns
            cases returns
        | cons first _ bound others =>
            have agrees := lower_agrees (WellTyped.lower_context s first · lowered) lowered bound
            exact WellTypedAll.congr agrees rest (fun _ _ _ => rfl) others

end

end Stmt

end Rill
