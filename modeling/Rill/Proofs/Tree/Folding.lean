import Rill.Proofs.Tree.Typed
import Rill.Tree.Simplify

/-!
# Folding and types

Operators on literals have a result exactly where their operands type check, save for
divisions by zero, and the result has the type that the operator promises. So folding
keeps the type of an expression in every context, and where there is no type it keeps
the error. A constant that has a type folds to a literal, which is why the value of a
constant condition is always found. Division by zero is all that can stop simplification.
-/

namespace Rill

theorem Literal.eq_bool {a : Literal} (h : a.ty = .bool) : ∃ b, a = .bool b := by
  cases a with
  | bool b => exact ⟨b, rfl⟩
  | int | float | str => cases h

namespace UnaryOp

theorem exists_applied_iff {op : UnaryOp} {a : Literal} :
    (∃ result, op.apply? a = some result) ↔ op.accepts a.ty = true := by
  rw [← Option.isSome_iff_exists]
  cases op <;> cases a <;> rfl

theorem ty_of_applied {op : UnaryOp} {a result : Literal} (h : op.apply? a = some result) :
    result.ty = a.ty := by
  cases op <;> cases a <;> cases h <;> rfl

end UnaryOp

namespace BinaryOp

/-- What can come of an operator on two literals. -/
inductive Applies (op : BinaryOp) (a b : Literal) : Applied → Prop
  | value {result : Literal} (same : a.ty = b.ty) (accepts : op.opClass.accepts a.ty = true)
      (typed : result.ty = op.opClass.result a.ty) : Applies op a b (.value result)
  | zeroDivisor (same : a.ty = b.ty) (accepts : op.opClass.accepts a.ty = true) :
      Applies op a b .zeroDivisor
  | illTyped (unfit : a.ty = b.ty → op.opClass.accepts a.ty = false) : Applies op a b .illTyped

theorem applies_onEquals (op : BinaryOp) (a b : Literal) (same : a.ty = b.ty)
    (plain : a.ty.isNumeric = false) (equal : Bool) : op.Applies a b (op.onEquals equal) := by
  cases op with
  | eq | ne =>
      have accepts : OpClass.accepts .equality a.ty = true := by cases a <;> rfl
      exact .value same accepts rfl
  | add | sub | mul | div | rem | lt | le | gt | ge => exact .illTyped fun _ => plain

theorem applies (op : BinaryOp) (a b : Literal) : op.Applies a b (op.apply a b) := by
  cases a <;> cases b
  case int.int m n =>
    rw [apply]
    rcases op.onInts_cases m n with ⟨result, computed, typed⟩ | ⟨_, zero⟩
    · rw [computed]
      exact .value rfl (by cases op <;> rfl) typed
    · rw [zero]
      exact .zeroDivisor rfl (by cases op <;> rfl)
  case float.float x y => exact .value rfl (by cases op <;> rfl) (by cases op <;> rfl)
  case bool.bool p q => exact op.applies_onEquals (.bool p) (.bool q) rfl rfl _
  case str.str s t => exact op.applies_onEquals (.str s) (.str t) rfl rfl _
  all_goals
    refine .illTyped fun same => ?_
    cases same

end BinaryOp

namespace Expr

theorem ty_of_literal? {e : Expr} {value : Literal} (h : e.literal? = some value) (ctx : Context) :
    e.ty ctx = .ok value.ty := by
  cases e with
  | literal span v =>
      cases h
      simp only [ty]
  | var | call | unary | binary | logic => cases h

section Rules

variable {ctx : Context} {span : Span} {ty : Ty} {lhs rhs : Expr}

theorem ty_unary_of_accepts {op : UnaryOp} {operand : Expr} (typed : operand.ty ctx = .ok ty)
    (accepts : op.accepts ty = true) : (unary span op operand).ty ctx = .ok ty := by
  simp only [Expr.ty, except_bind_eq_ok]
  exact ⟨ty, typed, if_pos accepts⟩

theorem ty_binary_of_accepts {op : BinaryOp} (left : lhs.ty ctx = .ok ty)
    (right : rhs.ty ctx = .ok ty) (accepts : op.opClass.accepts ty = true) :
    (binary span op lhs rhs).ty ctx = .ok (op.opClass.result ty) := by
  simp only [Expr.ty, except_bind_eq_ok]
  refine ⟨ty, left, ty, right, ?_⟩
  rw [if_neg (not_not_intro rfl)]
  exact if_pos accepts

theorem ty_logic_of_bool {op : LogicOp} (left : lhs.ty ctx = .ok .bool)
    (right : rhs.ty ctx = .ok .bool) : (logic span op lhs rhs).ty ctx = .ok .bool := by
  simp only [Expr.ty, left, right]
  rfl

end Rules

theorem isConstant_of_literal? {e : Expr} {value : Literal} (h : e.literal? = some value) :
    e.isConstant = true := by
  cases e with
  | literal => simp only [isConstant]
  | var | call | unary | binary | logic => cases h

section Cases

-- The equations are derived here, once for all the cases below.
attribute [local simp] simplify simplifyAll

variable {span : Span} {e' : Expr}

theorem simplify_call {target : Ident} {args : List Expr}
    (h : (call span target args).simplify = .ok e') :
    ∃ args', simplifyAll args = .ok args' ∧ e' = .call span target args' := by
  simp only [simplify, except_bind_eq_ok, except_pure_eq_ok] at h
  obtain ⟨args', simplified, rfl⟩ := h
  exact ⟨args', simplified, rfl⟩

/-- A unary operator stays only if its operand is no literal that it accepts. -/
theorem simplify_unary {op : UnaryOp} {operand : Expr}
    (h : (unary span op operand).simplify = .ok e') :
    ∃ operand', operand.simplify = .ok operand' ∧
      ((∃ a result, operand'.literal? = some a ∧ op.apply? a = some result ∧
          e' = .literal span result) ∨
        (∀ a, operand'.literal? = some a → op.accepts a.ty = false) ∧
          e' = .unary span op operand') := by
  simp only [simplify, except_bind_eq_ok] at h
  obtain ⟨operand', simplified, h⟩ := h
  refine ⟨operand', simplified, ?_⟩
  split at h
  · next result folded =>
    obtain ⟨a, known, applied⟩ := Option.bind_eq_some_iff.1 folded
    exact .inl ⟨a, result, known, applied, (except_pure_eq_ok.1 h).symm⟩
  · next stays =>
    refine .inr ⟨fun a known => ?_, (except_pure_eq_ok.1 h).symm⟩
    rw [known, Option.bind_some] at stays
    rw [← Bool.not_eq_true, ← UnaryOp.exists_applied_iff, stays]
    exact nofun

/-- A binary operator stays only if its operands are no literals that it accepts. -/
theorem simplify_binary {op : BinaryOp} {lhs rhs : Expr}
    (h : (binary span op lhs rhs).simplify = .ok e') :
    ∃ lhs' rhs', lhs.simplify = .ok lhs' ∧ rhs.simplify = .ok rhs' ∧
      ((∃ a b result, lhs'.literal? = some a ∧ rhs'.literal? = some b ∧
          a.ty = b.ty ∧ op.opClass.accepts a.ty = true ∧ result.ty = op.opClass.result a.ty ∧
          e' = .literal span result) ∨
        (∀ a b, lhs'.literal? = some a → rhs'.literal? = some b → a.ty = b.ty →
            op.opClass.accepts a.ty = false) ∧
          e' = .binary span op lhs' rhs') := by
  simp only [simplify, except_bind_eq_ok] at h
  obtain ⟨lhs', left, rhs', right, h⟩ := h
  refine ⟨lhs', rhs', left, right, ?_⟩
  split at h
  · next a b knownLeft knownRight =>
    have applies := op.applies a b
    split at h
    · next result applied =>
      rw [applied] at applies
      cases applies with
      | value same accepts typed =>
          exact .inl ⟨a, b, result, knownLeft, knownRight, same, accepts, typed,
            (except_pure_eq_ok.1 h).symm⟩
    · simp only [except_throw_eq_ok] at h
    · next applied =>
      rw [applied] at applies
      cases applies with
      | illTyped unfit =>
          refine .inr ⟨fun a' b' known known' => ?_, (except_pure_eq_ok.1 h).symm⟩
          cases knownLeft.symm.trans known
          cases knownRight.symm.trans known'
          exact unfit
  · next unknown =>
    exact .inr ⟨fun a b known known' => (unknown a b known known').elim,
      (except_pure_eq_ok.1 h).symm⟩

/-- A logical operator stays only if its operands are not both truth values. -/
theorem simplify_logic {op : LogicOp} {lhs rhs : Expr}
    (h : (logic span op lhs rhs).simplify = .ok e') :
    ∃ lhs' rhs', lhs.simplify = .ok lhs' ∧ rhs.simplify = .ok rhs' ∧
      ((∃ a b, lhs'.literal? = some (.bool a) ∧ rhs'.literal? = some (.bool b) ∧
          e' = .literal span (.bool (op.apply a b))) ∨
        (∀ a b, lhs'.literal? = some (.bool a) → rhs'.literal? ≠ some (.bool b)) ∧
          e' = .logic span op lhs' rhs') := by
  simp only [simplify, except_bind_eq_ok] at h
  obtain ⟨lhs', left, rhs', right, h⟩ := h
  refine ⟨lhs', rhs', left, right, ?_⟩
  split at h
  · next a b knownLeft knownRight =>
    exact .inl ⟨a, b, knownLeft, knownRight, (except_pure_eq_ok.1 h).symm⟩
  · next unknown => exact .inr ⟨unknown, (except_pure_eq_ok.1 h).symm⟩

end Cases

theorem span_simplify {e e' : Expr} (h : e.simplify = .ok e') : e'.span = e.span := by
  cases e with
  | literal | var =>
      simp only [simplify, Except.ok.injEq] at h
      rw [h]
  | call =>
      obtain ⟨args', _, rfl⟩ := simplify_call h
      rfl
  | unary =>
      obtain ⟨operand', _, ⟨a, result, _, _, rfl⟩ | ⟨_, rfl⟩⟩ := simplify_unary h
      · rfl
      · rfl
  | binary =>
      obtain ⟨lhs', rhs', _, _, ⟨a, b, result, _, _, _, _, _, rfl⟩ | ⟨_, rfl⟩⟩ := simplify_binary h
      · rfl
      · rfl
  | logic =>
      obtain ⟨lhs', rhs', _, _, ⟨a, b, _, _, rfl⟩ | ⟨_, rfl⟩⟩ := simplify_logic h
      · rfl
      · rfl

theorem isConstant_simplify : (e : Expr) → {e' : Expr} → e.simplify = .ok e' →
    e'.isConstant = e.isConstant
  | .literal .., _, h | .var .., _, h => by
    simp only [simplify, Except.ok.injEq] at h
    rw [h]
  | .call .., _, h => by
    obtain ⟨args', _, rfl⟩ := simplify_call h
    simp only [isConstant]
  | .unary _ _ operand, _, h => by
    obtain ⟨operand', simplified, ⟨a, result, known, _, rfl⟩ | ⟨_, rfl⟩⟩ := simplify_unary h
    · simp only [isConstant, ← isConstant_simplify operand simplified,
        isConstant_of_literal? known]
    · simp only [isConstant, isConstant_simplify operand simplified]
  | .binary _ _ lhs rhs, _, h => by
    obtain ⟨lhs', rhs', left, right, ⟨a, b, result, known, known', _, _, _, rfl⟩ | ⟨_, rfl⟩⟩ :=
      simplify_binary h
    · simp only [isConstant, ← isConstant_simplify lhs left, ← isConstant_simplify rhs right,
        isConstant_of_literal? known, isConstant_of_literal? known', Bool.and_self]
    · simp only [isConstant, isConstant_simplify lhs left, isConstant_simplify rhs right]
  | .logic _ _ lhs rhs, _, h => by
    obtain ⟨lhs', rhs', left, right, ⟨a, b, known, known', rfl⟩ | ⟨_, rfl⟩⟩ := simplify_logic h
    · simp only [isConstant, ← isConstant_simplify lhs left, ← isConstant_simplify rhs right,
        isConstant_of_literal? known, isConstant_of_literal? known', Bool.and_self]
    · simp only [isConstant, isConstant_simplify lhs left, isConstant_simplify rhs right]

theorem length_simplifyAll : (es : List Expr) → {es' : List Expr} → simplifyAll es = .ok es' →
    es'.length = es.length
  | [], _, h => by
    simp only [simplifyAll, Except.ok.injEq] at h
    rw [h]
  | _ :: es, _, h => by
    simp only [simplifyAll, except_bind_eq_ok, except_pure_eq_ok] at h
    obtain ⟨e', _, es', others, rfl⟩ := h
    rw [List.length_cons, List.length_cons, length_simplifyAll es others]

mutual

/-- A simplified expression has the type that it had, or the same is wrong with it. -/
theorem ty_simplify (ctx : Context) : (e : Expr) → {e' : Expr} → e.simplify = .ok e' →
    e'.ty ctx = e.ty ctx
  | .literal .., _, h | .var .., _, h => by
    simp only [simplify, Except.ok.injEq] at h
    rw [h]
  | .call _ _ args, _, h => by
    obtain ⟨args', simplified, rfl⟩ := simplify_call h
    simp only [ty, length_simplifyAll args simplified, checkArgs_simplify ctx args simplified]
  | .unary _ op operand, _, h => by
    obtain ⟨operand', simplified, ⟨a, result, known, applied, rfl⟩ | ⟨_, rfl⟩⟩ := simplify_unary h
    · have accepts : op.accepts a.ty = true := UnaryOp.exists_applied_iff.1 ⟨result, applied⟩
      have typed : operand.ty ctx = .ok a.ty := by
        rw [← ty_simplify ctx operand simplified, ty_of_literal? known]
      rw [ty_unary_of_accepts typed accepts, ty, UnaryOp.ty_of_applied applied]
    · simp only [ty, ty_simplify ctx operand simplified]
  | .binary _ op lhs rhs, _, h => by
    obtain ⟨lhs', rhs', left, right, ⟨a, b, result, known, known', same, accepts, typed, rfl⟩ |
      ⟨_, rfl⟩⟩ := simplify_binary h
    · have typedLeft : lhs.ty ctx = .ok a.ty := by
        rw [← ty_simplify ctx lhs left, ty_of_literal? known]
      have typedRight : rhs.ty ctx = .ok a.ty := by
        rw [← ty_simplify ctx rhs right, ty_of_literal? known', same]
      rw [ty_binary_of_accepts typedLeft typedRight accepts, ty, typed]
    · simp only [ty, ty_simplify ctx lhs left, ty_simplify ctx rhs right]
  | .logic _ _ lhs rhs, _, h => by
    obtain ⟨lhs', rhs', left, right, ⟨a, b, known, known', rfl⟩ | ⟨_, rfl⟩⟩ := simplify_logic h
    · have typedLeft : lhs.ty ctx = .ok .bool := by
        rw [← ty_simplify ctx lhs left, ty_of_literal? known, Literal.ty]
      have typedRight : rhs.ty ctx = .ok .bool := by
        rw [← ty_simplify ctx rhs right, ty_of_literal? known', Literal.ty]
      rw [ty_logic_of_bool typedLeft typedRight, ty, Literal.ty]
    · simp only [ty, ty_simplify ctx lhs left, ty_simplify ctx rhs right, span_simplify left,
        span_simplify right]

theorem checkArgs_simplify (ctx : Context) : (args : List Expr) → {args' : List Expr} →
    simplifyAll args = .ok args' → (params : List Ty) →
    checkArgs ctx args' params = checkArgs ctx args params
  | [], _, h, _ => by
    simp only [simplifyAll, Except.ok.injEq] at h
    rw [h]
  | arg :: args, _, h, params => by
    simp only [simplifyAll, except_bind_eq_ok, except_pure_eq_ok] at h
    obtain ⟨arg', first, args', others, rfl⟩ := h
    cases params with
    | nil => simp only [checkArgs]
    | cons param params =>
        simp only [checkArgs, ty_simplify ctx arg first, span_simplify first,
          checkArgs_simplify ctx args others params]

end

/-- Folding is invisible to the checks: in every context the type or the error is the one that the
expression had, it is constant if it was, and it stands where it stood. -/
theorem checks_simplify {e e' : Expr} (h : e.simplify = .ok e') :
    (∀ ctx : Context, e'.ty ctx = e.ty ctx) ∧ e'.isConstant = e.isConstant ∧ e'.span = e.span :=
  ⟨fun ctx => ty_simplify ctx e h, isConstant_simplify e h, span_simplify h⟩

/-- The operands of `(1 + 2) * (true + 2 * 3)` are folded as far as they have values, and the sum
of `true` and a number stays to be reported. -/
theorem checks_simplify_illTyped :
    let sum := Expr.binary ⟨0, 7⟩ .add (.literal ⟨1, 2⟩ (.int 1)) (.literal ⟨5, 6⟩ (.int 2))
    let product :=
      Expr.binary ⟨18, 23⟩ .mul (.literal ⟨18, 19⟩ (.int 2)) (.literal ⟨22, 23⟩ (.int 3))
    let truth := Expr.literal ⟨11, 15⟩ (.bool true)
    let e := Expr.binary ⟨0, 24⟩ .mul sum (.binary ⟨10, 24⟩ .add truth product)
    let e' := Expr.binary ⟨0, 24⟩ .mul (.literal ⟨0, 7⟩ (.int 3))
      (.binary ⟨10, 24⟩ .add truth (.literal ⟨18, 23⟩ (.int 6)))
    e.simplify = .ok e' ∧
      (∀ ctx : Context, e.ty ctx = .error ⟨.typeMismatch .binaryOperation .bool .int, ⟨10, 24⟩⟩) ∧
      (∀ ctx : Context, e'.ty ctx = e.ty ctx) ∧ e'.isConstant = e.isConstant ∧
      e'.span = e.span := by
  intro sum product truth e e'
  have simplified : e.simplify = .ok e' := by rfl
  exact ⟨simplified, fun _ => rfl, checks_simplify simplified⟩

/-- A constant that has a type folds to a literal. -/
theorem exists_literal?_of_simplify {ctx : Context} : (e : Expr) → {e' : Expr} → {ty : Ty} →
    e.isConstant = true → e.ty ctx = .ok ty → e.simplify = .ok e' →
    ∃ value, e'.literal? = some value ∧ value.ty = ty
  | .literal _ value, _, _, _, typed, h => by
    simp only [simplify, Except.ok.injEq] at h
    simp only [Expr.ty, Except.ok.injEq] at typed
    subst h
    exact ⟨value, rfl, typed⟩
  | .var .., _, _, constant, _, _ | .call .., _, _, constant, _, _ => by
    simp only [isConstant, Bool.false_eq_true] at constant
  | .unary _ op operand, _, _, constant, typed, h => by
    simp only [isConstant] at constant
    obtain ⟨typed, accepts⟩ := ty_unary typed
    obtain ⟨operand', simplified, folded⟩ := simplify_unary h
    obtain ⟨a, known, rfl⟩ := exists_literal?_of_simplify operand constant typed simplified
    obtain ⟨a', result, known', applied, rfl⟩ | ⟨unfit, _⟩ := folded
    · cases known.symm.trans known'
      exact ⟨result, rfl, UnaryOp.ty_of_applied applied⟩
    · cases (unfit a known).symm.trans accepts
  | .binary _ op lhs rhs, _, _, constant, typed, h => by
    simp only [isConstant, Bool.and_eq_true] at constant
    obtain ⟨common, typedLeft, typedRight, accepts, rfl⟩ := ty_binary typed
    obtain ⟨lhs', rhs', left, right, folded⟩ := simplify_binary h
    obtain ⟨a, known, rfl⟩ := exists_literal?_of_simplify lhs constant.1 typedLeft left
    obtain ⟨b, known', same⟩ := exists_literal?_of_simplify rhs constant.2 typedRight right
    obtain ⟨a', _, result, found, _, _, _, typed, rfl⟩ | ⟨unfit, _⟩ := folded
    · cases known.symm.trans found
      exact ⟨result, rfl, typed⟩
    · cases (unfit a b known known' same.symm).symm.trans accepts
  | .logic _ op lhs rhs, _, _, constant, typed, h => by
    simp only [isConstant, Bool.and_eq_true] at constant
    obtain ⟨typedLeft, typedRight, rfl⟩ := ty_logic typed
    obtain ⟨lhs', rhs', left, right, folded⟩ := simplify_logic h
    obtain ⟨a, known, bool⟩ := exists_literal?_of_simplify lhs constant.1 typedLeft left
    obtain ⟨b, known', bool'⟩ := exists_literal?_of_simplify rhs constant.2 typedRight right
    obtain ⟨p, rfl⟩ := Literal.eq_bool bool
    obtain ⟨q, rfl⟩ := Literal.eq_bool bool'
    obtain ⟨p', q', _, _, rfl⟩ | ⟨unfit, _⟩ := folded
    · exact ⟨.bool (op.apply p' q'), rfl, rfl⟩
    · exact absurd known' (unfit p q known)

/-- A simplified condition that is a constant of type bool is a literal. -/
theorem exists_constantCondition {e e' : Expr} (h : e.simplify = .ok e') (ctx : Context) :
    ∃ known, e'.constantCondition ctx = .ok known := by
  rw [constantCondition]
  by_cases constant : e'.isConstant = true
  · rw [if_pos constant]
    rw [isConstant_simplify e h] at constant
    split
    · next typed =>
      rw [ty_simplify ctx e h] at typed
      obtain ⟨value, known, bool⟩ := exists_literal?_of_simplify e constant typed h
      obtain ⟨b, rfl⟩ := Literal.eq_bool bool
      rw [known]
      exact ⟨some b, rfl⟩
    · exact ⟨none, rfl⟩
  · rw [if_neg constant]
    exact ⟨none, rfl⟩

end Expr

/-- If the computation fails, then for this cause. -/
def FailsOnly {α : Type} (cause : CompileCause) (x : Except CompileError α) : Prop :=
  ∀ error, x = .error error → error.cause = cause

namespace FailsOnly

variable {α β : Type} {cause : CompileCause}

theorem ok (a : α) : FailsOnly cause (.ok a) := nofun

theorem throw (span : Span) : FailsOnly cause (throw ⟨cause, span⟩ : Except CompileError α) := by
  rintro _ ⟨⟩
  rfl

theorem bind {x : Except CompileError α} {f : α → Except CompileError β} (first : FailsOnly cause x)
    (next : ∀ a, x = .ok a → FailsOnly cause (f a)) : FailsOnly cause (x >>= f) := by
  cases x with
  | ok a => exact next a rfl
  | error e =>
      rintro _ ⟨⟩
      exact first e rfl

end FailsOnly

namespace Expr

mutual

theorem failsOnly_simplify : (e : Expr) → FailsOnly .divisionByZero e.simplify
  | .literal .. | .var .. => by
    simp only [simplify]
    exact .ok _
  | .call _ _ args => by
    simp only [simplify]
    exact .bind (failsOnly_simplifyAll args) fun _ _ => .ok _
  | .unary _ _ operand => by
    simp only [simplify]
    refine .bind (failsOnly_simplify operand) fun _ _ => ?_
    split
    · exact .ok _
    · exact .ok _
  | .binary span _ lhs rhs => by
    simp only [simplify]
    refine .bind (failsOnly_simplify lhs) fun _ _ => ?_
    refine .bind (failsOnly_simplify rhs) fun _ _ => ?_
    split
    · split
      · exact .ok _
      · exact .throw span
      · exact .ok _
    · exact .ok _
  | .logic _ _ lhs rhs => by
    simp only [simplify]
    refine .bind (failsOnly_simplify lhs) fun _ _ => ?_
    refine .bind (failsOnly_simplify rhs) fun _ _ => ?_
    split
    · exact .ok _
    · exact .ok _

theorem failsOnly_simplifyAll : (es : List Expr) → FailsOnly .divisionByZero (simplifyAll es)
  | [] => by
    simp only [simplifyAll]
    exact .ok _
  | e :: es => by
    simp only [simplifyAll]
    exact .bind (failsOnly_simplify e) fun _ _ =>
      .bind (failsOnly_simplifyAll es) fun _ _ => .ok _

end

theorem failsOnly_simplifyOpt (e : Option Expr) : FailsOnly .divisionByZero (simplifyOpt e) := by
  cases e with
  | none => exact .ok _
  | some e => exact .bind (failsOnly_simplify e) fun _ _ => .ok _

theorem failsOnly_constantCondition {e e' : Expr} {cause : CompileCause} (h : e.simplify = .ok e')
    (ctx : Context) : FailsOnly cause (e'.constantCondition ctx) := by
  obtain ⟨known, found⟩ := exists_constantCondition h ctx
  rw [found]
  exact .ok known

end Expr

namespace Stmt

variable {ctx : Context}

mutual

/-- Simplification fails only on a division by zero, whatever the tree. -/
theorem failsOnly_simplify : (s : Stmt) → FailsOnly .divisionByZero (s.simplify ctx)
  | .ite _ condition positive negative => by
    simp only [simplify]
    refine .bind (Expr.failsOnly_simplify condition) fun _ tested => ?_
    refine .bind (Expr.failsOnly_constantCondition tested ctx) fun known _ => ?_
    split
    · exact .bind (failsOnly_simplifyOpt positive) fun _ _ => .ok _
    · exact .bind (failsOnly_simplifyOpt negative) fun _ _ => .ok _
    · exact .bind (failsOnly_simplifyOpt positive) fun _ _ =>
        .bind (failsOnly_simplifyOpt negative) fun _ _ => .ok _
  | .block _ body => by
    simp only [simplify]
    exact .bind (failsOnly_simplifyAll body) fun _ _ => .ok _
  | .decl _ _ _ value | .ret _ value => by
    simp only [simplify]
    exact .bind (Expr.failsOnly_simplifyOpt value) fun _ _ => .ok _
  | .assign _ _ value | .eval _ value => by
    simp only [simplify]
    exact .bind (Expr.failsOnly_simplify value) fun _ _ => .ok _
  | .loop _ condition body => by
    simp only [simplify]
    refine .bind (Expr.failsOnly_simplify condition) fun _ tested => ?_
    refine .bind (Expr.failsOnly_constantCondition tested ctx) fun known _ => ?_
    split
    · exact .ok _
    · exact .bind (failsOnly_simplify body) fun _ _ => .ok _
  | .skip _ => by
    simp only [simplify]
    exact .ok _

theorem failsOnly_simplifyOpt : (s : Option Stmt) → FailsOnly .divisionByZero (simplifyOpt ctx s)
  | none => by
    simp only [simplifyOpt]
    exact .ok _
  | some s => by
    simp only [simplifyOpt]
    exact .bind (failsOnly_simplify s) fun _ _ => .ok _

theorem failsOnly_simplifyAll : (ss : List Stmt) → FailsOnly .divisionByZero (simplifyAll ctx ss)
  | [] => by
    simp only [simplifyAll]
    exact .ok _
  | s :: rest => by
    simp only [simplifyAll]
    exact .bind (failsOnly_simplify s) fun _ _ =>
      .bind (failsOnly_simplifyAll rest) fun _ _ => .ok _

end

theorem failsOnly_simplifyTimes (n : Nat) (s : Stmt) :
    FailsOnly .divisionByZero (s.simplifyTimes ctx n) := by
  induction n generalizing s with
  | zero => exact .ok s
  | succ n ih =>
      rw [simplifyTimes]
      refine .bind (failsOnly_simplify s) fun next _ => ?_
      split
      · exact .ok next
      · exact ih next

end Stmt

theorem Function.failsOnly_simplify (signatures : SignatureTable) (passes : Nat) (f : Function) :
    FailsOnly .divisionByZero (f.simplify signatures passes) :=
  .bind (Stmt.failsOnly_simplifyTimes (max passes 1) f.body) fun _ _ => .ok _

end Rill
