import Rill.Proofs.Tree.Meaning
import Rill.Proofs.Tree.Shape
import Rill.Tree.Simplify

/-!
# Simplified trees mean what they meant

A simplified expression evaluates to the same value after the same calls, or ends in
the same way, in every environment. For statements the agreement is as tight: with
any number of rounds, the simplified statement leaves the same locals and calls. A
loop that is dropped makes no round, and every other loop is kept.

Blocks lose their braces only if they declare nothing. The scope that goes with the
braces is then empty for as long as the block runs, and an empty scope is never
noticed; `Unnoticed` says this of scopes at any depth, as blocks can be nested.
-/

namespace Rill

theorem UnaryOp.onValue_immediate {op : UnaryOp} {a result : Literal}
    (h : op.apply? a = some result) : op.onValue a.immediate = .ok result.immediate := by
  simp only [onValue, Literal.literal?_immediate, Option.bind_some, h]

theorem BinaryOp.onValues_immediate {op : BinaryOp} {a b result : Literal}
    (h : op.apply a b = .value result) :
    op.onValues a.immediate b.immediate = .ok result.immediate := by
  simp only [onValues, Literal.literal?_immediate, h]

namespace Expr

variable {signatures : SignatureTable} {oracle : Oracle}

theorem eval_of_literal? {e : Expr} {value : Literal} (h : e.literal? = some value) (env : Env) :
    e.eval signatures oracle env = pure value.immediate := by
  cases e with
  | literal span v =>
      cases h
      simp only [eval]
  | var | call | unary | binary | logic => cases h

mutual

theorem eval_simplify (env : Env) : (e : Expr) → {e' : Expr} → e.simplify = .ok e' →
    e'.eval signatures oracle env = e.eval signatures oracle env
  | .literal .., _, h | .var .., _, h => by
    simp only [simplify, Except.ok.injEq] at h
    rw [h]
  | .call _ target args, _, h => by
    simp only [simplify, except_bind_eq_ok, except_pure_eq_ok] at h
    obtain ⟨args', simplified, rfl⟩ := h
    simp only [eval, evalAll_simplify env args simplified]
  | .unary span op operand, _, h => by
    simp only [simplify, except_bind_eq_ok] at h
    obtain ⟨operand', simplified, h⟩ := h
    have same := eval_simplify env operand simplified
    split at h
    next value folded =>
      simp only [except_pure_eq_ok] at h
      subst h
      obtain ⟨a, known, applied⟩ := Option.bind_eq_some_iff.1 folded
      simp only [eval, ← same, eval_of_literal? known, pure_bind, UnaryOp.onValue_immediate applied]
      rfl
    next =>
      simp only [except_pure_eq_ok] at h
      subst h
      simp only [eval, same]
  | .binary span op lhs rhs, _, h => by
    simp only [simplify, except_bind_eq_ok] at h
    obtain ⟨lhs', left, rhs', right, h⟩ := h
    have sameLeft := eval_simplify env lhs left
    have sameRight := eval_simplify env rhs right
    split at h
    next a b knownLeft knownRight =>
      split at h
      next value applied =>
        simp only [except_pure_eq_ok] at h
        subst h
        simp only [eval, ← sameLeft, ← sameRight, eval_of_literal? knownLeft,
          eval_of_literal? knownRight, pure_bind, BinaryOp.onValues_immediate applied]
        rfl
      next => simp only [except_throw_eq_ok] at h
      next =>
        simp only [except_pure_eq_ok] at h
        subst h
        simp only [eval, sameLeft, sameRight]
    next =>
      simp only [except_pure_eq_ok] at h
      subst h
      simp only [eval, sameLeft, sameRight]
  | .logic span op lhs rhs, _, h => by
    simp only [simplify, except_bind_eq_ok] at h
    obtain ⟨lhs', left, rhs', right, h⟩ := h
    have sameLeft := eval_simplify env lhs left
    have sameRight := eval_simplify env rhs right
    split at h
    next a b knownLeft knownRight =>
      simp only [except_pure_eq_ok] at h
      subst h
      simp only [eval, ← sameLeft, ← sameRight, eval_of_literal? knownLeft,
        eval_of_literal? knownRight, pure_bind, Literal.immediate, EvalM.truth]
      cases op <;> cases a <;> rfl
    next =>
      simp only [except_pure_eq_ok] at h
      subst h
      simp only [eval, sameLeft, sameRight]

theorem evalAll_simplify (env : Env) : (es : List Expr) → {es' : List Expr} →
    simplifyAll es = .ok es' →
    evalAll signatures oracle env es' = evalAll signatures oracle env es
  | [], _, h => by
    simp only [simplifyAll, Except.ok.injEq] at h
    rw [h]
  | e :: es, _, h => by
    simp only [simplifyAll, except_bind_eq_ok, except_pure_eq_ok] at h
    obtain ⟨e', first, es', others, rfl⟩ := h
    simp only [evalAll, eval_simplify env e first, evalAll_simplify env es others]

end

theorem evalOpt_simplify {e e' : Option Expr} (h : simplifyOpt e = .ok e') (env : Env) :
    evalOpt signatures oracle env e' = evalOpt signatures oracle env e := by
  cases e with
  | none =>
      simp only [simplifyOpt, Except.ok.injEq] at h
      rw [h]
  | some e =>
      simp only [simplifyOpt, except_bind_eq_ok, except_pure_eq_ok] at h
      obtain ⟨e', simplified, rfl⟩ := h
      simp only [evalOpt, eval_simplify env e simplified]

theorem test_simplify {e e' : Expr} (h : e.simplify = .ok e') :
    e'.test signatures oracle = e.test signatures oracle := by
  funext env
  simp only [test, eval_simplify env e h]

/-- A constant condition is true or false in every environment. -/
theorem test_of_constantCondition {ctx : Context} {e : Expr} {b : Bool}
    (h : e.constantCondition ctx = .ok (some b)) (env : Env) :
    e.test signatures oracle env = pure b := by
  simp only [constantCondition] at h
  split at h
  · split at h
    · split at h
      next known =>
        cases h
        simp only [test, eval_of_literal? known, pure_bind, Literal.immediate, EvalM.truth]
      next => cases h
    · cases h
  · cases h

/-- The second condition is tested only if the first one holds. -/
theorem test_and (span : Span) (first second : Expr) (env : Env) :
    (Expr.logic span .and first second).test signatures oracle env =
      (do if ← first.test signatures oracle env then second.test signatures oracle env
          else pure false) := by
  simp only [test, eval, bind_assoc]
  refine bind_congr fun value => bind_congr fun left => ?_
  cases left with
  | false => rfl
  | true => rfl

end Expr

namespace Env

/-- The second environment has an empty scope more, below so many others. -/
def Padded (depth : Nat) (env env' : Env) : Prop :=
  ∃ inner outer, inner.length = depth ∧ env = inner ++ outer ∧ env' = inner ++ [] :: outer

variable {depth : Nat} {env env' : Env}

theorem Padded.lookup (h : Padded depth env env') (name : String) :
    env'.lookup name = env.lookup name := by
  obtain ⟨inner, outer, _, rfl, rfl⟩ := h
  simp only [Env.lookup, List.findSome?_append, List.findSome?_cons, List.lookup_nil]

theorem Padded.declare (h : Padded (depth + 1) env env') (name : String) (value : Option Value) :
    Padded (depth + 1) (env.declare name value) (env'.declare name value) := by
  obtain ⟨inner, outer, length, rfl, rfl⟩ := h
  obtain ⟨locals, inner, rfl⟩ := List.exists_cons_of_length_eq_add_one length
  exact ⟨((name, value) :: locals) :: inner, outer, length, rfl, rfl⟩

theorem Padded.push (h : Padded depth env env') : Padded (depth + 1) ([] :: env) ([] :: env') := by
  obtain ⟨inner, outer, length, rfl, rfl⟩ := h
  exact ⟨[] :: inner, outer, by rw [List.length_cons, length], rfl, rfl⟩

theorem Padded.tail (h : Padded (depth + 1) env env') : Padded depth env.tail env'.tail := by
  obtain ⟨inner, outer, length, rfl, rfl⟩ := h
  obtain ⟨locals, inner, rfl⟩ := List.exists_cons_of_length_eq_add_one length
  exact ⟨inner, outer, Nat.succ.inj length, rfl, rfl⟩

/-- Both assignments succeed, in scopes that correspond, or neither does. -/
theorem assign_padded (name : String) (value : Value) (inner outer : Env) :
    (assign name value (inner ++ outer) = none ∧
      assign name value (inner ++ [] :: outer) = none) ∨
    ∃ env env', Padded inner.length env env' ∧ assign name value (inner ++ outer) = some env ∧
      assign name value (inner ++ [] :: outer) = some env' := by
  induction inner with
  | nil =>
      simp only [List.nil_append, assign, List.lookup_nil, Option.map_eq_none_iff]
      cases assigned : assign name value outer with
      | none => exact .inl ⟨rfl, rfl⟩
      | some env => exact .inr ⟨env, [] :: env, ⟨[], env, rfl, rfl, rfl⟩, rfl, rfl⟩
  | cons locals inner ih =>
      simp only [List.cons_append, assign]
      cases locals.lookup name with
      | some _ =>
          exact .inr ⟨_, _, ⟨((name, some value) :: locals) :: inner, outer, rfl, rfl, rfl⟩, rfl,
            rfl⟩
      | none =>
          rcases ih with ⟨missing, missing'⟩ | ⟨env, env', padded, found, found'⟩
          · exact .inl (by simp only [missing, missing', Option.map_none, and_self])
          · obtain ⟨inner', outer', length, rfl, rfl⟩ := padded
            refine .inr ⟨locals :: (inner' ++ outer'), locals :: (inner' ++ [] :: outer'), ?_, ?_,
              ?_⟩
            · exact ⟨locals :: inner', outer', by rw [List.length_cons, length, List.length_cons],
                rfl, rfl⟩
            · rw [found, Option.map_some]
            · rw [found', Option.map_some]

end Env

namespace Expr

variable {signatures : SignatureTable} {oracle : Oracle} {env env' : Env}

mutual

/-- The scopes of an environment do not matter to an expression, only what names refer to. -/
theorem eval_congr (same : ∀ name, env'.lookup name = env.lookup name) : (e : Expr) →
    e.eval signatures oracle env' = e.eval signatures oracle env
  | .literal .. => by simp only [eval]
  | .var _ name => by simp only [eval, same]
  | .call _ target args => by simp only [eval, evalAll_congr same args]
  | .unary _ op operand => by simp only [eval, eval_congr same operand]
  | .binary _ op lhs rhs | .logic _ op lhs rhs => by
    simp only [eval, eval_congr same lhs, eval_congr same rhs]

theorem evalAll_congr (same : ∀ name, env'.lookup name = env.lookup name) : (es : List Expr) →
    evalAll signatures oracle env' es = evalAll signatures oracle env es
  | [] => by simp only [evalAll]
  | e :: es => by simp only [evalAll, eval_congr same e, evalAll_congr same es]

end

theorem evalOpt_congr (same : ∀ name, env'.lookup name = env.lookup name) (e : Option Expr) :
    evalOpt signatures oracle env' e = evalOpt signatures oracle env e := by
  cases e with
  | none => rfl
  | some e => simp only [evalOpt, eval_congr same e]

end Expr

/-- The second frame has an empty scope more, below so many others. -/
def Frame.Padded (depth : Nat) (s t : Frame) : Prop :=
  Env.Padded depth s.env t.env ∧ t.calls = s.calls

namespace ExecM

variable {α β : Type} {depth : Nat}

/-- Outcomes that differ by the additional scope alone. -/
def Agree (depth : Nat) (r r' : EStateM.Result Halt Frame α) : Prop :=
  ∃ s t, Frame.Padded depth s t ∧
    ((∃ a, r = .ok a s ∧ r' = .ok a t) ∨ ∃ h, r = .error h s ∧ r' = .error h t)

theorem Agree.ok {s t : Frame} (padded : Frame.Padded depth s t) (a : α) :
    Agree depth (.ok a s) (.ok a t) :=
  ⟨s, t, padded, .inl ⟨a, rfl, rfl⟩⟩

theorem Agree.error {s t : Frame} (padded : Frame.Padded depth s t) (h : Halt) :
    Agree depth (.error h s : EStateM.Result Halt Frame α) (.error h t) :=
  ⟨s, t, padded, .inr ⟨h, rfl, rfl⟩⟩

/-- An additional empty scope at this depth makes no difference to the computation, which leaves
that scope empty. -/
def Unnoticed (depth : Nat) (x : ExecM α) : Prop :=
  ∀ s t, Frame.Padded depth s t → Agree depth (x s) (x t)

theorem Unnoticed.pure (a : α) : Unnoticed depth (Pure.pure a) :=
  fun _ _ padded => .ok padded a

theorem unnoticed_throw (h : Halt) : Unnoticed depth (throw h : ExecM α) :=
  fun _ _ padded => .error padded h

theorem Unnoticed.bind {x : ExecM α} {f : α → ExecM β} (first : Unnoticed depth x)
    (next : ∀ a, Unnoticed depth (f a)) : Unnoticed depth (x >>= f) := by
  intro s t padded
  simp only [bind_apply]
  obtain ⟨u, v, after, ⟨a, left, right⟩ | ⟨h, left, right⟩⟩ := first s t padded
  · rw [left, right]
    exact next a u v after
  · rw [left, right]
    exact .error after h

theorem unnoticed_ofEval {x : Env → EvalM α}
    (congr : ∀ env env', (∀ name, Env.lookup env' name = Env.lookup env name) → x env' = x env) :
    Unnoticed depth (ofEval x) := by
  rintro s t ⟨padded, same⟩
  simp only [ofEval, congr s.env t.env padded.lookup, same]
  cases x s.env s.calls with
  | ok a after =>
      refine Agree.ok ?_ a
      exact ⟨padded, rfl⟩
  | error e after =>
      refine Agree.error ?_ (.ended e)
      exact ⟨padded, rfl⟩

theorem unnoticed_declare (name : String) (value : Option Value) :
    Unnoticed (depth + 1) (declare name value) := by
  rintro s t ⟨padded, same⟩
  refine Agree.ok ?_ ()
  exact ⟨padded.declare name value, same⟩

theorem unnoticed_assign (name : String) (value : Value) : Unnoticed depth (assign name value) := by
  rintro s t ⟨⟨inner, outer, rfl, before, after⟩, same⟩
  simp only [assign, before, after]
  rcases Env.assign_padded name value inner outer with ⟨missing, missing'⟩ |
    ⟨env, env', padded, found, found'⟩
  · rw [missing, missing']
    exact .error ⟨⟨inner, outer, rfl, before, after⟩, same⟩ _
  · rw [found, found']
    refine Agree.ok ?_ ()
    exact ⟨padded, same⟩

theorem Unnoticed.inScope {x : ExecM α} (h : Unnoticed (depth + 1) x) :
    Unnoticed depth (ExecM.inScope x) := by
  rintro s t ⟨padded, same⟩
  simp only [ExecM.inScope]
  obtain ⟨u, v, after, ⟨a, left, right⟩ | ⟨h, left, right⟩⟩ :=
    h { s with env := [] :: s.env } { t with env := [] :: t.env } ⟨padded.push, same⟩
  · rw [left, right]
    refine Agree.ok ?_ a
    exact ⟨after.1.tail, after.2⟩
  · rw [left, right]
    refine Agree.error ?_ h
    exact ⟨after.1.tail, after.2⟩

theorem ofEval_pure (a : α) : ofEval (fun _ => Pure.pure a) = Pure.pure a := rfl

/-- Evaluation does not change the locals, so it can be cut into steps. -/
theorem ofEval_bind (x : Env → EvalM α) (f : α → Env → EvalM β) :
    ofEval (fun env => x env >>= (f · env)) = ofEval x >>= fun a => ofEval (f a) := by
  funext s
  simp only [ofEval, bind_apply]
  cases x s.env s.calls <;> rfl

/-- What does not notice an empty innermost scope can do without one. -/
theorem Unnoticed.inScope_eq {x : ExecM α} (h : Unnoticed 0 x) : ExecM.inScope x = x := by
  funext s
  have dropped : ∀ {u v : Frame}, Frame.Padded 0 u v → { v with env := v.env.tail } = u := by
    rintro u v ⟨⟨inner, outer, length, before, after⟩, same⟩
    obtain rfl := List.eq_nil_of_length_eq_zero length
    rw [after, same, List.nil_append, List.tail_cons]
    exact congrArg (Frame.mk · u.calls) before.symm
  simp only [ExecM.inScope]
  obtain ⟨u, v, after, ⟨a, left, right⟩ | ⟨h, left, right⟩⟩ :=
    h s { s with env := [] :: s.env } ⟨⟨[], s.env, rfl, rfl, rfl⟩, rfl⟩
  · rw [left, right]
    exact congrArg (EStateM.Result.ok a) (dropped after)
  · rw [left, right]
    exact congrArg (EStateM.Result.error h) (dropped after)

theorem Unnoticed.loop {test : ExecM Bool} {body : ExecM Unit} (tested : Unnoticed depth test)
    (run : Unnoticed depth body) (rounds : Nat) :
    Unnoticed depth (ExecM.loop test body rounds) := by
  induction rounds with
  | zero =>
      rw [ExecM.loop]
      refine tested.bind fun again => ?_
      cases again with
      | false => exact .pure ()
      | true => exact unnoticed_throw _
  | succ rounds ih =>
      rw [ExecM.loop]
      refine tested.bind fun again => ?_
      cases again with
      | false => exact .pure ()
      | true => exact run.bind fun _ => ih

end ExecM

namespace Stmt

variable {signatures : SignatureTable} {oracle : Oracle} {rounds : Nat}

mutual

/-- An empty scope is noticed only by a declaration that stands directly in it. -/
theorem exec_unnoticed {depth : Nat} : (s : Stmt) → s.contained = true →
    0 < depth ∨ s.isDecl = false → ExecM.Unnoticed depth (s.exec signatures oracle rounds)
  | .ite _ condition positive negative, h, _ => by
    simp only [contained, Bool.and_eq_true] at h
    simp only [exec]
    refine ExecM.Unnoticed.bind (ExecM.unnoticed_ofEval fun env env' same => ?_) fun holds => ?_
    · simp only [Expr.test, Expr.eval_congr same]
    · cases holds with
      | true => exact execOpt_unnoticed positive h.1
      | false => exact execOpt_unnoticed negative h.2
  | .block _ body, h, _ => by
    simp only [contained] at h
    simp only [exec]
    exact (execAll_unnoticed body h (.inl (Nat.succ_pos depth))).inScope
  | .decl _ name _ value, _, inside => by
    obtain positive | impossible := inside
    · obtain ⟨depth, rfl⟩ := Nat.exists_eq_add_one.2 positive
      simp only [exec]
      refine ExecM.Unnoticed.bind (ExecM.unnoticed_ofEval fun env env' same => ?_) fun initial => ?_
      · exact Expr.evalOpt_congr same value
      · exact ExecM.unnoticed_declare name.name initial
    · cases impossible
  | .assign _ target value, _, _ => by
    simp only [exec]
    refine ExecM.Unnoticed.bind (ExecM.unnoticed_ofEval fun env env' same => ?_) fun v => ?_
    · exact Expr.eval_congr same value
    · exact ExecM.unnoticed_assign target.name v
  | .ret _ value, _, _ => by
    simp only [exec]
    refine ExecM.Unnoticed.bind (ExecM.unnoticed_ofEval fun env env' same => ?_) fun v => ?_
    · exact Expr.evalOpt_congr same value
    · exact ExecM.unnoticed_throw _
  | .loop _ condition body, h, _ => by
    simp only [contained, Bool.and_eq_true, Bool.not_eq_true'] at h
    simp only [exec]
    refine ExecM.Unnoticed.loop (ExecM.unnoticed_ofEval fun env env' same => ?_) ?_ rounds
    · simp only [Expr.test, Expr.eval_congr same]
    · exact exec_unnoticed body h.2 (.inr h.1)
  | .eval _ value, _, _ => by
    simp only [exec]
    refine ExecM.Unnoticed.bind (ExecM.unnoticed_ofEval fun env env' same => ?_) fun _ => ?_
    · exact Expr.eval_congr same value
    · exact .pure ()
  | .skip _, _, _ => by
    simp only [exec]
    exact .pure ()

theorem execOpt_unnoticed {depth : Nat} : (s : Option Stmt) → containedOpt s = true →
    ExecM.Unnoticed depth (execOpt signatures oracle rounds s)
  | none, _ => by
    simp only [execOpt]
    exact .pure ()
  | some s, h => by
    simp only [containedOpt, Bool.and_eq_true, Bool.not_eq_true'] at h
    simp only [execOpt]
    exact exec_unnoticed s h.2 (.inr h.1)

theorem execAll_unnoticed {depth : Nat} : (ss : List Stmt) → containedAll ss = true →
    0 < depth ∨ ss.any isDecl = false → ExecM.Unnoticed depth (execAll signatures oracle rounds ss)
  | [], _, _ => by
    simp only [execAll]
    exact .pure ()
  | s :: rest, h, inside => by
    simp only [containedAll, Bool.and_eq_true] at h
    simp only [List.any_cons, Bool.or_eq_false_iff] at inside
    simp only [execAll]
    refine (exec_unnoticed s h.1 (inside.imp_right And.left)).bind fun _ => ?_
    exact execAll_unnoticed rest h.2 (inside.imp_right And.right)

end

theorem containedAll_append (ss ts : List Stmt) :
    containedAll (ss ++ ts) = (containedAll ss && containedAll ts) := by
  induction ss with
  | nil => simp only [List.nil_append, containedAll, Bool.true_and]
  | cons s rest ih => simp only [List.cons_append, containedAll, ih, Bool.and_assoc]

theorem containedAll_spliced {s : Stmt} (h : s.contained = true) :
    containedAll s.spliced = true := by
  cases s with
  | skip => simp only [spliced, containedAll]
  | block span body =>
      simp only [spliced]
      split
      · simp only [containedAll, h, Bool.and_self]
      · simpa only [contained] using h
  | ite | decl | assign | ret | loop | eval =>
      simp only [spliced, containedAll, h, Bool.and_self]

theorem contained_collapse {span : Span} {condition : Expr} {positive negative : Option Stmt}
    (h : containedOpt positive = true) (h' : containedOpt negative = true) :
    (collapse span condition positive negative).contained = true := by
  simp only [collapse]
  split
  · simp only [containedOpt, contained, containedAll, Bool.and_eq_true] at h
    simp only [contained, containedOpt, Bool.and_eq_true]
    exact ⟨h.2.1.1, trivial⟩
  · simp only [contained, h, h', Bool.and_self]

theorem isDecl_collapse (span : Span) (condition : Expr) (positive negative : Option Stmt) :
    (collapse span condition positive negative).isDecl = false := by
  simp only [collapse]
  split <;> rfl

/-- A branch that takes the place of its conditional. -/
theorem contained_getD {s : Option Stmt} (h : containedOpt s = true) (span : Span) :
    (s.getD (.skip span)).contained = true ∧ (s.getD (.skip span)).isDecl = false := by
  cases s with
  | none => exact ⟨by simp only [Option.getD_none, contained], rfl⟩
  | some s =>
      simp only [containedOpt, Bool.and_eq_true, Bool.not_eq_true'] at h
      exact ⟨h.2, h.1⟩

section Cases

variable {ctx : Context} {span : Span} {condition : Expr} {s' : Stmt}

/-- A conditional is replaced by one of its branches if its condition is constant. -/
theorem simplify_ite {positive negative : Option Stmt}
    (h : (ite span condition positive negative).simplify ctx = .ok s') :
    ∃ condition', condition.simplify = .ok condition' ∧
      ((condition'.constantCondition ctx = .ok (some true) ∧
          ∃ positive', simplifyOpt ctx positive = .ok positive' ∧
            s' = positive'.getD (.skip span)) ∨
        (condition'.constantCondition ctx = .ok (some false) ∧
          ∃ negative', simplifyOpt ctx negative = .ok negative' ∧
            s' = negative'.getD (.skip span)) ∨
        (condition'.constantCondition ctx = .ok none ∧
          ∃ positive' negative', simplifyOpt ctx positive = .ok positive' ∧
            simplifyOpt ctx negative = .ok negative' ∧
            s' = collapse span condition' positive' negative')) := by
  simp only [simplify, except_bind_eq_ok] at h
  obtain ⟨condition', folded, known, constant, h⟩ := h
  refine ⟨condition', folded, ?_⟩
  split at h
  · simp only [except_bind_eq_ok, except_pure_eq_ok] at h
    obtain ⟨positive', simplified, rfl⟩ := h
    exact .inl ⟨constant, positive', simplified, rfl⟩
  · simp only [except_bind_eq_ok, except_pure_eq_ok] at h
    obtain ⟨negative', simplified, rfl⟩ := h
    exact .inr (.inl ⟨constant, negative', simplified, rfl⟩)
  · simp only [except_bind_eq_ok, except_pure_eq_ok] at h
    obtain ⟨positive', first, negative', second, rfl⟩ := h
    exact .inr (.inr ⟨constant, positive', negative', first, second, rfl⟩)

/-- A loop is dropped if its condition never holds. -/
theorem simplify_loop {body : Stmt} (h : (loop span condition body).simplify ctx = .ok s') :
    ∃ condition', condition.simplify = .ok condition' ∧
      ((condition'.constantCondition ctx = .ok (some false) ∧ s' = .skip span) ∨
        (condition'.constantCondition ctx ≠ .ok (some false) ∧
          ∃ body', body.simplify ctx = .ok body' ∧ s' = .loop span condition' body')) := by
  simp only [simplify, except_bind_eq_ok] at h
  obtain ⟨condition', folded, known, constant, h⟩ := h
  refine ⟨condition', folded, ?_⟩
  split at h
  · next never =>
    rw [never] at constant
    exact .inl ⟨constant, (except_pure_eq_ok.1 h).symm⟩
  · next goes =>
    simp only [except_bind_eq_ok, except_pure_eq_ok] at h
    obtain ⟨body', simplified, rfl⟩ := h
    refine .inr ⟨fun never => goes ?_, body', simplified, rfl⟩
    exact Except.ok.inj (constant.symm.trans never)

/-- What one round of simplification keeps is kept by any number of them. -/
theorem simplifyTimes_keeps {P : Stmt → Prop}
    (step : ∀ {s s'}, P s → s.simplify ctx = .ok s' → P s') {n : Nat} {s : Stmt} (holds : P s)
    (h : s.simplifyTimes ctx n = .ok s') : P s' := by
  induction n generalizing s with
  | zero =>
      simp only [simplifyTimes, Except.ok.injEq] at h
      exact h ▸ holds
  | succ n ih =>
      simp only [simplifyTimes, except_bind_eq_ok] at h
      obtain ⟨next, once, h⟩ := h
      split at h
      · exact except_pure_eq_ok.1 h ▸ step holds once
      · exact ih (step holds once) h

end Cases

mutual

/-- Declarations stay where they are, directly in blocks. -/
theorem contained_simplify (ctx : Context) : (s : Stmt) → {s' : Stmt} → s.contained = true →
    s.simplify ctx = .ok s' → s'.contained = true ∧ s'.isDecl = s.isDecl
  | .ite span condition positive negative, _, h, simplified => by
    simp only [contained, Bool.and_eq_true] at h
    obtain ⟨condition', _, ⟨_, positive', first, rfl⟩ | ⟨_, negative', second, rfl⟩ |
      ⟨_, positive', negative', first, second, rfl⟩⟩ := simplify_ite simplified
    · exact contained_getD (containedOpt_simplify ctx positive h.1 first) span
    · exact contained_getD (containedOpt_simplify ctx negative h.2 second) span
    · refine ⟨contained_collapse ?_ ?_, isDecl_collapse _ _ _ _⟩
      · exact containedOpt_simplify ctx positive h.1 first
      · exact containedOpt_simplify ctx negative h.2 second
  | .block span body, _, h, simplified => by
    simp only [contained] at h
    simp only [simplify, except_bind_eq_ok, except_pure_eq_ok] at simplified
    obtain ⟨body', simplified, rfl⟩ := simplified
    simp only [contained]
    exact ⟨containedAll_simplify ctx body h simplified, rfl⟩
  | .loop span condition body, _, h, simplified => by
    simp only [contained, Bool.and_eq_true, Bool.not_eq_true'] at h
    obtain ⟨condition', _, ⟨_, rfl⟩ | ⟨_, body', round, rfl⟩⟩ := simplify_loop simplified
    · exact ⟨by simp only [contained], rfl⟩
    · obtain ⟨inside, kind⟩ := contained_simplify ctx body h.2 round
      refine ⟨?_, rfl⟩
      simp only [contained, inside, kind, h.1, Bool.not_false, Bool.and_self]
  | .decl .., _, _, simplified | .assign .., _, _, simplified | .ret .., _, _, simplified
  | .eval .., _, _, simplified => by
    simp only [simplify, except_bind_eq_ok, except_pure_eq_ok] at simplified
    obtain ⟨_, _, rfl⟩ := simplified
    exact ⟨by simp only [contained], rfl⟩
  | .skip span, _, _, simplified => by
    simp only [simplify, Except.ok.injEq] at simplified
    subst simplified
    exact ⟨by simp only [contained], rfl⟩

theorem containedOpt_simplify (ctx : Context) : (s : Option Stmt) → {s' : Option Stmt} →
    containedOpt s = true → simplifyOpt ctx s = .ok s' → containedOpt s' = true
  | none, _, _, simplified => by
    simp only [simplifyOpt, Except.ok.injEq] at simplified
    subst simplified
    simp only [containedOpt]
  | some s, _, h, simplified => by
    simp only [containedOpt, Bool.and_eq_true, Bool.not_eq_true'] at h
    simp only [simplifyOpt, except_bind_eq_ok, except_pure_eq_ok] at simplified
    obtain ⟨s', simplified, rfl⟩ := simplified
    obtain ⟨inside, kind⟩ := contained_simplify ctx s h.2 simplified
    simp only [containedOpt, inside, kind, h.1, Bool.not_false, Bool.and_self]

theorem containedAll_simplify (ctx : Context) : (ss : List Stmt) → {ss' : List Stmt} →
    containedAll ss = true → simplifyAll ctx ss = .ok ss' → containedAll ss' = true
  | [], _, _, simplified => by
    simp only [simplifyAll, Except.ok.injEq] at simplified
    subst simplified
    simp only [containedAll]
  | s :: rest, _, h, simplified => by
    simp only [containedAll, Bool.and_eq_true] at h
    simp only [simplifyAll, except_bind_eq_ok, except_pure_eq_ok] at simplified
    obtain ⟨s', first, rest', others, rfl⟩ := simplified
    simp only [containedAll_append, Bool.and_eq_true]
    exact ⟨containedAll_spliced (contained_simplify ctx s h.1 first).1,
      containedAll_simplify ctx rest h.2 others⟩

end

theorem execAll_append (ss ts : List Stmt) :
    execAll signatures oracle rounds (ss ++ ts) =
      (do execAll signatures oracle rounds ss; execAll signatures oracle rounds ts) := by
  induction ss with
  | nil => simp only [List.nil_append, execAll, pure_bind]
  | cons s rest ih => simp only [List.cons_append, execAll, ih, bind_assoc]

theorem execAll_singleton (s : Stmt) :
    execAll signatures oracle rounds [s] = s.exec signatures oracle rounds := by
  simp only [execAll, bind_pure_comp, id_map']

/-- A block that declares nothing can do without its braces. -/
theorem exec_block {body : List Stmt} (h : containedAll body = true)
    (bare : body.any isDecl = false) (span : Span) :
    (Stmt.block span body).exec signatures oracle rounds =
      execAll signatures oracle rounds body := by
  simp only [exec]
  exact (execAll_unnoticed body h (.inr bare)).inScope_eq

theorem execAll_spliced {s : Stmt} (h : s.contained = true) :
    execAll signatures oracle rounds s.spliced = s.exec signatures oracle rounds := by
  cases s with
  | skip => simp only [spliced, execAll, exec]
  | block span body =>
      simp only [spliced]
      split
      · exact execAll_singleton _
      · next bare =>
        simp only [contained] at h
        exact (exec_block h (Bool.not_eq_true _ ▸ bare) span).symm
  | ite | decl | assign | ret | loop | eval => exact execAll_singleton _

theorem exec_getD (s : Option Stmt) (span : Span) :
    (s.getD (.skip span)).exec signatures oracle rounds = execOpt signatures oracle rounds s := by
  cases s with
  | none => simp only [Option.getD_none, exec, execOpt]
  | some s => simp only [Option.getD_some, execOpt]

/-- One conditional on both conditions runs as the second inside the first: the inner condition is
evaluated only if the outer one holds. -/
theorem exec_collapse {positive : Option Stmt} (h : containedOpt positive = true) (span : Span)
    (condition : Expr) (negative : Option Stmt) :
    (collapse span condition positive negative).exec signatures oracle rounds =
      (Stmt.ite span condition positive negative).exec signatures oracle rounds := by
  simp only [collapse]
  split
  · next outer inner second body =>
    simp only [containedOpt, contained, Bool.and_eq_true] at h
    have bare :
        ExecM.inScope (execAll signatures oracle rounds [.ite inner second (some body) none]) =
          (Stmt.ite inner second (some body) none).exec signatures oracle rounds := by
      rw [← execAll_singleton]
      exact (execAll_unnoticed _ h.2 (.inr rfl)).inScope_eq
    have both : ExecM.ofEval (Expr.test signatures oracle
          (.logic (condition.span.cover second.span) .and condition second)) =
        ExecM.ofEval (condition.test signatures oracle) >>= fun holds =>
          ExecM.ofEval fun env =>
            if holds then second.test signatures oracle env else pure false := by
      rw [← ExecM.ofEval_bind]
      exact congrArg ExecM.ofEval (funext (Expr.test_and _ condition second))
    simp only [exec, execOpt] at bare ⊢
    rw [bare, both, bind_assoc]
    refine bind_congr fun holds => ?_
    cases holds with
    | false => rfl
    | true => rfl
  · rfl

mutual

theorem exec_simplify (ctx : Context) : (s : Stmt) → {s' : Stmt} → s.contained = true →
    s.simplify ctx = .ok s' → s'.exec signatures oracle rounds = s.exec signatures oracle rounds
  | .ite span condition positive negative, _, h, simplified => by
    simp only [contained, Bool.and_eq_true] at h
    obtain ⟨condition', folded, branches⟩ := simplify_ite simplified
    have tested : condition'.test signatures oracle = condition.test signatures oracle :=
      Expr.test_simplify folded
    obtain ⟨constant, positive', first, rfl⟩ | ⟨constant, negative', second, rfl⟩ |
      ⟨_, positive', negative', first, second, rfl⟩ := branches
    · rw [exec_getD, execOpt_simplify ctx positive h.1 first, exec, ← tested]
      rw [funext (Expr.test_of_constantCondition constant), ExecM.ofEval_pure, pure_bind,
        if_pos rfl]
    · rw [exec_getD, execOpt_simplify ctx negative h.2 second, exec, ← tested]
      rw [funext (Expr.test_of_constantCondition constant), ExecM.ofEval_pure, pure_bind,
        if_neg Bool.false_ne_true]
    · rw [exec_collapse (containedOpt_simplify ctx positive h.1 first), exec, exec, tested,
        execOpt_simplify ctx positive h.1 first, execOpt_simplify ctx negative h.2 second]
  | .block span body, _, h, simplified => by
    simp only [contained] at h
    simp only [simplify, except_bind_eq_ok, except_pure_eq_ok] at simplified
    obtain ⟨body', simplified, rfl⟩ := simplified
    rw [exec, exec, execAll_simplify ctx body h simplified]
  | .decl span name ty value, _, _, simplified => by
    simp only [simplify, except_bind_eq_ok, except_pure_eq_ok] at simplified
    obtain ⟨value', folded, rfl⟩ := simplified
    simp only [exec, Expr.evalOpt_simplify folded]
  | .assign span target value, _, _, simplified => by
    simp only [simplify, except_bind_eq_ok, except_pure_eq_ok] at simplified
    obtain ⟨value', folded, rfl⟩ := simplified
    simp only [exec]
    rw [funext fun env => Expr.eval_simplify env value folded]
  | .ret span value, _, _, simplified => by
    simp only [simplify, except_bind_eq_ok, except_pure_eq_ok] at simplified
    obtain ⟨value', folded, rfl⟩ := simplified
    simp only [exec, Expr.evalOpt_simplify folded]
  | .loop span condition body, _, h, simplified => by
    simp only [contained, Bool.and_eq_true, Bool.not_eq_true'] at h
    obtain ⟨condition', folded, rest⟩ := simplify_loop simplified
    have tested : condition'.test signatures oracle = condition.test signatures oracle :=
      Expr.test_simplify folded
    obtain ⟨constant, rfl⟩ | ⟨_, body', round, rfl⟩ := rest
    · -- A condition that never holds leaves nothing of the loop, whatever the rounds.
      rw [exec, exec, ← tested, funext (Expr.test_of_constantCondition constant),
        ExecM.ofEval_pure]
      cases rounds <;> rfl
    · rw [exec, exec, tested, exec_simplify ctx body h.2 round]
  | .eval span value, _, _, simplified => by
    simp only [simplify, except_bind_eq_ok, except_pure_eq_ok] at simplified
    obtain ⟨value', folded, rfl⟩ := simplified
    simp only [exec]
    rw [funext fun env => Expr.eval_simplify env value folded]
  | .skip span, _, _, simplified => by
    simp only [simplify, Except.ok.injEq] at simplified
    rw [simplified]

theorem execOpt_simplify (ctx : Context) : (s : Option Stmt) → {s' : Option Stmt} →
    containedOpt s = true → simplifyOpt ctx s = .ok s' →
    execOpt signatures oracle rounds s' = execOpt signatures oracle rounds s
  | none, _, _, simplified => by
    simp only [simplifyOpt, Except.ok.injEq] at simplified
    rw [simplified]
  | some s, _, h, simplified => by
    simp only [containedOpt, Bool.and_eq_true, Bool.not_eq_true'] at h
    simp only [simplifyOpt, except_bind_eq_ok, except_pure_eq_ok] at simplified
    obtain ⟨s', simplified, rfl⟩ := simplified
    rw [execOpt, execOpt, exec_simplify ctx s h.2 simplified]

theorem execAll_simplify (ctx : Context) : (ss : List Stmt) → {ss' : List Stmt} →
    containedAll ss = true → simplifyAll ctx ss = .ok ss' →
    execAll signatures oracle rounds ss' = execAll signatures oracle rounds ss
  | [], _, _, simplified => by
    simp only [simplifyAll, Except.ok.injEq] at simplified
    rw [simplified]
  | s :: rest, _, h, simplified => by
    simp only [containedAll, Bool.and_eq_true] at h
    simp only [simplifyAll, except_bind_eq_ok, except_pure_eq_ok] at simplified
    obtain ⟨s', first, rest', others, rfl⟩ := simplified
    rw [execAll_append, execAll_spliced (contained_simplify ctx s h.1 first).1,
      exec_simplify ctx s h.1 first, execAll_simplify ctx rest h.2 others, execAll]

end

theorem exec_simplifyTimes (ctx : Context) (n : Nat) {s s' : Stmt} (h : s.contained = true)
    (simplified : s.simplifyTimes ctx n = .ok s') :
    s'.exec signatures oracle rounds = s.exec signatures oracle rounds := by
  have step : ∀ {t t' : Stmt},
      t.contained = true ∧ t.exec signatures oracle rounds = s.exec signatures oracle rounds →
      t.simplify ctx = .ok t' →
      t'.contained = true ∧ t'.exec signatures oracle rounds = s.exec signatures oracle rounds := by
    rintro t t' ⟨inside, same⟩ once
    exact ⟨(contained_simplify ctx t inside once).1, (exec_simplify ctx t inside once).trans same⟩
  exact (simplifyTimes_keeps step ⟨h, rfl⟩ simplified).2

end Stmt

/-- However often a function is simplified, it runs as before: from the same arguments and with the
same answers it makes the same calls, and it ends in the same way or runs on for ever. Not even the
rounds that its loops make differ. -/
theorem Function.run_simplify {signatures : SignatureTable} {passes : Nat} {f f' : Function}
    (braced : f.body.braced = true) (simplified : f.simplify signatures passes = .ok f')
    (oracle : Oracle) (args : List Value) :
    f'.run signatures oracle args = f.run signatures oracle args := by
  simp only [simplify, except_bind_eq_ok, except_pure_eq_ok] at simplified
  obtain ⟨body, simplified, rfl⟩ := simplified
  ext rounds
  have contained := Stmt.contained_of_braced f.body braced
  have same : body.exec signatures oracle rounds = f.body.exec signatures oracle rounds :=
    Stmt.exec_simplifyTimes _ _ contained simplified
  change f.moment (body.exec signatures oracle rounds (f.enter args)) = _
  rw [same]
  rfl

section Nested

private def here : Span := ⟨0, 0⟩

private def flag (name : String) : Expr := .var here ⟨name, here⟩

private def chooser (body : List Stmt) : Function where
  header :=
    { name := ⟨"choose", here⟩
      params := [⟨⟨"a", here⟩, .bool, here⟩, ⟨⟨"b", here⟩, .bool, here⟩]
      returnType := .int
      span := here }
  body := .block here body
  span := here

/-- `if a { while false { } if b { return 1 + 2; } } return 0;` -/
def nested : Function :=
  let sum := .binary here .add (.literal here (.int 1)) (.literal here (.int 2))
  let inner := .ite here (flag "b") (some (.block here [.ret here (some sum)])) none
  let idle := .loop here (.literal here (.bool false)) (.block here [])
  chooser
    [.ite here (flag "a") (some (.block here [idle, inner])) none,
      .ret here (some (.literal here (.int 0)))]

/-- `if a && b { return 3; } return 0;` -/
def flattened : Function :=
  chooser
    [.ite here (.logic here .and (flag "a") (flag "b"))
        (some (.block here [.ret here (some (.literal here (.int 3)))])) none,
      .ret here (some (.literal here (.int 0)))]

theorem Function.run_simplify_nested :
    nested.body.braced = true ∧ nested.simplify .empty 8 = .ok flattened ∧
      flattened.run .empty (fun _ _ _ => .unit) [.bool true, .bool true] =
        nested.run .empty (fun _ _ _ => .unit) [.bool true, .bool true] := by
  have braced : nested.body.braced = true := by decide
  have simplified : nested.simplify .empty 8 = .ok flattened := by rfl
  exact ⟨braced, simplified, run_simplify braced simplified _ _⟩

end Nested

end Rill
