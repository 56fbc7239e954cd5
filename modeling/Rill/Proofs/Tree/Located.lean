import Rill.Proofs.Computation
import Rill.Proofs.Tree.Node
import Rill.Tree.Simplify

/-!
# Errors stand at nodes

Checking and simplifying a tree fails only at a span of the tree, and the nodes of a simplified
tree have spans of the tree before or such that cover some of them. So whatever is true of all
spans of a tree and of the spans that cover others is true of the errors.
-/

namespace Rill

/-- The span of the node and all spans below it have the property. -/
def Node.All (P : Span → Prop) (node : Node) : Prop :=
  ∀ inner, node.Holds inner → P inner.span

namespace Node.All

variable {P : Span → Prop} {node : Node}

theorem here (h : node.All P) : P node.span :=
  h node .refl

theorem child (h : node.All P) {child : Node} (mem : child ∈ node.children) : child.All P :=
  fun inner below => h inner (.head mem below)

/-- The property of a node and of all below its children is that of all below the node. -/
theorem mk (here : P node.span) (below : ∀ child ∈ node.children, child.All P) : node.All P := by
  intro inner holds
  cases Relation.ReflTransGen.cases_head holds with
  | inl same => exact same ▸ here
  | inr step =>
      obtain ⟨child, mem, holds⟩ := step
      exact below child mem inner holds

end Node.All

/-- A result is good, and an error stands at a good place. -/
def Located {α : Type} (P : Span → Prop) (good : α → Prop) : Except CompileError α → Prop
  | .ok a => good a
  | .error e => P e.span

namespace Located

variable {α β : Type} {P : Span → Prop} {good : α → Prop} {good' : β → Prop}

/-- Errors of the second step count only for good results of the first one. -/
theorem bind {x : Except CompileError α} {f : α → Except CompileError β} (first : Located P good x)
    (next : ∀ a, good a → Located P good' (f a)) : Located P good' (x >>= f) := by
  cases x with
  | ok a => exact next a first
  | error e => exact first

end Located

/-- An error of a computation with a state is a good one, whatever the state is. -/
def FailsWith {ε σ α : Type} (good : ε → Prop) (x : EStateM ε σ α) : Prop :=
  ∀ s e t, x s = .error e t → good e

namespace FailsWith

variable {ε σ α β : Type} {good : ε → Prop}

theorem pure (a : α) : FailsWith good (Pure.pure a : EStateM ε σ α) := by
  rintro _ _ _ ⟨⟩

theorem throw {e : ε} (h : good e) : FailsWith good (MonadExcept.throw e : EStateM ε σ α) := by
  rintro _ _ _ ⟨⟩
  exact h

/-- Nothing comes after an error. -/
theorem throw_bind {e : ε} (h : good e) (f : α → EStateM ε σ β) :
    FailsWith good (MonadExcept.throw e >>= f) := by
  rintro _ _ _ ⟨⟩
  exact h

theorem get : FailsWith good (MonadState.get : EStateM ε σ σ) := by
  rintro _ _ _ ⟨⟩

theorem update (f : σ → σ) : FailsWith good (modify f : EStateM ε σ PUnit) := by
  rintro _ _ _ ⟨⟩

theorem set (s : σ) : FailsWith good (MonadStateOf.set s : EStateM ε σ PUnit) := by
  rintro _ _ _ ⟨⟩

/-- Unlike results, errors are judged alike in every step. -/
theorem bind {x : EStateM ε σ α} {f : α → EStateM ε σ β} (first : FailsWith good x)
    (next : ∀ a, FailsWith good (f a)) : FailsWith good (x >>= f) := by
  intro s e t failed
  rw [bind_apply] at failed
  split at failed
  · next a u _ => exact next a u e t failed
  · next e' u before =>
    cases failed
    exact first s e t before

end FailsWith

section Types

variable {P : Span → Prop}

theorem SignatureTable.located_lookup {name : Ident} (here : P name.span) (t : SignatureTable) :
    Located P (fun _ => True) (t.lookup name) := by
  rw [lookup]
  split
  · trivial
  · exact here

theorem Context.located_lookup {name : Ident} (here : P name.span) (ctx : Context) :
    Located P (fun _ => True) (ctx.lookup name) := by
  rw [lookup]
  split
  · trivial
  · exact here

/-- A second declaration in one scope has to be of the same type. If it is not, the error stands at
its name. -/
theorem Context.located_declare {name : Ident} (here : P name.span) (ctx : Context) (ty : Ty) :
    Located P (fun _ => True) (ctx.declare name ty) := by
  rw [declare]
  split
  · split
    · trivial
    · exact here
  · trivial

mutual

/-- Types are found or the error stands at a node of the expression. -/
theorem Expr.located_ty (ctx : Context) : (e : Expr) → (Node.expr e).All P →
    Located P (fun _ => True) (e.ty ctx)
  | .literal _ _, _ => by
    rw [ty]
    trivial
  | .var _ name, all => by
    rw [ty]
    exact (ctx.located_lookup (all.child (.head _)).here).bind fun _ _ => trivial
  | .call span target args, all => by
    rw [ty]
    refine (ctx.signatures.located_lookup (all.child (.head _)).here).bind fun signature _ => ?_
    split
    · exact all.here
    · have below : ∀ arg ∈ args, (Node.expr arg).All P :=
        fun arg mem => all.child (.tail _ (List.mem_map_of_mem mem))
      exact (located_checkArgs ctx args below _).bind fun _ _ => trivial
  | .unary span op operand, all => by
    rw [ty]
    refine (operand.located_ty ctx (all.child (.head _))).bind fun ty _ => ?_
    split
    · trivial
    · exact all.here
  | .binary span op lhs rhs, all => by
    rw [ty]
    refine (lhs.located_ty ctx (all.child (.head _))).bind fun left _ => ?_
    refine (rhs.located_ty ctx (all.child (.tail _ (.head _)))).bind fun right _ => ?_
    by_cases same : left = right
    · rw [if_neg (not_not_intro same)]
      show Located P _ (if _ then _ else _)
      split
      · trivial
      · exact all.here
    · rw [if_pos same]
      exact all.here
  | .logic span op lhs rhs, all => by
    rw [ty]
    have first := all.child (.head _)
    have second := all.child (.tail _ (.head _))
    refine (lhs.located_ty ctx first).bind fun left _ => ?_
    split
    · exact first.here
    · refine (rhs.located_ty ctx second).bind fun right _ => ?_
      split
      · exact second.here
      · trivial

theorem Expr.located_checkArgs (ctx : Context) : (args : List Expr) →
    (∀ arg ∈ args, (Node.expr arg).All P) → (params : List Ty) →
    Located P (fun _ => True) (checkArgs ctx args params)
  | [], _, params => by
    rw [checkArgs]
    · trivial
    · simp
  | arg :: args, all, [] => by
    rw [checkArgs]
    · trivial
    · simp
  | arg :: args, all, expected :: params => by
    rw [checkArgs]
    have first := all arg List.mem_cons_self
    refine (arg.located_ty ctx first).bind fun actual _ => ?_
    split
    · exact first.here
    · exact located_checkArgs ctx args (fun arg mem => all arg (List.mem_cons_of_mem _ mem)) params

end

/-- The type of a local can be wrong in three ways: there is none, it is the unit, or the initial
value has another one. Each has its own place in the statement. -/
theorem Stmt.located_declaredType (ctx : Context) {span : Span} {name : Ident}
    {written : Option Ty} {value : Option Expr}
    (all : (Node.stmt (.decl span name written value)).All P) :
    Located P (fun _ => True) (declaredType ctx span name written value) := by
  have unit : ∀ ty : Ty, Located P (fun _ => True)
      (if ty.isUnit then throw ⟨.invalidOperation .binding ty, span⟩ else pure ty) := by
    intro ty
    split
    · exact all.here
    · trivial
  cases value with
  | none =>
      cases written with
      | none => exact (all.child (.head _)).here
      | some ty => exact unit ty
  | some value =>
      have initial := all.child (.tail _ (.head _))
      cases written with
      | none => exact (value.located_ty ctx initial).bind fun ty _ => unit ty
      | some ty =>
          rw [declaredType]
          refine (value.located_ty ctx initial).bind fun actual _ => ?_
          by_cases same : ty = actual
          · rw [if_neg (not_not_intro same)]
            exact unit ty
          · rw [if_pos same]
            exact initial.here

theorem CheckM.failsWith_ofExcept {α : Type} {good : α → Prop} {x : Except CompileError α}
    (h : Located P good x) : FailsWith (P ·.span) (CheckM.ofExcept x) := by
  cases x with
  | ok a => exact .pure a
  | error e => exact .throw h

theorem CheckM.failsWith_inScope {α : Type} {x : CheckM α} (h : FailsWith (P ·.span) x) :
    FailsWith (P ·.span) (CheckM.inScope x) := by
  intro s e t failed
  rw [CheckM.inScope] at failed
  split at failed
  · cases failed
  · next e' t' before =>
    cases failed
    exact h _ e t' before

theorem Stmt.failsWith_bindLocal (s : Stmt) (all : (Node.stmt s).All P) :
    FailsWith (P ·.span) s.bindLocal := by
  cases s with
  | decl span name written value =>
      rw [bindLocal]
      refine .bind .get fun ctx => .bind ?_ fun ty => .bind .get fun ctx' => .bind ?_ fun _ =>
        .set _
      · exact CheckM.failsWith_ofExcept (located_declaredType ctx all)
      · exact CheckM.failsWith_ofExcept (ctx'.located_declare (all.child (.head _)).here ty)
  | _ => exact .pure ()

mutual

/-- Return analysis fails at a node of the statement. -/
theorem Stmt.failsWith_returnType : (s : Stmt) → (Node.stmt s).All P →
    FailsWith (P ·.span) s.returnType
  | .ite _ _ _ none, _ => by
    rw [returnType]
    exact .pure none
  | .ite span _ none (some _), all => by
    rw [returnType]
    exact .throw all.here
  | .ite span condition (some positive) (some negative), all => by
    rw [returnType]
    refine .bind (positive.failsWith_returnType (all.child (.tail _ (.head _)))) fun first => ?_
    refine .bind (negative.failsWith_returnType (all.child (.tail _ (.tail _ (.head _)))))
      fun second => ?_
    split
    · split
      · exact .bind (.throw all.here) fun _ => .pure _
      · exact .pure _
    · exact .pure none
  | .block _ body, all => by
    rw [returnType]
    have below : ∀ s ∈ body, (Node.stmt s).All P :=
      fun s mem => all.child (List.mem_map_of_mem mem)
    exact CheckM.failsWith_inScope (failsWith_returnTypeAll body below)
  | .ret _ (some value), all => by
    rw [returnType]
    refine .bind .get fun ctx => .bind ?_ fun ty => .pure _
    exact CheckM.failsWith_ofExcept (value.located_ty ctx (all.child (.head _)))
  | .ret _ none, _ => by
    rw [returnType]
    exact .pure _
  | .decl .., _ | .assign .., _ | .loop .., _ | .eval .., _ | .skip _, _ => by
    rw [returnType]
    exact .pure none

theorem Stmt.failsWith_returnTypeAll : (body : List Stmt) → (∀ s ∈ body, (Node.stmt s).All P) →
    FailsWith (P ·.span) (returnTypeAll body)
  | [], _ => by
    rw [returnTypeAll]
    exact .pure none
  | s :: rest, all => by
    rw [returnTypeAll]
    have first := all s List.mem_cons_self
    refine .bind (s.failsWith_bindLocal first) fun _ => ?_
    refine .bind (s.failsWith_returnType first) fun ty => ?_
    split
    · exact .pure _
    · exact failsWith_returnTypeAll rest fun s mem => all s (List.mem_cons_of_mem _ mem)

end

end Types

section Simplified

variable {P : Span → Prop}

mutual

/-- Folding keeps the span of the node that is folded, so a simplified expression has no new spans.
-/
theorem Expr.located_simplify : (e : Expr) → (Node.expr e).All P →
    Located P (fun e' => (Node.expr e').All P) e.simplify
  | .literal _ _, all => by
    rw [simplify]
    exact all
  | .var _ _, all => by
    rw [simplify]
    exact all
  | .call span target args, all => by
    rw [simplify]
    have below : ∀ arg ∈ args, (Node.expr arg).All P :=
      fun arg mem => all.child (.tail _ (List.mem_map_of_mem mem))
    refine (located_simplifyAll args below).bind fun args' below' => .mk all.here ?_
    exact List.forall_mem_cons.2 ⟨all.child (.head _), List.forall_mem_map.2 below'⟩
  | .unary span op operand, all => by
    rw [simplify]
    refine (operand.located_simplify (all.child (.head _))).bind fun operand' all' => ?_
    split
    · exact .mk all.here (fun _ mem => (List.not_mem_nil mem).elim)
    · exact .mk all.here (List.forall_mem_singleton.2 all')
  | .binary span op lhs rhs, all => by
    rw [simplify]
    refine (lhs.located_simplify (all.child (.head _))).bind fun lhs' left => ?_
    refine (rhs.located_simplify (all.child (.tail _ (.head _)))).bind fun rhs' right => ?_
    have kept : (Node.expr (.binary span op lhs' rhs')).All P :=
      .mk all.here (List.forall_mem_cons.2 ⟨left, List.forall_mem_singleton.2 right⟩)
    split
    · split
      · exact .mk all.here (fun _ mem => (List.not_mem_nil mem).elim)
      · exact all.here
      · exact kept
    · exact kept
  | .logic span op lhs rhs, all => by
    rw [simplify]
    refine (lhs.located_simplify (all.child (.head _))).bind fun lhs' left => ?_
    refine (rhs.located_simplify (all.child (.tail _ (.head _)))).bind fun rhs' right => ?_
    split
    · exact .mk all.here (fun _ mem => (List.not_mem_nil mem).elim)
    · exact .mk all.here (List.forall_mem_cons.2 ⟨left, List.forall_mem_singleton.2 right⟩)

theorem Expr.located_simplifyAll : (es : List Expr) → (∀ e ∈ es, (Node.expr e).All P) →
    Located P (fun es' => ∀ e ∈ es', (Node.expr e).All P) (simplifyAll es)
  | [], all => by
    rw [simplifyAll]
    exact all
  | e :: es, all => by
    rw [simplifyAll]
    refine (e.located_simplify (all e List.mem_cons_self)).bind fun e' first => ?_
    refine (located_simplifyAll es fun e mem => all e (List.mem_cons_of_mem _ mem)).bind
      fun es' others => ?_
    exact List.forall_mem_cons.2 ⟨first, others⟩

end

theorem Expr.located_simplifyOpt (e : Option Expr)
    (all : ∀ value ∈ e.toList, (Node.expr value).All P) :
    Located P (fun e' => ∀ value ∈ e'.toList, (Node.expr value).All P) (simplifyOpt e) := by
  cases e with
  | none => exact all
  | some e =>
      rw [simplifyOpt]
      refine (e.located_simplify (all e (.head _))).bind fun e' all' => ?_
      exact List.forall_mem_singleton.2 all'

theorem Expr.located_constantCondition {e : Expr} (here : P e.span) (ctx : Context) :
    Located P (fun _ => True) (e.constantCondition ctx) := by
  rw [constantCondition]
  split
  · split
    · split
      · trivial
      · exact here
    · trivial
  · trivial

namespace Stmt

variable {ctx : Context}

theorem all_ite {span : Span} {condition : Expr} {positive negative : Option Stmt} (here : P span)
    (all : (Node.expr condition).All P) (first : ∀ s ∈ positive.toList, (Node.stmt s).All P)
    (second : ∀ s ∈ negative.toList, (Node.stmt s).All P) :
    (Node.stmt (.ite span condition positive negative)).All P :=
  .mk here (List.forall_mem_cons.2 ⟨all, List.forall_mem_append.2
    ⟨List.forall_mem_map.2 first, List.forall_mem_map.2 second⟩⟩)

/-- The condition of two conditionals in one covers both conditions. -/
theorem all_collapse (covers : ∀ a b : Span, P a → P b → P (a.cover b)) {span : Span}
    {condition : Expr} {positive negative : Option Stmt} (here : P span)
    (all : (Node.expr condition).All P) (first : ∀ s ∈ positive.toList, (Node.stmt s).All P)
    (second : ∀ s ∈ negative.toList, (Node.stmt s).All P) :
    (Node.stmt (collapse span condition positive negative)).All P := by
  fun_cases collapse span condition positive negative with
  | case1 span' span'' inner positive =>
      -- The inner conditional is the only statement of the branch.
      have nested := (first _ (.head _)).child (.head _)
      have all' := nested.child (.head _)
      refine all_ite here (.mk (covers _ _ all.here all'.here) ?_) ?_ second
      · exact List.forall_mem_cons.2 ⟨all, List.forall_mem_singleton.2 all'⟩
      · exact List.forall_mem_singleton.2 (nested.child (.tail _ (.head _)))
  | case2 => exact all_ite here all first second

/-- A block that is spliced leaves its statements, each with its own span. -/
theorem all_spliced {s : Stmt} (all : (Node.stmt s).All P) :
    ∀ s' ∈ s.spliced, (Node.stmt s').All P := by
  fun_cases spliced s with
  | case1 => exact fun _ mem => (List.not_mem_nil mem).elim
  | case2 => exact List.forall_mem_singleton.2 all
  | case3 span body _ => exact fun s' mem => all.child (List.mem_map_of_mem mem)
  | case4 => exact List.forall_mem_singleton.2 all

/-- Where no branch is left there is an empty statement with the span of the conditional. -/
theorem all_getD {s : Option Stmt} {span : Span} (here : P span)
    (all : ∀ s' ∈ s.toList, (Node.stmt s').All P) : (Node.stmt (s.getD (.skip span))).All P := by
  cases s with
  | none => exact .mk here (fun _ mem => (List.not_mem_nil mem).elim)
  | some s => exact all s (.head _)

mutual

/-- Statements get new spans only where two conditions are joined. -/
theorem located_simplify (covers : ∀ a b : Span, P a → P b → P (a.cover b)) :
    (s : Stmt) → (Node.stmt s).All P →
      Located P (fun s' => (Node.stmt s').All P) (s.simplify ctx)
  | .ite span condition positive negative, all => by
    rw [simplify]
    have first : ∀ s ∈ positive.toList, (Node.stmt s).All P := fun s mem =>
      all.child (.tail _ (List.mem_append_left _ (List.mem_map_of_mem mem)))
    have second : ∀ s ∈ negative.toList, (Node.stmt s).All P := fun s mem =>
      all.child (.tail _ (List.mem_append_right _ (List.mem_map_of_mem mem)))
    refine (condition.located_simplify (all.child (.head _))).bind fun condition' all' => ?_
    refine (Expr.located_constantCondition all'.here ctx).bind fun constant _ => ?_
    split
    · refine (located_simplifyOpt covers positive first).bind fun positive' first' => ?_
      exact all_getD all.here first'
    · refine (located_simplifyOpt covers negative second).bind fun negative' second' => ?_
      exact all_getD all.here second'
    · refine (located_simplifyOpt covers positive first).bind fun positive' first' => ?_
      refine (located_simplifyOpt covers negative second).bind fun negative' second' => ?_
      exact all_collapse covers all.here all' first' second'
  | .block span body, all => by
    rw [simplify]
    have below : ∀ s ∈ body, (Node.stmt s).All P :=
      fun s mem => all.child (List.mem_map_of_mem mem)
    refine (located_simplifyAll covers body below).bind fun body' below' => ?_
    exact .mk all.here (List.forall_mem_map.2 below')
  | .decl span name ty value, all => by
    rw [simplify]
    have initial : ∀ e ∈ value.toList, (Node.expr e).All P :=
      fun e mem => all.child (.tail _ (List.mem_map_of_mem mem))
    refine (Expr.located_simplifyOpt value initial).bind fun value' initial' => ?_
    exact .mk all.here
      (List.forall_mem_cons.2 ⟨all.child (.head _), List.forall_mem_map.2 initial'⟩)
  | .assign span target value, all => by
    rw [simplify]
    refine (value.located_simplify (all.child (.tail _ (.head _)))).bind fun value' all' => ?_
    exact .mk all.here
      (List.forall_mem_cons.2 ⟨all.child (.head _), List.forall_mem_singleton.2 all'⟩)
  | .ret span value, all => by
    rw [simplify]
    have below : ∀ e ∈ value.toList, (Node.expr e).All P :=
      fun e mem => all.child (List.mem_map_of_mem mem)
    refine (Expr.located_simplifyOpt value below).bind fun value' below' => ?_
    exact .mk all.here (List.forall_mem_map.2 below')
  | .loop span condition body, all => by
    rw [simplify]
    refine (condition.located_simplify (all.child (.head _))).bind fun condition' all' => ?_
    refine (Expr.located_constantCondition all'.here ctx).bind fun constant _ => ?_
    split
    · exact .mk all.here (fun _ mem => (List.not_mem_nil mem).elim)
    · refine (located_simplify covers body (all.child (.tail _ (.head _)))).bind
        fun body' below => ?_
      exact .mk all.here (List.forall_mem_cons.2 ⟨all', List.forall_mem_singleton.2 below⟩)
  | .eval span value, all => by
    rw [simplify]
    refine (value.located_simplify (all.child (.head _))).bind fun value' all' => ?_
    exact .mk all.here (List.forall_mem_singleton.2 all')
  | .skip span, all => by
    rw [simplify]
    exact all

theorem located_simplifyOpt (covers : ∀ a b : Span, P a → P b → P (a.cover b)) :
    (s : Option Stmt) → (∀ s' ∈ s.toList, (Node.stmt s').All P) →
      Located P (fun s' => ∀ s'' ∈ s'.toList, (Node.stmt s'').All P) (simplifyOpt ctx s)
  | none, all => by
    rw [simplifyOpt]
    exact all
  | some s, all => by
    rw [simplifyOpt]
    refine (located_simplify covers s (all s (.head _))).bind fun s' all' => ?_
    exact List.forall_mem_singleton.2 all'

theorem located_simplifyAll (covers : ∀ a b : Span, P a → P b → P (a.cover b)) :
    (body : List Stmt) → (∀ s ∈ body, (Node.stmt s).All P) →
      Located P (fun body' => ∀ s ∈ body', (Node.stmt s).All P) (simplifyAll ctx body)
  | [], all => by
    rw [simplifyAll]
    exact all
  | s :: rest, all => by
    rw [simplifyAll]
    refine (located_simplify covers s (all s List.mem_cons_self)).bind fun s' first => ?_
    refine (located_simplifyAll covers rest fun s mem => all s (List.mem_cons_of_mem _ mem)).bind
      fun rest' others => ?_
    exact List.forall_mem_append.2 ⟨all_spliced first, others⟩

end

theorem located_simplifyTimes (covers : ∀ a b : Span, P a → P b → P (a.cover b)) :
    (n : Nat) → (s : Stmt) → (Node.stmt s).All P →
      Located P (fun s' => (Node.stmt s').All P) (s.simplifyTimes ctx n)
  | 0, s, all => all
  | n + 1, s, all => by
    rw [simplifyTimes]
    refine (located_simplify covers s all).bind fun next all' => ?_
    split
    · exact all'
    · exact located_simplifyTimes covers n next all'

end Stmt

/-- An error of simplification stands at a node of the function, and so do all nodes of the result,
up to spans that cover two others. -/
theorem Function.located_simplify (covers : ∀ a b : Span, P a → P b → P (a.cover b))
    {f : Function} (all : (Node.function f).All P) (signatures : SignatureTable) (passes : Nat) :
    Located P (fun f' => (Node.function f').All P) (f.simplify signatures passes) := by
  rw [simplify]
  refine (Stmt.located_simplifyTimes covers _ f.body (all.child (.tail _ (.head _)))).bind
    fun body' below => ?_
  exact .mk all.here
    (List.forall_mem_cons.2 ⟨all.child (.head _), List.forall_mem_singleton.2 below⟩)

end Simplified

end Rill
