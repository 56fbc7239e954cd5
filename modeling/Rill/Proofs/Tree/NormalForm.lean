import Rill.Proofs.Tree.Folding
import Rill.Proofs.Tree.Simplify

/-!
# Normal forms of simplification

A tree is in normal form if nothing in it, at any depth, has a shape that simplification
does away with: an operator on literals (`Expr.Foldable`), or a statement that is
`Stmt.Redundant`. Both are said about single nodes and without the rewriting itself.

Simplified trees are in normal form. Pieces of them can be moved into the tree around
them without giving rise to such a shape: what is spliced into a block was in a block
before, and a condition that joins another one by `&&` is not a known truth value. A
tree in normal form is left as it is, so that a second round finds nothing to do and
the number of rounds that are allowed makes no difference.
-/

namespace Rill

namespace Expr

mutual

/-- The expressions strictly inside an expression. -/
def inside : Expr → List Expr
  | .literal .. | .var .. => []
  | .call _ _ args => partsAll args
  | .unary _ _ operand => operand :: operand.inside
  | .binary _ _ lhs rhs | .logic _ _ lhs rhs => (lhs :: lhs.inside) ++ (rhs :: rhs.inside)

def partsAll : List Expr → List Expr
  | [] => []
  | e :: es => (e :: e.inside) ++ partsAll es

end

/-- An expression and all those inside it. -/
def parts (e : Expr) : List Expr := e :: e.inside

/-- An operator with a literal for every operand. -/
def onLiterals : Expr → Bool
  | .unary _ _ operand => operand.literal?.isSome
  | .binary _ _ lhs rhs | .logic _ _ lhs rhs => lhs.literal?.isSome && rhs.literal?.isSome
  | .literal .. | .var .. | .call .. => false

/-- An operator on literals that type checks. -/
def Foldable (ctx : Context) (e : Expr) : Prop :=
  e.onLiterals = true ∧ ∃ ty, e.ty ctx = .ok ty

/-- Nothing can be folded anywhere in the expression. -/
def Folded (ctx : Context) (e : Expr) : Prop :=
  ∀ d ∈ e.parts, ¬ d.Foldable ctx

variable {ctx : Context} {span : Span} {operand lhs rhs : Expr}

theorem foldable_unary {op : UnaryOp} : (unary span op operand).Foldable ctx ↔
    ∃ a, operand.literal? = some a ∧ op.accepts a.ty = true := by
  simp only [Foldable, onLiterals, Option.isSome_iff_exists]
  constructor
  · rintro ⟨⟨a, known⟩, ty, typed⟩
    obtain ⟨typed, accepts⟩ := ty_unary typed
    rw [ty_of_literal? known, Except.ok.injEq] at typed
    exact ⟨a, known, typed ▸ accepts⟩
  · rintro ⟨a, known, accepts⟩
    exact ⟨⟨a, known⟩, a.ty, ty_unary_of_accepts (ty_of_literal? known ctx) accepts⟩

theorem foldable_binary {op : BinaryOp} : (binary span op lhs rhs).Foldable ctx ↔
    ∃ a b, lhs.literal? = some a ∧ rhs.literal? = some b ∧ a.ty = b.ty ∧
      op.opClass.accepts a.ty = true := by
  simp only [Foldable, onLiterals, Bool.and_eq_true, Option.isSome_iff_exists]
  constructor
  · rintro ⟨⟨⟨a, known⟩, b, known'⟩, ty, typed⟩
    obtain ⟨common, left, right, accepts, _⟩ := ty_binary typed
    rw [ty_of_literal? known, Except.ok.injEq] at left
    rw [ty_of_literal? known', Except.ok.injEq] at right
    exact ⟨a, b, known, known', left.trans right.symm, left ▸ accepts⟩
  · rintro ⟨a, b, known, known', same, accepts⟩
    have right : rhs.ty ctx = .ok a.ty := by rw [ty_of_literal? known', same]
    have left : lhs.ty ctx = .ok a.ty := ty_of_literal? known ctx
    exact ⟨⟨⟨a, known⟩, b, known'⟩, _, ty_binary_of_accepts left right accepts⟩

theorem foldable_logic {op : LogicOp} : (logic span op lhs rhs).Foldable ctx ↔
    ∃ p q, lhs.literal? = some (.bool p) ∧ rhs.literal? = some (.bool q) := by
  simp only [Foldable, onLiterals, Bool.and_eq_true, Option.isSome_iff_exists]
  constructor
  · rintro ⟨⟨⟨a, known⟩, b, known'⟩, ty, typed⟩
    obtain ⟨left, right, _⟩ := ty_logic typed
    rw [ty_of_literal? known, Except.ok.injEq] at left
    rw [ty_of_literal? known', Except.ok.injEq] at right
    obtain ⟨p, rfl⟩ := Literal.eq_bool left
    obtain ⟨q, rfl⟩ := Literal.eq_bool right
    exact ⟨p, q, known, known'⟩
  · rintro ⟨p, q, known, known'⟩
    exact ⟨⟨⟨_, known⟩, _, known'⟩, .bool,
      ty_logic_of_bool (ty_of_literal? known ctx) (ty_of_literal? known' ctx)⟩

theorem forall_partsAll {P : Expr → Prop} (es : List Expr) :
    (∀ d ∈ partsAll es, P d) ↔ ∀ e ∈ es, ∀ d ∈ e.parts, P d := by
  induction es with
  | nil => simp only [partsAll, List.not_mem_nil, false_imp_iff, implies_true]
  | cons e es ih => simp only [partsAll, List.forall_mem_append, List.forall_mem_cons, ih, parts]

theorem folded_literal (span : Span) (value : Literal) : (literal span value).Folded ctx := by
  simp only [Folded, parts, inside, List.forall_mem_singleton]
  rintro ⟨⟨⟩, _⟩

theorem folded_var (span : Span) (name : Ident) : (var span name).Folded ctx := by
  simp only [Folded, parts, inside, List.forall_mem_singleton]
  rintro ⟨⟨⟩, _⟩

theorem folded_call {target : Ident} {args : List Expr} :
    (call span target args).Folded ctx ↔ ∀ arg ∈ args, arg.Folded ctx := by
  rw [Folded, parts, inside, List.forall_mem_cons, forall_partsAll]
  refine and_iff_right ?_
  rintro ⟨⟨⟩, _⟩

theorem folded_unary {op : UnaryOp} : (unary span op operand).Folded ctx ↔
    ¬ (unary span op operand).Foldable ctx ∧ operand.Folded ctx := by
  simp only [Folded, parts, inside, List.forall_mem_cons]

theorem folded_binary {op : BinaryOp} : (binary span op lhs rhs).Folded ctx ↔
    ¬ (binary span op lhs rhs).Foldable ctx ∧ lhs.Folded ctx ∧ rhs.Folded ctx := by
  simp only [Folded, parts, inside, List.forall_mem_cons, List.forall_mem_append]

theorem folded_logic {op : LogicOp} : (logic span op lhs rhs).Folded ctx ↔
    ¬ (logic span op lhs rhs).Foldable ctx ∧ lhs.Folded ctx ∧ rhs.Folded ctx := by
  simp only [Folded, parts, inside, List.forall_mem_cons, List.forall_mem_append]

mutual

/-- A simplified expression has nothing left to fold. -/
theorem folded_simplify : (e : Expr) → {e' : Expr} → e.simplify = .ok e' → e'.Folded ctx
  | .literal span value, _, h => by
    simp only [simplify, Except.ok.injEq] at h
    exact h ▸ folded_literal span value
  | .var span name, _, h => by
    simp only [simplify, Except.ok.injEq] at h
    exact h ▸ folded_var span name
  | .call _ _ args, _, h => by
    obtain ⟨args', simplified, rfl⟩ := simplify_call h
    exact folded_call.2 (folded_simplifyAll args simplified)
  | .unary _ _ operand, _, h => by
    obtain ⟨operand', simplified, ⟨_, _, _, _, rfl⟩ | ⟨unfit, rfl⟩⟩ := simplify_unary h
    · exact folded_literal _ _
    · refine folded_unary.2 ⟨?_, folded_simplify operand simplified⟩
      rw [foldable_unary]
      rintro ⟨a, known, accepts⟩
      cases (unfit a known).symm.trans accepts
  | .binary _ _ lhs rhs, _, h => by
    obtain ⟨lhs', rhs', left, right, ⟨_, _, _, _, _, _, _, _, rfl⟩ | ⟨unfit, rfl⟩⟩ :=
      simplify_binary h
    · exact folded_literal _ _
    · refine folded_binary.2 ⟨?_, folded_simplify lhs left, folded_simplify rhs right⟩
      rw [foldable_binary]
      rintro ⟨a, b, known, known', same, accepts⟩
      cases (unfit a b known known' same).symm.trans accepts
  | .logic _ _ lhs rhs, _, h => by
    obtain ⟨lhs', rhs', left, right, ⟨_, _, _, _, rfl⟩ | ⟨unfit, rfl⟩⟩ := simplify_logic h
    · exact folded_literal _ _
    · refine folded_logic.2 ⟨?_, folded_simplify lhs left, folded_simplify rhs right⟩
      rw [foldable_logic]
      rintro ⟨p, q, known, known'⟩
      exact unfit p q known known'

theorem folded_simplifyAll : (es : List Expr) → {es' : List Expr} → simplifyAll es = .ok es' →
    ∀ e ∈ es', e.Folded ctx
  | [], _, h => by
    simp only [simplifyAll, Except.ok.injEq] at h
    subst h
    exact fun _ mem => absurd mem List.not_mem_nil
  | e :: es, _, h => by
    simp only [simplifyAll, except_bind_eq_ok, except_pure_eq_ok] at h
    obtain ⟨e', first, es', others, rfl⟩ := h
    exact List.forall_mem_cons.2 ⟨folded_simplify e first, folded_simplifyAll es others⟩

end

theorem folded_simplifyOpt {e e' : Option Expr} (h : simplifyOpt e = .ok e') :
    ∀ d ∈ e', d.Folded ctx := by
  cases e with
  | none =>
      simp only [simplifyOpt, Except.ok.injEq] at h
      subst h
      intro d mem
      cases mem
  | some e =>
      simp only [simplifyOpt, except_bind_eq_ok, except_pure_eq_ok] at h
      obtain ⟨e', simplified, rfl⟩ := h
      rintro _ ⟨⟩
      exact folded_simplify e simplified

mutual

/-- What has nothing to fold is left as it is. -/
theorem simplify_of_folded : (e : Expr) → e.Folded ctx → e.simplify = .ok e
  | .literal .., _ | .var .., _ => by
    simp only [simplify]
  | .call _ _ args, h => by
    simp only [simplify, except_bind_eq_ok]
    exact ⟨args, simplifyAll_of_folded args (folded_call.1 h), rfl⟩
  | .unary _ op operand, h => by
    obtain ⟨unfit, inner⟩ := folded_unary.1 h
    have stays : operand.literal?.bind op.apply? = none := by
      refine Option.eq_none_iff_forall_not_mem.2 fun result folded => unfit ?_
      obtain ⟨a, known, applied⟩ := Option.bind_eq_some_iff.1 folded
      exact foldable_unary.2 ⟨a, known, UnaryOp.exists_applied_iff.1 ⟨result, applied⟩⟩
    simp only [simplify, except_bind_eq_ok]
    refine ⟨operand, simplify_of_folded operand inner, ?_⟩
    rw [stays]
    rfl
  | .binary span op lhs rhs, h => by
    obtain ⟨unfit, left, right⟩ := folded_binary.1 h
    simp only [simplify, except_bind_eq_ok]
    refine ⟨lhs, simplify_of_folded lhs left, rhs, simplify_of_folded rhs right, ?_⟩
    split
    · next a b known known' =>
      -- Operands with any other outcome would type check.
      have applies := op.applies a b
      generalize op.apply a b = outcome at applies
      cases applies with
      | value same accepts _ | zeroDivisor same accepts =>
          exact absurd (foldable_binary.2 ⟨a, b, known, known', same, accepts⟩) unfit
      | illTyped => rfl
    · rfl
  | .logic span op lhs rhs, h => by
    obtain ⟨unfit, left, right⟩ := folded_logic.1 h
    simp only [simplify, except_bind_eq_ok]
    refine ⟨lhs, simplify_of_folded lhs left, rhs, simplify_of_folded rhs right, ?_⟩
    split
    · next p q known known' => exact absurd (foldable_logic.2 ⟨p, q, known, known'⟩) unfit
    · rfl

theorem simplifyAll_of_folded : (es : List Expr) → (∀ e ∈ es, e.Folded ctx) →
    simplifyAll es = .ok es
  | [], _ => by
    simp only [simplifyAll]
  | e :: es, h => by
    obtain ⟨first, others⟩ := List.forall_mem_cons.1 h
    simp only [simplifyAll, except_bind_eq_ok]
    exact ⟨e, simplify_of_folded e first, es, simplifyAll_of_folded es others, rfl⟩

end

theorem simplifyOpt_of_folded {e : Option Expr} (h : ∀ d ∈ e, d.Folded ctx) :
    simplifyOpt e = .ok e := by
  cases e with
  | none => rfl
  | some e =>
      simp only [simplifyOpt, except_bind_eq_ok]
      exact ⟨e, simplify_of_folded e (h e rfl), rfl⟩

/-- A condition whose value is a truth value that is known without running the program. -/
def Decided (ctx : Context) (e : Expr) : Prop :=
  e.isConstant = true ∧ e.ty ctx = .ok .bool

theorem constantCondition_eq_none {e : Expr} :
    e.constantCondition ctx = .ok none ↔ ¬ e.Decided ctx := by
  rw [constantCondition, Decided]
  split
  · next constant =>
    rw [and_iff_right constant]
    split
    · next typed =>
      refine iff_of_false ?_ (not_not_intro typed)
      split <;> simp
    · next other => exact iff_of_true rfl other
  · next varies => exact iff_of_true rfl fun decided => varies decided.1

theorem decided_of_literal? {e : Expr} {b : Bool} (h : e.literal? = some (.bool b)) :
    e.Decided ctx :=
  ⟨isConstant_of_literal? h, ty_of_literal? h ctx⟩

theorem constantCondition_of_literal? {e : Expr} {b : Bool} (h : e.literal? = some (.bool b)) :
    e.constantCondition ctx = .ok (some b) := by
  have decided : e.Decided ctx := decided_of_literal? h
  obtain ⟨constant, typed⟩ := decided
  simp only [constantCondition, constant, if_true, typed, h]

/-- A simplified condition that is decided is written out as its value. -/
theorem Decided.literal? {e e' : Expr} (h : e.simplify = .ok e') (decided : e'.Decided ctx) :
    ∃ b, e'.literal? = some (.bool b) := by
  obtain ⟨constant, typed⟩ := decided
  rw [isConstant_simplify e h] at constant
  rw [ty_simplify ctx e h] at typed
  obtain ⟨value, known, isBool⟩ := exists_literal?_of_simplify e constant typed h
  obtain ⟨b, rfl⟩ := Literal.eq_bool isBool
  exact ⟨b, known⟩

end Expr

namespace Stmt

mutual

/-- The statements strictly inside a statement. -/
def inside : Stmt → List Stmt
  | .ite _ _ positive negative => partsOpt positive ++ partsOpt negative
  | .block _ body => partsAll body
  | .loop _ _ body => body :: body.inside
  | .decl .. | .assign .. | .ret .. | .eval .. | .skip _ => []

def partsOpt : Option Stmt → List Stmt
  | none => []
  | some s => s :: s.inside

def partsAll : List Stmt → List Stmt
  | [] => []
  | s :: rest => (s :: s.inside) ++ partsAll rest

end

/-- A statement and all those inside it, also those that no path comes to. -/
def parts (s : Stmt) : List Stmt := s :: s.inside

/-- The expressions that stand directly in a statement. -/
def exprs : Stmt → List Expr
  | .ite _ condition _ _ | .loop _ condition _ => [condition]
  | .decl _ _ _ value | .ret _ value => value.toList
  | .assign _ _ value | .eval _ value => [value]
  | .block .. | .skip _ => []

/-- The statements that simplification does away with. -/
inductive Redundant (ctx : Context) : Stmt → Prop
  /-- A conditional of which it is known which branch is taken. -/
  | decided {span : Span} {condition : Expr} {positive negative : Option Stmt}
      (known : condition.Decided ctx) : Redundant ctx (.ite span condition positive negative)
  /-- A loop with a constant condition other than `true`. -/
  | idle {span : Span} {condition : Expr} {body : Stmt} (known : condition.Decided ctx)
      (fails : condition.literal? ≠ some (.bool true)) : Redundant ctx (.loop span condition body)
  /-- A block with an empty statement. -/
  | empty {span inner : Span} {body : List Stmt} (mem : .skip inner ∈ body) :
      Redundant ctx (.block span body)
  /-- A block with a block in it that declares nothing. -/
  | braces {span inner : Span} {body nested : List Stmt} (mem : .block inner nested ∈ body)
      (bare : nested.any isDecl = false) : Redundant ctx (.block span body)
  /-- A conditional whose only content is another one, where neither has a second branch. -/
  | nested {span outer inner : Span} {condition second : Expr} {positive : Stmt} :
      Redundant ctx
        (.ite span condition (some (.block outer [.ite inner second (some positive) none])) none)

/-- Nothing can be simplified anywhere in the statement. -/
def Normal (ctx : Context) (s : Stmt) : Prop :=
  ∀ t ∈ s.parts, ¬ t.Redundant ctx ∧ ∀ e ∈ t.exprs, e.Folded ctx

variable {ctx : Context} {span : Span} {condition : Expr} {positive negative : Option Stmt}
  {body : List Stmt}

theorem forall_partsOpt {P : Stmt → Prop} (s : Option Stmt) :
    (∀ t ∈ partsOpt s, P t) ↔ ∀ a ∈ s, ∀ t ∈ a.parts, P t := by
  cases s with
  | none => simp only [partsOpt, List.not_mem_nil, Option.not_mem_none, false_imp_iff, implies_true]
  | some s => simp only [partsOpt, parts, Option.mem_some_iff, forall_eq']

theorem forall_partsAll {P : Stmt → Prop} (ss : List Stmt) :
    (∀ t ∈ partsAll ss, P t) ↔ ∀ s ∈ ss, ∀ t ∈ s.parts, P t := by
  induction ss with
  | nil => simp only [partsAll, List.not_mem_nil, false_imp_iff, implies_true]
  | cons s rest ih => simp only [partsAll, List.forall_mem_append, List.forall_mem_cons, ih, parts]

theorem normal_ite : (ite span condition positive negative).Normal ctx ↔
    (¬ (ite span condition positive negative).Redundant ctx ∧ condition.Folded ctx) ∧
      (∀ s ∈ positive, s.Normal ctx) ∧ ∀ s ∈ negative, s.Normal ctx := by
  rw [Normal, parts, inside, List.forall_mem_cons, List.forall_mem_append, forall_partsOpt,
    forall_partsOpt, exprs, List.forall_mem_singleton]
  rfl

theorem normal_block : (block span body).Normal ctx ↔
    ¬ (block span body).Redundant ctx ∧ ∀ s ∈ body, s.Normal ctx := by
  rw [Normal, parts, inside, List.forall_mem_cons, forall_partsAll, exprs]
  simp only [List.not_mem_nil, false_imp_iff, implies_true, and_true]
  rfl

theorem normal_loop {body : Stmt} : (loop span condition body).Normal ctx ↔
    (¬ (loop span condition body).Redundant ctx ∧ condition.Folded ctx) ∧ body.Normal ctx := by
  rw [Normal, parts, inside, List.forall_mem_cons, exprs, List.forall_mem_singleton]
  rfl

/-- A statement without parts is in normal form if its expressions are. -/
theorem normal_of_inside_eq_nil {s : Stmt} (plain : ¬ s.Redundant ctx) (alone : s.inside = [])
    (folded : ∀ e ∈ s.exprs, e.Folded ctx) : s.Normal ctx := by
  rw [Normal, parts, alone, List.forall_mem_singleton]
  exact ⟨plain, folded⟩

/-- In a block in normal form, every statement stays where it is. -/
theorem not_redundant_block :
    ¬ (block span body).Redundant ctx ↔ ∀ s ∈ body, s.spliced = [s] := by
  constructor
  · intro tight s mem
    cases s with
    | skip inner => exact absurd (.empty mem) tight
    | block inner nested =>
        cases bare : nested.any isDecl with
        | true => simp only [spliced, bare, if_true]
        | false => exact absurd (.braces mem bare) tight
    | ite | decl | assign | ret | loop | eval => rfl
  · intro kept redundant
    cases redundant with
    | empty mem =>
        have gone := kept _ mem
        simp only [spliced, List.nil_eq, reduceCtorEq] at gone
    | braces mem bare =>
        have unwrapped := kept _ mem
        simp only [spliced, bare, Bool.false_eq_true, if_false] at unwrapped
        have larger := congrArg sizeOf unwrapped
        simp only [List.cons.sizeOf_spec, List.nil.sizeOf_spec, block.sizeOf_spec] at larger
        omega

theorem normal_block_iff : (block span body).Normal ctx ↔
    (∀ s ∈ body, s.spliced = [s]) ∧ ∀ s ∈ body, s.Normal ctx := by
  rw [normal_block, not_redundant_block]

theorem normal_skip (span : Span) : (skip span).Normal ctx :=
  normal_of_inside_eq_nil nofun (by simp only [inside]) nofun

/-- What a statement in normal form contributes to a block fits into a normal form. -/
theorem Normal.spliced {s : Stmt} (h : s.Normal ctx) :
    (∀ t ∈ s.spliced, t.spliced = [t]) ∧ ∀ t ∈ s.spliced, t.Normal ctx := by
  have alone : s.spliced = [s] →
      (∀ t ∈ s.spliced, t.spliced = [t]) ∧ ∀ t ∈ s.spliced, t.Normal ctx := by
    intro stays
    simp only [stays, List.forall_mem_singleton]
    exact ⟨trivial, h⟩
  cases s with
  | skip => exact ⟨nofun, nofun⟩
  | block inner body =>
      cases bare : body.any isDecl with
      | true => exact alone (by simp only [Stmt.spliced, bare, if_true])
      | false =>
          simp only [Stmt.spliced, bare, Bool.false_eq_true, if_false]
          exact normal_block_iff.1 h
  | ite | decl | assign | ret | loop | eval => exact alone rfl

theorem normal_getD {s : Option Stmt} (h : ∀ a ∈ s, a.Normal ctx) (span : Span) :
    (s.getD (.skip span)).Normal ctx := by
  cases s with
  | none => exact normal_skip span
  | some s => exact h s rfl

/-- A condition that is not decided alone is not decided together with another one either. -/
theorem normal_collapse (open_ : ¬ condition.Decided ctx) (folded : condition.Folded ctx)
    (first : ∀ s ∈ positive, s.Normal ctx) (second : ∀ s ∈ negative, s.Normal ctx) :
    (collapse span condition positive negative).Normal ctx := by
  rw [collapse.eq_def]
  split
  · next outer inner condition' branch =>
    have nested := (normal_block_iff.1 (first _ rfl)).2 _ List.mem_cons_self
    obtain ⟨⟨plain, folded'⟩, normal, _⟩ := normal_ite.1 nested
    refine normal_ite.2 ⟨⟨?_, Expr.folded_logic.2 ⟨?_, folded, folded'⟩⟩, normal, second⟩
    · intro redundant
      cases redundant with
      | decided known =>
          obtain ⟨constant, typed⟩ := known
          simp only [Expr.isConstant, Bool.and_eq_true] at constant
          exact open_ ⟨constant.1, (Expr.ty_logic typed).1⟩
      | nested => exact plain .nested
    · rw [Expr.foldable_logic]
      rintro ⟨p, q, known, _⟩
      exact open_ (Expr.decided_of_literal? known)
  · next other =>
    refine normal_ite.2 ⟨⟨?_, folded⟩, first, second⟩
    intro redundant
    cases redundant with
    | decided known => exact open_ known
    | nested => exact other _ _ _ _ rfl rfl

mutual

/-- A simplified statement has nothing left to simplify. -/
theorem normal_simplify : (s : Stmt) → {s' : Stmt} → s.simplify ctx = .ok s' → s'.Normal ctx
  | .ite span condition positive negative, _, h => by
    obtain ⟨condition', folded, ⟨_, positive', first, rfl⟩ | ⟨_, negative', second, rfl⟩ |
      ⟨varies, positive', negative', first, second, rfl⟩⟩ := simplify_ite h
    · exact normal_getD (normal_simplifyOpt positive first) span
    · exact normal_getD (normal_simplifyOpt negative second) span
    · refine normal_collapse (Expr.constantCondition_eq_none.1 varies) ?_ ?_ ?_
      · exact Expr.folded_simplify condition folded
      · exact normal_simplifyOpt positive first
      · exact normal_simplifyOpt negative second
  | .block span body, _, h => by
    simp only [simplify, except_bind_eq_ok, except_pure_eq_ok] at h
    obtain ⟨body', simplified, rfl⟩ := h
    exact normal_block_iff.2 (normal_simplifyAll body simplified)
  | .loop span condition body, _, h => by
    obtain ⟨condition', folded, ⟨_, rfl⟩ | ⟨goes, body', simplified, rfl⟩⟩ := simplify_loop h
    · exact normal_skip span
    · refine normal_loop.2 ⟨⟨?_, Expr.folded_simplify condition folded⟩, ?_⟩
      · intro redundant
        cases redundant with
        | idle known fails =>
            obtain ⟨b, written⟩ := known.literal? folded
            cases b with
            | true => exact fails written
            | false => exact goes (Expr.constantCondition_of_literal? written)
      · exact normal_simplify body simplified
  | .decl .., _, h | .ret .., _, h => by
    simp only [simplify, except_bind_eq_ok, except_pure_eq_ok] at h
    obtain ⟨value', folded, rfl⟩ := h
    refine normal_of_inside_eq_nil nofun (by simp only [inside]) fun e mem => ?_
    exact Expr.folded_simplifyOpt folded e (Option.mem_toList.1 mem)
  | .assign _ _ value, _, h | .eval _ value, _, h => by
    simp only [simplify, except_bind_eq_ok, except_pure_eq_ok] at h
    obtain ⟨value', folded, rfl⟩ := h
    refine normal_of_inside_eq_nil nofun (by simp only [inside]) ?_
    exact List.forall_mem_singleton.2 (Expr.folded_simplify value folded)
  | .skip span, _, h => by
    simp only [simplify, Except.ok.injEq] at h
    exact h ▸ normal_skip span

theorem normal_simplifyOpt : (s : Option Stmt) → {s' : Option Stmt} →
    simplifyOpt ctx s = .ok s' → ∀ t ∈ s', t.Normal ctx
  | none, _, h => by
    simp only [simplifyOpt, Except.ok.injEq] at h
    subst h
    exact nofun
  | some s, _, h => by
    simp only [simplifyOpt, except_bind_eq_ok, except_pure_eq_ok] at h
    obtain ⟨s', simplified, rfl⟩ := h
    rintro _ ⟨⟩
    exact normal_simplify s simplified

theorem normal_simplifyAll : (ss : List Stmt) → {ss' : List Stmt} →
    simplifyAll ctx ss = .ok ss' →
    (∀ t ∈ ss', t.spliced = [t]) ∧ ∀ t ∈ ss', t.Normal ctx
  | [], _, h => by
    simp only [simplifyAll, Except.ok.injEq] at h
    subst h
    exact ⟨nofun, nofun⟩
  | s :: rest, _, h => by
    simp only [simplifyAll, except_bind_eq_ok, except_pure_eq_ok] at h
    obtain ⟨s', first, rest', others, rfl⟩ := h
    obtain ⟨kept, normal⟩ := (normal_simplify s first).spliced
    obtain ⟨kept', normal'⟩ := normal_simplifyAll rest others
    exact ⟨List.forall_mem_append.2 ⟨kept, kept'⟩, List.forall_mem_append.2 ⟨normal, normal'⟩⟩

end

theorem collapse_of_not_redundant
    (h : ¬ (ite span condition positive negative).Redundant ctx) :
    collapse span condition positive negative = .ite span condition positive negative := by
  rw [collapse.eq_def]
  split
  · exact absurd .nested h
  · rfl

mutual

theorem simplify_of_normal : (s : Stmt) → s.Normal ctx → s.simplify ctx = .ok s
  | .ite span condition positive negative, h => by
    obtain ⟨⟨plain, folded⟩, first, second⟩ := normal_ite.1 h
    have varies : condition.constantCondition ctx = .ok none :=
      Expr.constantCondition_eq_none.2 fun known => plain (.decided known)
    simp only [simplify, except_bind_eq_ok]
    refine ⟨condition, Expr.simplify_of_folded condition folded, none, varies, ?_⟩
    simp only [except_bind_eq_ok, except_pure_eq_ok]
    exact ⟨positive, simplifyOpt_of_normal positive first, negative,
      simplifyOpt_of_normal negative second, collapse_of_not_redundant plain⟩
  | .block span body, h => by
    obtain ⟨kept, normal⟩ := normal_block_iff.1 h
    simp only [simplify, except_bind_eq_ok]
    exact ⟨body, simplifyAll_of_normal body kept normal, rfl⟩
  | .loop span condition body, h => by
    obtain ⟨⟨plain, folded⟩, normal⟩ := normal_loop.1 h
    have goes : ∃ known, condition.constantCondition ctx = .ok known ∧ known ≠ some false := by
      by_cases decided : condition.Decided ctx
      · have written : condition.literal? = some (.bool true) :=
          Decidable.not_not.1 fun fails => plain (.idle decided fails)
        exact ⟨some true, Expr.constantCondition_of_literal? written, nofun⟩
      · exact ⟨none, Expr.constantCondition_eq_none.2 decided, nofun⟩
    obtain ⟨known, constant, other⟩ := goes
    simp only [simplify, except_bind_eq_ok]
    refine ⟨condition, Expr.simplify_of_folded condition folded, known, constant, ?_⟩
    rw [if_neg other, except_bind_eq_ok]
    exact ⟨body, simplify_of_normal body normal, rfl⟩
  | .decl span name ty value, h | .ret span value, h => by
    have folded : ∀ e ∈ value, e.Folded ctx := fun e mem =>
      (h _ List.mem_cons_self).2 e (Option.mem_toList.2 mem)
    simp only [simplify, except_bind_eq_ok]
    exact ⟨value, Expr.simplifyOpt_of_folded folded, rfl⟩
  | .assign span target value, h | .eval span value, h => by
    have folded := (h _ List.mem_cons_self).2 value List.mem_cons_self
    simp only [simplify, except_bind_eq_ok]
    exact ⟨value, Expr.simplify_of_folded value folded, rfl⟩
  | .skip span, _ => by
    simp only [simplify]

theorem simplifyOpt_of_normal : (s : Option Stmt) → (∀ t ∈ s, t.Normal ctx) →
    simplifyOpt ctx s = .ok s
  | none, _ => by
    simp only [simplifyOpt]
  | some s, h => by
    simp only [simplifyOpt, except_bind_eq_ok]
    exact ⟨s, simplify_of_normal s (h s rfl), rfl⟩

theorem simplifyAll_of_normal : (ss : List Stmt) → (∀ t ∈ ss, t.spliced = [t]) →
    (∀ t ∈ ss, t.Normal ctx) → simplifyAll ctx ss = .ok ss
  | [], _, _ => by
    simp only [simplifyAll]
  | s :: rest, kept, normal => by
    obtain ⟨stays, kept⟩ := List.forall_mem_cons.1 kept
    obtain ⟨first, others⟩ := List.forall_mem_cons.1 normal
    simp only [simplifyAll, except_bind_eq_ok]
    refine ⟨s, simplify_of_normal s first, rest, simplifyAll_of_normal rest kept others, ?_⟩
    rw [stays]
    rfl

end

theorem simplify_simplify {s s' : Stmt} (h : s.simplify ctx = .ok s') :
    s'.simplify ctx = .ok s' :=
  simplify_of_normal s' (normal_simplify s h)

/-- However many rounds are allowed, the first one settles the result, even where the tree after it
does not count as the same as before. -/
theorem simplifyTimes_eq_simplify (ctx : Context) (n : Nat) (s : Stmt) :
    s.simplifyTimes ctx (n + 1) = s.simplify ctx := by
  induction n generalizing s with
  | zero =>
      simp only [simplifyTimes]
      cases s.simplify ctx with
      | error e => rfl
      | ok next => exact ite_self _
  | succ n ih =>
      rw [simplifyTimes]
      cases once : s.simplify ctx with
      | error e => rfl
      | ok next =>
          have again : next.simplifyTimes ctx (n + 1) = .ok next := by
            rw [ih, simplify_simplify once]
          change (if next.same s then pure next else next.simplifyTimes ctx (n + 1)) = .ok next
          rw [again]
          exact ite_self _

/-- Nowhere in a simplified statement is an operator on literals that type checks, nor a statement
that simplification does away with. -/
theorem nothing_left_of_simplify {s s' : Stmt} (h : s.simplify ctx = .ok s') :
    (∀ t ∈ s'.parts, ∀ e ∈ t.exprs, ∀ d ∈ e.parts, ¬ d.Foldable ctx) ∧
      ∀ t ∈ s'.parts, ¬ t.Redundant ctx := by
  have normal := normal_simplify s h
  exact ⟨fun t mem => (normal t mem).2, fun t mem => (normal t mem).1⟩

end Stmt

/-- One round of simplification is as good as any number of them. A simplified statement is left as
it is, and how many rounds are allowed makes no difference to the result or to the error. -/
theorem Function.simplify_limit_irrelevant :
    (∀ (ctx : Context) (s s' : Stmt), s.simplify ctx = .ok s' → s'.simplify ctx = .ok s') ∧
      ∀ (signatures : SignatureTable) (f : Function) (m n : Nat),
        f.simplify signatures m = f.simplify signatures n := by
  refine ⟨fun ctx s s' h => Stmt.simplify_simplify h, fun signatures f m n => ?_⟩
  have once : ∀ passes, f.body.simplifyTimes (.ofFunction f signatures) (max passes 1) =
      f.body.simplify (.ofFunction f signatures) := by
    intro passes
    obtain ⟨k, rounds⟩ := Nat.exists_eq_add_of_le' (Nat.le_max_right passes 1)
    rw [rounds, Stmt.simplifyTimes_eq_simplify]
  simp only [simplify, once]

section Unreached

private def origin : Span := ⟨0, 0⟩

private def number (value : Literal) : Expr := .literal origin value

private def when (condition : Expr) (body : List Stmt) : Stmt :=
  .ite origin condition (some (.block origin body)) none

private def local_ (name : String) : Expr := .var origin ⟨name, origin⟩

/-- `return 0.0 / 0.0; { ; } if 1 < 2 { if a { if b { x = 2 * 3; } } }` -/
def unreached : Function where
  header := { name := ⟨"ratio", origin⟩, params := [], returnType := .float, span := origin }
  body :=
    let ratio := .binary origin .div (number (.float 0.0)) (number (.float 0.0))
    let product := .binary origin .mul (number (.int 2)) (number (.int 3))
    let less := .binary origin .lt (number (.int 1)) (number (.int 2))
    .block origin
      [.ret origin (some ratio), .block origin [.skip origin],
        when less [when (local_ "a") [when (local_ "b") [.assign origin ⟨"x", origin⟩ product]]]]
  span := origin

/-- `return NaN; if a && b { x = 6; }` -/
def unreachedNormal : Stmt :=
  .block origin
    [.ret origin (some (number (.float (0.0 / 0.0)))),
      when (.logic origin .and (local_ "a") (local_ "b"))
        [.assign origin ⟨"x", origin⟩ (number (.int 6))]]

/-- What follows a return is simplified as well. -/
theorem Stmt.nothing_left_of_simplify_unreached :
    unreached.body.simplify (.ofFunction unreached .empty) = .ok unreachedNormal ∧
      (∀ t ∈ unreachedNormal.parts, ∀ e ∈ t.exprs, ∀ d ∈ e.parts,
        ¬ d.Foldable (.ofFunction unreached .empty)) ∧
      ∀ t ∈ unreachedNormal.parts, ¬ t.Redundant (.ofFunction unreached .empty) := by
  have simplified : unreached.body.simplify (.ofFunction unreached .empty) =
      .ok unreachedNormal := by rfl
  exact ⟨simplified, nothing_left_of_simplify simplified⟩

/-- A NaN differs from itself, so that the rounds never see that nothing changes. -/
theorem Function.simplify_limit_irrelevant_unreached :
    unreached.body.simplify (.ofFunction unreached .empty) = .ok unreachedNormal ∧
      unreachedNormal.same unreachedNormal = false ∧
      unreachedNormal.simplify (.ofFunction unreached .empty) = .ok unreachedNormal ∧
      unreached.simplify .empty 0 = unreached.simplify .empty 8 := by
  have simplified : unreached.body.simplify (.ofFunction unreached .empty) =
      .ok unreachedNormal := by rfl
  exact ⟨simplified, by decide, simplify_limit_irrelevant.1 _ _ _ simplified,
    simplify_limit_irrelevant.2 _ _ _ _⟩

end Unreached

end Rill
