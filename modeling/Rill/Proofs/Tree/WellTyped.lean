import Rill.Proofs.Tree.Locals
import Rill.Proofs.Tree.Shape
import Rill.Proofs.Tree.Typed

/-!
# Well-typed statements

`Stmt.WellTyped` gives the rules for statements, apart from registers and blocks. What
follows a statement that is sure to return is not subject to any rule, and no branch or
body of a loop may be a bare declaration.

Contexts matter for the types of names only, so contexts that agree on these have the
same well-typed statements. What the innermost scope holds matters only to declarations.
Return analysis succeeds on every well-typed statement.
-/

namespace Rill

def Scope.typeOf? (scope : Scope) (name : String) : Option Ty :=
  (scope.get? name).map (·.ty)

namespace Context

/-- The type of what a name refers to. -/
def typeOf? (ctx : Context) (name : String) : Option Ty :=
  ctx.scopes.findSome? (·.typeOf? name)

variable {ctx ctx' : Context} {name : Ident} {ty : Ty} {binding : Binding} {declares : Bool}

theorem typeOf?_eq_or (ctx : Context) (name : String) :
    ctx.typeOf? name =
      (ctx.current.typeOf? name).or (ctx.outer.findSome? (·.typeOf? name)) := by
  rw [typeOf?, scopes, List.findSome?_cons]
  cases ctx.current.typeOf? name <;> rfl

theorem map_lookup (ctx : Context) (name : Ident) :
    (ctx.lookup name).map (·.ty) =
      (ctx.typeOf? name.name).elim (.error ⟨.undefinedVariable name.name, name.span⟩) .ok := by
  have found : ctx.typeOf? name.name =
      (ctx.scopes.findSome? (·.get? name.name)).map (·.ty) := by
    rw [List.map_findSome?]
    rfl
  rw [found, lookup, scopes]
  cases (ctx.current :: ctx.outer).findSome? (·.get? name.name) <;> rfl

theorem typeOf?_eq_some_iff {name : Ident} :
    ctx.typeOf? name.name = some ty ↔ ∃ b, ctx.lookup name = .ok b ∧ b.ty = ty := by
  have found := ctx.map_lookup name
  cases known : ctx.typeOf? name.name <;> cases looked : ctx.lookup name <;>
    simp_all [Except.map]

/-- Two contexts in which names have the same types. The innermost scopes have to agree by
themselves if something is to be declared in them. -/
structure Agrees (declares : Bool) (ctx ctx' : Context) : Prop where
  signatures : ctx'.signatures = ctx.signatures
  returnType : ctx'.returnType = ctx.returnType
  types : ∀ name, ctx'.typeOf? name = ctx.typeOf? name
  inner : declares = true → ∀ name, ctx'.current.typeOf? name = ctx.current.typeOf? name

namespace Agrees

theorem refl (ctx : Context) : ctx.Agrees declares ctx :=
  ⟨rfl, rfl, fun _ => rfl, fun _ _ => rfl⟩

theorem symm (h : ctx.Agrees declares ctx') : ctx'.Agrees declares ctx :=
  ⟨h.signatures.symm, h.returnType.symm, fun name => (h.types name).symm,
    fun declares name => (h.inner declares name).symm⟩

/-- An empty scope is not noticed unless something is declared in it. -/
theorem push_right (ctx : Context) : ctx.Agrees false ctx.push :=
  ⟨rfl, rfl, fun _ => rfl, nofun⟩

theorem push (h : ctx.Agrees declares ctx') : ctx.push.Agrees true ctx'.push :=
  ⟨h.signatures, h.returnType, h.types, fun _ _ => rfl⟩

end Agrees

/-- A name has been declared with a type in the innermost scope. -/
structure Declares (ctx : Context) (name : String) (ty : Ty) (ctx' : Context) : Prop where
  outer : ctx' = { ctx with current := ctx'.current }
  types : ∀ n, ctx'.current.typeOf? n = if n = name then some ty else ctx.current.typeOf? n

theorem declares_of_declare (h : ctx.declare name ty = .ok (binding, ctx')) :
    ctx.Declares name.name ty ctx' := by
  refine ⟨declare_outer h, fun n => ?_⟩
  obtain ⟨found, rfl, rfl⟩ | ⟨_, rfl, rfl⟩ := declare_cases h
  · split
    · next same =>
      rw [same, Scope.typeOf?, found]
      rfl
    · rfl
  · simp only [Scope.typeOf?, Scope.get?_cons]
    split <;> rfl

theorem Declares.agrees {c c' : Context} {n : String} (h : ctx.Agrees true ctx')
    (declared : ctx.Declares n ty c) (declared' : ctx'.Declares n ty c') : c.Agrees true c' := by
  have inner : ∀ m, c'.current.typeOf? m = c.current.typeOf? m := by
    intro m
    rw [declared.types, declared'.types, h.inner rfl]
  refine ⟨?_, ?_, fun m => ?_, fun _ => inner⟩
  · rw [declared.outer, declared'.outer]
    exact h.signatures
  · rw [declared.outer, declared'.outer]
    exact h.returnType
  · by_cases same : m = n
    · rw [typeOf?_eq_or, typeOf?_eq_or, inner, declared.types, if_pos same]
      rfl
    · -- Other names are looked up as before.
      have kept : ∀ {x y : Context}, x.Declares n ty y → y.typeOf? m = x.typeOf? m := by
        intro x y declared
        have outer : y.outer = x.outer := by rw [declared.outer]
        rw [typeOf?_eq_or, typeOf?_eq_or, declared.types, if_neg same, outer]
      rw [kept declared, kept declared', h.types]

/-- A name can be declared unless the innermost scope has it with another type. -/
theorem exists_declare_iff :
    (∃ binding c, ctx.declare name ty = .ok (binding, c)) ↔
      ∀ known, ctx.current.typeOf? name.name = some known → known = ty := by
  rw [declare, Scope.typeOf?]
  cases ctx.current.get? name.name with
  | none => simp
  | some b => by_cases same : b.ty = ty <;> simp [same]

theorem Agrees.declare {c : Context} (h : ctx.Agrees true ctx')
    (declared : ctx.declare name ty = .ok (binding, c)) :
    ∃ binding' c', ctx'.declare name ty = .ok (binding', c') ∧ c.Agrees true c' := by
  have free := exists_declare_iff.1 ⟨binding, c, declared⟩
  rw [← h.inner rfl] at free
  obtain ⟨binding', c', declared'⟩ := exists_declare_iff.2 free
  exact ⟨binding', c', declared',
    (declares_of_declare declared).agrees h (declares_of_declare declared')⟩

end Context

variable {ctx ctx' : Context} {declares : Bool}

namespace Expr

theorem ty_var_eq (ctx : Context) (span : Span) (name : Ident) :
    (var span name).ty ctx =
      (ctx.typeOf? name.name).elim (.error ⟨.undefinedVariable name.name, name.span⟩) .ok := by
  rw [← Context.map_lookup, Expr.ty]
  cases ctx.lookup name <;> rfl

mutual

/-- The type of an expression, or what is wrong with it, depends on the types of names only. -/
theorem ty_congr (h : ctx.Agrees declares ctx') : (e : Expr) → e.ty ctx' = e.ty ctx
  | .literal .. => by simp only [Expr.ty]
  | .var .. => by rw [ty_var_eq, ty_var_eq, h.types]
  | .call _ _ args => by
    simp only [Expr.ty, h.signatures, checkArgs_congr h args]
  | .unary _ _ operand => by
    simp only [Expr.ty, ty_congr h operand]
  | .binary _ _ lhs rhs => by
    simp only [Expr.ty, ty_congr h lhs, ty_congr h rhs]
  | .logic _ _ lhs rhs => by
    simp only [Expr.ty, ty_congr h lhs, ty_congr h rhs]

theorem checkArgs_congr (h : ctx.Agrees declares ctx') : (args : List Expr) → (params : List Ty) →
    checkArgs ctx' args params = checkArgs ctx args params
  | [], _ => by simp only [checkArgs]
  | _ :: _, [] => by simp only [checkArgs]
  | arg :: args, param :: params => by
    simp only [checkArgs, ty_congr h arg, checkArgs_congr h args params]

end

end Expr

namespace Stmt

theorem declaredType_congr (h : ctx.Agrees declares ctx') (span : Span) (name : Ident)
    (written : Option Ty) (value : Option Expr) :
    declaredType ctx' span name written value = declaredType ctx span name written value := by
  cases written <;> cases value <;> simp only [declaredType, Expr.ty_congr h]

theorem bindLocal_decl {span : Span} {name : Ident} {written : Option Ty} {value : Option Expr}
    {u : Unit} :
    (decl span name written value).bindLocal ctx = .ok u ctx' ↔
      ∃ ty binding, declaredType ctx span name written value = .ok ty ∧
        ctx.declare name ty = .ok (binding, ctx') := by
  simp only [bindLocal, bind_eq_ok, get_eq_ok, set_eq_ok, CheckM.ofExcept_eq_ok]
  constructor
  · rintro ⟨_, _, ⟨rfl, rfl⟩, ty, _, ⟨typed, rfl⟩, _, _, ⟨rfl, rfl⟩, ⟨binding, _⟩, _,
      ⟨declared, rfl⟩, rfl⟩
    exact ⟨ty, binding, typed, declared⟩
  · rintro ⟨ty, binding, typed, declared⟩
    exact ⟨ctx, ctx, ⟨rfl, rfl⟩, ty, ctx, ⟨typed, rfl⟩, ctx, ctx, ⟨rfl, rfl⟩, (binding, ctx'), ctx,
      ⟨declared, rfl⟩, rfl⟩

theorem bindLocal_of_isDecl_eq_false {s : Stmt} (h : s.isDecl = false) :
    s.bindLocal ctx = .ok () ctx := by
  cases s <;> first | rfl | cases h

theorem bindLocal_congr {s : Stmt} {c : Context} {u : Unit} (h : ctx.Agrees declares ctx')
    (fits : s.isDecl = true → declares = true) (bound : s.bindLocal ctx = .ok u c) :
    ∃ c', s.bindLocal ctx' = .ok () c' ∧ c.Agrees declares c' := by
  cases isDecl : s.isDecl with
  | false =>
      rw [bindLocal_of_isDecl_eq_false isDecl] at bound
      cases bound
      exact ⟨ctx', bindLocal_of_isDecl_eq_false isDecl, h⟩
  | true =>
      obtain rfl := fits isDecl
      cases s with
      | decl span name written value =>
          obtain ⟨ty, binding, typed, declared⟩ := bindLocal_decl.1 bound
          obtain ⟨binding', c', declared', agrees⟩ := h.declare declared
          refine ⟨c', bindLocal_decl.2 ⟨ty, binding', ?_, declared'⟩, agrees⟩
          rw [declaredType_congr h]
          exact typed
      | ite | block | assign | ret | loop | eval | skip => cases isDecl

mutual

inductive WellTyped : Context → Stmt → Prop
  | ite {ctx : Context} {span : Span} {condition : Expr} {positive : Stmt}
      (tested : condition.ty ctx = .ok .bool) (plain : positive.isDecl = false)
      (first : WellTyped ctx positive) : WellTyped ctx (.ite span condition (some positive) none)
  | iteElse {ctx : Context} {span : Span} {condition : Expr} {positive negative : Stmt}
      (tested : condition.ty ctx = .ok .bool) (plain : positive.isDecl = false)
      (first : WellTyped ctx positive) (plain' : negative.isDecl = false)
      (second : WellTyped ctx negative) :
      WellTyped ctx (.ite span condition (some positive) (some negative))
  | block {ctx : Context} {span : Span} {body : List Stmt} (inside : WellTypedAll ctx.push body) :
      WellTyped ctx (.block span body)
  | decl {ctx ctx' : Context} {span : Span} {name : Ident} {written : Option Ty}
      {value : Option Expr}
      (bound : (Stmt.decl span name written value).bindLocal ctx = .ok () ctx') :
      WellTyped ctx (.decl span name written value)
  | assign {ctx : Context} {span : Span} {target : Ident} {value : Expr} {ty : Ty}
      (known : ctx.typeOf? target.name = some ty) (typed : value.ty ctx = .ok ty) :
      WellTyped ctx (.assign span target value)
  | retUnit {ctx : Context} {span : Span} (unit : ctx.returnType = .unit) :
      WellTyped ctx (.ret span none)
  | ret {ctx : Context} {span : Span} {value : Expr} (typed : value.ty ctx = .ok ctx.returnType) :
      WellTyped ctx (.ret span (some value))
  | loop {ctx : Context} {span : Span} {condition : Expr} {body : Stmt}
      (tested : condition.ty ctx = .ok .bool) (plain : body.isDecl = false)
      (inside : WellTyped ctx body) : WellTyped ctx (.loop span condition body)
  | eval {ctx : Context} {span : Span} {value : Expr} {ty : Ty} (typed : value.ty ctx = .ok ty) :
      WellTyped ctx (.eval span value)
  | skip {ctx : Context} {span : Span} : WellTyped ctx (.skip span)

/-- Statements in order, up to the first that is sure to return. -/
inductive WellTypedAll : Context → List Stmt → Prop
  | nil {ctx : Context} : WellTypedAll ctx []
  | last {ctx : Context} {s : Stmt} {rest : List Stmt} (first : WellTyped ctx s)
      (returns : s.returns = true) : WellTypedAll ctx (s :: rest)
  | cons {ctx ctx' : Context} {s : Stmt} {rest : List Stmt} (first : WellTyped ctx s)
      (falls : s.returns = false) (bound : s.bindLocal ctx = .ok () ctx')
      (others : WellTypedAll ctx' rest) : WellTypedAll ctx (s :: rest)

end

theorem WellTyped.exists_bindLocal {s : Stmt} (h : s.WellTyped ctx) :
    ∃ c, s.bindLocal ctx = .ok () c := by
  cases h with
  | decl bound => exact ⟨_, bound⟩
  | ite | iteElse | block | assign | retUnit | ret | loop | eval | skip => exact ⟨ctx, rfl⟩

theorem not_declares {s : Stmt} (plain : s.isDecl = false) :
    s.isDecl = true → declares = true := by
  rw [plain]
  exact nofun

mutual

/-- Contexts that agree have the same well-typed statements. -/
theorem WellTyped.congr {ctx ctx' : Context} {declares : Bool} (h : ctx.Agrees declares ctx') :
    (s : Stmt) → (s.isDecl = true → declares = true) → s.WellTyped ctx → s.WellTyped ctx'
  | .ite _ condition (some positive) none, _, .ite tested plain first => by
    refine .ite ?_ plain (WellTyped.congr h positive (not_declares plain) first)
    rw [Expr.ty_congr h, tested]
  | .ite _ condition (some positive) (some negative), _,
      .iteElse tested plain first plain' second => by
    refine .iteElse ?_ plain (WellTyped.congr h positive (not_declares plain) first) plain'
      (WellTyped.congr h negative (not_declares plain') second)
    rw [Expr.ty_congr h, tested]
  | .block _ body, _, .block inside =>
    .block (WellTypedAll.congr h.push body (fun _ _ _ => rfl) inside)
  | .decl .., fits, .decl bound => by
    obtain ⟨_, bound', _⟩ := bindLocal_congr h fits bound
    exact .decl bound'
  | .assign .., _, .assign known typed => by
    refine .assign ((h.types _).trans known) ?_
    rw [Expr.ty_congr h, typed]
  | .ret _ none, _, .retUnit unit => .retUnit (h.returnType.trans unit)
  | .ret _ (some value), _, .ret typed => by
    refine .ret ?_
    rw [Expr.ty_congr h, h.returnType, typed]
  | .loop _ condition body, _, .loop tested plain inside => by
    refine .loop ?_ plain (WellTyped.congr h body (not_declares plain) inside)
    rw [Expr.ty_congr h, tested]
  | .eval _ value, _, .eval typed => .eval ((Expr.ty_congr h value).trans typed)
  | .skip _, _, .skip => .skip

theorem WellTypedAll.congr {ctx ctx' : Context} {declares : Bool} (h : ctx.Agrees declares ctx') :
    (ss : List Stmt) → (∀ s ∈ ss, s.isDecl = true → declares = true) →
    WellTypedAll ctx ss → WellTypedAll ctx' ss
  | [], _, _ => .nil
  | s :: rest, fits, .last first returns =>
    .last (WellTyped.congr h s (fits s List.mem_cons_self) first) returns
  | s :: rest, fits, .cons first falls bound others => by
    have fits' := fits s List.mem_cons_self
    obtain ⟨_, bound', agrees⟩ := bindLocal_congr h fits' bound
    refine .cons (WellTyped.congr h s fits' first) falls bound' ?_
    exact WellTypedAll.congr agrees rest (fun t mem => fits t (List.mem_cons_of_mem s mem)) others

end

/-- It does not matter if a declaration is analysed before or after its name is bound. -/
theorem returnType_of_bindLocal {s : Stmt} {r : Option Ty} {u : Unit}
    (bound : s.bindLocal ctx = .ok u ctx') (analysed : s.returnType ctx = .ok r ctx) :
    s.returnType ctx' = .ok r ctx' := by
  cases isDecl : s.isDecl with
  | false =>
      rw [bindLocal_of_isDecl_eq_false isDecl] at bound
      cases bound
      exact analysed
  | true =>
      cases s with
      | decl =>
          simp only [returnType, pure_eq_ok, and_true] at analysed ⊢
          exact analysed
      | ite | block | assign | ret | loop | eval | skip => cases isDecl

theorem isDecl_of_returns {s : Stmt} (h : s.returns = true) : s.isDecl = false := by
  cases s <;> first | rfl | simp only [returns, Bool.false_eq_true] at h

mutual

/-- Return analysis succeeds on a well-typed statement, and finds no type but the declared one. -/
theorem WellTyped.returnType_eq {ctx : Context} : (s : Stmt) → s.WellTyped ctx →
    ∃ r, s.returnType ctx = .ok r ctx ∧ ∀ ty, r = some ty → ty = ctx.returnType
  | .ite _ _ (some _) none, _ => ⟨none, by simp only [returnType, pure_eq_ok, and_self], nofun⟩
  | .ite _ _ (some positive) (some negative), .iteElse _ _ first _ second => by
    obtain ⟨r, analysed, declared⟩ := WellTyped.returnType_eq positive first
    obtain ⟨r', analysed', declared'⟩ := WellTyped.returnType_eq negative second
    simp only [returnType, bind_apply, analysed, analysed']
    cases r with
    | none => exact ⟨none, rfl, nofun⟩
    | some a =>
        cases r' with
        | none => exact ⟨none, rfl, nofun⟩
        | some b =>
            obtain rfl := (declared a rfl).trans (declared' b rfl).symm
            refine ⟨some a, ?_, declared⟩
            simp only [ne_eq, not_true_eq_false, if_false, pure_eq_ok, and_self]
  | .block _ body, .block inside => by
    obtain ⟨r, c, analysed, declared⟩ := WellTypedAll.returnTypeAll_eq body inside
    obtain ⟨outer, _⟩ := returnTypeAll_eq_ok body analysed
    refine ⟨r, ?_, declared⟩
    simp only [returnType, CheckM.inScope, analysed]
    rw [outer]
    rfl
  | .ret _ none, .retUnit unit => by
    refine ⟨some .unit, by simp only [returnType, pure_eq_ok, and_self], ?_⟩
    rintro _ ⟨⟩
    exact unit.symm
  | .ret _ (some value), .ret typed => by
    refine ⟨some ctx.returnType, ?_, fun _ same => (Option.some.inj same).symm⟩
    simp only [returnType, bind_eq_ok, get_eq_ok, CheckM.ofExcept_eq_ok, pure_eq_ok]
    exact ⟨ctx, ctx, ⟨rfl, rfl⟩, ctx.returnType, ctx, ⟨typed, rfl⟩, rfl, rfl⟩
  | .decl .., _ | .assign .., _ | .loop .., _ | .eval .., _ | .skip _, _ =>
    ⟨none, by simp only [returnType, pure_eq_ok, and_self], nofun⟩

theorem WellTypedAll.returnTypeAll_eq {ctx : Context} : (ss : List Stmt) → WellTypedAll ctx ss →
    ∃ r c, returnTypeAll ss ctx = .ok r c ∧ ∀ ty, r = some ty → ty = ctx.returnType
  | [], _ => ⟨none, ctx, by simp only [returnTypeAll, pure_eq_ok, and_self], nofun⟩
  | s :: rest, .last first returns => by
    obtain ⟨r, analysed, declared⟩ := WellTyped.returnType_eq s first
    have found := (returnType_eq_ok s analysed).2
    simp only [returnTypeAll, bind_apply, bindLocal_of_isDecl_eq_false (isDecl_of_returns returns),
      analysed]
    cases r with
    | none =>
        rw [returns] at found
        cases found
    | some ty => exact ⟨some ty, ctx, rfl, declared⟩
  | s :: rest, .cons first falls bound others => by
    obtain ⟨r, analysed, _⟩ := WellTyped.returnType_eq s first
    obtain ⟨r', c, analysed', declared⟩ := WellTypedAll.returnTypeAll_eq rest others
    have found := (returnType_eq_ok s analysed).2
    rw [falls, Option.isSome_eq_false_iff, Option.isNone_iff_eq_none] at found
    subst found
    refine ⟨r', c, ?_, fun ty found => ?_⟩
    · simp only [returnTypeAll, bind_apply, bound, returnType_of_bindLocal bound analysed]
      exact analysed'
    · rw [declared ty found, bindLocal_outer bound]

end

end Stmt

end Rill
