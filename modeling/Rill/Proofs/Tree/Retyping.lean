import Rill.Proofs.Tree.Folding
import Rill.Proofs.Tree.Simplify
import Rill.Proofs.Tree.WellTyped

/-!
# Simplified trees stay well typed

A statement that is well typed in a context is so after it has been simplified, in the
same context, although no binding is in scope while that is done. Three things keep it
so. Folding keeps types. A statement that is sure to return does so when simplified,
hence what is never run stays out of reach of the rules. And what leaves its block
declares nothing, so that it does not matter in which scope it stands.
-/

namespace Rill.Stmt

variable {ctx ctx' c : Context}

theorem returnsAny_append (ss ts : List Stmt) :
    returnsAny (ss ++ ts) = (returnsAny ss || returnsAny ts) := by
  induction ss with
  | nil => simp only [List.nil_append, returnsAny, Bool.false_or]
  | cons s rest ih => simp only [List.cons_append, returnsAny, ih, Bool.or_assoc]

theorem returnsAny_spliced (s : Stmt) : returnsAny s.spliced = s.returns := by
  cases s with
  | skip => simp only [spliced, returnsAny, returns]
  | block span body =>
      simp only [spliced]
      split
      · simp only [returnsAny, Bool.or_false]
      · simp only [returns]
  | ite | decl | assign | ret | loop | eval => simp only [spliced, returnsAny, Bool.or_false]

theorem returns_getD {s : Option Stmt} (h : returnsOpt s = true) (span : Span) :
    (s.getD (.skip span)).returns = true := by
  cases s with
  | none => simp only [returnsOpt, Bool.false_eq_true] at h
  | some s => simpa only [returnsOpt, Option.getD_some] using h

theorem returns_collapse {span : Span} {condition : Expr} {positive negative : Option Stmt}
    (first : returnsOpt positive = true) (second : returnsOpt negative = true) :
    (collapse span condition positive negative).returns = true := by
  cases negative with
  | none => simp only [returnsOpt, Bool.false_eq_true] at second
  | some negative => simp only [collapse, returns, first, second, Bool.and_self]

mutual

/-- A simplified statement returns on every path if it did so before. -/
theorem returns_simplify : (s : Stmt) → {s' : Stmt} → s.simplify c = .ok s' →
    s.returns = true → s'.returns = true
  | .ite span _ positive negative, _, h, returned => by
    simp only [returns, Bool.and_eq_true] at returned
    obtain ⟨condition', _, ⟨_, positive', first, rfl⟩ | ⟨_, negative', second, rfl⟩ |
      ⟨_, positive', negative', first, second, rfl⟩⟩ := simplify_ite h
    · exact returns_getD (returnsOpt_simplify positive first returned.1) span
    · exact returns_getD (returnsOpt_simplify negative second returned.2) span
    · exact returns_collapse (returnsOpt_simplify positive first returned.1)
        (returnsOpt_simplify negative second returned.2)
  | .block _ body, _, h, returned => by
    simp only [simplify, except_bind_eq_ok, except_pure_eq_ok] at h
    obtain ⟨body', simplified, rfl⟩ := h
    simp only [returns] at returned ⊢
    exact returnsAny_simplify body simplified returned
  | .ret .., _, h, _ => by
    simp only [simplify, except_bind_eq_ok, except_pure_eq_ok] at h
    obtain ⟨value', _, rfl⟩ := h
    simp only [returns]
  | .decl .., _, _, returned | .assign .., _, _, returned | .loop .., _, _, returned
  | .eval .., _, _, returned | .skip _, _, _, returned => by
    simp only [returns, Bool.false_eq_true] at returned

theorem returnsOpt_simplify : (s : Option Stmt) → {s' : Option Stmt} → simplifyOpt c s = .ok s' →
    returnsOpt s = true → returnsOpt s' = true
  | none, _, _, returned => by
    simp only [returnsOpt, Bool.false_eq_true] at returned
  | some s, _, h, returned => by
    simp only [simplifyOpt, except_bind_eq_ok, except_pure_eq_ok] at h
    obtain ⟨s', simplified, rfl⟩ := h
    simp only [returnsOpt] at returned ⊢
    exact returns_simplify s simplified returned

theorem returnsAny_simplify : (ss : List Stmt) → {ss' : List Stmt} → simplifyAll c ss = .ok ss' →
    returnsAny ss = true → returnsAny ss' = true
  | [], _, _, returned => by
    simp only [returnsAny, Bool.false_eq_true] at returned
  | s :: rest, _, h, returned => by
    simp only [simplifyAll, except_bind_eq_ok, except_pure_eq_ok] at h
    obtain ⟨s', first, rest', others, rfl⟩ := h
    simp only [returnsAny, Bool.or_eq_true] at returned
    rw [returnsAny_append, returnsAny_spliced, Bool.or_eq_true]
    exact returned.imp (returns_simplify s first) (returnsAny_simplify rest others)

end

theorem WellTypedAll.of_head {s : Stmt} {rest : List Stmt} (first : s.WellTyped ctx)
    (bound : s.bindLocal ctx = .ok () ctx') (others : s.returns = false → WellTypedAll ctx' rest) :
    WellTypedAll ctx (s :: rest) := by
  cases returned : s.returns with
  | true => exact .last first returned
  | false => exact .cons first returned bound (others returned)

/-- Statements that declare nothing are followed by others in the same context. -/
theorem WellTypedAll.append {body rest : List Stmt} (bare : body.any isDecl = false)
    (inside : WellTypedAll ctx body) (others : returnsAny body = false → WellTypedAll ctx rest) :
    WellTypedAll ctx (body ++ rest) := by
  induction body with
  | nil => exact others (by simp only [returnsAny])
  | cons s body ih =>
      rw [List.any_cons, Bool.or_eq_false_iff] at bare
      cases inside with
      | last first returned => exact .last first returned
      | cons first falls bound later =>
          have same := bound.symm.trans (bindLocal_of_isDecl_eq_false bare.1)
          cases same
          refine .cons first falls bound (ih bare.2 later fun falls' => others ?_)
          simp only [returnsAny, falls, falls', Bool.or_self]

/-- The braces of a block that declares nothing can be left out. -/
theorem WellTypedAll.of_push {body : List Stmt} (bare : body.any isDecl = false)
    (inside : WellTypedAll ctx.push body) : WellTypedAll ctx body := by
  refine WellTypedAll.congr (Context.Agrees.push_right ctx).symm body (fun s mem => ?_) inside
  refine not_declares ?_
  rw [List.any_eq_false] at bare
  exact Bool.not_eq_true _ ▸ bare s mem

theorem wellTypedAll_spliced {s : Stmt} {rest : List Stmt} (typed : s.WellTyped ctx)
    (bound : s.bindLocal ctx = .ok () ctx') (others : s.returns = false → WellTypedAll ctx' rest) :
    WellTypedAll ctx (s.spliced ++ rest) := by
  cases s with
  | skip =>
      cases bound
      exact others (by simp only [returns])
  | block span body =>
      rw [spliced]
      split
      · exact .of_head typed bound others
      · next bare =>
        cases bound
        cases typed with
        | block inside =>
            rw [Bool.not_eq_true] at bare
            refine .append bare (.of_push bare inside) fun falls => others ?_
            simpa only [returns] using falls
  | ite | decl | assign | ret | loop | eval => exact .of_head typed bound others

/-- A conditional inside another one leaves the block between them. -/
theorem wellTyped_collapse {span : Span} {condition : Expr} {positive negative : Option Stmt}
    (typed : (ite span condition positive negative).WellTyped ctx) :
    (collapse span condition positive negative).WellTyped ctx := by
  rw [collapse.eq_def]
  split
  · next outer inner second body =>
    cases typed with
    | ite tested plain inside =>
        cases inside with
        | block inside =>
            have nested : (ite inner second (some body) none).WellTyped ctx := by
              have alone := WellTypedAll.of_push rfl inside
              cases alone with
              | last first _ => exact first
              | cons first => exact first
            cases nested with
            | ite tested' plain' first =>
                exact .ite (Expr.ty_logic_of_bool tested tested') plain' first
  · exact typed

theorem declaredType_simplify {value value' : Option Expr} (h : Expr.simplifyOpt value = .ok value')
    (ctx : Context) (span : Span) (name : Ident) (written : Option Ty) :
    declaredType ctx span name written value' = declaredType ctx span name written value := by
  cases value with
  | none =>
      simp only [Expr.simplifyOpt, Except.ok.injEq] at h
      rw [h]
  | some e =>
      simp only [Expr.simplifyOpt, except_bind_eq_ok, except_pure_eq_ok] at h
      obtain ⟨e', folded, rfl⟩ := h
      cases written <;>
        simp only [declaredType, Expr.ty_simplify ctx e folded, Expr.span_simplify folded]

/-- A simplified declaration binds its name with the same type. -/
theorem bindLocal_simplify {s s' : Stmt} (contained : s.contained = true)
    (h : s.simplify c = .ok s') : s'.bindLocal ctx = s.bindLocal ctx := by
  cases isDecl : s.isDecl with
  | false =>
      have isDecl' := (contained_simplify c s contained h).2.trans isDecl
      rw [bindLocal_of_isDecl_eq_false isDecl, bindLocal_of_isDecl_eq_false isDecl']
  | true =>
      cases s with
      | decl span name written value =>
          simp only [simplify, except_bind_eq_ok, except_pure_eq_ok] at h
          obtain ⟨value', folded, rfl⟩ := h
          rw [bindLocal, bindLocal]
          simp only [declaredType_simplify folded]
      | ite | block | assign | ret | loop | eval | skip => cases isDecl

theorem simplifyOpt_none {s' : Option Stmt} (h : simplifyOpt c none = .ok s') : s' = none := by
  simp only [simplifyOpt, Except.ok.injEq] at h
  exact h.symm

theorem simplifyOpt_some {s : Stmt} {s' : Option Stmt} (h : simplifyOpt c (some s) = .ok s') :
    ∃ t, s.simplify c = .ok t ∧ s' = some t := by
  simp only [simplifyOpt, except_bind_eq_ok, except_pure_eq_ok] at h
  obtain ⟨t, simplified, rfl⟩ := h
  exact ⟨t, simplified, rfl⟩

mutual

/-- A well-typed statement stays well typed when it is simplified, whatever context that is done
in. -/
theorem wellTyped_simplify {ctx : Context} : (s : Stmt) → {s' : Stmt} → s.contained = true →
    s.simplify c = .ok s' → s.WellTyped ctx → s'.WellTyped ctx
  | .block span body, _, contained, h, .block inside => by
    simp only [Stmt.contained] at contained
    simp only [simplify, except_bind_eq_ok, except_pure_eq_ok] at h
    obtain ⟨body', simplified, rfl⟩ := h
    exact .block (wellTypedAll_simplify body contained simplified inside)
  | .ite span condition (some positive) none, _, contained, h, .ite tested plain first => by
    simp only [Stmt.contained, containedOpt, Bool.and_true, Bool.and_eq_true] at contained
    obtain ⟨condition', folded, ⟨_, _, arm, rfl⟩ | ⟨_, _, arm, rfl⟩ |
      ⟨_, _, _, arm, absent, rfl⟩⟩ := simplify_ite h
    · obtain ⟨positive', simplified, rfl⟩ := simplifyOpt_some arm
      exact wellTyped_simplify positive contained.2 simplified first
    · obtain rfl := simplifyOpt_none arm
      exact .skip
    · obtain ⟨positive', simplified, rfl⟩ := simplifyOpt_some arm
      obtain rfl := simplifyOpt_none absent
      have plain' := (contained_simplify c positive contained.2 simplified).2.trans plain
      refine wellTyped_collapse (.ite ?_ plain' ?_)
      · rw [Expr.ty_simplify ctx condition folded, tested]
      · exact wellTyped_simplify positive contained.2 simplified first
  | .ite span condition (some positive) (some negative), _, contained, h,
      .iteElse tested plain first plain' second => by
    simp only [Stmt.contained, containedOpt, Bool.and_eq_true] at contained
    obtain ⟨condition', folded, ⟨_, _, arm, rfl⟩ | ⟨_, _, arm, rfl⟩ |
      ⟨_, _, _, arm, arm', rfl⟩⟩ := simplify_ite h
    · obtain ⟨positive', simplified, rfl⟩ := simplifyOpt_some arm
      exact wellTyped_simplify positive contained.1.2 simplified first
    · obtain ⟨negative', simplified, rfl⟩ := simplifyOpt_some arm
      exact wellTyped_simplify negative contained.2.2 simplified second
    · obtain ⟨positive', simplified, rfl⟩ := simplifyOpt_some arm
      obtain ⟨negative', simplified', rfl⟩ := simplifyOpt_some arm'
      refine wellTyped_collapse (.iteElse ?_ ?_ ?_ ?_ ?_)
      · rw [Expr.ty_simplify ctx condition folded, tested]
      · exact (contained_simplify c positive contained.1.2 simplified).2.trans plain
      · exact wellTyped_simplify positive contained.1.2 simplified first
      · exact (contained_simplify c negative contained.2.2 simplified').2.trans plain'
      · exact wellTyped_simplify negative contained.2.2 simplified' second
  | .decl .., _, contained, h, .decl bound => by
    have bound' := (bindLocal_simplify contained h).trans bound
    simp only [simplify, except_bind_eq_ok, except_pure_eq_ok] at h
    obtain ⟨value', _, rfl⟩ := h
    exact .decl bound'
  | .assign _ _ value, _, _, h, .assign known typed => by
    simp only [simplify, except_bind_eq_ok, except_pure_eq_ok] at h
    obtain ⟨value', folded, rfl⟩ := h
    refine .assign known ?_
    rw [Expr.ty_simplify ctx value folded, typed]
  | .ret _ none, _, _, h, .retUnit unit => by
    simp only [simplify, Expr.simplifyOpt, except_bind_eq_ok, except_pure_eq_ok] at h
    obtain ⟨_, ⟨⟩, rfl⟩ := h
    exact .retUnit unit
  | .ret _ (some value), _, _, h, .ret typed => by
    simp only [simplify, Expr.simplifyOpt, except_bind_eq_ok, except_pure_eq_ok] at h
    obtain ⟨_, ⟨value', folded, rfl⟩, rfl⟩ := h
    refine .ret ?_
    rw [Expr.ty_simplify ctx value folded, typed]
  | .loop _ condition body, _, contained, h, .loop tested plain inside => by
    simp only [Stmt.contained, Bool.and_eq_true] at contained
    obtain ⟨condition', folded, ⟨_, rfl⟩ | ⟨_, body', simplified, rfl⟩⟩ := simplify_loop h
    · exact .skip
    · refine .loop ?_ ?_ ?_
      · rw [Expr.ty_simplify ctx condition folded, tested]
      · exact (contained_simplify c body contained.2 simplified).2.trans plain
      · exact wellTyped_simplify body contained.2 simplified inside
  | .eval _ value, _, _, h, .eval typed => by
    simp only [simplify, except_bind_eq_ok, except_pure_eq_ok] at h
    obtain ⟨value', folded, rfl⟩ := h
    exact .eval ((Expr.ty_simplify ctx value folded).trans typed)
  | .skip _, _, _, h, .skip => by
    simp only [simplify, Except.ok.injEq] at h
    rw [← h]
    exact .skip

theorem wellTypedAll_simplify {ctx : Context} : (ss : List Stmt) → {ss' : List Stmt} →
    containedAll ss = true → simplifyAll c ss = .ok ss' → WellTypedAll ctx ss →
    WellTypedAll ctx ss'
  | [], _, _, h, _ => by
    simp only [simplifyAll, Except.ok.injEq] at h
    rw [← h]
    exact .nil
  | s :: rest, _, contained, h, typed => by
    simp only [containedAll, Bool.and_eq_true] at contained
    simp only [simplifyAll, except_bind_eq_ok, except_pure_eq_ok] at h
    obtain ⟨s', simplified, rest', others, rfl⟩ := h
    cases typed with
    | last first returned =>
        have first' := wellTyped_simplify s contained.1 simplified first
        obtain ⟨_, bound⟩ := first'.exists_bindLocal
        refine wellTypedAll_spliced first' bound fun falls => ?_
        cases falls.symm.trans (returns_simplify s simplified returned)
    | cons first _ bound later =>
        refine wellTypedAll_spliced (wellTyped_simplify s contained.1 simplified first) ?_ fun _ =>
          wellTypedAll_simplify rest contained.2 others later
        rw [bindLocal_simplify contained.1 simplified]
        exact bound

end

end Rill.Stmt
