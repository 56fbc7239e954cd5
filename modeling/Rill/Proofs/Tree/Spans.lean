import Rill.Proofs.Token.Segment
import Rill.Tree.Parser

/-!
# Changing spans

Trees and errors with all their spans changed. The parser builds spans of nodes from those of
tokens by covering, so a change that respects which span covers which others (`KeepsCovers`) can be
made before a node is built or after.
-/

namespace Rill

theorem keepsCovers_id : KeepsCovers id := fun _ _ => rfl

theorem Token.mapSpan_id : Token.mapSpan id = id := rfl

def Ident.mapSpan (φ : Span → Span) (name : Ident) : Ident :=
  ⟨name.name, φ name.span⟩

theorem Ident.mapSpan_id : Ident.mapSpan id = id := rfl

namespace Expr

mutual

def mapSpans (φ : Span → Span) : Expr → Expr
  | .literal span value => .literal (φ span) value
  | .var span name => .var (φ span) (name.mapSpan φ)
  | .call span target args => .call (φ span) (target.mapSpan φ) (mapSpansAll φ args)
  | .unary span op operand => .unary (φ span) op (operand.mapSpans φ)
  | .binary span op lhs rhs => .binary (φ span) op (lhs.mapSpans φ) (rhs.mapSpans φ)
  | .logic span op lhs rhs => .logic (φ span) op (lhs.mapSpans φ) (rhs.mapSpans φ)

def mapSpansAll (φ : Span → Span) : List Expr → List Expr
  | [] => []
  | e :: rest => e.mapSpans φ :: mapSpansAll φ rest

end

/-- Every node has its own span, so the change is seen at the top of a tree. -/
theorem span_mapSpans (φ : Span → Span) (e : Expr) : (e.mapSpans φ).span = φ e.span := by
  cases e <;> rw [mapSpans] <;> rfl

/-- Parentheses change the span of the expression in them. Moving goes through this. -/
theorem mapSpans_withSpan (φ : Span → Span) (e : Expr) (span : Span) :
    (e.withSpan span).mapSpans φ = (e.mapSpans φ).withSpan (φ span) := by
  cases e <;> simp only [withSpan, mapSpans]

theorem mapSpansAll_eq_map (φ : Span → Span) (es : List Expr) :
    mapSpansAll φ es = es.map (mapSpans φ) := by
  induction es with
  | nil => rw [mapSpansAll, List.map_nil]
  | cons e rest ih => rw [mapSpansAll, List.map_cons, ih]

mutual

/-- No tree is changed if no span is. -/
theorem mapSpans_id : (e : Expr) → e.mapSpans id = e
  | .literal span value => by simp only [mapSpans, id]
  | .var span name => by simp only [mapSpans, Ident.mapSpan_id, id]
  | .call span target args => by
    simp only [mapSpans, Ident.mapSpan_id, mapSpansAll_id args, id]
  | .unary span op operand => by simp only [mapSpans, mapSpans_id operand, id]
  | .binary span op lhs rhs => by simp only [mapSpans, mapSpans_id lhs, mapSpans_id rhs, id]
  | .logic span op lhs rhs => by simp only [mapSpans, mapSpans_id lhs, mapSpans_id rhs, id]

theorem mapSpansAll_id : (es : List Expr) → mapSpansAll id es = es
  | [] => by rw [mapSpansAll]
  | e :: rest => by rw [mapSpansAll, mapSpans_id e, mapSpansAll_id rest]

end

end Expr

namespace Stmt

mutual

def mapSpans (φ : Span → Span) : Stmt → Stmt
  | .ite span condition positive negative =>
    .ite (φ span) (condition.mapSpans φ) (mapSpansOpt φ positive) (mapSpansOpt φ negative)
  | .block span body => .block (φ span) (mapSpansAll φ body)
  | .decl span name ty value => .decl (φ span) (name.mapSpan φ) ty (value.map (·.mapSpans φ))
  | .assign span target value => .assign (φ span) (target.mapSpan φ) (value.mapSpans φ)
  | .ret span value => .ret (φ span) (value.map (·.mapSpans φ))
  | .loop span condition body => .loop (φ span) (condition.mapSpans φ) (body.mapSpans φ)
  | .eval span value => .eval (φ span) (value.mapSpans φ)
  | .skip span => .skip (φ span)

def mapSpansOpt (φ : Span → Span) : Option Stmt → Option Stmt
  | none => none
  | some s => some (s.mapSpans φ)

def mapSpansAll (φ : Span → Span) : List Stmt → List Stmt
  | [] => []
  | s :: rest => s.mapSpans φ :: mapSpansAll φ rest

end

theorem span_mapSpans (φ : Span → Span) (s : Stmt) : (s.mapSpans φ).span = φ s.span := by
  cases s <;> rw [mapSpans] <;> rfl

theorem mapSpansAll_eq_map (φ : Span → Span) (body : List Stmt) :
    mapSpansAll φ body = body.map (mapSpans φ) := by
  induction body with
  | nil => rw [mapSpansAll, List.map_nil]
  | cons s rest ih => rw [mapSpansAll, List.map_cons, ih]

theorem option_mapSpans_id (value : Option Expr) : value.map (Expr.mapSpans id) = value := by
  cases value with
  | none => rfl
  | some e => exact congrArg some e.mapSpans_id

mutual

theorem mapSpans_id : (s : Stmt) → s.mapSpans id = s
  | .ite span condition positive negative => by
    simp only [mapSpans, condition.mapSpans_id, mapSpansOpt_id positive, mapSpansOpt_id negative,
      id]
  | .block span body => by simp only [mapSpans, mapSpansAll_id body, id]
  | .decl span name ty value => by
    simp only [mapSpans, Ident.mapSpan_id, option_mapSpans_id, id]
  | .assign span target value => by simp only [mapSpans, Ident.mapSpan_id, value.mapSpans_id, id]
  | .ret span value => by simp only [mapSpans, option_mapSpans_id, id]
  | .loop span condition body => by
    simp only [mapSpans, condition.mapSpans_id, mapSpans_id body, id]
  | .eval span value => by simp only [mapSpans, value.mapSpans_id, id]
  | .skip span => by simp only [mapSpans, id]

theorem mapSpansOpt_id : (s : Option Stmt) → mapSpansOpt id s = s
  | none => by rw [mapSpansOpt]
  | some s => by rw [mapSpansOpt, mapSpans_id s]

theorem mapSpansAll_id : (body : List Stmt) → mapSpansAll id body = body
  | [] => by rw [mapSpansAll]
  | s :: rest => by rw [mapSpansAll, mapSpans_id s, mapSpansAll_id rest]

end

end Stmt

def Param.mapSpans (φ : Span → Span) (param : Param) : Param :=
  ⟨param.name.mapSpan φ, param.ty, φ param.span⟩

theorem Param.mapSpans_id : Param.mapSpans id = id := rfl

def Header.mapSpans (φ : Span → Span) (header : Header) : Header :=
  ⟨header.name.mapSpan φ, header.params.map (Param.mapSpans φ), header.returnType, φ header.span⟩

theorem Header.mapSpans_id (header : Header) : header.mapSpans id = header := by
  rw [mapSpans, Param.mapSpans_id, List.map_id]
  rfl

def Function.mapSpans (φ : Span → Span) (f : Function) : Function :=
  ⟨f.header.mapSpans φ, f.body.mapSpans φ, φ f.span⟩

theorem Function.mapSpans_id (f : Function) : f.mapSpans id = f := by
  rw [mapSpans, f.header.mapSpans_id, f.body.mapSpans_id]
  rfl

def Module.mapSpans (φ : Span → Span) (m : Module) : Module :=
  ⟨m.functions.map (Function.mapSpans φ)⟩

def ParseError.mapSpan (φ : Span → Span) (error : ParseError) : ParseError :=
  ⟨error.cause, φ error.span⟩

namespace Parser

variable {φ : Span → Span}

/-- An operator covers its operands, so moving both moves the whole. -/
theorem Joint.mapSpans_join (keeps : KeepsCovers φ) (joint : Joint) (lhs rhs : Expr) :
    (joint.join lhs rhs).mapSpans φ = joint.join (lhs.mapSpans φ) (rhs.mapSpans φ) := by
  cases joint <;>
    simp only [join, Expr.mapSpans, Expr.span_mapSpans, keeps lhs.span rhs.span]

theorem peekIs_mapSpans (kind : TokenKind) (tokens : List Token) :
    peekIs kind (tokens.map (Token.mapSpan φ)) = peekIs kind tokens := by
  cases tokens <;> rfl

/-- The error at a token is at its new place, and the one at the end at the new end. -/
theorem mapSpan_mismatch (eof : Span) (wanted : Expectation) (tokens : List Token) :
    (mismatch eof wanted tokens).mapSpan φ =
      mismatch (φ eof) wanted (tokens.map (Token.mapSpan φ)) := by
  cases tokens <;> rfl

/-- What a literal denotes is in its text. Only the error for an integer that is too large has a
place. -/
theorem literal?_mapSpan (token : Token) :
    literal? (token.mapSpan φ) = (literal? token).map (Except.mapError (ParseError.mapSpan φ)) := by
  simp only [literal?, Token.mapSpan]
  split
  · rfl
  · cases Number.readInt? token.text <;> rfl
  · rfl
  · rfl
  · rfl

end Parser

end Rill
