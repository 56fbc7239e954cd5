import Rill.Proofs.Token.Split
import Rill.Proofs.Tree.Descent
import Rill.Proofs.Tree.Foreseen

/-!
# Parsing is by the grammar

Two derivations with the same tokens are the same, so a list of tokens has at most one. The
reading functions are used to see where the parts of a derivation end. Together with what is
said about parsing before, a source parses just if its tokens have a derivation, and then the
module is the tree of this derivation.
-/

namespace Rill.Parser

/-- A reader finds the place where to split. -/
theorem Reader.append_inj {α : Type} {r : Reader α} {front front' rest rest' : List Token}
    {value value' : α} (h : r (front ++ rest) = .ok (value, rest))
    (h' : r (front' ++ rest') = .ok (value', rest')) (same : front ++ rest = front' ++ rest') :
    front = front' ∧ rest = rest' := by
  rw [same, h'] at h
  cases h
  exact ⟨List.append_cancel_right same, rfl⟩

end Rill.Parser

namespace Rill.Grammar

open Rill.Parser

theorem Operator.ext {α : Type} {table : List (Mark × α)} {a b : Operator table}
    (token : a.token = b.token) (op : a.op = b.op) : a = b := by
  cases a
  cases b
  cases token
  cases op
  rfl

/-- The token of an operator tells which one it is. -/
theorem Operator.eq_of_token {n : Nat} {a b : Operator (operators n)} (h : a.token = b.token) :
    a = b := by
  have known := joint?_eq_some_iff.2 a.known
  rw [h, joint?_eq_some_iff.2 b.known] at known
  exact Operator.ext h (Option.some.inj known).symm

theorem Operator.eq_of_prefix {a b : Operator prefixes} (h : a.token = b.token) : a = b := by
  have known := unaryOp?_eq_some_iff.2 a.known
  rw [h, unaryOp?_eq_some_iff.2 b.known] at known
  exact Operator.ext h (Option.some.inj known).symm

theorem Constant.eq_of_token {a b : Constant} (h : a.token = b.token) : a = b := by
  have known := literal?_of_denotes a.denotes
  rw [h, literal?_of_denotes b.denotes] at known
  obtain ⟨token, value, _⟩ := a
  obtain ⟨token', value', _⟩ := b
  obtain rfl : token = token' := h
  cases known
  rfl

/-- A type ends where it must, whatever stands behind it. -/
theorem TypeName.append_inj {a b : TypeName} {rest rest' : List Token}
    (h : a.tokens ++ rest = b.tokens ++ rest') : a = b ∧ rest = rest' := by
  cases a with
  | unit opening closing =>
      cases b with
      | unit opening' closing' =>
          simp only [tokens, List.cons_append, List.nil_append, List.cons.injEq] at h
          exact ⟨by rw [Terminal.ext h.1, Terminal.ext h.2.1], h.2.2⟩
      | named name ty known =>
          simp only [tokens, List.cons_append, List.nil_append, List.cons.injEq] at h
          cases (opening.fits.symm.trans (congrArg Token.kind h.1)).trans name.fits
  | named name ty known =>
      cases b with
      | unit opening closing =>
          simp only [tokens, List.cons_append, List.nil_append, List.cons.injEq] at h
          cases (name.fits.symm.trans (congrArg Token.kind h.1)).trans opening.fits
      | named name' ty' known' =>
          simp only [tokens, List.cons_append, List.nil_append, List.cons.injEq] at h
          obtain rfl := Terminal.ext h.1
          have same := ofName?_of_mem known
          rw [ofName?_of_mem known'] at same
          cases same
          exact ⟨rfl, h.2⟩

theorem Marked.append_inj {mark : Mark} {a b : Marked mark TypeName} {rest rest' : List Token}
    (h : a.tokens TypeName.tokens ++ rest = b.tokens TypeName.tokens ++ rest')
    (behind : peekIs (.mark mark) rest = false) (behind' : peekIs (.mark mark) rest' = false) :
    a = b ∧ rest = rest' := by
  cases a with
  | none =>
      cases b with
      | none => exact ⟨rfl, h⟩
      | some marked =>
          obtain rfl : rest = marked.1.token :: (marked.2.tokens ++ rest') := h
          cases behind.symm.trans (peekIs_token marked.1 _)
  | some marked =>
      cases b with
      | none =>
          obtain rfl : marked.1.token :: (marked.2.tokens ++ rest) = rest' := h
          cases behind'.symm.trans (peekIs_token marked.1 _)
      | some marked' =>
          obtain ⟨sign, type⟩ := marked
          obtain ⟨sign', type'⟩ := marked'
          rw [tokens_some, tokens_some, List.cons_append, List.cons_append, List.cons.injEq] at h
          obtain rfl := Terminal.ext h.1
          obtain ⟨rfl, same⟩ := TypeName.append_inj h.2
          exact ⟨rfl, same⟩

section Expressions

variable {n : Nat} {rest rest' : List Token}

theorem follows_nil (n : Nat) : Follows n [] :=
  ⟨rfl, rfl, nofun⟩

theorem Tier.append_inj {a b : Tier n} (h : a.tokens ++ rest = b.tokens ++ rest')
    (follows : Follows n rest) (follows' : Follows n rest') :
    a.tokens = b.tokens ∧ rest = rest' :=
  Reader.append_inj (r := read (tier ⟨0, 0⟩ n)) (takes_tier a follows) (takes_tier b follows') h

theorem Links.follows (links : Links n) : Follows n links.tokens := by
  have follows := (follows_nil (n + 1)).links links
  rwa [List.append_nil] at follows

theorem Tier.tokens_ne_nil (e : Tier n) : e.tokens ≠ [] := by
  obtain ⟨t, more, split, _⟩ := e.exists_first
  rw [split]
  exact List.cons_ne_nil t more

end Expressions

theorem Terminal.concat_inj {kind : TokenKind} {front front' : List Token} {t u : Terminal kind}
    (h : front ++ [t.token] = front' ++ [u.token]) : front = front' ∧ t = u := by
  obtain ⟨fronts, last⟩ := List.append_inj' h rfl
  exact ⟨fronts, Terminal.ext (List.cons.inj last).1⟩

/-- A token has one kind. -/
theorem Terminal.false_of_token {kind kind' : TokenKind} {t : Terminal kind} {u : Terminal kind'}
    (h : t.token = u.token) (differ : kind ≠ kind') : False :=
  differ (t.fits.symm.trans ((congrArg Token.kind h).trans u.fits))

mutual

/-- The first operand is found by reading it, so the chains are the same too. -/
theorem Tier.tokens_inj : {n : Nat} → (a b : Tier n) → a.tokens = b.tokens → a = b
  | _, .unary a, .unary b, h => by
    rw [Tier.tokens, Tier.tokens] at h
    rw [Unary.tokens_inj a b h]
  | _, .chain first links, .chain first' links', h => by
    rw [Tier.tokens, Tier.tokens] at h
    obtain ⟨firsts, more⟩ := Tier.append_inj h links.follows links'.follows
    rw [Tier.tokens_inj first first' firsts, Links.tokens_inj links links' more]
termination_by structural _ a => a

theorem Links.tokens_inj : {n : Nat} → (a b : Links n) → a.tokens = b.tokens → a = b
  | _, .nil, .nil, _ => rfl
  | _, .nil, .cons .., h => by
    rw [Links.tokens, Links.tokens] at h
    cases h
  | _, .cons .., .nil, h => by
    rw [Links.tokens, Links.tokens] at h
    cases h
  | _, .cons op operand more, .cons op' operand' more', h => by
    rw [Links.tokens, Links.tokens, List.cons.injEq] at h
    obtain ⟨operands, others⟩ := Tier.append_inj h.2 more.follows more'.follows
    rw [Operator.eq_of_token h.1, Tier.tokens_inj operand operand' operands,
      Links.tokens_inj more more' others]
termination_by structural _ a => a

theorem Unary.tokens_inj : (a b : Unary) → a.tokens = b.tokens → a = b
  | .prefixed op operand, .prefixed op' operand', h => by
    rw [Unary.tokens, Unary.tokens, List.cons.injEq] at h
    rw [Operator.eq_of_prefix h.1, Unary.tokens_inj operand operand' h.2]
  | .prefixed op operand, .primary e, h => by
    obtain ⟨t, more, split, _, plain⟩ := e.exists_first
    rw [Unary.tokens, Unary.tokens, split, List.cons.injEq] at h
    rw [← h.1, unaryOp?_eq_some_iff.2 op.known] at plain
    cases plain
  | .primary e, .prefixed op operand, h => by
    obtain ⟨t, more, split, _, plain⟩ := e.exists_first
    rw [Unary.tokens, Unary.tokens, split, List.cons.injEq] at h
    rw [h.1, unaryOp?_eq_some_iff.2 op.known] at plain
    cases plain
  | .primary a, .primary b, h => by
    rw [Unary.tokens, Unary.tokens] at h
    rw [Primary.tokens_inj a b h]
termination_by structural a => a

theorem Primary.tokens_inj : (a b : Primary) → a.tokens = b.tokens → a = b
  | .call name opening args closing, .call name' opening' args' closing', h => by
    simp only [Primary.tokens, List.cons.injEq] at h
    obtain ⟨names, openings, behind⟩ := h
    obtain ⟨same, closings⟩ := Terminal.concat_inj behind
    rw [Terminal.ext names, Terminal.ext openings, argTokens_inj args args' same, closings]
  | .call name opening args closing, .var name', h => by
    simp only [Primary.tokens, List.cons.injEq, reduceCtorEq, and_false] at h
  | .call name opening args closing, .constant literal, h => by
    simp only [Primary.tokens, List.cons.injEq, reduceCtorEq, and_false] at h
  | .call name opening args closing, .group opening' inner closing', h => by
    simp only [Primary.tokens, List.cons.injEq] at h
    exact (Terminal.false_of_token h.1 (by decide)).elim
  | .var name, .call name' opening args closing, h => by
    simp only [Primary.tokens, List.cons.injEq, reduceCtorEq, and_false] at h
  | .var name, .var name', h => by
    simp only [Primary.tokens, List.cons.injEq] at h
    rw [Terminal.ext h.1]
  | .var name, .constant literal, h => by
    simp only [Primary.tokens, List.cons.injEq] at h
    exact absurd (h.1 ▸ name.fits) literal.kind_ne.1
  | .var name, .group opening inner closing, h => by
    simp only [Primary.tokens, List.cons.injEq] at h
    exact (Terminal.false_of_token h.1 (by decide)).elim
  | .constant literal, .call name opening args closing, h => by
    simp only [Primary.tokens, List.cons.injEq, reduceCtorEq, and_false] at h
  | .constant literal, .var name, h => by
    simp only [Primary.tokens, List.cons.injEq] at h
    exact absurd (h.1 ▸ name.fits) literal.kind_ne.1
  | .constant literal, .constant literal', h => by
    simp only [Primary.tokens, List.cons.injEq] at h
    rw [Constant.eq_of_token h.1]
  | .constant literal, .group opening inner closing, h => by
    simp only [Primary.tokens, List.cons.injEq] at h
    exact absurd (h.1 ▸ opening.fits) literal.kind_ne.2
  | .group opening inner closing, .call name opening' args closing', h => by
    simp only [Primary.tokens, List.cons.injEq] at h
    exact (Terminal.false_of_token h.1 (by decide)).elim
  | .group opening inner closing, .var name, h => by
    simp only [Primary.tokens, List.cons.injEq] at h
    exact (Terminal.false_of_token h.1 (by decide)).elim
  | .group opening inner closing, .constant literal, h => by
    simp only [Primary.tokens, List.cons.injEq] at h
    exact absurd (h.1 ▸ opening.fits) literal.kind_ne.2
  | .group opening inner closing, .group opening' inner' closing', h => by
    simp only [Primary.tokens, List.cons.injEq] at h
    obtain ⟨same, closings⟩ := Terminal.concat_inj h.2
    rw [Terminal.ext h.1, Tier.tokens_inj inner inner' same, closings]
termination_by structural a => a

theorem argTokens_inj : (a b : Listed Expr) → argTokens a = argTokens b → a = b
  | .nil, .nil, _ => rfl
  | .nil, .last arg, h => by
    rw [argTokens, argTokens] at h
    exact absurd h.symm arg.tokens_ne_nil
  | .nil, .cons arg comma more, h => by
    simp only [argTokens, List.nil_eq, List.append_eq_nil_iff, reduceCtorEq, and_false] at h
  | .last arg, .nil, h => by
    rw [argTokens, argTokens] at h
    exact absurd h arg.tokens_ne_nil
  | .last arg, .last arg', h => by
    rw [argTokens, argTokens] at h
    rw [Tier.tokens_inj arg arg' h]
  | .last arg, .cons arg' comma more, h => by
    rw [argTokens, argTokens, ← List.append_nil arg.tokens] at h
    cases (Tier.append_inj h (follows_nil _) (.sign comma _ (by decide))).2
  | .cons arg comma more, .nil, h => by
    simp only [argTokens, List.append_eq_nil_iff, reduceCtorEq, and_false] at h
  | .cons arg comma more, .last arg', h => by
    rw [argTokens, argTokens, ← List.append_nil arg'.tokens] at h
    cases (Tier.append_inj h (.sign comma _ (by decide)) (follows_nil _)).2
  | .cons arg comma more, .cons arg' comma' more', h => by
    rw [argTokens, argTokens] at h
    obtain ⟨args, behind⟩ :=
      Tier.append_inj h (.sign comma _ (by decide)) (.sign comma' _ (by decide))
    rw [List.cons.injEq] at behind
    rw [Tier.tokens_inj arg arg' args, Terminal.ext behind.1, argTokens_inj more more' behind.2]
termination_by structural a => a

end

theorem Marked.tokens_inj {mark : Mark} {a b : Marked mark Expr}
    (h : a.tokens Tier.tokens = b.tokens Tier.tokens) : a = b := by
  cases a with
  | none =>
      cases b with
      | none => rfl
      | some marked => cases h
  | some marked =>
      cases b with
      | none => cases h
      | some marked' =>
          obtain ⟨sign, value⟩ := marked
          obtain ⟨sign', value'⟩ := marked'
          rw [tokens_some, tokens_some, List.cons.injEq] at h
          rw [Terminal.ext h.1, Tier.tokens_inj value value' h.2]

/-- What stands behind the type of a declaration is not taken for a type. -/
theorem Marked.peekIs_colon (value : Marked .equal Expr) (semicolon : Sign .semicolon) :
    peekIs (.mark .colon) (value.tokens Tier.tokens ++ [semicolon.token]) = false := by
  cases value with
  | none => exact peekIs_other semicolon [] (by decide)
  | some marked => exact peekIs_other marked.1 _ (by decide)

theorem valueTokens_inj {a b : Option Expr}
    (h : a.elim [] Tier.tokens = b.elim [] Tier.tokens) : a = b := by
  cases a with
  | none =>
      cases b with
      | none => rfl
      | some e => exact absurd h.symm e.tokens_ne_nil
  | some e =>
      cases b with
      | none => exact absurd h e.tokens_ne_nil
      | some e' => rw [Tier.tokens_inj e e' h]

theorem Block.append_inj {a b : Block} {rest rest' : List Token}
    (h : a.tokens ++ rest = b.tokens ++ rest') : a.tokens = b.tokens ∧ rest = rest' :=
  Reader.append_inj (r := read (Parser.block ⟨0, 0⟩)) (takes_block a rest) (takes_block b rest') h

theorem Block.follows (b : Block) : Follows topTier b.tokens := by
  have follows := follows_block b []
  rwa [List.append_nil] at follows

theorem Block.peekIs_arrow (b : Block) : peekIs (.mark .arrow) b.tokens = false := by
  obtain ⟨t, more, split⟩ := b.exists_first
  rw [split]
  exact peekIs_other t _ (by decide)

/-- A block begins with a brace and a conditional does not. -/
theorem Block.tokens_ne (b : Block) (c : Conditional) : b.tokens ≠ c.tokens := by
  obtain ⟨t, more, split⟩ := b.exists_first
  obtain ⟨u, more', split'⟩ := c.exists_first
  intro same
  rw [split, split', List.cons.injEq] at same
  exact Terminal.false_of_token same.1 (by decide)

theorem Stmt.append_inj {a b : Stmt} {rest rest' : List Token}
    (h : a.tokens ++ rest = b.tokens ++ rest')
    (behind : peekIs (.keyword .elseWord) rest = false)
    (behind' : peekIs (.keyword .elseWord) rest' = false) : a.tokens = b.tokens ∧ rest = rest' :=
  Reader.append_inj (r := read (Parser.statement ⟨0, 0⟩)) (takes_statement a behind)
    (takes_statement b behind') h

theorem Stmt.ctorIdx_tree (s : Stmt) : s.tree.ctorIdx = s.ctorIdx := by
  cases s with
  | conditional conditional => cases conditional <;> rfl
  | block block => cases block; rfl
  | _ => rfl

/-- Statements with the same tokens are made by the same rule: their trees are the same. -/
theorem Stmt.ctorIdx_eq {a b : Stmt} (h : a.tokens = b.tokens) : a.ctorIdx = b.ctorIdx := by
  have taken : read (Parser.statement ⟨0, 0⟩) (a.tokens ++ []) = .ok (_, []) :=
    takes_statement a rfl
  rw [h, takes_statement b rfl] at taken
  rw [← a.ctorIdx_tree, ← b.ctorIdx_tree, (Prod.mk.inj (Except.ok.inj taken)).1]

/-- The parts of a conditional up to its first branch. -/
theorem condition_inj {word word' : Word .ifWord} {condition condition' : Expr}
    {positive positive' : Block} {rest rest' : List Token}
    (h : word.token :: (condition.tokens ++ (positive.tokens ++ rest)) =
      word'.token :: (condition'.tokens ++ (positive'.tokens ++ rest'))) :
    word = word' ∧ condition = condition' ∧ positive.tokens = positive'.tokens ∧ rest = rest' := by
  rw [List.cons.injEq] at h
  obtain ⟨conditions, behind⟩ :=
    Tier.append_inj h.2 (follows_block positive rest) (follows_block positive' rest')
  exact ⟨Terminal.ext h.1, Tier.tokens_inj _ _ conditions, Block.append_inj behind⟩

mutual

theorem Stmt.tokens_inj (a b : Stmt) (h : a.tokens = b.tokens) : a = b := by
  -- The rules agree, so only one of eight cases for `b` is left each time.
  have form := Stmt.ctorIdx_eq h
  cases a with
  | conditional c =>
      cases b with
      | conditional c' =>
          rw [Stmt.tokens, Stmt.tokens] at h
          rw [Conditional.tokens_inj c c' h]
      | _ => cases form
  | block block =>
      cases b with
      | block block' =>
          rw [Stmt.tokens, Stmt.tokens] at h
          rw [Block.tokens_inj block block' h]
      | _ => cases form
  | decl word name type value semicolon =>
      cases b with
      | decl word' name' type' value' semicolon' =>
          simp only [Stmt.tokens, List.cons.injEq] at h
          obtain ⟨words, names, behind⟩ := h
          obtain ⟨types, behindType⟩ :=
            Marked.append_inj behind (value.peekIs_colon _) (value'.peekIs_colon _)
          obtain ⟨values, semicolons⟩ := Terminal.concat_inj behindType
          rw [Terminal.ext words, Terminal.ext names, types, Marked.tokens_inj values, semicolons]
      | _ => cases form
  | assign target equal value semicolon =>
      cases b with
      | assign target' equal' value' semicolon' =>
          simp only [Stmt.tokens, List.cons.injEq] at h
          obtain ⟨targets, equals, behind⟩ := h
          obtain ⟨values, semicolons⟩ := Terminal.concat_inj behind
          rw [Terminal.ext targets, Terminal.ext equals, Tier.tokens_inj _ _ values, semicolons]
      | _ => cases form
  | ret word value semicolon =>
      cases b with
      | ret word' value' semicolon' =>
          simp only [Stmt.tokens, List.cons.injEq] at h
          obtain ⟨words, behind⟩ := h
          obtain ⟨values, semicolons⟩ := Terminal.concat_inj behind
          rw [Terminal.ext words, valueTokens_inj values, semicolons]
      | _ => cases form
  | loop word condition body =>
      cases b with
      | loop word' condition' body' =>
          simp only [Stmt.tokens, List.cons.injEq] at h
          obtain ⟨conditions, bodies⟩ := Tier.append_inj h.2 body.follows body'.follows
          rw [Terminal.ext h.1, Tier.tokens_inj _ _ conditions, Block.tokens_inj body body' bodies]
      | _ => cases form
  | eval value semicolon =>
      cases b with
      | eval value' semicolon' =>
          rw [Stmt.tokens, Stmt.tokens] at h
          obtain ⟨values, semicolons⟩ := Terminal.concat_inj h
          rw [Tier.tokens_inj _ _ values, semicolons]
      | _ => cases form
  | skip semicolon =>
      cases b with
      | skip semicolon' =>
          rw [Stmt.tokens, Stmt.tokens] at h
          rw [Terminal.ext (List.cons.inj h).1]
      | _ => cases form
termination_by structural a

theorem Block.tokens_inj : (a b : Block) → a.tokens = b.tokens → a = b
  | .braces opening body closing, .braces opening' body' closing', h => by
    rw [Block.tokens, Block.tokens, List.cons.injEq] at h
    obtain ⟨bodies, closings⟩ := Terminal.concat_inj h.2
    rw [Terminal.ext h.1, stmtTokens_inj body body' bodies, closings]
termination_by structural a => a

theorem Conditional.tokens_inj (a b : Conditional) (h : a.tokens = b.tokens) : a = b := by
  cases a with
  | plain word condition positive =>
      rw [Conditional.tokens, ← List.append_nil positive.tokens] at h
      cases b with
      | plain word' condition' positive' =>
          rw [Conditional.tokens, ← List.append_nil positive'.tokens] at h
          obtain ⟨rfl, rfl, positives, _⟩ := condition_inj h
          rw [Block.tokens_inj _ _ positives]
      | orBlock | orConditional =>
          rw [Conditional.tokens] at h
          cases (condition_inj h).2.2.2
  | orBlock word condition positive otherwise negative =>
      rw [Conditional.tokens] at h
      cases b with
      | plain word' condition' positive' =>
          rw [Conditional.tokens, ← List.append_nil positive'.tokens] at h
          cases (condition_inj h).2.2.2
      | orBlock word' condition' positive' otherwise' negative' =>
          rw [Conditional.tokens] at h
          obtain ⟨rfl, rfl, positives, behind⟩ := condition_inj h
          rw [List.cons.injEq] at behind
          rw [Block.tokens_inj _ _ positives, Terminal.ext behind.1,
            Block.tokens_inj negative negative' behind.2]
      | orConditional word' condition' positive' otherwise' negative' =>
          rw [Conditional.tokens] at h
          have branches := (List.cons.inj (condition_inj h).2.2.2).2
          exact absurd branches (negative.tokens_ne negative')
  | orConditional word condition positive otherwise negative =>
      rw [Conditional.tokens] at h
      cases b with
      | plain word' condition' positive' =>
          rw [Conditional.tokens, ← List.append_nil positive'.tokens] at h
          cases (condition_inj h).2.2.2
      | orBlock word' condition' positive' otherwise' negative' =>
          rw [Conditional.tokens] at h
          have branches := (List.cons.inj (condition_inj h).2.2.2).2
          exact absurd branches.symm (negative'.tokens_ne negative)
      | orConditional word' condition' positive' otherwise' negative' =>
          rw [Conditional.tokens] at h
          obtain ⟨rfl, rfl, positives, behind⟩ := condition_inj h
          rw [List.cons.injEq] at behind
          rw [Block.tokens_inj _ _ positives, Terminal.ext behind.1,
            Conditional.tokens_inj negative negative' behind.2]
termination_by structural a

theorem stmtTokens_inj : (a b : List Stmt) → stmtTokens a = stmtTokens b → a = b
  | [], [], _ => rfl
  | [], first :: others, h => by
    obtain ⟨t, more, split, _⟩ := first.exists_first
    rw [stmtTokens, stmtTokens, split] at h
    cases h
  | first :: others, [], h => by
    obtain ⟨t, more, split, _⟩ := first.exists_first
    rw [stmtTokens, stmtTokens, split] at h
    cases h
  | first :: others, first' :: others', h => by
    have behind : ∀ body, peekIs (.keyword .elseWord) (stmtTokens body) = false := by
      intro body
      have last : peekIs (.keyword .elseWord) (stmtTokens body ++ []) = false :=
        peekIs_else body rfl
      rwa [List.append_nil] at last
    rw [stmtTokens, stmtTokens] at h
    obtain ⟨firsts, more⟩ := Stmt.append_inj h (behind others) (behind others')
    rw [Stmt.tokens_inj first first' firsts, stmtTokens_inj others others' more]
termination_by structural a => a

end

theorem Param.append_inj {a b : Param} {rest rest' : List Token}
    (h : a.tokens ++ rest = b.tokens ++ rest') : a = b ∧ rest = rest' := by
  obtain ⟨name, colon, type⟩ := a
  obtain ⟨name', colon', type'⟩ := b
  simp only [Param.tokens, List.cons_append, List.cons.injEq] at h
  obtain ⟨names, colons, behind⟩ := h
  obtain ⟨rfl, rests⟩ := TypeName.append_inj behind
  rw [Terminal.ext names, Terminal.ext colons]
  exact ⟨rfl, rests⟩

theorem params_inj : (a b : Listed Param) →
    a.tokens Param.tokens = b.tokens Param.tokens → a = b
  | .nil, .nil, _ => rfl
  | .nil, .last p, h => by cases h
  | .nil, .cons p comma more, h => by cases h
  | .last p, .nil, h => by cases h
  | .last p, .last p', h => by
    rw [Listed.tokens, Listed.tokens, ← List.append_nil p.tokens, ← List.append_nil p'.tokens] at h
    rw [(Param.append_inj h).1]
  | .last p, .cons p' comma more, h => by
    rw [Listed.tokens, Listed.tokens, ← List.append_nil p.tokens] at h
    cases (Param.append_inj h).2
  | .cons p comma more, .nil, h => by cases h
  | .cons p comma more, .last p', h => by
    rw [Listed.tokens, Listed.tokens, ← List.append_nil p'.tokens] at h
    cases (Param.append_inj h).2
  | .cons p comma more, .cons p' comma' more', h => by
    rw [Listed.tokens, Listed.tokens] at h
    obtain ⟨rfl, behind⟩ := Param.append_inj h
    rw [List.cons.injEq] at behind
    rw [Terminal.ext behind.1, params_inj more more' behind.2]

theorem Header.tokens_inj {a b : Header} (h : a.tokens = b.tokens) : a = b := by
  obtain ⟨name, opening, params, closing, result⟩ := a
  obtain ⟨name', opening', params', closing', result'⟩ := b
  simp only [Header.tokens, List.cons.injEq] at h
  obtain ⟨names, openings, behind⟩ := h
  obtain ⟨same, rests⟩ := Reader.append_inj (r := read (Parser.params ⟨0, 0⟩))
    (takes_params closing _ params) (takes_params closing' _ params') behind
  rw [List.cons.injEq, ← List.append_nil (result.tokens _), ← List.append_nil (result'.tokens _)]
    at rests
  obtain ⟨rfl, _⟩ := Marked.append_inj rests.2 rfl rfl
  rw [Terminal.ext names, Terminal.ext openings, params_inj params params' same,
    Terminal.ext rests.1]

/-- A function ends with its body, so what follows makes no difference. -/
theorem Function.append_inj {a b : Function} {rest rest' : List Token}
    (h : a.tokens ++ rest = b.tokens ++ rest') : a = b ∧ rest = rest' := by
  obtain ⟨tokens, rests⟩ := Reader.append_inj (r := read (Parser.function ⟨0, 0⟩))
    (takes_function a rest) (takes_function b rest') h
  refine ⟨?_, rests⟩
  obtain ⟨word, header, body⟩ := a
  obtain ⟨word', header', body'⟩ := b
  simp only [Function.tokens, List.cons.injEq] at tokens
  obtain ⟨words, behind⟩ := tokens
  obtain ⟨headers, bodies⟩ := Reader.append_inj (r := read (Parser.header ⟨0, 0⟩))
    (takes_header header body.peekIs_arrow) (takes_header header' body'.peekIs_arrow) behind
  rw [Terminal.ext words, Header.tokens_inj headers, Block.tokens_inj body body' bodies]

theorem functions_inj : (a b : List Function) →
    a.flatMap Function.tokens = b.flatMap Function.tokens → a = b
  | [], [], _ => rfl
  | [], f :: fs, h => by cases h
  | f :: fs, [], h => by cases h
  | f :: fs, f' :: fs', h => by
    rw [List.flatMap_cons, List.flatMap_cons] at h
    obtain ⟨rfl, behind⟩ := Function.append_inj h
    rw [functions_inj fs fs' behind]

/-- A list of tokens has at most one derivation. -/
theorem Module.tokens_injective : Function.Injective Module.tokens := by
  intro a b h
  obtain ⟨fs⟩ := a
  obtain ⟨fs'⟩ := b
  rw [functions_inj fs fs' h]

end Rill.Grammar

namespace Rill.Source

variable {source : Source} {tokens : List Token}

theorem spelled_of_reads {front gap : List Char} {offset : Nat}
    (reads : Lexer.Reads gap offset front tokens) : Parser.Spelled tokens := by
  intro t mem
  obtain ⟨_, _, _, _, spells, _⟩ := reads.exists_piece mem
  exact spells

theorem spelled_of_tokens (lexed : source.tokens = .ok tokens) : Parser.Spelled tokens := by
  obtain ⟨front, gap, _, reads, _⟩ := Lexer.lex_eq_ok_iff.1 lexed
  exact spelled_of_reads reads

theorem parse_of_tokens (lexed : source.tokens = .ok tokens) :
    source.parse = (Parser.functions source.eof tokens).map Module.mk := by
  rw [Source.parse, lexed]
  show (Parser.functions source.eof tokens >>= fun fs => pure (Module.mk fs)) = _
  cases Parser.functions source.eof tokens <;> rfl

/-- A source can be parsed by an attempt. Its recursion is on a number, so it can be computed. -/
theorem parse_of_attempt (lexed : source.tokens = .ok tokens) {depth : Nat}
    {outcome : Except ParseError (List Function × List Token)}
    (attempted : Parser.attempt source.eof depth .functions tokens = some outcome)
    (enough : 12 * tokens.length + 2 < depth) :
    source.parse = outcome.map fun read => ⟨read.1⟩ := by
  have ends : Parser.attempt source.eof depth .functions tokens =
      some (Parser.readAll source.eof tokens) := Parser.attempt_eq enough
  obtain rfl : outcome = Parser.readAll source.eof tokens :=
    Option.some.inj (attempted.symm.trans ends)
  rw [parse_of_tokens lexed, Parser.readAll]
  cases Parser.functions source.eof tokens <;> rfl

/-- Parsing finds the tree of a derivation of the tokens. -/
theorem parse_of_derivation (lexed : source.tokens = .ok tokens) {d : Grammar.Module}
    (derives : d.tokens = tokens) : source.parse = .ok d.tree := by
  obtain ⟨fs, read, same⟩ := except_map_eq_ok.1 (Parser.takes_functions d.functions)
  cases same
  rw [parse_of_tokens lexed, ← derives, Grammar.Module.tokens, read]
  rfl

theorem exists_tokens {m : Module} (parsed : source.parse = .ok m) :
    ∃ tokens, source.tokens = .ok tokens := by
  rw [Source.parse] at parsed
  obtain ⟨tokens, lexed, _⟩ := except_bind_eq_ok.1 parsed
  exact ⟨tokens, lexed⟩

/-- What has been parsed has a derivation. -/
theorem exists_derivation (lexed : source.tokens = .ok tokens) {m : Module}
    (parsed : source.parse = .ok m) : ∃ d : Grammar.Module, d.tokens = tokens ∧ d.tree = m := by
  rw [parse_of_tokens lexed] at parsed
  obtain ⟨fs, read, derives⟩ | ⟨_, _, _, failed⟩ | ⟨_, failed⟩ :=
    Parser.functions_cases (spelled_of_tokens lexed)
  · rw [read] at parsed
    cases parsed
    exact ⟨⟨fs⟩, derives, rfl⟩
  · rw [failed] at parsed
    cases parsed
  · rw [failed] at parsed
    cases parsed

/-- Parsing succeeds just if the tokens have a derivation. Then they have only this one, and the
module is its tree. -/
theorem parse_iff_derivation (lexed : source.tokens = .ok tokens) :
    ((∃ m, source.parse = .ok m) ↔ ∃ d : Grammar.Module, d.tokens = tokens) ∧
      ∀ d : Grammar.Module, d.tokens = tokens →
        source.parse = .ok d.tree ∧
          ∀ other : Grammar.Module, other.tokens = tokens → other = d := by
  constructor
  · constructor
    · rintro ⟨m, parsed⟩
      obtain ⟨d, derives, _⟩ := exists_derivation lexed parsed
      exact ⟨d, derives⟩
    · rintro ⟨d, derives⟩
      exact ⟨d.tree, parse_of_derivation lexed derives⟩
  · intro d derives
    refine ⟨parse_of_derivation lexed derives, fun other same => ?_⟩
    exact Grammar.Module.tokens_injective (same.trans derives.symm)

end Rill.Source

namespace Rill

/-- Both differences group to the left, the sign binds tighter than the product, and a comma
follows the only parameter. -/
def chained : Source where
  text := "fn f(a: int,) -> int \x7b return a - 1 - -a * (2); \x7d"

def chainedTokens : List Token :=
  [⟨.keyword .fnWord, "fn", ⟨0, 2⟩⟩, ⟨.identifier, "f", ⟨3, 4⟩⟩, ⟨.mark .openParen, "(", ⟨4, 5⟩⟩,
    ⟨.identifier, "a", ⟨5, 6⟩⟩, ⟨.mark .colon, ":", ⟨6, 7⟩⟩, ⟨.identifier, "int", ⟨8, 11⟩⟩,
    ⟨.mark .comma, ",", ⟨11, 12⟩⟩, ⟨.mark .closeParen, ")", ⟨12, 13⟩⟩,
    ⟨.mark .arrow, "->", ⟨14, 16⟩⟩, ⟨.identifier, "int", ⟨17, 20⟩⟩,
    ⟨.mark .openBrace, "\x7b", ⟨21, 22⟩⟩, ⟨.keyword .returnWord, "return", ⟨23, 29⟩⟩,
    ⟨.identifier, "a", ⟨30, 31⟩⟩, ⟨.mark .minus, "-", ⟨32, 33⟩⟩, ⟨.integer, "1", ⟨34, 35⟩⟩,
    ⟨.mark .minus, "-", ⟨36, 37⟩⟩, ⟨.mark .minus, "-", ⟨38, 39⟩⟩, ⟨.identifier, "a", ⟨39, 40⟩⟩,
    ⟨.mark .star, "*", ⟨41, 42⟩⟩, ⟨.mark .openParen, "(", ⟨43, 44⟩⟩, ⟨.integer, "2", ⟨44, 45⟩⟩,
    ⟨.mark .closeParen, ")", ⟨45, 46⟩⟩, ⟨.mark .semicolon, ";", ⟨46, 47⟩⟩,
    ⟨.mark .closeBrace, "\x7d", ⟨48, 49⟩⟩]

private def chainedName (start : Nat) : Ident := ⟨"a", ⟨start, start + 1⟩⟩

def chainedFunction : Function where
  header :=
    { name := ⟨"f", ⟨3, 4⟩⟩
      params := [⟨chainedName 5, .int, ⟨5, 11⟩⟩]
      returnType := .int
      span := ⟨3, 20⟩ }
  body :=
    let first := .binary ⟨30, 35⟩ .sub (.var ⟨30, 31⟩ (chainedName 30)) (.literal ⟨34, 35⟩ (.int 1))
    let second := .binary ⟨38, 46⟩ .mul
      (.unary ⟨38, 40⟩ .neg (.var ⟨39, 40⟩ (chainedName 39))) (.literal ⟨43, 46⟩ (.int 2))
    .block ⟨21, 49⟩ [.ret ⟨23, 47⟩ (some (.binary ⟨30, 46⟩ .sub first second))]
  span := ⟨0, 49⟩

theorem parse_chained : chained.parse = .ok ⟨[chainedFunction]⟩ := by
  have lexed : chained.tokens = .ok chainedTokens := by decide +kernel
  have attempted : Parser.attempt chained.eof 300 .functions chainedTokens =
      some (.ok ([chainedFunction], [])) := by rfl
  exact Source.parse_of_attempt lexed attempted (by decide)

theorem Source.parse_iff_derivation_chained :
    ∃ tokens, chained.tokens = .ok tokens ∧
      ∃ d : Grammar.Module, d.tokens = tokens ∧ d.tree = ⟨[chainedFunction]⟩ ∧
        ∀ other : Grammar.Module, other.tokens = tokens → other = d := by
  obtain ⟨tokens, lexed⟩ := exists_tokens parse_chained
  obtain ⟨d, derives⟩ := (parse_iff_derivation lexed).1.1 ⟨⟨[chainedFunction]⟩, parse_chained⟩
  obtain ⟨read, unique⟩ := (parse_iff_derivation lexed).2 d derives
  refine ⟨tokens, lexed, d, derives, ?_, unique⟩
  exact Except.ok.inj (read.symm.trans parse_chained)

end Rill
