import Rill.Proofs.Tree.Reading
import Rill.Proofs.Tree.Terminals

/-!
# What is derived is parsed

The tokens of a derivation, with more tokens behind them, are read back as its tree, and the
tokens behind are left. The reading functions take as much as they can, so what stands behind
must not go on with the derivation: behind an operand there is no operator that binds tighter,
and behind a conditional there is no `else`.
-/

namespace Rill.Parser

open Grammar

variable {eof : Span}

theorem peekIs_token {kind : TokenKind} (t : Terminal kind) (rest : List Token) :
    peekIs kind (t.token :: rest) = true := by
  simp [peekIs]

theorem peekIs_other {kind kind' : TokenKind} (t : Terminal kind) (rest : List Token)
    (other : kind ≠ kind') : peekIs kind' (t.token :: rest) = false := by
  simp [peekIs, other]

theorem takes_ident (name : Name) (rest : List Token) :
    read (ident eof) (name.token :: rest) = .ok (name.ident, rest) := by
  rw [read_ident, bind_of_ok (read_expect name.fits rest)]
  rfl

theorem takes_type (t : TypeName) (rest : List Token) :
    read (type eof) (t.tokens ++ rest) = .ok ((t.ty, t.span), rest) := by
  cases t with
  | unit opening closing =>
      show read (type eof) (opening.token :: closing.token :: rest) = _
      rw [read_type_unit opening.fits, bind_of_ok (read_expect closing.fits rest)]
      rfl
  | named name ty known => exact read_type_named name.fits (ofName?_of_mem known) rest

/-- What can stand behind an operand of level `n` in a derivation. -/
structure Follows (n : Nat) (rest : List Token) : Prop where
  paren : peekIs (.mark .openParen) rest = false
  equal : peekIs (.mark .equal) rest = false
  operator : ∀ t ∈ rest.head?, ∀ k < n, joint? k t.kind = none

namespace Follows

variable {m n : Nat} {rest : List Token}

theorem mono (h : Follows n rest) (le : m ≤ n) : Follows m rest :=
  ⟨h.paren, h.equal, fun t mem k lt => h.operator t mem k (Nat.lt_of_lt_of_le lt le)⟩

/-- The signs that end expressions. -/
theorem sign {mark : Mark} (t : Sign mark) (rest : List Token)
    (ends : mark ∈ [Mark.semicolon, .comma, .closeParen, .openBrace]) :
    Follows topTier (t.token :: rest) := by
  have table : ∀ mark ∈ [Mark.semicolon, .comma, .closeParen, .openBrace],
      mark ≠ .openParen ∧ mark ≠ .equal ∧ ∀ k < topTier, joint? k (.mark mark) = none := by
    decide
  obtain ⟨paren, equal, operator⟩ := table mark ends
  refine ⟨peekIs_other t rest (by simpa), peekIs_other t rest (by simpa), ?_⟩
  rintro _ ⟨⟩ k lt
  rw [t.fits]
  exact operator k lt

/-- An operator binds at one level only. -/
theorem of_mem_operators (n : Nat) : ∀ p ∈ operators n,
    p.1 ≠ .openParen ∧ p.1 ≠ .equal ∧ ∀ k < n, joint? k (.mark p.1) = none := by
  rcases n with _ | _ | _ | _ | _ | n
  · decide
  · decide
  · decide
  · decide
  · decide
  · intro p mem
    cases mem

theorem links (h : Follows (n + 1) rest) : (links : Links n) → Follows n (links.tokens ++ rest)
  | .nil => by
    rw [Links.tokens]
    exact h.mono (Nat.le_succ n)
  | .cons op operand more => by
    obtain ⟨mark, kind, known⟩ := op.known
    obtain ⟨paren, equal, operator⟩ := of_mem_operators n _ known
    rw [Links.tokens]
    refine ⟨peekIs_other ⟨op.token, kind⟩ _ (by simpa), peekIs_other ⟨op.token, kind⟩ _ (by simpa),
      ?_⟩
    rintro _ ⟨⟩ k lt
    rw [kind]
    exact operator k lt

end Follows

end Rill.Parser

namespace Rill.Grammar

open Rill.Parser

/-- The kinds of the tokens that expressions begin with. -/
def starters : List TokenKind :=
  [.identifier, .boolean, .integer, .decimal, .string, .mark .openParen, .mark .bang, .mark .minus]

theorem Primary.exists_first (e : Primary) :
    ∃ t more, e.tokens = t :: more ∧ t.kind ∈ starters ∧ unaryOp? t.kind = none := by
  cases e with
  | call name opening args closing =>
      exact ⟨name.token, _, by rw [Primary.tokens], by rw [name.fits]; decide,
        by rw [name.fits]; rfl⟩
  | var name =>
      exact ⟨name.token, _, by rw [Primary.tokens], by rw [name.fits]; decide,
        by rw [name.fits]; rfl⟩
  | constant literal =>
      obtain ⟨token, value, denotes⟩ := literal
      refine ⟨token, _, by rw [Primary.tokens], ?_⟩
      cases denotes with
      | true kind | false kind | int kind | float kind | str kind =>
          rw [kind]
          exact ⟨by decide, rfl⟩
  | group opening inner closing =>
      exact ⟨opening.token, _, by rw [Primary.tokens], by rw [opening.fits]; decide,
        by rw [opening.fits]; rfl⟩

theorem Unary.exists_first (e : Unary) :
    ∃ t more, e.tokens = t :: more ∧ t.kind ∈ starters := by
  cases e with
  | prefixed op operand =>
      obtain ⟨mark, kind, known⟩ := op.known
      refine ⟨op.token, _, by rw [Unary.tokens], ?_⟩
      rw [kind]
      exact (by decide : ∀ p ∈ prefixes, TokenKind.mark p.1 ∈ starters) _ known
  | primary operand =>
      obtain ⟨t, more, split, starts, _⟩ := operand.exists_first
      exact ⟨t, more, by rw [Unary.tokens, split], starts⟩

theorem Tier.exists_first {n : Nat} (e : Tier n) :
    ∃ t more, e.tokens = t :: more ∧ t.kind ∈ starters := by
  cases e with
  | unary operand =>
      rw [Tier.tokens]
      exact operand.exists_first
  | chain first links =>
      obtain ⟨t, more, split, starts⟩ := first.exists_first
      exact ⟨t, more ++ links.tokens, by rw [Tier.tokens, split]; rfl, starts⟩
termination_by structural e

theorem Tier.peekIs_eq_false {n : Nat} (e : Tier n) (rest : List Token) {kind : TokenKind}
    (other : kind ∉ starters) : peekIs kind (e.tokens ++ rest) = false := by
  obtain ⟨t, more, split, starts⟩ := e.exists_first
  have differs : t.kind ≠ kind := fun same => other (same ▸ starts)
  rw [split]
  exact peekIs_other ⟨t, rfl⟩ _ differs

theorem Block.exists_first (b : Block) :
    ∃ (t : Sign .openBrace) (more : List Token), b.tokens = t.token :: more := by
  cases b with
  | braces opening body closing => exact ⟨opening, _, by rw [Block.tokens]⟩

theorem Conditional.exists_first (c : Conditional) :
    ∃ (t : Word .ifWord) (more : List Token), c.tokens = t.token :: more := by
  cases c with
  | plain word | orBlock word | orConditional word => exact ⟨word, _, by rw [Conditional.tokens]⟩

/-- No statement is empty, and none begins like the end of a block or a second branch. -/
theorem Stmt.exists_first (s : Stmt) : ∃ t more, s.tokens = t :: more ∧
    t.kind ≠ .keyword .elseWord ∧ t.kind ≠ .mark .closeBrace := by
  cases s with
  | skip t | decl t | loop t | ret t | assign t =>
      exact ⟨t.token, _, by rw [Stmt.tokens], by rw [t.fits]; decide, by rw [t.fits]; decide⟩
  | block block =>
      obtain ⟨t, more, split⟩ := block.exists_first
      exact ⟨t.token, more, by rw [Stmt.tokens, split], by rw [t.fits]; decide,
        by rw [t.fits]; decide⟩
  | conditional conditional =>
      obtain ⟨t, more, split⟩ := conditional.exists_first
      exact ⟨t.token, more, by rw [Stmt.tokens, split], by rw [t.fits]; decide,
        by rw [t.fits]; decide⟩
  | eval value semicolon =>
      obtain ⟨t, more, split, starts⟩ := value.exists_first
      have others : TokenKind.keyword .elseWord ∉ starters ∧
          TokenKind.mark .closeBrace ∉ starters := by decide
      exact ⟨t, _, by rw [Stmt.tokens, split]; rfl, fun same => others.1 (same ▸ starts),
        fun same => others.2 (same ▸ starts)⟩

/-- An assignment is told from an expression by its second token. -/
theorem Primary.peekIs_second {e : Primary} {t : Token} {rest more : List Token}
    (split : e.tokens ++ rest = t :: more) (named : t.kind = .identifier)
    (behind : peekIs (.mark .equal) rest = false) : peekIs (.mark .equal) more = false := by
  cases e with
  | call name opening args closing =>
      simp only [Primary.tokens, List.cons_append, List.cons.injEq] at split
      rw [← split.2]
      exact peekIs_other opening _ (by decide)
  | var name =>
      simp only [Primary.tokens, List.cons_append, List.nil_append, List.cons.injEq] at split
      rwa [← split.2]
  | constant literal =>
      obtain ⟨token, value, denotes⟩ := literal
      simp only [Primary.tokens, List.cons_append, List.nil_append, List.cons.injEq] at split
      obtain ⟨rfl, _⟩ := split
      cases denotes with
      | true kind | false kind | int kind | float kind | str kind => cases named.symm.trans kind
  | group opening inner closing =>
      simp only [Primary.tokens, List.cons_append, List.cons.injEq] at split
      obtain ⟨rfl, _⟩ := split
      cases named.symm.trans opening.fits

theorem Tier.peekIs_second {t : Token} {more : List Token} (named : t.kind = .identifier) :
    {n : Nat} → (e : Tier n) → {rest : List Token} → e.tokens ++ rest = t :: more →
      Follows n rest → peekIs (.mark .equal) more = false
  | _, .unary (.prefixed op operand), rest, split, _ => by
    obtain ⟨mark, kind, _⟩ := op.known
    simp only [Tier.tokens, Unary.tokens, List.cons_append, List.cons.injEq] at split
    obtain ⟨rfl, _⟩ := split
    cases named.symm.trans kind
  | _, .unary (.primary operand), rest, split, follows => by
    rw [Tier.tokens, Unary.tokens] at split
    exact operand.peekIs_second split named follows.equal
  | _, .chain first links, rest, split, follows => by
    rw [Tier.tokens, List.append_assoc] at split
    exact first.peekIs_second named split (follows.links links)

end Rill.Grammar

namespace Rill.Parser

open Grammar

variable {eof : Span}

mutual

theorem takes_tier : {n : Nat} → (e : Tier n) → {rest : List Token} → Follows n rest →
    read (tier eof n) (e.tokens ++ rest) = .ok (e.tree, rest)
  | _, .unary operand, rest, follows => by
    rw [Tier.tokens, Tier.tree, read_tier_zero]
    exact takes_unary operand follows
  | _, .chain first links, rest, follows => by
    rw [Tier.tokens, Tier.tree, List.append_assoc, read_tier_succ,
      bind_of_ok (takes_tier first (follows.links links))]
    exact takes_chain links first.tree follows
termination_by structural _ e => e

theorem takes_chain : {n : Nat} → (links : Links n) → (lhs : Rill.Expr) → {rest : List Token} →
    Follows (n + 1) rest →
    read (chain eof n lhs) (links.tokens ++ rest) = .ok (links.join lhs, rest)
  | n, .nil, lhs, rest, follows => by
    rw [Links.tokens, Links.join, List.nil_append]
    exact read_chain_end lhs fun t mem => follows.operator t mem n (Nat.lt_succ_self n)
  | n, .cons op operand more, lhs, rest, follows => by
    rw [Links.tokens, Links.join, List.cons_append, List.append_assoc,
      read_chain_joint (joint?_eq_some_iff.2 op.known),
      bind_of_ok (takes_tier operand (follows.links more))]
    exact takes_chain more _ follows
termination_by structural _ links => links

theorem takes_unary : (e : Unary) → {rest : List Token} → Follows 0 rest →
    read (unary eof) (e.tokens ++ rest) = .ok (e.tree, rest)
  | .prefixed op operand, rest, follows => by
    rw [Unary.tokens, Unary.tree, List.cons_append, read_unary_op (unaryOp?_eq_some_iff.2 op.known),
      bind_of_ok (takes_unary operand follows)]
    rfl
  | .primary operand, rest, follows => by
    have taken := takes_primary operand follows
    obtain ⟨t, more, split, _, plain⟩ := operand.exists_first
    rw [Unary.tokens, Unary.tree]
    rw [split, List.cons_append] at taken ⊢
    rw [read_unary_primary plain]
    exact taken
termination_by structural e => e

theorem takes_primary : (e : Primary) → {rest : List Token} → Follows 0 rest →
    read (primary eof) (e.tokens ++ rest) = .ok (e.tree, rest)
  | .call name opening args closing, rest, follows => by
    rw [Primary.tokens, Primary.tree, List.cons_append, List.cons_append, List.append_assoc,
      List.singleton_append, read_primary_name name.fits, behind_present opening.fits,
      bind_of_ok (takes_arguments args closing rest), bind_of_ok (read_expect closing.fits rest)]
    rfl
  | .var name, rest, follows => by
    rw [Primary.tokens, Primary.tree, List.singleton_append, read_primary_name name.fits,
      behind_absent follows.paren]
    rfl
  | .constant literal, rest, follows => by
    rw [Primary.tokens, Primary.tree, List.singleton_append,
      read_primary_other literal.kind_ne.1 literal.kind_ne.2, literal?_of_denotes literal.denotes]
  | .group opening inner closing, rest, follows => by
    rw [Primary.tokens, Primary.tree, List.cons_append, List.append_assoc, List.singleton_append,
      read_primary_group opening.fits,
      bind_of_ok (takes_tier inner (.sign closing rest (by decide))),
      bind_of_ok (read_expect closing.fits rest)]
    rfl
termination_by structural e => e

theorem takes_arguments : (args : Listed Grammar.Expr) → (closing : Sign .closeParen) →
    (rest : List Token) →
    read (arguments eof) (argTokens args ++ closing.token :: rest) =
      .ok (argTrees args, closing.token :: rest)
  | .nil, closing, rest => by
    rw [argTokens, argTrees, read_arguments]
    exact upTo_absent (peekIs_token closing rest)
  | .last arg, closing, rest => by
    rw [argTokens, argTrees, read_arguments, upTo_present (arg.peekIs_eq_false _ (by decide)),
      bind_of_ok (takes_tier arg (.sign closing rest (by decide)))]
    exact behind_absent (peekIs_other closing rest (by decide))
  | .cons arg comma more, closing, rest => by
    rw [argTokens, argTrees, List.append_assoc, List.cons_append, read_arguments,
      upTo_present (arg.peekIs_eq_false _ (by decide)),
      bind_of_ok (takes_tier arg (.sign comma _ (by decide))), behind_present comma.fits,
      bind_of_ok (takes_arguments more closing rest)]
    rfl
termination_by structural args => args

end

theorem takes_expression (e : Grammar.Expr) {rest : List Token} (follows : Follows topTier rest) :
    read (expression eof) (e.tokens ++ rest) = .ok (e.tree, rest) :=
  takes_tier e follows

theorem takes_declaration (word : Word .letWord) (name : Name) (type : Marked .colon TypeName)
    (value : Marked .equal Grammar.Expr) (semicolon : Sign .semicolon) (rest : List Token) :
    read (declaration eof) ((Grammar.Stmt.decl word name type value semicolon).tokens ++ rest) =
      .ok ((Grammar.Stmt.decl word name type value semicolon).tree, rest) := by
  -- What is optional is read, or else the next token does not fit.
  have ascribed : ∀ more, peekIs (.mark .colon) more = false →
      behind (.mark .colon) none (do
        let written ← read (Parser.type eof)
        return some written.1) (type.tokens TypeName.tokens ++ more) =
        .ok (type.map (·.2.ty), more) := by
    intro more other
    cases type with
    | none => exact behind_absent other
    | some marked =>
        rw [Marked.tokens_some, List.cons_append, behind_present marked.1.fits,
          bind_of_ok (takes_type marked.2 more)]
        rfl
  have initial : behind (.mark .equal) none (do
        let value ← read (expression eof)
        return some value) (value.tokens Tier.tokens ++ semicolon.token :: rest) =
        .ok (value.map (·.2.tree), semicolon.token :: rest) := by
    cases value with
    | none => exact behind_absent (peekIs_other semicolon rest (by decide))
    | some marked =>
        rw [Marked.tokens_some, List.cons_append, behind_present marked.1.fits,
          bind_of_ok (takes_expression marked.2 (.sign semicolon rest (by decide)))]
        rfl
  have other : peekIs (.mark .colon) (value.tokens Tier.tokens ++ semicolon.token :: rest) =
      false := by
    cases value with
    | none => exact peekIs_other semicolon rest (by decide)
    | some marked => exact peekIs_other marked.1 _ (by decide)
  rw [Grammar.Stmt.tokens, Grammar.Stmt.tree, List.cons_append, List.cons_append, List.append_assoc,
    List.append_assoc, List.singleton_append, read_declaration,
    bind_of_ok (read_expect word.fits _), bind_of_ok (takes_ident name _),
    bind_of_ok (ascribed _ other), bind_of_ok initial, bind_of_ok (read_expect semicolon.fits rest)]
  rfl

theorem takes_assignment (target : Name) (equal : Sign .equal) (value : Grammar.Expr)
    (semicolon : Sign .semicolon) (rest : List Token) :
    read (assignment eof) ((Grammar.Stmt.assign target equal value semicolon).tokens ++ rest) =
      .ok ((Grammar.Stmt.assign target equal value semicolon).tree, rest) := by
  rw [Grammar.Stmt.tokens, Grammar.Stmt.tree, List.cons_append, List.cons_append, List.append_assoc,
    List.singleton_append, read_assignment, bind_of_ok (takes_ident target _),
    bind_of_ok (read_expect equal.fits _),
    bind_of_ok (takes_expression value (.sign semicolon rest (by decide))),
    bind_of_ok (read_expect semicolon.fits rest)]
  rfl

theorem takes_returning (word : Word .returnWord) (value : Option Grammar.Expr)
    (semicolon : Sign .semicolon) (rest : List Token) :
    read (returning eof) ((Grammar.Stmt.ret word value semicolon).tokens ++ rest) =
      .ok ((Grammar.Stmt.ret word value semicolon).tree, rest) := by
  have result : upTo (.mark .semicolon) none (do
        let value ← read (expression eof)
        return some value) (value.elim [] Tier.tokens ++ semicolon.token :: rest) =
        .ok (value.map Tier.tree, semicolon.token :: rest) := by
    cases value with
    | none => exact upTo_absent (peekIs_token semicolon rest)
    | some value =>
        rw [Option.elim_some, upTo_present (value.peekIs_eq_false _ (by decide)),
          bind_of_ok (takes_expression value (.sign semicolon rest (by decide)))]
        rfl
  rw [Grammar.Stmt.tokens, Grammar.Stmt.tree, List.cons_append, List.append_assoc,
    List.singleton_append, read_returning, bind_of_ok (read_expect word.fits _), bind_of_ok result,
    bind_of_ok (read_expect semicolon.fits rest)]
  rfl

theorem takes_evaluation (value : Grammar.Expr) (semicolon : Sign .semicolon)
    (rest : List Token) :
    read (evaluation eof) ((Grammar.Stmt.eval value semicolon).tokens ++ rest) =
      .ok ((Grammar.Stmt.eval value semicolon).tree, rest) := by
  rw [Grammar.Stmt.tokens, Grammar.Stmt.tree, List.append_assoc, List.singleton_append,
    read_evaluation, bind_of_ok (takes_expression value (.sign semicolon rest (by decide))),
    bind_of_ok (read_expect semicolon.fits rest)]
  rfl

/-- An expression leads to none of the other statements. -/
theorem statement_eq_evaluation (value : Grammar.Expr) (semicolon : Sign .semicolon)
    (rest : List Token) :
    read (statement eof) ((Grammar.Stmt.eval value semicolon).tokens ++ rest) =
      read (evaluation eof) ((Grammar.Stmt.eval value semicolon).tokens ++ rest) := by
  rw [Grammar.Stmt.tokens, List.append_assoc]
  obtain ⟨t, more, split, starts⟩ := value.exists_first
  have whole : value.tokens ++ ([semicolon.token] ++ rest) =
      t :: (more ++ ([semicolon.token] ++ rest)) := by
    rw [split]
    rfl
  have apart : ∀ kind ∈ starters, kind ∉ leads := by decide
  rw [whole]
  refine read_statement_evaluation (apart _ starts) fun named => ?_
  exact value.peekIs_second named whole (.sign semicolon rest (by decide))

/-- The statements in a block do not begin with an `else`, so none belongs to a conditional before
them. -/
theorem peekIs_else (body : List Grammar.Stmt) {rest : List Token}
    (behind : peekIs (.keyword .elseWord) rest = false) :
    peekIs (.keyword .elseWord) (stmtTokens body ++ rest) = false := by
  cases body with
  | nil =>
      rw [stmtTokens]
      exact behind
  | cons first others =>
      obtain ⟨t, more, split, other, _⟩ := first.exists_first
      rw [stmtTokens, split]
      exact peekIs_other ⟨t, rfl⟩ _ other

/-- The brace of a block ends the condition before it. -/
theorem follows_block (b : Block) (rest : List Token) : Follows topTier (b.tokens ++ rest) := by
  obtain ⟨t, more, split⟩ := b.exists_first
  rw [split]
  exact .sign t _ (by decide)

mutual

theorem takes_block : (b : Block) → (rest : List Token) →
    read (block eof) (b.tokens ++ rest) = .ok (b.tree, rest)
  | .braces opening body closing, rest => by
    rw [Block.tokens, Block.tree, List.cons_append, List.append_assoc, List.singleton_append,
      read_block, bind_of_ok (read_expect opening.fits _),
      bind_of_ok (takes_statements body closing rest), bind_of_ok (read_expect closing.fits rest)]
    rfl
termination_by structural b => b

/-- The brace behind the statements is where reading them stops. -/
theorem takes_statements : (body : List Grammar.Stmt) → (closing : Sign .closeBrace) →
    (rest : List Token) →
    read (statements eof) (stmtTokens body ++ closing.token :: rest) =
      .ok (stmtTrees body, closing.token :: rest)
  | [], closing, rest => by
    rw [stmtTokens, stmtTrees, List.nil_append, read_statements]
    exact upTo_absent (peekIs_token closing rest)
  | first :: others, closing, rest => by
    have behind : peekIs (.keyword .elseWord) (closing.token :: rest) = false :=
      peekIs_other closing rest (by decide)
    have taken := takes_statement first (peekIs_else others behind)
    obtain ⟨t, more, split, _, inside⟩ := first.exists_first
    rw [stmtTokens, stmtTrees, List.append_assoc, read_statements]
    rw [split, List.cons_append] at taken ⊢
    rw [upTo_present (peekIs_other ⟨t, rfl⟩ _ inside), List.isEmpty_cons,
      if_neg Bool.false_ne_true, bind_of_ok taken,
      bind_of_ok (takes_statements others closing rest)]
    rfl
termination_by structural body => body

/-- An `else` behind a conditional would be taken along, so none may follow. -/
theorem takes_statement : (s : Grammar.Stmt) → {rest : List Token} →
    peekIs (.keyword .elseWord) rest = false →
    read (statement eof) (s.tokens ++ rest) = .ok (s.tree, rest)
  | .skip semicolon, rest, _ => by
    rw [Grammar.Stmt.tokens, Grammar.Stmt.tree, List.singleton_append,
      read_statement_skip semicolon.fits]
    rfl
  | .block block, rest, _ => by
    have taken := takes_block block rest
    obtain ⟨t, more, split⟩ := block.exists_first
    rw [Grammar.Stmt.tokens, Grammar.Stmt.tree]
    rw [split, List.cons_append] at taken ⊢
    rw [read_statement_block t.fits]
    exact taken
  | .decl word name type value semicolon, rest, _ => by
    have taken : read (declaration eof) _ = .ok (_, rest) :=
      takes_declaration word name type value semicolon rest
    rw [Grammar.Stmt.tokens, List.cons_append] at taken ⊢
    rw [read_statement_declaration word.fits]
    exact taken
  | .conditional conditional, rest, behind => by
    have taken := takes_conditional conditional behind
    obtain ⟨t, more, split⟩ := conditional.exists_first
    rw [Grammar.Stmt.tokens, Grammar.Stmt.tree]
    rw [split, List.cons_append] at taken ⊢
    rw [read_statement_conditional t.fits]
    exact taken
  | .loop word condition body, rest, _ => by
    rw [Grammar.Stmt.tokens, Grammar.Stmt.tree, List.cons_append, List.append_assoc,
      read_statement_loop word.fits,
      bind_of_ok (takes_expression condition (follows_block body rest)),
      bind_of_ok (takes_block body rest)]
    rfl
  | .ret word value semicolon, rest, _ => by
    have taken : read (returning eof) _ = .ok (_, rest) :=
      takes_returning word value semicolon rest
    rw [Grammar.Stmt.tokens, List.cons_append] at taken ⊢
    rw [read_statement_returning word.fits]
    exact taken
  | .assign target equal value semicolon, rest, _ => by
    have taken : read (assignment eof) _ = .ok (_, rest) :=
      takes_assignment target equal value semicolon rest
    rw [Grammar.Stmt.tokens, List.cons_append, List.cons_append] at taken ⊢
    rw [read_statement_assignment target.fits (peekIs_token equal _)]
    exact taken
  | .eval value semicolon, rest, _ => by
    rw [statement_eq_evaluation]
    exact takes_evaluation value semicolon rest
termination_by structural s => s

theorem takes_conditional : (c : Conditional) → {rest : List Token} →
    peekIs (.keyword .elseWord) rest = false →
    read (conditional eof) (c.tokens ++ rest) = .ok (c.tree, rest)
  | .plain word condition positive, rest, behind => by
    rw [Conditional.tokens, Conditional.tree, List.cons_append, List.append_assoc,
      read_conditional, bind_of_ok (read_expect word.fits _),
      bind_of_ok (takes_expression condition (follows_block positive rest)),
      bind_of_ok (takes_block positive rest), behind_absent behind]
    rfl
  | .orBlock word condition positive otherwise negative, rest, _ => by
    have brace : peekIs (.keyword .ifWord) (negative.tokens ++ rest) = false := by
      obtain ⟨t, more, split⟩ := negative.exists_first
      rw [split]
      exact peekIs_other t _ (by decide)
    have second : alternative eof (negative.tokens ++ rest) = .ok (negative.tree, rest) := by
      rw [alternative, if_neg (Bool.eq_false_iff.1 brace)]
      exact takes_block negative rest
    rw [Conditional.tokens, Conditional.tree, List.cons_append, List.append_assoc,
      List.append_assoc, List.cons_append, read_conditional, bind_of_ok (read_expect word.fits _),
      bind_of_ok (takes_expression condition (follows_block positive _)),
      bind_of_ok (takes_block positive _), behind_present otherwise.fits, bind_of_ok second]
    rfl
  | .orConditional word condition positive otherwise negative, rest, behind => by
    have further : peekIs (.keyword .ifWord) (negative.tokens ++ rest) = true := by
      obtain ⟨t, more, split⟩ := negative.exists_first
      rw [split]
      exact peekIs_token t _
    have second : alternative eof (negative.tokens ++ rest) = .ok (negative.tree, rest) := by
      rw [alternative, if_pos further]
      exact takes_conditional negative behind
    rw [Conditional.tokens, Conditional.tree, List.cons_append, List.append_assoc,
      List.append_assoc, List.cons_append, read_conditional, bind_of_ok (read_expect word.fits _),
      bind_of_ok (takes_expression condition (follows_block positive _)),
      bind_of_ok (takes_block positive _), behind_present otherwise.fits, bind_of_ok second]
    rfl
termination_by structural c => c

end

theorem takes_param (p : Grammar.Param) (rest : List Token) :
    read (param eof) (p.tokens ++ rest) = .ok (p.tree, rest) := by
  rw [Grammar.Param.tokens, List.cons_append, List.cons_append, read_param,
    bind_of_ok (takes_ident p.name _), bind_of_ok (read_expect p.colon.fits _),
    bind_of_ok (takes_type p.type rest)]
  rfl

theorem peekIs_param (p : Grammar.Param) (rest : List Token) :
    peekIs (.mark .closeParen) (p.tokens ++ rest) = false :=
  peekIs_other p.name _ (by decide)

theorem takes_params (closing : Sign .closeParen) (rest : List Token) :
    (ps : Listed Grammar.Param) →
    read (params eof) (ps.tokens Grammar.Param.tokens ++ closing.token :: rest) =
      .ok (ps.items.map Grammar.Param.tree, closing.token :: rest)
  | .nil => by
    rw [Listed.tokens, List.nil_append, read_params]
    exact upTo_absent (peekIs_token closing rest)
  | .last p => by
    rw [Listed.tokens, read_params, upTo_present (peekIs_param p _), bind_of_ok (takes_param p _)]
    exact behind_absent (peekIs_other closing rest (by decide))
  | .cons p comma more => by
    rw [Listed.tokens, List.append_assoc, List.cons_append, read_params,
      upTo_present (peekIs_param p _), bind_of_ok (takes_param p _), behind_present comma.fits,
      bind_of_ok (takes_params closing rest more)]
    rfl

/-- An arrow behind a header without a result would be taken along. -/
theorem takes_header (h : Grammar.Header) {rest : List Token}
    (other : peekIs (.mark .arrow) rest = false) :
    read (header eof) (h.tokens ++ rest) = .ok (h.tree, rest) := by
  obtain ⟨name, opening, ps, closing, result⟩ := h
  rw [Grammar.Header.tokens, List.cons_append, List.cons_append, List.append_assoc,
    List.cons_append, read_header, bind_of_ok (takes_ident name _),
    bind_of_ok (read_expect opening.fits _), bind_of_ok (takes_params closing _ ps),
    bind_of_ok (read_expect closing.fits _)]
  cases result with
  | none => exact behind_absent other
  | some marked =>
      rw [Marked.tokens_some, List.cons_append, behind_present marked.1.fits,
        bind_of_ok (takes_type marked.2 rest)]
      rfl

theorem takes_function (f : Grammar.Function) (rest : List Token) :
    read (function eof) (f.tokens ++ rest) = .ok (f.tree, rest) := by
  have brace : peekIs (.mark .arrow) (f.body.tokens ++ rest) = false := by
    obtain ⟨t, more, split⟩ := f.body.exists_first
    rw [split]
    exact peekIs_other t _ (by decide)
  rw [Grammar.Function.tokens, List.cons_append, List.append_assoc, read_function,
    bind_of_ok (read_expect f.word.fits _), bind_of_ok (takes_header f.header brace),
    bind_of_ok (takes_block f.body rest)]
  rfl

/-- A derivation of a module is read back as its tree. -/
theorem takes_functions (fs : List Grammar.Function) :
    readAll eof (fs.flatMap Grammar.Function.tokens) = .ok (fs.map Grammar.Function.tree, []) := by
  induction fs with
  | nil => exact readAll_nil
  | cons f fs ih =>
      have taken : read (function eof) _ = .ok (_, fs.flatMap Grammar.Function.tokens) :=
        takes_function f _
      rw [List.flatMap_cons]
      rw [Grammar.Function.tokens, List.cons_append] at taken ⊢
      rw [readAll_function f.word.fits, bind_of_ok taken, bind_of_ok ih]
      rfl

end Rill.Parser
