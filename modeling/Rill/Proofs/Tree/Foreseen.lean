import Rill.Proofs.Tree.Settled

/-!
# How reading ends

Every reading function gives the tree of a derivation whose tokens stand at the front of those
that it got, or it fails at the end of the tokens or at one of them, and its outcome is settled by
the tokens so far. The proofs follow the equations that say in which steps a phrase is read. What
is left for each phrase is the rule of the grammar that it was read by, and that it can be begun,
for which a sample is taken from the grammar.

The tokens need texts that fit their kinds: those of literals and of type names are looked into.
-/

namespace Rill.Parser

open Grammar

variable {eof : Span} {P Q W : List Token → Prop} {tokens rest : List Token} {t : Token}

theorem Spelled.sample (kind : TokenKind) : Spelled [(Grammar.sample kind).token] :=
  List.forall_mem_singleton.2 kind.spells_sample

theorem fits_expect (kind : TokenKind) (lead : ∀ rest, P ((sample kind).token :: rest)) :
    Fits P Anything (read (expect eof kind)) :=
  ⟨_, _, .sample kind, fun rest _ => ⟨lead rest, read_expect rfl rest⟩⟩

theorem ends_expect (kind : TokenKind) (tokens : List Token) :
    Ends eof P Anything (Derived (@Terminal.tokens kind) (·.token) (· = tokens))
      (read (expect eof kind)) tokens := by
  have fits : Fits Anything Anything (read (expect eof kind)) :=
    fits_expect kind fun _ => trivial
  cases tokens with
  | nil => exact .runsOut rfl fits.finishes
  | cons t rest =>
      by_cases same : t.kind = kind
      · exact .cons (fun more => read_expect same more)
          (.pure (fun _ => id) t ⟨⟨t, same⟩, rfl, rfl⟩)
      · refine .mismatch (.token kind) (fun more => read_expect_error ?_) fits.finishes
        exact Bool.eq_false_iff.2 fun next => same (peekIs_cons.1 next)

theorem settles_expect (kind : TokenKind) (lead : ∀ rest, P ((sample kind).token :: rest)) :
    Settles eof W P Anything (Derived (@Terminal.tokens kind) (·.token) W)
      (read (expect eof kind)) :=
  .of_ends _ _ (fits_expect kind lead) fun tokens _ _ => ends_expect kind tokens

theorem ends_ident (spelled : Spelled tokens) :
    Ends eof P Anything (Derived Terminal.tokens Name.ident (· = tokens)) (read (ident eof))
      tokens := by
  rw [read_ident]
  refine (ends_expect _ tokens).andThen spelled fun token => .pure (fun _ => id) ?_
  rintro rest ⟨name, split, rfl⟩
  exact ⟨name, split, rfl⟩

theorem settles_ident :
    Settles eof W Anything Anything (Derived Terminal.tokens Name.ident W) (read (ident eof)) := by
  refine .of_ends _ _ ⟨_, Name.ident (sample _), .sample .identifier, fun rest _ => ?_⟩
    fun _ spelled _ => ends_ident spelled
  exact ⟨trivial, takes_ident (sample _) rest⟩

theorem fits_type : Fits Anything Anything (read (type eof)) := by
  have spelled := (Spelled.sample (.mark .openParen)).append (.sample (.mark .closeParen))
  have taken : ∀ rest, read (type eof) _ = .ok (_, rest) :=
    takes_type (.unit (sample _) (sample _))
  exact ⟨_, _, spelled, fun rest _ => ⟨trivial, taken rest⟩⟩

theorem ends_type (spelled : Spelled tokens) :
    Ends eof P Anything (Derived TypeName.tokens (fun type => (type.ty, type.span)) (· = tokens))
      (read (type eof)) tokens := by
  cases tokens with
  | nil => exact .runsOut read_type_nil fits_type.finishes
  | cons t rest =>
      by_cases opens : t.kind = .mark .openParen
      · refine .cons (read_type_unit opens) ?_
        refine (ends_expect _ rest).andThen spelled.tail fun close => .pure (fun _ => id) ?_
        rintro _ ⟨closing, rfl, rfl⟩
        exact ⟨.unit ⟨t, opens⟩ closing, rfl, rfl⟩
      by_cases named : t.kind = .identifier
      · cases known : Ty.ofName? t.text with
        | some ty =>
            have spells := spelled t List.mem_cons_self
            rw [named] at spells
            have known' := mem_typeNames_of_ofName? spells.1 known
            exact .cons (read_type_named named known)
              (.pure (fun _ => id) _ ⟨.named ⟨t, named⟩ ty known', rfl, rfl⟩)
        | none =>
            exact .refuses (read_type_unknown named known) (fun _ => ParseCause.noConfusion)
              fits_type.finishes
      · exact .mismatch .type (read_type_other opens named) fits_type.finishes

theorem settles_type : Settles eof W Anything Anything
    (Derived TypeName.tokens (fun type => (type.ty, type.span)) W) (read (type eof)) :=
  .of_ends _ _ fits_type fun _ spelled _ => ends_type spelled

/-- What stands behind a mark may be left out. -/
theorem settles_marked {α β δ : Type} {mark : Mark} {front : δ → List Token} {tree : δ → α}
    {item : Reader α} {give : α → β} {R : List Token → Prop}
    (skips : ∀ rest, Q rest → P rest ∧ peekIs (.mark mark) rest = false)
    (sub : ∀ rest, Q rest → R rest)
    (ends : ∀ tokens, Spelled tokens →
      Ends eof Anything R (Derived front tree (· = tokens)) item tokens) :
    Settles eof W P Q
      (Derived (@Marked.tokens mark δ front) (Option.map fun d => give (tree d.2)) W)
      (behind (.mark mark) none (do
        let value ← item
        return some (give value))) := by
  refine .behind skips (fun rest within => ⟨none, within, rfl⟩) ?_
  intro sign rest spelled within kind
  refine (ends rest spelled).andThen spelled fun value => .pure sub ?_
  rintro _ ⟨d, rfl, rfl⟩
  exact ⟨some (⟨sign, kind⟩, d), within, rfl⟩

theorem Before.follows {n : Nat} (h : Before closers tokens) : Follows n tokens := by
  refine ⟨h.peekIs_other (by decide), h.peekIs_other (by decide), ?_⟩
  obtain ⟨t, first, mem⟩ := h
  have table : ∀ k, ∀ kind ∈ closers, joint? k kind = none
    | 0 | 1 | 2 | 3 | 4 => by decide
    | _ + 5 => by simp [closers, joint?]
  rintro _ same k _
  cases first.symm.trans same
  exact table k t.kind mem

theorem before_closers {kind : TokenKind} (mem : kind ∈ closers) (rest : List Token) :
    Before closers ((sample kind).token :: rest) :=
  ⟨_, rfl, mem⟩

theorem exists_before (kind : TokenKind) {kinds : List TokenKind} (mem : kind ∈ kinds) :
    ∃ other, Before kinds other :=
  ⟨[(sample kind).token], _, rfl, mem⟩

/-- A name would do where an expression of any level is to be read. -/
theorem finishes_tier (n : Nat) : Finishes (Before closers) (read (tier eof n)) [] := by
  refine ⟨_, (Tier.ofName (sample _) n).tree, Spelled.sample .identifier, fun rest follows => ?_⟩
  have taken : read (tier eof n) _ = .ok (_, rest) :=
    takes_tier (.ofName (sample _) n) follows.follows
  rwa [Tier.tokens_ofName] at taken

theorem finishes_unary : Finishes (Before closers) (read (unary eof)) [] := by
  rw [← read_tier_zero]
  exact finishes_tier 0

theorem finishes_primary : Finishes (Before closers) (read (primary eof)) [] := by
  refine ⟨_, (Primary.var (sample _)).tree, Spelled.sample .identifier, fun rest follows => ?_⟩
  have taken : read (primary eof) _ = .ok (_, rest) :=
    takes_primary (.var (sample _)) follows.follows
  rwa [Primary.tokens] at taken

theorem Before.read_chain (n : Nat) (lhs : Expr) (h : Before closers tokens) :
    read (chain eof n lhs) tokens = .ok (lhs, tokens) :=
  read_chain_end lhs fun t first =>
    (h.follows (n := n + 1)).operator t first n (Nat.lt_succ_self n)

/-- The chain may be empty. -/
theorem fits_chain (n : Nat) (lhs : Expr) :
    Fits (Before closers) (Before closers) (read (chain eof n lhs)) :=
  .idle lhs (fun _ => id) fun _ follows => follows.read_chain n lhs

/-- Before a token that is no operator of its level the chain is over, whatever that token is. -/
theorem ends_chain_end {n : Nat} (lhs : Expr)
    (other : ∀ t ∈ tokens.head?, joint? n t.kind = none) :
    Ends eof (Before closers) (Before closers)
      (Derived (@Links.tokens n) (·.join lhs) (· = tokens)) (read (chain eof n lhs)) tokens := by
  refine .reads [] tokens lhs rfl (fun more follows => ?_) (fun _ _ => id) ⟨.nil, ?_, ?_⟩
  · rcases follows with follows | same
    · exact follows.read_chain n lhs
    · exact read_chain_end lhs (same ▸ other)
  · rw [Links.tokens]
    rfl
  · simp only [Links.join]

-- The measures are those of the parser. A fact on lengths among the steps of a proof is there
-- for the recursion.
mutual

/-- An expression ends where the chain behind its first operand does. -/
theorem ends_tier (tokens : List Token) (spelled : Spelled tokens) : (n : Nat) →
    Ends eof Nothing (Before closers) (Derived (@Tier.tokens n) Tier.tree (· = tokens))
      (read (tier eof n)) tokens
  | 0 => by
    rw [read_tier_zero]
    refine (ends_unary tokens spelled).mono_post fun _ _ => .imp Tier.unary ?_ ?_
    · exact fun _ => by rw [Tier.tokens]
    · exact fun _ => by rw [Tier.tree]
  | n + 1 => by
    rw [read_tier_succ]
    refine (ends_tier tokens spelled n).andThen spelled fun first =>
      ⟨fits_chain n first, fun rest spelled' read => ?_⟩
    have shorter := read.length_le
    refine (ends_chain n first rest spelled').mono_post ?_
    obtain ⟨operand, split, rfl⟩ := read
    rintro _ rest' ⟨links, split', rfl⟩
    refine ⟨.chain operand links, ?_, by rw [Tier.tree]⟩
    rw [Tier.tokens, List.append_assoc, split', split]
termination_by n => (tokens.length, n + 2)
decreasing_by all_goals simp only [Prod.lex_def, true_and]; omega

theorem ends_chain (n : Nat) (lhs : Expr) : (tokens : List Token) → Spelled tokens →
    Ends eof (Before closers) (Before closers)
      (Derived (@Links.tokens n) (·.join lhs) (· = tokens)) (read (chain eof n lhs)) tokens
  | [], _ => ends_chain_end lhs fun _ first => by cases first
  | t :: rest, spelled => by
    cases known : joint? n t.kind with
    | none =>
        refine ends_chain_end lhs fun _ first => ?_
        cases first
        exact known
    | some joint =>
        refine .cons (read_chain_joint known lhs) ?_
        refine (ends_tier rest spelled.tail n).anywhere.andThen spelled.tail fun rhs =>
          ⟨fits_chain n _, fun rest' spelled' read => ?_⟩
        have shorter := read.length_le
        refine (ends_chain n _ rest' spelled').mono_post ?_
        obtain ⟨operand, split, rfl⟩ := read
        rintro _ rest'' ⟨links, split', rfl⟩
        refine ⟨.cons ⟨t, joint, joint?_eq_some_iff.1 known⟩ operand links, ?_, ?_⟩
        · rw [Links.tokens, List.cons_append, List.append_assoc, split', split]
        · simp only [Links.join]
termination_by tokens => (tokens.length, 0)
decreasing_by all_goals simp only [Prod.lex_def, List.length_cons]; omega

theorem ends_unary : (tokens : List Token) → Spelled tokens →
    Ends eof Nothing (Before closers) (Derived Unary.tokens Unary.tree (· = tokens))
      (read (unary eof)) tokens
  | [], _ => .runsOut read_unary_nil finishes_unary
  | t :: rest, spelled => by
    cases known : unaryOp? t.kind with
    | none =>
        refine .of_head (read_unary_primary known) finishes_unary (exists_before _ (.head _)) ?_
        refine (ends_primary (t :: rest) spelled).mono_post fun _ _ => .imp Unary.primary ?_ ?_
        · exact fun _ => by rw [Unary.tokens]
        · exact fun _ => by rw [Unary.tree]
    | some op =>
        refine .cons (read_unary_op known) ?_
        refine (ends_unary rest spelled.tail).anywhere.andThen spelled.tail fun operand =>
          .pure (fun _ => id) ?_
        rintro _ ⟨operand, rfl, rfl⟩
        refine ⟨.prefixed ⟨t, op, unaryOp?_eq_some_iff.1 known⟩ operand, ?_, by rw [Unary.tree]⟩
        rw [Unary.tokens, List.cons_append]
termination_by tokens => (tokens.length, 1)
decreasing_by all_goals simp only [Prod.lex_def, List.length_cons, true_and]; omega

/-- An operand begins with a literal, a name or a parenthesis, and other tokens are refused at once.
-/
theorem ends_primary : (tokens : List Token) → Spelled tokens →
    Ends eof Nothing (Before closers) (Derived Primary.tokens Primary.tree (· = tokens))
      (read (primary eof)) tokens
  | [], _ => .runsOut read_primary_nil finishes_primary
  | t :: rest, spelled => by
    by_cases named : t.kind = .identifier
    · refine .cons (read_primary_name named) (Settles.here (.behind ?_ ?_ ?_) spelled.tail)
      · intro rest follows
        exact ⟨trivial, follows.peekIs_other (by decide)⟩
      · rintro _ rfl
        exact ⟨.var ⟨t, named⟩, by rw [Primary.tokens]; rfl, by rw [Primary.tree]; rfl⟩
      · intro opening rest₁ spelled₁ same opens
        have shorter : rest₁.length + 1 = rest.length := congrArg List.length same
        refine (ends_arguments rest₁ spelled₁).andThen spelled₁ fun args => ?_
        refine (settles_expect _ fun rest => ⟨_, rfl, .head _⟩).bind fun close => ?_
        refine .pure (fun _ _ => trivial) ?_
        rintro rest₂ ⟨closing, ⟨args, split, rfl⟩, rfl⟩
        refine ⟨.call ⟨t, named⟩ ⟨opening, opens⟩ args closing, ?_, by rw [Primary.tree]; rfl⟩
        rw [← same, ← split, Primary.tokens, List.cons_append, List.cons_append, List.append_assoc]
        rfl
    by_cases opens : t.kind = .mark .openParen
    · refine .cons (read_primary_group opens) ?_
      refine (ends_tier rest spelled.tail topTier).anywhere.andThen spelled.tail fun inner => ?_
      refine (settles_expect _ fun rest => before_closers (by decide) rest).bind fun close => ?_
      refine .pure (fun _ _ => trivial) ?_
      rintro rest₁ ⟨closing, ⟨inner, split, rfl⟩, rfl⟩
      refine ⟨.group ⟨t, opens⟩ inner closing, ?_, by rw [Primary.tree]; rfl⟩
      rw [← split, Primary.tokens, List.cons_append, List.append_assoc]
      rfl
    cases known : literal? t with
    | none =>
        refine .mismatch .expression (fun more => ?_) finishes_primary
        rw [read_primary_other named opens, known]
    | some value =>
        obtain ⟨literal, rfl, denotes⟩ | rfl := literal?_cases (spelled t List.mem_cons_self) known
        · refine .cons (fun more => ?_) (.pure (fun _ _ => trivial) (.literal t.span literal)
            ⟨.constant ⟨t, literal, denotes⟩, by rw [Primary.tokens]; rfl, by rw [Primary.tree]⟩)
          rw [read_primary_other named opens, known]
          rfl
        · have tooLarge : ∀ more, read (primary eof) (t :: more) =
              .error ⟨.integerTooLarge, t.span⟩ := by
            intro more
            rw [read_primary_other named opens, known]
          exact .refuses tooLarge (fun _ => ParseCause.noConfusion) finishes_primary
termination_by tokens => (tokens.length, 0)
decreasing_by all_goals simp only [Prod.lex_def, List.length_cons, topTier]; omega

theorem ends_arguments (tokens : List Token) (spelled : Spelled tokens) :
    Ends eof Anything (Before [.mark .closeParen]) (Derived argTokens argTrees (· = tokens))
      (read (arguments eof)) tokens := by
  rw [read_arguments]
  refine Settles.here (.upTo (fun _ _ => trivial) ?_ (bind_of_error (read_tier_nil topTier))
    (fun _ _ => rfl) ?_) spelled
  · rintro _ rfl
    exact ⟨.nil, by rw [argTokens]; rfl, by rw [argTrees]⟩
  intro t rest spelled same
  have whole : (t :: rest).length = tokens.length := congrArg List.length same
  refine (ends_tier (t :: rest) spelled topTier).andThen spelled fun first => .behind ?_ ?_ ?_
  · intro rest follows
    exact ⟨follows.mono (by decide), follows.peekIs_other (by decide)⟩
  · rintro rest₁ ⟨arg, split, rfl⟩
    exact ⟨.last arg, by rw [argTokens, split, same], by rw [argTrees]⟩
  · intro comma rest₁ spelled₁ read kind
    have shorter : rest₁.length + 1 ≤ (t :: rest).length := read.length_le
    refine (ends_arguments rest₁ spelled₁).andThen spelled₁ fun others => .pure (fun _ => id) ?_
    obtain ⟨arg, split, rfl⟩ := read
    rintro rest₂ ⟨others, split₁, rfl⟩
    refine ⟨.cons arg ⟨comma, kind⟩ others, ?_, by rw [argTrees]⟩
    rw [argTokens, List.append_assoc, List.cons_append, split₁, split, same]
termination_by (tokens.length, topTier + 3)
decreasing_by all_goals simp only [Prod.lex_def, topTier]; omega

end

theorem fits_expression : Fits Anything (Before closers) (read (expression eof)) := by
  obtain ⟨more, value, spelled, done⟩ : Finishes _ (read (tier eof _)) _ := finishes_tier topTier
  exact ⟨more, value, spelled, fun rest follows => ⟨trivial, done rest follows⟩⟩

theorem ends_expression (spelled : Spelled tokens) :
    Ends eof Nothing (Before closers) (Derived (@Tier.tokens topTier) Tier.tree (· = tokens))
      (read (expression eof)) tokens :=
  ends_tier tokens spelled topTier

theorem settles_expression : Settles eof W Anything (Before closers)
    (Derived (@Tier.tokens topTier) Tier.tree W) (read (expression eof)) :=
  .of_ends _ _ fits_expression fun _ spelled _ => (ends_expression spelled).anywhere

theorem Before.closers {kind : TokenKind} (h : Before [kind] tokens) (mem : kind ∈ closers) :
    Before closers tokens :=
  h.mono (List.cons_subset.2 ⟨mem, List.nil_subset _⟩)

/-- The semicolon that ends an expression. -/
theorem settles_semicolon : Settles eof W (Before closers) Anything
    (Derived (@Terminal.tokens (.mark .semicolon)) (·.token) W)
    (read (expect eof (.mark .semicolon))) :=
  settles_expect _ (before_closers (by decide))

theorem ends_declaration (spelled : Spelled tokens) :
    Ends eof Nothing Anything (Derived Grammar.Stmt.tokens Grammar.Stmt.tree (· = tokens))
      (read (declaration eof)) tokens := by
  rw [read_declaration]
  refine (ends_expect _ tokens).andThen spelled fun word => ?_
  refine settles_ident.bind fun name => ?_
  refine Settles.bind (Q := Before [.mark .semicolon]) (settles_marked ?_ ?_ fun _ => ends_type)
    fun ty => ?_
  · intro rest follows
    exact ⟨trivial, follows.peekIs_other (by decide)⟩
  · exact fun _ _ => trivial
  refine Settles.bind (Q := Before [.mark .semicolon]) (settles_marked ?_ ?_
    fun _ spelled => (ends_expression spelled).anywhere) fun value => ?_
  · intro rest follows
    exact ⟨follows, follows.peekIs_other (by decide)⟩
  · exact fun _ follows => follows.closers (by decide)
  refine (settles_expect _ fun rest => ⟨_, rfl, .head _⟩).bind fun close => .pure (fun _ => id) ?_
  rintro rest ⟨semicolon, ⟨value, ⟨type, ⟨name, ⟨word, split, rfl⟩, rfl⟩, rfl⟩, rfl⟩, rfl⟩
  refine ⟨.decl word name type value semicolon, ?_, by rw [Grammar.Stmt.tree]; rfl⟩
  simp only [← split, Grammar.Stmt.tokens, Terminal.tokens, List.append_assoc, List.cons_append,
    List.nil_append]

theorem ends_returning (spelled : Spelled tokens) :
    Ends eof Nothing Anything (Derived Grammar.Stmt.tokens Grammar.Stmt.tree (· = tokens))
      (read (returning eof)) tokens := by
  rw [read_returning]
  refine (ends_expect _ tokens).andThen spelled fun word => ?_
  refine Settles.bind
    (S := Derived (Option.elim · [] (@Tier.tokens topTier)) (Option.map Tier.tree) _)
    (.upTo (fun _ _ => trivial) (fun rest within => ⟨none, within, rfl⟩)
      (bind_of_error (read_tier_nil topTier)) (fun _ _ => rfl) ?_) fun value => ?_
  · intro t rest spelled within
    refine (ends_expression spelled).andThen spelled fun value =>
      .pure (fun _ follows => follows.closers (by decide)) ?_
    rintro _ ⟨value, split, rfl⟩
    exact ⟨some value, by rwa [← split] at within, rfl⟩
  refine (settles_expect _ fun rest => ⟨_, rfl, .head _⟩).bind fun close => .pure (fun _ => id) ?_
  rintro rest ⟨semicolon, ⟨value, ⟨word, split, rfl⟩, rfl⟩, rfl⟩
  refine ⟨.ret word value semicolon, ?_, by rw [Grammar.Stmt.tree]; rfl⟩
  simp only [← split, Grammar.Stmt.tokens, Terminal.tokens, List.append_assoc, List.cons_append,
    List.nil_append]

theorem ends_evaluation (spelled : Spelled tokens) :
    Ends eof Nothing Anything (Derived Grammar.Stmt.tokens Grammar.Stmt.tree (· = tokens))
      (read (evaluation eof)) tokens := by
  rw [read_evaluation]
  refine (ends_expression spelled).andThen spelled fun value => ?_
  refine settles_semicolon.bind fun close => .pure (fun _ => id) ?_
  rintro rest ⟨semicolon, ⟨value, split, rfl⟩, rfl⟩
  refine ⟨.eval value semicolon, ?_, by rw [Grammar.Stmt.tree]; rfl⟩
  rw [← split, Grammar.Stmt.tokens, List.append_assoc]
  rfl

/-- A semicolon would do where a statement is to be read. -/
theorem finishes_statement : Finishes Anything (read (statement eof)) [] :=
  ⟨_, .skip ⟨0, 0⟩, .sample (.mark .semicolon), fun rest _ => read_statement_skip rfl rest⟩

/-- From its first token on a statement is read by another function. -/
theorem ends_statement_of {r : Reader Stmt} {S : Stmt → List Token → Prop}
    (same : ∀ more, read (statement eof) (t :: more) = r (t :: more))
    (h : Ends eof Nothing (Before [.mark .closeBrace]) S r (t :: rest)) :
    Ends eof Nothing (Before [.mark .closeBrace]) S (read (statement eof)) (t :: rest) :=
  .of_head same (finishes_statement.mono fun _ _ => trivial) (exists_before _ (.head _)) h

/-- A name alone is an expression, so a semicolon makes it a statement. -/
theorem finishes_named (named : t.kind = .identifier) :
    Finishes (Before [.mark .closeBrace]) (read (statement eof)) [t] := by
  have taken (rest : List Token) (follows : Before [.mark .closeBrace] rest) :
      read (statement eof) _ = .ok (_, rest) :=
    takes_statement (.eval (.ofName ⟨t, named⟩ topTier) (sample _))
      (follows.peekIs_other (by decide))
  rw [Grammar.Stmt.tokens, Tier.tokens_ofName] at taken
  exact ⟨_, _, .sample (.mark .semicolon), taken⟩

theorem begins_evaluation (named : t.kind = .identifier) :
    ∃ more result, read (evaluation eof) (t :: more) = .ok result := by
  have taken : read (evaluation eof) _ = .ok (_, []) :=
    takes_evaluation (.ofName ⟨t, named⟩ topTier) (sample _) []
  rw [Grammar.Stmt.tokens, Tier.tokens_ofName] at taken
  exact ⟨_, _, taken⟩

/-- Behind a name at the beginning of a statement one more token decides. -/
theorem ends_named (named : t.kind = .identifier) (spelled : Spelled (t :: rest)) :
    Ends eof Nothing (Before [.mark .closeBrace])
      (Derived Grammar.Stmt.tokens Grammar.Stmt.tree (· = t :: rest)) (read (statement eof))
      (t :: rest) := by
  by_cases assigns : peekIs (.mark .equal) rest = true
  · cases rest with
    | nil => cases assigns
    | cons equal rest =>
        have sign : equal.kind = .mark .equal := peekIs_cons.1 assigns
        have onwards : ∀ more, read (statement eof) (t :: equal :: more) = (do
            let value ← read (expression eof)
            let close ← read (expect eof (.mark .semicolon))
            return .assign (t.span.cover close.span) ⟨t.text, t.span⟩ value : Reader Stmt)
              more := by
          intro more
          rw [read_statement_assignment named (peekIs_cons.2 sign), read_assignment,
            bind_of_ok (takes_ident ⟨t, named⟩ _), bind_of_ok (read_expect sign more)]
          rfl
        refine .cons (fun _ => rfl)
          (.cons (r := fun more => read (statement eof) (t :: more)) onwards ?_)
        refine (ends_expression spelled.tail.tail).anywhere.andThen spelled.tail.tail
          fun value => ?_
        refine settles_semicolon.bind fun close => .pure (fun _ _ => trivial) ?_
        rintro rest' ⟨semicolon, ⟨value, split, rfl⟩, rfl⟩
        refine ⟨.assign ⟨t, named⟩ ⟨equal, sign⟩ value semicolon, ?_,
          by rw [Grammar.Stmt.tree]; rfl⟩
        rw [← split, Grammar.Stmt.tokens, List.cons_append, List.cons_append, List.append_assoc]
        rfl
  · have other : t.kind ∉ leads := by
      rw [named]
      decide
    have evaluates : ∀ more, Before [.mark .closeBrace] more ∨ more.head? = rest.head? →
        read (statement eof) (t :: more) = read (evaluation eof) (t :: more) := by
      intro more follows
      refine read_statement_evaluation other fun _ => ?_
      rcases follows with follows | same
      · exact follows.peekIs_other (by decide)
      · exact (peekIs_congr same).trans (Bool.eq_false_iff.2 assigns)
    exact .of_two evaluates (finishes_named named) (exists_before _ (.head _))
      (begins_evaluation named) ((ends_evaluation spelled).mono fun _ _ => trivial)

theorem fits_block (lead : ∀ rest, P ((sample (.mark .openBrace)).token :: rest)) :
    Fits P Anything (read (block eof)) := by
  have spelled := (Spelled.sample (.mark .openBrace)).append (.sample (.mark .closeBrace))
  refine ⟨_, sampleBlock.tree, spelled, fun rest _ => ⟨lead _, ?_⟩⟩
  have taken : read (block eof) _ = .ok (_, rest) := takes_block sampleBlock rest
  rwa [sampleBlock, Block.tokens, stmtTokens] at taken

theorem fits_statements : Fits (Before [.mark .closeBrace]) (Before [.mark .closeBrace])
    (read (statements eof)) := by
  refine .idle [] (fun _ => id) fun rest follows => ?_
  rw [read_statements]
  exact upTo_absent follows.peekIs_self

/-- Behind an `else` there may be a block. -/
theorem fits_alternative : Fits Anything Anything (alternative eof) := by
  obtain ⟨more, value, spelled, done⟩ :
      Fits (Before [.mark .openBrace]) Anything (read (block eof)) :=
    fits_block fun rest => ⟨_, rfl, .head _⟩
  refine ⟨more, value, spelled, fun rest follows => ⟨trivial, ?_⟩⟩
  obtain ⟨brace, read⟩ := done rest follows
  rw [alternative, brace.peekIs_other (by decide)]
  exact read

mutual

theorem ends_block (tokens : List Token) (spelled : Spelled tokens) :
    Ends eof Nothing Anything (Derived Block.tokens Block.tree (· = tokens)) (read (block eof))
      tokens := by
  rw [read_block]
  have opens : Ends eof Nothing (Before [.mark .closeBrace]) _ (read (expect eof _)) tokens :=
    (ends_expect (.mark .openBrace) tokens).mono fun _ _ => trivial
  refine opens.andThen spelled fun opening => ?_
  refine Settles.bind (.of_ends stmtTokens stmtTrees fits_statements fun rest spelled' read => ?_)
    fun body => ?_
  · have shorter : rest.length + 1 ≤ tokens.length := by
      obtain ⟨_, rfl, _⟩ := read
      exact Nat.le_refl _
    exact ends_statements rest spelled'
  refine (settles_expect _ fun rest => ⟨_, rfl, .head _⟩).bind fun close => .pure (fun _ => id) ?_
  rintro rest ⟨closing, ⟨body, ⟨opening, split, rfl⟩, rfl⟩, rfl⟩
  refine ⟨.braces opening body closing, ?_, by rw [Block.tree]; rfl⟩
  simp only [← split, Block.tokens, Terminal.tokens, List.append_assoc, List.cons_append,
    List.nil_append]
termination_by (tokens.length, 0)
decreasing_by all_goals simp only [Prod.lex_def]; omega

theorem ends_statements (tokens : List Token) (spelled : Spelled tokens) :
    Ends eof (Before [.mark .closeBrace]) (Before [.mark .closeBrace])
      (Derived stmtTokens stmtTrees (· = tokens)) (read (statements eof)) tokens := by
  rw [read_statements]
  refine Settles.here (.upTo (fun _ => id) ?_ rfl (fun _ _ => if_neg Bool.false_ne_true) ?_) spelled
  · rintro _ rfl
    exact ⟨[], by rw [stmtTokens]; rfl, by rw [stmtTrees]⟩
  intro t rest spelled same
  have whole : (t :: rest).length = tokens.length := congrArg List.length same
  refine (ends_statement (t :: rest) spelled).andThen spelled fun first => ?_
  refine Settles.bind (.of_ends stmtTokens stmtTrees fits_statements fun rest₁ spelled₁ read => ?_)
    fun others => .pure (fun _ => id) ?_
  · have shorter : rest₁.length + 1 ≤ (t :: rest).length := by
      obtain ⟨first, split, _⟩ := read
      obtain ⟨lead, more, nonempty, _⟩ := first.exists_first
      have length := congrArg List.length split
      rw [nonempty, List.length_append, List.length_cons] at length
      omega
    exact ends_statements rest₁ spelled₁
  rintro rest₂ ⟨others, ⟨first, split, rfl⟩, rfl⟩
  exact ⟨first :: others, by rw [stmtTokens, List.append_assoc, split, same], by rw [stmtTrees]⟩
termination_by (tokens.length, 2)
decreasing_by all_goals simp only [Prod.lex_def]; omega

/-- The first token or the first two decide by which rule the statement is read. -/
theorem ends_statement : (tokens : List Token) → Spelled tokens →
    Ends eof Nothing (Before [.mark .closeBrace])
      (Derived Grammar.Stmt.tokens Grammar.Stmt.tree (· = tokens)) (read (statement eof)) tokens
  | [], _ => .runsOut read_statement_nil (finishes_statement.mono fun _ _ => trivial)
  | t :: rest, spelled => by
    -- The first token decides which statement it is. Behind a name the second one does.
    by_cases skips : t.kind = .mark .semicolon
    · refine .cons (read_statement_skip skips)
        (.pure (fun _ _ => trivial) _ ⟨.skip ⟨t, skips⟩, ?_, ?_⟩)
      · rw [Grammar.Stmt.tokens]
        rfl
      · rw [Grammar.Stmt.tree]
        rfl
    by_cases opens : t.kind = .mark .openBrace
    · refine ends_statement_of (read_statement_block opens) ?_
      refine (ends_block (t :: rest) spelled).consequence (fun _ _ => trivial) fun _ _ =>
        .imp Grammar.Stmt.block ?_ ?_
      · exact fun _ => by rw [Grammar.Stmt.tokens]
      · exact fun _ => by rw [Grammar.Stmt.tree]
    by_cases declares : t.kind = .keyword .letWord
    · exact ends_statement_of (read_statement_declaration declares)
        ((ends_declaration spelled).mono fun _ _ => trivial)
    by_cases branches : t.kind = .keyword .ifWord
    · refine ends_statement_of (read_statement_conditional branches) ?_
      refine (ends_conditional (t :: rest) spelled).mono_post fun _ _ =>
        .imp Grammar.Stmt.conditional ?_ ?_
      · exact fun _ => by rw [Grammar.Stmt.tokens]
      · exact fun _ => by rw [Grammar.Stmt.tree]
    by_cases loops : t.kind = .keyword .whileWord
    · refine .cons (read_statement_loop loops) ?_
      refine (ends_expression spelled.tail).anywhere.andThen spelled.tail fun condition => ?_
      refine Settles.bind (Q := Anything) (.of_ends Block.tokens Block.tree
        (fits_block (before_closers (by decide))) fun rest₁ spelled₁ read => ?_) fun body => ?_
      · have shorter := read.length_le
        exact (ends_block rest₁ spelled₁).anywhere
      refine .pure (fun _ _ => trivial) ?_
      rintro rest₂ ⟨body, ⟨condition, split, rfl⟩, rfl⟩
      refine ⟨.loop ⟨t, loops⟩ condition body, ?_, by rw [Grammar.Stmt.tree]; rfl⟩
      rw [← split, Grammar.Stmt.tokens, List.cons_append, List.append_assoc]
    by_cases returns : t.kind = .keyword .returnWord
    · exact ends_statement_of (read_statement_returning returns)
        ((ends_returning spelled).mono fun _ _ => trivial)
    by_cases named : t.kind = .identifier
    · exact ends_named named spelled
    · have other : t.kind ∉ leads := by simp_all [leads]
      exact ends_statement_of
        (fun _ => read_statement_evaluation other fun same => absurd same named)
        ((ends_evaluation spelled).mono fun _ _ => trivial)
termination_by tokens => (tokens.length, 1)
decreasing_by all_goals simp only [Prod.lex_def, List.length_cons, true_and]; omega

/-- Without an `else` the conditional is over behind its first branch. -/
theorem ends_conditional (tokens : List Token) (spelled : Spelled tokens) :
    Ends eof Nothing (Before [.mark .closeBrace])
      (Derived Conditional.tokens Conditional.tree (· = tokens)) (read (conditional eof))
      tokens := by
  rw [read_conditional]
  refine (ends_expect _ tokens).andThen spelled fun word => ?_
  refine settles_expression.bind fun condition => ?_
  refine Settles.bind (Q := Anything) (.of_ends Block.tokens Block.tree
    (fits_block (before_closers (by decide))) fun rest₂ spelled₂ read => ?_) fun positive => ?_
  · have shorter : rest₂.length + 1 ≤ tokens.length := by
      obtain ⟨condition, ⟨_, rfl, _⟩, _⟩ := read
      simp [Terminal.tokens]
    exact (ends_block rest₂ spelled₂).anywhere
  refine .behind ?_ ?_ ?_
  · intro rest follows
    exact ⟨trivial, follows.peekIs_other (by decide)⟩
  · rintro rest ⟨positive, ⟨condition, ⟨word, split, rfl⟩, rfl⟩, rfl⟩
    refine ⟨.plain word condition positive, ?_, by rw [Conditional.tree]; rfl⟩
    simp only [← split, Conditional.tokens, Terminal.tokens, List.append_assoc, List.cons_append,
      List.nil_append]
  · intro otherwise rest₃ spelled₃ read kind
    have shorter : rest₃.length + 1 ≤ tokens.length := by
      obtain ⟨positive, ⟨condition, ⟨_, rfl, _⟩, _⟩, _⟩ := read
      simp [Terminal.tokens]
      omega
    refine (ends_alternative rest₃ spelled₃).andThen spelled₃ fun negative => .pure (fun _ => id) ?_
    obtain ⟨positive, ⟨condition, ⟨word, split, rfl⟩, rfl⟩, rfl⟩ := read
    rintro rest₄ (⟨negative, rfl, rfl⟩ | ⟨negative, rfl, rfl⟩)
    · refine ⟨.orConditional word condition positive ⟨otherwise, kind⟩ negative, ?_,
        by rw [Conditional.tree]; rfl⟩
      simp only [← split, Conditional.tokens, Terminal.tokens, List.append_assoc, List.cons_append,
        List.nil_append]
    · refine ⟨.orBlock word condition positive ⟨otherwise, kind⟩ negative, ?_,
        by rw [Conditional.tree]; rfl⟩
      simp only [← split, Conditional.tokens, Terminal.tokens, List.append_assoc, List.cons_append,
        List.nil_append]
termination_by (tokens.length, 0)
decreasing_by all_goals simp only [Prod.lex_def]; omega

theorem ends_alternative : (tokens : List Token) → Spelled tokens →
    Ends eof Anything (Before [.mark .closeBrace])
      (fun value rest => Derived Conditional.tokens Conditional.tree (· = tokens) value rest ∨
        Derived Block.tokens Block.tree (· = tokens) value rest) (alternative eof) tokens
  | [], _ => .runsOut read_block_nil (fits_alternative.finishes.mono fun _ _ => trivial)
  | t :: rest, spelled => by
    have finishes : Finishes (Before [.mark .closeBrace]) (alternative eof) [] :=
      fits_alternative.finishes.mono fun _ _ => trivial
    have possible : ∃ other, Before [.mark .closeBrace] other := exists_before _ (.head _)
    by_cases branches : t.kind = .keyword .ifWord
    · exact .of_head (fun more => if_pos (peekIs_cons.2 branches)) finishes possible
        ((ends_conditional (t :: rest) spelled).mono_post fun _ _ => .inl)
    · exact .of_head (fun more => if_neg fun next => branches (peekIs_cons.1 next)) finishes
        possible ((ends_block (t :: rest) spelled).consequence (fun _ _ => trivial) fun _ _ => .inr)
termination_by tokens => (tokens.length, 1)
decreasing_by all_goals simp only [Prod.lex_def, true_and]; omega

end

theorem ends_param (spelled : Spelled tokens) :
    Ends eof Nothing Anything (Derived Grammar.Param.tokens Grammar.Param.tree (· = tokens))
      (read (param eof)) tokens := by
  rw [read_param]
  refine (ends_ident spelled).andThen spelled fun name => ?_
  refine (settles_expect _ fun _ => trivial).bind fun colon => ?_
  refine settles_type.bind fun written => .pure (fun _ => id) ?_
  rintro rest ⟨type, ⟨colon, ⟨name, split, rfl⟩, rfl⟩, rfl⟩
  exact ⟨⟨name, colon, type⟩, split, rfl⟩

theorem ends_params (tokens : List Token) (spelled : Spelled tokens) :
    Ends eof Anything (Before [.mark .closeParen])
      (Derived (Listed.tokens Grammar.Param.tokens) (·.items.map Grammar.Param.tree) (· = tokens))
      (read (params eof)) tokens := by
  rw [read_params]
  refine Settles.here (.upTo (fun _ _ => trivial) ?_ (bind_of_error rfl) (fun _ _ => rfl) ?_)
    spelled
  · rintro _ rfl
    exact ⟨.nil, rfl, rfl⟩
  intro t rest spelled same
  have whole : (t :: rest).length = tokens.length := congrArg List.length same
  refine (ends_param spelled).andThen spelled fun first => .behind ?_ ?_ ?_
  · intro rest follows
    exact ⟨trivial, follows.peekIs_other (by decide)⟩
  · rintro rest₁ ⟨p, split, rfl⟩
    exact ⟨.last p, split.trans same, rfl⟩
  · intro comma rest₁ spelled₁ read kind
    have shorter : rest₁.length + 1 ≤ (t :: rest).length := read.length_le
    refine (ends_params rest₁ spelled₁).andThen spelled₁ fun others => .pure (fun _ => id) ?_
    obtain ⟨p, split, rfl⟩ := read
    rintro rest₂ ⟨others, split₁, rfl⟩
    refine ⟨.cons p ⟨comma, kind⟩ others, ?_, rfl⟩
    rw [Listed.tokens, List.append_assoc, List.cons_append, split₁, split, same]
termination_by tokens.length
decreasing_by omega

theorem fits_params :
    Fits Anything (Before [.mark .closeParen]) (read (params eof)) := by
  refine .idle [] (fun _ _ => trivial) fun rest follows => ?_
  rw [read_params]
  exact upTo_absent follows.peekIs_self

theorem settles_header : Settles eof W Anything (Before [.mark .openBrace])
    (Derived Grammar.Header.tokens Grammar.Header.tree W) (read (header eof)) := by
  rw [read_header]
  refine settles_ident.bind fun name => ?_
  refine (settles_expect _ fun _ => trivial).bind fun opening => ?_
  refine Settles.bind
    (.of_ends _ _ fits_params fun tokens spelled _ => ends_params tokens spelled) fun ps => ?_
  refine (settles_expect _ fun rest => ⟨_, rfl, .head _⟩).bind fun close => .behind ?_ ?_ ?_
  · intro rest follows
    exact ⟨trivial, follows.peekIs_other (by decide)⟩
  · rintro rest ⟨closing, ⟨ps, ⟨opening, ⟨name, within, rfl⟩, rfl⟩, rfl⟩, rfl⟩
    refine ⟨⟨name, opening, ps, closing, none⟩, ?_, rfl⟩
    simpa [Grammar.Header.tokens, Terminal.tokens, Marked.tokens] using within
  · intro arrow rest spelled read kind
    refine (ends_type spelled).andThen spelled fun written => .pure (fun _ _ => trivial) ?_
    obtain ⟨closing, ⟨ps, ⟨opening, ⟨name, within, rfl⟩, rfl⟩, rfl⟩, rfl⟩ := read
    rintro rest' ⟨type, rfl, rfl⟩
    refine ⟨⟨name, opening, ps, closing, some (⟨arrow, kind⟩, type)⟩, ?_, rfl⟩
    simpa [Grammar.Header.tokens, Terminal.tokens, Marked.tokens] using within

theorem ends_function (spelled : Spelled tokens) :
    Ends eof Nothing Anything (Derived Grammar.Function.tokens Grammar.Function.tree (· = tokens))
      (read (function eof)) tokens := by
  rw [read_function]
  refine (ends_expect _ tokens).andThen spelled fun word => settles_header.bind fun header => ?_
  refine Settles.bind (Q := Anything) (.of_ends _ _ (fits_block fun rest => ⟨_, rfl, .head _⟩)
    fun tokens spelled _ => (ends_block tokens spelled).anywhere) fun body => .pure (fun _ => id) ?_
  rintro rest ⟨body, ⟨header, ⟨word, split, rfl⟩, rfl⟩, rfl⟩
  refine ⟨⟨word, header, body⟩, ?_, rfl⟩
  rw [← split, Grammar.Function.tokens, List.cons_append, List.append_assoc]
  rfl

/-- A module may be empty. -/
theorem fits_functions : Fits Anything (· = []) (readAll eof) := by
  refine .idle [] (fun _ _ => trivial) fun rest follows => ?_
  rw [follows]
  exact readAll_nil

/-- How reading a module ends. -/
theorem ends_functions : (tokens : List Token) → Spelled tokens →
    Ends eof Anything (· = [])
      (Derived (List.flatMap Grammar.Function.tokens) (List.map Grammar.Function.tree) (· = tokens))
      (readAll eof) tokens
  | [], _ => by
    refine .reads [] [] [] rfl (fun other follows => ?_) (fun _ _ _ => trivial) ⟨[], rfl, rfl⟩
    have none : other = [] := follows.elim id List.head?_eq_none_iff.1
    rw [none]
    exact readAll_nil
  | t :: rest, spelled => by
    by_cases kind : t.kind = .keyword .fnWord
    · refine .of_head (readAll_function kind) fits_functions.finishes ⟨[], rfl⟩ ?_
      refine (ends_function spelled).andThen spelled fun first => ?_
      refine Settles.bind (.of_ends (List.flatMap Grammar.Function.tokens)
        (List.map Grammar.Function.tree) fits_functions fun rest₁ spelled₁ read => ?_) fun _ =>
          .pure (fun _ => id) ?_
      · have shorter : rest₁.length + 1 ≤ (t :: rest).length := by
          obtain ⟨f, split, _⟩ := read
          have length := congrArg List.length split
          rw [List.length_append, Grammar.Function.tokens, List.length_cons] at length
          omega
        exact ends_functions rest₁ spelled₁
      rintro rest₂ ⟨fs, ⟨f, split, rfl⟩, rfl⟩
      exact ⟨f :: fs, by rw [List.flatMap_cons, List.append_assoc, split], rfl⟩
    · exact .refuses (readAll_other kind) (fun _ => ParseCause.noConfusion) fits_functions.finishes
termination_by tokens => tokens.length
decreasing_by exact shorter

/-- A module is the tree of a derivation of all its tokens. If there is none, reading fails at one
of the tokens or at their end. -/
theorem functions_cases (spelled : Spelled tokens) :
    (∃ fs : List Grammar.Function, functions eof tokens = .ok (fs.map Grammar.Function.tree) ∧
      fs.flatMap Grammar.Function.tokens = tokens) ∨
    (∃ t ∈ tokens, ∃ cause, functions eof tokens = .error ⟨cause, t.span⟩) ∨
    ∃ wanted, functions eof tokens = .error ⟨.endOfFile wanted, eof⟩ := by
  have ends : Ends eof _ _ _ (readAll eof) tokens := ends_functions tokens spelled
  cases ends with
  | reads front rest value split again idle post =>
      have done := again rest (.inr rfl)
      rw [← split] at done
      obtain ⟨fs, read, same⟩ := except_map_eq_ok.1 done
      cases same
      obtain ⟨derivations, all, rfl⟩ := post
      rw [List.append_nil] at all
      exact .inl ⟨derivations, read, all⟩
  | stops front t behind split present fails finishes =>
      have failed := fails behind
      rw [← split] at failed
      have mem : t ∈ tokens := split ▸ List.mem_append_right front List.mem_cons_self
      exact .inr (.inl ⟨t, mem, _, except_map_eq_error.1 failed⟩)
  | runsOut fails finishes => exact .inr (.inr ⟨_, except_map_eq_error.1 fails⟩)

end Rill.Parser
