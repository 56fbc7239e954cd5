import Mathlib.Logic.Relation
import Rill.Proofs.Token.Segment
import Rill.Proofs.Tree.Grammar

/-!
# Nodes and the tokens that they stand for

A node is anything in a tree that has a span: a function, its header, parameters and names,
statements and expressions. Every node of a parsed tree comes from a part of the derivation,
whose tokens stand together in the source. The tokens of its children are found among them one
child after the other, and its span goes from the start of the first to the end of the last.
-/

namespace Rill

inductive Node where
  | function (f : Function)
  | header (h : Header)
  | param (p : Param)
  | ident (name : Ident)
  | stmt (s : Stmt)
  | expr (e : Expr)

namespace Node

def span : Node → Span
  | .function f => f.span
  | .header h => h.span
  | .param p => p.span
  | .ident name => name.span
  | .stmt s => s.span
  | .expr e => e.span

/-- The nodes right below a node, in the order of the source. -/
def children : Node → List Node
  | .function f => [.header f.header, .stmt f.body]
  | .header h => .ident h.name :: h.params.map .param
  | .param p => [.ident p.name]
  | .ident _ => []
  | .stmt s =>
    match s with
    | .ite _ condition positive negative =>
      .expr condition :: (positive.toList.map .stmt ++ negative.toList.map .stmt)
    | .block _ body => body.map .stmt
    | .decl _ name _ value => .ident name :: value.toList.map .expr
    | .assign _ target value => [.ident target, .expr value]
    | .ret _ value => value.toList.map .expr
    | .loop _ condition body => [.expr condition, .stmt body]
    | .eval _ value => [.expr value]
    | .skip _ => []
  | .expr e =>
    match e with
    | .literal _ _ => []
    | .var _ name => [.ident name]
    | .call _ target args => .ident target :: args.map .expr
    | .unary _ _ operand => [.expr operand]
    | .binary _ _ lhs rhs | .logic _ _ lhs rhs => [.expr lhs, .expr rhs]

/-- The second node is the first or stands anywhere below it. -/
def Holds : Node → Node → Prop :=
  Relation.ReflTransGen fun node child => child ∈ node.children

/-- A new span changes nothing below. -/
theorem children_withSpan (e : Expr) (span : Span) :
    (Node.expr (e.withSpan span)).children = (Node.expr e).children := by
  cases e <;> rfl

end Node

namespace Grammar

theorem TypeName.frames (t : TypeName) (ordered : Ordered t.tokens) : Frames t.span t.tokens := by
  cases t with
  | unit opening closing =>
      exact (Frames.single opening.token).cover [] (.single closing.token) ordered
  | named name ty known => exact .single name.token

theorem Primary.frames (e : Primary) (ordered : Ordered e.tokens) :
    Frames e.tree.span e.tokens := by
  cases e with
  | call name opening args closing =>
      rw [Primary.tokens] at ordered ⊢
      rw [Primary.tree]
      exact (Frames.single name.token).cover (opening.token :: argTokens args)
        (.single closing.token) ordered
  | var name =>
      rw [Primary.tokens, Primary.tree]
      exact .single name.token
  | constant literal =>
      rw [Primary.tokens, Primary.tree]
      exact .single literal.token
  | group opening inner closing =>
      rw [Primary.tokens] at ordered ⊢
      rw [Primary.tree, Expr.span_withSpan]
      exact (Frames.single opening.token).cover inner.tokens (.single closing.token) ordered

theorem Unary.frames : (e : Unary) → Ordered e.tokens → Frames e.tree.span e.tokens
  | .prefixed op operand, ordered => by
    rw [Unary.tokens] at ordered ⊢
    rw [Unary.tree]
    have behind := operand.frames (ordered.sublist (List.sublist_cons_self _ _))
    exact (Frames.single op.token).cover [] behind ordered
  | .primary operand, ordered => by
    rw [Unary.tokens] at ordered ⊢
    rw [Unary.tree]
    exact operand.frames ordered

mutual

/-- Whatever chains of operators it is made of, an expression reaches from its first token to its
last. -/
theorem Tier.frames : {n : Nat} → (e : Tier n) → Ordered e.tokens → Frames e.tree.span e.tokens
  | _, .unary operand, ordered => by
    rw [Tier.tokens] at ordered ⊢
    rw [Tier.tree]
    exact operand.frames ordered
  | _, .chain first links, ordered => by
    rw [Tier.tokens] at ordered ⊢
    rw [Tier.tree]
    exact links.frames (first.frames ordered.left) ordered
termination_by structural _ e => e

/-- What is joined so far is framed by the tokens so far. -/
theorem Links.frames : {n : Nat} → (links : Links n) → {lhs : Rill.Expr} → {front : List Token} →
    Frames lhs.span front → Ordered (front ++ links.tokens) →
    Frames (links.join lhs).span (front ++ links.tokens)
  | _, .nil, lhs, front, framed, _ => by
    rwa [Links.tokens, Links.join, List.append_nil]
  | _, .cons op operand more, lhs, front, framed, ordered => by
    have regroup : front ++ op.token :: (operand.tokens ++ more.tokens) =
        (front ++ ([op.token] ++ operand.tokens)) ++ more.tokens := by
      simp only [List.append_assoc, List.cons_append, List.nil_append]
    rw [Links.tokens, regroup] at ordered ⊢
    rw [Links.join]
    refine more.frames ?_ ordered
    have joined := framed.cover [op.token] (operand.frames ordered.left.right.right) ordered.left
    cases op.op <;> exact joined
termination_by structural _ links => links

end

theorem Block.frames (b : Block) (ordered : Ordered b.tokens) : Frames b.tree.span b.tokens := by
  cases b with
  | braces opening body closing =>
      rw [Block.tokens] at ordered ⊢
      rw [Block.tree]
      exact (Frames.single opening.token).cover (stmtTokens body) (.single closing.token) ordered

theorem frames_branches {word : Word .ifWord} {condition : Expr} {positive : Block}
    {otherwise : Word .elseWord} {span : Span} {negative : List Token}
    (second : Ordered negative → Frames span negative)
    (ordered : Ordered (word.token :: (condition.tokens ++ (positive.tokens ++
      otherwise.token :: negative)))) :
    Frames ((word.span.cover positive.tree.span).cover span)
      (word.token :: (condition.tokens ++ (positive.tokens ++ otherwise.token :: negative))) := by
  have regroup : word.token :: (condition.tokens ++ (positive.tokens ++
      otherwise.token :: negative)) =
      ([word.token] ++ (condition.tokens ++ positive.tokens)) ++
        ([otherwise.token] ++ negative) := by
    simp only [List.append_assoc, List.cons_append, List.nil_append]
  rw [regroup] at ordered ⊢
  have first := (Frames.single word.token).cover condition.tokens
    (positive.frames ordered.left.right.right) ordered.left
  exact first.cover [otherwise.token] (second ordered.right.right) ordered

theorem Conditional.frames : (c : Conditional) → Ordered c.tokens → Frames c.tree.span c.tokens
  | .plain word condition positive, ordered => by
    rw [Conditional.tokens] at ordered ⊢
    rw [Conditional.tree]
    have ordered' : Ordered ([word.token] ++ (condition.tokens ++ positive.tokens)) := ordered
    have behind := positive.frames ordered'.right.right
    exact (Frames.single word.token).cover condition.tokens behind ordered
  | .orBlock word condition positive otherwise negative, ordered => by
    rw [Conditional.tokens] at ordered ⊢
    rw [Conditional.tree]
    exact frames_branches negative.frames ordered
  | .orConditional word condition positive otherwise negative, ordered => by
    rw [Conditional.tokens] at ordered ⊢
    rw [Conditional.tree]
    exact frames_branches negative.frames ordered

/-- A statement includes its semicolon or its last brace. -/
theorem Stmt.frames (s : Stmt) (ordered : Ordered s.tokens) : Frames s.tree.span s.tokens := by
  cases s with
  | conditional conditional =>
      rw [Stmt.tokens] at ordered ⊢
      exact conditional.frames ordered
  | block block =>
      rw [Stmt.tokens] at ordered ⊢
      exact block.frames ordered
  | decl word name type value semicolon =>
      have regroup : (Stmt.decl word name type value semicolon).tokens = [word.token] ++
          ((name.token :: (type.tokens TypeName.tokens ++ value.tokens Tier.tokens)) ++
            [semicolon.token]) := by
        simp only [Stmt.tokens, List.append_assoc, List.cons_append, List.nil_append]
      rw [regroup] at ordered ⊢
      exact (Frames.single word.token).cover _ (.single semicolon.token) ordered
  | assign target equal value semicolon =>
      exact (Frames.single target.token).cover (equal.token :: value.tokens)
        (.single semicolon.token) ordered
  | ret word value semicolon =>
      exact (Frames.single word.token).cover (value.elim [] Tier.tokens)
        (.single semicolon.token) ordered
  | loop word condition body =>
      have ordered' : Ordered ([word.token] ++ (condition.tokens ++ body.tokens)) := ordered
      have behind := body.frames ordered'.right.right
      exact (Frames.single word.token).cover condition.tokens behind ordered
  | eval value semicolon =>
      have ordered' : Ordered (value.tokens ++ [semicolon.token]) := ordered
      exact (value.frames ordered'.left).cover [] (.single semicolon.token) ordered
  | skip semicolon => exact .single semicolon.token

theorem Param.frames (p : Param) (ordered : Ordered p.tokens) : Frames p.tree.span p.tokens := by
  have ordered' : Ordered ([p.name.token] ++ ([p.colon.token] ++ p.type.tokens)) := ordered
  have behind := p.type.frames ordered'.right.right
  exact (Frames.single p.name.token).cover [p.colon.token] behind ordered

/-- A header ends with its type, or with the parenthesis if there is none. The word before the name
is not part of it. -/
theorem Header.frames (h : Header) (ordered : Ordered h.tokens) :
    Frames h.tree.span h.tokens := by
  obtain ⟨name, opening, params, closing, result⟩ := h
  cases result with
  | none =>
      exact (Frames.single name.token).cover (opening.token :: params.tokens Param.tokens)
        (.single closing.token) ordered
  | some marked =>
      obtain ⟨arrow, type⟩ := marked
      have regroup : Header.tokens ⟨name, opening, params, closing, some (arrow, type)⟩ =
          [name.token] ++ ((opening.token :: (params.tokens Param.tokens ++
            [closing.token, arrow.token])) ++ type.tokens) := by
        simp only [Header.tokens, Marked.tokens_some, List.append_assoc, List.cons_append,
          List.nil_append]
      rw [regroup] at ordered ⊢
      have behind := type.frames ordered.right.right
      exact (Frames.single name.token).cover _ behind ordered

theorem Function.frames (f : Function) (ordered : Ordered f.tokens) :
    Frames f.tree.span f.tokens := by
  have ordered' : Ordered ([f.word.token] ++ (f.header.tokens ++ f.body.tokens)) := ordered
  have behind := f.body.frames ordered'.right.right
  exact (Frames.single f.word.token).cover f.header.tokens behind ordered

/-- A piece of a derivation that a node stands for. -/
inductive Part where
  | function (f : Function)
  | header (h : Header)
  | param (p : Param)
  | ident (name : Name)
  | stmt (s : Stmt)
  | expr {n : Nat} (e : Tier n)

namespace Part

def tokens : Part → List Token
  | .function f => f.tokens
  | .header h => h.tokens
  | .param p => p.tokens
  | .ident name => [name.token]
  | .stmt s => s.tokens
  | .expr e => e.tokens

def node : Part → Node
  | .function f => .function f.tree
  | .header h => .header h.tree
  | .param p => .param p.tree
  | .ident name => .ident name.ident
  | .stmt s => .stmt s.tree
  | .expr e => .expr e.tree

/-- The span of every part reaches from its first token to its last. -/
theorem frames (p : Part) (ordered : Ordered p.tokens) : Frames p.node.span p.tokens := by
  cases p with
  | function f => exact f.frames ordered
  | header h => exact h.frames ordered
  | param p => exact p.frames ordered
  | ident name => exact .single name.token
  | stmt s => exact s.frames ordered
  | expr e => exact e.frames ordered

end Part

/-- The tokens of the parts stand one after the other among the tokens. -/
inductive Laid : List Part → List Token → Prop
  | nil (rest : List Token) : Laid [] rest
  | cons (front : List Token) (part : Part) {parts : List Part} {rest : List Token}
      (more : Laid parts rest) : Laid (part :: parts) (front ++ (part.tokens ++ rest))

namespace Laid

variable {parts parts' : List Part} {front tokens tokens' : List Token}

theorem single (part : Part) : Laid [part] part.tokens := by
  have laid := Laid.cons [] part (.nil [])
  rwa [List.append_nil] at laid

theorem behind (front : List Token) (h : Laid parts tokens) : Laid parts (front ++ tokens) := by
  cases h with
  | nil rest => exact .nil _
  | cons front' part more =>
      rw [← List.append_assoc]
      exact .cons _ part more

/-- Parts of two pieces of a derivation are laid one after the other. -/
theorem append (h : Laid parts tokens) (h' : Laid parts' tokens') :
    Laid (parts ++ parts') (tokens ++ tokens') := by
  induction h with
  | nil rest => exact h'.behind rest
  | cons front part more ih =>
      rw [List.append_assoc, List.append_assoc]
      exact .cons front part ih

theorem before (h : Laid parts tokens) (rest : List Token) : Laid parts (tokens ++ rest) := by
  have laid := h.append (.nil rest)
  rwa [List.append_nil] at laid

theorem isInfix (h : Laid parts tokens) : ∀ part ∈ parts, part.tokens <:+: tokens := by
  induction h with
  | nil rest => exact fun _ mem => (List.not_mem_nil mem).elim
  | @cons front part parts rest more ih =>
      intro part' mem
      rcases List.mem_cons.1 mem with rfl | mem
      · exact ⟨front, rest, List.append_assoc ..⟩
      · refine (ih part' mem).trans ?_
        exact ⟨front ++ part.tokens, [], by rw [List.append_nil, List.append_assoc]⟩

/-- The tokens are in order, so the parts are: each ends before the next begins. -/
theorem nodes_ordered (h : Laid parts tokens) (ordered : Ordered tokens) :
    (parts.map Part.node).Pairwise fun first second => first.span.stop ≤ second.span.start := by
  induction h with
  | nil rest => exact .nil
  | @cons front part parts rest more ih =>
      refine .cons ?_ (ih ordered.right.right)
      intro node mem
      obtain ⟨part', mem', rfl⟩ := List.mem_map.1 mem
      have sub := (more.isInfix part' mem').sublist
      obtain ⟨last, memLast, stop⟩ := (part.frames ordered.right.left).exists_last
      obtain ⟨first, memFirst, start⟩ :=
        (part'.frames (ordered.right.right.sublist sub)).exists_first
      rw [← stop, ← start]
      exact (List.pairwise_append.1 ordered.right.apart).2.2 last memLast first
        (sub.subset memFirst)

end Laid

/-- The parts that the children of a node come from. -/
structure Children (part : Part) (parts : List Part) : Prop where
  nodes : parts.map Part.node = part.node.children
  laid : Laid parts part.tokens

theorem argTrees_eq : (args : Listed Expr) → argTrees args = args.items.map Tier.tree
  | .nil => by rw [argTrees, Listed.items, List.map_nil]
  | .last arg => by rw [argTrees, Listed.items, List.map_cons, List.map_nil]
  | .cons arg comma more => by rw [argTrees, Listed.items, List.map_cons, argTrees_eq more]

theorem laid_args : (args : Listed Expr) → Laid (args.items.map Part.expr) (argTokens args)
  | .nil => .nil _
  | .last arg => by
    rw [argTokens]
    exact .single (.expr arg)
  | .cons arg comma more => by
    rw [argTokens]
    exact (Laid.single (.expr arg)).append ((laid_args more).behind [comma.token])

/-- A chain of operators ends with one of them and its right operand. -/
theorem Links.exists_last : {n : Nat} → (links : Links n) → links = .nil ∨
    ∃ (init : Links n) (op : Operator (operators n)) (operand : Tier n),
      links.tokens = init.tokens ++ op.token :: operand.tokens ∧
        ∀ lhs, links.join lhs = op.op.join (init.join lhs) operand.tree
  | _, .nil => .inl rfl
  | _, .cons op operand more => by
    obtain rfl | ⟨init, op', operand', tokens, join⟩ := more.exists_last
    · refine .inr ⟨.nil, op, operand, ?_, fun lhs => ?_⟩
      · simp only [Links.tokens, List.append_nil, List.nil_append]
      · simp only [Links.join]
    · refine .inr ⟨.cons op operand init, op', operand', ?_, fun lhs => ?_⟩
      · simp only [Links.tokens, tokens, List.cons_append, List.append_assoc]
      · simp only [Links.join, join]

mutual

theorem Tier.exists_children : {n : Nat} → (e : Tier n) → ∃ parts, Children (.expr e) parts
  | _, .unary operand => operand.exists_children
  | _, .chain first links => by
    obtain rfl | ⟨init, op, operand, tokens, join⟩ := links.exists_last
    · obtain ⟨parts, nodes, laid⟩ := first.exists_children
      exact ⟨parts, nodes, laid.before []⟩
    -- Chains group to the left: all but the last link belong to the left child.
    · refine ⟨[.expr (.chain first init), .expr operand], ?_, ?_⟩
      · show [Node.expr (init.join first.tree), Node.expr operand.tree] =
          (Node.expr (links.join first.tree)).children
        rw [join]
        cases op.op <;> rfl
      · show Laid _ (first.tokens ++ links.tokens)
        rw [tokens, ← List.append_assoc]
        exact (Laid.single (.expr (.chain first init))).append
          ((Laid.single (.expr operand)).behind [op.token])
termination_by structural _ e => e

theorem Unary.exists_children : (e : Unary) → ∃ parts, Children (.expr (.unary e)) parts
  | .prefixed op operand =>
    ⟨[.expr (.unary operand)], rfl, (Laid.single (.expr (.unary operand))).behind [op.token]⟩
  | .primary operand => operand.exists_children
termination_by structural e => e

theorem Primary.exists_children : (e : Primary) →
    ∃ parts, Children (.expr (.unary (.primary e))) parts
  | .call name opening args closing => by
    refine ⟨.ident name :: args.items.map .expr, ?_, ?_⟩
    · show _ = Node.ident name.ident :: (argTrees args).map .expr
      rw [argTrees_eq, List.map_map, List.map_cons, List.map_map]
      rfl
    · exact .cons [] (.ident name)
        (((laid_args args).before [closing.token]).behind [opening.token])
  | .var name => ⟨[.ident name], rfl, .single (.ident name)⟩
  | .constant literal => ⟨[], rfl, .nil _⟩
  | .group opening inner closing => by
    obtain ⟨parts, nodes, laid⟩ := inner.exists_children
    refine ⟨parts, ?_, (laid.before [closing.token]).behind [opening.token]⟩
    exact nodes.trans (Node.children_withSpan inner.tree _).symm
termination_by structural e => e

end

theorem stmtTrees_eq : (body : List Stmt) → stmtTrees body = body.map Stmt.tree
  | [] => by rw [stmtTrees, List.map_nil]
  | s :: rest => by rw [stmtTrees, List.map_cons, stmtTrees_eq rest]

theorem laid_body : (body : List Stmt) → Laid (body.map Part.stmt) (stmtTokens body)
  | [] => .nil _
  | s :: rest => by
    rw [stmtTokens]
    exact (Laid.single (.stmt s)).append (laid_body rest)

theorem laid_value {mark : Mark} (value : Marked mark Expr) :
    Laid (value.toList.map (Part.expr ·.2)) (value.tokens Tier.tokens) := by
  cases value with
  | none => exact .nil _
  | some marked => exact (Laid.single (.expr marked.2)).behind [marked.1.token]

theorem Conditional.exists_children (c : Conditional) :
    ∃ parts, Children (.stmt (.conditional c)) parts := by
  cases c with
  | plain word condition positive =>
      refine ⟨[.expr condition, .stmt (.block positive)], rfl, ?_⟩
      exact ((Laid.single (.expr condition)).append (.single (.stmt (.block positive)))).behind
        [word.token]
  | orBlock word condition positive otherwise negative =>
      refine ⟨[.expr condition, .stmt (.block positive), .stmt (.block negative)], rfl, ?_⟩
      exact ((Laid.single (.expr condition)).append ((Laid.single (.stmt (.block positive))).append
        ((Laid.single (.stmt (.block negative))).behind [otherwise.token]))).behind [word.token]
  | orConditional word condition positive otherwise negative =>
      refine ⟨[.expr condition, .stmt (.block positive), .stmt (.conditional negative)], rfl, ?_⟩
      exact ((Laid.single (.expr condition)).append ((Laid.single (.stmt (.block positive))).append
        ((Laid.single (.stmt (.conditional negative))).behind [otherwise.token]))).behind
          [word.token]

theorem Stmt.exists_children (s : Stmt) : ∃ parts, Children (.stmt s) parts := by
  cases s with
  | conditional conditional => exact conditional.exists_children
  | block block =>
      cases block with
      | braces opening body closing =>
          refine ⟨body.map .stmt, ?_, ((laid_body body).before [closing.token]).behind
            [opening.token]⟩
          show _ = (stmtTrees body).map Node.stmt
          rw [stmtTrees_eq, List.map_map, List.map_map]
          rfl
  | decl word name type value semicolon =>
      refine ⟨.ident name :: value.toList.map (Part.expr ·.2), ?_, ?_⟩
      · cases value <;> rfl
      · exact .cons [word.token] (.ident name)
          (((laid_value value).before [semicolon.token]).behind (type.tokens TypeName.tokens))
  | assign target equal value semicolon =>
      refine ⟨[.ident target, .expr value], rfl, ?_⟩
      exact .cons [] (.ident target)
        (((Laid.single (.expr value)).before [semicolon.token]).behind [equal.token])
  | ret word value semicolon =>
      cases value with
      | none => exact ⟨[], rfl, .nil _⟩
      | some value =>
          exact ⟨[.expr value], rfl,
            ((Laid.single (.expr value)).before [semicolon.token]).behind [word.token]⟩
  | loop word condition body =>
      refine ⟨[.expr condition, .stmt (.block body)], rfl, ?_⟩
      exact ((Laid.single (.expr condition)).append (.single (.stmt (.block body)))).behind
        [word.token]
  | eval value semicolon =>
      exact ⟨[.expr value], rfl, (Laid.single (.expr value)).before [semicolon.token]⟩
  | skip semicolon => exact ⟨[], rfl, .nil _⟩

theorem laid_params : (ps : Listed Param) →
    Laid (ps.items.map Part.param) (ps.tokens Param.tokens)
  | .nil => .nil _
  | .last p => .single (.param p)
  | .cons p comma more => (Laid.single (.param p)).append ((laid_params more).behind [comma.token])

theorem Part.exists_children (part : Part) : ∃ parts, Children part parts := by
  cases part with
  | function f =>
      refine ⟨[.header f.header, .stmt (.block f.body)], rfl, ?_⟩
      exact ((Laid.single (.header f.header)).append (.single (.stmt (.block f.body)))).behind
        [f.word.token]
  | header h =>
      refine ⟨.ident h.name :: h.params.items.map .param, ?_, ?_⟩
      · show _ = Node.ident h.name.ident :: (h.params.items.map Param.tree).map .param
        rw [List.map_cons, List.map_map, List.map_map]
        rfl
      · exact .cons [] (.ident h.name)
          (((laid_params h.params).before _).behind [h.opening.token])
  | param p => exact ⟨[.ident p.name], rfl, .cons [] (.ident p.name) (.nil _)⟩
  | ident name => exact ⟨[], rfl, .nil _⟩
  | stmt s => exact s.exists_children
  | expr e => exact e.exists_children

/-- Every node below comes from a part of the derivation. -/
theorem Part.exists_of_holds (part : Part) {node : Node} (h : part.node.Holds node) :
    ∃ inner : Part, inner.node = node ∧ inner.tokens <:+: part.tokens := by
  induction h with
  | refl => exact ⟨part, rfl, List.infix_rfl⟩
  | tail _ child ih =>
      obtain ⟨inner, rfl, within⟩ := ih
      obtain ⟨parts, nodes, laid⟩ := inner.exists_children
      rw [← nodes] at child
      obtain ⟨inner', mem, rfl⟩ := List.mem_map.1 child
      exact ⟨inner', rfl, (laid.isInfix inner' mem).trans within⟩

end Grammar

end Rill
