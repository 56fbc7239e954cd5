import Rill.Proofs.Tree.Node
import Rill.Proofs.Tree.Respanned

/-!
# Spans are faithful to the source

The spans of a parsed tree nest like its nodes. The text under the span of a statement or an
expression can be taken out of the source: in the body of another function it is parsed as the
same node, moved to its new place.
-/

namespace Rill

namespace Grammar

open Rill.Parser

section Move

variable {φ : Span → Span}

theorem spelled_mapSpan {tokens : List Token} (spelled : Spelled tokens) :
    Spelled (tokens.map (Token.mapSpan φ)) := by
  intro t mem
  obtain ⟨t', mem', rfl⟩ := List.mem_map.1 mem
  exact spelled t' mem'

/-- The tokens of a statement can be moved: they are read as the same statement elsewhere, and what
is read has a derivation. -/
theorem Stmt.exists_move (keeps : KeepsCovers φ) {s : Stmt} (spelled : Spelled s.tokens) :
    ∃ s' : Stmt, s'.tokens = s.tokens.map (Token.mapSpan φ) ∧ s'.tree = s.tree.mapSpans φ := by
  have taken : read (statement ⟨0, 0⟩) (s.tokens ++ []) = .ok (s.tree, []) := takes_statement s rfl
  rw [List.append_nil] at taken
  have moved : read (statement (φ ⟨0, 0⟩)) (s.tokens.map (Token.mapSpan φ)) = _ :=
    Phrase.read_mapSpans keeps .statement ⟨0, 0⟩ s.tokens
  rw [Phrase.read, taken] at moved
  obtain ⟨s', tokens, tree⟩ := (ends_statement _ (spelled_mapSpan spelled)).post_of_ok moved
  exact ⟨s', (List.append_nil _).symm.trans tokens, tree⟩

theorem Expr.exists_move (keeps : KeepsCovers φ) {e : Expr} (spelled : Spelled e.tokens) :
    ∃ e' : Expr, e'.tokens = e.tokens.map (Token.mapSpan φ) ∧ e'.tree = e.tree.mapSpans φ := by
  have taken : read (expression ⟨0, 0⟩) (e.tokens ++ []) = .ok (e.tree, []) :=
    takes_expression e (follows_nil topTier)
  rw [List.append_nil] at taken
  have moved : read (expression (φ ⟨0, 0⟩)) (e.tokens.map (Token.mapSpan φ)) = _ :=
    Phrase.read_mapSpans keeps (.tier (Fin.last topTier)) ⟨0, 0⟩ e.tokens
  rw [Phrase.read] at moved
  rw [show read (tier ⟨0, 0⟩ (Fin.last topTier)) e.tokens = _ from taken] at moved
  obtain ⟨e', tokens, tree⟩ := (ends_expression (spelled_mapSpan spelled)).post_of_ok moved
  exact ⟨e', (List.append_nil _).symm.trans tokens, tree⟩

end Move

end Grammar

/-- The text as the body of a function. -/
def Source.wrap (text : String) : Source where
  text := "fn wrapper() \x7b " ++ text ++ " \x7d"

namespace Wrapper

open Grammar Lexer

def word : Word .fnWord := ⟨.ofPiece (.keyword .fnWord) "fn".toList 0, rfl⟩

def name : Name := ⟨.ofPiece .identifier ['w', 'r', 'a', 'p', 'p', 'e', 'r'] 3, rfl⟩

def openParen : Sign .openParen := ⟨.ofPiece (.mark .openParen) ['('] 10, rfl⟩

def closeParen : Sign .closeParen := ⟨.ofPiece (.mark .closeParen) [')'] 11, rfl⟩

def openBrace : Sign .openBrace := ⟨.ofPiece (.mark .openBrace) ['\x7b'] 13, rfl⟩

def closeBrace (offset : Nat) : Sign .closeBrace :=
  ⟨.ofPiece (.mark .closeBrace) ['\x7d'] offset, rfl⟩

def semicolon (offset : Nat) : Sign .semicolon :=
  ⟨.ofPiece (.mark .semicolon) [';'] offset, rfl⟩

/-- The function whose body is made of the statements. -/
def function (body : List Grammar.Stmt) (offset : Nat) : Grammar.Function :=
  ⟨word, ⟨name, openParen, .nil, closeParen, none⟩, .braces openBrace body (closeBrace offset)⟩

/-- Every token can end before one of these characters. -/
theorem endsBefore_cons {c : Char} (h : c = ' ' ∨ c = ';' ∨ c = '(' ∨ c = ')') (rest : List Char)
    (kind : TokenKind) : kind.EndsBefore (c :: rest) := by
  rcases h with rfl | rfl | rfl | rfl
  all_goals
    exact TokenKind.endsBefore_cons (by decide) (by decide) (by decide)
      (by intro m; cases m <;> decide) kind rest

theorem lex_opening (cs : List Char) :
    lex 0 ("fn wrapper() \x7b ".toList ++ cs) = (lex 15 cs).map
      ([word.token, name.token, openParen.token, closeParen.token, openBrace.token] ++ ·) := by
  have text : "fn wrapper() \x7b ".toList ++ cs = "fn".toList ++ (' ' ::
      (['w', 'r', 'a', 'p', 'p', 'e', 'r'] ++ (['('] ++ ([')'] ++
        (' ' :: (['\x7b'] ++ (' ' :: cs))))))) := rfl
  have fn : TokenKind.Spells (.keyword .fnWord) "fn".toList := rfl
  have wrapper : TokenKind.Spells .identifier ['w', 'r', 'a', 'p', 'p', 'e', 'r'] :=
    ⟨⟨'w', ['r', 'a', 'p', 'p', 'e', 'r'], rfl, rfl, List.all_eq_true.1 rfl⟩,
      by intro word; cases word <;> decide, by decide, by decide⟩
  have opens : TokenKind.Spells (.mark .openParen) ['('] := rfl
  have closes : TokenKind.Spells (.mark .closeParen) [')'] := rfl
  have brace : TokenKind.Spells (.mark .openBrace) ['\x7b'] := rfl
  have space : ∀ (rest : List Char) (kind : TokenKind), kind.EndsBefore (' ' :: rest) :=
    endsBefore_cons (.inl rfl)
  have opening : ∀ (rest : List Char) (kind : TokenKind), kind.EndsBefore (['('] ++ rest) :=
    endsBefore_cons (.inr (.inr (.inl rfl)))
  have closing : ∀ (rest : List Char) (kind : TokenKind), kind.EndsBefore ([')'] ++ rest) :=
    endsBefore_cons (.inr (.inr (.inr rfl)))
  rw [text, lex_token fn (space _ _), lex_blank rfl, lex_token wrapper (opening _ _),
    lex_token opens (closing _ _), lex_token closes (space _ _), lex_blank rfl,
    lex_token brace (space _ _), lex_blank rfl]
  show Except.map _ (Except.map _ (Except.map _ (Except.map _ (Except.map _ (lex 15 cs))))) = _
  cases lex 15 cs <;> rfl

theorem lex_closing (offset : Nat) :
    lex offset [' ', '\x7d'] = .ok [(closeBrace (offset + 1)).token] := by
  have closing : TokenKind.Spells (.mark .closeBrace) ['\x7d'] := rfl
  have read := lex_token closing (TokenKind.endsBefore_nil _) (offset + 1)
  rw [lex] at read
  rw [lex_blank rfl]
  exact read

theorem parse_wrap {piece : List Char} {body : List Grammar.Stmt}
    (reads : Reads [' ', '\x7d'] 15 piece (stmtTokens body)) :
    ∃ f span, (Source.wrap (String.ofList piece)).parse = .ok ⟨[f]⟩ ∧
      f.body = .block span (stmtTrees body) := by
  have text : (Source.wrap (String.ofList piece)).text.toList =
      "fn wrapper() \x7b ".toList ++ (piece ++ [' ', '\x7d']) := by
    show ("fn wrapper() \x7b " ++ String.ofList piece ++ " \x7d").toList = _
    have inner : (String.ofList piece).toList = piece := String.toList_ofList
    rw [String.toList_append, String.toList_append, inner, List.append_assoc]
    rfl
  let derivation : Grammar.Module := ⟨[function body (15 + byteLength piece + 1)]⟩
  have lexed : (Source.wrap (String.ofList piece)).tokens = .ok derivation.tokens := by
    have whole : derivation.tokens =
        (function body (15 + byteLength piece + 1)).tokens := List.append_nil _
    rw [Source.tokens, text, lex_opening, lex_reads reads, lex_closing, whole]
    rfl
  exact ⟨_, _, Source.parse_of_derivation lexed rfl, rfl⟩

end Wrapper

namespace Grammar

section Shift

variable {a b : Nat}

/-- Moved to its new place and then on, a token is where it gets by the other way. -/
theorem map_shift_rebase {tokens : List Token}
    (behind : ∀ t ∈ tokens, a ≤ t.span.start ∧ a ≤ t.span.stop) :
    (tokens.map (Token.mapSpan (.rebase a b))).map (Token.mapSpan (.shift a)) =
      tokens.map (Token.mapSpan (.shift b)) := by
  rw [List.map_map]
  refine List.map_congr_left fun t mem => ?_
  obtain ⟨start, stop⟩ := behind t mem
  simp only [Function.comp, Token.mapSpan, Span.shift_rebase start stop]

theorem Stmt.tree_shift {s s' : Stmt} (spelled : Parser.Spelled s.tokens)
    (moved : s'.tokens = s.tokens.map (Token.mapSpan (.rebase a b)))
    (behind : ∀ t ∈ s.tokens, a ≤ t.span.start ∧ a ≤ t.span.stop) :
    s'.tree.mapSpans (.shift a) = s.tree.mapSpans (.shift b) := by
  have spelled' : Parser.Spelled s'.tokens := moved ▸ spelled_mapSpan spelled
  obtain ⟨s₁, tokens₁, tree₁⟩ := Stmt.exists_move (keepsCovers_shift a) spelled'
  obtain ⟨s₂, tokens₂, tree₂⟩ := Stmt.exists_move (keepsCovers_shift b) spelled
  rw [moved, map_shift_rebase behind, ← tokens₂] at tokens₁
  rw [← tree₁, ← tree₂, Stmt.tokens_inj s₁ s₂ tokens₁]

theorem Expr.tree_shift {e e' : Expr} (spelled : Parser.Spelled e.tokens)
    (moved : e'.tokens = e.tokens.map (Token.mapSpan (.rebase a b)))
    (behind : ∀ t ∈ e.tokens, a ≤ t.span.start ∧ a ≤ t.span.stop) :
    e'.tree.mapSpans (.shift a) = e.tree.mapSpans (.shift b) := by
  have spelled' : Parser.Spelled e'.tokens := moved ▸ spelled_mapSpan spelled
  obtain ⟨e₁, tokens₁, tree₁⟩ := Expr.exists_move (keepsCovers_shift a) spelled'
  obtain ⟨e₂, tokens₂, tree₂⟩ := Expr.exists_move (keepsCovers_shift b) spelled
  rw [moved, map_shift_rebase behind, ← tokens₂] at tokens₁
  rw [← tree₁, ← tree₂, Tier.tokens_inj e₁ e₂ tokens₁]

end Shift

theorem Tier.exists_add {n : Nat} (e : Tier n) (k : Nat) :
    ∃ e' : Tier (n + k), e'.tokens = e.tokens ∧ e'.tree = e.tree := by
  induction k with
  | zero => exact ⟨e, rfl, rfl⟩
  | succ k ih =>
      obtain ⟨e', tokens, tree⟩ := ih
      refine ⟨.chain e' .nil, ?_, ?_⟩
      · rw [Tier.tokens, Links.tokens, List.append_nil, tokens]
      · rw [Tier.tree, Links.join, tree]

/-- An operand of any level is an expression: there are no operators above the highest level. -/
theorem Tier.exists_expr : {n : Nat} → (e : Tier n) →
    ∃ e' : Expr, e'.tokens = e.tokens ∧ e'.tree = e.tree
  | _, .unary operand => (Tier.unary operand).exists_add 5
  | n + 1, .chain first links => by
    by_cases low : n + 1 ≤ Parser.topTier
    · obtain ⟨k, top⟩ := Nat.exists_eq_add_of_le low
      show ∃ e' : Tier Parser.topTier, _
      rw [top]
      exact (Tier.chain first links).exists_add k
    · obtain ⟨m, rfl⟩ := Nat.exists_eq_add_of_le' (Nat.le_of_not_lt low)
      -- Above the highest level a chain has no links, so it is its first operand.
      cases links with
      | nil =>
          obtain ⟨e', tokens, tree⟩ := first.exists_expr
          refine ⟨e', ?_, ?_⟩
          · rw [Tier.tokens, Links.tokens, List.append_nil, tokens]
          · rw [Tier.tree, Links.join, tree]
      | cons op operand more =>
          obtain ⟨_, _, known⟩ := op.known
          exact (List.not_mem_nil known).elim

end Grammar

/-- The text under the span of a statement or an expression, put into the body of another
function, is parsed as this node again. Moved by the place where it stood and by the place where
it stands now, behind the 15 bytes in front of it, both are the same. -/
def Source.Reparses (source : Source) : Node → Prop
  | .stmt s => ∃ text f span s', source.slice? s.span = some text ∧
      (Source.wrap text).parse = .ok ⟨[f]⟩ ∧ f.body = .block span [s'] ∧
        s'.mapSpans (.shift s.span.start) = s.mapSpans (.shift 15)
  | .expr e => ∃ text f span span' e', source.slice? e.span = some text ∧
      (Source.wrap (text ++ ";")).parse = .ok ⟨[f]⟩ ∧ f.body = .block span [.eval span' e'] ∧
        e'.mapSpans (.shift e.span.start) = e.mapSpans (.shift 15)
  | _ => True

/-- What the span of a node says about the source. -/
structure Source.Faithful (source : Source) (tokens : List Token) (node : Node) : Prop where
  starts : ∃ t ∈ tokens, t.span.start = node.span.start
  stops : ∃ t ∈ tokens, t.span.stop = node.span.stop
  inside : ∀ child ∈ node.children,
    node.span.start ≤ child.span.start ∧ child.span.stop ≤ node.span.stop
  ordered : node.children.Pairwise fun first second => first.span.stop ≤ second.span.start
  reparses : source.Reparses node

namespace Source

open Grammar Lexer

section Tokens

variable {source : Source} {front gap : List Char} {tokens : List Token}

/-- The text of some tokens in a row, before other characters and at another place. -/
theorem exists_slice (text : source.text.toList = front ++ gap) (reads : Reads gap 0 front tokens)
    {part : List Token} {span : Span} (within : part <:+: tokens) (framed : Frames span part)
    {c : Char} (stop : c = ' ' ∨ c = ';' ∨ c = '(' ∨ c = ')') (rest : List Char) :
    ∃ piece, source.slice? span = some (String.ofList piece) ∧
      Reads (c :: rest) 15 piece (part.map (Token.mapSpan (.rebase span.start 15))) := by
  obtain ⟨before, piece, after, rfl, rfl, segment⟩ := reads.exists_segment within framed
  refine ⟨piece, ?_, ?_⟩
  · refine slice?_eq_some_iff.2 ⟨before, after ++ gap, ?_, ?_, ?_⟩
    · simp only [text, List.append_assoc]
    · simp only [Nat.zero_add]
    · simp only [Nat.zero_add]
  · have moved := (segment.before fun kind _ => Wrapper.endsBefore_cons stop rest kind).rebase
      (Nat.le_refl _) 15
    rwa [Nat.sub_self, Nat.zero_add] at moved

theorem behind_of_frames {part : List Token} {span : Span} (framed : Frames span part)
    (ordered : Ordered part) :
    ∀ t ∈ part, span.start ≤ t.span.start ∧ span.start ≤ t.span.stop := by
  intro t mem
  have bounds := framed.bounds ordered mem
  have forward := ordered.forward t mem
  omega

theorem reparses_stmt (text : source.text.toList = front ++ gap) (reads : Reads gap 0 front tokens)
    (ordered : Ordered tokens) {s : Grammar.Stmt} (within : s.tokens <:+: tokens) :
    source.Reparses (.stmt s.tree) := by
  have framed := s.frames (ordered.sublist within.sublist)
  obtain ⟨piece, slice, moved⟩ := exists_slice text reads within framed (.inl rfl) ['\x7d']
  have spelled : Parser.Spelled s.tokens := (spelled_of_reads reads).subset within.subset
  obtain ⟨s', tokens', _⟩ := Stmt.exists_move (keepsCovers_rebase s.tree.span.start 15) spelled
  have body : Reads [' ', '\x7d'] 15 piece (stmtTokens [s']) := by
    rw [stmtTokens, stmtTokens, List.append_nil, tokens']
    exact moved
  obtain ⟨f, span, parsed, isBlock⟩ := Wrapper.parse_wrap body
  refine ⟨_, f, span, s'.tree, slice, parsed, ?_, ?_⟩
  · rw [isBlock, stmtTrees, stmtTrees]
  · exact Stmt.tree_shift spelled tokens' (behind_of_frames framed (ordered.sublist within.sublist))

theorem reparses_expr (text : source.text.toList = front ++ gap) (reads : Reads gap 0 front tokens)
    (ordered : Ordered tokens) {e : Grammar.Expr} (within : e.tokens <:+: tokens) :
    source.Reparses (.expr e.tree) := by
  have framed := e.frames (ordered.sublist within.sublist)
  obtain ⟨piece, slice, moved⟩ :=
    exists_slice text reads within framed (.inr (.inl rfl)) [' ', '\x7d']
  have spelled : Parser.Spelled e.tokens := (spelled_of_reads reads).subset within.subset
  obtain ⟨e', tokens', _⟩ :=
    Grammar.Expr.exists_move (keepsCovers_rebase e.tree.span.start 15) spelled
  have spells : TokenKind.Spells (.mark .semicolon) [';'] := rfl
  have sign : Reads [' ', '\x7d'] (15 + byteLength piece) [';']
      [(Wrapper.semicolon (15 + byteLength piece)).token] :=
    Reads.cons .nil spells (Wrapper.endsBefore_cons (.inl rfl) _ _) .nil
  have body : Reads [' ', '\x7d'] 15 (piece ++ [';'])
      (stmtTokens [.eval e' (Wrapper.semicolon (15 + byteLength piece))]) := by
    rw [stmtTokens, stmtTokens, List.append_nil, Stmt.tokens, tokens']
    exact moved.append sign
  obtain ⟨f, span, parsed, isBlock⟩ := Wrapper.parse_wrap body
  rw [String.ofList_append] at parsed
  rw [stmtTrees, stmtTrees, Stmt.tree] at isBlock
  refine ⟨_, f, span, _, e'.tree, slice, parsed, isBlock, ?_⟩
  · exact Grammar.Expr.tree_shift spelled tokens'
      (behind_of_frames framed (ordered.sublist within.sublist))

theorem faithful_part (text : source.text.toList = front ++ gap) (reads : Reads gap 0 front tokens)
    (ordered : Ordered tokens) {part : Part} (within : part.tokens <:+: tokens) :
    source.Faithful tokens part.node := by
  have orderedPart := ordered.sublist within.sublist
  have framed := part.frames orderedPart
  obtain ⟨parts, nodes, laid⟩ := part.exists_children
  constructor
  case starts =>
    obtain ⟨t, mem, start⟩ := framed.exists_first
    exact ⟨t, within.subset mem, start⟩
  case stops =>
    obtain ⟨t, mem, stop⟩ := framed.exists_last
    exact ⟨t, within.subset mem, stop⟩
  case inside =>
    intro child mem
    rw [← nodes] at mem
    obtain ⟨part', mem', rfl⟩ := List.mem_map.1 mem
    have sub := laid.isInfix part' mem'
    have framed' := part'.frames (orderedPart.sublist sub.sublist)
    obtain ⟨first, memFirst, start⟩ := framed'.exists_first
    obtain ⟨last, memLast, stop⟩ := framed'.exists_last
    rw [← start, ← stop]
    exact ⟨(framed.bounds orderedPart (sub.subset memFirst)).1,
      (framed.bounds orderedPart (sub.subset memLast)).2⟩
  case ordered =>
    rw [← nodes]
    exact laid.nodes_ordered orderedPart
  case reparses =>
    cases part with
    | function | header | param | ident => trivial
    | stmt s => exact reparses_stmt text reads ordered within
    | expr e =>
        obtain ⟨e', tokens', tree⟩ := e.exists_expr
        show source.Reparses (.expr e.tree)
        rw [← tree]
        exact reparses_expr text reads ordered (tokens' ▸ within)

end Tokens

/-- Every node of a parsed tree comes from a part of the derivation. -/
theorem exists_part {source : Source} {m : Module} (parsed : source.parse = .ok m) {f : Function}
    (mem : f ∈ m.functions) {node : Node} (below : (Node.function f).Holds node) :
    ∃ (tokens : List Token) (part : Part), source.tokens = .ok tokens ∧ part.node = node ∧
      part.tokens <:+: tokens := by
  obtain ⟨tokens, lexed⟩ := exists_tokens parsed
  obtain ⟨d, derives, rfl⟩ := exists_derivation lexed parsed
  obtain ⟨g, memG, rfl⟩ := List.mem_map.1 mem
  have within : g.tokens <:+: tokens := by
    obtain ⟨before, after, split⟩ := List.append_of_mem memG
    rw [← derives, Grammar.Module.tokens, split, List.flatMap_append, List.flatMap_cons]
    exact ⟨_, _, List.append_assoc ..⟩
  obtain ⟨part, same, inner⟩ := (Part.function g).exists_of_holds below
  exact ⟨tokens, part, lexed, same, inner.trans within⟩

/-- The span of every node of a parsed tree is faithful to the source. -/
theorem faithful {source : Source} {m : Module} (parsed : source.parse = .ok m) {f : Function}
    (mem : f ∈ m.functions) {node : Node} (below : (Node.function f).Holds node) :
    ∃ tokens, source.tokens = .ok tokens ∧ source.Faithful tokens node := by
  obtain ⟨tokens, part, lexed, rfl, within⟩ := exists_part parsed mem below
  obtain ⟨front, gap, text, reads, isGap⟩ := Lexer.lex_eq_ok_iff.1 lexed
  have ordered : Ordered tokens := ⟨reads.ordered, (SplitInto.of_reads text reads isGap).nonempty⟩
  exact ⟨tokens, lexed, faithful_part text reads ordered within⟩

/-- The parentheses around `2` belong to its span. -/
theorem faithful_chained :
    chained.parse = .ok ⟨[chainedFunction]⟩ ∧
      (Node.function chainedFunction).Holds (.expr (.literal ⟨43, 46⟩ (.int 2))) ∧
        ∃ tokens, chained.tokens = .ok tokens ∧
          chained.Faithful tokens (.expr (.literal ⟨43, 46⟩ (.int 2))) := by
  have below : (Node.function chainedFunction).Holds (.expr (.literal ⟨43, 46⟩ (.int 2))) :=
    .head (.tail _ (.head _)) <| .head (.head _) <| .head (.head _) <|
      .head (.tail _ (.head _)) <| .head (.tail _ (.head _)) .refl
  exact ⟨parse_chained, below, faithful parse_chained List.mem_cons_self below⟩

end Source

end Rill
