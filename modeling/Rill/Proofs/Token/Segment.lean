import Rill.Proofs.Token.Split

/-!
# Runs of tokens

Tokens that stand next to each other in a source have a text of their own, from the start of the
first to the end of the last. Read at another place, and before something else, this text
gives the same tokens again, moved to that place.
-/

namespace Rill

/-- The tokens stand one behind the other. -/
structure Ordered (tokens : List Token) : Prop where
  apart : tokens.Pairwise fun first second => first.span.stop ≤ second.span.start
  forward : ∀ t ∈ tokens, t.span.start < t.span.stop

namespace Ordered

variable {front rest part tokens : List Token}

theorem sublist (h : Ordered tokens) (sub : part.Sublist tokens) : Ordered part :=
  ⟨h.apart.sublist sub, fun t mem => h.forward t (sub.subset mem)⟩

theorem left (h : Ordered (front ++ rest)) : Ordered front :=
  h.sublist (List.sublist_append_left front rest)

theorem right (h : Ordered (front ++ rest)) : Ordered rest :=
  h.sublist (List.sublist_append_right front rest)

end Ordered

/-- The span goes from the start of the first token to the end of the last. -/
def Frames (span : Span) (tokens : List Token) : Prop :=
  ∃ first ∈ tokens.head?, ∃ last ∈ tokens.getLast?, span = ⟨first.span.start, last.span.stop⟩

namespace Frames

variable {a b : Span} {front back tokens : List Token}

theorem single (t : Token) : Frames t.span [t] :=
  ⟨t, rfl, t, rfl, rfl⟩

theorem exists_first (h : Frames a tokens) : ∃ t ∈ tokens, t.span.start = a.start := by
  obtain ⟨first, isFirst, last, isLast, rfl⟩ := h
  exact ⟨first, List.mem_of_mem_head? isFirst, rfl⟩

theorem exists_last (h : Frames a tokens) : ∃ t ∈ tokens, t.span.stop = a.stop := by
  obtain ⟨first, isFirst, last, isLast, rfl⟩ := h
  exact ⟨last, List.mem_of_mem_getLast? isLast, rfl⟩

/-- What stands around a token of the list stands around its span. -/
theorem bounds (h : Frames a tokens) (ordered : Ordered tokens) {t : Token} (mem : t ∈ tokens) :
    a.start ≤ t.span.start ∧ t.span.stop ≤ a.stop := by
  obtain ⟨first, isFirst, last, isLast, rfl⟩ := h
  constructor
  · obtain ⟨rest, rfl⟩ := List.head?_eq_some_iff.1 isFirst
    rcases List.mem_cons.1 mem with rfl | mem
    · exact Nat.le_refl _
    · have apart := (List.pairwise_cons.1 ordered.apart).1 t mem
      have forward := ordered.forward first List.mem_cons_self
      show first.span.start ≤ t.span.start
      omega
  · obtain ⟨front, rfl⟩ := List.getLast?_eq_some_iff.1 isLast
    rcases List.mem_append.1 mem with mem | mem
    · have apart := (List.pairwise_append.1 ordered.apart).2.2 t mem last
        (List.mem_singleton_self _)
      have forward := ordered.forward last (List.mem_append_right _ (List.mem_singleton_self _))
      show t.span.stop ≤ last.span.stop
      omega
    · obtain rfl := List.mem_singleton.1 mem
      exact Nat.le_refl _

theorem cover (ha : Frames a front) (mid : List Token) (hb : Frames b back)
    (ordered : Ordered (front ++ (mid ++ back))) : Frames (a.cover b) (front ++ (mid ++ back)) := by
  obtain ⟨first, isFirst, last, isLast, rfl⟩ := ha
  obtain ⟨first', isFirst', last', isLast', rfl⟩ := hb
  have apart : ∀ t ∈ front, ∀ u ∈ back, t.span.stop ≤ u.span.start := fun t mem u mem' =>
    (List.pairwise_append.1 ordered.apart).2.2 t mem u (List.mem_append_right mid mem')
  have memFirst := List.mem_of_mem_head? isFirst
  have memLast' := List.mem_of_mem_getLast? isLast'
  have starts := apart first memFirst first' (List.mem_of_mem_head? isFirst')
  have stops := apart last (List.mem_of_mem_getLast? isLast) last' memLast'
  have forward := ordered.forward first (List.mem_append_left _ memFirst)
  have forward' := ordered.forward last'
    (List.mem_append_right _ (List.mem_append_right _ memLast'))
  refine ⟨first, ?_, last', ?_, ?_⟩
  · rw [List.head?_append, Option.mem_def.1 isFirst]
    rfl
  · rw [List.getLast?_append, List.getLast?_append, Option.mem_def.1 isLast']
    rfl
  · simp only [Span.cover, Span.mk.injEq]
    omega

end Frames

namespace Span

/-- The same length further on. -/
def shift (n : Nat) (span : Span) : Span :=
  ⟨span.start + n, span.stop + n⟩

/-- What starts at `a` is moved to `b`. -/
def rebase (a b : Nat) (span : Span) : Span :=
  ⟨span.start - a + b, span.stop - a + b⟩

theorem shift_rebase {a b : Nat} {span : Span} (start : a ≤ span.start) (stop : a ≤ span.stop) :
    (span.rebase a b).shift a = span.shift b := by
  simp only [shift, rebase, mk.injEq]
  omega

end Span

/-- A change of spans that respects which span covers which others. -/
def KeepsCovers (φ : Span → Span) : Prop :=
  ∀ a b : Span, φ (a.cover b) = (φ a).cover (φ b)

theorem keepsCovers_shift (n : Nat) : KeepsCovers (Span.shift n) := by
  intro a b
  simp only [Span.shift, Span.cover, Span.mk.injEq]
  omega

theorem keepsCovers_rebase (m n : Nat) : KeepsCovers (Span.rebase m n) := by
  intro a b
  simp only [Span.rebase, Span.cover, Span.mk.injEq]
  omega

def Token.mapSpan (φ : Span → Span) (token : Token) : Token :=
  ⟨token.kind, token.text, φ token.span⟩

namespace Lexer

variable {front rest : List Char} {offset : Nat} {tokens tokens' : List Token}

theorem Reads.exists_split (h : Reads rest offset front (tokens ++ tokens')) :
    ∃ before after, front = before ++ after ∧ Reads (after ++ rest) offset before tokens ∧
      Reads rest (offset + byteLength before) after tokens' := by
  induction tokens generalizing offset front with
  | nil => exact ⟨[], front, rfl, .nil, h⟩
  | cons t tokens ih =>
      cases h with
      | @cons _ gap text front kind _ skipped spells ends more =>
          obtain ⟨before, after, rfl, first, second⟩ := ih more
          refine ⟨gap ++ (text ++ before), after, by simp only [List.append_assoc], ?_, ?_⟩
          · rw [List.append_assoc] at skipped ends
            exact .cons skipped spells ends first
          · simpa only [byteLength_append, Nat.add_assoc] using second

theorem Reads.append {before after : List Char} (first : Reads (after ++ rest) offset before tokens)
    (second : Reads rest (offset + byteLength before) after tokens') :
    Reads rest offset (before ++ after) (tokens ++ tokens') := by
  induction first with
  | nil => exact second
  | @cons offset gap text front kind tokens skipped spells ends more ih =>
      have place : offset + byteLength (gap ++ (text ++ front)) =
          offset + byteLength gap + byteLength text + byteLength front := by
        simp only [byteLength_append, Nat.add_assoc]
      rw [place] at second
      rw [← List.append_assoc front] at skipped ends
      rw [List.append_assoc, List.append_assoc]
      exact .cons skipped spells ends (ih second)

/-- The first token begins behind a gap. -/
theorem Reads.exists_gap {t : Token} (h : Reads rest offset front (t :: tokens)) :
    ∃ gap front', front = gap ++ front' ∧ t.span.start = offset + byteLength gap ∧
      Reads rest (offset + byteLength gap) front' (t :: tokens) := by
  cases h with
  | @cons _ gap text front kind _ skipped spells ends more =>
      refine ⟨gap, text ++ front, rfl, rfl, ?_⟩
      have none : IsGap (text ++ (front ++ rest)) [] := .nil
      exact Reads.cons none spells ends more

/-- The last token ends where the text ends. -/
theorem Reads.stop_getLast (h : Reads rest offset front tokens) {last : Token}
    (isLast : last ∈ tokens.getLast?) : last.span.stop = offset + byteLength front := by
  induction h with
  | nil => cases isLast
  | @cons offset gap text front kind tokens skipped spells ends more ih =>
      cases tokens with
      | nil =>
          cases more
          obtain rfl : Token.ofPiece kind text (offset + byteLength gap) = last :=
            Option.some.inj isLast
          simp only [Token.ofPiece, byteLength_append, byteLength_nil, Nat.add_zero, Nat.add_assoc]
      | cons t tokens =>
          rw [List.getLast?_cons_cons] at isLast
          simpa only [byteLength_append, Nat.add_assoc] using ih isLast

/-- The text of some tokens in a row is what stands under the span that they frame. -/
theorem Reads.exists_segment {part : List Token} {span : Span} (h : Reads rest offset front tokens)
    (within : part <:+: tokens) (framed : Frames span part) :
    ∃ before piece after, front = before ++ (piece ++ after) ∧
      span = ⟨offset + byteLength before, offset + byteLength before + byteLength piece⟩ ∧
      Reads (after ++ rest) (offset + byteLength before) piece part := by
  obtain ⟨lead, trail, rfl⟩ := within
  obtain ⟨first, isFirst, last, isLast, rfl⟩ := framed
  obtain ⟨part, rfl⟩ := List.head?_eq_some_iff.1 isFirst
  obtain ⟨whole, after, rfl, reads, _⟩ := h.exists_split
  obtain ⟨before, piece, rfl, _, reads⟩ := reads.exists_split
  obtain ⟨gap, piece, rfl, start, reads⟩ := reads.exists_gap
  have size : offset + byteLength before + byteLength gap =
      offset + byteLength (before ++ gap) := by
    rw [byteLength_append, Nat.add_assoc]
  rw [size] at start reads
  refine ⟨before ++ gap, piece, after, by simp only [List.append_assoc], ?_, reads⟩
  rw [start, reads.stop_getLast isLast]

/-- The same tokens are read from the same text at another place. -/
theorem Reads.rebase (h : Reads rest offset front tokens) {a : Nat} (le : a ≤ offset) (b : Nat) :
    Reads rest (offset - a + b) front (tokens.map (Token.mapSpan (.rebase a b))) := by
  induction h with
  | nil => exact .nil
  | @cons offset gap text front kind tokens skipped spells ends more ih =>
      have moved : (Token.ofPiece kind text (offset + byteLength gap)).mapSpan (.rebase a b) =
          .ofPiece kind text (offset - a + b + byteLength gap) := by
        simp only [Token.mapSpan, Token.ofPiece, Span.rebase, Token.mk.injEq, Span.mk.injEq,
          true_and]
        omega
      have place : offset + byteLength gap + byteLength text - a + b =
          offset - a + b + byteLength gap + byteLength text := by omega
      rw [List.map_cons, moved]
      refine .cons skipped spells ends ?_
      rw [← place]
      exact ih (by omega)

end Lexer

end Rill
