import Rill.Proofs.Token.Scan

/-!
# How a source is split into tokens

The lexer sees a text as gaps and tokens in turn, up to its end or to a character where
nothing can begin. There is only one way to see it so: `Lexer.Reads` says which tokens a
text consists of, without the lexer, and `Lexer.lex_eq_ok_iff` that these are the ones
found.
-/

namespace Rill

/-- The token that a text is at a byte offset. -/
def Token.ofPiece (kind : TokenKind) (text : List Char) (offset : Nat) : Token :=
  ⟨kind, String.ofList text, ⟨offset, offset + byteLength text⟩⟩

namespace Lexer

/-- The text `front`, from byte `offset` on and before `rest`, is made of the tokens, each of them
after a gap. -/
inductive Reads (rest : List Char) : Nat → List Char → List Token → Prop
  | nil {offset : Nat} : Reads rest offset [] []
  | cons {offset : Nat} {gap text front : List Char} {kind : TokenKind} {tokens : List Token}
      (skipped : IsGap (text ++ (front ++ rest)) gap) (spells : kind.Spells text)
      (ends : kind.EndsBefore (front ++ rest))
      (more : Reads rest (offset + byteLength gap + byteLength text) front tokens) :
      Reads rest offset (gap ++ (text ++ front))
        (.ofPiece kind text (offset + byteLength gap) :: tokens)

theorem lex_blanks (offset : Nat) (cs : List Char) :
    lex offset cs =
      lex (offset + byteLength (cs.takeWhile isBlank)) (cs.dropWhile isBlank) := by
  cases cs with
  | nil => rfl
  | cons c cs =>
      by_cases blank : isBlank c = true
      · have scanned : scan c cs = .skipped (c :: cs.takeWhile isBlank) := by
          simp only [scan, blank, if_true]
        have dropped : cs.drop ((c :: cs.takeWhile isBlank).length - 1) = cs.dropWhile isBlank := by
          have whole := cs.takeWhile_append_dropWhile (p := isBlank)
          generalize cs.takeWhile isBlank = run at whole ⊢
          rw [← whole, List.length_cons, Nat.add_sub_cancel, List.drop_left, whole]
        rw [lex, scanned]
        simp only [dropped, List.takeWhile_cons, List.dropWhile_cons, blank, if_true]
      · simp [blank]

/-- A blank is skipped. -/
theorem lex_blank {c : Char} (blank : isBlank c = true) (offset : Nat) (cs : List Char) :
    lex offset (c :: cs) = lex (offset + c.utf8Size) cs := by
  rw [lex_blanks, lex_blanks (offset + c.utf8Size) cs]
  simp only [List.takeWhile_cons, List.dropWhile_cons, blank, if_true, byteLength_cons,
    Nat.add_assoc]

/-- A comment is skipped up to the end of its line. -/
theorem lex_comment {body rest : List Char} (line : '\n' ∉ body)
    (ends : ∀ c ∈ rest.head?, c = '\n') (offset : Nat) :
    lex offset ('/' :: '/' :: (body ++ rest)) =
      lex (offset + byteLength ('/' :: '/' :: body)) rest := by
  have run : (body ++ rest).takeWhile (· != '\n') = body := by
    refine takeWhile_of_run (fun c mem => ?_) fun c first => ?_
    · rw [bne_iff_ne]
      rintro rfl
      exact line mem
    · simpa using ends c first
  have scanned : scan '/' ('/' :: (body ++ rest)) = .skipped ('/' :: '/' :: body) := by
    simp [scan, isBlank, run]
  rw [lex, scanned]
  simp

theorem lex_gap {gap rest : List Char} (h : IsGap rest gap) (offset : Nat) :
    lex offset (gap ++ rest) = lex (offset + byteLength gap) rest := by
  induction h generalizing offset with
  | nil => rfl
  | blank blank _ ih =>
      rw [List.cons_append, lex_blank blank, ih, byteLength_cons, Nat.add_assoc]
  | @comment body gap line ends _ ih =>
      have size : byteLength ('/' :: '/' :: (body ++ gap)) =
          byteLength ('/' :: '/' :: body) + byteLength gap := by
        simp only [byteLength_cons, byteLength_append, Nat.add_assoc]
      rw [List.cons_append, List.cons_append, List.append_assoc, lex_comment line ends, ih, size,
        Nat.add_assoc]

/-- A token is read where it can end. -/
theorem lex_token {kind : TokenKind} {text rest : List Char} (spells : kind.Spells text)
    (ends : kind.EndsBefore rest) (offset : Nat) :
    lex offset (text ++ rest) =
      (lex (offset + byteLength text) rest).map (.ofPiece kind text offset :: ·) := by
  obtain ⟨c, more, rfl, scanned⟩ := scan_of_spells spells ends
  rw [List.cons_append, lex, scanned]
  simp only [List.length_cons, Nat.add_sub_cancel, List.drop_left]
  cases lex (offset + byteLength (c :: more)) rest <;> rfl

/-- The lexer reads the tokens that a text is made of, and goes on behind them. -/
theorem lex_reads {rest front : List Char} {offset : Nat} {tokens : List Token}
    (h : Reads rest offset front tokens) :
    lex offset (front ++ rest) = (lex (offset + byteLength front) rest).map (tokens ++ ·) := by
  induction h with
  | nil =>
      simp only [List.nil_append, byteLength_nil, Nat.add_zero]
      cases lex _ rest <;> rfl
  | cons skipped spells ends _ ih =>
      rw [List.append_assoc, List.append_assoc, lex_gap skipped, lex_token spells ends, ih]
      simp only [byteLength_append, Nat.add_assoc]
      cases lex _ rest <;> rfl

/-- Nothing can begin with the first of these characters. -/
def Stuck (rest : List Char) : Prop :=
  ∃ c more cause text, rest = c :: more ∧ scan c more = .failure cause text

theorem Reads.skip {gap front rest : List Char} {offset : Nat} {tokens : List Token}
    (skipped : IsGap (front ++ rest) gap)
    (h : Reads rest (offset + byteLength gap) front tokens) (some_ : tokens ≠ []) :
    Reads rest offset (gap ++ front) tokens := by
  cases h with
  | nil => exact absurd rfl some_
  | @cons _ gap' text front kind tokens skipped' spells ends more =>
      have whole : IsGap (text ++ (front ++ rest)) (gap ++ gap') := by
        refine IsGap.append ?_ skipped'
        simpa only [List.append_assoc] using skipped
      have size : offset + byteLength gap + byteLength gap' =
          offset + byteLength (gap ++ gap') := by
        rw [byteLength_append, Nat.add_assoc]
      rw [size] at more ⊢
      rw [← List.append_assoc]
      exact .cons whole spells ends more

/-- A text is read as tokens up to its end or to a place where nothing can begin. -/
theorem exists_reads (offset : Nat) (cs : List Char) : ∃ front gap rest tokens,
    cs = front ++ (gap ++ rest) ∧ Reads (gap ++ rest) offset front tokens ∧ IsGap rest gap ∧
      (rest = [] ∨ Stuck rest) := by
  cases cs with
  | nil => exact ⟨[], [], [], [], rfl, .nil, .nil, .inl rfl⟩
  | cons c cs =>
      rcases scan_cases c cs with ⟨gap, more, _, split, some_, isGap⟩ |
        ⟨kind, text, more, _, split, some_, spells, ends⟩ | ⟨cause, text, more, scanned, _⟩
      · have shorter : more.length < (c :: cs).length := by
          rw [split, List.length_append]
          exact Nat.lt_add_of_pos_left (List.length_pos_iff.2 some_)
        obtain ⟨front, gap', rest, tokens, rfl, reads, isGap', stop⟩ :=
          exists_reads (offset + byteLength gap) more
        rw [split]
        -- A gap goes in front of the next token. Without one it is part of the last gap.
        cases tokens with
        | nil =>
            cases reads
            rw [List.nil_append] at isGap ⊢
            refine ⟨[], gap ++ gap', rest, [], ?_, .nil, isGap.append isGap', stop⟩
            rw [List.nil_append, List.append_assoc]
        | cons token tokens =>
            refine ⟨gap ++ front, gap', rest, _, ?_, reads.skip isGap (by simp), isGap', stop⟩
            rw [List.append_assoc]
      · have shorter : more.length < (c :: cs).length := by
          rw [split, List.length_append]
          exact Nat.lt_add_of_pos_left (List.length_pos_iff.2 some_)
        obtain ⟨front, gap', rest, tokens, rfl, reads, isGap', stop⟩ :=
          exists_reads (offset + byteLength text) more
        rw [split]
        refine ⟨[] ++ (text ++ front), gap', rest, _, ?_, .cons .nil spells ends reads, isGap',
          stop⟩
        rw [List.nil_append, List.append_assoc]
      · exact ⟨[], [], c :: cs, [], rfl, .nil, .nil, .inr ⟨c, cs, cause, text, rfl, scanned⟩⟩
termination_by cs.length
decreasing_by all_goals exact shorter

/-- The tokens of a text are those that it is made of. -/
theorem lex_eq_ok_iff {offset : Nat} {cs : List Char} {tokens : List Token} :
    lex offset cs = .ok tokens ↔
      ∃ front gap, cs = front ++ gap ∧ Reads gap offset front tokens ∧ IsGap [] gap := by
  have found : ∀ {front gap : List Char} {tokens : List Token}, Reads gap offset front tokens →
      IsGap [] gap → lex offset (front ++ gap) = .ok tokens := by
    intro front gap tokens reads isGap
    have last := lex_gap isGap (offset + byteLength front)
    rw [List.append_nil] at last
    rw [lex_reads reads, last, lex, Except.map, List.append_nil]
  constructor
  · intro lexed
    obtain ⟨front, gap, rest, tokens', rfl, reads, isGap,
      rfl | ⟨c, more, cause, text, rfl, scanned⟩⟩ := exists_reads offset cs
    · rw [List.append_nil] at lexed reads ⊢
      rw [found reads isGap] at lexed
      cases lexed
      exact ⟨front, gap, rfl, reads, isGap⟩
    · rw [lex_reads reads, lex_gap isGap, lex, scanned] at lexed
      cases lexed
  · rintro ⟨front, gap, rfl, reads, isGap⟩
    exact found reads isGap

/-- The lexer fails where nothing can begin, after it has read the tokens before this place. -/
theorem exists_reads_of_error {offset : Nat} {cs : List Char} {error : ParseError}
    (h : lex offset cs = .error error) : ∃ front gap rest tokens,
      cs = front ++ (gap ++ rest) ∧ Reads (gap ++ rest) offset front tokens ∧ IsGap rest gap ∧
      error.span.start = offset + byteLength front + byteLength gap ∧
      ∃ text more, rest = text ++ more ∧ error.span.stop = error.span.start + byteLength text := by
  obtain ⟨front, gap, rest, tokens, rfl, reads, isGap,
    rfl | ⟨c, more, cause, text, rfl, scanned⟩⟩ := exists_reads offset cs
  · rw [lex_reads reads, lex_gap isGap, lex] at h
    cases h
  · refine ⟨front, gap, c :: more, tokens, rfl, reads, isGap, ?_⟩
    rw [lex_reads reads, lex_gap isGap, lex, scanned] at h
    cases h
    refine ⟨rfl, text, ?_⟩
    rcases scan_cases c more with ⟨_, _, other, _⟩ | ⟨_, _, _, other, _⟩ |
      ⟨_, text', rest, same, split, _⟩
    · cases scanned.symm.trans other
    · cases scanned.symm.trans other
    · cases scanned.symm.trans same
      exact ⟨rest, split, rfl⟩

end Lexer

namespace TokenKind

variable {kind : TokenKind} {text rest rest' : List Char}

theorem endsBefore_nil (kind : TokenKind) : kind.EndsBefore [] := by
  cases kind with
  | integer => exact ⟨nofun, nofun⟩
  | string => trivial
  | _ => exact nofun

/-- A character that goes into no token but as the first one lets every token end before it. -/
theorem endsBefore_cons {c : Char} (word : Lexer.isWordChar c = false) (dot : c ≠ '.')
    (slash : c ≠ '/') (second : ∀ m : Mark, m.spelling.toList[1]? ≠ some c) (kind : TokenKind)
    (rest : List Char) : kind.EndsBefore (c :: rest) := by
  have digit : c.isDigit = false := by
    simp only [Lexer.isWordChar, Char.isAlphanum, Bool.or_eq_false_iff] at word
    exact word.1.2
  cases kind with
  | keyword | boolean | identifier =>
      rintro _ ⟨⟩
      exact word
  | integer =>
      constructor
      · rintro _ ⟨⟩
        exact digit
      · intro d more split
        exact absurd (List.cons.inj split).1 dot
  | decimal =>
      rintro _ ⟨⟩
      exact digit
  | string => trivial
  | mark m =>
      rintro _ ⟨⟩
      rcases m.spelling_cases with ⟨d, single⟩ | ⟨d, d', double⟩
      · rw [single]
        constructor
        · intro same
          exact slash (List.cons.inj (List.cons.inj same).2).1
        · intro longer same
          refine second longer ?_
          rw [same]
          rfl
      · exact Mark.endsBefore_of_pair double (c :: rest) c rfl

/-- Where a token can end is decided by the next character, unless that is a dot. -/
theorem EndsBefore.congr (h : kind.EndsBefore rest) (same : rest'.head? = rest.head?)
    (dot : rest'.head? ≠ some '.') : kind.EndsBefore rest' := by
  cases kind with
  | integer =>
      refine ⟨same ▸ h.1, fun d more split => ?_⟩
      rw [split] at dot
      exact absurd rfl dot
  | string => trivial
  | _ => simpa only [EndsBefore, same] using h

/-- No token begins with a dot. -/
theorem Spells.head?_ne (h : kind.Spells text) : text.head? ≠ some '.' := by
  have word : ∀ {text : List Char}, IsWord text → text.head? ≠ some '.' := by
    rintro _ ⟨c, rest, rfl, start, _⟩ same
    obtain rfl := Option.some.inj same
    cases start
  have digits : ∀ {text : List Char} (more : List Char), IsDigits text →
      (text ++ more).head? ≠ some '.' := by
    intro text more ⟨some_, all⟩ same
    obtain ⟨c, text, rfl⟩ := List.exists_cons_of_ne_nil some_
    obtain rfl := Option.some.inj same
    cases all _ List.mem_cons_self
  cases kind with
  | keyword keyword => exact word ((show text = _ from h) ▸ keyword.isWord_spelling)
  | boolean => rcases h with rfl | rfl <;> decide
  | identifier => exact word h.1
  | integer => exact List.append_nil text ▸ digits [] h
  | decimal =>
      obtain ⟨whole, fraction, spells, _, rfl⟩ := h
      exact digits _ spells
  | string =>
      obtain ⟨tail, _, rfl⟩ := h
      simp
  | mark m =>
      obtain rfl : text = m.spelling.toList := h
      cases m <;> decide

theorem Spells.ne_nil (h : kind.Spells text) : text ≠ [] := by
  obtain ⟨c, more, rfl, _⟩ := Lexer.scan_of_spells h (endsBefore_nil kind)
  exact List.cons_ne_nil c more

end TokenKind

namespace IsGap

variable {gap rest rest' : List Char}

theorem congr (h : IsGap rest gap) (same : rest'.head? = rest.head?) : IsGap rest' gap := by
  induction h with
  | nil => exact .nil
  | blank blank _ ih => exact .blank blank ih
  | @comment body gap line ends _ ih =>
      refine .comment line ?_ ih
      rw [List.head?_append] at ends ⊢
      rwa [same]

theorem alone (h : IsGap rest gap) : IsGap [] gap := by
  induction h with
  | nil => exact .nil
  | blank blank _ ih => exact .blank blank ih
  | @comment body gap line ends _ ih =>
      refine .comment line ?_ ih
      intro c first
      refine ends c ?_
      rw [List.append_nil] at first
      rw [List.head?_append, first]
      rfl

theorem head?_ne (h : IsGap rest gap) : gap.head? ≠ some '.' := by
  cases h with
  | nil => simp
  | blank blank _ =>
      intro same
      obtain rfl := Option.some.inj same
      cases blank
  | comment => simp

end IsGap

namespace Lexer

variable {front rest rest' : List Char} {offset : Nat} {tokens : List Token}

theorem Reads.head?_ne (h : Reads rest offset front tokens) : front.head? ≠ some '.' := by
  cases h with
  | nil => simp
  | @cons _ gap text front kind tokens skipped spells ends more =>
      rw [List.head?_append, List.head?_append]
      cases gap with
      | nil =>
          obtain ⟨c, text, rfl⟩ := List.exists_cons_of_ne_nil spells.ne_nil
          exact spells.head?_ne
      | cons c gap => exact skipped.head?_ne

/-- Tokens are the same before anything else that lets the last of them end. -/
theorem Reads.before (h : Reads rest offset front tokens)
    (ends : ∀ kind : TokenKind, kind.EndsBefore rest → kind.EndsBefore rest') :
    Reads rest' offset front tokens := by
  induction h with
  | nil => exact .nil
  | @cons _ gap text front kind tokens skipped spells last more ih =>
      refine .cons ?_ spells ?_ ih
      · obtain ⟨c, text, rfl⟩ := List.exists_cons_of_ne_nil spells.ne_nil
        exact skipped.congr rfl
      · cases front with
        | nil => exact ends kind last
        | cons c front => exact last.congr rfl more.head?_ne

/-- What the lexer has read before it fails is what it reads of the text up to that place. -/
theorem lex_front_of_error {cs : List Char} {error : ParseError}
    (h : lex offset cs = .error error) : ∃ front rest tokens, cs = front ++ rest ∧
      offset + byteLength front = error.span.start ∧ lex offset front = .ok tokens := by
  obtain ⟨front, gap, rest, tokens, rfl, reads, isGap, start, _⟩ := exists_reads_of_error h
  have alone : Reads gap offset front tokens := by
    refine reads.before fun kind ends => ?_
    cases gap with
    | nil => exact kind.endsBefore_nil
    | cons c gap => exact ends.congr rfl isGap.head?_ne
  refine ⟨front ++ gap, rest, tokens, by rw [List.append_assoc], ?_, ?_⟩
  · rw [start, byteLength_append, Nat.add_assoc]
  · exact lex_eq_ok_iff.2 ⟨front, gap, rfl, alone, isGap.alone⟩

/-- Every token stands somewhere in the text, and ends where it must. -/
theorem Reads.exists_piece (h : Reads rest offset front tokens) {token : Token}
    (mem : token ∈ tokens) : ∃ before after, front = before ++ (token.text.toList ++ after) ∧
      token.span = ⟨offset + byteLength before,
        offset + byteLength before + byteLength token.text.toList⟩ ∧
      token.kind.Spells token.text.toList ∧ token.kind.EndsBefore (after ++ rest) := by
  induction h with
  | nil => cases mem
  | @cons offset gap text front kind tokens skipped spells ends more ih =>
      rcases List.mem_cons.1 mem with rfl | mem
      · refine ⟨gap, front, ?_, ?_, ?_, ends⟩
        · simp only [Token.ofPiece, String.toList_ofList]
        · simp only [Token.ofPiece, String.toList_ofList]
        · simpa only [Token.ofPiece, String.toList_ofList] using spells
      · obtain ⟨before, after, rfl, span, spells', ends'⟩ := ih mem
        refine ⟨gap ++ (text ++ before), after, ?_, ?_, spells', ends'⟩
        · simp only [List.append_assoc]
        · simpa only [byteLength_append, Nat.add_assoc] using span

theorem Reads.ordered (h : Reads rest offset front tokens) :
    tokens.Pairwise fun first second => first.span.stop ≤ second.span.start := by
  induction h with
  | nil => exact .nil
  | cons _ _ _ more ih =>
      refine .cons (fun token mem => ?_) ih
      obtain ⟨before, _, _, span, _⟩ := more.exists_piece mem
      rw [span]
      simp only [Token.ofPiece]
      omega

end Lexer

/-- A character of a text that is put together stands in one of the two parts. -/
theorem split_append {front rest before after : List Char} {c : Char}
    (h : front ++ rest = before ++ c :: after) :
    (∃ tail, front = before ++ c :: tail ∧ after = tail ++ rest) ∨
      ∃ lead, before = front ++ lead ∧ rest = lead ++ c :: after := by
  rcases List.append_eq_append_iff.1 h with ⟨lead, same, same'⟩ | ⟨tail, same, same'⟩
  · exact .inr ⟨lead, same, same'⟩
  · rcases List.cons_eq_append_iff.1 same' with ⟨rfl, rest⟩ | ⟨tail, rfl, after⟩
    · exact .inr ⟨[], by rw [List.append_nil] at same ⊢; exact same.symm, rest⟩
    · exact .inl ⟨tail, same, after⟩

/-- A comment that begins after `lead` holds the character `c` between `before` and `after`. It goes
up to the end of the line. -/
structure CommentAround (lead body before : List Char) (c : Char) (after : List Char) : Prop where
  pieces : ∃ inside tail rest, before = lead ++ inside ∧ after = tail ++ rest ∧
    '/' :: '/' :: body = inside ++ c :: tail ∧ ∀ d ∈ rest.head?, d = '\n'
  line : '\n' ∉ body

theorem CommentAround.append {lead body before after : List Char} {c : Char}
    (h : CommentAround lead body before c after) (front : List Char) :
    CommentAround (front ++ lead) body (front ++ before) c after := by
  obtain ⟨⟨inside, tail, rest, rfl, same, comment, ends⟩, line⟩ := h
  exact ⟨⟨inside, tail, rest, by rw [List.append_assoc], same, comment, ends⟩, line⟩

/-- A gap consists of blanks and comments. -/
theorem IsGap.blank_or_comment {gap rest before after : List Char} {c : Char} (h : IsGap rest gap)
    (split : gap = before ++ c :: after) :
    Lexer.isBlank c = true ∨ ∃ lead body, CommentAround lead body before c (after ++ rest) ∧
      byteLength lead + byteLength ('/' :: '/' :: body) ≤ byteLength gap := by
  induction h generalizing before with
  | nil => simp at split
  | @blank d gap blank more ih =>
      cases before with
      | nil =>
          obtain ⟨rfl, _⟩ := List.cons.inj split
          exact .inl blank
      | cons d' before =>
          rw [List.cons_append, List.cons.injEq] at split
          obtain ⟨rfl, split⟩ := split
          refine (ih split).imp_right ?_
          rintro ⟨lead, body, around, inside⟩
          exact ⟨d :: lead, body, around.append [d], by simpa [Nat.add_assoc] using inside⟩
  | @comment body gap line ends more ih =>
      change '/' :: '/' :: body ++ gap = _ at split
      rcases split_append split with ⟨tail, comment, rfl⟩ | ⟨lead, rfl, rfl⟩
      · refine .inr ⟨[], body, ⟨⟨before, tail, gap ++ rest, rfl, ?_, comment, ends⟩, line⟩, ?_⟩
        · rw [List.append_assoc]
        · simp [← Nat.add_assoc]
      · refine (ih rfl).imp_right ?_
        rintro ⟨lead', body', around, inside⟩
        refine ⟨_, body', around.append ('/' :: '/' :: body), ?_⟩
        simp only [byteLength_append, byteLength_cons] at inside ⊢
        omega

namespace Lexer

variable {front rest : List Char} {offset : Nat} {tokens : List Token}

/-- Between the tokens there are blanks and comments. -/
theorem Reads.blank_or_comment {before after : List Char} {c : Char}
    (h : Reads rest offset front tokens) (split : front = before ++ c :: after)
    (outside : ∀ t ∈ tokens, ¬ (t.span.start ≤ offset + byteLength before ∧
      offset + byteLength before < t.span.stop)) :
    isBlank c = true ∨ ∃ lead body, CommentAround lead body before c (after ++ rest) ∧
      ∀ t ∈ tokens, t.span.stop ≤ offset + byteLength lead ∨
        offset + byteLength lead + byteLength ('/' :: '/' :: body) ≤ t.span.start := by
  induction h generalizing before with
  | nil => simp at split
  | @cons offset gap text front kind tokens skipped spells ends more ih =>
      rcases split_append split with ⟨tail, inGap, rfl⟩ | ⟨lead, rfl, later⟩
      · have early : ∀ t ∈ Token.ofPiece kind text (offset + byteLength gap) :: tokens,
            offset + byteLength gap ≤ t.span.start := by
          intro t mem
          rcases List.mem_cons.1 mem with rfl | mem
          · exact Nat.le_refl _
          · obtain ⟨before', _, _, span, _⟩ := more.exists_piece mem
            rw [span]
            dsimp only
            omega
        refine (skipped.blank_or_comment inGap).imp_right ?_
        rintro ⟨lead, body, around, inside⟩
        refine ⟨lead, body, by simpa only [List.append_assoc] using around, fun t mem => .inr ?_⟩
        have := early t mem
        omega
      · rcases split_append later with ⟨tail, inText, rfl⟩ | ⟨lead', rfl, rfl⟩
        · have there := outside _ List.mem_cons_self
          have size := congrArg byteLength inText
          have positive := c.utf8Size_pos
          simp only [Token.ofPiece, byteLength_append, byteLength_cons] at there size
          omega
        · have shift : ∀ cs, offset + byteLength gap + byteLength text + byteLength cs =
              offset + byteLength (gap ++ (text ++ cs)) := by
            intro cs
            simp only [byteLength_append, Nat.add_assoc]
          refine (ih rfl fun t mem => ?_).imp_right ?_
          · rw [shift]
            exact outside t (List.mem_cons_of_mem _ mem)
          · rintro ⟨lead, body, around, apart⟩
            refine ⟨gap ++ (text ++ lead), body, (around.append text).append gap, fun t mem => ?_⟩
            rw [← shift]
            rcases List.mem_cons.1 mem with rfl | mem
            · exact .inl (Nat.le_add_right _ _)
            · exact apart t mem

end Lexer

namespace Source

/-- What it means that tokens split a source. -/
structure SplitInto (source : Source) (tokens : List Token) : Prop where
  /-- Spans are not empty, end where they should and cut out the texts of their tokens. -/
  nonempty : ∀ t ∈ tokens, t.span.start < t.span.stop
  holds : ∀ t ∈ tokens, source.Holds t.span
  slice : ∀ t ∈ tokens, source.slice? t.span = some t.text
  ordered : tokens.Pairwise fun first second => first.span.stop ≤ second.span.start
  /-- Outside of the tokens there are only blanks and comments. -/
  gaps : ∀ before c after, source.text.toList = before ++ c :: after →
    (∀ t ∈ tokens, ¬ (t.span.start ≤ byteLength before ∧ byteLength before < t.span.stop)) →
    Lexer.isBlank c = true ∨ ∃ lead body, CommentAround lead body before c after ∧
      ∀ t ∈ tokens, t.span.stop ≤ byteLength lead ∨
        byteLength lead + byteLength ('/' :: '/' :: body) ≤ t.span.start
  spells : ∀ t ∈ tokens, t.kind.Spells t.text.toList
  /-- No token could be longer. -/
  longest : ∀ t ∈ tokens, ∀ before rest, source.text.toList = before ++ rest →
    byteLength before = t.span.stop → t.kind.EndsBefore rest
  /-- What stands between the quotes of a string can be cut out. -/
  inner : ∀ t ∈ tokens, t.kind = .string → source.slice? ⟨t.span.start + 1, t.span.stop - 1⟩ =
    some (String.ofList (t.text.toList.drop 1).dropLast)

variable {source : Source} {tokens : List Token}

theorem SplitInto.of_reads {front gap : List Char} (text : source.text.toList = front ++ gap)
    (reads : Lexer.Reads gap 0 front tokens) (isGap : IsGap [] gap) : source.SplitInto tokens := by
  have piece : ∀ t ∈ tokens, ∃ before after, source.text.toList =
      before ++ (t.text.toList ++ after) ∧
      t.span = ⟨byteLength before, byteLength before + byteLength t.text.toList⟩ ∧
      t.kind.Spells t.text.toList ∧ t.kind.EndsBefore after := by
    intro t mem
    obtain ⟨before, after, rfl, span, spells, ends⟩ := reads.exists_piece mem
    refine ⟨before, after ++ gap, ?_, ?_, spells, ends⟩
    · rw [text, List.append_assoc, List.append_assoc]
    · rwa [Nat.zero_add] at span
  constructor
  case nonempty =>
    intro t mem
    obtain ⟨before, after, _, span, spells, _⟩ := piece t mem
    rw [span]
    exact Nat.lt_add_of_pos_right (byteLength_pos spells.ne_nil)
  case holds =>
    intro t mem
    obtain ⟨before, after, split, span, _⟩ := piece t mem
    rw [span]
    refine ⟨Nat.le_add_right _ _, ⟨before, _, split, rfl⟩, before ++ t.text.toList, after, ?_, ?_⟩
    · rw [split, List.append_assoc]
    · rw [byteLength_append]
  case slice =>
    intro t mem
    obtain ⟨before, after, split, span, _⟩ := piece t mem
    rw [span, ← t.text.ofList_toList]
    refine slice?_eq_some_iff.2 ⟨before, after, split, rfl, ?_⟩
    rw [String.ofList_toList]
  case ordered => exact reads.ordered
  case gaps =>
    intro before c after split outside
    rw [text] at split
    rcases split_append split with ⟨tail, inFront, rfl⟩ | ⟨lead, rfl, inGap⟩
    · simpa only [Nat.zero_add] using reads.blank_or_comment inFront
        (by simpa only [Nat.zero_add] using outside)
    · refine (isGap.blank_or_comment inGap).imp_right ?_
      rintro ⟨lead', body, around, inside⟩
      refine ⟨front ++ lead', body, ?_, fun t mem => .inl ?_⟩
      · rw [List.append_nil] at around
        exact around.append front
      · obtain ⟨before, after, rfl, span, _⟩ := reads.exists_piece mem
        rw [span]
        simp only [byteLength_append]
        omega
  case spells =>
    intro t mem
    obtain ⟨_, _, _, _, spells, _⟩ := piece t mem
    exact spells
  case longest =>
    intro t mem before rest split size
    obtain ⟨before', after, split', span, _, ends⟩ := piece t mem
    rw [split', ← List.append_assoc] at split
    rw [span, ← byteLength_append] at size
    rwa [(append_inj_of_byteLength split size.symm).2] at ends
  case inner =>
    intro t mem string
    obtain ⟨before, after, split, span, spells, _⟩ := piece t mem
    rw [string] at spells
    obtain ⟨tail, closes, quoted⟩ := spells
    obtain ⟨inside, rfl⟩ := List.getLast?_eq_some_iff.1 closes.last
    rw [span, quoted]
    refine slice?_eq_some_iff.2 ⟨before ++ ['"'], '"' :: after, ?_, ?_, ?_⟩
    · simp [split, quoted]
    · simp [show '"'.utf8Size = 1 from rfl]
    · simp [show '"'.utf8Size = 1 from rfl]
      omega

/-- Every source is split exactly: tokens, blanks and comments are all there is, every token has a
text of its kind and is as long as it can be, and its span cuts this text out. That is so too for
the tokens before a place where the lexer fails. -/
theorem tokens_split (source : Source) :
    match source.tokens with
    | .ok tokens => source.SplitInto tokens
    | .error error => ∃ front rest tokens, source.text.toList = front ++ rest ∧
        byteLength front = error.span.start ∧
        Source.tokens ⟨String.ofList front, source.origin⟩ = .ok tokens ∧
        ∀ t ∈ tokens, source.slice? t.span = some t.text := by
  cases lexed : source.tokens with
  | ok tokens =>
      obtain ⟨front, gap, text, reads, isGap⟩ := Lexer.lex_eq_ok_iff.1 lexed
      exact .of_reads text reads isGap
  | error error =>
      obtain ⟨front, rest, tokens, text, start, lexed⟩ := Lexer.lex_front_of_error lexed
      rw [Nat.zero_add] at start
      refine ⟨front, rest, tokens, text, start, ?_, fun t mem => ?_⟩
      · rw [Source.tokens, String.toList_ofList, lexed]
      · obtain ⟨front, gap, rfl, reads, _⟩ := Lexer.lex_eq_ok_iff.1 lexed
        obtain ⟨before, after, rfl, span, _⟩ := reads.exists_piece mem
        rw [span, Nat.zero_add, ← t.text.ofList_toList]
        refine slice?_eq_some_iff.2 ⟨before, after ++ (gap ++ rest), ?_, rfl, ?_⟩
        · simp only [text, List.append_assoc]
        · rw [String.ofList_toList]

end Source

end Rill
