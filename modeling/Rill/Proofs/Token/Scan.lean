import Mathlib.Data.List.TakeWhile
import Rill.Proofs.Source.Place
import Rill.Proofs.Token.Written

/-!
# Single tokens

Every kind of token has its texts, `TokenKind.Spells`, and where one ends there must be
nothing that would make it longer, `TokenKind.EndsBefore`. Between the tokens there are gaps
of blanks and comments, `IsGap`. These are said without the lexer. One step of the lexer
finds a gap or such a token (`Lexer.scan_cases`), and it finds any text of a token that
stands where it can end (`Lexer.scan_of_spells`).
-/

namespace Rill

open Lexer

/-- At least one digit and nothing else. -/
def IsDigits (text : List Char) : Prop :=
  text ≠ [] ∧ ∀ c ∈ text, c.isDigit = true

/-- A letter or underscore, and then letters, digits and underscores. -/
def IsWord (text : List Char) : Prop :=
  ∃ c rest, text = c :: rest ∧ isWordStart c = true ∧ ∀ d ∈ rest, isWordChar d = true

/-- What stands behind the opening quote of a literal: one line, in which a quote follows a
backslash just if it is not the closing quote at the end. -/
structure ClosesString (tail : List Char) : Prop where
  last : tail.getLast? = some '"'
  line : '\n' ∉ tail
  quote : ∀ front back, tail = front ++ '"' :: back → (front.getLast? = some '\\' ↔ back ≠ [])

namespace TokenKind

/-- The texts of the tokens of a kind. -/
def Spells : TokenKind → List Char → Prop
  | .keyword word, text => text = word.spelling.toList
  | .boolean, text => text = "true".toList ∨ text = "false".toList
  | .identifier, text => IsWord text ∧ (∀ word : Keyword, text ≠ word.spelling.toList) ∧
      text ≠ "true".toList ∧ text ≠ "false".toList
  | .integer, text => IsDigits text
  | .decimal, text =>
      ∃ whole fraction, IsDigits whole ∧ IsDigits fraction ∧ text = whole ++ '.' :: fraction
  | .string, text => ∃ tail, ClosesString tail ∧ text = '"' :: tail
  | .mark m, text => text = m.spelling.toList

/-- A token of the kind can end before `rest`: no longer text at this place is a token. -/
def EndsBefore : TokenKind → List Char → Prop
  | .keyword _, rest | .boolean, rest | .identifier, rest =>
      ∀ c ∈ rest.head?, isWordChar c = false
  | .integer, rest =>
      (∀ c ∈ rest.head?, c.isDigit = false) ∧ ∀ d more, rest = '.' :: d :: more → d.isDigit = false
  | .decimal, rest => ∀ c ∈ rest.head?, c.isDigit = false
  | .string, _ => True
  | .mark m, rest => ∀ c ∈ rest.head?, m.spelling.toList ++ [c] ≠ ['/', '/'] ∧
      ∀ longer : Mark, longer.spelling.toList ≠ m.spelling.toList ++ [c]

end TokenKind

section Runs

variable {α : Type} {p : α → Bool} {run more : List α}

theorem takeWhile_of_run (all : ∀ a ∈ run, p a = true) (stop : ∀ a ∈ more.head?, p a = false) :
    (run ++ more).takeWhile p = run := by
  rw [List.takeWhile_append_of_pos all]
  cases more with
  | nil => simp
  | cons a more => simp [stop a rfl]

theorem dropWhile_of_run (all : ∀ a ∈ run, p a = true) (stop : ∀ a ∈ more.head?, p a = false) :
    (run ++ more).dropWhile p = more := by
  rw [List.dropWhile_append_of_pos all]
  cases more with
  | nil => rfl
  | cons a more => simp [stop a rfl]

theorem head?_dropWhile_eq_false (p : α → Bool) (l : List α) :
    ∀ a ∈ (l.dropWhile p).head?, p a = false := by
  intro a first
  have stop := l.head?_dropWhile_not p
  rw [Option.mem_def.1 first] at stop
  exact stop

end Runs

namespace Keyword

theorem ofSpelling?_eq_some_iff {word : String} {keyword : Keyword} :
    ofSpelling? word = some keyword ↔ word = keyword.spelling := by
  constructor
  · intro found
    have same := List.find?_some found
    exact (beq_iff_eq.1 same).symm
  · rintro rfl
    cases keyword <;> decide

theorem isWord_spelling (keyword : Keyword) : IsWord keyword.spelling.toList := by
  cases keyword <;> exact ⟨_, _, rfl, rfl, List.all_eq_true.1 rfl⟩

end Keyword

namespace Lexer

/-- Every word is a token of just one kind. -/
theorem spells_wordKind {text : List Char} (h : IsWord text) :
    (wordKind (String.ofList text)).Spells text := by
  rw [wordKind]
  split
  · next keyword found =>
    have same := Keyword.ofSpelling?_eq_some_iff.1 found
    change text = keyword.spelling.toList
    rw [← same, String.toList_ofList]
  · next other =>
    split
    · next truth =>
      rw [Bool.or_eq_true, beq_iff_eq, beq_iff_eq] at truth
      rcases truth with same | same
      · exact .inl (by rw [← same, String.toList_ofList])
      · exact .inr (by rw [← same, String.toList_ofList])
    · next truth =>
      rw [Bool.or_eq_true, beq_iff_eq, beq_iff_eq, not_or] at truth
      refine ⟨h, fun word same => ?_, fun same => truth.1 ?_, fun same => truth.2 ?_⟩
      · rw [same, String.ofList_toList, Keyword.ofSpelling?_eq_some_iff.2 rfl] at other
        cases other
      · rw [same, String.ofList_toList]
      · rw [same, String.ofList_toList]

theorem endsBefore_wordKind {word : String} {rest : List Char} :
    (wordKind word).EndsBefore rest ↔ ∀ c ∈ rest.head?, isWordChar c = false := by
  rw [wordKind]
  split
  · rfl
  · split
    · rfl
    · rfl

theorem wordKind_keyword (keyword : Keyword) : wordKind keyword.spelling = .keyword keyword := by
  rw [wordKind, Keyword.ofSpelling?_eq_some_iff.2 rfl]

theorem wordKind_identifier {text : List Char} (h : TokenKind.identifier.Spells text) :
    wordKind (String.ofList text) = .identifier := by
  obtain ⟨_, plain, notTrue, notFalse⟩ := h
  rw [wordKind]
  split
  · next keyword found =>
    have same := Keyword.ofSpelling?_eq_some_iff.1 found
    exact absurd (by rw [← same, String.toList_ofList]) (plain keyword)
  · rw [if_neg]
    rw [Bool.or_eq_true, beq_iff_eq, beq_iff_eq]
    rintro (same | same)
    · exact notTrue (by rw [← same, String.toList_ofList])
    · exact notFalse (by rw [← same, String.toList_ofList])

end Lexer

namespace ClosesString

variable {c : Char} {front tail : List Char}

theorem getLast?_cons_eq_iff (plain : c ≠ '\\') :
    (c :: front).getLast? = some '\\' ↔ front.getLast? = some '\\' := by
  cases front with
  | nil => simp [plain]
  | cons d front => rw [List.getLast?_cons_cons]

theorem ne_nil (h : ClosesString tail) : tail ≠ [] := by
  rintro rfl
  cases h.last

theorem getLast?_cons (h : ClosesString tail) : (c :: tail).getLast? = some '"' := by
  rw [List.getLast?_cons, h.last]
  rfl

theorem nil : ClosesString ['"'] where
  last := rfl
  line := by decide
  quote front back split := by
    cases front with
    | nil => simp_all
    | cons c front => simp at split

/-- A character that is no quote and escapes none can be put in front. -/
theorem cons (h : ClosesString tail) (quote : c ≠ '"') (feed : c ≠ '\n')
    (other : c = '\\' → tail.head? ≠ some '"') : ClosesString (c :: tail) where
  last := h.getLast?_cons
  line := by
    rw [List.mem_cons, not_or]
    exact ⟨feed.symm, h.line⟩
  quote front back split := by
    cases front with
    | nil => exact absurd (List.cons.inj split).1 quote
    | cons d front =>
        rw [List.cons_append, List.cons.injEq] at split
        obtain ⟨rfl, split⟩ := split
        rw [← h.quote front back split]
        cases front with
        | nil =>
            have plain : c ≠ '\\' := fun slash => other slash (by rw [split]; rfl)
            exact getLast?_cons_eq_iff plain
        | cons d front => rw [List.getLast?_cons_cons]

/-- An escaped quote can be put in front. -/
theorem escaped (h : ClosesString tail) : ClosesString ('\\' :: '"' :: tail) where
  last := by rw [List.getLast?_cons_cons, h.getLast?_cons]
  line := by simpa using h.line
  quote front back split := by
    cases front with
    | nil => cases (List.cons.inj split).1
    | cons c front =>
        rw [List.cons_append, List.cons.injEq] at split
        obtain ⟨rfl, split⟩ := split
        cases front with
        | nil =>
            obtain ⟨_, rfl⟩ := List.cons.inj split
            exact iff_of_true rfl h.ne_nil
        | cons d front =>
            rw [List.cons_append, List.cons.injEq] at split
            obtain ⟨rfl, split⟩ := split
            rw [← h.quote front back split, List.getLast?_cons_cons]
            exact getLast?_cons_eq_iff (by decide)

/-- What stands behind the first character closes the string as well, if that is neither a quote
nor a backslash before one. -/
theorem of_cons (h : ClosesString (c :: tail)) (quote : c ≠ '"')
    (other : c = '\\' → tail.head? ≠ some '"') : ClosesString tail where
  last := by
    cases tail with
    | nil => exact absurd (Option.some.inj h.last) quote
    | cons d tail => rw [← h.last, List.getLast?_cons_cons]
  line := fun feed => h.line (List.mem_cons_of_mem c feed)
  quote front back split := by
    rw [← h.quote (c :: front) back (by rw [split, List.cons_append])]
    cases front with
    | nil =>
        have plain : c ≠ '\\' := fun slash => other slash (by rw [split]; rfl)
        exact (getLast?_cons_eq_iff plain).symm
    | cons d front => rw [List.getLast?_cons_cons]

theorem of_escaped (h : ClosesString ('\\' :: '"' :: tail)) : ClosesString tail where
  last := by
    have more : tail ≠ [] := (h.quote ['\\'] tail rfl).1 rfl
    cases tail with
    | nil => exact absurd rfl more
    | cons d tail => rw [← h.last, List.getLast?_cons_cons, List.getLast?_cons_cons]
  line := fun feed => h.line (List.mem_cons_of_mem _ (List.mem_cons_of_mem _ feed))
  quote front back split := by
    rw [← h.quote ('\\' :: '"' :: front) back (by rw [split]; rfl), List.getLast?_cons_cons]
    exact (getLast?_cons_eq_iff (by decide)).symm

end ClosesString

namespace Lexer

attribute [local simp] stringTail

/-- The characters of a string literal are found up to its closing quote. -/
theorem stringTail_append (cs : List Char) : ∃ rest, cs = (stringTail cs).1 ++ rest ∧
    ((stringTail cs).2 = .closed → ClosesString (stringTail cs).1) := by
  fun_induction stringTail cs with
  | case1 => exact ⟨[], rfl, nofun⟩
  | case2 rest => exact ⟨'\n' :: rest, rfl, nofun⟩
  | case3 rest => exact ⟨rest, rfl, fun _ => .nil⟩
  | case4 rest text ending found ih =>
      obtain ⟨more, same, closes⟩ := ih
      rw [found] at same closes
      exact ⟨more, by rw [same]; rfl, fun closed => (closes closed).escaped⟩
  | case5 c rest feed quote escape text ending found ih =>
      obtain ⟨more, same, closes⟩ := ih
      rw [found] at same closes
      refine ⟨more, by rw [same]; rfl, fun closed => (closes closed).cons quote feed ?_⟩
      intro slash first
      cases text with
      | nil => cases first
      | cons d text =>
          obtain rfl := Option.some.inj first
          exact escape _ slash same

/-- Nothing behind the closing quote is looked at. -/
theorem stringTail_of_closes {tail : List Char} (h : ClosesString tail) (rest : List Char) :
    stringTail (tail ++ rest) = (tail, .closed) := by
  fun_induction stringTail tail with
  | case1 => exact absurd rfl h.ne_nil
  | case2 => exact absurd List.mem_cons_self h.line
  | case3 more =>
      have last : more = [] := by
        by_contra more
        cases (h.quote [] _ rfl).2 more
      subst last
      simp
  | case4 more text ending found ih => simp [ih h.of_escaped]
  | case5 c more feed quote escape text ending found ih =>
      have other : c = '\\' → more.head? ≠ some '"' := by
        intro slash first
        cases more with
        | nil => cases first
        | cons d more =>
            obtain rfl := Option.some.inj first
            exact escape more slash rfl
      have closes := h.of_cons quote other
      obtain ⟨d, more, rfl⟩ := List.exists_cons_of_ne_nil closes.ne_nil
      have step : stringTail (c :: (d :: more ++ rest)) =
          (c :: (stringTail (d :: more ++ rest)).1, (stringTail (d :: more ++ rest)).2) := by
        by_cases slash : c = '\\'
        · subst slash
          exact stringTail_backslash (other rfl)
        · exact stringTail_plain slash quote feed _
      rw [List.cons_append, step, ih closes]

theorem number_integer {text rest : List Char} (spells : IsDigits text)
    (ends : TokenKind.integer.EndsBefore rest) : number (text ++ rest) = (.integer, text) := by
  simp only [number, takeWhile_of_run spells.2 ends.1, dropWhile_of_run spells.2 ends.1]
  split
  · next d more =>
    rw [ends.2 d more rfl]
    rfl
  · rfl

theorem number_decimal {whole fraction rest : List Char} (spells : IsDigits whole)
    (spells' : IsDigits fraction) (ends : TokenKind.decimal.EndsBefore rest) :
    number (whole ++ '.' :: fraction ++ rest) = (.decimal, whole ++ '.' :: fraction) := by
  obtain ⟨d, fraction, rfl⟩ := List.exists_cons_of_ne_nil spells'.1
  have digit := spells'.2 d List.mem_cons_self
  have dot : ∀ c ∈ ('.' :: d :: (fraction ++ rest)).head?, c.isDigit = false := by
    rintro _ ⟨⟩
    rfl
  have run : (d :: (fraction ++ rest)).takeWhile Char.isDigit = d :: fraction :=
    takeWhile_of_run spells'.2 ends
  rw [List.append_assoc]
  simp only [List.cons_append, number, takeWhile_of_run spells.2 dot, dropWhile_of_run spells.2 dot,
    digit, if_true, run]

/-- A digit begins a number. -/
theorem exists_number {c : Char} (rest : List Char) (digit : c.isDigit = true) :
    ∃ kind text more, number (c :: rest) = (kind, text) ∧ c :: rest = text ++ more ∧ text ≠ [] ∧
      kind.Spells text ∧ kind.EndsBefore more := by
  have spells : IsDigits ((c :: rest).takeWhile Char.isDigit) :=
    ⟨by simp [digit], fun _ => List.mem_takeWhile_imp⟩
  have stop := head?_dropWhile_eq_false Char.isDigit (c :: rest)
  have split := List.takeWhile_append_dropWhile (p := Char.isDigit) (l := c :: rest)
  generalize (c :: rest).takeWhile Char.isDigit = whole at *
  generalize (c :: rest).dropWhile Char.isDigit = after at *
  rw [← split]
  by_cases dotted : ∃ d more, after = '.' :: d :: more ∧ d.isDigit = true
  · obtain ⟨d, more, rfl, fraction⟩ := dotted
    have spells' : IsDigits ((d :: more).takeWhile Char.isDigit) :=
      ⟨by simp [fraction], fun _ => List.mem_takeWhile_imp⟩
    have stop' := head?_dropWhile_eq_false Char.isDigit (d :: more)
    have split' := List.takeWhile_append_dropWhile (p := Char.isDigit) (l := d :: more)
    have whole' : whole ++ '.' :: d :: more = whole ++ '.' :: (d :: more).takeWhile Char.isDigit ++
        (d :: more).dropWhile Char.isDigit := by
      rw [List.append_assoc, List.cons_append, split']
    rw [whole', number_decimal spells spells' stop']
    exact ⟨_, _, _, rfl, rfl, by simp, ⟨_, _, spells, spells', rfl⟩, stop'⟩
  · have ends : TokenKind.integer.EndsBefore after := by
      refine ⟨stop, fun d more same => ?_⟩
      exact Bool.eq_false_iff.2 fun digit => dotted ⟨d, more, same, digit⟩
    rw [number_integer spells ends]
    exact ⟨_, _, _, rfl, rfl, spells.1, spells, ends⟩

end Lexer

namespace Mark

variable {m : Mark} {c d : Char}

theorem ofPair?_eq_some_iff : ofPair? c d = some m ↔ m.spelling.toList = [c, d] := by
  constructor
  · intro h
    unfold ofPair? at h
    split at h <;> cases h <;> rfl
  · intro h
    cases m <;> simp [spelling] at h <;> obtain ⟨rfl, rfl⟩ := h <;> rfl

theorem ofChar?_eq_some_iff : ofChar? c = some m ↔ m.spelling.toList = [c] := by
  constructor
  · intro h
    unfold ofChar? at h
    split at h <;> cases h <;> rfl
  · intro h
    cases m <;> simp [spelling] at h <;> subst h <;> rfl

theorem ofPair?_eq_none_iff :
    ofPair? c d = none ↔ ∀ longer : Mark, longer.spelling.toList ≠ [c, d] := by
  rw [Option.eq_none_iff_forall_ne_some]
  exact forall_congr' fun longer => not_congr ofPair?_eq_some_iff

/-- A mark has one or two characters. -/
theorem spelling_cases (m : Mark) :
    (∃ c, m.spelling.toList = [c]) ∨ ∃ c d, m.spelling.toList = [c, d] := by
  cases m
  case arrow | andAnd | orOr | equalEqual | bangEqual | lessEqual | greaterEqual =>
    exact .inr ⟨_, _, rfl⟩
  all_goals exact .inl ⟨_, rfl⟩

/-- Nothing but a mark begins as a mark does, and a comment, if it begins as a division. -/
theorem spelling_first (h : m.spelling.toList.head? = some c) : Lexer.isBlank c = false ∧
    c ≠ '"' ∧ c.isDigit = false ∧ Lexer.isWordStart c = false := by
  cases m <;> obtain rfl := Option.some.inj h <;> decide

theorem endsBefore_of_pair (h : m.spelling.toList = [c, d]) (rest : List Char) :
    (TokenKind.mark m).EndsBefore rest := by
  intro x _
  rw [h]
  refine ⟨by simp, fun longer same => ?_⟩
  rcases longer.spelling_cases with ⟨a, single⟩ | ⟨a, b, pair⟩
  · simp [single] at same
  · simp [pair] at same

theorem spelling_ne_slashes (m : Mark) : m.spelling.toList ≠ ['/', '/'] := by
  cases m <;> decide

end Mark

/-- Blanks and comments in front of `rest`. A comment goes on up to the end of its line. -/
inductive IsGap (rest : List Char) : List Char → Prop
  | nil : IsGap rest []
  | blank {c : Char} {gap : List Char} (blank : isBlank c = true) (more : IsGap rest gap) :
      IsGap rest (c :: gap)
  | comment {body gap : List Char} (line : '\n' ∉ body)
      (ends : ∀ c ∈ (gap ++ rest).head?, c = '\n') (more : IsGap rest gap) :
      IsGap rest ('/' :: '/' :: (body ++ gap))

namespace IsGap

variable {gap gap' rest : List Char}

theorem append (first : IsGap (gap' ++ rest) gap) (second : IsGap rest gap') :
    IsGap rest (gap ++ gap') := by
  induction first with
  | nil => exact second
  | blank blank _ ih => exact .blank blank ih
  | comment line ends _ ih =>
      rw [List.cons_append, List.cons_append, List.append_assoc]
      refine .comment line ?_ ih
      rwa [List.append_assoc]

theorem of_blanks (h : ∀ c ∈ gap, isBlank c = true) : IsGap rest gap := by
  induction gap with
  | nil => exact .nil
  | cons c gap ih =>
      rw [List.forall_mem_cons] at h
      exact .blank h.1 (ih h.2)

end IsGap

namespace Lexer

theorem eq_of_isBlank {c : Char} (h : isBlank c = true) :
    c = ' ' ∨ c = '\t' ∨ c = '\n' ∨ c = '\x0c' ∨ c = '\r' := by
  simpa only [isBlank, Bool.or_eq_true, beq_iff_eq, or_assoc] using h

theorem scan_quote (rest : List Char) :
    scan '"' rest =
      match stringTail rest with
      | (text, .closed) => .token .string ('"' :: text)
      | (text, .atLineEnd) => .failure .lineEndsInString ('"' :: text)
      | (text, .atFileEnd) => .failure .fileEndsInString ('"' :: text) := by
  simp only [scan]
  rfl

theorem scan_digit {c : Char} (digit : c.isDigit = true) (rest : List Char) :
    scan c rest = .token (number (c :: rest)).1 (number (c :: rest)).2 := by
  have blank : isBlank c = false := by
    by_contra blank
    rcases eq_of_isBlank (Bool.not_eq_false _ ▸ blank) with rfl | rfl | rfl | rfl | rfl <;>
      cases digit
  have slash : (c == '/') = false := by
    rw [beq_eq_false_iff_ne]
    rintro rfl
    cases digit
  have quote : (c == '"') = false := by
    rw [beq_eq_false_iff_ne]
    rintro rfl
    cases digit
  simp only [scan, blank, slash, quote, digit, Bool.false_and, Bool.false_eq_true, if_false,
    if_true]

theorem scan_wordStart {c : Char} (start : isWordStart c = true) (rest : List Char) :
    scan c rest = .token (wordKind (String.ofList (c :: rest.takeWhile isWordChar)))
      (c :: rest.takeWhile isWordChar) := by
  have blank : isBlank c = false := by
    by_contra blank
    rcases eq_of_isBlank (Bool.not_eq_false _ ▸ blank) with rfl | rfl | rfl | rfl | rfl <;>
      cases start
  have slash : (c == '/') = false := by
    rw [beq_eq_false_iff_ne]
    rintro rfl
    cases start
  have quote : (c == '"') = false := by
    rw [beq_eq_false_iff_ne]
    rintro rfl
    cases start
  have digit : c.isDigit = false := by
    by_contra digit
    change (decide (c.val ≥ 'A'.val ∧ c.val ≤ 'Z'.val) ||
      (decide (c.val ≥ 'a'.val) && decide (c.val ≤ 'z'.val)) || c == '_') = true at start
    simp only [Char.isDigit, Bool.not_eq_false, Bool.or_eq_true, Bool.and_eq_true,
      decide_eq_true_eq, beq_iff_eq, UInt32.le_iff_toNat_le, ge_iff_le] at start digit
    rcases start with letter | rfl
    · simp at letter digit
      omega
    · simp at digit
  simp only [scan, blank, slash, quote, digit, start, Bool.false_and, Bool.false_eq_true, if_false,
    if_true]

theorem scan_mark {c : Char} {rest : List Char} (blank : isBlank c = false)
    (comment : (c == '/' && rest.head? == some '/') = false) (quote : c ≠ '"')
    (digit : c.isDigit = false) (start : isWordStart c = false) :
    scan c rest =
      match rest.head?.bind fun d => (Mark.ofPair? c d).map (·, d) with
      | some (mark, d) => .token (.mark mark) [c, d]
      | none =>
        match Mark.ofChar? c with
        | some mark => .token (.mark mark) [c]
        | none => .failure (.strayCharacter c) [c] := by
  have quote : (c == '"') = false := beq_eq_false_iff_ne.2 quote
  refine (if_neg (ne_true_of_eq_false blank)).trans ?_
  refine (if_neg (ne_true_of_eq_false comment)).trans ?_
  refine (if_neg (ne_true_of_eq_false quote)).trans ?_
  refine (if_neg (ne_true_of_eq_false digit)).trans ?_
  exact if_neg (ne_true_of_eq_false start)

/-- What the lexer finds at a character: a gap, a token that ends where it must, or neither. -/
theorem scan_cases (c : Char) (rest : List Char) :
    (∃ gap more, scan c rest = .skipped gap ∧ c :: rest = gap ++ more ∧ gap ≠ [] ∧
        IsGap more gap) ∨
      (∃ kind text more, scan c rest = .token kind text ∧ c :: rest = text ++ more ∧ text ≠ [] ∧
        kind.Spells text ∧ kind.EndsBefore more) ∨
      ∃ cause text more, scan c rest = .failure cause text ∧ c :: rest = text ++ more ∧
        text ≠ [] := by
  by_cases blank : isBlank c = true
  · refine .inl ⟨c :: rest.takeWhile isBlank, rest.dropWhile isBlank, ?_, ?_, by simp, ?_⟩
    · simp only [scan, blank, if_true]
    · rw [List.cons_append, List.takeWhile_append_dropWhile]
    · exact .blank blank (.of_blanks fun _ => List.mem_takeWhile_imp)
  by_cases comment : (c == '/' && rest.head? == some '/') = true
  · simp only [Bool.and_eq_true, beq_iff_eq] at comment
    obtain ⟨rfl, first⟩ := comment
    obtain ⟨more, rfl⟩ := List.head?_eq_some_iff.1 first
    refine .inl ⟨'/' :: '/' :: more.takeWhile (· != '\n'), more.dropWhile (· != '\n'), ?_, ?_,
      by simp, ?_⟩
    · simp [scan, isBlank]
    · rw [List.cons_append, List.cons_append, List.takeWhile_append_dropWhile]
    · have body : '\n' ∉ more.takeWhile (· != '\n') := by
        intro feed
        simpa using List.mem_takeWhile_imp feed
      have ends : ∀ d ∈ (more.dropWhile (· != '\n')).head?, d = '\n' := by
        intro d first
        simpa using head?_dropWhile_eq_false _ _ d first
      simpa using IsGap.comment body ends .nil
  by_cases quote : c = '"'
  · subst quote
    obtain ⟨more, same, closes⟩ := stringTail_append rest
    rw [scan_quote]
    cases found : stringTail rest with
    | mk tail ending =>
        rw [found] at same closes
        have split : '"' :: rest = '"' :: tail ++ more := by rw [same]; rfl
        cases ending with
        | closed =>
            exact .inr (.inl ⟨_, _, more, rfl, split, by simp, ⟨_, closes rfl, rfl⟩, trivial⟩)
        | atLineEnd => exact .inr (.inr ⟨_, _, more, rfl, split, by simp⟩)
        | atFileEnd => exact .inr (.inr ⟨_, _, more, rfl, split, by simp⟩)
  by_cases digit : c.isDigit = true
  · obtain ⟨kind, text, more, found, split, some_, spells, ends⟩ := exists_number rest digit
    rw [scan_digit digit, found]
    exact .inr (.inl ⟨kind, text, more, rfl, split, some_, spells, ends⟩)
  by_cases start : isWordStart c = true
  · have word : IsWord (c :: rest.takeWhile isWordChar) :=
      ⟨c, _, rfl, start, fun _ => List.mem_takeWhile_imp⟩
    rw [scan_wordStart start]
    refine .inr (.inl ⟨_, _, rest.dropWhile isWordChar, rfl, ?_, by simp, spells_wordKind word,
      endsBefore_wordKind.2 (head?_dropWhile_eq_false _ _)⟩)
    rw [List.cons_append, List.takeWhile_append_dropWhile]
  rw [Bool.not_eq_true] at blank comment digit start
  rw [scan_mark blank comment quote digit start]
  cases rest with
  | nil =>
      cases single : Mark.ofChar? c with
      | none => exact .inr (.inr ⟨_, [c], [], rfl, rfl, by simp⟩)
      | some m =>
          have spelled := Mark.ofChar?_eq_some_iff.1 single
          refine .inr (.inl ⟨_, [c], [], rfl, rfl, by simp, spelled.symm, ?_⟩)
          rintro _ ⟨⟩
  | cons d rest =>
      cases pair : Mark.ofPair? c d with
      | some m =>
          have spelled := Mark.ofPair?_eq_some_iff.1 pair
          simp only [List.head?_cons, Option.bind_some, pair, Option.map_some]
          refine .inr (.inl ⟨_, [c, d], rest, rfl, rfl, by simp, spelled.symm, ?_⟩)
          exact Mark.endsBefore_of_pair spelled rest
      | none =>
          simp only [List.head?_cons, Option.bind_some, pair, Option.map_none]
          cases single : Mark.ofChar? c with
          | none => exact .inr (.inr ⟨_, [c], d :: rest, rfl, rfl, by simp⟩)
          | some m =>
              have spelled := Mark.ofChar?_eq_some_iff.1 single
              refine .inr (.inl ⟨_, [c], d :: rest, rfl, rfl, by simp, spelled.symm, ?_⟩)
              rintro _ ⟨⟩
              rw [spelled]
              refine ⟨?_, Mark.ofPair?_eq_none_iff.1 pair⟩
              rintro same
              simp_all

/-- A word is found whole if no character of a word follows. -/
theorem scan_word {text rest : List Char} (word : IsWord text)
    (ends : ∀ c ∈ rest.head?, isWordChar c = false) : ∃ c more, text = c :: more ∧
      scan c (more ++ rest) = .token (wordKind (String.ofList text)) text := by
  obtain ⟨c, more, rfl, start, all⟩ := word
  refine ⟨c, more, rfl, ?_⟩
  rw [scan_wordStart start, takeWhile_of_run all ends]

/-- The text of a token is found where it can end. -/
theorem scan_of_spells {kind : TokenKind} {text rest : List Char} (spells : kind.Spells text)
    (ends : kind.EndsBefore rest) : ∃ c more, text = c :: more ∧
      scan c (more ++ rest) = .token kind text := by
  cases kind with
  | keyword word =>
      obtain rfl : text = word.spelling.toList := spells
      have found := scan_word word.isWord_spelling ends
      rwa [String.ofList_toList, wordKind_keyword] at found
  | boolean =>
      rcases spells with rfl | rfl
      · exact scan_word ⟨_, _, rfl, rfl, List.all_eq_true.1 rfl⟩ ends
      · exact scan_word ⟨_, _, rfl, rfl, List.all_eq_true.1 rfl⟩ ends
  | identifier =>
      have found := scan_word spells.1 ends
      rwa [wordKind_identifier spells] at found
  | integer =>
      have digits : IsDigits text := spells
      have found := number_integer digits ends
      obtain ⟨c, more, rfl⟩ := List.exists_cons_of_ne_nil digits.1
      refine ⟨c, more, rfl, ?_⟩
      rw [List.cons_append] at found
      rw [scan_digit (digits.2 c List.mem_cons_self), found]
  | decimal =>
      obtain ⟨whole, fraction, digits, digits', rfl⟩ := spells
      have found := number_decimal digits digits' ends
      obtain ⟨c, more, rfl⟩ := List.exists_cons_of_ne_nil digits.1
      refine ⟨c, more ++ '.' :: fraction, rfl, ?_⟩
      rw [List.cons_append, List.cons_append] at found
      rw [scan_digit (digits.2 c List.mem_cons_self), found, List.cons_append]
  | string =>
      obtain ⟨tail, closes, rfl⟩ := spells
      refine ⟨'"', tail, rfl, ?_⟩
      rw [scan_quote, stringTail_of_closes closes]
  | mark m =>
      obtain rfl : text = m.spelling.toList := spells
      rcases m.spelling_cases with ⟨c, spelled⟩ | ⟨c, d, spelled⟩
      · obtain ⟨blank, quote, digit, start⟩ :=
          m.spelling_first (c := c) (by rw [spelled]; rfl)
        refine ⟨c, [], spelled, ?_⟩
        have single := Mark.ofChar?_eq_some_iff.2 spelled
        rw [List.nil_append, spelled]
        cases rest with
        | nil =>
            rw [scan_mark blank (by simp) quote digit start]
            simp [single]
        | cons d rest =>
            obtain ⟨comment, longer⟩ := ends d rfl
            rw [spelled] at comment longer
            have pair := Mark.ofPair?_eq_none_iff.2 longer
            rw [scan_mark blank (by simpa using comment) quote digit start]
            simp [single, pair]
      · obtain ⟨blank, quote, digit, start⟩ :=
          m.spelling_first (c := c) (by rw [spelled]; rfl)
        refine ⟨c, [d], spelled, ?_⟩
        have comment := m.spelling_ne_slashes
        have pair := Mark.ofPair?_eq_some_iff.2 spelled
        rw [spelled] at comment ⊢
        rw [List.cons_append, scan_mark blank (by simpa using comment) quote digit start]
        simp [pair]

end Lexer

end Rill
