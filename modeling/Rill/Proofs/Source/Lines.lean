import Rill.Proofs.Source.Place

/-!
# Lines

The lines of a source are what stands between its line feeds. The row and the column of a place are
found by searching the characters before it for line feeds, and the line that a report quotes by
searching on both sides. They denote one place: the row is the number of the quoted line, and the
column is the distance from its beginning.
-/

namespace Rill.Source

/-- The first line ends where the characters end, or at a line feed. -/
theorem firstLine_split (cs : List Char) :
    '\n' ∉ firstLine cs ∧ (cs = firstLine cs ∨ ∃ rest, cs = firstLine cs ++ '\n' :: rest) := by
  induction cs with
  | nil => exact ⟨List.not_mem_nil, .inl rfl⟩
  | cons c cs ih =>
      by_cases feed : c = '\n'
      · have none : firstLine (c :: cs) = [] := by simp [firstLine, feed]
        rw [none, feed]
        exact ⟨List.not_mem_nil, .inr ⟨cs, rfl⟩⟩
      · have more : firstLine (c :: cs) = c :: firstLine cs := by simp [firstLine, feed]
        obtain ⟨clean, ends⟩ := ih
        rw [more]
        refine ⟨fun mem => ?_, ends.imp (congrArg (c :: ·)) ?_⟩
        · rcases List.mem_cons.1 mem with same | mem
          · exact feed same.symm
          · exact clean mem
        · rintro ⟨rest, split⟩
          exact ⟨rest, congrArg (c :: ·) split⟩

/-- The last line begins where the characters begin, or behind a line feed. -/
theorem lastLine_split (cs : List Char) :
    '\n' ∉ lastLine cs ∧ (cs = lastLine cs ∨ ∃ front, cs = front ++ '\n' :: lastLine cs) := by
  have mirrored : lastLine cs = (firstLine cs.reverse).reverse := rfl
  obtain ⟨clean, ends⟩ := firstLine_split cs.reverse
  rw [mirrored]
  refine ⟨fun mem => clean (List.mem_reverse.1 mem), ends.imp (fun split => ?_) ?_⟩
  · rw [← split, List.reverse_reverse]
  · rintro ⟨rest, split⟩
    refine ⟨rest.reverse, ?_⟩
    have back := congrArg List.reverse split
    rwa [List.reverse_reverse, List.reverse_append, List.reverse_cons, List.append_assoc] at back

/-- One character more goes to the first line, or ends a line before it. -/
theorem splitOn_cons (c : Char) (cs : List Char) : ∃ line rest,
    cs.splitOn '\n' = line :: rest ∧
      (c :: cs).splitOn '\n' = if c = '\n' then [] :: line :: rest else (c :: line) :: rest := by
  cases lines : cs.splitOn '\n' with
  | nil => exact absurd lines (List.splitOn_ne_nil '\n' cs)
  | cons line rest =>
      refine ⟨line, rest, rfl, ?_⟩
      rw [List.splitOn_eq_splitOnP] at lines ⊢
      rw [List.splitOnP_cons_eq_if_modifyHead, lines]
      simp

/-- The bytes of these lines, each with its line feed. -/
def linesLength : List (List Char) → Nat
  | [] => 0
  | line :: lines => byteLength line + 1 + linesLength lines

theorem length_splitOn (cs : List Char) :
    (cs.splitOn '\n').length = cs.count '\n' + 1 := by
  induction cs with
  | nil => rfl
  | cons c cs ih =>
      obtain ⟨line, rest, lines, more⟩ := splitOn_cons c cs
      rw [lines] at ih
      rw [more]
      by_cases feed : c = '\n'
      · rw [if_pos feed, feed, List.count_cons_self, List.length_cons, ih]
      · rw [if_neg feed, List.count_cons_of_ne feed]
        exact ih

theorem linesLength_splitOn (cs : List Char) :
    linesLength (cs.splitOn '\n') = byteLength cs + 1 := by
  induction cs with
  | nil => rfl
  | cons c cs ih =>
      obtain ⟨line, rest, lines, more⟩ := splitOn_cons c cs
      rw [lines, linesLength] at ih
      rw [more, byteLength_cons]
      by_cases feed : c = '\n'
      · have size : ('\n').utf8Size = 1 := rfl
        rw [if_pos feed, linesLength, linesLength, ih, feed, size, byteLength_nil]
        omega
      · rw [if_neg feed, linesLength, byteLength_cons]
        omega

/-- A line without line feeds in front of some characters. -/
theorem splitOn_append {line : List Char} (clean : '\n' ∉ line) (cs : List Char) : ∃ later,
    (line ++ cs).splitOn '\n' = (line ++ firstLine cs) :: later := by
  obtain ⟨clean', ends⟩ := firstLine_split cs
  generalize firstLine cs = first at clean' ends ⊢
  have clean'' : '\n' ∉ line ++ first := fun mem => (List.mem_append.1 mem).elim clean clean'
  rcases ends with rfl | ⟨rest, rfl⟩
  · exact ⟨[], List.splitOn_eq_singleton clean''⟩
  · refine ⟨rest.splitOn '\n', ?_⟩
    rw [← List.append_assoc, List.splitOn_append_cons_self, List.splitOn_eq_singleton clean'']
    rfl

/-- The line around a place, the lines before it and those behind. -/
theorem exists_splitOn (before after : List Char) : ∃ earlier later,
    (before ++ after).splitOn '\n' = earlier ++ (lastLine before ++ firstLine after) :: later ∧
      earlier.length = before.count '\n' ∧
      byteLength before = linesLength earlier + byteLength (lastLine before) := by
  obtain ⟨clean, ends⟩ := lastLine_split before
  obtain ⟨later, split⟩ := splitOn_append clean after
  generalize lastLine before = line at clean ends split ⊢
  have none : line.count '\n' = 0 := List.count_eq_zero.2 clean
  rcases ends with rfl | ⟨front, rfl⟩
  · exact ⟨[], later, split, none.symm, (Nat.zero_add _).symm⟩
  · refine ⟨front.splitOn '\n', later, ?_, ?_, ?_⟩
    · rw [List.append_assoc, List.cons_append, List.splitOn_append_cons_self, split]
    · rw [List.count_append, List.count_cons_self, none]
      exact length_splitOn front
    · have size : ('\n').utf8Size = 1 := rfl
      rw [byteLength_append, byteLength_cons, size, linesLength_splitOn]
      omega

def lines (source : Source) : List (List Char) :=
  source.text.toList.splitOn '\n'

/-- The byte offset where the line of this number begins. -/
def lineStart (source : Source) (row : Nat) : Nat :=
  linesLength (source.lines.take (row - 1))

/-- Row and column denote the offset, which is on this line or at its end. -/
structure Denotes (source : Source) (offset row column : Nat) (line : List Char) : Prop where
  row? : source.row? offset = some row
  column? : source.column? offset = some column
  positive : 1 ≤ row ∧ 1 ≤ column
  quoted : source.lines[row - 1]? = some line
  distance : offset = source.lineStart row + (column - 1)
  inside : column - 1 ≤ byteLength line

variable {source : Source} {before after : List Char}

theorem denotes_append (text : source.text.toList = before ++ after) :
    source.Denotes (byteLength before) (before.count '\n' + 1) (byteLength (lastLine before) + 1)
      (lastLine before ++ firstLine after) := by
  have cut := cut?_append text
  obtain ⟨earlier, later, lines_eq, count, bytes⟩ := exists_splitOn before after
  rw [← text] at lines_eq
  refine ⟨?_, ?_, ⟨Nat.le_add_left _ _, Nat.le_add_left _ _⟩, ?_, ?_, ?_⟩
  · rw [Source.row?, cut]
    rfl
  · rw [Source.column?, cut]
    rfl
  · rw [lines, lines_eq, Nat.add_sub_cancel, ← count]
    simp
  · rw [lineStart, lines, lines_eq, Nat.add_sub_cancel, Nat.add_sub_cancel, ← count,
      List.take_left]
    exact bytes
  · rw [Nat.add_sub_cancel, byteLength_append]
    exact Nat.le_add_right _ _

/-- What comes before a place comes before every later one. -/
theorem prefix_of_byteLength_le {text before' : List Char} (h : before <+: text)
    (h' : before' <+: text) (le : byteLength before ≤ byteLength before') : before <+: before' := by
  rcases List.prefix_or_prefix_of_prefix h h' with first | ⟨more, split⟩
  · exact first
  · by_cases none : more = []
    · rw [none, List.append_nil] at split
      exact ⟨[], (List.append_nil before).trans split.symm⟩
    · have positive := byteLength_pos none
      rw [← split, byteLength_append] at le
      omega

/-- A line with its number, and with so many carets behind so many blanks under it. -/
def quotation (ink : Ink) (row : Nat) (line : List Char) (blanks carets : Nat) : String :=
  let gutter := "".pushn ' ' (toString row).length
  let bar := ink.paint .blue "|"
  gutter ++ " " ++ bar ++ "\n"
    ++ ink.paint .blue (toString row) ++ " " ++ bar ++ " " ++ String.ofList line ++ "\n"
    ++ gutter ++ " " ++ bar ++ " " ++ "".pushn ' ' blanks
    ++ ink.paint .red ("".pushn '^' carets)

theorem highlight?_append (text : source.text.toList = before ++ after) (ink : Ink) (stop : Nat) :
    source.highlight? ink ⟨byteLength before, stop⟩ =
      some (quotation ink (before.count '\n' + 1) (lastLine before ++ firstLine after)
        (byteLength (lastLine before))
        (max 1 (min stop (byteLength before + byteLength (firstLine after)) -
          byteLength before))) := by
  have place : source.IsPlace (byteLength before) := ⟨before, after, text, rfl⟩
  rw [highlight?, cut?_append text, Nat.min_eq_left place.le_size]
  rfl

/-- The row, the column and the quoted line denote one place. -/
theorem place_denoted {p : Nat} (place : source.IsPlace p) : ∃ r c line,
    source.Denotes p r c line ∧
      (∀ q r' c', source.IsPlace q → p < q → source.row? q = some r' →
        source.column? q = some c' → r < r' ∨ r = r' ∧ c < c') ∧
      ∀ ink stop, ∃ carets,
        source.highlight? ink ⟨p, stop⟩ = some (quotation ink r line (c - 1) carets) ∧
          1 ≤ carets ∧ (c - 1 + carets ≤ byteLength line ∨
            carets = 1 ∧ (stop ≤ p ∨ c - 1 = byteLength line)) := by
  obtain ⟨before, after, text, rfl⟩ := place
  have here := denotes_append text
  refine ⟨_, _, _, here, ?_, fun ink stop => ⟨_, highlight?_append text ink stop, ?_⟩⟩
  · rintro q r' c' ⟨before', after', text', rfl⟩ lt row column
    have there := denotes_append text'
    cases row.symm.trans there.row?
    cases column.symm.trans there.column?
    have earlier : before <+: before' :=
      prefix_of_byteLength_le ⟨after, text.symm⟩ ⟨after', text'.symm⟩ (Nat.le_of_lt lt)
    rcases Nat.lt_or_eq_of_le (earlier.sublist.count_le '\n') with fewer | same
    · exact .inl (Nat.succ_lt_succ fewer)
    · refine .inr ⟨congrArg Nat.succ same, ?_⟩
      have first := here.distance
      have second := there.distance
      rw [same] at first
      omega
  · rw [Nat.add_sub_cancel, byteLength_append]
    omega

/-- The second line begins with a wide character, and the third one is empty. -/
def threeLines : Source where
  text := "fn f()\né = 1;\n"

/-- A place behind a wide character, and the one behind the last line feed. -/
theorem place_denoted_threeLines :
    (threeLines.IsPlace 10 ∧ threeLines.Denotes 10 2 4 "é = 1;".toList) ∧
      threeLines.IsPlace 15 ∧ threeLines.Denotes 15 3 1 [] := by
  have place : threeLines.IsPlace 10 := by decide
  have last : threeLines.IsPlace 15 := by decide
  obtain ⟨r, c, line, denotes, _⟩ := place_denoted place
  obtain ⟨r', c', line', denotes', _⟩ := place_denoted last
  cases denotes.row?.symm.trans (show threeLines.row? 10 = some 2 by decide)
  cases denotes.column?.symm.trans (show threeLines.column? 10 = some 4 by decide)
  cases denotes.quoted.symm.trans (show threeLines.lines[1]? = some "é = 1;".toList by decide)
  cases denotes'.row?.symm.trans (show threeLines.row? 15 = some 3 by decide)
  cases denotes'.column?.symm.trans (show threeLines.column? 15 = some 1 by decide)
  cases denotes'.quoted.symm.trans (show threeLines.lines[2]? = some [] by decide)
  exact ⟨⟨place, denotes⟩, last, denotes'⟩

end Rill.Source
