import Rill.Proofs.Source.Lines

/-!
# Underlines

A report underlines the part of a span that is on its first line. Blanks and carets are
counted in bytes, while the line above them is printed in characters. So the carets stand under the
spanned characters exactly if no character up to the last spanned one takes more than a byte.
-/

namespace Rill

theorem toList_pushn (c : Char) (n : Nat) : ("".pushn c n).toList = List.replicate n c := by
  rw [String.pushn_eq_repeat_push]
  induction n with
  | zero => rfl
  | succ n ih => rw [Nat.repeat, String.toList_push, ih, List.replicate_succ']

/-- A number has digits only. -/
theorem not_mem_toString {c : Char} (other : c.isDigit = false) (n : Nat) :
    c ∉ (toString n).toList := by
  intro mem
  have digits : (toString n).toList = Nat.toDigits 10 n := Nat.toList_repr
  rw [digits] at mem
  have digit := Nat.isDigit_of_mem_toDigits (by decide) (by decide) mem
  rw [other] at digit
  cases digit

/-- A caret is printed under the character of this number of the quoted line, which is the second of
three printed lines and begins behind a bar and a blank. -/
def CaretAt (printed : String) (k : Nat) : Prop :=
  ∃ top quoted underline, printed.toList.splitOn '\n' = [top, quoted, underline] ∧
    underline[quoted.idxOf '|' + 2 + k]? = some '^'

namespace Source

/-- The lines of a quotation without colours. -/
def printedLines (row : Nat) (line : List Char) (blanks carets : Nat) : List (List Char) :=
  let gutter := List.replicate (toString row).length ' '
  [gutter ++ " |".toList, (toString row).toList ++ (" | ".toList ++ line),
    gutter ++ (" | ".toList ++ (List.replicate blanks ' ' ++ List.replicate carets '^'))]

variable {line : List Char}

theorem splitOn_quotation (clean : '\n' ∉ line) (row blanks carets : Nat) :
    (quotation .plain row line blanks carets).toList.splitOn '\n' =
      printedLines row line blanks carets := by
  have joined : (quotation .plain row line blanks carets).toList =
      ['\n'].intercalate (printedLines row line blanks carets) := by
    simp [quotation, printedLines, toList_pushn, List.intercalate]
  have digits : '\n' ∉ (toString row).toList := not_mem_toString (by decide) row
  rw [joined]
  refine List.splitOn_intercalate '\n' ?_ (List.cons_ne_nil _ _)
  simpa [printedLines, clean] using digits

theorem idxOf_bar (row : Nat) (line : List Char) :
    ((toString row).toList ++ (" | ".toList ++ line)).idxOf '|' = (toString row).length + 1 := by
  have digits : '|' ∉ (toString row).toList := not_mem_toString (by decide) row
  rw [List.idxOf_append, if_neg digits, String.length_toList, Nat.add_comm]
  rfl

theorem getElem?_carets (blanks carets k : Nat) :
    (List.replicate blanks ' ' ++ List.replicate carets '^')[k]? = some '^' ↔
      blanks ≤ k ∧ k < blanks + carets := by
  rcases Nat.lt_or_ge k blanks with lt | ge
  · rw [List.getElem?_append_left (by simpa using lt), List.getElem?_replicate, if_pos lt]
    refine iff_of_false (fun same => ?_) fun h => by omega
    exact absurd (Option.some.inj same) (by decide)
  · rw [List.getElem?_append_right (by simpa using ge), List.length_replicate,
      List.getElem?_replicate]
    by_cases inside : k - blanks < carets
    · rw [if_pos inside]
      exact iff_of_true rfl (by omega)
    · rw [if_neg inside]
      refine iff_of_false (fun none => ?_) fun h => by omega
      cases none

/-- Blanks and carets are the columns of a quotation. -/
theorem caretAt_quotation (clean : '\n' ∉ line) (row blanks carets k : Nat) :
    CaretAt (quotation .plain row line blanks carets) k ↔ blanks ≤ k ∧ k < blanks + carets := by
  have behind (cs : List Char) : (List.replicate (toString row).length ' ' ++
      (" | ".toList ++ cs))[(toString row).length + 1 + 2 + k]? = cs[k]? := by
    have far : (List.replicate (toString row).length ' ').length ≤
        (toString row).length + 1 + 2 + k := by
      rw [List.length_replicate]
      omega
    have skip : (toString row).length + 1 + 2 + k - (toString row).length = k + 3 := by omega
    rw [List.getElem?_append_right far, List.length_replicate, skip]
    rfl
  rw [← getElem?_carets, ← behind, ← idxOf_bar row line]
  constructor
  · rintro ⟨top, quoted, underline, split, there⟩
    cases split.symm.trans (splitOn_quotation clean row blanks carets)
    exact there
  · intro there
    exact ⟨_, _, _, splitOn_quotation clean row blanks carets, there⟩

theorem length_le_byteLength (cs : List Char) : cs.length ≤ byteLength cs := by
  induction cs with
  | nil => exact Nat.le_refl 0
  | cons c cs ih =>
      have positive := c.utf8Size_pos
      rw [byteLength_cons, List.length_cons]
      omega

theorem byteLength_eq_length_iff {cs : List Char} :
    byteLength cs = cs.length ↔ ∀ c ∈ cs, c.utf8Size = 1 := by
  induction cs with
  | nil => simp
  | cons c cs ih =>
      have positive := c.utf8Size_pos
      have less := length_le_byteLength cs
      rw [byteLength_cons, List.length_cons, List.forall_mem_cons, ← ih]
      omega

theorem max_byteLength_eq_iff {cs : List Char} :
    max 1 (byteLength cs) = max 1 cs.length ↔ byteLength cs = cs.length := by
  cases cs with
  | nil => exact iff_of_true rfl rfl
  | cons c cs =>
      have less := length_le_byteLength (c :: cs)
      rw [List.length_cons] at less ⊢
      omega

/-- What is clipped at the end of the line is what is spanned on it. -/
theorem min_firstLine (piece after : List Char) :
    min (byteLength piece) (byteLength (firstLine (piece ++ after))) =
      byteLength (firstLine piece) := by
  obtain ⟨clean, ends⟩ := firstLine_split piece
  generalize firstLine piece = first at clean ends ⊢
  have keeps : ∀ c ∈ first, (c != '\n') = true := by
    intro c mem
    exact bne_iff_ne.2 fun same => clean (same ▸ mem)
  rcases ends with rfl | ⟨rest, rfl⟩
  · rw [firstLine, List.takeWhile_append_of_pos keeps, byteLength_append]
    omega
  · rw [List.append_assoc, firstLine, List.takeWhile_append_of_pos keeps]
    simp

/-- The carets are under the characters of the span that are on the line where it starts, or there
is a single one at the start. -/
def Underlines (before piece : List Char) (printed : String) : Prop :=
  ∀ k, CaretAt printed k ↔
    (lastLine before).length ≤ k ∧ k < (lastLine before).length + max 1 (firstLine piece).length

theorem interval_eq_iff {a b m n : Nat} (hm : 1 ≤ m) (hn : 1 ≤ n) :
    (∀ k, (a ≤ k ∧ k < a + m) ↔ b ≤ k ∧ k < b + n) ↔ a = b ∧ m = n := by
  constructor
  · intro same
    have first := same a
    have first' := same b
    have last := same (a + m - 1)
    have last' := same (b + n - 1)
    omega
  · rintro ⟨rfl, rfl⟩
    exact fun _ => Iff.rfl

variable {source : Source} {span : Span}

theorem Holds.exists_split (h : source.Holds span) : ∃ before piece after,
    source.text.toList = before ++ (piece ++ after) ∧ byteLength before = span.start ∧
      span.start + byteLength piece = span.stop := by
  obtain ⟨ordered, ⟨before, after, text, start⟩, ⟨before', after', text', stop⟩⟩ := h
  obtain ⟨piece, rfl⟩ : before <+: before' :=
    prefix_of_byteLength_le ⟨after, text.symm⟩ ⟨after', text'.symm⟩ (by omega)
  rw [byteLength_append] at stop
  exact ⟨before, piece, after', text'.trans (List.append_assoc _ _ _), start, by omega⟩

/-- The carets stand under the spanned bytes, so they stand under the spanned characters exactly if
all characters of the line are bytes, up to the last one that is spanned. -/
theorem underlines_iff (h : source.Holds span) : ∃ before piece after printed,
    source.text.toList = before ++ (piece ++ after) ∧ byteLength before = span.start ∧
      span.start + byteLength piece = span.stop ∧
      source.highlight? .plain span = some printed ∧
      (∀ k, CaretAt printed k ↔ byteLength (lastLine before) ≤ k ∧
        k < byteLength (lastLine before) + max 1 (byteLength (firstLine piece))) ∧
      (Underlines before piece printed ↔
        ∀ c ∈ lastLine before ++ firstLine piece, c.utf8Size = 1) := by
  obtain ⟨before, piece, after, text, start, stop⟩ := h.exists_split
  obtain ⟨_, _⟩ := span
  dsimp only at start stop
  subst start
  subst stop
  have clean : '\n' ∉ lastLine before ++ firstLine (piece ++ after) := fun mem =>
    (List.mem_append.1 mem).elim (lastLine_split before).1 (firstLine_split (piece ++ after)).1
  have width : min (byteLength before + byteLength piece)
      (byteLength before + byteLength (firstLine (piece ++ after))) - byteLength before =
      byteLength (firstLine piece) := by
    rw [Nat.add_min_add_left, Nat.add_sub_cancel_left, min_firstLine]
  have printed := highlight?_append text .plain (byteLength before + byteLength piece)
  rw [width] at printed
  have carets := caretAt_quotation clean (before.count '\n' + 1) (byteLength (lastLine before))
    (max 1 (byteLength (firstLine piece)))
  refine ⟨before, piece, after, _, text, rfl, rfl, printed, carets, ?_⟩
  simp only [Underlines, carets]
  rw [interval_eq_iff (Nat.le_max_left _ _) (Nat.le_max_left _ _), max_byteLength_eq_iff,
    List.forall_mem_append, byteLength_eq_length_iff, byteLength_eq_length_iff]

/-- A span that ends in the next line, behind a wide character. -/
def branching : Source where
  text := "if x \x7b\n  print(\"é\");\n\x7d"

theorem underlines_iff_branching : branching.Holds ⟨3, 19⟩ ∧ ∃ printed,
    branching.highlight? .plain ⟨3, 19⟩ = some printed ∧
      Underlines "if ".toList "x \x7b\n  print(\"é\"".toList printed := by
  have holds : branching.Holds ⟨3, 19⟩ := ⟨by decide, by decide, by decide⟩
  obtain ⟨before, piece, after, printed, text, start, stop, quoted, _, exactly⟩ :=
    underlines_iff holds
  have written : branching.text.toList =
      "if ".toList ++ ("x \x7b\n  print(\"é\"".toList ++ ");\n\x7d".toList) := by decide
  obtain ⟨rfl, rest⟩ := append_inj_of_byteLength (text.symm.trans written) start
  obtain ⟨rfl, rfl⟩ := append_inj_of_byteLength rest (Nat.add_left_cancel stop)
  have narrow : (lastLine "if ".toList ++ firstLine "x \x7b\n  print(\"é\"".toList).all
      (·.utf8Size == 1) = true := by decide
  refine ⟨holds, printed, quoted, exactly.2 fun c mem => ?_⟩
  exact beq_iff_eq.1 (List.all_eq_true.1 narrow c mem)

/-- A single character that takes two bytes. -/
def accented : Source where
  text := "é"

/-- Two carets are printed under one character. -/
theorem not_underlines_accented : accented.Holds ⟨0, 2⟩ ∧
    accented.text.toList = [] ++ (['é'] ++ []) ∧ ∃ printed,
    accented.highlight? .plain ⟨0, 2⟩ = some printed ∧ ¬ Underlines [] ['é'] printed := by
  have text : accented.text.toList = [] ++ ['é'] := by decide
  have printed : accented.highlight? .plain ⟨0, 2⟩ = some (quotation .plain 1 ['é'] 0 2) :=
    highlight?_append text .plain 2
  have second : CaretAt (quotation .plain 1 ['é'] 0 2) 1 :=
    (caretAt_quotation (by decide) 1 0 2 1).2 (by decide)
  refine ⟨⟨by decide, by decide, by decide⟩, text, _, printed, fun underlines => ?_⟩
  exact absurd ((underlines 1).1 second) (by decide)

end Source

end Rill
