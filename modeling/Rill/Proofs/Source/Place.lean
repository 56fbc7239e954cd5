import Rill.Report

/-!
# Places in a source

A place of a source is a byte offset where one of its characters starts or where it
ends. Cutting succeeds at the places and nowhere else, and a span between two places is
what a report needs.
-/

namespace Rill

theorem cutAt?_append (before after : List Char) :
    cutAt? (before ++ after) (byteLength before) = some (before, after) := by
  induction before with
  | nil => simp [cutAt?]
  | cons c before ih =>
      have positive := c.utf8Size_pos
      obtain ⟨n, size⟩ : ∃ n, c.utf8Size + byteLength before = n + 1 :=
        ⟨c.utf8Size + byteLength before - 1, by omega⟩
      rw [byteLength_cons, List.cons_append, size, cutAt?, if_pos (by omega)]
      rw [show n + 1 - c.utf8Size = byteLength before by omega, ih]
      rfl

theorem cutAt?_eq_some_iff {cs before after : List Char} {offset : Nat} :
    cutAt? cs offset = some (before, after) ↔
      cs = before ++ after ∧ byteLength before = offset := by
  constructor
  · intro h
    induction cs generalizing offset before with
    | nil =>
        cases offset with
        | zero => simp_all [cutAt?]
        | succ n => simp [cutAt?] at h
    | cons c cs ih =>
        cases offset with
        | zero =>
            simp only [cutAt?, Option.some.injEq, Prod.mk.injEq] at h
            obtain ⟨rfl, rfl⟩ := h
            exact ⟨rfl, rfl⟩
        | succ n =>
            rw [cutAt?] at h
            split at h
            · next fits =>
              obtain ⟨⟨head, tail⟩, cut, same⟩ := Option.map_eq_some_iff.1 h
              obtain ⟨rfl, rfl⟩ := Prod.mk.inj same
              obtain ⟨rfl, size⟩ := ih cut
              refine ⟨rfl, ?_⟩
              rw [byteLength_cons, size]
              omega
            · cases h
  · rintro ⟨rfl, rfl⟩
    exact cutAt?_append before after

/-- Two cuts of a text at the same offset are the same cut. -/
theorem append_inj_of_byteLength {before before' after after' : List Char}
    (same : before ++ after = before' ++ after') (size : byteLength before = byteLength before') :
    before = before' ∧ after = after' := by
  have cut := cutAt?_append before after
  rw [same, size, cutAt?_append, Option.some.injEq, Prod.mk.injEq] at cut
  exact ⟨cut.1.symm, cut.2.symm⟩

theorem byteLength_pos {cs : List Char} (h : cs ≠ []) : 0 < byteLength cs := by
  cases cs with
  | nil => exact absurd rfl h
  | cons c cs =>
      have positive := c.utf8Size_pos
      rw [byteLength_cons]
      omega

namespace Source

variable {source : Source} {offset : Nat} {span : Span}

/-- A character of the source starts at the offset, or the source ends there. -/
def IsPlace (source : Source) (offset : Nat) : Prop :=
  ∃ before after, source.text.toList = before ++ after ∧ byteLength before = offset

theorem isPlace_iff : source.IsPlace offset ↔ (cutAt? source.text.toList offset).isSome = true := by
  constructor
  · rintro ⟨before, after, text, size⟩
    rw [cutAt?_eq_some_iff.2 ⟨text, size⟩]
    rfl
  · intro h
    obtain ⟨⟨before, after⟩, cut⟩ := Option.isSome_iff_exists.1 h
    exact ⟨before, after, cutAt?_eq_some_iff.1 cut⟩

instance : DecidablePred source.IsPlace := fun _ => decidable_of_iff _ isPlace_iff.symm

theorem IsPlace.le_size (h : source.IsPlace offset) : offset ≤ source.size := by
  obtain ⟨before, after, text, rfl⟩ := h
  rw [size, text, byteLength_append]
  omega

theorem cut?_append {before after : List Char} (text : source.text.toList = before ++ after) :
    source.cut? (byteLength before) = some (before, after) := by
  have place : source.IsPlace (byteLength before) := ⟨before, after, text, rfl⟩
  rw [cut?, Nat.min_eq_left place.le_size, text]
  exact cutAt?_append before after

/-- The span starts and ends at places of the source, in this order. -/
structure Holds (source : Source) (span : Span) : Prop where
  ordered : span.start ≤ span.stop
  start : source.IsPlace span.start
  stop : source.IsPlace span.stop

theorem Holds.cover {other : Span} (h : source.Holds span) (h' : source.Holds other) :
    source.Holds (span.cover other) := by
  have first := h.ordered
  refine ⟨?_, ?_, ?_⟩
  · simp only [Span.cover_start, Span.cover_stop]
    omega
  · rw [Span.cover_start]
    rcases Nat.le_total span.start other.start with le | le
    · rw [Nat.min_eq_left le]
      exact h.start
    · rw [Nat.min_eq_right le]
      exact h'.start
  · rw [Span.cover_stop]
    rcases Nat.le_total span.stop other.stop with le | le
    · rw [Nat.max_eq_right le]
      exact h'.stop
    · rw [Nat.max_eq_left le]
      exact h.stop

/-- A span cuts out the characters that stand between its two ends. -/
theorem slice?_eq_some_iff {piece : List Char} : source.slice? span = some (String.ofList piece) ↔
    ∃ before after, source.text.toList = before ++ (piece ++ after) ∧
      byteLength before = span.start ∧ span.start + byteLength piece = span.stop := by
  rw [slice?]
  constructor
  · intro h
    split at h
    · next ordered =>
      obtain ⟨⟨before, tail⟩, cut, next⟩ := Option.bind_eq_some_iff.1 h
      obtain ⟨⟨piece', after⟩, cut', last⟩ := Option.bind_eq_some_iff.1 next
      obtain ⟨text, size⟩ := cutAt?_eq_some_iff.1 cut
      obtain ⟨rfl, size'⟩ := cutAt?_eq_some_iff.1 cut'
      obtain rfl := String.ofList_injective (Option.some.inj last)
      exact ⟨before, after, text, size, by omega⟩
    · cases h
  · rintro ⟨before, after, text, size, stop⟩
    have cut := cutAt?_eq_some_iff.2 ⟨text, size⟩
    have width : byteLength piece = span.stop - span.start := by omega
    have cut' := cutAt?_eq_some_iff.2 (And.intro (Eq.refl (piece ++ after)) width)
    simp only [if_pos (show span.start ≤ span.stop by omega), cut, cut', Option.bind_eq_bind,
      Option.bind_some, Option.pure_def]

/-- A report of a span that starts at a place can be given. -/
theorem IsPlace.exists_report (h : source.IsPlace span.start) (ink : Ink) (message : String) :
    ∃ text, source.report ink message span = .ok text := by
  obtain ⟨before, after, text, size⟩ := h
  have cut : source.cut? span.start = some (before, after) := by
    rw [← size]
    exact cut?_append text
  simp only [report, position?, highlight?, row?, column?, cut, Option.bind_eq_bind,
    Option.bind_some, Option.pure_def]
  exact ⟨_, rfl⟩

/-- No report can be given of a span that starts inside a character. -/
theorem report_of_not_isPlace (inside : span.start ≤ source.size)
    (h : ¬ source.IsPlace span.start) (ink : Ink) (message : String) :
    source.report ink message span = .error .misplacedSpan := by
  have cut : source.cut? span.start = none := by
    rw [cut?, Nat.min_eq_left inside]
    exact Option.not_isSome_iff_eq_none.1 fun found => h (isPlace_iff.2 found)
  simp only [report, position?, row?, cut, Option.bind_eq_bind, Option.bind_none]

end Source

end Rill
