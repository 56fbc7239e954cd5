import Rill.Proofs.Compile
import Rill.Proofs.Lir.Located
import Rill.Proofs.Tree.Reparsed

/-!
# Which failures can be reported

Every failure of compiling a source can be shown against it, with one exception. Where the
source ends too early the error stands at its last byte, and if the last character takes more
than one byte, this is no place of the source.
-/

namespace Rill

open Lir

section Compiling

variable {P : Span → Prop}

theorem Function.at_of_compile (covers : ∀ a b : Span, P a → P b → P (a.cover b)) {f : Function}
    (all : (Node.function f).All P) {signatures : SignatureTable} {options : Options}
    {failure : Failure} (failed : f.compile signatures options = .error failure) :
    failure.At P := by
  rw [compile] at failed
  split at failed
  · have simplified := located_simplify covers all signatures options.passes
    simp only [except_bind_eq_error, except_mapError_eq_error, except_mapError_eq_ok,
      except_pure_eq_error, and_false, exists_false, or_false] at failed
    rcases failed with ⟨e, failed, rfl⟩ | ⟨tree, done, failed⟩
    · rw [failed] at simplified
      exact simplified
    · rw [done] at simplified
      exact at_of_lower simplified failed
  · simp only [except_bind_eq_error, except_pure_eq_error, and_false, exists_false,
      or_false] at failed
    exact at_of_lower all failed

/-- A module fails to compile with errors at nodes of its functions. -/
theorem Module.at_of_compile (covers : ∀ a b : Span, P a → P b → P (a.cover b)) {m : Module}
    (all : ∀ f ∈ m.functions, (Node.function f).All P) {options : Options}
    {failure : CompileFailure} (failed : m.compile options = .error failure) :
    ∃ errors, failure = .compile errors ∧ ∀ e ∈ errors, P e.span := by
  rcases SignatureTable.build_cases m with ⟨signatures, built, _⟩ |
    ⟨before, f, after, split, _, _, refused⟩
  · rcases m.compile_cases options built with ⟨compiled, done, _⟩ | ⟨errors, failed', among⟩
    · cases failed.symm.trans done
    · cases failed.symm.trans failed'
      refine ⟨errors, rfl, fun e mem => ?_⟩
      obtain ⟨f, there, failed⟩ := among e mem
      exact Function.at_of_compile covers (all f there) failed
  · rw [compile, refused] at failed
    cases failed
    have there : f ∈ m.functions := by
      rw [split]
      exact List.mem_append_right before List.mem_cons_self
    refine ⟨_, rfl, List.forall_mem_singleton.2 ?_⟩
    exact (((all f there).child (.head _)).child (.head _)).here

/-- What has been compiled can be listed. -/
theorem Module.exists_render_of_compile {m : Module} {options : Options} {compiled : Compiled}
    (done : m.compile options = .ok compiled) (ink : Ink) :
    ∃ text, compiled.lir.render ink = .ok text := by
  rcases SignatureTable.build_cases m with ⟨signatures, built, _⟩ | ⟨_, _, _, _, _, _, refused⟩
  · rcases m.compile_cases options built with ⟨compiled', done', listable⟩ | ⟨_, failed, _⟩
    · cases done.symm.trans done'
      exact Lir.Module.exists_render listable ink
    · cases done.symm.trans failed
  · rw [compile, refused] at done
    cases done

end Compiling

namespace Source

variable {source : Source}

/-- Every node of a parsed tree has a span of the source. -/
theorem all_of_parse {m : Module} (parsed : source.parse = .ok m) {f : Function}
    (mem : f ∈ m.functions) : (Node.function f).All source.Holds := by
  intro node below
  obtain ⟨tokens, part, lexed, rfl, within⟩ := exists_part parsed mem below
  obtain ⟨front, gap, text, reads, isGap⟩ := Lexer.lex_eq_ok_iff.1 lexed
  have split := SplitInto.of_reads text reads isGap
  have ordered : Ordered part.tokens :=
    Ordered.sublist ⟨split.ordered, split.nonempty⟩ within.sublist
  have framed := part.frames ordered
  obtain ⟨first, memFirst, start⟩ := framed.exists_first
  obtain ⟨last, memLast, stop⟩ := framed.exists_last
  have holds := split.holds first (within.subset memFirst)
  have holds' := split.holds last (within.subset memLast)
  refine ⟨?_, start ▸ holds.start, stop ▸ holds'.stop⟩
  calc part.node.span.start = first.span.start := start.symm
    _ ≤ first.span.stop := holds.ordered
    _ ≤ part.node.span.stop := (framed.bounds ordered memFirst).2

theorem holds_of_tokens_error {error : ParseError} (failed : source.tokens = .error error) :
    source.Holds error.span := by
  obtain ⟨front, gap, _, _, text, _, _, start, piece, more, rfl, stop⟩ :=
    Lexer.exists_reads_of_error failed
  rw [Nat.zero_add] at start
  refine ⟨stop ▸ Nat.le_add_right _ _, ⟨front ++ gap, piece ++ more, ?_, ?_⟩,
    ⟨front ++ (gap ++ piece), more, ?_, ?_⟩⟩
  · rw [text, List.append_assoc]
  · rw [start, byteLength_append]
  · simp only [text, List.append_assoc]
  · rw [stop, start]
    simp only [byteLength_append, Nat.add_assoc]

/-- Reading fails at a place, or because the source has ended. -/
theorem parse_error_cases {error : ParseError} (failed : source.parse = .error error) :
    source.Holds error.span ∨ ∃ wanted, error = ⟨.endOfFile wanted, source.eof⟩ := by
  cases lexed : source.tokens with
  | error error' =>
      rw [parse, lexed] at failed
      cases failed
      exact .inl (holds_of_tokens_error lexed)
  | ok tokens =>
      obtain ⟨front, gap, text, reads, isGap⟩ := Lexer.lex_eq_ok_iff.1 lexed
      rw [parse_of_tokens lexed] at failed
      rcases Parser.functions_cases (spelled_of_tokens lexed) with
        ⟨fs, read, _⟩ | ⟨t, mem, cause, failed'⟩ | ⟨wanted, failed'⟩
      · rw [read] at failed
        cases failed
      · rw [failed'] at failed
        cases failed
        exact .inl ((SplitInto.of_reads text reads isGap).holds t mem)
      · rw [failed'] at failed
        cases failed
        exact .inr ⟨wanted, rfl⟩

/-- The last character takes more than one byte. -/
def EndsWide (source : Source) : Prop :=
  ∃ front c, source.text.toList = front ++ [c] ∧ 1 < c.utf8Size

theorem size_of_text {cs : List Char} (text : source.text.toList = cs) :
    source.size = byteLength cs := by
  rw [size, text]

theorem not_isPlace_eof (wide : source.EndsWide) : ¬ source.IsPlace source.eof.start := by
  obtain ⟨front, c, text, wide⟩ := wide
  rintro ⟨before, after, text', offset⟩
  have total : byteLength before + byteLength after = source.size := by
    rw [size_of_text text', byteLength_append]
  -- One byte is left behind the place, so one narrow character, and this is the last one.
  have last : byteLength after = 1 := by
    have := size_of_text text
    simp only [eof, byteLength_append, byteLength_cons] at offset this
    omega
  obtain _ | ⟨d, rest⟩ := after
  · cases last
  · have positive := d.utf8Size_pos
    rw [byteLength_cons] at last
    have none : rest = [] := by
      by_contra some_
      have := byteLength_pos some_
      omega
    subst none
    obtain ⟨_, same⟩ := List.append_inj' (text.symm.trans text') rfl
    cases same
    rw [byteLength_nil] at last
    omega

theorem holds_eof (narrow : ¬ source.EndsWide) : source.Holds source.eof := by
  refine ⟨Nat.sub_le _ _, ?_, source.text.toList, [], (List.append_nil _).symm, rfl⟩
  rcases List.eq_nil_or_concat source.text.toList with text | ⟨front, c, text⟩
  · refine ⟨[], [], text, ?_⟩
    rw [eof, size_of_text text]
    rfl
  · rw [List.concat_eq_append] at text
    have positive := c.utf8Size_pos
    have single : c.utf8Size = 1 := by
      by_contra wide
      exact narrow ⟨front, c, text, by omega⟩
    refine ⟨front, [c], text, ?_⟩
    rw [eof, size_of_text text, byteLength_append, byteLength_cons, single]
    rfl

end Source

/-- Where the errors stand. -/
def CompileFailure.spans : CompileFailure → List Span
  | .parse error => [error.span]
  | .compile errors => errors.map (·.span)
  | .fault _ => []

namespace Source

variable {source : Source}

/-- The errors stand at spans of the source and can be shown against it. -/
structure Reportable (source : Source) (failure : CompileFailure) : Prop where
  holds : ∀ span ∈ failure.spans, source.Holds span
  reports : ∀ ink, ∃ text, failure.report ink source = .ok text

theorem reportable_parse {error : ParseError} (holds : source.Holds error.span) :
    source.Reportable (.parse error) where
  holds := List.forall_mem_singleton.2 holds
  reports ink := holds.start.exists_report ink error.message

theorem reportable_compile {errors : List CompileError}
    (holds : ∀ e ∈ errors, source.Holds e.span) : source.Reportable (.compile errors) where
  holds := List.forall_mem_map.2 holds
  reports ink := by
    have each : ∀ e ∈ errors, ∃ text, CompileError.report ink source e = .ok text :=
      fun e mem => (holds e mem).start.exists_report ink e.message
    obtain ⟨texts, done⟩ := Lir.exists_mapM each
    rw [CompileFailure.report, done]
    exact ⟨_, rfl⟩

/-- Compiling fails with a failure that can be reported, or because the source has ended. -/
theorem reportable_or_eof {ink : Ink} {options : Options} {failure : CompileFailure}
    (failed : source.compile ink options = .error failure) :
    source.Reportable failure ∨ ∃ wanted, failure = .parse ⟨.endOfFile wanted, source.eof⟩ := by
  simp only [compile, except_bind_eq_error, except_mapError_eq_error, except_mapError_eq_ok]
    at failed
  rcases failed with ⟨error, failed, rfl⟩ | ⟨m, parsed, failed⟩
  · rcases parse_error_cases failed with holds | ⟨wanted, rfl⟩
    · exact .inl (reportable_parse holds)
    · exact .inr ⟨wanted, rfl⟩
  · have located : m.compile options = .error failure → source.Reportable failure := by
      intro failed
      obtain ⟨errors, rfl, holds⟩ := m.at_of_compile (fun _ _ => Holds.cover)
        (fun f mem => all_of_parse parsed mem) failed
      exact reportable_compile holds
    refine .inl ?_
    split at failed
    · cases failed
    · simp only [except_bind_eq_error, except_pure_eq_error, and_false, exists_false, or_false]
        at failed
      exact located failed
    · simp only [except_bind_eq_error, except_mapError_eq_error] at failed
      rcases failed with failed | ⟨compiled, done, fault, failed, _⟩
      · exact located failed
      -- A listing that fails would be a fault, which no report can show.
      · obtain ⟨text, listed⟩ := m.exists_render_of_compile done ink
        cases failed.symm.trans listed

theorem report_eof (wide : source.EndsWide) (wanted : Expectation) (ink : Ink) :
    CompileFailure.report ink source (.parse ⟨.endOfFile wanted, source.eof⟩) =
      .error .misplacedSpan :=
  report_of_not_isPlace (Nat.sub_le _ _) (not_isPlace_eof wide) ink _

theorem not_reportable_eof (wide : source.EndsWide) (wanted : Expectation) :
    ¬ source.Reportable (.parse ⟨.endOfFile wanted, source.eof⟩) := by
  intro reportable
  exact not_isPlace_eof wide (reportable.holds _ (.head _)).start

/-- A failure can be reported unless something is missing at the end of the source and the last
character takes more than one byte. Then every report is refused. -/
theorem reportable_iff {ink : Ink} {options : Options} {failure : CompileFailure}
    (failed : source.compile ink options = .error failure) :
    (source.Reportable failure ↔
      ¬ (source.EndsWide ∧ ∃ wanted, failure = .parse ⟨.endOfFile wanted, source.eof⟩)) ∧
    (¬ source.Reportable failure →
      ∀ other, failure.report other source = .error .misplacedSpan) := by
  rcases reportable_or_eof failed with reportable | ⟨wanted, rfl⟩
  · refine ⟨iff_of_true reportable ?_, fun refused => absurd reportable refused⟩
    rintro ⟨wide, wanted, rfl⟩
    exact not_reportable_eof wide wanted reportable
  · by_cases wide : source.EndsWide
    · refine ⟨iff_of_false (not_reportable_eof wide wanted) ?_, fun _ => report_eof wide wanted⟩
      exact not_not_intro ⟨wide, wanted, rfl⟩
    · have reportable : source.Reportable (.parse ⟨.endOfFile wanted, source.eof⟩) :=
        reportable_parse (holds_eof wide)
      exact ⟨iff_of_true reportable fun refused => wide refused.1,
        fun refused => absurd reportable refused⟩

end Source

/-- The last character takes two bytes, but the error stands before it. -/
def undeclared : Source where
  text := "fn f() \x7b x; \x7d // é"

def undeclaredTokens : List Token :=
  [⟨.keyword .fnWord, "fn", ⟨0, 2⟩⟩, ⟨.identifier, "f", ⟨3, 4⟩⟩, ⟨.mark .openParen, "(", ⟨4, 5⟩⟩,
    ⟨.mark .closeParen, ")", ⟨5, 6⟩⟩, ⟨.mark .openBrace, "\x7b", ⟨7, 8⟩⟩,
    ⟨.identifier, "x", ⟨9, 10⟩⟩, ⟨.mark .semicolon, ";", ⟨10, 11⟩⟩,
    ⟨.mark .closeBrace, "\x7d", ⟨12, 13⟩⟩]

def undeclaredFunction : Function where
  header := ⟨⟨"f", ⟨3, 4⟩⟩, [], .unit, ⟨3, 6⟩⟩
  body := .block ⟨7, 13⟩ [.eval ⟨9, 11⟩ (.var ⟨9, 10⟩ ⟨"x", ⟨9, 10⟩⟩)]
  span := ⟨0, 13⟩

theorem Source.reportable_iff_undeclared :
    undeclared.compile .plain {} = .error (.compile [⟨.undefinedVariable "x", ⟨9, 10⟩⟩]) ∧
      undeclared.EndsWide ∧
      undeclared.Reportable (.compile [⟨.undefinedVariable "x", ⟨9, 10⟩⟩]) := by
  have lexed : undeclared.tokens = .ok undeclaredTokens := by decide +kernel
  have attempted : Parser.attempt undeclared.eof 123 .functions undeclaredTokens =
      some (.ok ([undeclaredFunction], [])) := by rfl
  have failed : undeclared.compile .plain {} =
      .error (.compile [⟨.undefinedVariable "x", ⟨9, 10⟩⟩]) := by
    rw [Source.compile, parse_of_attempt lexed attempted (by decide)]
    decide +kernel
  refine ⟨failed, ⟨undeclared.text.toList.dropLast, 'é', by decide +kernel, by decide⟩, ?_⟩
  refine (reportable_iff failed).1.2 ?_
  rintro ⟨_, _, same⟩
  cases same

/-- The body has no closing brace, and the last character takes two bytes. -/
def unclosed : Source where
  text := "fn f() \x7b // é"

def unclosedTokens : List Token :=
  [⟨.keyword .fnWord, "fn", ⟨0, 2⟩⟩, ⟨.identifier, "f", ⟨3, 4⟩⟩, ⟨.mark .openParen, "(", ⟨4, 5⟩⟩,
    ⟨.mark .closeParen, ")", ⟨5, 6⟩⟩, ⟨.mark .openBrace, "\x7b", ⟨7, 8⟩⟩]

theorem Source.not_reportable_unclosed : ∃ failure,
    unclosed.compile .plain {} = .error failure ∧ ¬ unclosed.Reportable failure ∧
      failure.spans = [⟨13, 14⟩] ∧ failure.report .plain unclosed = .error .misplacedSpan := by
  have lexed : unclosed.tokens = .ok unclosedTokens := by decide +kernel
  have attempted : Parser.attempt unclosed.eof 123 .functions unclosedTokens =
      some (.error ⟨.endOfFile .statementOrBrace, unclosed.eof⟩) := by rfl
  have failed : unclosed.compile .plain {} =
      .error (.parse ⟨.endOfFile .statementOrBrace, unclosed.eof⟩) := by
    rw [Source.compile, parse_of_attempt lexed attempted (by decide)]
    rfl
  have wide : unclosed.EndsWide :=
    ⟨unclosed.text.toList.dropLast, 'é', by decide +kernel, by decide⟩
  exact ⟨_, failed, not_reportable_eof wide _, by decide +kernel, report_eof wide _ _⟩

end Rill
