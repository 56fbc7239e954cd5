import Rill.Proofs.Lir.Acceptance
import Rill.Proofs.Tree.Parsed
import Rill.Proofs.Tree.Retyping

/-!
# Simplified functions are accepted

What makes a function acceptable is a matter of its header and of the types of its body.
Simplification touches neither the header nor the types, so it makes no accepted function
unacceptable, however often it is done. It can only stop at a division by zero.
-/

namespace Rill

namespace Function

variable {signatures : SignatureTable} {passes : Nat} {f f' : Function}

theorem accepted_simplify (contained : f.body.contained = true) (accepted : f.Accepted signatures)
    (simplified : f.simplify signatures passes = .ok f') : f'.Accepted signatures := by
  simp only [simplify, except_bind_eq_ok, except_pure_eq_ok] at simplified
  obtain ⟨body, simplified, rfl⟩ := simplified
  obtain ⟨id, S, handle, bound, typed, enough⟩ := accepted
  have step : ∀ {s s' : Stmt},
      s.contained = true ∧ s.WellTyped S.context ∧ (f.body.returns = true → s.returns = true) →
      s.simplify (Context.ofFunction f signatures) = .ok s' →
      s'.contained = true ∧ s'.WellTyped S.context ∧
        (f.body.returns = true → s'.returns = true) := by
    rintro s s' ⟨contained, typed, returned⟩ once
    exact ⟨(Stmt.contained_simplify _ s contained once).1,
      Stmt.wellTyped_simplify s contained once typed,
      fun h => Stmt.returns_simplify s once (returned h)⟩
  obtain ⟨_, typed', returned⟩ :=
    Stmt.simplifyTimes_keeps step ⟨contained, typed, fun h => h⟩ simplified
  exact ⟨id, S, handle, bound, typed', enough.imp_right returned⟩

/-- A parsed function that can be lowered against a table of signatures can be lowered against it
when it has been simplified, for any number of rounds, unless simplification finds a division by
zero. -/
theorem lower_simplify {source : Source} {m : Module} {g : Lir.Function}
    (parsed : source.parse = .ok m) (mem : f ∈ m.functions) (lowered : f.lower signatures = .ok g)
    (passes : Nat) :
    (∃ span, f.simplify signatures passes = .error ⟨.divisionByZero, span⟩) ∨
      ∃ f' g', f.simplify signatures passes = .ok f' ∧ f'.lower signatures = .ok g' := by
  have contained := Stmt.contained_of_braced f.body (Source.braced_of_parse parsed f mem)
  cases simplified : f.simplify signatures passes with
  | error e =>
      have cause := f.failsOnly_simplify signatures passes e simplified
      exact .inl ⟨e.span, by rw [← cause]⟩
  | ok f' =>
      have accepted := accepted_simplify contained (accepted_of_lower contained lowered) simplified
      obtain ⟨g', lowered'⟩ | ⟨refused, _⟩ := f'.lower_cases signatures
      · exact .inr ⟨f', g', rfl, lowered'⟩
      · exact absurd accepted refused

end Function

section Pick

private def var (name : String) (start : Nat) : Expr :=
  .var ⟨start, start + 1⟩ ⟨name, ⟨start, start + 1⟩⟩

private def digit (value : Int64) (start : Nat) : Expr :=
  .literal ⟨start, start + 1⟩ (.int value)

/-- The last statement is never run, and `x` is not declared. -/
def pickSource : Source where
  text :=
    "fn pick(a: bool, b: bool) -> int \x7b if a \x7b if b \x7b return 1 + 2; \x7d \x7d "
      ++ "return 4; x = 5; \x7d"

def pick : Function where
  header :=
    { name := ⟨"pick", ⟨3, 7⟩⟩
      params := [⟨⟨"a", ⟨8, 9⟩⟩, .bool, ⟨8, 15⟩⟩, ⟨⟨"b", ⟨17, 18⟩⟩, .bool, ⟨17, 24⟩⟩]
      returnType := .int
      span := ⟨3, 32⟩ }
  body :=
    let sum := .binary ⟨56, 61⟩ .add (digit 1 56) (digit 2 60)
    let inner := .block ⟨47, 64⟩ [.ret ⟨49, 62⟩ (some sum)]
    let outer := .block ⟨40, 66⟩ [.ite ⟨42, 64⟩ (var "b" 45) (some inner) none]
    .block ⟨33, 85⟩
      [.ite ⟨35, 66⟩ (var "a" 38) (some outer) none, .ret ⟨67, 76⟩ (some (digit 4 74)),
        .assign ⟨77, 83⟩ ⟨"x", ⟨77, 78⟩⟩ (digit 5 81)]
  span := ⟨0, 85⟩

def pickTable : SignatureTable := ⟨⟨#[⟨0, "pick", [.bool, .bool], .int⟩]⟩, [("pick", 0)]⟩

def pickTokens : List Token :=
  [⟨.keyword .fnWord, "fn", ⟨0, 2⟩⟩, ⟨.identifier, "pick", ⟨3, 7⟩⟩, ⟨.mark .openParen, "(", ⟨7, 8⟩⟩,
    ⟨.identifier, "a", ⟨8, 9⟩⟩, ⟨.mark .colon, ":", ⟨9, 10⟩⟩, ⟨.identifier, "bool", ⟨11, 15⟩⟩,
    ⟨.mark .comma, ",", ⟨15, 16⟩⟩, ⟨.identifier, "b", ⟨17, 18⟩⟩, ⟨.mark .colon, ":", ⟨18, 19⟩⟩,
    ⟨.identifier, "bool", ⟨20, 24⟩⟩, ⟨.mark .closeParen, ")", ⟨24, 25⟩⟩,
    ⟨.mark .arrow, "->", ⟨26, 28⟩⟩, ⟨.identifier, "int", ⟨29, 32⟩⟩,
    ⟨.mark .openBrace, "\x7b", ⟨33, 34⟩⟩, ⟨.keyword .ifWord, "if", ⟨35, 37⟩⟩,
    ⟨.identifier, "a", ⟨38, 39⟩⟩, ⟨.mark .openBrace, "\x7b", ⟨40, 41⟩⟩,
    ⟨.keyword .ifWord, "if", ⟨42, 44⟩⟩, ⟨.identifier, "b", ⟨45, 46⟩⟩,
    ⟨.mark .openBrace, "\x7b", ⟨47, 48⟩⟩, ⟨.keyword .returnWord, "return", ⟨49, 55⟩⟩,
    ⟨.integer, "1", ⟨56, 57⟩⟩, ⟨.mark .plus, "+", ⟨58, 59⟩⟩, ⟨.integer, "2", ⟨60, 61⟩⟩,
    ⟨.mark .semicolon, ";", ⟨61, 62⟩⟩, ⟨.mark .closeBrace, "\x7d", ⟨63, 64⟩⟩,
    ⟨.mark .closeBrace, "\x7d", ⟨65, 66⟩⟩, ⟨.keyword .returnWord, "return", ⟨67, 73⟩⟩,
    ⟨.integer, "4", ⟨74, 75⟩⟩, ⟨.mark .semicolon, ";", ⟨75, 76⟩⟩, ⟨.identifier, "x", ⟨77, 78⟩⟩,
    ⟨.mark .equal, "=", ⟨79, 80⟩⟩, ⟨.integer, "5", ⟨81, 82⟩⟩, ⟨.mark .semicolon, ";", ⟨82, 83⟩⟩,
    ⟨.mark .closeBrace, "\x7d", ⟨84, 85⟩⟩]

theorem Function.lower_simplify_pick :
    pickSource.parse = .ok ⟨[pick]⟩ ∧ SignatureTable.build ⟨[pick]⟩ = .ok pickTable ∧
      ∃ g, pick.lower pickTable = .ok g ∧
        ((∃ span, pick.simplify pickTable 8 = .error ⟨.divisionByZero, span⟩) ∨
          ∃ f' g', pick.simplify pickTable 8 = .ok f' ∧ f'.lower pickTable = .ok g') := by
  have lexed : pickSource.tokens = .ok pickTokens := by decide +kernel
  have attempted : Parser.attempt pickSource.eof 500 .functions pickTokens =
      some (.ok ([pick], [])) := by rfl
  have parsed : pickSource.parse = .ok ⟨[pick]⟩ :=
    Source.parse_of_attempt lexed attempted (by decide)
  have built : SignatureTable.build ⟨[pick]⟩ = .ok pickTable := by decide +kernel
  have lowered : ∃ g, pick.lower pickTable = .ok g := by
    have done : (pick.lower pickTable).isOk = true := by decide +kernel
    cases result : pick.lower pickTable with
    | ok g => exact ⟨g, rfl⟩
    | error e =>
        rw [result] at done
        cases done
  obtain ⟨g, lowered⟩ := lowered
  exact ⟨parsed, built, g, lowered, lower_simplify parsed List.mem_cons_self lowered 8⟩

end Pick

end Rill
