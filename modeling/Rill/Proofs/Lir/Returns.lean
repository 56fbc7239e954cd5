import Rill.Proofs.Lir.Acceptance
import Rill.Proofs.Lir.Flow

/-!
# Where control is after a statement

Behind a statement that is sure to return control does not go on, and behind any other it
does. Return analysis tells the two apart, also when it is run again after lowering has left
the scopes of the statement.
-/

namespace Rill

open Lir

namespace Stmt

/-- Return analysis says what lowering has done: just if it finds a type, which is the declared one,
control does not come past the statement. -/
theorem returnType_lower {S S' : LowerState} {s : Stmt} {u : Unit} (contained : s.contained = true)
    (isOpen : S.emitter.IsOpen) (h : s.lower S = .ok u S') :
    s.returnType S'.context =
        .ok (if s.returns then some S.context.returnType else none) S'.context ∧
      if s.returns then S'.emitter.Stops
      else S'.emitter.IsOpen ∧
        Graph.Path S'.emitter.blocks.get? S.emitter.cursor S'.emitter.cursor := by
  refine ⟨?_, (lower_flows s h isOpen).ends⟩
  have typed := wellTyped_of_lower s contained h
  obtain ⟨r, analysed, declared⟩ := WellTyped.returnType_eq s typed
  have found := (returnType_eq_ok s analysed).2
  rw [returnType_of_lower typed h analysed, ← found]
  cases r with
  | none => rfl
  | some ty => rw [declared ty rfl, Option.isSome_some, if_pos rfl]

section Witness

/-- The tree of `{ let x = 1; if c { return x; } else { let x = true; { return 2; } return x; } }`.
The last return is never looked at. -/
def leaving : Stmt :=
  .block ⟨21, 101⟩
    [.decl ⟨23, 33⟩ ⟨"x", ⟨27, 28⟩⟩ none (some (.literal ⟨31, 32⟩ (.int 1))),
      .ite ⟨34, 99⟩ (.var ⟨37, 38⟩ ⟨"c", ⟨37, 38⟩⟩)
        (some (.block ⟨39, 52⟩ [.ret ⟨41, 50⟩ (some (.var ⟨48, 49⟩ ⟨"x", ⟨48, 49⟩⟩))]))
        (some (.block ⟨58, 99⟩
          [.decl ⟨60, 73⟩ ⟨"x", ⟨64, 65⟩⟩ none (some (.literal ⟨68, 72⟩ (.bool true))),
            .block ⟨74, 87⟩ [.ret ⟨76, 85⟩ (some (.literal ⟨83, 84⟩ (.int 2)))],
            .ret ⟨88, 97⟩ (some (.var ⟨95, 96⟩ ⟨"x", ⟨95, 96⟩⟩))]))]

/-- The tree of `while c && true { return 1; }`. -/
def lingering : Stmt :=
  .loop ⟨0, 29⟩
    (.logic ⟨6, 15⟩ .and (.var ⟨6, 7⟩ ⟨"c", ⟨6, 7⟩⟩) (.literal ⟨11, 15⟩ (.bool true)))
    (.block ⟨16, 29⟩ [.ret ⟨18, 27⟩ (some (.literal ⟨25, 26⟩ (.int 1)))])

/-- Inside a function that returns an integer, behind its first block. -/
def underway : LowerState where
  context :=
    { name := "f"
      returnType := .int
      signatures := .empty
      handle := some 0
      current := [("c", ⟨.bool, some 0, ⟨5, 12⟩⟩)] }
  emitter :=
    { signatures := .empty
      id := 0
      name := "f"
      returnType := .int
      registers := .ofList [.bool]
      arguments := [0]
      blocks := .ofList [⟨0, "entry", [.jump 1], .empty⟩, ⟨1, "cont", [], .ofList [0]⟩]
      cursor := 1 }

theorem returnType_lower_underway :
    ∃ left stayed,
      (leaving.lower underway = .ok () left ∧
        leaving.returnType left.context = .ok (some .int) left.context ∧ left.emitter.Stops) ∧
      (lingering.lower underway = .ok () stayed ∧
        lingering.returnType stayed.context = .ok none stayed.context ∧
        stayed.emitter.IsOpen ∧
        Graph.Path stayed.emitter.blocks.get? underway.emitter.cursor stayed.emitter.cursor) := by
  have isOpen : underway.emitter.IsOpen := ⟨⟨1, "cont", [], .ofList [0]⟩, rfl, rfl⟩
  have leaves := eq_ok_of_succeeds (r := leaving.lower underway) (by decide +kernel)
  have lingers := eq_ok_of_succeeds (r := lingering.lower underway) (by decide +kernel)
  exact ⟨_, _, ⟨leaves, returnType_lower (by decide) isOpen leaves⟩,
    lingers, returnType_lower (by decide) isOpen lingers⟩

end Witness

end Stmt

end Rill
