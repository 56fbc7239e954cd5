import Rill.Proofs.Scope
import Rill.Proofs.Tree.Meaning
import Rill.Typing

/-!
# Shapes of trees

Three properties of statements that can be read off a tree without any context:
that branches and bodies stand in braces, as in every parsed tree; that no branch
or body is a bare declaration, which is what keeps declarations inside their
blocks; and that every path through a statement returns. Return analysis finds
exactly the latter whenever it succeeds, and leaves its context as it was. A run of
such a statement does not come to its end.
-/

namespace Rill

theorem CheckM.ofExcept_eq_ok {α : Type} {r : Except CompileError α} {ctx ctx' : Context} {a : α} :
    ofExcept r ctx = .ok a ctx' ↔ r = .ok a ∧ ctx' = ctx := by
  cases r with
  | ok b =>
      simp only [ofExcept, pure_eq_ok, Except.ok.injEq]
      exact and_congr_right fun _ => eq_comm
  | error e => simp only [ofExcept, throw_eq_ok, reduceCtorEq, false_and]

namespace Stmt

def isBlock : Stmt → Bool
  | .block .. => true
  | _ => false

def isIf : Stmt → Bool
  | .ite .. => true
  | _ => false

mutual

/-- The form of parsed trees: first branches and bodies of loops are blocks, and a second branch is
a block or another conditional. -/
def braced : Stmt → Bool
  | .ite _ _ positive negative => bracedThen positive && bracedElse negative
  | .block _ body => bracedAll body
  | .loop _ _ body => body.isBlock && body.braced
  | .decl .. | .assign .. | .ret .. | .eval .. | .skip _ => true

def bracedThen : Option Stmt → Bool
  | none => false
  | some s => s.isBlock && s.braced

def bracedElse : Option Stmt → Bool
  | none => true
  | some s => (s.isBlock || s.isIf) && s.braced

def bracedAll : List Stmt → Bool
  | [] => true
  | s :: rest => s.braced && bracedAll rest

end

mutual

/-- Declarations stand directly in blocks: no branch and no body of a loop is one. -/
def contained : Stmt → Bool
  | .ite _ _ positive negative => containedOpt positive && containedOpt negative
  | .block _ body => containedAll body
  | .loop _ _ body => !body.isDecl && body.contained
  | .decl .. | .assign .. | .ret .. | .eval .. | .skip _ => true

def containedOpt : Option Stmt → Bool
  | none => true
  | some s => !s.isDecl && s.contained

def containedAll : List Stmt → Bool
  | [] => true
  | s :: rest => s.contained && containedAll rest

end

mutual

/-- Every path through the statement returns. -/
def returns : Stmt → Bool
  | .ite _ _ positive negative => returnsOpt positive && returnsOpt negative
  | .block _ body => returnsAny body
  | .ret .. => true
  | .decl .. | .assign .. | .loop .. | .eval .. | .skip _ => false

def returnsOpt : Option Stmt → Bool
  | none => false
  | some s => s.returns

def returnsAny : List Stmt → Bool
  | [] => false
  | s :: rest => s.returns || returnsAny rest

end

theorem isDecl_eq_false_of_isBlock {s : Stmt} (h : s.isBlock = true) : s.isDecl = false := by
  cases s <;> first | rfl | cases h

theorem isDecl_eq_false_of_isIf {s : Stmt} (h : s.isIf = true) : s.isDecl = false := by
  cases s <;> first | rfl | cases h

mutual

/-- What stands in braces does not declare anything outside of them. -/
theorem contained_of_braced : (s : Stmt) → s.braced = true → s.contained = true
  | .ite _ _ positive negative, h => by
    simp only [braced, Bool.and_eq_true] at h
    simp only [contained, Bool.and_eq_true]
    exact ⟨containedOpt_of_bracedThen positive h.1, containedOpt_of_bracedElse negative h.2⟩
  | .block _ body, h => by
    simp only [braced] at h
    simp only [contained]
    exact containedAll_of_bracedAll body h
  | .loop _ _ body, h => by
    simp only [braced, Bool.and_eq_true] at h
    simp only [contained, Bool.and_eq_true, Bool.not_eq_true']
    exact ⟨isDecl_eq_false_of_isBlock h.1, contained_of_braced body h.2⟩
  | .decl .., _ | .assign .., _ | .ret .., _ | .eval .., _ | .skip _, _ => by
    simp only [contained]

theorem containedOpt_of_bracedThen : (s : Option Stmt) → bracedThen s = true → containedOpt s = true
  | none, _ => by simp only [containedOpt]
  | some s, h => by
    simp only [bracedThen, Bool.and_eq_true] at h
    simp only [containedOpt, Bool.and_eq_true, Bool.not_eq_true']
    exact ⟨isDecl_eq_false_of_isBlock h.1, contained_of_braced s h.2⟩

theorem containedOpt_of_bracedElse : (s : Option Stmt) → bracedElse s = true → containedOpt s = true
  | none, _ => by simp only [containedOpt]
  | some s, h => by
    simp only [bracedElse, Bool.and_eq_true, Bool.or_eq_true] at h
    simp only [containedOpt, Bool.and_eq_true, Bool.not_eq_true']
    exact ⟨h.1.elim isDecl_eq_false_of_isBlock isDecl_eq_false_of_isIf, contained_of_braced s h.2⟩

theorem containedAll_of_bracedAll : (ss : List Stmt) → bracedAll ss = true → containedAll ss = true
  | [], _ => by simp only [containedAll]
  | s :: rest, h => by
    simp only [bracedAll, Bool.and_eq_true] at h
    simp only [containedAll, Bool.and_eq_true]
    exact ⟨contained_of_braced s h.1, containedAll_of_bracedAll rest h.2⟩

end

theorem bindLocal_outer {s : Stmt} {ctx ctx' : Context} {u : Unit}
    (h : s.bindLocal ctx = .ok u ctx') : ctx' = { ctx with current := ctx'.current } :=
  (s.leaves_bindLocal.of_ok h).rest

mutual

/-- Return analysis finds a type just if every path returns. -/
theorem isSome_returnType {ctx ctx' : Context} {r : Option Ty} : (s : Stmt) →
    s.returnType ctx = .ok r ctx' → r.isSome = s.returns
  | .ite _ _ positive none, h => by
    simp only [returnType, pure_eq_ok] at h
    simp only [← h.1, returns, returnsOpt, Bool.and_false, Option.isSome_none]
  | .ite _ _ none (some _), h => by
    simp only [returnType, throw_eq_ok] at h
  | .ite _ _ (some positive) (some negative), h => by
    simp only [returnType, bind_eq_ok] at h
    obtain ⟨first, _, one, second, _, two, h⟩ := h
    simp only [returns, returnsOpt, ← isSome_returnType positive one,
      ← isSome_returnType negative two]
    split at h
    · split at h
      · simp only [bind_eq_ok, throw_eq_ok] at h
        obtain ⟨_, _, impossible, _⟩ := h
        exact impossible.elim
      · simp only [pure_eq_ok] at h
        rw [← h.1]
        rfl
    · simp only [pure_eq_ok] at h
      rw [← h.1]
      cases first <;> cases second <;> simp_all
  | .block _ body, h => by
    simp only [returnType, CheckM.inScope] at h
    split at h
    next a after analysed =>
      cases h
      simp only [returns]
      exact isSome_returnTypeAll body analysed
    next => cases h
  | .ret _ (some value), h => by
    simp only [returnType, bind_eq_ok, pure_eq_ok] at h
    obtain ⟨_, _, _, _, _, _, rfl, _⟩ := h
    simp only [returns, Option.isSome_some]
  | .ret _ none, h => by
    simp only [returnType, pure_eq_ok] at h
    simp only [← h.1, returns, Option.isSome_some]
  | .decl .., h | .assign .., h | .loop .., h | .eval .., h | .skip _, h => by
    simp only [returnType, pure_eq_ok] at h
    simp only [← h.1, returns, Option.isSome_none]

theorem isSome_returnTypeAll {ctx ctx' : Context} {r : Option Ty} : (ss : List Stmt) →
    returnTypeAll ss ctx = .ok r ctx' → r.isSome = returnsAny ss
  | [], h => by
    simp only [returnTypeAll, pure_eq_ok] at h
    simp only [← h.1, returnsAny, Option.isSome_none]
  | s :: rest, h => by
    simp only [returnTypeAll, bind_eq_ok] at h
    obtain ⟨_, _, _, found, _, analysed, h⟩ := h
    simp only [returnsAny, ← isSome_returnType s analysed]
    cases found with
    | some ty =>
        simp only [pure_eq_ok] at h
        rw [← h.1]
        rfl
    | none => simpa using isSome_returnTypeAll rest h

end

/-- When return analysis succeeds, it has found a type just for the statements that return on every
path, and its context is what it was. -/
theorem returnType_eq_ok {ctx ctx' : Context} {r : Option Ty} (s : Stmt)
    (h : s.returnType ctx = .ok r ctx') : ctx' = ctx ∧ r.isSome = s.returns :=
  ⟨(s.leaves_returnType.of_ok h).symm, s.isSome_returnType h⟩

theorem returnTypeAll_eq_ok {ctx ctx' : Context} {r : Option Ty} (ss : List Stmt)
    (h : returnTypeAll ss ctx = .ok r ctx') :
    ctx' = { ctx with current := ctx'.current } ∧ r.isSome = returnsAny ss :=
  ⟨((leaves_returnTypeAll ss).of_ok h).rest, isSome_returnTypeAll ss h⟩

variable {signatures : SignatureTable} {oracle : Oracle} {rounds : Nat}

mutual

/-- A statement whose every path returns does not come to its end. -/
theorem exec_ne_ok {frame frame' : Frame} {u : Unit} : (s : Stmt) → s.returns = true →
    s.exec signatures oracle rounds frame ≠ .ok u frame'
  | .ite _ condition positive negative, h => by
    simp only [returns, Bool.and_eq_true] at h
    simp only [exec, ne_eq, bind_eq_ok, not_exists, not_and]
    intro b frame₁ _
    cases b with
    | true => exact execOpt_ne_ok positive h.1
    | false => exact execOpt_ne_ok negative h.2
  | .block _ body, h => by
    simp only [returns] at h
    simp only [exec, ExecM.inScope]
    intro fell
    split at fell
    · next run => exact execAll_ne_ok body h run
    · cases fell
  | .ret _ value, _ => by
    simp only [exec, ne_eq, bind_eq_ok, throw_eq_ok, and_false, exists_false, not_false_eq_true]
  | .decl .., h | .assign .., h | .loop .., h | .eval .., h | .skip _, h => by
    simp only [returns, Bool.false_eq_true] at h

theorem execOpt_ne_ok {frame frame' : Frame} {u : Unit} : (s : Option Stmt) → returnsOpt s = true →
    execOpt signatures oracle rounds s frame ≠ .ok u frame'
  | none, h => by
    simp only [returnsOpt, Bool.false_eq_true] at h
  | some s, h => by
    simp only [execOpt]
    exact exec_ne_ok s h

theorem execAll_ne_ok {frame frame' : Frame} {u : Unit} : (ss : List Stmt) →
    returnsAny ss = true → execAll signatures oracle rounds ss frame ≠ .ok u frame'
  | [], h => by
    simp only [returnsAny, Bool.false_eq_true] at h
  | s :: rest, h => by
    simp only [returnsAny, Bool.or_eq_true] at h
    simp only [execAll, ne_eq, bind_eq_ok, not_exists, not_and]
    intro _ frame₁ first
    rcases h with returned | later
    · exact absurd first (exec_ne_ok s returned)
    · exact execAll_ne_ok rest later

end

end Stmt

end Rill
