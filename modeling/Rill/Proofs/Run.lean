import Rill.Lir.Lowering
import Rill.Tree.Arithmetic

/-!
# What can be seen of a run

Trees and lowered functions run on the same values, and a run of either is known
by two things: the calls that it makes, with their arguments and in their order,
and how it ends. Other functions are not run. An oracle answers the calls, and an
answer may depend on every call made before it.

A run need not end. It is therefore given by what has been seen of it after any
number of moments, where a later moment only adds to an earlier one. How much is
done in a moment is up to the notion of execution: instructions of a lowered
function, rounds of the loops of a tree. `Run.Same` does not depend on it.
-/

namespace Rill

/-- Values at run time. -/
abbrev Value := Lir.Immediate

namespace Lir.Immediate

def ty : Immediate → Ty
  | .unit => .unit
  | .int _ => .int
  | .float _ => .float
  | .bool _ => .bool
  | .str _ => .str

/-- All values but the unit can be written as literals. -/
def literal? : Immediate → Option Literal
  | .unit => none
  | .int n => some (.int n)
  | .float x => some (.float x)
  | .bool b => some (.bool b)
  | .str s => some (.str s)

end Lir.Immediate

@[simp] theorem Literal.literal?_immediate (value : Literal) :
    value.immediate.literal? = some value := by
  cases value <;> rfl

@[simp] theorem Literal.ty_immediate (value : Literal) : value.immediate.ty = value.ty := by
  cases value <;> rfl

/-- How a run can end. A tree never ends in the last three ways, and a lowered
function never finds a local unassigned, since its registers always hold something. -/
inductive Ending where
  /-- Nothing is returned in place of the unit. -/
  | returned (value : Option Value)
  /-- An integer was divided by zero. -/
  | zeroDivision (op : BinaryOp) (dividend : Value)
  /-- A local was read that had not been assigned since its declaration. -/
  | unassigned (name : Ident)
  /-- An operation met a value that it is not for, or a name that is not declared. -/
  | stuck
  | unreachable
  /-- Control came to the end of a block that does not hand it on. -/
  | fellOff
  /-- Control was handed to a block that is not there. -/
  | lost
  deriving DecidableEq

structure Call where
  callee : Nat
  args : List Value
  deriving DecidableEq

/-- The answers to calls: of a callee, for its arguments, after the calls made so far. -/
abbrev Oracle := Nat → List Value → List Call → Value

/-- The answers of every declared function are of the type that it declares. -/
def Oracle.Obeys (oracle : Oracle) (signatures : SignatureTable) : Prop :=
  ∀ id s, signatures.signatures.get? id = some s →
    ∀ args calls, (oracle id args calls).ty = s.returnType

/-- The result of an operator at run time. -/
def UnaryOp.onValue (op : UnaryOp) (a : Value) : Except Ending Value :=
  match a.literal?.bind op.apply? with
  | some result => .ok result.immediate
  | none => .error .stuck

/-- The result of an operator at run time. -/
def BinaryOp.onValues (op : BinaryOp) (a b : Value) : Except Ending Value :=
  match a.literal?, b.literal? with
  | some x, some y =>
    match op.apply x y with
    | .value result => .ok result.immediate
    | .zeroDivisor => .error (.zeroDivision op a)
    | .illTyped => .error .stuck
  | _, _ => .error .stuck

/-- What has been seen of a run: the calls so far, and the ending once there is one. -/
structure Moment where
  calls : List Call
  ending : Option Ending
  deriving DecidableEq

namespace Moment

/-- A run that has ended stays as it is; another one may have gone on to further calls. -/
def Before (a b : Moment) : Prop :=
  (a.ending.isSome → b = a) ∧ a.calls <+: b.calls

theorem Before.refl (a : Moment) : a.Before a :=
  ⟨fun _ => rfl, List.prefix_rfl⟩

theorem Before.trans {a b c : Moment} (first : a.Before b) (second : b.Before c) :
    a.Before c := by
  refine ⟨?_, first.2.trans second.2⟩
  intro ended
  have same := first.1 ended
  subst same
  exact second.1 ended

end Moment

structure Run where
  seen : Nat → Moment
  grows : ∀ n, (seen n).Before (seen (n + 1))

namespace Run

@[ext] theorem ext {a b : Run} (h : ∀ n, a.seen n = b.seen n) : a = b := by
  cases a
  cases b
  simp only [mk.injEq]
  exact funext h

/-- What has been seen once is still there later. -/
theorem mono (r : Run) {m n : Nat} (h : m ≤ n) : (r.seen m).Before (r.seen n) := by
  induction h with
  | refl => exact .refl _
  | step _ ih => exact ih.trans (r.grows _)

/-- The run makes these calls, no others, and then ends so. -/
def Ends (r : Run) (calls : List Call) (ending : Ending) : Prop :=
  ∃ n, r.seen n = ⟨calls, some ending⟩

/-- A run ends once. -/
theorem Ends.unique {r : Run} {calls calls' : List Call} {e e' : Ending} (first : r.Ends calls e)
    (second : r.Ends calls' e') : calls = calls' ∧ e = e' := by
  obtain ⟨m, seen⟩ := first
  obtain ⟨n, seen'⟩ := second
  have same : r.seen m = r.seen n := by
    rcases Nat.le_total m n with le | le
    · exact ((r.mono le).1 (by rw [seen]; rfl)).symm
    · exact (r.mono le).1 (by rw [seen']; rfl)
  rw [seen, seen', Moment.mk.injEq, Option.some.injEq] at same
  exact same

/-- The run makes these calls, in this order, before any others. -/
def Makes (r : Run) (calls : List Call) : Prop :=
  ∃ n, calls <+: (r.seen n).calls

def Infinite (r : Run) : Prop :=
  ∀ n, (r.seen n).ending = none

/-- Nothing that can be seen tells the two runs apart. The calls of infinite runs are compared as
well, through their finite beginnings. -/
structure Same (a b : Run) : Prop where
  ends : ∀ calls ending, a.Ends calls ending ↔ b.Ends calls ending
  makes : ∀ calls, a.Makes calls ↔ b.Makes calls
  infinite : a.Infinite ↔ b.Infinite

/-- A run is infinite just if it does not end in any way. -/
theorem infinite_iff (r : Run) : r.Infinite ↔ ∀ calls ending, ¬ r.Ends calls ending := by
  constructor
  · rintro infinite calls ending ⟨n, h⟩
    have := infinite n
    simp [h] at this
  · intro h n
    cases ending : (r.seen n).ending with
    | none => rfl
    | some e => exact absurd ⟨n, by rw [← ending]⟩ (h (r.seen n).calls e)

namespace Same

theorem refl (r : Run) : r.Same r :=
  ⟨fun _ _ => Iff.rfl, fun _ => Iff.rfl, Iff.rfl⟩

theorem symm {a b : Run} (h : a.Same b) : b.Same a :=
  ⟨fun calls e => (h.ends calls e).symm, fun calls => (h.makes calls).symm, h.infinite.symm⟩

theorem trans {a b c : Run} (first : a.Same b) (second : b.Same c) : a.Same c :=
  ⟨fun calls e => (first.ends calls e).trans (second.ends calls e),
    fun calls => (first.makes calls).trans (second.makes calls),
    first.infinite.trans second.infinite⟩

/-- It is enough to meet every moment of one run somewhere in the other, as long as the other has
by then gone on for as many moments itself. Without this bound a run that never ends could be
met by one that stands still. -/
theorem of_pace {a b : Run}
    (meets : ∀ n, ∃ k, b.seen k = a.seen n ∧ ((a.seen n).ending = none → n ≤ k)) :
    a.Same b := by
  have behind : ∀ n, (b.seen n).Before (a.seen n) := by
    intro n
    obtain ⟨k, same, pace⟩ := meets n
    rw [← same] at pace ⊢
    rcases Nat.le_total n k with le | ge
    · exact b.mono le
    · -- The other run has ended at `k` already, and is still as it was then.
      by_cases running : (b.seen k).ending = none
      · exact Nat.le_antisymm (pace running) ge ▸ .refl _
      · have stays := (b.mono ge).1 (Option.isSome_iff_ne_none.2 running)
        exact stays ▸ .refl _
  have ends : ∀ calls e, a.Ends calls e ↔ b.Ends calls e := by
    intro calls e
    constructor
    · rintro ⟨n, h⟩
      obtain ⟨k, same, _⟩ := meets n
      exact ⟨k, same.trans h⟩
    · rintro ⟨n, h⟩
      have stays := (behind n).1 (by simp [h])
      exact ⟨n, stays.trans h⟩
  refine ⟨ends, ?_, ?_⟩
  · intro calls
    constructor
    · rintro ⟨n, h⟩
      obtain ⟨k, same, _⟩ := meets n
      exact ⟨k, same ▸ h⟩
    · rintro ⟨n, h⟩
      exact ⟨n, h.trans (behind n).2⟩
  · simp only [infinite_iff, ends]

end Same

end Run

end Rill
