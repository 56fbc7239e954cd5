import Rill.Proofs.Tree.Folding

/-!
# The values of constants

The value of an expression is found here in exact integers: a result is computed in `Int` and
only then reduced to 64 bits. Operands come before their operator, the left one first, and no
operand is left out. Folding a constant that has a type gives the literal of its value, or stops
at the first operator on this way that divides by zero.
-/

namespace Rill

/-- The literal of an exact result, reduced to 64 bits. -/
def Literal.reduced (n : Int) : Literal := .int (.ofInt n)

namespace UnaryOp

def value? : UnaryOp → Literal → Option Literal
  | .not, .bool b => some (.bool (!b))
  | .neg, .int n => some (.reduced (-n.toInt))
  | .neg, .float x => some (.float (-x))
  | _, _ => none

theorem value?_eq (op : UnaryOp) (a : Literal) : op.value? a = op.apply? a := by
  cases op <;> cases a
  case neg.int n =>
    show some (Literal.reduced (-n.toInt)) = some (.int (-n))
    rw [Literal.reduced, Int64.ofInt_neg, Int64.ofInt_toInt]
  all_goals rfl

end UnaryOp

namespace BinaryOp

/-- Whether the operator has no value where an integer zero stands on its right. -/
def divides : BinaryOp → Bool
  | .div | .rem => true
  | _ => false

def valueOfInts (op : BinaryOp) (a b : Int) : Option Literal :=
  match op with
  | .add => some (.reduced (a + b))
  | .sub => some (.reduced (a - b))
  | .mul => some (.reduced (a * b))
  | .div => if b = 0 then none else some (.reduced (a.tdiv b))
  | .rem => if b = 0 then none else some (.reduced (a.tmod b))
  | .eq => some (.bool (decide (a = b)))
  | .ne => some (.bool (decide (a ≠ b)))
  | .lt => some (.bool (decide (a < b)))
  | .le => some (.bool (decide (a ≤ b)))
  | .gt => some (.bool (decide (b < a)))
  | .ge => some (.bool (decide (b ≤ a)))

def valueOfFloats (op : BinaryOp) (a b : Float) : Literal :=
  match op with
  | .add => .float (a + b)
  | .sub => .float (a - b)
  | .mul => .float (a * b)
  | .div => .float (a / b)
  | .rem => .float (Number.remainder a b)
  | .eq => .bool (a == b)
  | .ne => .bool (a != b)
  | .lt => .bool (a.lt b)
  | .le => .bool (a.le b)
  | .gt => .bool (b.lt a)
  | .ge => .bool (b.le a)

def value? : BinaryOp → Literal → Literal → Option Literal
  | op, .int a, .int b => op.valueOfInts a.toInt b.toInt
  | op, .float a, .float b => some (op.valueOfFloats a b)
  | .eq, .bool a, .bool b => some (.bool (decide (a = b)))
  | .ne, .bool a, .bool b => some (.bool (decide (a ≠ b)))
  | .eq, .str a, .str b => some (.bool (decide (a = b)))
  | .ne, .str a, .str b => some (.bool (decide (a ≠ b)))
  | _, _, _ => none

/-- An operator has its value as result, or divides by zero. -/
inductive Computes (op : BinaryOp) (a b : Literal) : Prop
  | value {result : Literal} (applied : op.apply a b = .value result)
      (valued : op.value? a b = some result) (nonzero : op.divides = true → b ≠ .int 0)
  | zeroDivisor (applied : op.apply a b = .zeroDivisor) (divides : op.divides = true)
      (zero : b = .int 0)

theorem toInt_ne_zero {n : Int64} (h : n ≠ 0) : n.toInt ≠ 0 := by
  intro zero
  exact h (Int64.toInt_inj.1 zero)

theorem valueOfInts_div (a : Int64) {b : Int64} (nonzero : b ≠ 0) :
    valueOfInts .div a.toInt b.toInt = some (.int (a / b)) := by
  rw [valueOfInts, if_neg (toInt_ne_zero nonzero), Literal.reduced,
    Int64.ofInt_tdiv a.minValue_le_toInt a.toInt_le b.minValue_le_toInt b.toInt_le,
    Int64.ofInt_toInt, Int64.ofInt_toInt]

theorem valueOfInts_rem (a : Int64) {b : Int64} (nonzero : b ≠ 0) :
    valueOfInts .rem a.toInt b.toInt = some (.int (a % b)) := by
  rw [valueOfInts, if_neg (toInt_ne_zero nonzero), Literal.reduced,
    Int64.ofInt_tmod a.minValue_le_toInt a.toInt_le b.minValue_le_toInt b.toInt_le,
    Int64.ofInt_toInt, Int64.ofInt_toInt]

theorem Computes.of_divides {op : BinaryOp} {a b : Int64} {result : Literal}
    (divides : op.divides = true)
    (applied : op.apply (.int a) (.int b) = if b = 0 then .zeroDivisor else .value result)
    (valued : b ≠ 0 → op.valueOfInts a.toInt b.toInt = some result) :
    op.Computes (.int a) (.int b) := by
  by_cases zero : b = 0
  · exact .zeroDivisor (applied.trans (if_pos zero)) divides (congrArg Literal.int zero)
  · refine .value (applied.trans (if_neg zero)) (valued zero) fun _ h => ?_
    exact zero (Literal.int.inj h)

theorem computes_ints (op : BinaryOp) (a b : Int64) : op.Computes (.int a) (.int b) := by
  cases op with
  | add | sub | mul =>
      refine .value rfl ?_ nofun
      simp only [value?, valueOfInts, Literal.reduced, Int64.ofInt_add, Int64.ofInt_sub,
        Int64.ofInt_mul, Int64.ofInt_toInt]
  | div => exact .of_divides rfl rfl (valueOfInts_div a)
  | rem => exact .of_divides rfl rfl (valueOfInts_rem a)
  | eq | ne =>
      refine .value rfl ?_ nofun
      simp only [value?, valueOfInts, ne_eq, Int64.toInt_inj, beq_eq_decide, bne, decide_not]
  | lt | le | gt | ge =>
      refine .value rfl ?_ nofun
      simp only [value?, valueOfInts, Int64.lt_iff_toInt_lt, Int64.le_iff_toInt_le]

theorem ty_of_applied {op : BinaryOp} {a b result : Literal} (h : op.apply a b = .value result) :
    result.ty = op.opClass.result a.ty := by
  have applies := op.applies a b
  rw [h] at applies
  cases applies with
  | value _ _ typed => exact typed

/-- Operands that type check are enough for an operator. -/
theorem computes {op : BinaryOp} {a b : Literal} (same : a.ty = b.ty)
    (accepts : op.opClass.accepts a.ty = true) : op.Computes a b := by
  cases a <;> cases b
  case int.int m n => exact op.computes_ints m n
  case float.float x y =>
    refine .value rfl ?_ fun _ => nofun
    cases op <;> rfl
  case bool.bool p q =>
    cases op with
    | eq | ne => exact .value rfl (by cases p <;> cases q <;> rfl) nofun
    | add | sub | mul | div | rem | lt | le | gt | ge => cases accepts
  case str.str s t =>
    cases op with
    | eq | ne =>
        refine .value rfl ?_ nofun
        simp only [value?, ne_eq, beq_eq_decide, decide_not]
    | add | sub | mul | div | rem | lt | le | gt | ge => cases accepts
  all_goals cases same

end BinaryOp

def LogicOp.value? : LogicOp → Literal → Literal → Option Literal
  | .and, .bool a, .bool b => some (.bool (a && b))
  | .or, .bool a, .bool b => some (.bool (a || b))
  | _, _, _ => none

namespace Expr

/-- The value of an expression that reads no variable and calls nothing. -/
def value? : Expr → Option Literal
  | .literal _ value => some value
  | .var .. | .call .. => none
  | .unary _ op operand => operand.value?.bind op.value?
  | .binary _ op lhs rhs => lhs.value?.bind fun a => rhs.value?.bind fun b => op.value? a b
  | .logic _ op lhs rhs => lhs.value?.bind fun a => rhs.value?.bind fun b => op.value? a b

/-- The binary operators of a constant with their operands, in the order of evaluation. -/
def operations : Expr → List Expr
  | .literal .. | .var .. | .call .. => []
  | .unary _ _ operand => operand.operations
  | .binary span op lhs rhs => lhs.operations ++ rhs.operations ++ [.binary span op lhs rhs]
  | .logic _ _ lhs rhs => lhs.operations ++ rhs.operations

/-- Whether this is the division of something by an integer whose value is zero. -/
def dividesByZero : Expr → Bool
  | .binary _ op _ rhs => op.divides && rhs.value? = some (.int 0)
  | _ => false

/-- What folding makes of a constant of type `ty`. -/
inductive Folds (e : Expr) (ty : Ty) : Prop
  | value (value : Literal) (simplified : e.simplify = .ok (.literal e.span value))
      (typed : value.ty = ty) (valued : e.value? = some value)
      (clean : e.operations.find? dividesByZero = none)
  | stops (node : Expr) (failed : e.simplify = .error ⟨.divisionByZero, node.span⟩)
      (first : e.operations.find? dividesByZero = some node)

namespace Folds

-- The equations are derived here, once for the operators below.
attribute [local simp] simplify

variable {span : Span} {ty : Ty} {lhs rhs : Expr}

theorem unary {op : UnaryOp} {operand : Expr} (folds : operand.Folds ty)
    (accepts : op.accepts ty = true) : (Expr.unary span op operand).Folds ty := by
  cases folds with
  | value a simplified typed valued clean =>
      subst typed
      obtain ⟨result, applied⟩ := UnaryOp.exists_applied_iff.2 accepts
      refine .value result ?_ (UnaryOp.ty_of_applied applied) ?_ clean
      · simp only [simplify, simplified, bind, Except.bind, literal?, Option.bind_some, applied]
        rfl
      · rw [value?, valued, Option.bind_some, op.value?_eq, applied]
  | stops node failed first =>
      refine .stops node ?_ first
      simp only [simplify, failed]
      rfl

/-- Two operands, one after the other. What is left to show is for two values without a division
by zero on the way to them. -/
theorem of_operands {e : Expr} {left right ty : Ty} {last : List Expr}
    {join : Expr → Expr → Except CompileError Expr}
    (simplifies : e.simplify = do
      let lhs ← lhs.simplify
      let rhs ← rhs.simplify
      join lhs rhs)
    (operates : e.operations = lhs.operations ++ rhs.operations ++ last)
    (first : lhs.Folds left) (second : rhs.Folds right)
    (joins : ∀ a b : Literal, a.ty = left → b.ty = right → lhs.value? = some a →
      rhs.value? = some b → e.simplify = join (.literal lhs.span a) (.literal rhs.span b) →
      e.operations.find? dividesByZero = last.find? dividesByZero → e.Folds ty) : e.Folds ty := by
  cases first with
  | stops node failed found =>
      refine .stops node ?_ ?_
      · rw [simplifies, failed]
        rfl
      · simp only [operates, List.find?_append, found, Option.some_or]
  | value a simplified typed valued clean =>
  cases second with
  | stops node failed found =>
      refine .stops node ?_ ?_
      · rw [simplifies, simplified, failed]
        rfl
      · simp only [operates, List.find?_append, clean, found, Option.none_or, Option.some_or]
  | value b simplified' typed' valued' clean' =>
      refine joins a b typed typed' valued valued' ?_ ?_
      · rw [simplifies, simplified, simplified']
        rfl
      · simp only [operates, List.find?_append, clean, clean', Option.none_or]

theorem dividesByZero_binary {op : BinaryOp} {b : Literal} (valued : rhs.value? = some b) :
    (Expr.binary span op lhs rhs).dividesByZero = (op.divides && decide (b = .int 0)) := by
  simp only [dividesByZero, valued, Option.some.injEq]

theorem binary {op : BinaryOp} (left : lhs.Folds ty) (right : rhs.Folds ty)
    (accepts : op.opClass.accepts ty = true) :
    (Expr.binary span op lhs rhs).Folds (op.opClass.result ty) := by
  refine .of_operands (by rw [simplify]) (by rw [operations]) left right ?_
  intro a b typed typed' valued valued' simplified last
  subst typed
  rw [List.find?_singleton, dividesByZero_binary valued'] at last
  cases BinaryOp.computes typed'.symm accepts with
  | @value result applied computed nonzero =>
      refine .value result ?_ (BinaryOp.ty_of_applied applied) ?_ ?_
      · simp only [simplified, literal?, applied]
        rfl
      · rw [value?, valued, valued', Option.bind_some, Option.bind_some, computed]
      · rw [last, if_neg]
        simp only [Bool.and_eq_true, decide_eq_true_eq, not_and]
        exact nonzero
  | zeroDivisor applied divides zero =>
      refine .stops (.binary span op lhs rhs) ?_ ?_
      · simp only [simplified, literal?, applied]
        rfl
      · rw [last, divides, zero]
        rfl

theorem logic {op : LogicOp} (left : lhs.Folds .bool) (right : rhs.Folds .bool) :
    (Expr.logic span op lhs rhs).Folds .bool := by
  refine .of_operands (by rw [simplify]) (by rw [operations, List.append_nil]) left right ?_
  intro a b typed typed' valued valued' simplified clean
  obtain ⟨p, rfl⟩ := Literal.eq_bool typed
  obtain ⟨q, rfl⟩ := Literal.eq_bool typed'
  refine .value (.bool (op.apply p q)) simplified rfl ?_ clean
  rw [value?, valued, valued', Option.bind_some, Option.bind_some]
  cases op <;> rfl

end Folds

theorem folds {ctx : Context} : (e : Expr) → {ty : Ty} → e.isConstant = true →
    e.ty ctx = .ok ty → e.Folds ty
  | .literal _ value, _, _, typed => by
    simp only [ty, Except.ok.injEq] at typed
    refine Folds.value value ?_ typed rfl rfl
    rw [simplify]
    rfl
  | .var .., _, constant, _ | .call .., _, constant, _ => by
    simp only [isConstant, Bool.false_eq_true] at constant
  | .unary _ _ operand, _, constant, typed => by
    simp only [isConstant] at constant
    obtain ⟨typed, accepts⟩ := ty_unary typed
    exact .unary (folds operand constant typed) accepts
  | .binary _ _ lhs rhs, _, constant, typed => by
    simp only [isConstant, Bool.and_eq_true] at constant
    obtain ⟨common, left, right, accepts, rfl⟩ := ty_binary typed
    exact .binary (folds lhs constant.1 left) (folds rhs constant.2 right) accepts
  | .logic _ _ lhs rhs, _, constant, typed => by
    simp only [isConstant, Bool.and_eq_true] at constant
    obtain ⟨left, right, rfl⟩ := ty_logic typed
    exact .logic (folds lhs constant.1 left) (folds rhs constant.2 right)

end Expr

/-- A constant that has a type folds to the literal of its value, unless one of its operators
divides by zero: then the first of them is where folding stops. No other failure is known to
simplification, whatever the tree. -/
theorem constants_fold :
    (∀ (ctx : Context) (e : Expr) (ty : Ty), e.isConstant = true → e.ty ctx = .ok ty →
      match e.operations.find? Expr.dividesByZero with
      | none => ∃ value : Literal, e.simplify = .ok (.literal e.span value) ∧ value.ty = ty ∧
          e.value? = some value
      | some node => e.simplify = .error ⟨.divisionByZero, node.span⟩) ∧
    ∀ (ctx : Context) (s : Stmt) (error : CompileError), s.simplify ctx = .error error →
      error.cause = .divisionByZero := by
  constructor
  · intro ctx e ty constant typed
    cases e.folds constant typed with
    | value value simplified typed valued clean =>
        rw [clean]
        exact ⟨value, simplified, typed, valued⟩
    | stops node failed first =>
        rw [first]
        exact failed
  · intro ctx s error failed
    exact s.failsOnly_simplify error failed

section Witness

/-- The tree of `(-9223372036854775807 - 1) / -1`. -/
def Expr.leastNegated : Expr :=
  .binary ⟨0, 31⟩ .div
    (.binary ⟨0, 26⟩ .sub
      (.unary ⟨1, 21⟩ .neg (.literal ⟨2, 21⟩ (.int 9223372036854775807)))
      (.literal ⟨24, 25⟩ (.int 1)))
    (.unary ⟨29, 31⟩ .neg (.literal ⟨30, 31⟩ (.int 1)))

/-- The tree of `false && 1 / (2 - 2) == 3 % 0`. -/
def Expr.zeroDivisors : Expr :=
  .logic ⟨0, 29⟩ .and (.literal ⟨0, 5⟩ (.bool false))
    (.binary ⟨9, 29⟩ .eq
      (.binary ⟨9, 20⟩ .div (.literal ⟨9, 10⟩ (.int 1))
        (.binary ⟨13, 20⟩ .sub (.literal ⟨14, 15⟩ (.int 2)) (.literal ⟨18, 19⟩ (.int 2))))
      (.binary ⟨24, 29⟩ .rem (.literal ⟨24, 25⟩ (.int 3)) (.literal ⟨28, 29⟩ (.int 0))))

theorem constants_fold_nested :
    let ctx : Context := { name := "f", returnType := .unit, signatures := .empty }
    let error : CompileError := ⟨.divisionByZero, ⟨9, 20⟩⟩
    let s := Stmt.loop ⟨0, 32⟩ Expr.zeroDivisors (.block ⟨30, 32⟩ [])
    (Expr.leastNegated.isConstant = true ∧ Expr.leastNegated.ty ctx = .ok .int ∧
      Expr.leastNegated.value? = some (.int Int64.minValue) ∧
      Expr.leastNegated.simplify = .ok (.literal ⟨0, 31⟩ (.int Int64.minValue))) ∧
    (Expr.zeroDivisors.isConstant = true ∧ Expr.zeroDivisors.ty ctx = .ok .bool ∧
      Expr.zeroDivisors.simplify = .error error) ∧
    s.simplify ctx = .error error ∧ error.cause = .divisionByZero := by
  intro ctx error s
  have constant : Expr.leastNegated.isConstant = true := by decide
  have typed : Expr.leastNegated.ty ctx = .ok .int := by rfl
  have valued : Expr.leastNegated.value? = some (.int Int64.minValue) := by decide
  have constant' : Expr.zeroDivisors.isConstant = true := by decide
  have typed' : Expr.zeroDivisors.ty ctx = .ok .bool := by rfl
  obtain ⟨value, simplified, _, found⟩ :=
    constants_fold.1 ctx Expr.leastNegated .int constant typed
  cases valued.symm.trans found
  have stops : Expr.zeroDivisors.simplify = .error error :=
    constants_fold.1 ctx Expr.zeroDivisors .bool constant' typed'
  have fails : s.simplify ctx = .error error := by
    simp only [s, Stmt.simplify, stops]
    rfl
  exact ⟨⟨constant, typed, valued, simplified⟩, ⟨constant', typed', stops⟩, fails,
    constants_fold.2 ctx s error fails⟩

end Witness

end Rill
