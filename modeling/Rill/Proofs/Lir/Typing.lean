import Rill.Proofs.Lir.Layout
import Rill.Proofs.Lir.WellFormed
import Rill.Proofs.Tree.Typed

/-!
# Lowered code is well typed

Registers keep the type that they are made with. `Instruction.WellTyped` gives the rules
for single instructions, apart from how types are checked in trees. By induction over a
tree, its lowering emits only instructions that obey them, and every binding in scope has
a register of its type all along; `LowerState.Typed` is what a step of lowering finds and
leaves. A name that is declared again in its scope keeps its register, which is why it
must be declared with the same type.
-/

namespace Rill

open Lir

/-- The types of an operand and of the result. -/
inductive UnaryOp.Rule : UnaryOp → Ty → Ty → Prop
  | not : Rule .not .bool .bool
  | neg {ty : Ty} (numeric : ty = .int ∨ ty = .float) : Rule .neg ty ty

/-- The type of both operands and that of the result. -/
inductive BinaryOp.Rule : BinaryOp → Ty → Ty → Prop
  | arithmetic {op : BinaryOp} {ty : Ty}
      (known : op = .add ∨ op = .sub ∨ op = .mul ∨ op = .div ∨ op = .rem)
      (numeric : ty = .int ∨ ty = .float) : Rule op ty ty
  | ordering {op : BinaryOp} {ty : Ty} (known : op = .lt ∨ op = .le ∨ op = .gt ∨ op = .ge)
      (numeric : ty = .int ∨ ty = .float) : Rule op ty .bool
  | equality {op : BinaryOp} {ty : Ty} (known : op = .eq ∨ op = .ne) (value : ty ≠ .unit) :
      Rule op ty .bool

theorem Ty.eq_of_isNumeric {ty : Ty} (h : ty.isNumeric = true) : ty = .int ∨ ty = .float := by
  cases ty <;> simp_all [isNumeric]

theorem UnaryOp.rule_of_accepts {op : UnaryOp} {ty : Ty} (h : op.accepts ty = true) :
    op.Rule ty ty := by
  cases op with
  | not =>
      obtain rfl : ty = .bool := eq_of_beq h
      exact .not
  | neg => exact .neg (Ty.eq_of_isNumeric h)

theorem BinaryOp.rule_of_accepts {op : BinaryOp} {ty : Ty} (h : op.opClass.accepts ty = true) :
    op.Rule ty (op.opClass.result ty) := by
  cases op with
  | add | sub | mul | div | rem => exact .arithmetic (by simp) (Ty.eq_of_isNumeric h)
  | lt | le | gt | ge => exact .ordering (by simp) (Ty.eq_of_isNumeric h)
  | eq | ne => exact .equality (by simp) (by rintro rfl; cases h)

namespace Lir

inductive Operand.HasType (registers : Registers) : Operand → Ty → Prop
  | imm (value : Immediate) : HasType registers (.imm value) value.ty
  | reg {r : Nat} {ty : Ty} (known : registers.get? r = some ty) : HasType registers (.reg r) ty

/-- The instruction obeys the rules of the language, in a function that returns `returnType`. -/
inductive Instruction.WellTyped (signatures : SignatureTable) (registers : Registers)
    (returnType : Ty) : Instruction → Prop
  | move {dest : Nat} {source : Operand} {ty : Ty} (result : registers.get? dest = some ty)
      (typed : source.HasType registers ty) :
      WellTyped signatures registers returnType (.move dest source)
  | unary {op : UnaryOp} {dest : Nat} {operand : Operand} {ty ty' : Ty} (rule : op.Rule ty ty')
      (typed : operand.HasType registers ty) (result : registers.get? dest = some ty') :
      WellTyped signatures registers returnType (.unary op dest operand)
  | binary {op : BinaryOp} {dest : Nat} {lhs rhs : Operand} {ty ty' : Ty} (rule : op.Rule ty ty')
      (left : lhs.HasType registers ty) (right : rhs.HasType registers ty)
      (result : registers.get? dest = some ty') :
      WellTyped signatures registers returnType (.binary op dest lhs rhs)
  | branch {condition : Operand} (positive negative : Nat)
      (typed : condition.HasType registers .bool) :
      WellTyped signatures registers returnType (.branch condition positive negative)
  | jump (target : Nat) : WellTyped signatures registers returnType (.jump target)
  | nothing : WellTyped signatures registers returnType (.ret none)
  | value {value : Operand} (typed : value.HasType registers returnType) :
      WellTyped signatures registers returnType (.ret (some value))
  | callUnit {target : Nat} {args : List Operand} {signature : Signature}
      (declared : signatures.signatures.get? target = some signature)
      (typed : List.Forall₂ (Operand.HasType registers) args signature.params)
      (unit : signature.returnType = .unit) :
      WellTyped signatures registers returnType (.call target args none)
  | callValue {target dest : Nat} {args : List Operand} {signature : Signature}
      (declared : signatures.signatures.get? target = some signature)
      (typed : List.Forall₂ (Operand.HasType registers) args signature.params)
      (given : signature.returnType ≠ .unit)
      (result : registers.get? dest = some signature.returnType) :
      WellTyped signatures registers returnType (.call target args (some dest))
  | unreachable : WellTyped signatures registers returnType .unreachable

/-- The registers that an operand mentions. -/
def Operand.registers : Operand → List Nat
  | .imm _ => []
  | .reg r => [r]

/-- The registers that an instruction mentions. -/
def Instruction.registers : Instruction → List Nat
  | .move dest source => dest :: source.registers
  | .unary _ dest operand => dest :: operand.registers
  | .binary _ dest lhs rhs => dest :: (lhs.registers ++ rhs.registers)
  | .branch condition _ _ => condition.registers
  | .ret value => value.toList.flatMap Operand.registers
  | .call _ args dest => dest.toList ++ args.flatMap Operand.registers
  | .jump _ | .unreachable => []

/-- All instructions obey the rules, and the first registers are those of the arguments. -/
structure Function.WellTyped (f : Function) (signatures : SignatureTable) (params : List Ty) :
    Prop where
  arguments : f.arguments = List.range params.length
  params : f.arguments.map f.registers.get? = params.map some
  instructions : ∀ i ∈ f.instructions, i.WellTyped signatures f.registers f.returnType
  registers : ∀ i ∈ f.instructions, ∀ r ∈ i.registers, r < f.registers.size

section Registers

variable {registers registers' : Registers} {signatures : SignatureTable} {returnType ty : Ty}

/-- Registers keep their types when others are added. -/
theorem get?_mono (more : registers.toList <+: registers'.toList) {r : Nat}
    (known : registers.get? r = some ty) : registers'.get? r = some ty := by
  obtain ⟨rest, added⟩ := more
  rw [← Registers.getElem?_toList] at known ⊢
  rw [← added, List.getElem?_append_left (List.getElem?_eq_some_iff.1 known).1]
  exact known

theorem Operand.HasType.mono {operand : Operand} (h : operand.HasType registers ty)
    (more : registers.toList <+: registers'.toList) : operand.HasType registers' ty := by
  cases h with
  | imm value => exact .imm value
  | reg known => exact .reg (get?_mono more known)

theorem Instruction.WellTyped.mono {i : Instruction}
    (h : i.WellTyped signatures registers returnType)
    (more : registers.toList <+: registers'.toList) :
    i.WellTyped signatures registers' returnType := by
  cases h with
  | move result typed => exact .move (get?_mono more result) (typed.mono more)
  | unary rule typed result => exact .unary rule (typed.mono more) (get?_mono more result)
  | binary rule left right result =>
      exact .binary rule (left.mono more) (right.mono more) (get?_mono more result)
  | branch positive negative typed => exact .branch positive negative (typed.mono more)
  | jump target => exact .jump target
  | nothing => exact .nothing
  | value typed => exact .value (typed.mono more)
  | callUnit declared typed unit =>
      exact .callUnit declared (typed.imp fun _ _ h => h.mono more) unit
  | callValue declared typed given result =>
      exact .callValue declared (typed.imp fun _ _ h => h.mono more) given
        (get?_mono more result)
  | unreachable => exact .unreachable

theorem Operand.HasType.registers_lt {operand : Operand} (h : operand.HasType registers ty) :
    ∀ r ∈ operand.registers, r < registers.size := by
  cases h with
  | imm value => exact fun _ mem => absurd mem List.not_mem_nil
  | reg known =>
      intro r mem
      rw [List.mem_singleton.1 mem]
      exact Registers.lt_size_of_get? known

theorem Operand.registers_lt_of_forall₂ {operands : List Operand} {params : List Ty}
    (h : List.Forall₂ (HasType registers) operands params) :
    ∀ r ∈ operands.flatMap Operand.registers, r < registers.size := by
  induction h with
  | nil => exact fun _ mem => absurd mem List.not_mem_nil
  | cons first _ ih =>
      intro r mem
      rw [List.flatMap_cons, List.mem_append] at mem
      exact mem.elim (first.registers_lt r) (ih r)

/-- A well-typed instruction mentions only registers that exist. -/
theorem Instruction.WellTyped.registers_lt {i : Instruction}
    (h : i.WellTyped signatures registers returnType) : ∀ r ∈ i.registers, r < registers.size := by
  cases h with
  | move result typed =>
      exact List.forall_mem_cons.2 ⟨Registers.lt_size_of_get? result, typed.registers_lt⟩
  | unary _ typed result =>
      exact List.forall_mem_cons.2 ⟨Registers.lt_size_of_get? result, typed.registers_lt⟩
  | binary _ left right result =>
      exact List.forall_mem_cons.2 ⟨Registers.lt_size_of_get? result,
        List.forall_mem_append.2 ⟨left.registers_lt, right.registers_lt⟩⟩
  | branch _ _ typed => exact typed.registers_lt
  | jump | nothing | unreachable => exact fun _ mem => absurd mem List.not_mem_nil
  | value typed =>
      simpa [Instruction.registers] using typed.registers_lt
  | callUnit _ typed _ => exact Operand.registers_lt_of_forall₂ typed
  | callValue _ typed _ result =>
      exact List.forall_mem_cons.2
        ⟨Registers.lt_size_of_get? result, Operand.registers_lt_of_forall₂ typed⟩

end Registers

namespace Emitter

variable {e e' : Emitter}

def WellTyped (e : Emitter) : Prop :=
  ∀ k b, e.blocks.get? k = some b → ∀ i ∈ b.instructions,
    i.WellTyped e.signatures e.registers e.returnType

theorem WellTyped.emits {i : Instruction} (code : e.WellTyped) (h : e.Emits i e')
    (typed : i.WellTyped e.signatures e.registers e.returnType) : e'.WellTyped := by
  intro k b' found j mem
  rw [h.rest]
  rcases h.mem_instructions found mem with rfl | ⟨b, found, mem⟩
  · exact typed
  · exact code k b found j mem

theorem get?_withRegister (e : Emitter) (ty : Ty) :
    (e.withRegister ty).registers.get? e.registers.size = some ty := by
  rw [← Registers.getElem?_toList, withRegister, Registers.toList_push, ← Registers.length_toList,
    List.getElem?_concat_length]

theorem Emits.hasType_register {i : Instruction} {ty : Ty} (h : (e.withRegister ty).Emits i e') :
    Operand.HasType e'.registers (.reg e.registers.size) ty := by
  rw [h.rest]
  exact .reg (get?_withRegister e ty)

theorem WellTyped.withRegister (code : e.WellTyped) (ty : Ty) : (e.withRegister ty).WellTyped :=
  fun k b found i mem => (code k b found i mem).mono (Later.withRegister e ty).registers

theorem WellTyped.withBlock (code : e.WellTyped) (label : String) :
    (e.withBlock label).WellTyped := by
  intro k b found i mem
  rw [Emitter.withBlock, Table.get?_push] at found
  split at found
  · cases found
    cases mem
  · exact code k b found i mem

end Emitter

end Lir

/-- The binding has a register of its type. -/
def Binding.TypedIn (registers : Registers) (b : Binding) : Prop :=
  ∃ r, b.register = some r ∧ registers.get? r = some b.ty

theorem Binding.TypedIn.mono {registers registers' : Registers} {b : Binding}
    (h : b.TypedIn registers) (more : registers.toList <+: registers'.toList) :
    b.TypedIn registers' := by
  obtain ⟨r, register, known⟩ := h
  exact ⟨r, register, get?_mono more known⟩

namespace Lir

/-- What lowering finds and leaves: the context and the emitter agree, every binding in scope has a
register of its type, and what has been emitted is well typed. -/
structure LowerState.Typed (S : LowerState) : Prop where
  signatures : S.context.signatures = S.emitter.signatures
  returnType : S.context.returnType = S.emitter.returnType
  bindings : ∀ scope ∈ S.context.scopes, ∀ name b, scope.get? name = some b →
    b.TypedIn S.emitter.registers
  code : S.emitter.WellTyped

/-- A step of lowering: the state is still typed, and nothing is taken back. -/
structure LowerState.Advances (S S' : LowerState) : Prop where
  typed : S'.Typed
  later : S.emitter.Later S'.emitter

namespace LowerState

variable {S S' S'' : LowerState} {e : Emitter}

/-- The emitter may have gone on in the same context. -/
theorem Typed.later (typed : S.Typed) (later : S.emitter.Later e) (code : e.WellTyped) :
    Typed ⟨S.context, e⟩ where
  signatures := typed.signatures.trans later.header.1.symm
  returnType := typed.returnType.trans later.header.2.2.1.symm
  bindings := fun scope mem name b found =>
    (typed.bindings scope mem name b found).mono later.registers
  code := code

theorem Typed.lookup (typed : S.Typed) {name : Ident} {b : Binding}
    (found : S.context.lookup name = .ok b) : b.TypedIn S.emitter.registers := by
  obtain ⟨scope, mem, found⟩ := List.exists_of_findSome?_eq_some (Context.lookup_eq_ok.1 found)
  exact typed.bindings scope mem name.name b found

/-- A name of the innermost scope is bound to a register of its type. -/
theorem Typed.binds {ctx : Context} {name : String} {ty : Ty} {dest : Nat} (typed : S.Typed)
    (binds : S.context.Binds name ty dest ctx)
    (outer : ctx = { S.context with current := ctx.current })
    (known : S.emitter.registers.get? dest = some ty) : Typed ⟨ctx, S.emitter⟩ where
  signatures := by
    rw [outer]
    exact typed.signatures
  returnType := by
    rw [outer]
    exact typed.returnType
  bindings := by
    intro scope mem n b found
    rcases List.mem_cons.1 mem with rfl | mem
    · by_cases same : n = name
      · obtain ⟨b', bound, rfl, register⟩ := binds.bound
        rw [same] at found
        obtain rfl := Option.some.inj (found.symm.trans bound)
        exact ⟨dest, register, known⟩
      · rw [binds.others n same] at found
        exact typed.bindings S.context.current List.mem_cons_self n b found
    · rw [binds.outer] at mem
      exact typed.bindings scope (List.mem_cons_of_mem S.context.current mem) n b found
  code := typed.code

theorem Typed.push (typed : S.Typed) : Typed { S with context := S.context.push } where
  signatures := typed.signatures
  returnType := typed.returnType
  bindings := by
    intro scope mem name b found
    rcases List.mem_cons.1 mem with rfl | mem
    · cases found
    · exact typed.bindings scope mem name b found
  code := typed.code

namespace Advances

theorem refl (typed : S.Typed) : S.Advances S :=
  ⟨typed, .refl S.emitter⟩

theorem trans (first : S.Advances S') (second : S'.Advances S'') : S.Advances S'' :=
  ⟨second.typed, first.later.trans second.later⟩

theorem of_later (h : S.Advances S') (later : S'.emitter.Later e) (code : e.WellTyped) :
    S.Advances { S' with emitter := e } :=
  ⟨h.typed.later later code, h.later.trans later⟩

theorem emit {i : Instruction} (h : S.Advances S') (emits : S'.emitter.Emits i e)
    (typed : i.WellTyped S'.emitter.signatures S'.emitter.registers S'.emitter.returnType) :
    S.Advances { S' with emitter := e } :=
  h.of_later (.of_emits emits) (h.typed.code.emits emits typed)

theorem register (h : S.Advances S') (ty : Ty) :
    S.Advances { S' with emitter := S'.emitter.withRegister ty } :=
  h.of_later (.withRegister ..) (h.typed.code.withRegister ty)

theorem block (h : S.Advances S') (label : String) :
    S.Advances { S' with emitter := S'.emitter.withBlock label } :=
  h.of_later (.withBlock ..) (h.typed.code.withBlock label)

theorem moveTo (h : S.Advances S') (k : Nat) :
    S.Advances { S' with emitter := S'.emitter.moveTo k } :=
  h.of_later (.moveTo ..) h.typed.code

theorem goesOn {returns : Bool} {target : Nat} (h : S.Advances S')
    (goes : S'.emitter.GoesOn returns target e) : S.Advances { S' with emitter := e } := by
  cases returns with
  | true =>
      obtain rfl : e = S'.emitter := goes
      exact h
  | false => exact h.emit goes (.jump target)

theorem fork_logic {op : LogicOp} {a : Operand} {first second : String} {rhs join : Nat}
    (h : S.Advances S') (typed : a.HasType S'.emitter.registers .bool)
    (branches : ((S'.emitter.withBlock first).withBlock second).Emits (op.branch a rhs join) e) :
    S.Advances { S' with emitter := e } := by
  refine ((h.block first).block second).emit branches ?_
  cases op with
  | and => exact .branch rhs join typed
  | or => exact .branch join rhs typed

end Advances

end LowerState

end Lir

namespace Expr

mutual

/-- Lowering an expression keeps the state typed, and the operand has the type of the expression. -/
theorem lower_advances {S S' : LowerState} {operand : Operand} : (e : Expr) →
    e.lower S = .ok operand S' → S.Typed → S.Advances S' ∧
      ∀ ty, e.ty S.context = .ok ty → operand.HasType S'.emitter.registers ty
  | .literal _ value, h, typed => by
    obtain ⟨rfl, rfl⟩ := lower_literal h
    refine ⟨.refl typed, fun ty known => ?_⟩
    simp only [Expr.ty, Except.ok.injEq] at known
    rw [← known, ← Literal.ty_immediate]
    exact .imm value.immediate
  | .var _ name, h, typed => by
    obtain ⟨binding, r, found, register, rfl, rfl⟩ := lower_var h
    refine ⟨.refl typed, fun ty known => ?_⟩
    obtain ⟨binding', found', rfl⟩ := ty_var known
    obtain rfl := Except.ok.inj (found.symm.trans found')
    obtain ⟨r', register', known⟩ := typed.lookup found
    obtain rfl := Option.some.inj (register.symm.trans register')
    exact .reg known
  | .call _ target args, h, typed => by
    obtain ⟨ty, function, operands, S₁, e₂, checked, handle, lowered, result, rfl⟩ := lower_call h
    obtain ⟨signature, declared, count, args_, rfl⟩ := ty_call checked
    obtain ⟨advances, passed⟩ := lowerAll_advances args lowered typed
    have passed := passed _ count args_
    -- The number of the callee is that of the signature the call was checked against.
    have row : S₁.emitter.signatures.signatures.get? function = some signature := by
      obtain ⟨id, handle', row⟩ := SignatureTable.lookup_eq_ok.1 declared
      rw [typed.signatures] at handle' row
      obtain rfl := Option.some.inj (handle.symm.trans handle')
      rw [advances.later.header.1]
      exact row
    rcases result with ⟨unit, rfl, emits⟩ | ⟨value, rfl, emits⟩
    · have unit : signature.returnType = .unit := eq_of_beq unit
      refine ⟨advances.emit emits (.callUnit row passed unit), fun ty known => ?_⟩
      obtain rfl := Except.ok.inj (known.symm.trans checked)
      rw [unit]
      exact .imm .unit
    · have given : signature.returnType ≠ .unit := ne_of_beq_false value
      have more := (Emitter.Later.withRegister S₁.emitter signature.returnType).registers
      refine ⟨(advances.register signature.returnType).emit emits
        (.callValue row (passed.imp fun _ _ h => h.mono more) given (Emitter.get?_withRegister ..)),
        fun ty known => ?_⟩
      obtain rfl := Except.ok.inj (known.symm.trans checked)
      exact emits.hasType_register
  | .unary _ op arg, h, typed => by
    obtain ⟨ty, a, S₁, e₂, checked, lowered, emits, rfl, rfl⟩ := lower_unary h
    obtain ⟨known, accepts⟩ := ty_unary checked
    obtain ⟨advances, passed⟩ := lower_advances arg lowered typed
    have more := (Emitter.Later.withRegister S₁.emitter ty).registers
    refine ⟨(advances.register ty).emit emits (.unary (UnaryOp.rule_of_accepts accepts)
      ((passed ty known).mono more) (Emitter.get?_withRegister ..)), fun ty' known' => ?_⟩
    obtain rfl := Except.ok.inj (known'.symm.trans checked)
    exact emits.hasType_register
  | .binary _ op lhs rhs, h, typed => by
    obtain ⟨ty, a, S₁, b, S₂, e₃, checked, left, right, emits, rfl, rfl⟩ := lower_binary h
    obtain ⟨common, known, known', accepts, rfl⟩ := ty_binary checked
    obtain ⟨advances, passed⟩ := lower_advances lhs left typed
    obtain ⟨advances', passed'⟩ := lower_advances rhs right advances.typed
    rw [lower_context lhs left] at passed'
    have more := (Emitter.Later.withRegister S₂.emitter (op.opClass.result common)).registers
    refine ⟨((advances.trans advances').register _).emit emits
      (.binary (BinaryOp.rule_of_accepts accepts)
        ((passed common known).mono (advances'.later.registers.trans more))
        ((passed' common known').mono more) (Emitter.get?_withRegister ..)), fun ty known => ?_⟩
    obtain rfl := Except.ok.inj (known.symm.trans checked)
    exact emits.hasType_register
  | .logic _ op lhs rhs, h, typed => by
    obtain ⟨ty, a, S₁, e₂, e₃, b, S₄, e₅, e₆, checked, left, moves, branches, right, moves', jumps,
      rfl, rfl⟩ := lower_logic h
    obtain ⟨known, known', rfl⟩ := ty_logic checked
    have begun := (LowerState.Advances.refl typed).register .bool
    have dest := Emitter.get?_withRegister S.emitter .bool
    obtain ⟨advances, passed⟩ := lower_advances lhs left begun.typed
    have passed := passed .bool known
    have moved := advances.emit moves
      (.move (get?_mono advances.later.registers dest) passed)
    have forked := moved.fork_logic (passed.mono (Emitter.Later.of_emits moves).registers) branches
    have entered := forked.moveTo e₂.blocks.size
    obtain ⟨advances', passed'⟩ := lower_advances rhs right entered.typed
    have kept : S₁.context = S.context := by
      have kept := lower_context lhs left
      exact kept
    have passed' := passed' .bool (kept ▸ known')
    have grown := entered.trans advances'
    have joined := ((grown.emit moves'
      (.move (get?_mono grown.later.registers dest) passed')).emit jumps
      (.jump (e₂.blocks.size + 1))).moveTo (e₂.blocks.size + 1)
    refine ⟨begun.trans joined, fun ty known => ?_⟩
    obtain rfl := Except.ok.inj (known.symm.trans checked)
    exact .reg (get?_mono joined.later.registers dest)

theorem lowerAll_advances {S S' : LowerState} {operands : List Operand} : (es : List Expr) →
    lowerAll es S = .ok operands S' → S.Typed → S.Advances S' ∧
      ∀ params : List Ty, params.length = es.length → checkArgs S.context es params = .ok () →
        List.Forall₂ (Operand.HasType S'.emitter.registers) operands params
  | [], h, typed => by
    obtain ⟨rfl, rfl⟩ := lowerAll_nil h
    refine ⟨.refl typed, fun params count _ => ?_⟩
    rw [List.length_eq_zero_iff.1 count]
    exact .nil
  | e :: es, h, typed => by
    obtain ⟨a, S₁, rest, first, others, rfl⟩ := lowerAll_cons h
    obtain ⟨advances, passed⟩ := lower_advances e first typed
    obtain ⟨advances', passed'⟩ := lowerAll_advances es others advances.typed
    rw [lower_context e first] at passed'
    refine ⟨advances.trans advances', fun params count checked => ?_⟩
    cases params with
    | nil => cases count
    | cons param params =>
        obtain ⟨known, checked⟩ := checkArgs_cons checked
        exact .cons ((passed param known).mono advances'.later.registers)
          (passed' params (Nat.succ.inj count) checked)

end

end Expr

theorem Expr.lowerOpt_advances {S S' : LowerState} {e : Option Expr} {operand : Option Operand}
    (h : lowerOpt e S = .ok operand S') (typed : S.Typed) : S.Advances S' ∧
      ∀ ty, (∀ value, e = some value → value.ty S.context = .ok ty) →
        ∀ a, operand = some a → a.HasType S'.emitter.registers ty := by
  cases e with
  | none =>
      obtain ⟨rfl, rfl⟩ := lowerOpt_none h
      exact ⟨.refl typed, fun _ _ _ none => by cases none⟩
  | some e =>
      obtain ⟨a, lowered, rfl⟩ := lowerOpt_some h
      obtain ⟨advances, passed⟩ := lower_advances e lowered typed
      refine ⟨advances, ?_⟩
      rintro ty known _ ⟨⟩
      exact passed ty (known e rfl)

namespace Stmt

/-- A declared local has a register of its type, be it new or not. -/
theorem Allots.advances {S S' : LowerState} {name : Ident} {ty : Ty} {dest : Nat}
    (h : Allots name ty S dest S') (typed : S.Typed) :
    S.Advances S' ∧ S'.emitter.registers.get? dest = some ty := by
  have binds := h.binds
  obtain ⟨binding, ctx, declared, ⟨register, rfl⟩ | ⟨_, rfl, rfl⟩⟩ := h
  · obtain ⟨found, rfl, rfl⟩ | ⟨_, rfl, _⟩ := Context.declare_cases declared
    · obtain ⟨r, register', known⟩ :=
        typed.bindings S.context.current List.mem_cons_self name.name binding found
      obtain rfl := Option.some.inj (register.symm.trans register')
      exact ⟨.refl typed, known⟩
    · cases register
  · have grown := (LowerState.Advances.refl typed).register ty
    have known := Emitter.get?_withRegister S.emitter ty
    refine ⟨⟨grown.typed.binds binds ?_ known, grown.later⟩, known⟩
    rw [Context.declare_outer declared]
    rfl

mutual

/-- Lowering a statement keeps the state typed. -/
theorem lower_advances {S S' : LowerState} {u : Unit} : (s : Stmt) → s.lower S = .ok u S' →
    S.Typed → S.Advances S'
  | .ite _ _ none _, h, _ => absurd h not_lower_ite_none
  | .ite _ condition (some positive) none, h, typed => by
    obtain ⟨a, S₁, e₂, S₃, e₄, known, tested, branches, lowered, goes, rfl⟩ := lower_ite h
    obtain ⟨advances, passed⟩ := Expr.lower_advances condition tested typed
    have forked := ((advances.block "then").block "cont").emit branches
      (.branch _ _ (passed .bool known))
    have entered := forked.moveTo S₁.emitter.blocks.size
    have grown := entered.trans (lower_advances positive lowered entered.typed)
    exact (grown.goesOn goes).moveTo _
  | .ite _ condition (some positive) (some negative), h, typed => by
    obtain ⟨a, S₁, e₂, S₃, e₄, S₅, e₆, known, tested, branches, first, goes, second, goes', rfl⟩ :=
      lower_ite_else h
    obtain ⟨advances, passed⟩ := Expr.lower_advances condition tested typed
    have forked := (((advances.block "then").block "else").block "cont").emit branches
      (.branch _ _ (passed .bool known))
    have entered := forked.moveTo S₁.emitter.blocks.size
    have grown := entered.trans (lower_advances positive first entered.typed)
    have entered' := (grown.goesOn goes).moveTo (S₁.emitter.blocks.size + 1)
    have grown' := entered'.trans (lower_advances negative second entered'.typed)
    exact (grown'.goesOn goes').moveTo _
  | .block _ body, h, typed => by
    obtain ⟨T, lowered, rfl⟩ := lower_block h
    have grown := lowerAll_advances body lowered typed.push
    have outer := lowerAll_context body lowered
    have same : T.context.pop = S.context := by
      rw [outer]
      rfl
    simp only [same]
    exact (LowerState.Advances.refl typed).of_later grown.later grown.typed.code
  | .decl .., h, typed => by
    obtain ⟨ty, source, S₁, dest, S₂, declared, lowered, allots, h⟩ := lower_decl h
    obtain ⟨advances, passed⟩ := Expr.lowerOpt_advances lowered typed
    obtain ⟨advances', known⟩ := allots.advances advances.typed
    have grown := advances.trans advances'
    cases source with
    | none =>
        rw [h]
        exact grown
    | some a =>
        obtain ⟨e₃, emits, rfl⟩ := h
        have passed := passed ty (ty_of_declaredType declared) a rfl
        exact grown.emit emits (.move known (passed.mono advances'.later.registers))
  | .assign _ _ value, h, typed => by
    obtain ⟨binding, dest, a, S₁, e₂, found, known, register, lowered, emits, rfl⟩ :=
      lower_assign h
    obtain ⟨advances, passed⟩ := Expr.lower_advances value lowered typed
    obtain ⟨r, register', there⟩ := typed.lookup found
    obtain rfl := Option.some.inj (register.symm.trans register')
    exact advances.emit emits
      (.move (get?_mono advances.later.registers there) (passed binding.ty known))
  | .ret _ value, h, typed => by
    obtain ⟨source, S₁, e₂, known, lowered, emits, rfl⟩ := lower_ret h
    obtain ⟨advances, passed⟩ := Expr.lowerOpt_advances lowered typed
    refine advances.emit emits ?_
    split
    · exact .nothing
    · cases source with
      | none => exact .nothing
      | some a =>
          rw [advances.later.header.2.2.1, ← typed.returnType]
          refine .value (passed S.context.returnType ?_ a rfl)
          rintro value rfl
          exact known
  | .loop _ condition body, h, typed => by
    obtain ⟨e₁, a, S₂, e₃, S₄, e₅, known, jumps, tested, branches, lowered, goes, rfl⟩ :=
      lower_loop h
    have begun := ((((LowerState.Advances.refl typed).block "while_cond").block
      "while_body").block "while_end").emit jumps (.jump _)
    have entered := begun.moveTo S.emitter.blocks.size
    obtain ⟨advances, passed⟩ := Expr.lower_advances condition tested entered.typed
    have forked := (entered.trans advances).emit branches (.branch _ _ (passed .bool known))
    have entered' := forked.moveTo (S.emitter.blocks.size + 1)
    have grown := entered'.trans (lower_advances body lowered entered'.typed)
    exact (grown.goesOn goes).moveTo _
  | .eval _ value, h, typed => by
    obtain ⟨_, lowered⟩ := lower_eval h
    exact (Expr.lower_advances value lowered typed).1
  | .skip _, h, typed => by
    rw [lower_skip h]
    exact .refl typed

theorem lowerAll_advances {S S' : LowerState} {u : Unit} : (ss : List Stmt) →
    lowerAll ss S = .ok u S' → S.Typed → S.Advances S'
  | [], h, typed => by
    rw [lowerAll_nil h]
    exact .refl typed
  | s :: rest, h, typed => by
    obtain ⟨S₁, first, h⟩ := lowerAll_cons h
    have grown := lower_advances s first typed
    split at h
    · rw [h]
      exact grown
    · exact grown.trans (lowerAll_advances rest h grown.typed)

end

end Stmt

theorem Lir.Registers.map_get?_range {r : Registers} {types : List Ty}
    (starts : types <+: r.toList) :
    (List.range types.length).map r.get? = types.map some := by
  obtain ⟨rest, added⟩ := starts
  refine List.ext_getElem (by simp) fun k _ inside => ?_
  rw [List.length_map] at inside
  rw [List.getElem_map, List.getElem_map, List.getElem_range, ← getElem?_toList, ← added,
    List.getElem?_append_left inside, List.getElem?_eq_getElem inside]

theorem Lir.Emitter.Sound.mem_instructions_finish {e : Emitter} (sound : e.Sound) {i : Instruction}
    (mem : i ∈ e.finish.instructions) :
    ∃ k b, e.blocks.get? k = some b ∧ i ∈ b.instructions := by
  obtain ⟨b, here, mem⟩ := List.mem_flatMap.1 mem
  refine ⟨b.id, b, ?_, mem⟩
  rw [← sound.find?_finish]
  exact Ascending.find?_eq_some_iff.2 ⟨here, rfl⟩

namespace Function

variable {S S' : LowerState}

theorem bindParams_typed {params : List Param} {u : Unit}
    (h : params.forM bindParam S = .ok u S') (typed : S.Typed) :
    S'.Typed ∧ S'.emitter.registers.toList = S.emitter.registers.toList ++ params.map (·.ty) := by
  induction params generalizing S with
  | nil =>
      obtain ⟨_, rfl⟩ := pure_eq_ok.1 h
      exact ⟨typed, (List.append_nil _).symm⟩
  | cons param params ih =>
      obtain ⟨_, S₁, first, rest⟩ := bind_eq_ok.1 h
      obtain ⟨binding, ctx, _, declared, rfl⟩ := bindParam_eq_ok first
      have binds := Context.Binds.of_declare declared S.emitter.registers.size
      have grown := (LowerState.Advances.refl typed).register param.ty
      have bound := grown.typed.binds binds (by rw [Context.declare_outer declared]; rfl)
        (Emitter.get?_withRegister S.emitter param.ty)
      obtain ⟨typed', registers⟩ :=
        ih rest ⟨bound.signatures, bound.returnType, bound.bindings, bound.code⟩
      refine ⟨typed', ?_⟩
      rw [registers]
      simp [Emitter.withRegister]

theorem typed_entered (f : Function) (signatures : SignatureTable) (id : Nat) :
    (f.entered signatures id).Typed where
  signatures := rfl
  returnType := rfl
  bindings := by
    intro scope mem name b found
    obtain rfl := List.mem_singleton.1 mem
    cases found
  code := by
    refine Emitter.WellTyped.withBlock ?_ "entry"
    intro k b found
    cases found

theorem lowerBody_advances {f : Function} {u : Unit} (h : f.lowerBody S = .ok u S')
    (typed : S.Typed) : S.Advances S' := by
  obtain ⟨S₁, lowered, h⟩ := lowerBody_eq_ok h
  have grown := f.body.lower_advances lowered typed
  split at h
  · rw [h]
    exact grown
  · obtain ⟨i, e, emits, rfl, kind⟩ := h
    refine grown.emit emits ?_
    split at kind
    · rw [kind]
      exact .nothing
    · rw [kind.1]
      exact .unreachable

/-- The arguments are in the first registers, which have the types of the parameters. -/
theorem arguments_lower {f : Function} {signatures : SignatureTable} {g : Lir.Function}
    (h : f.lower signatures = .ok g) :
    g.arguments = List.range f.header.params.length ∧
      g.arguments.map g.registers.get? = (f.header.params.map (·.ty)).map some := by
  obtain ⟨id, S₁, S₂, _, bound, body, rfl⟩ := lower_eq_ok h
  obtain ⟨typed, registers⟩ := bindParams_typed bound (f.typed_entered signatures id)
  have grown := lowerBody_advances body typed
  have arguments : S₂.emitter.arguments = List.range f.header.params.length := by
    rw [grown.later.header.2.2.2, bindParams_arguments bound, List.range_eq_range']
    rfl
  have starts : f.header.params.map (·.ty) <+: S₂.emitter.registers.toList := by
    have more := grown.later.registers
    rw [registers] at more
    exact more
  refine ⟨arguments, ?_⟩
  change S₂.emitter.arguments.map _ = _
  rw [arguments, ← Lir.Registers.map_get?_range starts, List.length_map]
  rfl

/-- Lowering makes well-typed code of every tree that it accepts. -/
theorem wellTyped_lower {f : Function} {signatures : SignatureTable} {g : Lir.Function}
    (h : f.lower signatures = .ok g) :
    g.WellTyped signatures (f.header.params.map (·.ty)) ∧
      g.returnType = f.header.returnType := by
  obtain ⟨arguments, params⟩ := arguments_lower h
  obtain ⟨id, S₁, S₂, _, bound, body, rfl⟩ := lower_eq_ok h
  obtain ⟨ready, alone, start, declared, named⟩ := ready_bound bound
  obtain ⟨finished, returnType⟩ := finished_lowerBody body ready alone start declared named
  have typed := (bindParams_typed bound (f.typed_entered signatures id)).1
  have grown := lowerBody_advances body typed
  have same : S₂.emitter.signatures = signatures := by
    obtain ⟨_, _, _, rfl⟩ := bindParams_eq_ok bound
    exact grown.later.header.1
  have instructions : ∀ i ∈ S₂.emitter.finish.instructions,
      i.WellTyped signatures S₂.emitter.registers S₂.emitter.returnType := by
    intro i mem
    obtain ⟨k, b, found, mem⟩ := finished.sound.mem_instructions_finish mem
    rw [← same]
    exact grown.typed.code k b found i mem
  rw [← List.length_map (fun param : Param => param.ty)] at arguments
  exact ⟨⟨arguments, params, instructions, fun i mem => (instructions i mem).registers_lt⟩,
    returnType⟩

/-- `let n = 1; let n = -n; log("x"); return n;`, where both declarations are of one local. -/
def redeclared : Function :=
  let at_ : Span := ⟨0, 0⟩
  let n : Expr := .var at_ ⟨"n", at_⟩
  { header :=
      { name := ⟨"again", at_⟩, params := [⟨⟨"a", at_⟩, .bool, at_⟩], returnType := .int,
        span := at_ }
    body := .block at_
      [.decl at_ ⟨"n", at_⟩ none (some (.literal at_ (.int 1))),
        .decl at_ ⟨"n", at_⟩ none (some (.unary at_ .neg n)),
        .eval at_ (.call at_ ⟨"log", at_⟩ [.literal at_ (.str "x")]),
        .ret at_ (some n)]
    span := at_ }

def redeclaredTable : SignatureTable :=
  ⟨.ofList [⟨0, "again", [.bool], .int⟩, ⟨1, "log", [.str], .unit⟩], [("log", 1), ("again", 0)]⟩

/-- Both declarations write register 1. -/
def redeclaredGraph : Lir.Function where
  id := 0
  name := "again"
  returnType := .int
  registers := .ofList [.bool, .int, .int]
  arguments := [0]
  blocks := .ofList
    [⟨0, "entry", [.move 1 (.imm (.int 1)), .unary .neg 2 (.reg 1), .move 1 (.reg 2),
      .call 1 [.imm (.str "x")] none, .ret (some (.reg 1))], .empty⟩]

theorem wellTyped_lower_redeclared :
    redeclared.lower redeclaredTable = .ok redeclaredGraph ∧
      redeclaredGraph.WellTyped redeclaredTable [.bool] ∧ redeclaredGraph.returnType = .int := by
  have lowered : redeclared.lower redeclaredTable = .ok redeclaredGraph := by decide +kernel
  exact ⟨lowered, wellTyped_lower lowered⟩

end Function

end Rill
