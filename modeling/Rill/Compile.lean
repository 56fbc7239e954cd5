import Rill.Lir.Cleanup
import Rill.Lir.Listing
import Rill.Lir.Lowering
import Rill.Report
import Rill.Tree.Outline
import Rill.Tree.Parser
import Rill.Tree.Simplify

/-!
# Compiling a module

All functions are compiled, each on its own, and the errors of those that fail
are reported together in the order of declaration. With more than one job the
functions are dealt out in contiguous batches; the order of the results does not
depend on that.
-/

namespace Rill

/-- What is written out for a source. -/
inductive Emit where
  /-- The tree as it was read. -/
  | tree
  /-- The tree as it was lowered. -/
  | simplifiedTree
  | lir
  deriving DecidableEq, Repr

structure Options where
  emit : Emit := .lir
  /-- Whether trees are simplified and graphs cleaned up. -/
  optimize : Bool := true
  passes : Nat := defaultPasses
  jobs : Nat := 1
  deriving DecidableEq, Repr

inductive CompileFailure where
  | parse (error : ParseError)
  | compile (errors : List CompileError)
  | fault (fault : Fault)
  deriving DecidableEq

namespace CompileFailure

def message : CompileFailure → String
  | .parse error => error.message
  | .compile errors => toString errors.length ++ " error(s) while compiling"
  | .fault _ => "internal fault"

/-- All errors shown against the source, in order. -/
def report (ink : Ink) (source : Source) : CompileFailure → Except Fault String
  | .parse error => error.report ink source
  | .compile errors => do
    return String.intercalate "\n\n" (← errors.mapM (CompileError.report ink source))
  | .fault f => .error f

end CompileFailure

/-- A function as it was lowered, and what it was lowered to. -/
structure Lowered where
  tree : Function
  lir : Lir.Function

structure Compiled where
  tree : Module
  lir : Lir.Module

def Function.compile (signatures : SignatureTable) (options : Options) (f : Function) :
    Except Lir.Failure Lowered := do
  if options.optimize then
    let tree ← (f.simplify signatures options.passes).mapError .error
    let lir ← tree.lower signatures
    return ⟨tree, lir.cleanup⟩
  else
    return ⟨f, ← f.lower signatures⟩

/-- Splits a list into batches of `size` items; the last may be smaller. -/
def batches {α : Type} (size : Nat) (positive : 0 < size) (items : List α) : List (List α) :=
  match items with
  | [] => []
  | item :: rest =>
    (item :: rest.take (size - 1)) :: batches size positive (rest.drop (size - 1))
termination_by items.length
decreasing_by simp only [List.length_cons, List.length_drop]; omega

/-- Runs `f` on all items, in one batch for each job. -/
def dealOut {α β : Type} (jobs : Nat) (f : α → β) (items : List α) : Except Fault (List β) :=
  if 1 < jobs ∧ 1 < items.length then
    let size := (items.length + jobs - 1) / jobs
    if positive : 0 < size then
      .ok ((batches size positive items).map (List.map f)).flatten
    else
      .error .emptyBatch
  else
    .ok (items.map f)

/-- The outcome of a module from those of its functions. -/
def Compiled.ofResults (results : List (Except Lir.Failure Lowered)) :
    Except CompileFailure (List Lowered) :=
  let faults := results.filterMap fun
    | .error (.fault fault) => some fault
    | _ => none
  let errors := results.filterMap fun
    | .error (.error error) => some error
    | _ => none
  let lowered := results.filterMap fun
    | .ok lowered => some lowered
    | _ => none
  match faults, errors with
  | fault :: _, _ => .error (.fault fault)
  | [], [] => .ok lowered
  | [], errors => .error (.compile errors)

def Module.compile (options : Options) (m : Module) : Except CompileFailure Compiled := do
  let signatures ← (SignatureTable.build m).mapError fun error => .compile [error]
  let results ← (dealOut options.jobs (Function.compile signatures options) m.functions).mapError
    .fault
  let lowered ← Compiled.ofResults results
  let lir := (lowered.map (·.lir)).foldl Lir.Module.install (.withCapacity signatures.size)
  return ⟨⟨lowered.map (·.tree)⟩, lir⟩

/-- Compiles a source and prints what the options ask for. -/
def Source.compile (ink : Ink) (options : Options) (source : Source) :
    Except CompileFailure String := do
  let m ← source.parse.mapError .parse
  match options.emit with
  | .tree => return m.describe ink
  | .simplifiedTree => return (← m.compile options).tree.describe ink
  | .lir => ((← m.compile options).lir.render ink).mapError .fault

end Rill
