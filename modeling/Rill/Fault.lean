/-!
# Broken contracts

A fault is a breach of the contract between two parts of the compiler, not an
error of the program that is compiled. Operations that could commit one say so
in their type.
-/

namespace Rill

inductive Fault where
  /-- A block was asked for in another function than the one being emitted. -/
  | foreignBlock (function : Nat)
  | missingBlock (block : Nat)
  /-- An instruction came after the terminator of its block. -/
  | closedBlock (block : Nat)
  | missingRegister (register : Nat)
  /-- Work was split into batches of no items. -/
  | emptyBatch
  /-- An error had to be shown at a place that is no character of its source. -/
  | misplacedSpan
  deriving DecidableEq, Repr

end Rill
