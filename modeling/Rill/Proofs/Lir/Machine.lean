import Mathlib.Logic.Function.Basic
import Rill.Proofs.Run

/-!
# Running a lowered function

Control stands before an instruction of a block. Each step runs one instruction,
which changes a register, makes a call, hands control to another block or ends the
run. Registers that nobody has written hold whatever they held at the start, so the
initial contents are part of the input.

`Blocks.same_of_steps` compares two graphs: one whose every step the other makes in
one or more steps is run the same.
-/

namespace Rill.Lir

structure State where
  block : Nat
  /-- How many instructions of the block have been run. -/
  done : Nat
  regs : Nat → Value
  calls : List Call

namespace State

/-- Before the first instruction of the entry. -/
def start (regs : Nat → Value) : State := ⟨0, 0, regs, []⟩

def next (s : State) : State := { s with done := s.done + 1 }

/-- Writes a register and goes on to the next instruction. -/
def write (s : State) (dest : Nat) (value : Value) : State :=
  { s.next with regs := Function.update s.regs dest value }

def goto (s : State) (block : Nat) : State := { s with block, done := 0 }

/-- Notes a call. -/
def record (s : State) (call : Call) : State := { s with calls := s.calls ++ [call] }

end State

def Operand.value (regs : Nat → Value) : Operand → Value
  | .imm value => value
  | .reg id => regs id

/-- The state after an instruction, or how the run ends with it. -/
def Instruction.run (oracle : Oracle) (s : State) : Instruction → Except Ending State
  | .move dest source => .ok (s.write dest (source.value s.regs))
  | .unary op dest operand => (op.onValue (operand.value s.regs)).map (s.write dest)
  | .binary op dest lhs rhs =>
    (op.onValues (lhs.value s.regs) (rhs.value s.regs)).map (s.write dest)
  | .branch condition positive negative =>
    match condition.value s.regs with
    | .bool b => .ok (s.goto (if b then positive else negative))
    | _ => .error .stuck
  | .jump target => .ok (s.goto target)
  | .ret value => .error (.returned (value.map (·.value s.regs)))
  | .call target args dest =>
    let args := args.map (·.value s.regs)
    let called := s.record ⟨target, args⟩
    match dest with
    | some dest => .ok (called.write dest (oracle target args s.calls))
    | none => .ok called.next
  | .unreachable => .error .unreachable

namespace Instruction

/-- What an instruction can do: hand control to a target, or go on in its block with perhaps
another call made. -/
theorem run_cases {oracle : Oracle} {s t : State} {i : Instruction} (h : i.run oracle s = .ok t) :
    (∃ target ∈ i.targets, t = s.goto target) ∨
      (t.block = s.block ∧ t.done = s.done + 1 ∧ s.calls <+: t.calls) := by
  cases i with
  | move dest source =>
      cases h
      exact .inr ⟨rfl, rfl, List.prefix_rfl⟩
  | unary op dest operand =>
      simp only [run] at h
      cases result : op.onValue (operand.value s.regs) with
      | error e => simp [result, Except.map] at h
      | ok v =>
          simp only [result, Except.map, Except.ok.injEq] at h
          exact .inr (h ▸ ⟨rfl, rfl, List.prefix_rfl⟩)
  | binary op dest lhs rhs =>
      simp only [run] at h
      cases result : op.onValues (lhs.value s.regs) (rhs.value s.regs) with
      | error e => simp [result, Except.map] at h
      | ok v =>
          simp only [result, Except.map, Except.ok.injEq] at h
          exact .inr (h ▸ ⟨rfl, rfl, List.prefix_rfl⟩)
  | branch condition positive negative =>
      simp only [run] at h
      split at h
      · next b _ =>
        cases h
        exact .inl ⟨_, by cases b <;> simp [targets], rfl⟩
      · cases h
  | jump target =>
      cases h
      exact .inl ⟨target, List.mem_singleton_self target, rfl⟩
  | ret value => cases h
  | call target args dest =>
      cases dest <;> cases h <;> exact .inr ⟨rfl, rfl, List.prefix_append ..⟩
  | unreachable => cases h

end Instruction

namespace Blocks

variable {blocks : Blocks} {oracle : Oracle}

def step (blocks : Blocks) (oracle : Oracle) (s : State) : Except Ending State :=
  match blocks.find? s.block with
  | none => .error .lost
  | some b =>
    match b.instructions[s.done]? with
    | none => .error .fellOff
    | some i => i.run oracle s

/-- The state after that many steps, or what has been seen of the run if it ends before. -/
def runFor (blocks : Blocks) (oracle : Oracle) : Nat → State → Except Moment State
  | 0, s => .ok s
  | n + 1, s =>
    match blocks.step oracle s with
    | .ok t => runFor blocks oracle n t
    | .error e => .error ⟨s.calls, some e⟩

/-- What has been seen of a run. -/
def seen : Except Moment State → Moment
  | .ok s => ⟨s.calls, none⟩
  | .error m => m

theorem step_calls {s t : State} (h : blocks.step oracle s = .ok t) : s.calls <+: t.calls := by
  simp only [step] at h
  split at h
  · cases h
  · split at h
    · cases h
    · rcases Instruction.run_cases h with ⟨target, _, rfl⟩ | ⟨_, _, calls⟩
      · exact List.prefix_rfl
      · exact calls

theorem runFor_succ_of_ok {s t : State} (h : blocks.step oracle s = .ok t) (n : Nat) :
    blocks.runFor oracle (n + 1) s = blocks.runFor oracle n t := by
  simp only [runFor, h]

theorem runFor_succ_of_error {s : State} {e : Ending} (h : blocks.step oracle s = .error e)
    (n : Nat) : blocks.runFor oracle (n + 1) s = .error ⟨s.calls, some e⟩ := by
  simp only [runFor, h]

theorem runFor_add (m n : Nat) (s : State) :
    blocks.runFor oracle (m + n) s = blocks.runFor oracle m s >>= blocks.runFor oracle n := by
  induction m generalizing s with
  | zero =>
      rw [Nat.zero_add]
      rfl
  | succ m ih =>
      rw [Nat.succ_add]
      cases step : blocks.step oracle s with
      | error e => rw [runFor_succ_of_error step, runFor_succ_of_error step]; rfl
      | ok t => rw [runFor_succ_of_ok step, runFor_succ_of_ok step, ih]

theorem runFor_grows (n : Nat) (s : State) :
    (seen (blocks.runFor oracle n s)).Before (seen (blocks.runFor oracle (n + 1) s)) := by
  rw [runFor_add]
  cases blocks.runFor oracle n s with
  | error m => exact .refl m
  | ok t =>
      refine ⟨fun ended => by simp [seen] at ended, ?_⟩
      change t.calls <+: (seen (blocks.runFor oracle 1 t)).calls
      cases step : blocks.step oracle t with
      | error e => simp [runFor_succ_of_error step, seen]
      | ok u =>
          rw [runFor_succ_of_ok step]
          exact step_calls step

/-- The run from a state, seen after every step. -/
def run (blocks : Blocks) (oracle : Oracle) (s : State) : Run where
  seen n := seen (blocks.runFor oracle n s)
  grows n := runFor_grows n s

/-- A graph is run like another that makes each of its steps in one or more steps and ends where
it ends. This is only asked of states with a property that holds at the start and is kept. -/
theorem same_of_steps {a b : Blocks} (holds : State → Prop)
    (steps : ∀ s t, holds s → a.step oracle s = .ok t →
      holds t ∧ ∃ n, b.runFor oracle (n + 1) s = .ok t)
    (stops : ∀ s e, holds s → a.step oracle s = .error e → b.step oracle s = .error e)
    {s : State} (start : holds s) : (a.run oracle s).Same (b.run oracle s) := by
  have meets : ∀ n s, holds s → ∃ k, b.runFor oracle k s = a.runFor oracle n s ∧
      ((seen (a.runFor oracle n s)).ending = none → n ≤ k) := by
    intro n
    induction n with
    | zero =>
        intro s _
        exact ⟨0, rfl, fun _ => Nat.le_refl 0⟩
    | succ n ih =>
        intro s inv
        cases step : a.step oracle s with
        | error e =>
            have stop := stops s e inv step
            refine ⟨1, ?_, ?_⟩
            · rw [runFor_succ_of_error stop, runFor_succ_of_error step]
            · intro running
              simp [runFor_succ_of_error step, seen] at running
        | ok t =>
            obtain ⟨kept, m, first⟩ := steps s t inv step
            obtain ⟨k, same, pace⟩ := ih t kept
            rw [runFor_succ_of_ok step]
            refine ⟨m + 1 + k, ?_, fun running => ?_⟩
            · rw [runFor_add, first]
              exact same
            · have := pace running
              omega
  refine .of_pace fun n => ?_
  obtain ⟨k, same, pace⟩ := meets n s start
  exact ⟨k, congrArg seen same, pace⟩

end Blocks

/-- The run of a lowered function from its entry. -/
def Function.run (f : Function) (oracle : Oracle) (regs : Nat → Value) : Run :=
  Blocks.run f.blocks oracle (.start regs)

end Rill.Lir
