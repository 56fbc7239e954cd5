import Rill.Proofs.Lir.Simulation
import Rill.Proofs.Lir.Soundness

/-!
# Lowering preserves meaning

The arguments of a call are put into the first registers; what the others hold at the
start does not matter. From there a lowered function makes the same calls as its tree
and ends in the same way, `Function.run_lower`, if the tree reads no local that has not
been assigned.
-/

namespace Rill

open Lir

variable {signatures : SignatureTable} {oracle : Oracle} {blocks : Blocks}

/-- The registers at the start of a call: the arguments are in their registers, and all others have
their initial contents. -/
def Lir.Function.load (f : Lir.Function) (args : List Value) (initial : Nat → Value) :
    Nat → Value :=
  fun r => ((f.arguments.zip args).lookup r).getD (initial r)

namespace Function

variable {S S' : LowerState} {regs : Nat → Value}

/-- Everything is in place for the body once the parameters are bound. -/
theorem fits_bound {f : Function} {id : Nat} {u : Unit}
    (h : f.header.params.forM bindParam (f.entered signatures id) = .ok u S)
    (allotted : Allotted S.context.scopes S.emitter.registers.size) :
    S.Fits signatures f.header.returnType := by
  obtain ⟨ready, _⟩ := ready_bound h
  obtain ⟨scope, registers, arguments, rfl⟩ := bindParams_eq_ok h
  exact ⟨ready, ⟨rfl, rfl⟩, ⟨rfl, rfl⟩, allotted⟩

theorem lookup_zip_range' {args : List Value} {i k : Nat} {v : Value} (found : args[i]? = some v) :
    ((List.range' k args.length).zip args).lookup (k + i) = some v := by
  induction args generalizing i k with
  | nil => cases found
  | cons w args ih =>
      rw [List.length_cons, List.range'_succ, List.zip_cons_cons, List.lookup_cons]
      cases i with
      | zero => simpa using found
      | succ i =>
          have other : (k + (i + 1) == k) = false := by simp
          have there : k + (i + 1) = k + 1 + i := by omega
          rw [other, there]
          exact ih found

/-- The first registers hold the arguments. -/
theorem load_of_range {g : Lir.Function} {args : List Value} {initial : Nat → Value}
    (arguments : g.arguments = List.range' 0 args.length) {i : Nat} {v : Value}
    (found : args[i]? = some v) : g.load args initial i = v := by
  have entry := lookup_zip_range' (k := 0) found
  rw [Nat.zero_add] at entry
  rw [Lir.Function.load, arguments, entry]
  rfl

/-- What has been seen of a tree is seen of a lowered function that simulates it and returns nothing
at the end. -/
theorem exists_seen_eq_moment {f : Function} {rounds : Nat} {regs : Nat → Value}
    {r : EStateM.Result Halt Frame Unit}
    (h : blocks.Simulates oracle rounds f.header.returnType.isUnit (.start regs)
      (fun _ _ t => blocks.Stops oracle t t.calls (.returned none)) r)
    (assigned : ∀ name, (f.moment r).ending ≠ some (.unassigned name)) :
    ∃ k, (blocks.run oracle (.start regs)).seen k = f.moment r ∧
      ((f.moment r).ending = none → rounds ≤ k) := by
  cases r with
  | ok a frame =>
      obtain ⟨t, reached, made, stops⟩ := h
      obtain ⟨k, run⟩ := reached.stops stops
      rw [made] at run
      exact ⟨k, congrArg Blocks.seen run, fun running => by cases running⟩
  | error halt frame =>
      cases halt with
      | ended e =>
          cases e with
          | unassigned name => exact absurd rfl (assigned name)
          | _ =>
              obtain ⟨k, run⟩ := h
              exact ⟨k, congrArg Blocks.seen run, fun running => by cases running⟩
      | returned v =>
          obtain ⟨k, run⟩ := h
          exact ⟨k, congrArg Blocks.seen run, fun running => by cases running⟩
      | exhausted =>
          obtain ⟨k, t, enough, run, made⟩ := h
          refine ⟨k, ?_, fun _ => enough⟩
          change Blocks.seen (blocks.runFor oracle k (.start regs)) = ⟨frame.calls, none⟩
          rw [run, Blocks.seen, made]

theorem placed_finish {e : Emitter} (sound : e.Sound) : e.Placed e.finish.blocks := by
  intro k b found
  rw [sound.find?_finish]
  exact ⟨b, found, List.prefix_rfl⟩

/-- The run of a lowered body, from the state that the parameters leave. -/
theorem simulates_lowerBody {f : Function} {u : Unit} {rounds : Nat} {env : Env} {s : State}
    (h : f.lowerBody S = .ok u S') (contained : f.body.contained = true)
    (fits : S.Fits signatures f.header.returnType) (placed : S'.emitter.Placed blocks)
    (at_ : s.At S.emitter) (holds : Holds S.context.scopes s.regs env) :
    blocks.Simulates oracle rounds f.header.returnType.isUnit s
      (fun _ _ t => blocks.Stops oracle t t.calls (.returned none))
      (f.body.exec signatures oracle rounds ⟨env, s.calls⟩) := by
  obtain ⟨S₁, lowered, _, later, ends⟩ := lowerBody_later h fits.ready fits.declared
  have inner : blocks.Simulates oracle rounds _ s _ _ :=
    f.body.simulates lowered contained fits (placed.of_later later) at_ holds
  cases returned : f.body.returns with
  | true => exact inner.of_never fun _ _ => Stmt.exec_ne_ok f.body returned
  | false =>
      refine inner.onwards ?_
      rintro _ env t ⟨at', _⟩
      exact ⟨t, .refl t, rfl, .of_step ((ends returned).2.step placed at')⟩

/-- Everything is in place when control comes to the entry of a lowered function. -/
theorem start_at {f : Function} {id : Nat} {u : Unit} (regs : Nat → Value)
    (h : f.header.params.forM bindParam (f.entered signatures id) = .ok u S) :
    (State.start regs).At S.emitter := by
  obtain ⟨scope, registers, arguments, rfl⟩ := bindParams_eq_ok h
  exact ⟨rfl, rfl⟩

/-- Lowering preserves meaning. With answers of the declared types, both runs end by returning a
value of the declared type, or nothing for the unit, or by dividing an integer by zero. -/
theorem run_lower {f : Function} {g : Lir.Function} {args : List Value}
    (braced : f.body.braced = true) (h : f.lower signatures = .ok g)
    (typed : args.map (·.ty) = f.header.params.map (·.ty)) (initial : Nat → Value)
    (assigned : ∀ calls name, ¬ (f.run signatures oracle args).Ends calls (.unassigned name)) :
    (f.run signatures oracle args).Same (g.run oracle (g.load args initial)) ∧
      (oracle.Obeys signatures → ∀ calls ending,
        (g.run oracle (g.load args initial)).Ends calls ending →
          ending.Regular f.header.returnType) := by
  have contained := f.body.contained_of_braced braced
  obtain ⟨id, S₁, S₂, _, bound, body, rfl⟩ := lower_eq_ok h
  obtain ⟨ready, alone, start, declared, named⟩ := ready_bound bound
  obtain ⟨finished, _⟩ := finished_lowerBody body ready alone start declared named
  have count : args.length = f.header.params.length := by
    simpa using congrArg List.length typed
  have arguments : S₂.emitter.finish.arguments = List.range' 0 args.length := by
    obtain ⟨_, _, first, second, _⟩ := lowerBody_later body ready declared
    have kept := (first.trans second).header.2.2.2
    rw [Emitter.finish, kept, bindParams_arguments bound, count]
    rfl
  have holds : Holds S₁.context.scopes (S₂.emitter.finish.load args initial)
      (f.enter args).env := by
    refine matches_enter bound count fun i param v _ found b _ register r register' => ?_
    obtain rfl := Option.some.inj (register.symm.trans register')
    exact load_of_range arguments found
  have fits := fits_bound bound (bindParams_allotted bound (.push .nil))
  have same : (f.run signatures oracle args).Same
      (S₂.emitter.finish.run oracle (S₂.emitter.finish.load args initial)) := by
    refine .of_pace fun n => exists_seen_eq_moment (simulates_lowerBody body contained fits
      (placed_finish finished.sound) (start_at _ bound) holds) fun name found => ?_
    exact assigned _ name ⟨n, by rw [← found]; rfl⟩
  refine ⟨same, fun obeys calls ending ends => ?_⟩
  have ends' := (same.ends calls ending).2 ends
  rcases regular_of_ends contained h typed obeys ends' with regular | ⟨name, rfl⟩
  · exact regular
  · exact absurd ends' (assigned calls name)

section Shadowed

private def nowhere : Span := ⟨0, 0⟩

private def read (name : String) : Expr := .var nowhere ⟨name, nowhere⟩

private def number (n : Int64) : Expr := .literal nowhere (.int n)

/-- `let steps = 0; while n != 0 && ready(steps) { let n = steps + 1; steps = n; }` and then
`return n / steps;`, with two parameters `n`. -/
def shadowed : Function where
  header :=
    { name := ⟨"walk", nowhere⟩
      params := [⟨⟨"n", nowhere⟩, .int, nowhere⟩, ⟨⟨"n", nowhere⟩, .int, nowhere⟩]
      returnType := .int
      span := nowhere }
  body :=
    let goesOn := .logic nowhere .and (.binary nowhere .ne (read "n") (number 0))
      (.call nowhere ⟨"ready", nowhere⟩ [read "steps"])
    let next := .binary nowhere .add (read "steps") (number 1)
    .block nowhere
      [.decl nowhere ⟨"steps", nowhere⟩ none (some (number 0)),
        .loop nowhere goesOn
          (.block nowhere
            [.decl nowhere ⟨"n", nowhere⟩ none (some next),
              .assign nowhere ⟨"steps", nowhere⟩ (read "n")]),
        .ret nowhere (some (.binary nowhere .div (read "n") (read "steps")))]
  span := nowhere

def shadowedTable : SignatureTable :=
  ⟨.ofList [⟨0, "walk", [.int, .int], .int⟩, ⟨1, "ready", [.int], .bool⟩],
    [("ready", 1), ("walk", 0)]⟩

/-- The second parameter is in register 1, `steps` in register 2, and the inner `n` in register
7. -/
def shadowedGraph : Lir.Function where
  id := 0
  name := "walk"
  returnType := .int
  registers := .ofList [.int, .int, .int, .bool, .bool, .bool, .int, .int, .int]
  arguments := [0, 1]
  blocks := .ofList
    [⟨0, "entry", [.move 2 (.imm (.int 0)), .jump 1], .empty⟩,
      ⟨1, "while_cond", [.binary .ne 4 (.reg 1) (.imm (.int 0)), .move 3 (.reg 4),
        .branch (.reg 4) 4 5], .ofList [0, 2]⟩,
      ⟨2, "while_body", [.binary .add 6 (.reg 2) (.imm (.int 1)), .move 7 (.reg 6),
        .move 2 (.reg 7), .jump 1], .ofList [5]⟩,
      ⟨3, "while_end", [.binary .div 8 (.reg 1) (.reg 2), .ret (some (.reg 8))], .ofList [5]⟩,
      ⟨4, "and_rhs", [.call 1 [.reg 2] (some 5), .move 3 (.reg 5), .jump 5], .ofList [1]⟩,
      ⟨5, "and_end", [.branch (.reg 3) 2 3], .ofList [1, 4]⟩]

/-- It is ready twice. -/
def twice : Oracle :=
  fun callee _ calls => if callee = 1 then .bool (calls.length < 2) else .int 0

theorem run_lower_shadowed :
    shadowed.body.braced = true ∧ shadowed.lower shadowedTable = .ok shadowedGraph ∧
      (shadowed.run shadowedTable twice [.int 7, .int 10]).Same
        (shadowedGraph.run twice (shadowedGraph.load [.int 7, .int 10] fun _ => .unit)) ∧
      (shadowedGraph.run twice (shadowedGraph.load [.int 7, .int 10] fun _ => .unit)).Ends
        [⟨1, [.int 0]⟩, ⟨1, [.int 1]⟩, ⟨1, [.int 2]⟩] (.returned (some (.int 5))) ∧
      Ending.Regular .int (.returned (some (.int 5))) := by
  have braced : shadowed.body.braced = true := by decide
  have lowered : shadowed.lower shadowedTable = .ok shadowedGraph := by decide +kernel
  have typed : [Immediate.int 7, .int 10].map (·.ty) = shadowed.header.params.map (·.ty) := rfl
  have obeys : twice.Obeys shadowedTable := by
    intro id s found args calls
    rcases id with _ | _ | id
    · cases found
      rfl
    · cases found
      rfl
    · simp [shadowedTable, Table.get?, Table.ofList] at found
  have ends : (shadowed.run shadowedTable twice [.int 7, .int 10]).Ends
      [⟨1, [.int 0]⟩, ⟨1, [.int 1]⟩, ⟨1, [.int 2]⟩] (.returned (some (.int 5))) :=
    ⟨3, by decide +kernel⟩
  obtain ⟨same, regular⟩ := run_lower braced lowered typed (fun _ => .unit)
    fun calls name ends' => by cases (ends.unique ends').2
  have ends' := (same.ends _ _).1 ends
  exact ⟨braced, lowered, same, ends', regular obeys _ _ ends'⟩

end Shadowed

end Function

end Rill
