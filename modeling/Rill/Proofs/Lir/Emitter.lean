import Rill.Lir.Emitter
import Rill.Proofs.Computation
import Rill.Proofs.Lir.Graph

/-!
# What the emitter builds

`Emits` says all about appending an instruction in the right way: with `push` if it
has no targets, and with `jump` or `branch` otherwise. An emitter that appends only
like this, and adds blocks, has a consistent graph all along, wherever its cursor is
moved (`Coherent`), which is linked once it has an entry (`Sound`). It never takes
back what it has emitted (`Later`).
-/

namespace Rill

namespace Ascending

theorem place_place {α : Type} {key : α → Nat} (a : α) (l : List α) :
    place key a (place key a l) = place key a l := by
  induction l with
  | nil => simp [place]
  | cons b bs ih =>
      simp only [place]
      split
      · simp [place]
      · split
        · simp [place]
        · next less same => simp only [place, if_neg less, if_neg same, ih]

/-- Putting an item in twice is the same as once. -/
theorem insert_insert {α : Type} {key : α → Nat} (c : Ascending key) (a : α) :
    (c.insert a).insert a = c.insert a :=
  Ascending.ext (place_place a c.items)

end Ascending

namespace Lir

namespace Block

theorem isTerminated_of_mem_successors {b : Block} {t : Nat} (h : t ∈ b.successors) :
    b.isTerminated = true := by
  obtain ⟨i, last, target⟩ := mem_successors.1 h
  rw [isTerminated, last, Option.any_some]
  cases terminator : i.isTerminator with
  | true => rfl
  | false =>
      rw [Instruction.targets_of_not_terminator terminator] at target
      cases target

theorem successors_of_open {b : Block} (h : b.isTerminated = false) : b.successors = [] := by
  refine List.eq_nil_iff_forall_not_mem.2 fun t mem => ?_
  rw [isTerminated_of_mem_successors mem] at h
  cases h

theorem EndsOnce.plain_of_open {b : Block} (h : b.EndsOnce) (isOpen : b.isTerminated = false)
    {i : Instruction} (mem : i ∈ b.instructions) : i.isTerminator = false := by
  cases terminator : i.isTerminator with
  | false => rfl
  | true =>
      rw [isTerminated, h.getLast? mem terminator, Option.any_some, terminator] at isOpen
      cases isOpen

end Block

namespace Emitter

variable {e e' e'' : Emitter}

/-- The emitter with another empty block. -/
def withBlock (e : Emitter) (label : String) (numbering : Numbering := .whole) : Emitter :=
  { e with blocks := e.blocks.push ⟨numbering.number e.blocks.size, label, [], .empty⟩ }

@[simp] theorem size_withBlock (e : Emitter) (label : String) (numbering : Numbering) :
    (e.withBlock label numbering).blocks.size = e.blocks.size + 1 :=
  Table.size_push ..

theorem get?_withBlock (e : Emitter) (label : String) (numbering : Numbering) (k : Nat) :
    (e.withBlock label numbering).blocks.get? k =
      if k = e.blocks.size then some ⟨numbering.number e.blocks.size, label, [], .empty⟩
      else e.blocks.get? k :=
  Table.get?_push ..

theorem get?_withBlock_cases {label : String} {numbering : Numbering} {k : Nat} {b : Block}
    (found : (e.withBlock label numbering).blocks.get? k = some b) :
    (k = e.blocks.size ∧ b = ⟨numbering.number e.blocks.size, label, [], .empty⟩) ∨
      e.blocks.get? k = some b := by
  rw [get?_withBlock] at found
  split at found
  · next last => exact .inl ⟨last, (Option.some.inj found).symm⟩
  · exact .inr found

def withRegister (e : Emitter) (ty : Ty) (numbering : Numbering := .whole) : Emitter :=
  { e with registers := e.registers.push ⟨numbering.number e.registers.size, ty⟩ }

theorem addBlock_eq_ok {function id : Nat} {label : String} {numbering : Numbering} :
    e.addBlock function label numbering = .ok (id, e') ↔ function = e.id ∧
      id = numbering.number e.blocks.size ∧ e' = e.withBlock label numbering := by
  rw [addBlock]
  split
  · next same =>
    simp only [Except.ok.injEq, Prod.mk.injEq, same, true_and]
    exact and_congr eq_comm eq_comm
  · next other => simp [other]

/-- What becomes of block `k` when an instruction is appended under the cursor. -/
def appended (e : Emitter) (i : Instruction) (k : Nat) (b : Block) : Block :=
  { b with
    instructions := if k = e.cursor then b.instructions ++ [i] else b.instructions
    preds := if k ∈ i.targets then b.preds.insert e.cursor else b.preds }

/-- An instruction is appended to the block under the cursor, which was open, and this block is
entered as a predecessor of all targets. -/
structure Emits (e : Emitter) (i : Instruction) (e' : Emitter) : Prop where
  isOpen : ∃ b, e.blocks.get? e.cursor = some b ∧ b.isTerminated = false
  targets : ∀ t ∈ i.targets, t < e.blocks.size
  get? : ∀ k, e'.blocks.get? k = (e.blocks.get? k).map (e.appended i k)
  size : e'.blocks.size = e.blocks.size
  rest : e' = { e with blocks := e'.blocks }

/-- An instruction goes to the end of the block under the cursor, which has to be open. -/
theorem push_eq_ok {i : Instruction} (h : e.push i = .ok e') :
    (∃ b, e.blocks.get? e.cursor = some b ∧ b.isTerminated = false) ∧
      e' = { e with
        blocks := e.blocks.modify e.cursor fun b =>
          { b with instructions := b.instructions ++ [i] } } := by
  rw [push] at h
  split at h
  · cases h
  · next b found =>
    split at h
    · cases h
    · next isOpen => exact ⟨⟨b, found, by simpa using isOpen⟩, (Except.ok.inj h).symm⟩

/-- The source becomes a predecessor of a target that is there. -/
theorem link_eq_ok {source target : Nat} (h : e.link source target = .ok e') :
    target < e.blocks.size ∧ e' = { e with
      blocks := e.blocks.modify target fun b => { b with preds := b.preds.insert source } } := by
  rw [link] at h
  split at h
  · next there => exact ⟨there, (Except.ok.inj h).symm⟩
  · cases h

/-- Linking to several blocks, where it does not matter if one of them is named twice. -/
theorem links_eq_ok {source : Nat} {targets : List Nat}
    (h : targets.foldlM (fun e t => link e source t) e = .ok e') :
    (∀ t ∈ targets, t < e.blocks.size) ∧
    (∀ k, e'.blocks.get? k = (e.blocks.get? k).map fun b =>
      { b with preds := if k ∈ targets then b.preds.insert source else b.preds }) ∧
    e'.blocks.size = e.blocks.size ∧ e' = { e with blocks := e'.blocks } := by
  induction targets generalizing e with
  | nil =>
      cases h
      simp
  | cons t targets ih =>
      rw [List.foldlM_cons, except_bind_eq_ok] at h
      obtain ⟨e₁, first, others⟩ := h
      obtain ⟨there, rfl⟩ := link_eq_ok first
      obtain ⟨known, blocks, size, rest⟩ := ih others
      rw [Table.size_modify] at size
      refine ⟨?_, ?_, size, rest⟩
      · intro u mem
        rcases List.mem_cons.1 mem with rfl | mem
        · exact there
        · simpa using known u mem
      · intro k
        rw [blocks, Table.get?_modify]
        by_cases same : t = k
        · subst same
          by_cases again : t ∈ targets <;> simp [again, Function.comp_def, Ascending.insert_insert]
        · have other : k ≠ t := Ne.symm same
          simp [same, other]

/-- Pushing an instruction and then linking to its targets emits it. -/
theorem emits_of_push {i : Instruction} {e₁ : Emitter} (h : e.push i = .ok e₁)
    (links : i.targets.foldlM (fun x t => link x e.cursor t) e₁ = .ok e') : e.Emits i e' := by
  obtain ⟨isOpen, rfl⟩ := push_eq_ok h
  obtain ⟨known, blocks, size, rest⟩ := links_eq_ok links
  simp only [Table.size_modify] at known size
  refine ⟨isOpen, known, ?_, size, rest⟩
  intro k
  rw [blocks, Table.get?_modify]
  by_cases here : e.cursor = k
  · subst here
    simp only [if_true, Option.map_map]
    congr 1
    funext b
    simp only [Function.comp_apply, appended, if_true]
  · have there : k ≠ e.cursor := Ne.symm here
    simp only [if_neg here]
    congr 1
    funext b
    simp only [appended, if_neg there]

theorem emits_push {i : Instruction} (plain : i.targets = []) (h : e.push i = .ok e') :
    e.Emits i e' := by
  refine emits_of_push h ?_
  rw [plain]
  rfl

theorem emits_jump {target : Nat} (h : e.jump target = .ok e') : e.Emits (.jump target) e' := by
  rw [jump, except_bind_eq_ok] at h
  obtain ⟨_, pushed, linked⟩ := h
  refine emits_of_push pushed ?_
  simpa only [Instruction.targets, List.foldlM_cons, List.foldlM_nil, bind_pure] using linked

theorem emits_branch {condition : Operand} {positive negative : Nat}
    (h : e.branch condition positive negative = .ok e') :
    e.Emits (.branch condition positive negative) e' := by
  simp only [branch, except_bind_eq_ok] at h
  obtain ⟨_, pushed, _, first, second⟩ := h
  refine emits_of_push pushed ?_
  simp only [Instruction.targets, List.foldlM_cons, List.foldlM_nil, bind_pure, except_bind_eq_ok]
  exact ⟨_, first, second⟩

/-- Where control can go to afterwards. -/
theorem successors_appended (e : Emitter) (i : Instruction) (k : Nat) (b : Block) :
    (e.appended i k b).successors = if k = e.cursor then i.targets else b.successors := by
  by_cases here : k = e.cursor <;> simp [Block.successors, appended, here]

/-- A target has the block under the cursor as a predecessor afterwards. -/
theorem contains_preds_appended (e : Emitter) (i : Instruction) (k : Nat) (b : Block) (p : Nat) :
    (e.appended i k b).preds.contains p = true ↔
      (k ∈ i.targets ∧ p = e.cursor) ∨ b.preds.contains p = true := by
  by_cases target : k ∈ i.targets <;> simp [appended, target, Ascending.contains_insert]

namespace Emits

variable {i : Instruction}

theorem get?_eq_some (h : e.Emits i e') {k : Nat} {b' : Block} :
    e'.blocks.get? k = some b' ↔ ∃ b, e.blocks.get? k = some b ∧ e.appended i k b = b' := by
  rw [h.get?, Option.map_eq_some_iff]

/-- The block under the cursor was open, so it had no terminator yet. -/
theorem endsOnce (h : e.Emits i e') {k : Nat} {b : Block} (found : e.blocks.get? k = some b)
    (ends : b.EndsOnce) : (e.appended i k b).EndsOnce := by
  intro j mem
  by_cases here : k = e.cursor
  · obtain ⟨opened, at_cursor, isOpen⟩ := h.isOpen
    obtain rfl := Option.some.inj (found.symm.trans (here ▸ at_cursor))
    simp only [appended, if_pos here, List.dropLast_concat] at mem
    exact ends.plain_of_open isOpen mem
  · simp only [appended, if_neg here] at mem
    exact ends j mem

/-- From the block under the cursor control goes to the targets now, from others as before. -/
theorem leads_iff (h : e.Emits i e') (p k : Nat) :
    (∃ c', e'.blocks.get? p = some c' ∧ k ∈ c'.successors) ↔
      if p = e.cursor then k ∈ i.targets
      else ∃ c, e.blocks.get? p = some c ∧ k ∈ c.successors := by
  simp only [h.get?_eq_some]
  split
  · next here =>
    subst here
    constructor
    · rintro ⟨_, ⟨c, _, rfl⟩, leads⟩
      simpa only [successors_appended, if_true] using leads
    · intro leads
      obtain ⟨opened, at_cursor, _⟩ := h.isOpen
      refine ⟨_, ⟨opened, at_cursor, rfl⟩, ?_⟩
      simpa only [successors_appended, if_true] using leads
  · next there =>
    constructor
    · rintro ⟨_, ⟨c, leader, rfl⟩, leads⟩
      exact ⟨c, leader, by simpa only [successors_appended, if_neg there] using leads⟩
    · rintro ⟨c, leader, leads⟩
      refine ⟨_, ⟨c, leader, rfl⟩, ?_⟩
      simpa only [successors_appended, if_neg there] using leads

/-- The block under the cursor led nowhere before. -/
theorem not_leads (h : e.Emits i e') (k : Nat) :
    ¬ ∃ c, e.blocks.get? e.cursor = some c ∧ k ∈ c.successors := by
  rintro ⟨c, leader, leads⟩
  obtain ⟨opened, at_cursor, isOpen⟩ := h.isOpen
  obtain rfl := Option.some.inj (leader.symm.trans at_cursor)
  rw [Block.successors_of_open isOpen] at leads
  cases leads

end Emits

/-- The instructions of a block so far. -/
def code (e : Emitter) (k : Nat) : List Instruction :=
  ((e.blocks.get? k).map (·.instructions)).getD []

theorem code_of_get? {k : Nat} {b : Block} (found : e.blocks.get? k = some b) :
    e.code k = b.instructions := by
  rw [code, found]
  rfl

theorem code_withBlock (e : Emitter) (label : String) (numbering : Numbering) (k : Nat) :
    (e.withBlock label numbering).code k = e.code k := by
  rw [code, get?_withBlock]
  split
  · next last =>
    have missing : e.blocks.get? k = none :=
      (e.blocks.get?_eq_none_iff k).2 (Nat.le_of_eq last.symm)
    rw [code, missing]
    rfl
  · rfl

theorem Emits.code {i : Instruction} (h : e.Emits i e') (k : Nat) :
    e'.code k = e.code k ++ if e.cursor = k then [i] else [] := by
  rw [Emitter.code, h.get?, Emitter.code]
  by_cases here : e.cursor = k
  · subst here
    obtain ⟨b, found, _⟩ := h.isOpen
    simp [found, appended]
  · have there : k ≠ e.cursor := Ne.symm here
    cases e.blocks.get? k <;> simp [appended, here, there]

/-- The blocks go by the numbers of their places, and but for an entry they are linked. -/
structure Coherent (e : Emitter) (numbering : Numbering := .whole) : Prop where
  ids : ∀ k b, e.blocks.get? k = some b → b.id = numbering.number k
  ends : ∀ k b, e.blocks.get? k = some b → b.EndsOnce
  consistent : Graph.Consistent e.blocks.get?

namespace Coherent

variable {numbering : Numbering}

theorem withBlock (coherent : e.Coherent numbering) (label : String) :
    (e.withBlock label numbering).Coherent numbering := by
  have old : ∀ {k b}, e.blocks.get? k = some b →
      (e.withBlock label numbering).blocks.get? k = some b :=
    fun found => Table.get?_push_of_get? found _
  refine ⟨?_, ?_, ?_, ?_⟩
  · intro k b found
    rcases get?_withBlock_cases found with ⟨rfl, rfl⟩ | found
    · rfl
    · exact coherent.ids k b found
  · intro k b found
    rcases get?_withBlock_cases found with ⟨rfl, rfl⟩ | found
    · intro i mem
      cases mem
    · exact coherent.ends k b found
  · intro k b found t target
    rcases get?_withBlock_cases found with ⟨rfl, rfl⟩ | found
    · cases target
    · obtain ⟨c, there⟩ := coherent.consistent.targets k b found t target
      exact ⟨c, old there⟩
  · intro k b found p
    rcases get?_withBlock_cases found with ⟨rfl, rfl⟩ | found
    · refine iff_of_false (by simp) ?_
      rintro ⟨c, leader, leads⟩
      rcases get?_withBlock_cases leader with ⟨rfl, rfl⟩ | leader
      · cases leads
      · obtain ⟨_, there⟩ := coherent.consistent.targets p c leader _ leads
        exact Nat.lt_irrefl _ (Table.lt_size_of_get? there)
    · rw [coherent.consistent.preds k b found p]
      constructor
      · rintro ⟨c, leader, leads⟩
        exact ⟨c, old leader, leads⟩
      · rintro ⟨c, leader, leads⟩
        rcases get?_withBlock_cases leader with ⟨rfl, rfl⟩ | leader
        · cases leads
        · exact ⟨c, leader, leads⟩

theorem emits {i : Instruction} (coherent : e.Coherent numbering) (h : e.Emits i e') :
    e'.Coherent numbering := by
  refine ⟨?_, ?_, ?_, ?_⟩
  · intro k b' found'
    obtain ⟨b, found, rfl⟩ := h.get?_eq_some.1 found'
    exact coherent.ids k b found
  · intro k b' found'
    obtain ⟨b, found, rfl⟩ := h.get?_eq_some.1 found'
    exact h.endsOnce found (coherent.ends k b found)
  · intro k b' found' t target
    obtain ⟨b, found, rfl⟩ := h.get?_eq_some.1 found'
    have there : ∃ c, e.blocks.get? t = some c := by
      rw [successors_appended] at target
      split at target
      · exact e.blocks.exists_get? (h.targets t target)
      · exact coherent.consistent.targets k b found t target
    obtain ⟨c, there⟩ := there
    exact ⟨_, h.get?_eq_some.2 ⟨c, there, rfl⟩⟩
  · intro k b' found' p
    obtain ⟨b, found, rfl⟩ := h.get?_eq_some.1 found'
    have before := coherent.consistent.preds k b found p
    rw [contains_preds_appended, h.leads_iff, before]
    split
    · next here =>
      subst here
      simp [h.not_leads k]
    · next there => simp [there]

/-- With enough numbers the blocks go by their places. -/
theorem whole (coherent : e.Coherent numbering) (enough : numbering.Covers e.blocks.size) :
    e.Coherent where
  ids := fun k b found => (coherent.ids k b found).trans
    (Numbering.covers_iff.1 enough k (Table.lt_size_of_get? found))
  ends := coherent.ends
  consistent := coherent.consistent

/-- The finished function has the blocks in the order of their numbers. -/
theorem items_finish (coherent : e.Coherent) : e.finish.blocks.items = e.blocks.toList := by
  have ids : ∀ k (h : k < e.blocks.toList.length), e.blocks.toList[k].id = k := by
    intro k h
    refine coherent.ids k _ ?_
    rw [← Table.getElem?_toList, List.getElem?_eq_getElem h]
  refine Ascending.items_ofList (List.pairwise_iff_getElem.2 fun i j hi hj less => ?_)
  rw [ids i hi, ids j hj]
  exact less

theorem find?_finish (coherent : e.Coherent) : e.finish.blocks.find? = e.blocks.get? := by
  funext k
  ext b
  rw [Ascending.find?_eq_some_iff, coherent.items_finish, ← Table.getElem?_toList]
  constructor
  · rintro ⟨mem, rfl⟩
    obtain ⟨j, found⟩ := List.mem_iff_getElem?.1 mem
    rw [coherent.ids j b (e.blocks.getElem?_toList j ▸ found)]
    exact found
  · intro found
    exact ⟨List.mem_of_getElem? found, coherent.ids k b (e.blocks.getElem?_toList k ▸ found)⟩

/-- The numbers of the blocks are dense just as long as there are enough of them. -/
theorem keys_finish (coherent : e.Coherent numbering) :
    e.finish.blocks.keys = List.range e.blocks.size ↔ numbering.Covers e.blocks.size := by
  rw [Numbering.covers_iff]
  constructor
  · intro dense k inside
    obtain ⟨b, mem, rfl⟩ := List.mem_map.1 (dense ▸ List.mem_range.2 inside)
    obtain ⟨j, found⟩ := List.mem_iff_getElem?.1 (Ascending.mem_of_mem_ofList mem)
    rw [coherent.ids j b (e.blocks.getElem?_toList j ▸ found), Numbering.number_number]
  · intro places
    refine List.ext_getElem? fun k => ?_
    rw [Ascending.keys, (coherent.whole (Numbering.covers_iff.2 places)).items_finish,
      List.getElem?_map, Table.getElem?_toList]
    cases found : e.blocks.get? k with
    | none =>
        have outside : e.blocks.size ≤ k := (e.blocks.get?_eq_none_iff k).1 found
        simp [outside]
    | some b =>
        have inside : k < e.blocks.size := Table.lt_size_of_get? found
        simp [inside, coherent.ids k b found, places k inside]

end Coherent

/-- The blocks are linked and go by their own numbers. -/
structure Sound (e : Emitter) : Prop where
  linked : Graph.Linked e.blocks.get?
  ids : ∀ k b, e.blocks.get? k = some b → b.id = k

theorem Sound.coherent (sound : e.Sound) : e.Coherent :=
  ⟨sound.ids, sound.linked.ends, sound.linked.consistent⟩

theorem Coherent.sound (coherent : e.Coherent) (entry : ∃ b, e.blocks.get? 0 = some b) : e.Sound :=
  ⟨⟨entry, coherent.ends, coherent.consistent.targets, coherent.consistent.preds⟩, coherent.ids⟩

theorem Sound.withBlock (sound : e.Sound) (label : String) : (e.withBlock label).Sound := by
  obtain ⟨b, found⟩ := sound.linked.entry
  exact (sound.coherent.withBlock label).sound ⟨b, Table.get?_push_of_get? found _⟩

theorem Sound.emits {i : Instruction} (sound : e.Sound) (h : e.Emits i e') : e'.Sound := by
  obtain ⟨b, found⟩ := sound.linked.entry
  exact (sound.coherent.emits h).sound ⟨_, h.get?_eq_some.2 ⟨b, found, rfl⟩⟩

/-- What there was is still there: blocks have at most been continued, if they were open. -/
structure Later (e e' : Emitter) : Prop where
  blocks : ∀ k b, e.blocks.get? k = some b → ∃ b', e'.blocks.get? k = some b' ∧
    b.instructions <+: b'.instructions ∧
    (b.isTerminated = true → b'.instructions = b.instructions)
  size : e.blocks.size ≤ e'.blocks.size
  registers : e.registers.toList <+: e'.registers.toList
  header : e'.signatures = e.signatures ∧ e'.id = e.id ∧ e'.returnType = e.returnType ∧
    e'.arguments = e.arguments

namespace Later

theorem refl (e : Emitter) : e.Later e :=
  ⟨fun _ b found => ⟨b, found, List.prefix_rfl, fun _ => rfl⟩, Nat.le_refl _, List.prefix_rfl,
    rfl, rfl, rfl, rfl⟩

theorem trans (first : e.Later e') (second : e'.Later e'') : e.Later e'' where
  blocks := by
    intro k b found
    obtain ⟨b', found', continued, closed⟩ := first.blocks k b found
    obtain ⟨b'', found'', continued', closed'⟩ := second.blocks k b' found'
    refine ⟨b'', found'', continued.trans continued', ?_⟩
    intro terminated
    have same := closed terminated
    rw [← same]
    refine closed' ?_
    rw [Block.isTerminated, same]
    exact terminated
  size := Nat.le_trans first.size second.size
  registers := first.registers.trans second.registers
  header := by
    obtain ⟨signatures, id, returnType, arguments⟩ := second.header
    rw [signatures, id, returnType, arguments]
    exact first.header

theorem of_emits {i : Instruction} (h : e.Emits i e') : e.Later e' where
  blocks := by
    intro k b found
    obtain ⟨opened, at_cursor, isOpen⟩ := h.isOpen
    refine ⟨_, h.get?_eq_some.2 ⟨b, found, rfl⟩, ?_⟩
    by_cases here : k = e.cursor
    · obtain rfl := Option.some.inj (found.symm.trans (here ▸ at_cursor))
      simp only [appended, if_pos here, isOpen]
      exact ⟨List.prefix_append .., fun closed => by cases closed⟩
    · simp [appended, here]
  size := Nat.le_of_eq h.size.symm
  registers := by
    have same : e'.registers = e.registers := by rw [h.rest]
    exact same ▸ List.prefix_rfl
  header := by
    rw [h.rest]
    exact ⟨rfl, rfl, rfl, rfl⟩

theorem withBlock (e : Emitter) (label : String) : e.Later (e.withBlock label) where
  blocks := fun _ b found =>
    ⟨b, Table.get?_push_of_get? found _, List.prefix_rfl, fun _ => rfl⟩
  size := by
    simp only [Emitter.withBlock, Table.size_push]
    exact Nat.le_succ _
  registers := List.prefix_rfl
  header := ⟨rfl, rfl, rfl, rfl⟩

theorem withRegister (e : Emitter) (ty : Ty) : e.Later (e.withRegister ty) where
  blocks := fun _ b found => ⟨b, found, List.prefix_rfl, fun _ => rfl⟩
  size := Nat.le_refl _
  registers := by
    rw [Emitter.withRegister, Registers.toList_push]
    exact List.prefix_append ..
  header := ⟨rfl, rfl, rfl, rfl⟩

theorem moveTo (e : Emitter) (block : Nat) : e.Later (e.moveTo block) where
  blocks := fun _ b found => ⟨b, found, List.prefix_rfl, fun _ => rfl⟩
  size := Nat.le_refl _
  registers := List.prefix_rfl
  header := ⟨rfl, rfl, rfl, rfl⟩

theorem reachable (h : e.Later e') {k : Nat} (reached : Graph.Reachable e.blocks.get? k) :
    Graph.Reachable e'.blocks.get? k := by
  induction reached with
  | entry => exact .entry
  | next _ found leads ih =>
      obtain ⟨b', found', _, closed⟩ := h.blocks _ _ found
      have same := closed (Block.isTerminated_of_mem_successors leads)
      refine .next ih found' ?_
      rw [Block.successors, same]
      exact leads

end Later

end Emitter

end Lir

end Rill
