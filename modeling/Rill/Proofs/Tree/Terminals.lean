import Rill.Proofs.Tree.Grammar

/-!
# Tokens with a meaning

Operators, type names and literals are single tokens that are looked up or read as values. The
tables of the parser are those of the grammar, and its literals have the values that the grammar
gives them, as long as the texts of the tokens fit their kinds.
-/

namespace Rill.Parser

open Grammar

theorem joint?_eq_some_iff {n : Nat} {kind : TokenKind} {joint : Joint} :
    joint? n kind = some joint ↔ ∃ mark, kind = .mark mark ∧ (mark, joint) ∈ operators n := by
  constructor
  · fun_cases joint? n kind <;> rintro ⟨⟩ <;> exact ⟨_, rfl, by decide⟩
  · have table : ∀ n, ∀ p ∈ operators n, joint? n (.mark p.1) = some p.2
      | 0 | 1 | 2 | 3 | 4 => by decide
      | _ + 5 => fun _ mem => (List.not_mem_nil mem).elim
    rintro ⟨mark, rfl, mem⟩
    exact table n _ mem

theorem unaryOp?_eq_some_iff {kind : TokenKind} {op : UnaryOp} :
    unaryOp? kind = some op ↔ ∃ mark, kind = .mark mark ∧ (mark, op) ∈ prefixes := by
  constructor
  · fun_cases unaryOp? kind <;> rintro ⟨⟩ <;> exact ⟨_, rfl, by decide⟩
  · rintro ⟨mark, rfl, mem⟩
    exact (by decide : ∀ p ∈ prefixes, unaryOp? (.mark p.1) = some p.2) _ mem

theorem ofName?_of_mem {name : String} {ty : Ty} (mem : (name, ty) ∈ typeNames) :
    Ty.ofName? name = some ty :=
  (by decide : ∀ p ∈ typeNames, Ty.ofName? p.1 = some p.2) (name, ty) mem

/-- The unit type has no name that a word could have. -/
theorem mem_typeNames_of_ofName? {name : String} {ty : Ty} (word : IsWord name.toList)
    (found : Ty.ofName? name = some ty) : (name, ty) ∈ typeNames := by
  have same := List.find?_some found
  obtain rfl := beq_iff_eq.1 same
  cases ty with
  | unit =>
      obtain ⟨c, rest, split, start, _⟩ := word
      obtain rfl : '(' = c := (List.cons.inj split).1
      cases start
  | _ => decide

theorem readInt?_of_isDigits {text : String} (digits : IsDigits text.toList) :
    Number.readInt? text =
      if Number.ofDigits text.toList < 0x8000000000000000 then
        some (.ofNat (Number.ofDigits text.toList))
      else none := by
  have all : (text.toList.all Char.isDigit && !text.toList.isEmpty) = true := by
    simpa [IsDigits, and_comm] using digits
  rw [Number.readInt?]
  split
  · next h =>
    have bad := digits.2 '-' (h ▸ List.mem_cons_self)
    cases bad
  · rw [if_pos all]
    have fits : (-0x8000000000000000 ≤ (Number.ofDigits text.toList : Int) ∧
        (Number.ofDigits text.toList : Int) < 0x8000000000000000) ↔
        Number.ofDigits text.toList < 0x8000000000000000 := by omega
    simp only [fits, Int64.ofInt_eq_ofNat]

/-- The tokens have texts that fit their kinds. -/
def Spelled (tokens : List Token) : Prop :=
  ∀ t ∈ tokens, t.kind.Spells t.text.toList

theorem Spelled.append {front more : List Token} (h : Spelled front) (h' : Spelled more) :
    Spelled (front ++ more) := by
  intro t mem
  rcases List.mem_append.1 mem with mem | mem
  · exact h t mem
  · exact h' t mem

theorem Spelled.subset {part tokens : List Token} (h : Spelled tokens) (sub : part ⊆ tokens) :
    Spelled part :=
  fun t mem => h t (sub mem)

theorem Spelled.tail {t : Token} {rest : List Token} (h : Spelled (t :: rest)) : Spelled rest :=
  h.subset (List.subset_cons_self t rest)

/-- A literal's value, unless it is an integer that is too large. -/
theorem literal?_cases {token : Token} (spells : token.kind.Spells token.text.toList)
    {value : Except ParseError Literal} (read : literal? token = some value) :
    (∃ literal, value = .ok literal ∧ Denotes token literal) ∨
      value = .error ⟨.integerTooLarge, token.span⟩ := by
  rw [literal?] at read
  split at read
  · next kind =>
    obtain rfl := Option.some.inj read
    rw [kind] at spells
    refine .inl ⟨_, rfl, ?_⟩
    rcases spells with yes | no
    · rw [String.toList_inj.1 yes]
      exact .true kind (String.toList_inj.1 yes)
    · rw [String.toList_inj.1 no]
      exact .false kind (String.toList_inj.1 no)
  · next kind =>
    obtain rfl := Option.some.inj read
    rw [kind] at spells
    rw [readInt?_of_isDigits spells]
    split
    · next n found =>
      split at found
      · next fits =>
        obtain rfl := Option.some.inj found
        exact .inl ⟨_, rfl, .int kind spells fits⟩
      · cases found
    · exact .inr rfl
  · next kind =>
    obtain rfl := Option.some.inj read
    exact .inl ⟨_, rfl, .float kind⟩
  · next kind =>
    obtain rfl := Option.some.inj read
    rw [kind] at spells
    obtain ⟨tail, closes, text⟩ := spells
    obtain ⟨inner, rfl⟩ := List.getLast?_eq_some_iff.1 closes.last
    refine .inl ⟨_, rfl, ?_⟩
    rw [text, List.drop_succ_cons, List.drop_zero, List.dropLast_concat]
    exact .str kind text
  · cases read

theorem literal?_of_denotes {token : Token} {value : Literal} (h : Denotes token value) :
    literal? token = some (.ok value) := by
  rw [literal?]
  cases h with
  | true kind text => rw [kind, text]; rfl
  | false kind text => rw [kind, text]; rfl
  | int kind digits fits =>
      rw [kind]
      dsimp only
      rw [readInt?_of_isDigits digits, if_pos fits]
  | float kind => rw [kind]
  | str kind text =>
      rw [kind]
      dsimp only
      rw [text, List.drop_succ_cons, List.drop_zero, List.dropLast_concat]

end Rill.Parser

namespace Rill.Grammar

/-- Constants are neither names nor parentheses. -/
theorem Constant.kind_ne (literal : Constant) :
    literal.token.kind ≠ .identifier ∧ literal.token.kind ≠ .mark .openParen := by
  obtain ⟨token, value, denotes⟩ := literal
  cases denotes with
  | true kind | false kind | int kind | float kind | str kind =>
      rw [kind]
      exact ⟨by decide, by decide⟩

end Rill.Grammar
