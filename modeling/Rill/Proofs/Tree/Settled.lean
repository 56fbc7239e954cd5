import Rill.Proofs.Tree.Taken

/-!
# Contracts for readers

A reader decides by what it has read and at most one token more. So when it stops at a token, it
stops there whatever stands behind, and when it is done it would have been done before anything
else that can follow. And as long as it has not failed there are tokens that bring it to its end,
since every phrase can be begun and every phrase that has been begun can be finished. `Ends` says
all this of the outcome at given tokens, and `Settles` of all outcomes; both are kept when
readers are put together.

A phrase may depend on what stands behind it: an operator behind an operand would be taken along.
The property `Q` of a reader says what can follow it, and `P` what can follow the reader before.
What is read is told by a precondition `W` on the tokens and a postcondition `S` on the value and
the tokens that are left. For a phrase of the grammar it is the tree of a derivation, whose tokens
have been taken (`Derived`).
-/

namespace Rill

/-- A text of the kind. -/
def TokenKind.sample : TokenKind → String
  | .keyword word => word.spelling
  | .identifier => "x"
  | .boolean => "true"
  | .integer => "0"
  | .decimal => "0.0"
  | .string => "\"\""
  | .mark m => m.spelling

theorem TokenKind.spells_sample (kind : TokenKind) : kind.Spells kind.sample.toList := by
  have zero : IsDigits ['0'] := ⟨List.cons_ne_nil _ _, List.forall_mem_singleton.2 rfl⟩
  cases kind with
  | keyword word => exact rfl
  | mark mark => exact rfl
  | boolean => exact .inl rfl
  | identifier =>
      have word : IsWord ['x'] := ⟨'x', [], rfl, rfl, List.forall_mem_nil _⟩
      refine ⟨word, fun word => ?_, by decide, by decide⟩
      cases word <;> decide
  | integer => exact zero
  | decimal => exact ⟨['0'], ['0'], zero, zero, rfl⟩
  | string =>
      refine ⟨['"'], ⟨rfl, by decide, fun front back split => ?_⟩, rfl⟩
      cases front with
      | nil => simp_all
      | cons c front => simp at split

namespace Grammar

def sample (kind : TokenKind) : Terminal kind :=
  ⟨⟨kind, kind.sample, ⟨0, 0⟩⟩, rfl⟩

/-- A name as an operand of level `n`. -/
def Tier.ofName (name : Name) : (n : Nat) → Tier n
  | 0 => .unary (.primary (.var name))
  | n + 1 => .chain (Tier.ofName name n) .nil

theorem Tier.tokens_ofName (name : Name) (n : Nat) :
    (Tier.ofName name n).tokens = [name.token] := by
  induction n with
  | zero => rw [Tier.ofName, Tier.tokens, Unary.tokens, Primary.tokens]
  | succ n ih => rw [Tier.ofName, Tier.tokens, ih, Links.tokens, List.append_nil]

def sampleBlock : Block := .braces (sample _) [] (sample _)

end Grammar

namespace Parser

open Grammar

/-- The next token is of one of the kinds. -/
def Before (kinds : List TokenKind) (tokens : List Token) : Prop :=
  ∃ t ∈ tokens.head?, t.kind ∈ kinds

abbrev Anything : List Token → Prop := fun _ => True

abbrev Nothing : List Token → Prop := fun _ => False

/-- The kinds that end expressions. -/
def closers : List TokenKind :=
  [.mark .semicolon, .mark .comma, .mark .closeParen, .mark .openBrace]

variable {α β : Type} {eof : Span} {P Q R : List Token → Prop} {S S' : α → List Token → Prop}
  {S'' : β → List Token → Prop} {r : Reader α} {k : α → Reader β} {tokens rest : List Token}
  {t : Token} {value : α}

theorem Before.mono {kinds kinds' : List TokenKind} (h : Before kinds tokens)
    (sub : kinds ⊆ kinds') : Before kinds' tokens := by
  obtain ⟨t, first, mem⟩ := h
  exact ⟨t, first, sub mem⟩

theorem Before.peekIs_self {kind : TokenKind} (h : Before [kind] tokens) :
    peekIs kind tokens = true := by
  obtain ⟨t, first, mem⟩ := h
  simp_all [peekIs]

theorem Before.peekIs_other {kinds : List TokenKind} {kind : TokenKind} (h : Before kinds tokens)
    (other : kind ∉ kinds) : peekIs kind tokens = false := by
  obtain ⟨t, first, mem⟩ := h
  have differs : t.kind ≠ kind := fun same => other (same ▸ mem)
  simp_all [peekIs]

/-- Behind these tokens others bring the reader to its end, whatever follows then. -/
def Finishes (Q : List Token → Prop) (r : Reader α) (tokens : List Token) : Prop :=
  ∃ more value, Spelled more ∧ ∀ rest, Q rest → r (tokens ++ (more ++ rest)) = .ok (value, rest)

/-- There are tokens for the reader that can stand where it has its turn. -/
def Fits (P Q : List Token → Prop) (r : Reader α) : Prop :=
  ∃ more value, Spelled more ∧
    ∀ rest, Q rest → P (more ++ rest) ∧ r (more ++ rest) = .ok (value, rest)

/-- A reader that needs no tokens. -/
theorem Fits.idle (value : α) (sub : ∀ rest, Q rest → P rest)
    (reads : ∀ rest, Q rest → r rest = .ok (value, rest)) : Fits P Q r :=
  ⟨[], value, List.forall_mem_nil _, fun rest follows => ⟨sub rest follows, reads rest follows⟩⟩

theorem Fits.finishes (h : Fits P Q r) : Finishes Q r [] := by
  obtain ⟨more, value, spelled, done⟩ := h
  exact ⟨more, value, spelled, fun rest follows => (done rest follows).2⟩

theorem Finishes.of_eq {r' : Reader α} {front front' : List Token} (h : Finishes Q r' front')
    (same : ∀ more, r (front ++ more) = r' (front' ++ more)) : Finishes Q r front := by
  obtain ⟨more, value, spelled, done⟩ := h
  exact ⟨more, value, spelled, fun rest follows => (same _).trans (done rest follows)⟩

theorem Finishes.mono (h : Finishes Q r tokens) (sub : ∀ rest, R rest → Q rest) :
    Finishes R r tokens := by
  obtain ⟨more, value, spelled, done⟩ := h
  exact ⟨more, value, spelled, fun rest follows => done rest (sub rest follows)⟩

theorem Finishes.bind (first : Finishes Q r tokens) (next : ∀ value, Fits Q R (k value)) :
    Finishes R (r >>= k) tokens := by
  obtain ⟨more, value, spelled, done⟩ := first
  obtain ⟨more', value', spelled', done'⟩ := next value
  refine ⟨more ++ more', value', spelled.append spelled', fun rest follows => ?_⟩
  obtain ⟨allowed, read⟩ := done' rest follows
  rw [List.append_assoc, bind_of_ok (done _ allowed)]
  exact read

/-- A second reader that can be finished makes the two together one that can be. As long as it has
taken nothing, the tokens that bring it to its end may be ones that cannot follow the first reader,
and others are chosen. -/
theorem Finishes.after {front taken behind : List Token}
    (again : ∀ other, Q other ∨ other.head? = rest.head? → r (front ++ other) = .ok (value, other))
    (fits : Fits Q R (k value)) (split : rest = taken ++ behind) (h : Finishes R (k value) taken) :
    Finishes R (r >>= k) (front ++ taken) := by
  cases taken with
  | nil =>
      obtain ⟨more, value', spelled, done⟩ := fits
      refine ⟨more, value', spelled, fun other follows => ?_⟩
      obtain ⟨allowed, read⟩ := done other follows
      rw [List.append_nil, bind_of_ok (again _ (.inl allowed)), read]
  | cons t taken =>
      obtain ⟨more, value', spelled, done⟩ := h
      refine ⟨more, value', spelled, fun other follows => ?_⟩
      have same : (t :: taken ++ (more ++ other)).head? = rest.head? := by
        rw [split]
        rfl
      rw [List.append_assoc, bind_of_ok (again _ (.inr same))]
      exact done other follows

theorem Fits.bind (first : Fits P Q r) (next : ∀ value, Fits Q R (k value)) :
    Fits P R (r >>= k) := by
  obtain ⟨more, value, spelled, done⟩ := first
  obtain ⟨more', value', spelled', done'⟩ := next value
  refine ⟨more ++ more', value', spelled.append spelled', fun rest follows => ?_⟩
  obtain ⟨allowed, read⟩ := done' rest follows
  obtain ⟨allowed', read'⟩ := done _ allowed
  rw [List.append_assoc]
  exact ⟨allowed', by rw [bind_of_ok read', read]⟩

/-- How reading ends, and that it is settled by the tokens so far. -/
inductive Ends (eof : Span) (P Q : List Token → Prop) (S : α → List Token → Prop) (r : Reader α)
    (tokens : List Token) : Prop
  /-- What is read would also be read before other tokens: those that can follow, and those that
  begin as the ones that do follow. -/
  | reads (front rest : List Token) (value : α) (split : tokens = front ++ rest)
      (again : ∀ other, Q other ∨ other.head? = rest.head? →
        r (front ++ other) = .ok (value, other))
      (idle : front = [] → ∀ other, Q other → P other) (post : S value rest)
  /-- Reading fails at a token, whatever stands behind it, and could have gone on before. -/
  | stops (front : List Token) (t : Token) (behind : List Token) {cause : ParseCause}
      (split : tokens = front ++ t :: behind) (present : ∀ wanted, cause ≠ .endOfFile wanted)
      (fails : ∀ more, r (front ++ t :: more) = .error ⟨cause, t.span⟩)
      (finishes : Finishes Q r front)
  | runsOut {wanted : Expectation} (fails : r tokens = .error ⟨.endOfFile wanted, eof⟩)
      (finishes : Finishes Q r tokens)

namespace Ends

/-- What is read satisfies the postcondition. -/
theorem post_of_ok (h : Ends eof P Q S r tokens) {value : α} {rest : List Token}
    (done : r tokens = .ok (value, rest)) : S value rest := by
  cases h with
  | reads front rest' value' split again idle post =>
      have read := again rest' (.inr rfl)
      rw [← split, done] at read
      cases read
      exact post
  | stops front t behind split present fails finishes =>
      have failed := fails behind
      rw [← split, done] at failed
      cases failed
  | runsOut fails finishes =>
      rw [done] at fails
      cases fails

theorem refuses {cause : ParseCause} (fails : ∀ more, r (t :: more) = .error ⟨cause, t.span⟩)
    (present : ∀ wanted, cause ≠ .endOfFile wanted) (finishes : Finishes Q r []) :
    Ends eof P Q S r (t :: rest) :=
  .stops [] t rest rfl present fails finishes

theorem mismatch (wanted : Expectation)
    (fails : ∀ more, r (t :: more) = .error (Parser.mismatch eof wanted (t :: more)))
    (finishes : Finishes Q r []) : Ends eof P Q S r (t :: rest) :=
  .refuses fails (fun _ => ParseCause.noConfusion) finishes

theorem consequence (h : Ends eof P Q S r tokens) (sub : ∀ rest, R rest → Q rest)
    (post : ∀ value rest, S value rest → S' value rest) : Ends eof P R S' r tokens := by
  cases h with
  | reads front rest value split again idle holds =>
      refine .reads front rest value split (fun other follows => again other ?_)
        (fun none other follows => idle none other (sub other follows)) (post value rest holds)
      exact follows.imp (sub other) id
  | stops front t behind split present fails goesOn =>
      exact .stops front t behind split present fails (goesOn.mono sub)
  | runsOut fails goesOn => exact .runsOut fails (goesOn.mono sub)

theorem mono (h : Ends eof P Q S r tokens) (sub : ∀ rest, R rest → Q rest) :
    Ends eof P R S r tokens :=
  h.consequence sub fun _ _ => id

theorem mono_post (h : Ends eof P Q S r tokens)
    (post : ∀ value rest, S value rest → S' value rest) : Ends eof P Q S' r tokens :=
  h.consequence (fun _ => id) post

/-- A reader that takes a token can have its turn anywhere. -/
theorem anywhere (h : Ends eof Nothing Q S r tokens) : Ends eof P Q S r tokens := by
  cases h with
  | reads front rest value split again idle post =>
      exact .reads front rest value split again
        (fun none other follows => (idle none other follows).elim) post
  | stops front t behind split present fails finishes =>
      exact .stops front t behind split present fails finishes
  | runsOut fails finishes => exact .runsOut fails finishes

/-- Reading goes on in the same way behind a token that is taken. -/
theorem cons {r' : Reader α} (same : ∀ more, r (t :: more) = r' more)
    (h : Ends eof Anything Q S r' rest) : Ends eof P Q S r (t :: rest) := by
  cases h with
  | reads front behind value split again idle post =>
      refine .reads (t :: front) behind value (congrArg (t :: ·) split)
        (fun other follows => ?_) (fun none => absurd none (List.cons_ne_nil t front)) post
      exact (same _).trans (again other follows)
  | stops front t' behind split present fails goesOn =>
      refine .stops (t :: front) t' behind (congrArg (t :: ·) split) present (fun more => ?_)
        (goesOn.of_eq fun _ => same _)
      exact (same _).trans (fails more)
  | runsOut fails goesOn =>
      exact .runsOut ((same rest).trans fails) (goesOn.of_eq fun _ => same _)

/-- Two readers that do the same behind a token, which the second one does not leave. The cases in
which it takes no more than this token are left to the caller. -/
theorem of_same {r' : Reader α}
    (same : ∀ more, Q more ∨ more.head? = rest.head? → r (t :: more) = r' (t :: more))
    (refused : ∀ cause, (∀ wanted, cause ≠ .endOfFile wanted) →
      (∀ more, r' (t :: more) = .error ⟨cause, t.span⟩) → Ends eof P Q S r (t :: rest))
    (alone : Finishes Q r' [t] → Finishes Q r [t]) (possible : ∃ other, Q other)
    (h : Ends eof Nothing Q S r' (t :: rest)) : Ends eof P Q S r (t :: rest) := by
  have later : ∀ front behind, rest = front ++ behind → Finishes Q r' (t :: front) →
      Finishes Q r (t :: front) := by
    intro front behind split goesOn
    cases front with
    | nil => exact alone goesOn
    | cons t' front => exact goesOn.of_eq fun _ => same _ (.inr (by rw [split]; rfl))
  cases h with
  | reads front behind value split again idle post =>
      cases front with
      | nil =>
          obtain ⟨other, follows⟩ := possible
          exact (idle rfl other follows).elim
      | cons t' front =>
          obtain ⟨rfl, rfl⟩ := List.cons.inj split
          refine .reads (t :: front) behind value rfl (fun other follows => ?_)
            (fun none => absurd none (List.cons_ne_nil t front)) post
          refine (same _ ?_).trans (again other follows)
          cases front with
          | nil => exact follows
          | cons t' front => exact .inr rfl
  | stops front t' behind split present fails goesOn =>
      cases front with
      | nil =>
          obtain ⟨rfl, rfl⟩ := List.cons.inj split
          exact refused _ present fails
      | cons t'' front =>
          obtain ⟨rfl, rfl⟩ := List.cons.inj split
          refine .stops (t :: front) t' behind rfl present (fun more => ?_)
            (later front _ rfl goesOn)
          refine (same _ ?_).trans (fails more)
          cases front <;> exact .inr rfl
  | runsOut fails goesOn =>
      refine .runsOut ((same rest (.inr rfl)).trans fails) ?_
      exact later rest [] (List.append_nil rest).symm goesOn

/-- Two readers that are the same from the first token on, which the second one does not leave. -/
theorem of_head {r' : Reader α} (same : ∀ more, r (t :: more) = r' (t :: more))
    (finishes : Finishes Q r []) (possible : ∃ other, Q other)
    (h : Ends eof Nothing Q S r' (t :: rest)) : Ends eof P Q S r (t :: rest) := by
  refine h.of_same (fun more _ => same more) (fun cause present fails => ?_)
    (fun goesOn => goesOn.of_eq same) possible
  exact .refuses (fun more => (same more).trans (fails more)) present finishes

/-- Two readers that are the same from the first two tokens on. The second one can begin with the
first token, and does not leave it. -/
theorem of_two {r' : Reader α}
    (same : ∀ more, Q more ∨ more.head? = rest.head? → r (t :: more) = r' (t :: more))
    (finishes : Finishes Q r [t]) (possible : ∃ other, Q other)
    (begins : ∃ more result, r' (t :: more) = .ok result)
    (h : Ends eof Nothing Q S r' (t :: rest)) : Ends eof P Q S r (t :: rest) := by
  refine h.of_same same (fun cause _ fails => ?_) (fun _ => finishes) possible
  obtain ⟨more, result, done⟩ := begins
  cases (fails more).symm.trans done

theorem bind (spelled : Spelled tokens) (first : Ends eof P Q S r tokens)
    (fits : ∀ value, Fits Q R (k value))
    (next : ∀ value rest, Spelled rest → S value rest → Ends eof Q R S'' (k value) rest) :
    Ends eof P R S'' (r >>= k) tokens := by
  cases first with
  | stops front t behind split present fails goesOn =>
      exact .stops front t behind split present (fun more => bind_of_error (fails more))
        (goesOn.bind fits)
  | runsOut fails goesOn => exact .runsOut (bind_of_error fails) (goesOn.bind fits)
  | reads front rest value split again idle post =>
      have onwards : ∀ other, Q other ∨ other.head? = rest.head? →
          (r >>= k) (front ++ other) = k value other :=
        fun other follows => bind_of_ok (again other follows)
      have spelled' : Spelled rest :=
        spelled.subset (split ▸ List.subset_append_right front rest)
      cases next value rest spelled' post with
      | reads front' rest' value' split' again' idle' post' =>
          refine .reads (front ++ front') rest' value' ?_ (fun other follows => ?_)
            (fun none other follows => ?_) post'
          · rw [List.append_assoc, ← split', split]
          · rw [List.append_assoc, onwards, again' other follows]
            cases front' with
            | nil =>
                rw [List.nil_append] at split'
                rw [split']
                exact follows.imp_left (idle' rfl other)
            | cons t front' =>
                rw [split']
                exact .inr rfl
          · obtain ⟨none, none'⟩ := List.append_eq_nil_iff.1 none
            exact idle none other (idle' none' other follows)
      | stops front' t behind split' present fails goesOn =>
          refine .stops (front ++ front') t behind ?_ present (fun more => ?_)
            (goesOn.after again (fits value) split')
          · rw [List.append_assoc, ← split', split]
          · rw [List.append_assoc, onwards, fails more]
            cases front' <;> exact .inr (by rw [split']; rfl)
      | runsOut fails goesOn =>
          rw [split]
          have fails' := (onwards rest (.inr rfl)).trans fails
          exact .runsOut fails' (goesOn.after again (fits value) (List.append_nil rest).symm)

theorem pure (sub : ∀ rest, Q rest → P rest) (value : α) (post : S value tokens) :
    Ends eof P Q S (Pure.pure value) tokens :=
  .reads [] tokens value rfl (fun _ _ => rfl) (fun _ => sub) post

end Ends

/-- The reader can have its turn, and how it ends is settled at all tokens that it may get. -/
structure Settles (eof : Span) (W P Q : List Token → Prop) (S : α → List Token → Prop)
    (r : Reader α) : Prop where
  fits : Fits P Q r
  ends : ∀ tokens, Spelled tokens → W tokens → Ends eof P Q S r tokens

variable {W : List Token → Prop}

theorem Ends.andThen (first : Ends eof P Q S r tokens) (spelled : Spelled tokens)
    (next : ∀ value, Settles eof (S value) Q R S'' (k value)) :
    Ends eof P R S'' (r >>= k) tokens :=
  first.bind spelled (fun value => (next value).fits) fun value => (next value).ends

namespace Settles

theorem bind (first : Settles eof W P Q S r)
    (next : ∀ value, Settles eof (S value) Q R S'' (k value)) :
    Settles eof W P R S'' (r >>= k) where
  fits := first.fits.bind fun value => (next value).fits
  ends tokens spelled within := (first.ends tokens spelled within).andThen spelled next

theorem here (h : Settles eof (· = tokens) P Q S r) (spelled : Spelled tokens) :
    Ends eof P Q S r tokens :=
  h.ends tokens spelled rfl

theorem pure (sub : ∀ rest, Q rest → P rest) {value : α}
    (post : ∀ rest, W rest → S value rest) : Settles eof W P Q S (Pure.pure value) where
  fits := .idle value sub fun _ _ => rfl
  ends rest _ within := .pure sub value (post rest within)

theorem behind {kind : TokenKind} {absent : α} {present : Reader α}
    (skips : ∀ rest, Q rest → P rest ∧ peekIs kind rest = false)
    (post : ∀ rest, W rest → S absent rest)
    (onwards : ∀ t rest, Spelled rest → W (t :: rest) → t.kind = kind →
      Ends eof Anything Q S present rest) :
    Settles eof W P Q S (Parser.behind kind absent present) := by
  have fits : Fits P Q (Parser.behind kind absent present) :=
    .idle absent (fun rest follows => (skips rest follows).1)
      fun rest follows => behind_absent (skips rest follows).2
  refine ⟨fits, fun tokens spelled within => ?_⟩
  by_cases next : peekIs kind tokens = true
  · cases tokens with
    | nil => cases next
    | cons t rest =>
        have here : t.kind = kind := peekIs_cons.1 next
        exact .cons (fun more => behind_present here) (onwards t rest spelled.tail within here)
  · refine .reads [] tokens absent rfl (fun other follows => behind_absent ?_)
      (fun _ other follows => (skips other follows).1) (post tokens within)
    rcases follows with follows | same
    · exact (skips other follows).2
    · exact (peekIs_congr same).trans (Bool.eq_false_iff.2 next)

theorem upTo {kind : TokenKind} {absent : α} {present present' : Reader α} {wanted : Expectation}
    (sub : ∀ rest, Before [kind] rest → P rest)
    (post : ∀ rest, W rest → S absent rest)
    (out : present [] = .error ⟨.endOfFile wanted, eof⟩)
    (same : ∀ t more, present (t :: more) = present' (t :: more))
    (onwards : ∀ t rest, Spelled (t :: rest) → W (t :: rest) →
      Ends eof Nothing (Before [kind]) S present' (t :: rest)) :
    Settles eof W P (Before [kind]) S (Parser.upTo kind absent present) := by
  have fits : Fits P (Before [kind]) (Parser.upTo kind absent present) :=
    .idle absent sub fun rest follows => upTo_absent follows.peekIs_self
  refine ⟨fits, fun tokens spelled within => ?_⟩
  by_cases next : peekIs kind tokens = true
  · refine .reads [] tokens absent rfl (fun other follows => upTo_absent ?_) (fun _ => sub)
      (post tokens within)
    rcases follows with follows | same
    · exact follows.peekIs_self
    · exact (peekIs_congr same).trans next
  · cases tokens with
    | nil => exact .runsOut (by rw [Parser.upTo, if_neg next, out]) fits.finishes
    | cons t rest =>
        refine .of_head (fun more => ?_) fits.finishes ⟨[(sample kind).token], ?_⟩
          (onwards t rest spelled within)
        · exact (if_neg next).trans (same t more)
        · exact ⟨_, rfl, List.mem_singleton_self kind⟩

end Settles

/-- The tokens of a derivation have been taken, and the value is its tree. -/
def Derived {δ : Type} (front : δ → List Token) (tree : δ → α) (W : List Token → Prop) (value : α)
    (rest : List Token) : Prop :=
  ∃ d, W (front d ++ rest) ∧ tree d = value

theorem Derived.imp {γ δ : Type} {front : γ → List Token} {front' : δ → List Token} {tree : γ → α}
    {tree' : δ → α} (rule : γ → δ) (fronts : ∀ d, front' (rule d) = front d)
    (trees : ∀ d, tree' (rule d) = tree d) (h : Derived front tree W value rest) :
    Derived front' tree' W value rest := by
  obtain ⟨d, within, rfl⟩ := h
  refine ⟨rule d, ?_, trees d⟩
  rwa [fronts]

theorem Derived.length_le {δ : Type} {front : δ → List Token} {tree : δ → α}
    (h : Derived front tree (· = tokens) value rest) : rest.length ≤ tokens.length := by
  obtain ⟨d, rfl, _⟩ := h
  exact (List.suffix_append (front d) rest).length_le

/-- What holds of a reader at given tokens holds of it at all that meet a precondition. -/
theorem Settles.of_ends {δ : Type} (front : δ → List Token) (tree : δ → α) (fits : Fits P Q r)
    (ends : ∀ tokens, Spelled tokens → W tokens →
      Ends eof P Q (Derived front tree (· = tokens)) r tokens) :
    Settles eof W P Q (Derived front tree W) r := by
  refine ⟨fits, fun tokens spelled within => (ends tokens spelled within).mono_post ?_⟩
  rintro value rest ⟨d, rfl, same⟩
  exact ⟨d, within, same⟩

end Parser

end Rill
