import PocketCalc.Expression.Basic
import PocketCalc.Proofs.Expression.Tokens
import PocketCalc.Proofs.Literal.Shape

/-! The grammar of expressions as rules for reading a row of keys from left to right. Each rule
takes as much as it can: an operand goes on through every operator above its level, and an atom
through every function after it. A tree is derivable for a row exactly if it spells the row and each
of its operators binds as its place demands. -/

namespace PocketCalc

/-- The row does not go on with an operator above the level. -/
def NoOperatorAbove (level : Nat) (rest : List Key) : Prop :=
  ∀ op keys, rest = .operator op :: keys → op.precedence ≤ level

theorem NoOperatorAbove.mono {low high : Nat} {rest : List Key} (h : NoOperatorAbove low rest)
    (hle : low ≤ high) : NoOperatorAbove high rest :=
  fun op keys hrest => Nat.le_trans (h op keys hrest) hle

mutual

/-- An operand and all operators above the level, each with its own operand, grouped from the left.
The row is read up to the given rest. -/
inductive ReadsExpression : (level : Nat) → List Key → Expression → List Key → Prop where
  | operand {level keys first next e rest} : ReadsOperand keys first next →
      ReadsOperators level first next e rest → ReadsExpression level keys e rest

/-- What follows the expression read so far. The operand of an operator takes everything that binds
more tightly than the operator. -/
inductive ReadsOperators :
    (level : Nat) → Expression → List Key → Expression → List Key → Prop where
  | done {level e rest} : NoOperatorAbove level rest → ReadsOperators level e rest e rest
  | join {level left op keys right next e rest} : level < op.precedence →
      ReadsExpression op.precedence keys right next →
      ReadsOperators level (.binary left op right) next e rest →
      ReadsOperators level left (.operator op :: keys) e rest

/-- A function with the expression at its precedence, or an atom with the functions after it. -/
inductive ReadsOperand : List Key → Expression → List Key → Prop where
  | function {f keys operand rest} : ReadsExpression f.precedence keys operand rest →
      ReadsOperand (.prefixFn f :: keys) (.prefixed f operand) rest
  | atom {keys atom next e rest} : ReadsAtom keys atom next → ReadsFunctions atom next e rest →
      ReadsOperand keys e rest

inductive ReadsFunctions : Expression → List Key → Expression → List Key → Prop where
  | done {e rest} : (∀ f keys, rest ≠ .postfixFn f :: keys) → ReadsFunctions e rest e rest
  | apply {operand f keys e rest} : ReadsFunctions (.postfixed operand f) keys e rest →
      ReadsFunctions operand (.postfixFn f :: keys) e rest

inductive ReadsAtom : List Key → Expression → List Key → Prop where
  | number {digits rest} : IsLiteral digits → ReadsAtom (digits ++ rest) (.number digits) rest
  | cell {name rest} : rest.head? ≠ some .openBracket →
      ReadsAtom (.letter name :: rest) (.cell name) rest
  | indexed {name keys index rest} : ReadsExpression 0 keys index (.closeBracket :: rest) →
      ReadsAtom (.letter name :: .openBracket :: keys) (.indexed name index) rest
  | paren {keys inner rest} : ReadsExpression 0 keys inner (.closeParen :: rest) →
      ReadsAtom (.openParen :: keys) (.paren inner) rest

end

namespace Expression

/-- No operator that comes next belongs into the right end of the expression. -/
abbrev Yields (e : Expression) (rest : List Key) : Prop := NoOperatorAbove e.rightPrecedence rest

theorem yields_of_takesPostfixFn {e : Expression} (h : e.takesPostfixFn = true)
    (rest : List Key) : e.Yields rest := by
  intro op keys _
  have hp := op.precedence_lt_postfixFn .factorial
  have he := rightPrecedence_of_takesPostfixFn h
  omega

theorem isReading_number {digits : List Key} (h : IsLiteral digits) (level : Nat) :
    (number digits).IsReading level := by
  obtain ⟨literal, hl, hw⟩ := (Literal.read_eq_ok_iff digits).mpr h
  simp [IsReading, hl, hw, Except.toOption]

end Expression

/-! ## Derivable trees -/

open Expression

mutual

theorem ReadsExpression.isReading {level : Nat} {keys rest : List Key} {e : Expression} :
    ReadsExpression level keys e rest →
      keys = e.keys ++ rest ∧ e.IsReading level ∧ e.Yields rest ∧ NoOperatorAbove level rest
  | .operand ho hs => by
      obtain ⟨hkeys, hr, hy⟩ := ho.isReading
      obtain ⟨hkeys', he⟩ := hs.isReading (hr level) hy
      exact ⟨hkeys.trans hkeys', he⟩

theorem ReadsOperators.isReading {level : Nat} {next rest : List Key} {left e : Expression} :
    ReadsOperators level left next e rest → left.IsReading level → left.Yields next →
      left.keys ++ next = e.keys ++ rest ∧
        e.IsReading level ∧ e.Yields rest ∧ NoOperatorAbove level rest
  | .done hn, hr, hy => ⟨rfl, hr, hy, hn⟩
  | .join hlevel hright hs, hr, hy => by
      obtain ⟨hkeys, hrr, hyr, hn⟩ := hright.isReading
      have hb : (Expression.binary left _ _).IsReading level := ⟨hlevel, hy _ _ rfl, hr, hrr⟩
      have hyb : (Expression.binary left _ _).Yields _ := fun next keys hnext =>
        Nat.le_min.mpr ⟨hn next keys hnext, hyr next keys hnext⟩
      obtain ⟨hkeys', he⟩ := hs.isReading hb hyb
      refine ⟨?_, he⟩
      rw [← hkeys', hkeys]
      simp [Expression.keys]

theorem ReadsOperand.isReading {keys rest : List Key} {e : Expression} :
    ReadsOperand keys e rest →
      keys = e.keys ++ rest ∧ (∀ level, e.IsReading level) ∧ e.Yields rest
  | .function ho => by
      obtain ⟨hkeys, hr, hy, hn⟩ := ho.isReading
      refine ⟨by simp [Expression.keys, hkeys], fun _ => hr, fun next keys hnext => ?_⟩
      exact Nat.le_min.mpr ⟨hn next keys hnext, hy next keys hnext⟩
  | .atom ha hf => by
      obtain ⟨hkeys, ht, hr⟩ := ha.isReading
      obtain ⟨hkeys', ht', hr'⟩ := hf.isReading ht hr
      exact ⟨hkeys.trans hkeys', hr', yields_of_takesPostfixFn ht' rest⟩

theorem ReadsFunctions.isReading {next rest : List Key} {operand e : Expression} :
    ReadsFunctions operand next e rest → operand.takesPostfixFn = true →
      (∀ level, operand.IsReading level) →
      operand.keys ++ next = e.keys ++ rest ∧ e.takesPostfixFn = true ∧ ∀ level, e.IsReading level
  | .done _, ht, hr => ⟨rfl, ht, hr⟩
  | .apply hs, ht, hr => by
      obtain ⟨hkeys, he⟩ := hs.isReading rfl fun level => ⟨ht, hr level⟩
      refine ⟨?_, he⟩
      rw [← hkeys]
      simp [Expression.keys]

theorem ReadsAtom.isReading {keys rest : List Key} {e : Expression} :
    ReadsAtom keys e rest →
      keys = e.keys ++ rest ∧ e.takesPostfixFn = true ∧ ∀ level, e.IsReading level
  | .number hl => ⟨rfl, rfl, isReading_number hl⟩
  | .cell _ => ⟨rfl, rfl, fun _ => trivial⟩
  | .indexed hi => by
      obtain ⟨hkeys, hr, _⟩ := hi.isReading
      exact ⟨by simp [Expression.keys, hkeys], rfl, fun _ => hr⟩
  | .paren hi => by
      obtain ⟨hkeys, hr, _⟩ := hi.isReading
      exact ⟨by simp [Expression.keys, hkeys], rfl, fun _ => hr⟩

end

/-! ## Trees that bind as their places demand -/

/-- No key that comes next is still a part of the expression. -/
structure Expression.EndsBefore (e : Expression) (rest : List Key) : Prop where
  operators : e.Yields rest
  functions : ∀ f keys, rest ≠ .postfixFn f :: keys
  brackets : rest.head? ≠ some .openBracket

theorem Expression.endsBefore_nil (e : Expression) : e.EndsBefore [] := by
  refine ⟨fun op keys h => ?_, fun f keys h => ?_, by simp⟩ <;> cases h

/-- A key that is neither an operator nor a function and opens nothing ends every expression. -/
theorem Expression.endsBefore_closer (e : Expression) {key : Key}
    (ho : key.isOperator = false) (hf : key.isPostfixFn = false) (hb : key ≠ .openBracket)
    (rest : List Key) : e.EndsBefore (key :: rest) := by
  refine ⟨fun op keys h => ?_, fun f keys h => ?_, by simpa using hb⟩
  · cases h; cases ho
  · cases h; cases hf

/-- What reading does with an operand once it has come to its end. -/
def Expression.ResumesOperand (e : Expression) : Prop :=
  ∀ level rest whole remaining, e.IsReading level → e.takesPostfixFn = true →
    rest.head? ≠ some .openBracket → ReadsFunctions e rest whole remaining →
    ReadsOperand (e.keys ++ rest) whole remaining

/-- What reading does with an expression once it has come to its end. -/
def Expression.Resumes (e : Expression) : Prop :=
  ∀ level rest whole remaining, e.IsReading level → e.EndsBefore rest →
    ReadsOperators level e rest whole remaining →
    ReadsExpression level (e.keys ++ rest) whole remaining

theorem Expression.ResumesOperand.resumes {e : Expression} (h : e.ResumesOperand)
    (ht : e.takesPostfixFn = true) : e.Resumes := fun level rest _ _ hr he hs =>
  .operand (h level rest e rest hr ht he.brackets (.done he.functions)) hs

theorem Expression.Resumes.reads {e : Expression} (h : e.Resumes) {level : Nat} {rest : List Key}
    (hr : e.IsReading level) (he : e.EndsBefore rest) (hn : NoOperatorAbove level rest) :
    ReadsExpression level (e.keys ++ rest) e rest := h level rest e rest hr he (.done hn)

theorem resumes_of_isReading (e : Expression) : e.ResumesOperand ∧ e.Resumes := by
  induction e with
  | number digits =>
      have h : (number digits).ResumesOperand := fun _ _ _ _ hr _ _ hf =>
        .atom (.number ((Literal.read_eq_ok_iff digits).mp (exists_literal_of_isReading hr))) hf
      exact ⟨h, h.resumes rfl⟩
  | cell name =>
      have h : (cell name).ResumesOperand := fun _ _ _ _ _ _ hb hf => .atom (.cell hb) hf
      exact ⟨h, h.resumes rfl⟩
  | indexed name index ih =>
      have h : (indexed name index).ResumesOperand := by
        intro level rest whole remaining hr _ _ hf
        have hends : index.EndsBefore (.closeBracket :: rest) :=
          index.endsBefore_closer rfl rfl (by decide) rest
        have hi := ih.2.reads hr hends (by rintro op keys ⟨⟩)
        simp only [Expression.keys, List.cons_append, List.append_assoc, List.nil_append]
        exact .atom (.indexed hi) hf
      exact ⟨h, h.resumes rfl⟩
  | paren inner ih =>
      have h : (paren inner).ResumesOperand := by
        intro level rest whole remaining hr _ _ hf
        have hends : inner.EndsBefore (.closeParen :: rest) :=
          inner.endsBefore_closer rfl rfl (by decide) rest
        have hi := ih.2.reads hr hends (by rintro op keys ⟨⟩)
        simp only [Expression.keys, List.cons_append, List.append_assoc, List.nil_append]
        exact .atom (.paren hi) hf
      exact ⟨h, h.resumes rfl⟩
  | prefixed f operand ih =>
      refine ⟨fun _ _ _ _ _ ht => Bool.noConfusion ht, ?_⟩
      intro level rest whole remaining hr he hs
      have hyields : NoOperatorAbove (min f.precedence operand.rightPrecedence) rest := he.operators
      have hoperand : operand.EndsBefore rest :=
        ⟨hyields.mono (Nat.min_le_right _ _), he.functions, he.brackets⟩
      have ho := ih.2.reads hr hoperand (hyields.mono (Nat.min_le_left _ _))
      exact .operand (.function ho) hs
  | postfixed operand f ih =>
      have h : (postfixed operand f).ResumesOperand := by
        intro level rest whole remaining hr _ _ hf
        simp only [Expression.keys, List.append_assoc, List.cons_append, List.nil_append]
        exact ih.1 level _ whole remaining hr.2 hr.1 (by simp) (.apply hf)
      exact ⟨h, h.resumes rfl⟩
  | binary left op right ihl ihr =>
      refine ⟨fun _ _ _ _ _ ht => Bool.noConfusion ht, ?_⟩
      intro level rest whole remaining hr he hs
      obtain ⟨hlevel, hop, hl, hright⟩ := hr
      have hyields : NoOperatorAbove (min op.precedence right.rightPrecedence) rest := he.operators
      have hendsRight : right.EndsBefore rest :=
        ⟨hyields.mono (Nat.min_le_right _ _), he.functions, he.brackets⟩
      have hreads := ihr.2.reads hright hendsRight (hyields.mono (Nat.min_le_left _ _))
      have hendsLeft : left.EndsBefore (.operator op :: (right.keys ++ rest)) :=
        ⟨by rintro next keys ⟨⟩; exact hop, by rintro f keys ⟨⟩, by simp⟩
      simp only [Expression.keys, List.append_assoc, List.cons_append]
      exact ihl.2 level _ whole remaining hl hendsLeft (.join hlevel hreads hs)

/-- The trees that a row can be read as are those that spell it and bind as their places demand. -/
theorem readsExpression_iff (level : Nat) (line : Line) (e : Expression) :
    ReadsExpression level line e [] ↔ e.keys = line ∧ e.IsReading level := by
  constructor
  · intro h
    obtain ⟨hkeys, hr, _⟩ := h.isReading
    exact ⟨by simpa using hkeys.symm, hr⟩
  · rintro ⟨rfl, hr⟩
    have h := (resumes_of_isReading e).2.reads hr e.endsBefore_nil (by rintro op keys ⟨⟩)
    simpa using h

end PocketCalc
