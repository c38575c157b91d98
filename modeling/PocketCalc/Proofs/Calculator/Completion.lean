import PocketCalc.Proofs.Calculator.Sequence
import PocketCalc.Proofs.Solver.Solution

/-! Which statements of a line are completed. A statement is completed when its expression has a
value and that is stored in the variable it is to be assigned to, if there is one; what stands
behind it does not matter to it. The first statement that is not completed ends the evaluation. -/

namespace PocketCalc

/-- A completed statement: where it begins, where its expression ends, the value of that, and the
variable that the value is assigned to. -/
structure Statement where
  start : Nat
  stop : Nat
  value : Float
  target? : Option Char
  deriving DecidableEq, Repr

/-- The place behind a statement. -/
def Statement.next (statement : Statement) : Nat :=
  match statement.target? with
  | none => statement.stop
  | some _ => statement.stop + 2

/-- A statement may begin at the head of a line and behind a colon. -/
def Line.StartsStatement (keys : Line) (start : Nat) : Prop :=
  start = 0 ∨ ∃ place, start = place + 1 ∧ keys[place]? = some (.separator .colon)

namespace Calculator

/-- The statement stands in the line, and completing it takes a calculator to another. -/
inductive Completes (keys : Line) (calculator : Calculator) : Statement → Calculator → Prop where
  | plain {start stop : Nat} {value : Float}
    (hresult : (calculator.setting.solve keys start).result = .ok value)
    (hcursor : (calculator.setting.solve keys start).cursor = stop)
    (hplain : keys[stop]? ≠ some (.separator .assign)) :
    Completes keys calculator ⟨start, stop, value, none⟩ calculator
  | assigning {start stop : Nat} {value : Float} {name : Char} {memory : Memory}
    (hresult : (calculator.setting.solve keys start).result = .ok value)
    (hcursor : (calculator.setting.solve keys start).cursor = stop)
    (hassign : keys[stop]? = some (.separator .assign))
    (htarget : keys[stop + 1]? = some (.letter name))
    (hstore : calculator.memory.store? name 0 value = some memory) :
    Completes keys calculator ⟨start, stop, value, some name⟩ { calculator with memory }

/-- The statement that begins at an offset cannot be completed: its expression has no value, no
variable stands behind its arrow, or that variable has no cell. -/
inductive Breaks (keys : Line) (calculator : Calculator) (start : Nat) : Fault → Prop where
  | unsolved {fault : Fault}
    (hresult : (calculator.setting.solve keys start).result = .error fault) :
    Breaks keys calculator start fault
  | untargeted {value : Float} {stop : Nat}
    (hresult : (calculator.setting.solve keys start).result = .ok value)
    (hcursor : (calculator.setting.solve keys start).cursor = stop)
    (hassign : keys[stop]? = some (.separator .assign))
    (htarget : ∀ name, keys[stop + 1]? ≠ some (.letter name)) :
    Breaks keys calculator start (.malformed .missingTarget (stop + 1))
  | unstored {value : Float} {stop : Nat} {name : Char}
    (hresult : (calculator.setting.solve keys start).result = .ok value)
    (hcursor : (calculator.setting.solve keys start).cursor = stop)
    (hassign : keys[stop]? = some (.separator .assign))
    (htarget : keys[stop + 1]? = some (.letter name))
    (hstore : calculator.memory.store? name 0 value = none) :
    Breaks keys calculator start (.noSuchCell (stop + 1))

/-- From an offset in the line these statements are completed one after the other, and then the
evaluation ends with this outcome. It goes on only behind a colon. -/
inductive Evaluates (keys : Line) :
    Calculator → Nat → List Statement → Except Fault Float × Calculator → Prop where
  | breaks {calculator : Calculator} {start : Nat} {fault : Fault}
    (h : Breaks keys calculator start fault) :
    Evaluates keys calculator start [] (.error fault, calculator)
  | ends {calculator next : Calculator} {statement : Statement}
    (h : Completes keys calculator statement next) (hnone : keys[statement.next]? = none) :
    Evaluates keys calculator statement.start [statement] (.ok statement.value, next)
  | strays {calculator next : Calculator} {statement : Statement} {key : Key}
    (h : Completes keys calculator statement next) (hkey : keys[statement.next]? = some key)
    (hcolon : key ≠ .separator .colon) :
    Evaluates keys calculator statement.start [statement]
      (.error (.malformed .strayKey statement.next), next)
  | continues {calculator next : Calculator} {statement : Statement} {more : List Statement}
    {outcome : Except Fault Float × Calculator} (h : Completes keys calculator statement next)
    (hcolon : keys[statement.next]? = some (.separator .colon))
    (hmore : Evaluates keys next (statement.next + 1) more outcome) :
    Evaluates keys calculator statement.start (statement :: more) outcome

variable {keys : Line} {calculator next : Calculator} {start stop : Nat} {value : Float}
  {statement : Statement} {statements : List Statement} {fault : Fault}
  {outcome : Except Fault Float × Calculator}

/-! ## One statement -/

theorem drop_of_getElem? {key : Key} (h : keys[stop]? = some key) :
    keys.drop stop = key :: keys.drop (stop + 1) := by
  obtain ⟨hlt, rfl⟩ := List.getElem?_eq_some_iff.mp h
  exact List.drop_eq_getElem_cons hlt

/-- A statement whose expression has a value is the one that goes on where the expression ends. -/
theorem firstStatement_of_result
    (hresult : (calculator.setting.solve keys start).result = .ok value)
    (hcursor : (calculator.setting.solve keys start).cursor = stop) :
    calculator.firstStatement start (keys.drop start) =
      calculator.afterValue value stop (keys.drop stop) := by
  obtain ⟨after, hrun⟩ := Setting.run_of_result_ok hresult
  rw [hcursor] at hrun
  obtain ⟨hlow, _⟩ := Machine.solve_inRow hrun
  rw [firstStatement, hrun]
  simp only [List.drop_drop, Nat.add_sub_cancel' hlow]

theorem Completes.firstStatement_eq (h : Completes keys calculator statement next) :
    calculator.firstStatement statement.start (keys.drop statement.start) =
      next.atEnd statement.value statement.next (keys.drop statement.next) := by
  cases h with
  | @plain start stop value hresult hcursor hplain =>
      rw [firstStatement_of_result hresult hcursor]
      simp only [Statement.next]
      cases hkey : keys[stop]? with
      | none =>
          rw [List.drop_eq_nil_of_le (List.getElem?_eq_none_iff.mp hkey)]
          rfl
      | some key =>
          rw [drop_of_getElem? hkey]
          exact afterValue_of_ne (fun hassign => hplain (hkey.trans (congrArg some hassign))) ..
  | assigning hresult hcursor hassign htarget hstore =>
      rw [firstStatement_of_result hresult hcursor, drop_of_getElem? hassign,
        drop_of_getElem? htarget, afterValue, hstore]
      rfl

theorem Breaks.firstStatement_eq (h : Breaks keys calculator start fault) :
    calculator.firstStatement start (keys.drop start) = .failed fault calculator := by
  cases h with
  | unsolved hresult =>
      obtain ⟨after, hrun⟩ := Setting.run_of_result_error hresult
      rw [firstStatement, hrun]
  | @untargeted value stop hresult hcursor hassign htarget =>
      rw [firstStatement_of_result hresult hcursor, drop_of_getElem? hassign]
      unfold afterValue
      split
      · next name rest hrow =>
          have hletter := congrArg List.head? (List.cons.inj hrow).2
          rw [List.head?_drop] at hletter
          exact absurd hletter (htarget name)
      · rfl
      · next hother => exact absurd rfl (hother _)
  | unstored hresult hcursor hassign htarget hstore =>
      rw [firstStatement_of_result hresult hcursor, drop_of_getElem? hassign,
        drop_of_getElem? htarget, afterValue, hstore]

/-- A statement can be completed or not. -/
theorem breaks_or_completes (keys : Line) (calculator : Calculator) (start : Nat) :
    (∃ fault, Breaks keys calculator start fault) ∨
      ∃ statement next, Completes keys calculator statement next ∧ statement.start = start := by
  cases hresult : (calculator.setting.solve keys start).result with
  | error fault => exact .inl ⟨fault, .unsolved hresult⟩
  | ok value =>
      by_cases hassign :
          keys[(calculator.setting.solve keys start).cursor]? = some (.separator .assign)
      · by_cases htarget :
            ∃ name, keys[(calculator.setting.solve keys start).cursor + 1]? = some (.letter name)
        · obtain ⟨name, hname⟩ := htarget
          cases hstore : calculator.memory.store? name 0 value with
          | none => exact .inl ⟨_, .unstored hresult rfl hassign hname hstore⟩
          | some memory =>
              exact .inr ⟨_, _, .assigning hresult rfl hassign hname hstore, rfl⟩
        · exact .inl ⟨_, .untargeted hresult rfl hassign (not_exists.mp htarget)⟩
      · exact .inr ⟨_, _, .plain hresult rfl hassign, rfl⟩

/-- A statement that can be completed does not break off. -/
theorem Completes.not_breaks (h : Completes keys calculator statement next)
    (hbreaks : Breaks keys calculator statement.start fault) : False := by
  cases h with
  | plain hresult hcursor hplain =>
      cases hbreaks with
      | unsolved hfault => cases hresult.symm.trans hfault
      | untargeted _ hcursor' hassign | unstored _ hcursor' hassign =>
          cases hcursor.symm.trans hcursor'
          exact hplain hassign
  | assigning hresult hcursor hassign htarget hstore =>
      cases hbreaks with
      | unsolved hfault => cases hresult.symm.trans hfault
      | untargeted _ hcursor' _ hnone =>
          cases hcursor.symm.trans hcursor'
          exact hnone _ htarget
      | unstored hresult' hcursor' _ htarget' hnone =>
          cases hcursor.symm.trans hcursor'
          cases hresult.symm.trans hresult'
          cases htarget.symm.trans htarget'
          cases hstore.symm.trans hnone

/-- There is one way to complete a statement. -/
theorem Completes.unique {other : Statement} {after : Calculator}
    (h : Completes keys calculator statement next) (hother : Completes keys calculator other after)
    (hstart : other.start = statement.start) : other = statement ∧ after = next := by
  cases h with
  | plain hresult hcursor hplain =>
      cases hother with
      | plain hresult' hcursor' _ =>
          cases hstart
          cases hcursor.symm.trans hcursor'
          cases hresult.symm.trans hresult'
          exact ⟨rfl, rfl⟩
      | assigning hresult' hcursor' hassign _ _ =>
          cases hstart
          cases hcursor.symm.trans hcursor'
          exact absurd hassign hplain
  | assigning hresult hcursor hassign htarget hstore =>
      cases hother with
      | plain hresult' hcursor' hplain =>
          cases hstart
          cases hcursor.symm.trans hcursor'
          exact absurd hassign hplain
      | assigning hresult' hcursor' hassign' htarget' hstore' =>
          cases hstart
          cases hcursor.symm.trans hcursor'
          cases hresult.symm.trans hresult'
          cases htarget.symm.trans htarget'
          cases hstore.symm.trans hstore'
          exact ⟨rfl, rfl⟩

/-! ## All statements -/

/-- Behind a completed statement the evaluation ends or goes on at the next one. -/
theorem Completes.evaluates_atEnd (h : Completes keys calculator statement next)
    (hmore : keys[statement.next]? = some (.separator .colon) →
      ∃ more, Evaluates keys next (statement.next + 1) more
        (next.evaluateFrom (statement.next + 1) (keys.drop (statement.next + 1))).outcome) :
    ∃ statements, Evaluates keys calculator statement.start statements
      (next.atEnd statement.value statement.next (keys.drop statement.next)).outcome := by
  cases hkey : keys[statement.next]? with
  | none =>
      rw [List.drop_eq_nil_of_le (List.getElem?_eq_none_iff.mp hkey)]
      exact ⟨[statement], .ends h hkey⟩
  | some key =>
      rw [drop_of_getElem? hkey]
      by_cases hcolon : key = .separator .colon
      · subst hcolon
        obtain ⟨more, hrest⟩ := hmore hkey
        exact ⟨statement :: more, .continues h hkey hrest⟩
      · rw [atEnd_of_ne hcolon]
        exact ⟨[statement], .strays h hkey hcolon⟩

/-- Every evaluation completes some statements one after the other. -/
theorem exists_evaluates (keys : Line) (calculator : Calculator) (start : Nat) :
    ∃ statements, Evaluates keys calculator start statements
      (calculator.evaluateFrom start (keys.drop start)).outcome := by
  generalize hkeys : keys.drop start = keys
  induction calculator, start, keys using statements_induction with
  | step calculator start keys ih =>
      subst hkeys
      rw [outcome_evaluateFrom]
      obtain ⟨fault, hbreaks⟩ | ⟨statement, next, hcompletes, rfl⟩ :=
        breaks_or_completes keys calculator start
      · rw [hbreaks.firstStatement_eq]
        exact ⟨[], .breaks hbreaks⟩
      · rw [hcompletes.firstStatement_eq]
        refine hcompletes.evaluates_atEnd fun hcolon => ih _ _ _ ?_ rfl
        rw [hcompletes.firstStatement_eq, drop_of_getElem? hcolon]
        rfl

theorem exists_evaluates_of_ofText {text : String} (h : Line.ofText text = .ok keys)
    (calculator : Calculator) :
    ∃ statements, Evaluates keys calculator 0 statements (calculator.evaluate text).outcome := by
  rw [evaluate_of_ofText h]
  exact exists_evaluates keys calculator 0

/-- The statements and the outcome of an evaluation are what it comes to. -/
theorem Evaluates.outcome_eq (h : Evaluates keys calculator start statements outcome) :
    (calculator.evaluateFrom start (keys.drop start)).outcome = outcome := by
  induction h with
  | breaks h => rw [outcome_evaluateFrom, h.firstStatement_eq]; rfl
  | ends h hnone =>
      rw [outcome_evaluateFrom, h.firstStatement_eq,
        List.drop_eq_nil_of_le (List.getElem?_eq_none_iff.mp hnone)]
      rfl
  | strays h hkey hcolon =>
      rw [outcome_evaluateFrom, h.firstStatement_eq, drop_of_getElem? hkey, atEnd_of_ne hcolon]
      rfl
  | continues h hcolon _ ih =>
      rw [outcome_evaluateFrom, h.firstStatement_eq, drop_of_getElem? hcolon]
      exact ih

/-- An evaluation that begins with a statement that can be completed completes it, and goes on if a
colon stands behind it. -/
theorem Evaluates.of_completes
    (h : Evaluates keys calculator statement.start statements outcome)
    (hcompletes : Completes keys calculator statement next) :
    ∃ more, statements = statement :: more ∧
      ((more = [] ∧ keys[statement.next]? ≠ some (.separator .colon)) ∨
        (keys[statement.next]? = some (.separator .colon) ∧
          Evaluates keys next (statement.next + 1) more outcome)) := by
  generalize hstart : statement.start = start at h
  cases h with
  | breaks h =>
      subst hstart
      exact (hcompletes.not_breaks h).elim
  | ends h hnone =>
      obtain ⟨rfl, rfl⟩ := hcompletes.unique h hstart.symm
      exact ⟨[], rfl, .inl ⟨rfl, by rw [hnone]; exact nofun⟩⟩
  | strays h hkey hcolon =>
      obtain ⟨rfl, rfl⟩ := hcompletes.unique h hstart.symm
      refine ⟨[], rfl, .inl ⟨rfl, ?_⟩⟩
      rw [hkey]
      exact fun hsome => hcolon (Option.some.inj hsome)
  | continues h hcolon hmore =>
      obtain ⟨rfl, rfl⟩ := hcompletes.unique h hstart.symm
      exact ⟨_, rfl, .inr ⟨hcolon, hmore⟩⟩

/-- The statements that an evaluation completes are determined by the line and the calculator. -/
theorem Evaluates.unique {others : List Statement} {other : Except Fault Float × Calculator}
    (h : Evaluates keys calculator start statements outcome)
    (hother : Evaluates keys calculator start others other) : others = statements := by
  induction h generalizing others with
  | breaks h =>
      cases hother with
      | breaks => rfl
      | ends hcompletes | strays hcompletes | continues hcompletes =>
          exact (hcompletes.not_breaks h).elim
  | ends h hnone =>
      obtain ⟨more, rfl, ⟨rfl, _⟩ | ⟨hcolon, _⟩⟩ := hother.of_completes h
      · rfl
      · cases hnone.symm.trans hcolon
  | strays h hkey hne =>
      obtain ⟨more, rfl, ⟨rfl, _⟩ | ⟨hcolon, _⟩⟩ := hother.of_completes h
      · rfl
      · exact absurd (Option.some.inj (hkey.symm.trans hcolon)) hne
  | continues h hcolon _ ih =>
      obtain ⟨more, rfl, ⟨_, hne⟩ | ⟨_, hmore⟩⟩ := hother.of_completes h
      · exact absurd hcolon hne
      · rw [ih hmore]

/-- A fault is that of a statement that breaks off, or comes of a key behind the last statement that
is completed. -/
theorem Evaluates.breaks_or_strays (h : Evaluates keys calculator start statements outcome)
    (hstart : keys.StartsStatement start) (hfault : outcome.1 = .error fault) :
    (∃ place, keys.StartsStatement place ∧ Breaks keys outcome.2 place fault) ∨
      ∃ statement ∈ statements.getLast?, fault = .malformed .strayKey statement.next := by
  induction h with
  | breaks h =>
      cases hfault
      exact .inl ⟨_, hstart, h⟩
  | ends => cases hfault
  | strays =>
      cases hfault
      exact .inr ⟨_, rfl, rfl⟩
  | continues _ hcolon _ ih =>
      obtain hbreaks | ⟨last, hlast, rfl⟩ := ih (.inr ⟨_, rfl, hcolon⟩) hfault
      · exact .inl hbreaks
      · refine .inr ⟨last, ?_, rfl⟩
        rw [List.getLast?_cons, Option.mem_def.mp hlast]
        rfl

end Calculator
end PocketCalc
