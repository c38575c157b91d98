import PocketCalc.Proofs.Calculator.Session
import PocketCalc.Proofs.Solver.Unit

/-! Sessions in different angle units. Where no text holds a function of the unit, a session can be
told from another one only by the evaluations and the changes of the memory in it, and not by the
units in which they are made. -/

namespace PocketCalc

/-- No key of the text is a function of the angle unit. This is asked of no text that cannot be
read. -/
def Text.UnitFree (text : String) : Prop :=
  ∀ keys, Line.ofText text = .ok keys → ∀ key ∈ keys, key.usesUnit = false

namespace Calculator

variable {keys : Line} {calculator next other : Calculator} {start : Nat} {fault : Fault}
  {statement : Statement} {statements : List Statement}
  {outcome : Except Fault Float × Calculator}

/-! ## One evaluation -/

theorem solve_setUnit (hkeys : ∀ key ∈ keys, key.usesUnit = false) (calculator : Calculator)
    (unit : AngleUnit) (start : Nat) :
    (calculator.setUnit unit).setting.solve keys start = calculator.setting.solve keys start :=
  Setting.solve_unit hkeys calculator.memory.cell? start unit calculator.unit

/-- A statement that is completed in one unit is completed in all of them. -/
theorem Completes.setUnit (h : Completes keys calculator statement next)
    (hkeys : ∀ key ∈ keys, key.usesUnit = false) (unit : AngleUnit) :
    Completes keys (calculator.setUnit unit) statement (next.setUnit unit) := by
  cases h with
  | plain hresult hcursor hplain =>
      rw [← solve_setUnit hkeys calculator unit] at hresult hcursor
      exact .plain hresult hcursor hplain
  | assigning hresult hcursor hassign htarget hstore =>
      rw [← solve_setUnit hkeys calculator unit] at hresult hcursor
      exact .assigning hresult hcursor hassign htarget hstore

theorem Breaks.setUnit (h : Breaks keys calculator start fault)
    (hkeys : ∀ key ∈ keys, key.usesUnit = false) (unit : AngleUnit) :
    Breaks keys (calculator.setUnit unit) start fault := by
  cases h with
  | unsolved hresult =>
      rw [← solve_setUnit hkeys calculator unit] at hresult
      exact .unsolved hresult
  | untargeted hresult hcursor hassign htarget =>
      rw [← solve_setUnit hkeys calculator unit] at hresult hcursor
      exact .untargeted hresult hcursor hassign htarget
  | unstored hresult hcursor hassign htarget hstore =>
      rw [← solve_setUnit hkeys calculator unit] at hresult hcursor
      exact .unstored hresult hcursor hassign htarget hstore

/-- The same statements are completed in all units, and what they write is read in later ones. -/
theorem Evaluates.setUnit (h : Evaluates keys calculator start statements outcome)
    (hkeys : ∀ key ∈ keys, key.usesUnit = false) (unit : AngleUnit) :
    Evaluates keys (calculator.setUnit unit) start statements
      (outcome.1, outcome.2.setUnit unit) := by
  induction h with
  | breaks h => exact .breaks (h.setUnit hkeys unit)
  | ends h hnone => exact .ends (h.setUnit hkeys unit) hnone
  | strays h hkey hcolon => exact .strays (h.setUnit hkeys unit) hkey hcolon
  | continues h hcolon _ ih => exact .continues (h.setUnit hkeys unit) hcolon ih

theorem outcome_evaluate_setUnit {text : String} (h : Text.UnitFree text) (calculator : Calculator)
    (unit : AngleUnit) :
    ((calculator.setUnit unit).evaluate text).outcome =
      ((calculator.evaluate text).result, (calculator.evaluate text).calculator.setUnit unit) := by
  cases hread : Line.ofText text with
  | error fault =>
      rw [evaluate, evaluate, hread]
      rfl
  | ok keys =>
      obtain ⟨statements, hevaluates⟩ := exists_evaluates_of_ofText hread calculator
      have hunit := (hevaluates.setUnit (h keys hread) unit).outcome_eq
      rw [evaluate_of_ofText hread]
      exact hunit

/-- Calculators with the same memory give the same result and keep the same memory. -/
theorem evaluate_of_memory_eq {text : String} (h : Text.UnitFree text)
    (hmemory : other.memory = calculator.memory) :
    (other.evaluate text).result = (calculator.evaluate text).result ∧
      (other.evaluate text).calculator.memory = (calculator.evaluate text).calculator.memory := by
  have hother : other = calculator.setUnit other.unit := by
    rw [setUnit, ← hmemory]
  have houtcome := outcome_evaluate_setUnit h calculator other.unit
  rw [← hother] at houtcome
  obtain ⟨hresult, hcalculator⟩ := Prod.mk.inj houtcome
  exact ⟨hresult, by rw [hcalculator]; rfl⟩

/-! ## Sessions -/

/-- The action is a change of the angle unit. -/
def Action.setsUnit : Action → Bool
  | .setUnit _ => true
  | _ => false

/-- What a session shows: the result of each evaluation and the memory after it. -/
def transcript (calculator : Calculator) : List Action → List (Except Fault Float × Memory)
  | [] => []
  | .evaluate text :: rest =>
    let evaluation := calculator.evaluate text
    (evaluation.result, evaluation.calculator.memory) :: evaluation.calculator.transcript rest
  | action :: rest => (calculator.perform action).transcript rest

/-- A session shows the same without its changes of the angle unit. -/
theorem transcript_filter {actions : List Action}
    (htexts : ∀ text, .evaluate text ∈ actions → Text.UnitFree text)
    (hmemory : other.memory = calculator.memory) :
    let kept := actions.filter fun action => !action.setsUnit
    other.transcript kept = calculator.transcript actions ∧
      (kept.foldl perform other).memory = (actions.foldl perform calculator).memory := by
  induction actions generalizing calculator other with
  | nil => exact ⟨rfl, hmemory⟩
  | cons action rest ih =>
      have hrest : ∀ text, .evaluate text ∈ rest → Text.UnitFree text := fun text htext =>
        htexts text (List.mem_cons_of_mem _ htext)
      cases action with
      | evaluate text =>
          obtain ⟨hresult, hafter⟩ := evaluate_of_memory_eq (htexts text List.mem_cons_self) hmemory
          obtain ⟨htranscript, hend⟩ := ih hrest hafter
          exact ⟨List.cons_eq_cons.mpr ⟨Prod.ext hresult hafter, htranscript⟩, hend⟩
      | setUnit unit =>
          have hset : other.memory = (calculator.perform (.setUnit unit)).memory := hmemory
          exact ih hrest hset
      | change change =>
          have hchanged : (other.perform (.change change)).memory =
              (calculator.perform (.change change)).memory := by
            simp only [perform, hmemory]
          exact ih hrest hchanged

/-- The angle unit matters to the functions of it and to nothing else. A line without them is solved
in the same way in all units: to the same value or fault, up to the same place, with the same
numbers left. Two sessions on texts without them that differ by changes of the unit show the same
results and leave the same memory. -/
theorem transcript_of_unitFree :
    (∀ (line : Line), (∀ key ∈ line, key.usesUnit = false) →
      ∀ (cell? : Char → Int → Option Float) (start : Nat) (unit other : AngleUnit),
        Setting.solve ⟨cell?, unit⟩ line start = Setting.solve ⟨cell?, other⟩ line start) ∧
    ∀ (calculator other : Calculator) (actions others : List Action),
      other.memory = calculator.memory →
      (others.filter fun action => !action.setsUnit) =
        (actions.filter fun action => !action.setsUnit) →
      (∀ text, .evaluate text ∈ actions → Text.UnitFree text) →
        other.transcript others = calculator.transcript actions ∧
          (others.foldl perform other).memory = (actions.foldl perform calculator).memory := by
  refine ⟨fun line hline cell? start unit other =>
    Setting.solve_unit hline cell? start unit other, ?_⟩
  intro calculator other actions others hmemory hsame htexts
  have htexts' : ∀ text, .evaluate text ∈ others → Text.UnitFree text := by
    intro text htext
    have hkept : Action.evaluate text ∈ others.filter fun action => !action.setsUnit :=
      List.mem_filter.mpr ⟨htext, rfl⟩
    rw [hsame] at hkept
    exact htexts text (List.mem_of_mem_filter hkept)
  have hself : calculator.memory = calculator.memory := rfl
  obtain ⟨hactions, hmemoryActions⟩ := transcript_filter htexts hself
  obtain ⟨hothers, hmemoryOthers⟩ := transcript_filter htexts' hmemory.symm
  rw [hsame] at hothers hmemoryOthers
  exact ⟨hothers.symm.trans hactions, hmemoryOthers.symm.trans hmemoryActions⟩

/-- An inverse function gives degrees in all units and the mark behind `A` converts nothing, so that
`asin.5` comes to the same and `A'` reads it wherever the unit is changed. -/
theorem transcript_of_unitFree_inverse :
    (Setting.solve ⟨fun _ _ => none, .radians⟩ [.prefixFn .arcsin, .dot, .digit 5] 0 =
        Setting.solve ⟨fun _ _ => none, .degrees⟩ [.prefixFn .arcsin, .dot, .digit 5] 0) ∧
      Text.UnitFree "asin.5->A" ∧ Text.UnitFree "A'" ∧
      ({ unit := .radians } : Calculator).transcript
          [.evaluate "asin.5->A", .setUnit .gradians, .evaluate "A'"] =
        ({} : Calculator).transcript [.evaluate "asin.5->A", .evaluate "A'"] := by
  have hassign : Text.UnitFree "asin.5->A" := by
    intro keys hkeys
    have hread : Line.ofText "asin.5->A" = .ok [.prefixFn .arcsin, .dot, .digit 5,
        .separator .assign, .letter 'A'] := by decide +kernel
    rw [hread] at hkeys
    cases hkeys
    decide
  have hmark : Text.UnitFree "A'" := by
    intro keys hkeys
    have hread : Line.ofText "A'" = .ok [.letter 'A', .postfixFn .degreeMark] := by decide +kernel
    rw [hread] at hkeys
    cases hkeys
    decide
  obtain ⟨hsolve, hsessions⟩ := transcript_of_unitFree
  have hsame := hsessions {} { unit := .radians } [.evaluate "asin.5->A", .evaluate "A'"]
    [.evaluate "asin.5->A", .setUnit .gradians, .evaluate "A'"] rfl rfl
  refine ⟨hsolve _ (by decide) _ 0 _ _, hassign, hmark, (hsame fun text htext => ?_).1⟩
  simp only [List.mem_cons, Action.evaluate.injEq, List.not_mem_nil, or_false] at htext
  rcases htext with rfl | rfl
  · exact hassign
  · exact hmark

end Calculator
end PocketCalc
