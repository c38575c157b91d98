import PocketCalc.Proofs.Calculator.Frame
import PocketCalc.Proofs.Line.Reading
import PocketCalc.Proofs.Memory.History

/-! Sessions. Whatever is done to a new calculator, the cells that have names stay as long as words
can count the cells, so that only a cell that is reached through an index can be missing. -/

namespace PocketCalc.Calculator

/-- What can be done to a calculator. -/
inductive Action where
  | evaluate (text : String)
  | setUnit (unit : AngleUnit)
  | change (change : Memory.Change)
  deriving DecidableEq, Repr

def perform (calculator : Calculator) : Action → Calculator
  | .evaluate text => (calculator.evaluate text).calculator
  | .setUnit unit => calculator.setUnit unit
  | .change change => { calculator with memory := calculator.memory.change change }

/-- The calculator at the end of a session with a new one. -/
def afterSession (actions : List Action) : Calculator := actions.foldl perform {}

def Action.change? : Action → Option Memory.Change
  | .change made => some made
  | .evaluate _ | .setUnit _ => none

/-- What a session does to the memory between its evaluations. The latest change comes first. -/
def changes (actions : List Action) : List Memory.Change :=
  (actions.filterMap Action.change?).reverse

/-- An evaluation neither adds nor removes cells. -/
theorem size_evaluate (calculator : Calculator) (text : String) :
    (calculator.evaluate text).calculator.memory.size = calculator.memory.size := by
  cases hread : Line.ofText text with
  | error fault => rw [evaluate, hread]
  | ok keys =>
      obtain ⟨statements, hevaluates⟩ := exists_evaluates_of_ofText hread calculator
      exact hevaluates.changes.2.1

theorem afterSession_append_singleton (actions : List Action) (action : Action) :
    afterSession (actions ++ [action]) = (afterSession actions).perform action := by
  rw [afterSession, List.foldl_append]
  rfl

theorem changes_append_singleton (actions : List Action) (action : Action) :
    changes (actions ++ [action]) = action.change?.toList ++ changes actions := by
  cases action <;> simp [changes, Action.change?]

/-- The cells are as many as the changes of the memory leave. -/
theorem size_afterSession {actions : List Action}
    (h : Memory.extent (changes actions) < wordLimit) :
    (afterSession actions).memory.size = Memory.extent (changes actions) := by
  induction actions using List.reverseRecOn with
  | nil => exact Memory.size_new
  | append_singleton actions action ih =>
      rw [changes_append_singleton] at h ⊢
      rw [afterSession_append_singleton]
      cases action with
      | evaluate text => exact (size_evaluate _ text).trans (ih h)
      | setUnit unit => exact ih h
      | change change => exact Memory.size_change ih change h

/-- The cells with names stay in a session as long as words can count the cells. -/
theorem hasNamedCells_afterSession {actions : List Action}
    (h : Memory.extent (changes actions) < wordLimit) :
    (afterSession actions).memory.HasNamedCells := by
  rw [Memory.HasNamedCells, size_afterSession h]
  exact Memory.namedCells_le_extent _

/-- Where the cells with names are there, a statement of keys with key caps breaks off for want of a
cell only at an index. -/
theorem Breaks.noSuchCell {keys : Line} {calculator : Calculator} {start offset : Nat}
    (h : Breaks keys calculator start (.noSuchCell offset))
    (hmemory : calculator.memory.HasNamedCells) (hcap : ∀ key ∈ keys, key.HasCap) :
    ClosesIndex keys start offset ∨ LeavesIndexOpen keys start offset := by
  cases h with
  | unsolved hresult =>
      obtain ⟨name, hkey, hnone⟩ | hindex := Setting.result_eq_noSuchCell hresult
      · have hcell := hmemory.isSome_cell? (hcap _ (List.mem_of_getElem? hkey))
        have hmissing : calculator.memory.cell? name 0 = none := hnone
        rw [hmissing] at hcell
        cases hcell
      · exact hindex
  | @unstored value _ _ _ _ _ htarget hstore =>
      have hcell := hmemory.isSome_store? (hcap _ (List.mem_of_getElem? htarget)) value
      rw [hstore] at hcell
      cases hcell

/-- At the end of any session the named cells can be read and stored in, as long as words can count
the cells. An evaluation that finds no cell blames the bracket that closes an index, or a variable
whose index is left open, in one of the statements of the line. -/
theorem afterSession_noSuchCell {actions : List Action}
    (hcount : Memory.extent (changes actions) < wordLimit) :
    (∀ name, 'A' ≤ name ∧ name ≤ 'Z' → ((afterSession actions).memory.cell? name 0).isSome ∧
      ∀ value, ((afterSession actions).memory.store? name 0 value).isSome) ∧
    ∀ text keys offset, Line.ofText text = .ok keys →
      ((afterSession actions).evaluate text).result = .error (.noSuchCell offset) →
      ∃ start, keys.StartsStatement start ∧
        ((keys[offset]? = some .closeBracket ∧ ClosesIndex keys start offset) ∨
          ∃ name, keys[offset]? = some (.letter name) ∧ keys[offset + 1]? = some .openBracket ∧
            LeavesIndexOpen keys start offset) := by
  have hmemory : (afterSession actions).memory.HasNamedCells := hasNamedCells_afterSession hcount
  refine ⟨fun name hname => ⟨hmemory.isSome_cell? hname, hmemory.isSome_store? hname⟩, ?_⟩
  intro text keys offset hread hresult
  obtain ⟨statements, hevaluates⟩ := exists_evaluates_of_ofText hread (afterSession actions)
  obtain ⟨start, hstart, hbreaks⟩ | ⟨_, _, hstray⟩ :=
    hevaluates.breaks_or_strays (.inl rfl) hresult
  · have hafter : (((afterSession actions).evaluate text).calculator).memory.HasNamedCells := by
      rw [Memory.HasNamedCells, size_evaluate]
      exact hmemory
    obtain hcloses | hopen := hbreaks.noSuchCell hafter (Line.hasCap_of_read hread)
    · exact ⟨start, hstart, .inl ⟨hcloses.key_eq, hcloses⟩⟩
    · obtain ⟨name, hletter, hbracket⟩ := hopen.keys_eq
      exact ⟨start, hstart, .inr ⟨name, hletter, hbracket, hopen⟩⟩
  · cases hstray

/-- Behind `Z` there is one cell more, but not three: `1:Z[1]+Z[3` is blamed at its last letter. -/
theorem afterSession_noSuchCell_of_open :
    let actions : List Action := [.change (.extend 1), .evaluate "2->Z"]
    let keys : Line := [.digit 1, .separator .colon, .letter 'Z', .openBracket, .digit 1,
      .closeBracket, .operator .add, .letter 'Z', .openBracket, .digit 3]
    Memory.extent (changes actions) < wordLimit ∧
      ((afterSession actions).evaluate "1:Z[1]+Z[3").result = .error (.noSuchCell 7) ∧
      ∃ start, keys.StartsStatement start ∧ LeavesIndexOpen keys start 7 := by
  intro actions keys
  have hcount : Memory.extent (changes actions) < wordLimit := by decide
  have hread : Line.ofText "1:Z[1]+Z[3" = .ok keys := by decide +kernel
  have hresult : ((afterSession actions).evaluate "1:Z[1]+Z[3").result =
      .error (.noSuchCell 7) := by decide +kernel
  obtain ⟨_, hblame⟩ := afterSession_noSuchCell hcount
  obtain ⟨start, hstart, ⟨hbracket, _⟩ | ⟨_, _, _, hopen⟩⟩ := hblame _ _ 7 hread hresult
  · cases hbracket
  · exact ⟨hcount, hresult, start, hstart, hopen⟩

/-- Extended past what words can count, a new memory is left with 25 cells. Then `Z` is gone, and an
evaluation that reads it blames the plain variable. -/
theorem not_forall_noSuchCell_isIndexed :
    ¬ ∀ (actions : List Action) (text : String) (keys : Line) (offset : Nat),
      Line.ofText text = .ok keys →
      ((afterSession actions).evaluate text).result = .error (.noSuchCell offset) →
      keys[offset]? = some .closeBracket ∨
        ∃ name, keys[offset]? = some (.letter name) ∧ keys[offset + 1]? = some .openBracket := by
  intro h
  have hread : Line.ofText "Z" = .ok [.letter 'Z'] := by decide +kernel
  have hresult : ((afterSession [.change (.extend (wordLimit - 1))]).evaluate "Z").result =
      .error (.noSuchCell 0) := by decide +kernel
  obtain hbracket | ⟨_, _, hbracket⟩ := h _ _ _ _ hread hresult
  · cases hbracket
  · cases hbracket

end PocketCalc.Calculator
