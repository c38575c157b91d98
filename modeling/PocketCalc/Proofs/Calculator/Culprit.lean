import PocketCalc.Proofs.Calculator.Completion
import PocketCalc.Proofs.Solver.Culprit

/-! What the faults of an evaluation blame. Those of an expression blame a key in it or its end,
those of a statement what stands behind its expression. -/

namespace PocketCalc

/-- The fault has a place in the line, from the start on, and arises from what stands there: an
operation that is not defined everywhere, a key at which a cell is read, or one that puts something
on a stack. -/
structure Fault.HasCulprit (keys : Line) (start : Nat) (fault : Fault) : Prop where
  inLine : ∃ offset, fault.offset? = some offset ∧ start ≤ offset ∧ offset ≤ keys.length
  outsideDomain : ∀ offset, fault = .outsideDomain offset →
    ∃ key, keys[offset]? = some key ∧ key.isPartial = true
  noSuchCell : ∀ offset, fault = .noSuchCell offset →
    ∃ key, keys[offset]? = some key ∧ key.readsCell = true
  stackFull : ∀ offset, fault = .stackFull offset →
    ∃ key, keys[offset]? = some key ∧ (key.pushesNumber = true ∨ key.pushesCommand = true)

variable {keys : Line} {start offset : Nat} {fault : Fault}

theorem hasCulprit_malformed {cause : Malformation} (hlow : start ≤ offset)
    (hhigh : offset ≤ keys.length) : (Fault.malformed cause offset).HasCulprit keys start :=
  ⟨⟨offset, rfl, hlow, hhigh⟩, nofun, nofun, nofun⟩

theorem hasCulprit_noSuchCell {key : Key} (hkey : StandsAt keys start key offset)
    (h : key.readsCell = true) : (Fault.noSuchCell offset).HasCulprit keys start := by
  refine ⟨⟨offset, rfl, hkey.start_le, hkey.le_length⟩, nofun, ?_, nofun⟩
  rintro _ ⟨⟩
  exact ⟨key, hkey.getElem?_eq, h⟩

theorem hasCulprit_stackFull {key : Key} (hkey : StandsAt keys start key offset)
    (h : key.pushesNumber = true ∨ key.pushesCommand = true) :
    (Fault.stackFull offset).HasCulprit keys start := by
  refine ⟨⟨offset, rfl, hkey.start_le, hkey.le_length⟩, nofun, nofun, ?_⟩
  rintro _ ⟨⟩
  exact ⟨key, hkey.getElem?_eq, h⟩

theorem Blames.hasCulprit {machine : Machine} (h : Blames keys start fault machine) :
    fault.HasCulprit keys start := by
  cases h with
  | malformed hlow hhigh => exact hasCulprit_malformed hlow hhigh
  | nothingToSolve hlow hhigh => exact ⟨⟨_, rfl, hlow, hhigh⟩, nofun, nofun, nofun⟩
  | @applied key offset _ _ hkey happlied =>
      cases happlied with
      | missingOperand => exact hasCulprit_malformed hkey.start_le hkey.le_length
      | noSuchCell h => exact hasCulprit_noSuchCell hkey h
      | outsideDomain h =>
          refine ⟨⟨offset, rfl, hkey.start_le, hkey.le_length⟩, ?_, nofun, nofun⟩
          rintro _ ⟨⟩
          exact ⟨key, hkey.getElem?_eq, h⟩
  | numbersFull hkey h => exact hasCulprit_stackFull hkey (.inl h)
  | commandsFull hkey h => exact hasCulprit_stackFull hkey (.inr h)

theorem Fault.HasCulprit.of_start (h : fault.HasCulprit keys start) : fault.HasCulprit keys 0 := by
  obtain ⟨offset, hoffset, _, hhigh⟩ := h.inLine
  exact ⟨⟨offset, hoffset, Nat.zero_le _, hhigh⟩, h.outsideDomain, h.noSuchCell, h.stackFull⟩

namespace Calculator

variable {calculator : Calculator} {statements : List Statement}
  {outcome : Except Fault Float × Calculator}

theorem Breaks.hasCulprit (h : Breaks keys calculator start fault) (hstart : start ≤ keys.length) :
    fault.HasCulprit keys 0 := by
  cases h with
  | unsolved hresult => exact (Setting.blames_of_result hstart hresult).hasCulprit.of_start
  | untargeted hresult hcursor hassign htarget =>
      obtain ⟨hlt, _⟩ := List.getElem?_eq_some_iff.mp hassign
      exact hasCulprit_malformed (Nat.zero_le _) hlt
  | unstored hresult hcursor hassign htarget hstore =>
      exact hasCulprit_noSuchCell ⟨Nat.zero_le _, htarget⟩ rfl

/-- The fault that ends an evaluation blames what stands in the line. -/
theorem Evaluates.hasCulprit (h : Evaluates keys calculator start statements outcome)
    (hstart : start ≤ keys.length) (hfault : outcome.1 = .error fault) :
    fault.HasCulprit keys 0 := by
  induction h with
  | breaks h =>
      cases hfault
      exact h.hasCulprit hstart
  | ends => cases hfault
  | strays _ hkey _ =>
      cases hfault
      obtain ⟨hlt, _⟩ := List.getElem?_eq_some_iff.mp hkey
      exact hasCulprit_malformed (Nat.zero_le _) hlt.le
  | continues _ hcolon _ ih =>
      obtain ⟨hlt, _⟩ := List.getElem?_eq_some_iff.mp hcolon
      exact ih hlt hfault

/-- A fault blames a place in the line from which it can arise. That of an expression lies in the
expression. A stack is full where a key of the line has to go on it, never where the result of an
operation or the value of a cell does: that goes in the place of what it has been made from. -/
theorem hasCulprit_of_fault :
    (∀ (setting : Setting) (keys : Line) (start : Nat), start ≤ keys.length →
      (setting.solve keys start).machine.numbers.length ≤ numberLimit ∧
      ∀ fault, (setting.solve keys start).result = .error fault →
        fault.HasCulprit keys start ∧
        ∀ offset, fault = .stackFull offset → ∃ key, keys[offset]? = some key ∧
          (key.pushesNumber = true ∧
              (setting.solve keys start).machine.numbers.length = numberLimit ∨
            key.pushesCommand = true ∧
              commandLimit ≤ (setting.solve keys start).machine.commands.length)) ∧
      (∀ (setting : Setting) (machine after : Machine) (offset : Nat),
        machine.numbers.length ≤ numberLimit →
          (∀ command, Machine.settle setting command machine ≠ .error (.stackFull offset) after) ∧
          (∀ f place,
            Machine.applyPostfixFn setting f place machine ≠ .error (.stackFull offset) after) ∧
          ∀ name place,
            Machine.fetch setting name place machine ≠ .error (.stackFull offset) after) ∧
      ∀ (calculator : Calculator) (text : String) (keys : Line) (fault : Fault),
        Line.ofText text = .ok keys → (calculator.evaluate text).result = .error fault →
          fault.HasCulprit keys 0 := by
  refine ⟨fun setting keys start hstart => ?_, fun setting machine after offset hnumbers => ?_,
    fun calculator text keys fault hread h => ?_⟩
  · refine ⟨setting.length_numbers_le hstart, fun fault h => ?_⟩
    have hblames := Setting.blames_of_result hstart h
    refine ⟨hblames.hasCulprit, ?_⟩
    rintro offset rfl
    exact hblames.of_stackFull
  · exact Machine.apply_ne_stackFull setting hnumbers offset after
  · obtain ⟨statements, hevaluates⟩ := exists_evaluates_of_ofText hread calculator
    exact hevaluates.hasCulprit (Nat.zero_le _) h

/-- The tenth variable in a row is one too many, and `1/0` blames its stroke. -/
theorem hasCulprit_of_fault_tenth_variable :
    (Setting.solve ⟨fun _ _ => some 2.0, .degrees⟩ (List.replicate 10 (.letter 'A')) 0).result =
        .error (.stackFull 9) ∧
      (∃ key, (List.replicate 10 (Key.letter 'A'))[9]? = some key ∧
        (key.pushesNumber = true ∨ key.pushesCommand = true)) ∧
      Line.ofText "1/0" = .ok [.digit 1, .operator .divide, .digit 0] ∧
      (evaluate {} "1/0").result = .error (.outsideDomain 1) ∧
      ∃ key, [Key.digit 1, .operator .divide, .digit 0][1]? = some key ∧ key.isPartial = true := by
  have hfull : (Setting.solve ⟨fun _ _ => some 2.0, .degrees⟩
      (List.replicate 10 (.letter 'A')) 0).result = .error (.stackFull 9) := by decide +kernel
  have hread : Line.ofText "1/0" = .ok [.digit 1, .operator .divide, .digit 0] := by
    decide +kernel
  have hfault : (evaluate {} "1/0").result = .error (.outsideDomain 1) := by decide +kernel
  obtain ⟨hsolve, _, hevaluate⟩ := hasCulprit_of_fault
  obtain ⟨_, hculprit⟩ := hsolve ⟨fun _ _ => some 2.0, .degrees⟩ (List.replicate 10 (.letter 'A')) 0
    (Nat.zero_le _)
  exact ⟨hfull, (hculprit _ hfull).1.stackFull 9 rfl, hread, hfault,
    (hevaluate {} "1/0" _ _ hread hfault).outsideDomain 1 rfl⟩

end Calculator
end PocketCalc
