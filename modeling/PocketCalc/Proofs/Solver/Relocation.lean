import PocketCalc.Proofs.Solver.Equations

/-! Offsets name places and have no part in evaluation. When the tokens of an expression are moved
to other offsets, the same steps are taken, and whatever is told of a place in the one run is told
of the place where it has moved in the other. -/

namespace PocketCalc

/-- The same fault where its place has moved. -/
def Fault.relocate (place : Nat → Nat) : Fault → Fault
  | malformed cause offset => malformed cause (place offset)
  | outsideDomain offset => outsideDomain (place offset)
  | stackFull offset => stackFull (place offset)
  | noSuchCell offset => noSuchCell (place offset)
  | nothingToSolve offset => nothingToSolve (place offset)
  | unreadable reason => unreadable reason

def Command.relocate (place : Nat → Nat) (command : Command) : Command :=
  { command with offset := place command.offset }

def Token.relocate (place : Nat → Nat) (token : Token) : Token :=
  { token with offset := place token.offset }

def Ending.relocate (place : Nat → Nat) : Ending → Ending
  | stop offset => stop (place offset)
  | malformed offset => malformed (place offset)

namespace Machine

/-- The same numbers and the same commands, but for the offsets of the commands. -/
structure Relocated (place : Nat → Nat) (machine moved : Machine) : Prop where
  numbers : moved.numbers = machine.numbers
  commands : moved.commands = machine.commands.map (Command.relocate place)

variable {α β γ δ : Type} {place : Nat → Nat} {setting : Setting}

/-- Two runs come to the same end: to results that answer each other and machines that differ as
before, or to the same fault where its place has moved. -/
def SameEnd (place : Nat → Nat) (answer : α → β) :
    EStateM.Result Fault Machine α → EStateM.Result Fault Machine β → Prop
  | .ok a after, .ok b moved => b = answer a ∧ Relocated place after moved
  | .error fault _, .error other _ => other = fault.relocate place
  | _, _ => False

/-- From machines that differ by the offsets of their commands the runs come to the same end. -/
def Relocates (place : Nat → Nat) (answer : α → β) (x : Run α) (y : Run β) : Prop :=
  ∀ machine moved, Relocated place machine moved → SameEnd place answer (x machine) (y moved)

variable {answer : α → β} {next : γ → δ} {x : Run α} {y : Run β}

/-! ## Composition -/

theorem relocates_pure {a : α} {b : β} (h : b = answer a) :
    Relocates place answer (pure a) (pure b) := by
  intro machine moved hm
  exact ⟨h, hm⟩

theorem relocates_throw {fault other : Fault} (h : other = fault.relocate place) :
    Relocates place answer (throw fault) (throw other) := by
  intro machine moved hm
  exact h

theorem Relocates.bind {f : α → Run γ} {g : β → Run δ} (hx : Relocates place answer x y)
    (hf : ∀ a, Relocates place next (f a) (g (answer a))) :
    Relocates place next (x >>= f) (y >>= g) := by
  intro machine moved hm
  have h := hx machine moved hm
  cases hrun : x machine with
  | ok a after =>
      cases hmoved : y moved with
      | ok b movedAfter =>
          rw [hrun, hmoved] at h
          obtain ⟨rfl, hafter⟩ := h
          rw [bind_of_ok hrun, bind_of_ok hmoved]
          exact hf a after movedAfter hafter
      | error other movedAfter =>
          rw [hrun, hmoved] at h
          cases h
  | error fault after =>
      cases hmoved : y moved with
      | ok b movedAfter =>
          rw [hrun, hmoved] at h
          cases h
      | error other movedAfter =>
          rw [hrun, hmoved] at h
          rw [bind_of_error hrun, bind_of_error hmoved]
          exact h

/-- What a run does may depend on the machine where it starts. -/
theorem relocates_get {f : Machine → Run γ} {g : Machine → Run δ}
    (h : ∀ machine moved, Relocated place machine moved →
      Relocates place next (f machine) (g moved)) :
    Relocates place next (get >>= f) (get >>= g) := by
  intro machine moved hm
  exact h machine moved hm machine moved hm

/-! ## Single steps -/

theorem relocates_record (event other : Event) :
    Relocates place id (record event) (record other) := by
  intro machine moved hm
  exact ⟨rfl, hm.numbers, hm.commands⟩

theorem relocates_recordApplied (key : Key) (offset : Nat) :
    Relocates place id (recordApplied key offset) (recordApplied key (place offset)) :=
  relocates_get fun _ _ _ => relocates_record _ _

theorem relocates_pushNumber (value : Float) (offset : Nat) :
    Relocates place id (pushNumber value offset) (pushNumber value (place offset)) := by
  intro machine moved hm
  unfold pushNumber
  rw [hm.numbers]
  split
  · exact ⟨rfl, rfl, hm.commands⟩
  · exact rfl

theorem relocates_popNumber (offset : Nat) :
    Relocates place id (popNumber offset) (popNumber (place offset)) := by
  intro machine moved hm
  unfold popNumber
  rw [hm.numbers]
  cases machine.numbers with
  | nil => exact rfl
  | cons value below => exact ⟨rfl, rfl, hm.commands⟩

theorem relocates_pushCommand (kind : CommandKind) (offset : Nat) :
    Relocates place id (pushCommand kind offset) (pushCommand kind (place offset)) := by
  intro machine moved hm
  unfold pushCommand
  rw [hm.commands, List.length_map]
  split
  · exact ⟨rfl, hm.numbers, by simp [Command.relocate]⟩
  · exact rfl

theorem relocates_setCommands (commands : List Command) :
    Relocates place id (setCommands commands)
      (setCommands (commands.map (Command.relocate place))) := by
  intro machine moved hm
  exact ⟨rfl, hm.numbers, rfl⟩

/-! ## Operations -/

theorem relocates_pushResult (value? : Option Float) (offset : Nat) :
    Relocates place id (pushResult offset value?) (pushResult (place offset) value?) := by
  cases value? with
  | none => exact relocates_throw rfl
  | some value => exact relocates_pushNumber value offset

theorem relocates_applyOperator (op : Operator) (offset : Nat) :
    Relocates place id (applyOperator op offset) (applyOperator op (place offset)) :=
  (relocates_recordApplied _ offset).bind fun _ =>
    (relocates_popNumber offset).bind fun _ =>
      (relocates_popNumber offset).bind fun _ => relocates_pushResult _ offset

theorem relocates_applyFn (key : Key) (marker : Bool) (value? : Float → Option Float)
    (offset : Nat) :
    Relocates place id (applyFn key marker value? offset)
      (applyFn key marker value? (place offset)) := by
  refine (relocates_recordApplied key offset).bind fun _ => ?_
  split
  · exact relocates_pure rfl
  · exact (relocates_popNumber offset).bind fun _ => relocates_pushResult _ offset

theorem relocates_fetch (name : Char) (offset : Nat) :
    Relocates place id (fetch setting name offset) (fetch setting name (place offset)) := by
  refine (relocates_popNumber offset).bind fun index => ?_
  simp only [id]
  split
  · exact relocates_throw rfl
  · exact (relocates_record _ _).bind fun _ => relocates_pushNumber _ offset

theorem relocates_settle (command : Command) :
    Relocates place id (settle setting command) (settle setting (command.relocate place)) := by
  obtain ⟨kind, offset⟩ := command
  cases kind with
  | operator op => exact relocates_applyOperator op offset
  | prefixFn f => exact relocates_applyFn (.prefixFn f) f.isMarker (f.value? setting.unit) offset
  | paren => exact relocates_pure rfl
  | index name => exact relocates_fetch name offset

theorem relocates_unwind (stays : CommandKind → Bool) (commands : List Command) :
    Relocates place id (unwind setting stays commands)
      (unwind setting stays (commands.map (Command.relocate place))) := by
  induction commands with
  | nil => exact relocates_pure rfl
  | cons command below ih =>
      have hkind : (command.relocate place).kind = command.kind := rfl
      simp only [List.map_cons, unwind, hkind]
      split
      · exact relocates_pure rfl
      · exact (relocates_setCommands below).bind fun _ =>
          (relocates_settle command).bind fun _ => ih

theorem relocates_settleUntil (stays : CommandKind → Bool) :
    Relocates place id (settleUntil setting stays) (settleUntil setting stays) := by
  refine relocates_get fun machine moved hm => ?_
  rw [hm.commands]
  exact relocates_unwind stays machine.commands

/-! ## Tokens -/

theorem relocates_closeParen (offset : Nat) :
    Relocates place id (closeParen setting offset) (closeParen setting (place offset)) := by
  refine (relocates_settleUntil _).bind fun _ => relocates_get fun machine moved hm => ?_
  rw [hm.commands]
  cases machine.commands with
  | nil => exact relocates_throw rfl
  | cons command below =>
      obtain ⟨kind, opener⟩ := command
      cases kind with
      | paren => exact relocates_setCommands below
      | _ => exact relocates_throw rfl

theorem relocates_closeBracket (offset : Nat) :
    Relocates place id (closeBracket setting offset) (closeBracket setting (place offset)) := by
  refine (relocates_settleUntil _).bind fun _ => relocates_get fun machine moved hm => ?_
  rw [hm.commands]
  cases machine.commands with
  | nil => exact relocates_pure rfl
  | cons command below =>
      obtain ⟨kind, opener⟩ := command
      cases kind with
      | index name =>
          exact (relocates_setCommands below).bind fun _ =>
            (relocates_fetch name offset).bind fun _ => relocates_pure rfl
      | _ => exact relocates_pure rfl

theorem relocates_take (token : Token) :
    Relocates place id (take setting token) (take setting (token.relocate place)) := by
  obtain ⟨kind, offset⟩ := token
  cases kind with
  | number value =>
      exact (relocates_pushNumber value offset).bind fun _ => relocates_pure rfl
  | named name =>
      simp only [take, Token.relocate]
      cases setting.cell? name 0 with
      | none => exact relocates_throw rfl
      | some value => exact (relocates_pushNumber value offset).bind fun _ => relocates_pure rfl
  | indexed name =>
      exact (relocates_pushCommand (.index name) offset).bind fun _ => relocates_pure rfl
  | prefixFn f =>
      exact (relocates_pushCommand (.prefixFn f) offset).bind fun _ => relocates_pure rfl
  | openParen => exact (relocates_pushCommand .paren offset).bind fun _ => relocates_pure rfl
  | operator op =>
      exact (relocates_settleUntil _).bind fun _ =>
        (relocates_pushCommand (.operator op) offset).bind fun _ => relocates_pure rfl
  | postfixFn f =>
      exact (relocates_settleUntil _).bind fun _ =>
        (relocates_applyFn (.postfixFn f) f.isMarker (f.value? setting.unit) offset).bind
          fun _ => relocates_pure rfl
  | closeParen => exact (relocates_closeParen offset).bind fun _ => relocates_pure rfl
  | closeBracket => exact relocates_closeBracket offset
  | lineEnd | foreign => exact relocates_pure rfl

theorem relocates_checkNeighbours (previous : Option TokenKind) (current : TokenKind)
    (offset : Nat) :
    Relocates place id (checkNeighbours previous current offset)
      (checkNeighbours previous current (place offset)) := by
  cases previous with
  | none => exact relocates_pure rfl
  | some previous =>
      simp only [checkNeighbours]
      split
      · exact relocates_pure rfl
      · exact relocates_throw rfl

/-- The tokens are taken in step, and scanning ends where the end has moved. -/
theorem relocates_scan (previous : Option TokenKind) (tokens : List Token) (ending : Ending) :
    Relocates place place (scan setting previous tokens ending)
      (scan setting previous (tokens.map (Token.relocate place)) (ending.relocate place)) := by
  induction tokens generalizing previous with
  | nil =>
      cases ending with
      | stop offset =>
          exact (relocates_checkNeighbours previous .lineEnd offset).bind fun _ =>
            relocates_pure rfl
      | malformed offset => exact relocates_throw rfl
  | cons token rest ih =>
      refine (relocates_checkNeighbours previous token.kind token.offset).bind fun _ => ?_
      refine (relocates_take token).bind fun goesOn => ?_
      simp only [id]
      split
      · exact ih (some token.kind)
      · exact relocates_pure rfl

theorem relocates_conclude (stop : Nat) :
    Relocates place (fun (value, stop) => (value, place stop)) (conclude stop)
      (conclude (place stop)) := by
  refine relocates_get fun machine moved hm => ?_
  rw [hm.numbers]
  cases machine.numbers with
  | nil => exact relocates_throw rfl
  | cons value below => exact (relocates_record _ _).bind fun _ => relocates_pure rfl

/-- Whatever is pending is settled at the end of both runs. -/
theorem relocates_scan_finish (setting : Setting) (previous : Option TokenKind)
    (tokens : List Token) (ending : Ending) :
    Relocates place (fun (value, stop) => (value, place stop))
      (scan setting previous tokens ending >>= finish setting)
      (scan setting previous (tokens.map (Token.relocate place)) (ending.relocate place) >>=
        finish setting) :=
  (relocates_scan previous tokens ending).bind fun stop =>
    (relocates_settleUntil _).bind fun _ => relocates_conclude stop

end Machine
end PocketCalc
