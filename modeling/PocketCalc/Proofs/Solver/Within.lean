import PocketCalc.Proofs.Solver.Moments

/-! Runs that put nothing on the stack of commands. Whatever settles commands, applies a function or
reads a cell takes them off the top at most, and the numbers that it leaves fit on their stack. So
what is left of the commands is always a part of those that were there before. -/

namespace PocketCalc

namespace Machine

/-- The numbers fit on their stack, and of the given commands some may have been taken off. -/
structure Within (commands : List Command) (machine : Machine) : Prop where
  numbers_le : machine.numbers.length ≤ numberLimit
  suffix : machine.commands <:+ commands

variable {setting : Setting} {machine : Machine} {commands waiting : List Command}

theorem Within.below {command : Command} (h : machine.Within commands)
    (hcommands : machine.commands = command :: waiting) : waiting <:+ commands := by
  have hsuffix := h.suffix
  rw [hcommands] at hsuffix
  exact (List.suffix_cons command waiting).trans hsuffix

namespace Traced

variable {α β : Type} {P : Machine → Prop}

/-- From a machine with the property the run comes through such machines only, and ends in one. -/
def Keeps (P : Machine → Prop) (x : Traced α) : Prop :=
  ∀ machine, P machine → Throughout P (fun _ => True) x machine fun _ after => P after

theorem keeps_pure (a : α) : Keeps P (pure a) :=
  fun _ h => throughout_pure h

theorem keeps_step {x : Run α} (hx : ∀ machine, P machine → P (machineOf (x machine))) :
    Keeps P (step x) := by
  intro machine h
  have hafter := hx machine h
  cases hrun : x machine with
  | ok a after =>
      rw [hrun] at hafter
      exact throughout_step hrun hafter hafter
  | error fault after =>
      rw [hrun] at hafter
      exact throughout_step_of_error hrun hafter trivial

theorem Keeps.bind {x : Traced α} {f : α → Traced β} (hx : Keeps P x) (hf : ∀ a, Keeps P (f a)) :
    Keeps P (x >>= f) :=
  fun machine h => (hx machine h).bind fun a next hnext => hf a next hnext

theorem keeps_throw (fault : Fault) : Keeps P (step (throw fault : Run α)) :=
  keeps_step fun _ h => h

theorem keeps_record (event : Event) : Keeps (Within commands) (step (record event)) :=
  keeps_step fun _ h => ⟨h.numbers_le, h.suffix⟩

theorem keeps_recordApplied (key : Key) (offset : Nat) :
    Keeps (Within commands) (step (recordApplied key offset)) :=
  keeps_step fun _ h => ⟨h.numbers_le, h.suffix⟩

theorem keeps_popNumber (offset : Nat) : Keeps (Within commands) (step (popNumber offset)) := by
  refine keeps_step fun machine h => ?_
  unfold popNumber
  split
  · next value below hnumbers =>
      have hlength := h.numbers_le
      rw [hnumbers] at hlength
      exact ⟨Nat.le_of_succ_le hlength, h.suffix⟩
  · exact h

theorem keeps_pushNumber (value : Float) (offset : Nat) :
    Keeps (Within commands) (step (pushNumber value offset)) := by
  refine keeps_step fun machine h => ?_
  unfold pushNumber
  split
  · next hroom => exact ⟨hroom, h.suffix⟩
  · exact h

theorem keeps_pushResult (offset : Nat) (value? : Option Float) :
    Keeps (Within commands) (step (pushResult offset value?)) := by
  cases value? with
  | none => exact keeps_throw _
  | some value => exact keeps_pushNumber value offset

theorem keeps_setCommands (h : waiting <:+ commands) :
    Keeps (Within commands) (step (setCommands waiting)) :=
  keeps_step fun _ hmachine => ⟨hmachine.numbers_le, h⟩

theorem keeps_applyOperator (op : Operator) (offset : Nat) :
    Keeps (Within commands) (applyOperator op offset) :=
  (keeps_recordApplied _ offset).bind fun _ => (keeps_popNumber offset).bind fun _ =>
    (keeps_popNumber offset).bind fun _ => keeps_pushResult offset _

theorem keeps_applyFn (key : Key) (marker : Bool) (value? : Float → Option Float) (offset : Nat) :
    Keeps (Within commands) (applyFn key marker value? offset) := by
  refine (keeps_recordApplied key offset).bind fun _ => ?_
  cases marker with
  | true => exact keeps_pure ()
  | false => exact (keeps_popNumber offset).bind fun _ => keeps_pushResult offset _

theorem keeps_fetch (setting : Setting) (name : Char) (offset : Nat) :
    Keeps (Within commands) (fetch setting name offset) := by
  refine (keeps_popNumber offset).bind fun index => ?_
  cases setting.cell? name (Binary64.toIndex index) with
  | none => exact keeps_throw _
  | some value => exact (keeps_record _).bind fun _ => keeps_pushNumber value offset

theorem keeps_settle (setting : Setting) (command : Command) :
    Keeps (Within commands) (settle setting command) := by
  obtain ⟨kind, offset⟩ := command
  cases kind with
  | operator op => exact keeps_applyOperator op offset
  | prefixFn f => exact keeps_applyFn _ _ _ offset
  | paren => exact keeps_pure ()
  | index name => exact keeps_fetch setting name offset

theorem keeps_unwind (setting : Setting) (stays : CommandKind → Bool) (h : waiting <:+ commands) :
    Keeps (Within commands) (unwind setting stays waiting) := by
  induction waiting with
  | nil => exact keeps_pure ()
  | cons command below ih =>
      have hbelow : below <:+ commands := (List.suffix_cons command below).trans h
      rw [unwind]
      split
      · exact keeps_pure ()
      · exact (keeps_setCommands hbelow).bind fun _ => (keeps_settle setting command).bind fun _ =>
          ih hbelow

/-- The machine is looked at and left as it is. -/
theorem Keeps.of_get {f : Machine → Traced α}
    (hf : ∀ machine, P machine →
      Throughout P (fun _ => True) (f machine) machine fun _ after => P after) :
    Keeps P (step get >>= f) :=
  fun machine h => throughout_step_bind rfl h (hf machine h)

theorem keeps_settleUntil (setting : Setting) (stays : CommandKind → Bool) :
    Keeps (Within commands) (settleUntil setting stays) :=
  Keeps.of_get fun machine h => keeps_unwind setting stays h.suffix machine h

theorem keeps_closeParen (setting : Setting) (offset : Nat) :
    Keeps (Within commands) (closeParen setting offset) := by
  refine (keeps_settleUntil setting _).bind fun _ => Keeps.of_get fun machine h => ?_
  rcases hcommands : machine.commands with _ | ⟨⟨kind, opener⟩, below⟩
  · exact keeps_throw _ machine h
  · cases kind with
    | paren => exact keeps_setCommands (h.below hcommands) machine h
    | _ => exact keeps_throw _ machine h

theorem keeps_closeBracket (setting : Setting) (offset : Nat) :
    Keeps (Within commands) (closeBracket setting offset) := by
  refine (keeps_settleUntil setting _).bind fun _ => Keeps.of_get fun machine h => ?_
  rcases hcommands : machine.commands with _ | ⟨⟨kind, opener⟩, below⟩
  · exact keeps_pure false machine h
  · cases kind with
    | index name =>
        exact ((keeps_setCommands (h.below hcommands)).bind fun _ =>
          (keeps_fetch setting name offset).bind fun _ => keeps_pure true) machine h
    | _ => exact keeps_pure false machine h

theorem keeps_checkNeighbours (previous : Option TokenKind) (current : TokenKind) (offset : Nat) :
    Keeps P (step (checkNeighbours previous current offset)) := by
  refine keeps_step fun machine h => ?_
  cases previous with
  | none => exact h
  | some kind =>
      simp only [checkNeighbours]
      split <;> exact h

theorem keeps_finish (setting : Setting) (stop : Nat) :
    Keeps (Within commands) (finish setting stop) := by
  refine (keeps_settleUntil setting _).bind fun _ => keeps_step fun machine h => ?_
  cases hnumbers : machine.numbers with
  | nil =>
      rw [conclude_of_numbers_nil hnumbers]
      exact h
  | cons value below =>
      rw [conclude_of_numbers hnumbers]
      exact ⟨h.numbers_le, h.suffix⟩

theorem keeps_accept_of_isEnd (setting : Setting) (previous : Option TokenKind) {token : Token}
    (hend : token.kind.isEnd = true) : Keeps P (accept setting previous token) := by
  rw [accept_of_isEnd hend]
  exact (keeps_checkNeighbours previous _ _).bind fun _ => keeps_pure false

end Traced
end Machine
end PocketCalc
