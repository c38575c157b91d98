import PocketCalc.Proofs.Solver.Settling
import PocketCalc.Proofs.Token.Operands

/-! The supply of numbers. A pending operator has two operands on the stack and leaves one, so the
numbers beyond the pending operators are what counts: settling does not change how many they are,
and as long as there is one of them, nothing that is settled finds an operand missing. -/

namespace PocketCalc

namespace CommandKind

def isOperator : CommandKind → Bool
  | operator _ => true
  | _ => false

end CommandKind

namespace Machine

variable {α β : Type} {x : Run α} {machine after : Machine}

/-- Where the run succeeds, the machine after it is good; where it comes to a malformation, there
was a reason for one. -/
def Ends (x : Run α) (machine : Machine) (good : Machine → Prop) (reason : Prop) : Prop :=
  match x machine with
  | .ok _ after => good after
  | .error (.malformed _ _) _ => reason
  | .error _ _ => True

section Ends

variable {good better : Machine → Prop} {reason other : Prop}

theorem ends_of_ok {a : α} (h : x machine = .ok a after) (hgood : good after) :
    Ends x machine good reason := by
  simpa only [Ends, h] using hgood

theorem ends_of_error {fault : Fault} (h : x machine = .error fault after)
    (hfault : ∀ cause offset, fault = .malformed cause offset → reason) :
    Ends x machine good reason := by
  simp only [Ends, h]
  cases fault with
  | malformed cause offset => exact hfault cause offset rfl
  | _ => trivial

theorem Ends.of_ok (h : Ends x machine good reason) {a : α} (hrun : x machine = .ok a after) :
    good after := by
  simpa only [Ends, hrun] using h

theorem Ends.of_malformed (h : Ends x machine good reason) {cause : Malformation} {offset : Nat}
    (hrun : x machine = .error (.malformed cause offset) after) : reason := by
  simpa only [Ends, hrun] using h

theorem Ends.mono (h : Ends x machine good reason) (hgood : ∀ after, good after → better after)
    (hreason : reason → other) : Ends x machine better other := by
  cases hrun : x machine with
  | ok a after => exact ends_of_ok hrun (hgood after (h.of_ok hrun))
  | error fault after =>
      apply ends_of_error hrun
      rintro cause offset rfl
      exact hreason (h.of_malformed hrun)

theorem Ends.bind {f : α → Run β} (hx : Ends x machine good reason)
    (hf : ∀ a after, good after → Ends (f a) after better reason) :
    Ends (x >>= f) machine better reason := by
  cases hrun : x machine with
  | ok a after =>
      have hrest := hf a after (hx.of_ok hrun)
      simpa only [Ends, bind_of_ok hrun] using hrest
  | error fault after =>
      apply ends_of_error (bind_of_error hrun f)
      rintro cause offset rfl
      exact hx.of_malformed hrun

end Ends

/-! ## What a run does to the numbers -/

/-- The run takes so many numbers from the stack and leaves so many there. It comes to a
malformation only where there are too few of them. -/
abbrev Exchanges (x : Run α) (machine : Machine) (taken given : Nat) : Prop :=
  Ends x machine (fun after => after.numbers.length + taken = machine.numbers.length + given)
    (machine.numbers.length < taken)

variable {taken given result : Nat}

/-- A run that takes nothing comes to no malformation. -/
theorem Exchanges.ne_malformed (h : Exchanges x machine 0 given) {cause : Malformation}
    {offset : Nat} : x machine ≠ .error (.malformed cause offset) after := by
  intro hrun
  exact absurd (h.of_malformed hrun) (Nat.not_lt_zero _)

/-- The second run may take what the first one has left, and more. -/
theorem Exchanges.bind {f : α → Run β} (hx : Exchanges x machine taken given) (more : Nat)
    (hf : ∀ a after, Exchanges (f a) after (given + more) result) :
    Exchanges (x >>= f) machine (taken + more) result := by
  refine Ends.bind (hx.mono (fun _ h => h) (by omega)) fun a after hn => ?_
  refine (hf a after).mono (fun last hlast => ?_) fun hfew => ?_
  · omega
  · omega

/-- A number that is taken may be left as well. -/
theorem Exchanges.add (h : Exchanges x machine taken given) (spare : Nat) :
    Exchanges x machine (taken + spare) (given + spare) :=
  h.mono (fun _ hn => by omega) (by omega)

theorem exchanges_pure (a : α) (machine : Machine) : Exchanges (pure a) machine 0 0 :=
  ends_of_ok rfl rfl

theorem exchanges_record (event : Event) (machine : Machine) :
    Exchanges (record event) machine 0 0 :=
  ends_of_ok rfl rfl

theorem exchanges_recordApplied (key : Key) (offset : Nat) (machine : Machine) :
    Exchanges (recordApplied key offset) machine 0 0 :=
  ends_of_ok rfl rfl

theorem exchanges_pushNumber (value : Float) (offset : Nat) (machine : Machine) :
    Exchanges (pushNumber value offset) machine 0 1 := by
  by_cases hroom : machine.numbers.length < numberLimit
  · simp only [Ends, pushNumber, hroom, if_true, List.length_cons, Nat.add_zero]
  · simp only [Ends, pushNumber, hroom, if_false]

theorem exchanges_popNumber (offset : Nat) (machine : Machine) :
    Exchanges (popNumber offset) machine 1 0 := by
  cases hn : machine.numbers with
  | nil => simp [Ends, popNumber, hn]
  | cons value below => simp [Ends, popNumber, hn]

theorem exchanges_pushCommand (kind : CommandKind) (offset : Nat) (machine : Machine) :
    Exchanges (pushCommand kind offset) machine 0 0 := by
  by_cases hroom : machine.commands.length < commandLimit
  · simp only [Ends, pushCommand, hroom, if_true]
  · simp only [Ends, pushCommand, hroom, if_false]

theorem exchanges_pushResult (offset : Nat) (value? : Option Float) (machine : Machine) :
    Exchanges (pushResult offset value?) machine 0 1 := by
  cases value? with
  | none => trivial
  | some value => exact exchanges_pushNumber value offset machine

/-- An operator needs two numbers and leaves one. -/
theorem exchanges_applyOperator (op : Operator) (offset : Nat) (machine : Machine) :
    Exchanges (applyOperator op offset) machine 2 1 := by
  refine (exchanges_recordApplied _ offset machine).bind 2 fun _ recorded => ?_
  refine (exchanges_popNumber offset recorded).bind 1 fun right above => ?_
  refine (exchanges_popNumber offset above).bind 0 fun left below => ?_
  exact exchanges_pushResult offset _ below

/-- A function needs the number that it replaces, or none if it is a marker. -/
theorem exchanges_applyFn (key : Key) (marker : Bool) (value? : Float → Option Float)
    (offset : Nat) (machine : Machine) :
    Exchanges (applyFn key marker value? offset) machine 1 1 := by
  refine (exchanges_recordApplied key offset machine).bind 1 fun _ recorded => ?_
  cases marker with
  | true => exact (exchanges_pure () recorded).add 1
  | false =>
      refine (exchanges_popNumber offset recorded).bind 0 fun value below => ?_
      exact exchanges_pushResult offset _ below

theorem exchanges_fetch (setting : Setting) (name : Char) (offset : Nat) (machine : Machine) :
    Exchanges (fetch setting name offset) machine 1 1 := by
  refine (exchanges_popNumber offset machine).bind 0 fun index below => ?_
  cases setting.cell? name (Binary64.toIndex index) with
  | none => trivial
  | some value =>
      refine (exchanges_record _ below).bind 0 fun _ recorded => ?_
      exact exchanges_pushNumber value offset recorded

/-- A command needs a number, or two if it is an operator, and leaves one. -/
theorem exchanges_settle (setting : Setting) (command : Command) (machine : Machine) :
    Exchanges (settle setting command) machine (1 + command.kind.isOperator.toNat) 1 := by
  obtain ⟨kind, offset⟩ := command
  cases kind with
  | operator op => exact exchanges_applyOperator op offset machine
  | prefixFn f => exact exchanges_applyFn _ _ _ offset machine
  | paren => exact (exchanges_pure () machine).add 1
  | index name => exact exchanges_fetch setting name offset machine

/-! ## What a run does to the surplus -/

def pendingOperators (commands : List Command) : Nat :=
  commands.countP fun command => command.kind.isOperator

@[simp] theorem pendingOperators_cons (command : Command) (below : List Command) :
    pendingOperators (command :: below) =
      command.kind.isOperator.toNat + pendingOperators below := by
  cases h : command.kind.isOperator <;> simp [pendingOperators, h, Nat.add_comm]

/-- The numbers that are left when every pending operator has been applied. -/
def surplus (machine : Machine) : Int :=
  machine.numbers.length - pendingOperators machine.commands

/-- The surplus grows by so much. The run comes to a malformation only where there is none. -/
abbrev Gains (x : Run α) (machine : Machine) (gain : Int) : Prop :=
  Ends x machine (fun after => after.surplus = machine.surplus + gain) (machine.surplus ≤ 0)

variable {gain : Int}

/-- A run gains what another one gains that does the same from the same surplus. -/
theorem gains_congr {y : Run α} {other : Machine} (h : x machine = y other)
    (hs : machine.surplus = other.surplus) : Gains x machine gain ↔ Gains y other gain := by
  simp only [Gains, Ends, h, hs]

/-- A run that keeps the surplus may come before another one. -/
theorem Gains.bind {f : α → Run β} (hx : Gains x machine 0)
    (hf : ∀ a after, Gains (f a) after gain) : Gains (x >>= f) machine gain := by
  refine Ends.bind hx fun a after hs => ?_
  rw [Int.add_zero] at hs
  rw [← hs]
  exact hf a after

/-- What a run tells is no matter to the surplus. -/
theorem Gains.bind_pure (hx : Gains x machine gain) (b : β) :
    Gains (x >>= fun _ => pure b) machine gain :=
  Ends.bind hx fun _ _ hs => ends_of_ok rfl hs

/-- Where the commands stay, the surplus changes as the numbers do. -/
theorem Exchanges.gains (h : Exchanges x machine taken given) (hk : KeepsCommands x)
    (htaken : taken ≤ 1) : Gains x machine (given - taken) := by
  cases hrun : x machine with
  | ok a after =>
      have hn := h.of_ok hrun
      apply ends_of_ok hrun
      simp only [surplus, hk machine a after hrun]
      omega
  | error fault after =>
      apply ends_of_error hrun
      rintro cause offset rfl
      have hn := h.of_malformed hrun
      simp only [surplus]
      omega

theorem gains_pure (a : α) (machine : Machine) : Gains (pure a) machine 0 :=
  ends_of_ok rfl (Int.add_zero _).symm

theorem gains_pushNumber (value : Float) (offset : Nat) (machine : Machine) :
    Gains (pushNumber value offset) machine 1 :=
  (exchanges_pushNumber value offset machine).gains (keepsCommands_pushNumber value offset)
    (Nat.zero_le 1)

/-- A pending operator is going to take one number more than it leaves. -/
theorem gains_pushCommand (kind : CommandKind) (offset : Nat) (machine : Machine) :
    Gains (pushCommand kind offset) machine (-kind.isOperator.toNat) := by
  by_cases hroom : machine.commands.length < commandLimit
  · simp only [Ends, pushCommand, hroom, if_true, surplus, pendingOperators_cons]
    omega
  · simp only [Ends, pushCommand, hroom, if_false]

theorem gains_applyPostfixFn (setting : Setting) (f : PostfixFn) (offset : Nat)
    (machine : Machine) : Gains (applyPostfixFn setting f offset) machine 0 :=
  (exchanges_applyFn _ _ _ offset machine).gains (keepsCommands_applyPostfixFn setting f offset)
    (Nat.le_refl 1)

theorem gains_fetch (setting : Setting) (name : Char) (offset : Nat) (machine : Machine) :
    Gains (fetch setting name offset) machine 0 :=
  (exchanges_fetch setting name offset machine).gains (keepsCommands_fetch setting name offset)
    (Nat.le_refl 1)

/-- Settling does not change the surplus, and a number to spare is all that it needs. -/
theorem gains_settleUntil (setting : Setting) (stays : CommandKind → Bool) (machine : Machine) :
    Gains (settleUntil setting stays) machine 0 := by
  induction hc : machine.commands generalizing machine with
  | nil =>
      apply ends_of_ok (settleUntil_of_commands_nil hc)
      exact (Int.add_zero _).symm
  | cons command below ih =>
      by_cases hs : stays command.kind = true
      · apply ends_of_ok (settleUntil_of_top_stays hc hs)
        exact (Int.add_zero _).symm
      · simp only [Bool.not_eq_true] at hs
        -- an operator that is settled is one number and one pending operator fewer
        let lowered : Machine := { machine with commands := below }
        have hsettle := exchanges_settle setting command lowered
        have hnumbers : lowered.numbers.length = machine.numbers.length := rfl
        have hpending : pendingOperators machine.commands =
            command.kind.isOperator.toNat + pendingOperators below := by
          rw [hc, pendingOperators_cons]
        cases hrun : settle setting command lowered with
        | ok u next =>
            have hn := hsettle.of_ok hrun
            have hnext := keepsCommands_settle setting command lowered u next hrun
            have hsame := (settleUntil_of_not_stays hc hs).trans (bind_of_ok hrun _)
            apply (gains_congr hsame _).mpr (ih next hnext)
            simp only [surplus, hnext, hpending]
            change _ = _ - (pendingOperators below : Int)
            omega
        | error fault next =>
            apply ends_of_error ((settleUntil_of_not_stays hc hs).trans (bind_of_error hrun _))
            rintro cause offset rfl
            have hn := hsettle.of_malformed hrun
            simp only [surplus, hpending]
            omega

/-- A closing bracket settles, and reads a cell in the place of an index. -/
theorem gains_closeBracket (setting : Setting) (offset : Nat) (machine : Machine) :
    Gains (closeBracket setting offset) machine 0 := by
  apply (gains_settleUntil setting CommandKind.isIndex machine).bind
  rintro - ⟨numbers, commands, events⟩
  cases commands with
  | nil => exact gains_pure false _
  | cons command below =>
      obtain ⟨kind, opener⟩ := command
      cases kind with
      | index name =>
          have hfetch := (gains_fetch setting name offset ⟨numbers, below, events⟩).bind_pure true
          apply (gains_congr rfl _).mpr hfetch
          simp [surplus]
      | _ => exact gains_pure false _

/-- Every token adds its surplus. Only a closing parenthesis may be a malformation of its own. -/
theorem gains_take (setting : Setting) {token : Token} (h : token.kind ≠ .closeParen)
    (machine : Machine) : Gains (take setting token) machine token.kind.surplus := by
  obtain ⟨kind, offset⟩ := token
  cases kind with
  | number value => exact (gains_pushNumber value offset machine).bind_pure true
  | named name =>
      cases hcell : setting.cell? name 0 with
      | none =>
          rw [take_named_of_none hcell]
          trivial
      | some value =>
          rw [take_named_of_some hcell]
          exact (gains_pushNumber value offset machine).bind_pure true
  | indexed name => exact (gains_pushCommand (.index name) offset machine).bind_pure true
  | prefixFn f => exact (gains_pushCommand (.prefixFn f) offset machine).bind_pure true
  | openParen => exact (gains_pushCommand .paren offset machine).bind_pure true
  | operator op =>
      apply (gains_settleUntil setting (CommandKind.bindsLessThan op.precedence) machine).bind
      intro _ settled
      exact (gains_pushCommand (.operator op) offset settled).bind_pure true
  | postfixFn f =>
      apply (gains_settleUntil setting (CommandKind.bindsLessThan f.precedence) machine).bind
      intro _ settled
      exact (gains_applyPostfixFn setting f offset settled).bind_pure true
  | closeParen => exact absurd rfl h
  | closeBracket => exact gains_closeBracket setting offset machine
  | lineEnd | foreign => exact gains_pure false machine

/-- A closing parenthesis takes away an opener, which is no operator. -/
theorem surplus_of_closeParen {setting : Setting} {offset : Nat}
    (h : closeParen setting offset machine = .ok () after) : after.surplus = machine.surplus := by
  obtain ⟨settled, opener, below, hsettle, hcommands, rfl⟩ := closeParen_eq_ok h
  have hs := (gains_settleUntil setting _ machine).of_ok hsettle
  simp only [surplus, hcommands, pendingOperators_cons, CommandKind.isOperator] at hs ⊢
  simpa using hs

/-- Every token that is taken has added its surplus. -/
theorem surplus_of_take {setting : Setting} {token : Token} {goesOn : Bool}
    (h : take setting token machine = .ok goesOn after) :
    after.surplus = machine.surplus + token.kind.surplus := by
  by_cases hkind : token.kind = .closeParen
  · obtain ⟨kind, offset⟩ := token
    cases hkind
    obtain ⟨_, closed, hclose, hpure⟩ := bind_eq_ok h
    cases hpure
    rw [surplus_of_closeParen hclose]
    exact (Int.add_zero _).symm
  · exact (gains_take setting hkind machine).of_ok h

end Machine
end PocketCalc
