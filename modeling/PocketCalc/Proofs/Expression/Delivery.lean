import PocketCalc.Expression.Value
import PocketCalc.Proofs.Expression.Demand
import PocketCalc.Proofs.Expression.Recursion

/-! What the evaluation of an expression on the stacks comes to. It leaves the value of the
expression above the numbers that were there, or fails with the first fault of the expression,
unless a push finds its stack full before that. -/

namespace PocketCalc

namespace Machine

/-- The run leaves the value above the given numbers or fails with its fault; only if there is an
overflow it may fail with that instead. -/
def Delivers (x : Run Unit) (machine : Machine) (value : Except Fault Float)
    (overflow : Option Nat) (below : List Float) : Prop :=
  match x machine with
  | .ok _ after => overflow = none ∧ ∃ v, value = .ok v ∧ after.numbers = v :: below
  | .error fault _ =>
    value = .error fault ∨ ∃ offset, overflow = some offset ∧ fault = .stackFull offset

variable {x y : Run Unit} {machine after : Machine} {value : Except Fault Float}
  {overflow next : Option Nat} {numbers below : List Float} {offset : Nat}

/-- Only what the run comes to matters. -/
theorem delivers_congr {next : Machine} (h : x machine = y next) :
    Delivers x machine value overflow below ↔ Delivers y next value overflow below := by
  simp only [Delivers, h]

theorem delivers_ok_iff (h : x machine = .ok () after) :
    Delivers x machine value overflow below ↔
      overflow = none ∧ ∃ v, value = .ok v ∧ after.numbers = v :: below := by
  simp only [Delivers, h]

theorem delivers_error_iff {fault : Fault} (h : x machine = .error fault after) :
    Delivers x machine value overflow below ↔
      value = .error fault ∨ ∃ offset, overflow = some offset ∧ fault = .stackFull offset := by
  simp only [Delivers, h]

theorem delivers_of_ok {v : Float} (h : x machine = .ok () after)
    (hn : after.numbers = v :: below) : Delivers x machine (.ok v) none below :=
  (delivers_ok_iff h).mpr ⟨rfl, v, rfl, hn⟩

theorem delivers_of_error {fault : Fault} (h : x machine = .error fault after) :
    Delivers x machine (.error fault) overflow below :=
  (delivers_error_iff h).mpr (.inl rfl)

theorem delivers_of_stackFull (h : x machine = .error (.stackFull offset) after) :
    Delivers x machine value (some offset) below :=
  (delivers_error_iff h).mpr (.inr ⟨offset, rfl, rfl⟩)

theorem Delivers.overflow_eq_none (h : Delivers x machine value overflow below)
    (hrun : x machine = .ok () after) : overflow = none :=
  ((delivers_ok_iff hrun).mp h).1

/-- Runs in sequence, the second of which starts from the value of the first. -/
theorem Delivers.bind {g : Float → Except Fault Float}
    (hx : Delivers x machine value overflow numbers)
    (hy : ∀ v after, x machine = .ok () after → after.numbers = v :: numbers →
      Delivers y after (g v) next below) :
    Delivers (x >>= fun _ => y) machine (value >>= g) (overflow.or next) below := by
  cases hrun : x machine with
  | ok u after =>
      obtain ⟨rfl, v, rfl, hn⟩ := (delivers_ok_iff hrun).mp hx
      exact (delivers_congr (bind_of_ok hrun _)).mpr (hy v after hrun hn)
  | error fault after =>
      apply (delivers_error_iff (bind_of_error hrun _)).mpr
      rcases (delivers_error_iff hrun).mp hx with rfl | ⟨offset, rfl, rfl⟩
      · exact .inl rfl
      · exact .inr ⟨offset, rfl, rfl⟩

/-- An operation on the value of a run takes no room of its own. -/
theorem Delivers.bind_operation {g : Float → Except Fault Float}
    (hx : Delivers x machine value overflow numbers)
    (hy : ∀ v after, x machine = .ok () after → after.numbers = v :: numbers →
      Delivers y after (g v) none below) :
    Delivers (x >>= fun _ => y) machine (value >>= g) overflow below := by
  have h := hx.bind hy
  rwa [Option.or_none] at h

/-! ## Pushes -/

theorem pushNumber_delivers (v : Float) (offset : Nat) (machine : Machine) :
    Delivers (pushNumber v offset) machine (.ok v)
      (if numberLimit - machine.numbers.length = 0 then some offset else none)
      machine.numbers := by
  by_cases h : machine.numbers.length < numberLimit
  · have hroom : ¬ numberLimit - machine.numbers.length = 0 := by omega
    rw [if_neg hroom]
    apply delivers_of_ok
    · simp only [pushNumber, h, if_true]
      rfl
    · rfl
  · have hroom : numberLimit - machine.numbers.length = 0 := by omega
    rw [if_pos hroom]
    apply delivers_of_stackFull
    simp only [pushNumber, h, if_false]
    rfl

/-- The result of an operation always finds room, since its operands have left. -/
theorem pushResult_delivers (value? : Option Float) (offset : Nat)
    (h : machine.numbers.length < numberLimit) :
    Delivers (pushResult offset value?) machine (Expression.orOutsideDomain offset value?) none
      machine.numbers := by
  cases value? with
  | none =>
      have hthrow : pushResult offset none machine = .error (.outsideDomain offset) machine := rfl
      exact delivers_of_error hthrow
  | some v =>
      have hpush := pushNumber_delivers v offset machine
      rwa [if_neg (by omega)] at hpush

/-- A command needs room as long as it waits. -/
theorem Delivers.awaiting {kind : CommandKind}
    (h : ∀ pushed, pushed.commands = ⟨kind, offset⟩ :: machine.commands →
      pushed.numbers = machine.numbers → machine.commands.length < commandLimit →
      Delivers x pushed value overflow below) :
    Delivers (awaiting kind offset x) machine value
      (if commandLimit - machine.commands.length = 0 then some offset else overflow) below := by
  by_cases hc : machine.commands.length < commandLimit
  · let pushed : Machine := { machine with commands := ⟨kind, offset⟩ :: machine.commands }
    have hpush : pushCommand kind offset machine = .ok () pushed := by
      simp only [pushCommand, hc, if_true]
      rfl
    rw [if_neg (by omega)]
    have hx := h pushed rfl rfl hc
    apply (delivers_congr (bind_of_ok hpush _)).mpr
    cases hrun : x pushed with
    | ok u after =>
        have hvalue := (delivers_ok_iff hrun).mp hx
        have hdropped : (x >>= fun _ => dropCommand) pushed =
            .ok () { after with commands := after.commands.tail } := bind_of_ok hrun _
        exact (delivers_ok_iff hdropped).mpr hvalue
    | error fault after =>
        have hfault := (delivers_error_iff hrun).mp hx
        exact (delivers_error_iff (bind_of_error hrun _)).mpr hfault
  · rw [if_pos (by omega)]
    apply delivers_of_stackFull
    have hpush : pushCommand kind offset machine = .error (.stackFull offset) machine := by
      simp only [pushCommand, hc, if_false]
    exact bind_of_error hpush _

/-! ## Operations -/

theorem recordApplied_bind {β : Type} (key : Key) (offset : Nat) (next : Unit → Run β) :
    ∃ logged : Machine, logged.numbers = machine.numbers ∧
      (recordApplied key offset >>= next) machine = next () logged := by
  let event := Event.applied key offset machine.numbers.length
  exact ⟨{ machine with events := event :: machine.events }, rfl, rfl⟩

theorem popNumber_bind {β : Type} {v : Float} (hn : machine.numbers = v :: numbers)
    (offset : Nat) (next : Float → Run β) :
    (popNumber offset >>= next) machine = next v { machine with numbers } := by
  have hpop : popNumber offset machine = .ok v { machine with numbers } := by
    simp only [popNumber, hn]
  exact bind_of_ok hpop next

theorem applyOperator_delivers (op : Operator) (offset : Nat) {left right : Float}
    (hn : machine.numbers = right :: left :: below) (hroom : below.length < numberLimit) :
    Delivers (applyOperator op offset) machine
      (Expression.orOutsideDomain offset (op.value? left right)) none below := by
  obtain ⟨logged, hlogged, happly⟩ := recordApplied_bind (.operator op) offset
    fun _ => popNumber offset >>= fun right => popNumber offset >>= fun left =>
      pushResult offset (op.value? left right)
  rw [hn] at hlogged
  rw [popNumber_bind hlogged, popNumber_bind rfl] at happly
  exact (delivers_congr happly).mpr (pushResult_delivers _ offset hroom)

/-- A marker does not touch its operand, which is its value as well. -/
theorem applyFn_delivers (key : Key) (offset : Nat) {marker : Bool} {value? : Float → Option Float}
    {v : Float} (hmarker : marker = true → value? v = some v) (hn : machine.numbers = v :: below)
    (hroom : below.length < numberLimit) :
    Delivers (applyFn key marker value? offset) machine
      (Expression.orOutsideDomain offset (value? v)) none below := by
  unfold applyFn
  cases marker with
  | true =>
      simp only [if_true]
      obtain ⟨logged, hlogged, happly⟩ := recordApplied_bind key offset
        fun _ => (pure () : Run Unit)
      rw [hmarker rfl]
      exact delivers_of_ok happly (hlogged.trans hn)
  | false =>
      simp only [Bool.false_eq_true, if_false]
      obtain ⟨logged, hlogged, happly⟩ := recordApplied_bind key offset
        fun _ => popNumber offset >>= fun v => pushResult offset (value? v)
      rw [popNumber_bind (hlogged.trans hn)] at happly
      exact (delivers_congr happly).mpr (pushResult_delivers _ offset hroom)

theorem applyPrefixFn_delivers (setting : Setting) (f : PrefixFn) (offset : Nat) {v : Float}
    (hn : machine.numbers = v :: below) (hroom : below.length < numberLimit) :
    Delivers (applyPrefixFn setting f offset) machine
      (Expression.orOutsideDomain offset (f.value? setting.unit v)) none below :=
  applyFn_delivers (.prefixFn f) offset
    (fun hf => PrefixFn.value?_of_isMarker hf setting.unit v) hn hroom

theorem applyPostfixFn_delivers (setting : Setting) (f : PostfixFn) (offset : Nat) {v : Float}
    (hn : machine.numbers = v :: below) (hroom : below.length < numberLimit) :
    Delivers (applyPostfixFn setting f offset) machine
      (Expression.orOutsideDomain offset (f.value? setting.unit v)) none below :=
  applyFn_delivers (.postfixFn f) offset
    (fun hf => PostfixFn.value?_of_isMarker hf setting.unit v) hn hroom

theorem fetch_delivers (setting : Setting) (name : Char) (offset : Nat) {index : Float}
    (hn : machine.numbers = index :: below) (hroom : below.length < numberLimit) :
    Delivers (fetch setting name offset) machine
      (Expression.cellValue setting name (Binary64.toIndex index) offset) none below := by
  unfold Expression.cellValue
  cases hcell : setting.cell? name (Binary64.toIndex index) with
  | none =>
      have hfetch : fetch setting name offset machine =
          .error (.noSuchCell offset) { machine with numbers := below } := by
        rw [fetch, popNumber_bind hn, hcell]
        rfl
      exact delivers_of_error hfetch
  | some v =>
      let fetched : Machine := ⟨below, machine.commands, .fetched name index v :: machine.events⟩
      have hfetch : fetch setting name offset machine = pushResult offset (some v) fetched := by
        rw [fetch, popNumber_bind hn, hcell]
        rfl
      have hlength : fetched.numbers.length < numberLimit := hroom
      exact (delivers_congr hfetch).mpr (pushResult_delivers (some v) offset hlength)

end Machine

namespace Expression

open Machine

variable {setting : Setting} {machine : Machine}

/-- An expression cannot do without a number of its own. -/
theorem numberRoom_pos_of_overflow?_eq_none {e : Expression} {numberRoom commandRoom start : Nat}
    (h : e.overflow? numberRoom commandRoom start = none) : 0 < numberRoom :=
  Nat.lt_of_lt_of_le e.numberDemand_pos ((e.overflow?_eq_none_iff _ _ _).mp h).1

/-- From every machine, the evaluation meets the first fault of the expression or its first
overflow, and leaves its value if there is neither. -/
def PerformDelivers (setting : Setting) (e : Expression) : Prop :=
  ∀ start machine,
    Delivers (e.perform setting start) machine (e.value setting start)
      (e.overflow? (numberLimit - machine.numbers.length)
        (commandLimit - machine.commands.length) start) machine.numbers

/-- Where an expression has found room for its number, its value finds room again. -/
theorem PerformDelivers.numbers_length_lt {e : Expression} (h : e.PerformDelivers setting)
    {start : Nat} {after : Machine} (hrun : e.perform setting start machine = .ok () after) :
    machine.numbers.length < numberLimit := by
  have hroom := numberRoom_pos_of_overflow?_eq_none ((h start machine).overflow_eq_none hrun)
  omega

theorem PerformDelivers.awaiting {e : Expression} (h : e.PerformDelivers setting)
    (kind : CommandKind) (offset start : Nat) (machine : Machine) :
    Delivers (Machine.awaiting kind offset (e.perform setting start)) machine
      (e.value setting start)
      (if commandLimit - machine.commands.length = 0 then some offset
        else e.overflow? (numberLimit - machine.numbers.length)
          (commandLimit - machine.commands.length - 1) start) machine.numbers := by
  refine Delivers.awaiting fun pushed hc hn _ => ?_
  have hpushed := h start pushed
  rwa [hn, hc, List.length_cons, ← Nat.sub_sub] at hpushed

theorem PerformDelivers.numbers_length_lt_of_awaiting {e : Expression}
    (h : e.PerformDelivers setting) {kind : CommandKind} {offset start : Nat} {after : Machine}
    (hrun : Machine.awaiting kind offset (e.perform setting start) machine = .ok () after) :
    machine.numbers.length < numberLimit := by
  have hnone := (h.awaiting kind offset start machine).overflow_eq_none hrun
  split at hnone
  · cases hnone
  · have hroom := numberRoom_pos_of_overflow?_eq_none hnone
    omega

theorem performDelivers_number {digits : List Key} {literal : Literal}
    (h : Literal.read digits = .ok literal) : (number digits).PerformDelivers setting := by
  intro start machine
  have hvalue : (number digits).value setting start = .ok literal.value := by
    unfold value
    rw [h]
    rfl
  rw [hvalue]
  unfold perform overflow?
  rw [h]
  exact pushNumber_delivers literal.value start machine

theorem performDelivers_cell (name : Char) : (cell name).PerformDelivers setting := by
  intro start machine
  unfold perform value cellValue overflow?
  cases hcell : setting.cell? name 0 with
  | none => exact delivers_of_error rfl
  | some v => exact pushNumber_delivers v start machine

/-- The number of the left operand and the operator wait while the right operand is evaluated. -/
theorem performDelivers_binary {left right : Expression} (hl : left.PerformDelivers setting)
    (hr : right.PerformDelivers setting) (op : Operator) :
    (binary left op right).PerformDelivers setting := by
  intro start machine
  have hoverflow : (binary left op right).overflow? (numberLimit - machine.numbers.length)
        (commandLimit - machine.commands.length) start =
      (left.overflow? (numberLimit - machine.numbers.length)
        (commandLimit - machine.commands.length) start).or
        (if commandLimit - machine.commands.length = 0 then some (start + left.keys.length)
          else right.overflow? (numberLimit - machine.numbers.length - 1)
            (commandLimit - machine.commands.length - 1) (start + left.keys.length + 1)) := by
    simp only [overflow?]
    cases left.overflow? (numberLimit - machine.numbers.length)
      (commandLimit - machine.commands.length) start <;> rfl
  rw [hoverflow]
  refine (hl start machine).bind fun a next hnext hn => ?_
  -- behind the left operand there is one more number, and the commands are what they were
  have hc := keepsCommands_perform setting left start machine _ next hnext
  have hright := hr.awaiting (.operator op) (start + left.keys.length)
    (start + left.keys.length + 1) next
  rw [hn, hc, List.length_cons, ← Nat.sub_sub] at hright
  exact hright.bind_operation fun b after _ hafter =>
    applyOperator_delivers op _ hafter (hl.numbers_length_lt hnext)

theorem performDelivers {e : Expression} {level : Nat} (h : e.IsReading level) :
    e.PerformDelivers setting := by
  induction e generalizing level with
  | number digits =>
      obtain ⟨literal, hl, _⟩ := exists_literal_of_isReading h
      exact performDelivers_number hl
  | cell name => exact performDelivers_cell name
  | indexed name index ih =>
      intro start machine
      refine ((ih h).awaiting _ _ _ machine).bind_operation fun v after hrun hn => ?_
      exact fetch_delivers setting name _ hn ((ih h).numbers_length_lt_of_awaiting hrun)
  | paren inner ih =>
      intro start machine
      exact (ih h).awaiting .paren start (start + 1) machine
  | prefixed f operand ih =>
      intro start machine
      refine ((ih h).awaiting _ _ _ machine).bind_operation fun v after hrun hn => ?_
      exact applyPrefixFn_delivers setting f start hn ((ih h).numbers_length_lt_of_awaiting hrun)
  | postfixed operand f ih =>
      intro start machine
      refine (ih h.2 start machine).bind_operation fun v after hrun hn => ?_
      exact applyPostfixFn_delivers setting f _ hn ((ih h.2).numbers_length_lt hrun)
  | binary left op right ihl ihr => exact performDelivers_binary (ihl h.2.2.1) (ihr h.2.2.2) op

end Expression
end PocketCalc
