import PocketCalc.Proofs.Solver.Equations

/-! Room on the stack of numbers. Whatever is applied takes its operands off the stack before its
result goes there, and an index goes before the value of its cell. So a result always finds room,
and only a number that stands in the line itself can be one too many. -/

namespace PocketCalc

/-- There are operands to which the key cannot be applied. -/
def Key.isPartial : Key → Bool
  | .operator .divide | .prefixFn .squareRoot | .prefixFn .log | .prefixFn .ln
  | .postfixFn .reciprocal | .postfixFn .factorial => true
  | _ => false

/-- A cell is read at the key. -/
def Key.readsCell : Key → Bool
  | .letter _ | .closeBracket => true
  | _ => false

/-- The key for which a command is pending. -/
def CommandKind.key : CommandKind → Key
  | operator op => .operator op
  | prefixFn f => .prefixFn f
  | paren => .openParen
  | index name => .letter name

/-- What may be wrong where a key is applied or a cell is read for it. -/
inductive ApplyFault (key : Key) (offset : Nat) : Fault → Prop where
  | missingOperand : ApplyFault key offset (.malformed .missingOperand offset)
  | outsideDomain (h : key.isPartial = true) : ApplyFault key offset (.outsideDomain offset)
  | noSuchCell (h : key.readsCell = true) : ApplyFault key offset (.noSuchCell offset)

theorem Operator.isPartial_of_value? {op : Operator} {a b : Float} (h : op.value? a b = none) :
    (Key.operator op).isPartial = true := by
  cases op with
  | divide => rfl
  | _ => cases h

theorem PrefixFn.isPartial_of_value? {f : PrefixFn} {unit : AngleUnit} {x : Float}
    (h : f.value? unit x = none) : (Key.prefixFn f).isPartial = true := by
  cases f with
  | squareRoot | log | ln => rfl
  | _ => cases h

theorem PostfixFn.isPartial_of_value? {f : PostfixFn} {unit : AngleUnit} {x : Float}
    (h : f.value? unit x = none) : (Key.postfixFn f).isPartial = true := by
  cases f with
  | reciprocal | factorial => rfl
  | _ => cases h

namespace Machine

variable {α β : Type} {allowed : Command → Prop} {room mid left : Nat} {x : Run α}
  {possible other : Fault → Machine → Prop}

/-- There is room for so many numbers, and only allowed commands are pending. -/
structure HasRoom (allowed : Command → Prop) (room : Nat) (machine : Machine) : Prop where
  allowed : ∀ command ∈ machine.commands, allowed command
  numbers_le : machine.numbers.length + room ≤ numberLimit

theorem HasRoom.length_le {machine : Machine} (h : HasRoom allowed room machine) :
    machine.numbers.length ≤ numberLimit :=
  Nat.le_of_add_right_le h.numbers_le

theorem HasRoom.below {machine : Machine} {command : Command} {below : List Command}
    (h : HasRoom allowed room machine) (hcommands : machine.commands = command :: below) :
    allowed command ∧ HasRoom allowed room { machine with commands := below } := by
  have hallowed := h.allowed
  rw [hcommands] at hallowed
  obtain ⟨htop, hbelow⟩ := List.forall_mem_cons.mp hallowed
  exact ⟨htop, hbelow, h.numbers_le⟩

/-- With room for so many numbers the run leaves room for that many, if it does not end in one of
the faults that are possible. There are never more numbers than the stack holds. -/
def Spares (allowed : Command → Prop) (room left : Nat) (x : Run α)
    (possible : Fault → Machine → Prop) : Prop :=
  ∀ machine, HasRoom allowed room machine →
    (∀ a after, x machine = .ok a after → HasRoom allowed left after) ∧
      ∀ fault after, x machine = .error fault after →
        possible fault after ∧ after.numbers.length ≤ numberLimit

/-- The second run only has to do with what the first one can give. -/
theorem Spares.bind_of_ok {f : α → Run β} (hx : Spares allowed room mid x possible)
    (hf : ∀ machine a next, x machine = .ok a next → Spares allowed mid left (f a) possible) :
    Spares allowed room left (x >>= f) possible := by
  intro machine hroom
  obtain ⟨hok, herror⟩ := hx machine hroom
  constructor
  · intro b after h
    obtain ⟨a, next, hnext, hrest⟩ := bind_eq_ok h
    exact (hf machine a next hnext next (hok a next hnext)).1 b after hrest
  · intro fault after h
    obtain h | ⟨a, next, hnext, hrest⟩ := bind_eq_error h
    · exact herror fault after h
    · exact (hf machine a next hnext next (hok a next hnext)).2 fault after hrest

theorem Spares.bind {f : α → Run β} (hx : Spares allowed room mid x possible)
    (hf : ∀ a, Spares allowed mid left (f a) possible) :
    Spares allowed room left (x >>= f) possible :=
  hx.bind_of_ok fun _ a _ _ => hf a

theorem Spares.mono (hx : Spares allowed room left x possible)
    (h : ∀ fault machine, possible fault machine → other fault machine) :
    Spares allowed room left x other :=
  fun machine hroom => ⟨(hx machine hroom).1, fun fault after hfault =>
    ((hx machine hroom).2 fault after hfault).imp_left (h fault after)⟩

/-- Room that is left over need not be counted. -/
theorem Spares.weaken (hx : Spares allowed room mid x possible) (h : left ≤ mid) :
    Spares allowed room left x possible := by
  intro machine hroom
  obtain ⟨hok, herror⟩ := hx machine hroom
  refine ⟨fun a after hafter => ?_, herror⟩
  obtain ⟨hallowed, hnumbers⟩ := hok a after hafter
  exact ⟨hallowed, by omega⟩

theorem spares_pure (a : α) : Spares allowed room room (pure a : Run α) possible := by
  refine fun machine hroom => ⟨fun b after h => ?_, fun fault after h => ?_⟩
  · cases h
    exact hroom
  · cases h

theorem spares_throw {fault : Fault} (h : ∀ machine, possible fault machine) :
    Spares allowed room left (throw fault : Run α) possible := by
  refine fun machine hroom => ⟨fun a after hrun => ?_, fun other after hrun => ?_⟩
  · cases hrun
  · cases hrun
    exact ⟨h _, hroom.length_le⟩

theorem spares_record (event : Event) : Spares allowed room room (record event) possible := by
  refine fun machine hroom => ⟨fun a after h => ?_, fun fault after h => ?_⟩
  · cases h
    exact ⟨hroom.allowed, hroom.numbers_le⟩
  · cases h

theorem spares_recordApplied (key : Key) (offset : Nat) :
    Spares allowed room room (recordApplied key offset) possible := by
  refine fun machine hroom => ⟨fun a after h => ?_, fun fault after h => ?_⟩
  · cases h
    exact ⟨hroom.allowed, hroom.numbers_le⟩
  · cases h

theorem spares_popNumber {offset : Nat}
    (h : ∀ machine, possible (.malformed .missingOperand offset) machine) :
    Spares allowed room (room + 1) (popNumber offset) possible := by
  intro machine hroom
  obtain ⟨hallowed, hnumbers⟩ := hroom
  unfold popNumber
  cases htop : machine.numbers with
  | nil =>
      refine ⟨fun a after hrun => ?_, fun fault after hrun => ?_⟩
      · cases hrun
      · cases hrun
        exact ⟨h _, Nat.le_of_add_right_le hnumbers⟩
  | cons value below =>
      refine ⟨fun a after hrun => ?_, fun fault after hrun => ?_⟩
      · cases hrun
        rw [htop, List.length_cons] at hnumbers
        exact ⟨hallowed, by simpa only [Nat.add_assoc, Nat.add_comm 1] using hnumbers⟩
      · cases hrun

/-- A number fits where there is room for it. -/
theorem spares_pushNumber (value : Float) (offset : Nat) :
    Spares allowed (room + 1) room (pushNumber value offset) possible := by
  intro machine hroom
  obtain ⟨hallowed, hnumbers⟩ := hroom
  have hfits : machine.numbers.length < numberLimit := by omega
  unfold pushNumber
  rw [if_pos hfits]
  refine ⟨fun a after hrun => ?_, fun fault after hrun => ?_⟩
  · cases hrun
    exact ⟨hallowed, by simpa only [List.length_cons, Nat.add_assoc, Nat.add_comm 1] using hnumbers⟩
  · cases hrun

variable {key : Key} {offset : Nat}

theorem spares_pushResult {value? : Option Float} (h : value? = none → key.isPartial = true) :
    Spares allowed (room + 1) room (pushResult offset value?)
      fun fault _ => ApplyFault key offset fault := by
  cases value? with
  | none => exact spares_throw fun _ => .outsideDomain (h rfl)
  | some value => exact spares_pushNumber value offset

/-- The result of an operator finds room. -/
theorem spares_applyOperator (op : Operator) (offset : Nat) :
    Spares allowed 0 0 (applyOperator op offset)
      fun fault _ => ApplyFault (.operator op) offset fault := by
  refine Spares.weaken ?_ (Nat.zero_le 1)
  exact (spares_recordApplied _ offset).bind fun _ =>
    (spares_popNumber fun _ => .missingOperand).bind fun _ =>
      (spares_popNumber fun _ => .missingOperand).bind fun _ =>
        spares_pushResult Operator.isPartial_of_value?

/-- The result of a function finds room. -/
theorem spares_applyFn {marker : Bool} {value? : Float → Option Float}
    (h : ∀ x, value? x = none → key.isPartial = true) (offset : Nat) :
    Spares allowed 0 0 (applyFn key marker value? offset)
      fun fault _ => ApplyFault key offset fault := by
  refine (spares_recordApplied key offset).bind fun _ => ?_
  cases marker with
  | true => exact spares_pure ()
  | false =>
      exact (spares_popNumber fun _ => .missingOperand).bind fun x => spares_pushResult (h x)

/-- The value of a cell finds room in the place of its index. -/
theorem spares_fetch (setting : Setting) (name : Char) (h : key.readsCell = true) (offset : Nat) :
    Spares allowed 0 0 (fetch setting name offset)
      fun fault _ => ApplyFault key offset fault := by
  refine (spares_popNumber fun _ => .missingOperand).bind fun index => ?_
  cases setting.cell? name (Binary64.toIndex index) with
  | none => exact spares_throw fun _ => .noSuchCell h
  | some value => exact (spares_record _).bind fun _ => spares_pushNumber value offset

theorem spares_settle (setting : Setting) (command : Command) :
    Spares allowed 0 0 (settle setting command)
      fun fault _ => ApplyFault command.kind.key command.offset fault := by
  obtain ⟨kind, offset⟩ := command
  cases kind with
  | operator op => exact spares_applyOperator op offset
  | prefixFn f => exact spares_applyFn (fun _ => PrefixFn.isPartial_of_value?) offset
  | paren => exact spares_pure ()
  | index name => exact spares_fetch setting name rfl offset

/-- Within the limit, a run that has no such fault is not stopped for want of room. -/
theorem Spares.ne_stackFull {machine after : Machine} {place : Nat}
    (hx : Spares (fun _ => True) 0 0 x fun fault _ => ApplyFault key place fault)
    (h : machine.numbers.length ≤ numberLimit) :
    x machine ≠ .error (.stackFull offset) after := by
  intro hrun
  cases ((hx machine ⟨fun _ _ => trivial, h⟩).2 _ after hrun).1

/-- Neither the result of an operation nor the value of a cell is ever one number too many. -/
theorem apply_ne_stackFull (setting : Setting) {machine : Machine}
    (h : machine.numbers.length ≤ numberLimit) (offset : Nat) (after : Machine) :
    (∀ command, settle setting command machine ≠ .error (.stackFull offset) after) ∧
      (∀ f place, applyPostfixFn setting f place machine ≠ .error (.stackFull offset) after) ∧
      ∀ name place, fetch setting name place machine ≠ .error (.stackFull offset) after := by
  have hreads : Key.closeBracket.readsCell = true := rfl
  refine ⟨fun command => ?_, fun f place => ?_, fun name place => ?_⟩
  · exact (spares_settle setting command).ne_stackFull h
  · exact (spares_applyFn (fun _ => PostfixFn.isPartial_of_value?) place).ne_stackFull h
  · exact (spares_fetch setting name hreads place).ne_stackFull h

/-- Settling comes to the faults of the commands that are allowed. -/
theorem spares_settleUntil (setting : Setting) (stays : CommandKind → Bool) :
    Spares allowed 0 0 (settleUntil setting stays)
      fun fault _ => ∃ command, allowed command ∧
        ApplyFault command.kind.key command.offset fault := by
  intro machine hroom
  induction hc : machine.commands generalizing machine with
  | nil =>
      rw [settleUntil_of_commands_nil hc]
      exact spares_pure () machine hroom
  | cons command below ih =>
      by_cases hs : stays command.kind = true
      · rw [settleUntil_of_top_stays hc hs]
        exact spares_pure () machine hroom
      · simp only [Bool.not_eq_true] at hs
        rw [settleUntil_of_not_stays hc hs]
        obtain ⟨hcommand, hbelow⟩ := hroom.below hc
        obtain ⟨hok, herror⟩ := spares_settle setting command _ hbelow
        constructor
        · intro u after h
          obtain ⟨_, settled, hsettle, hrest⟩ := bind_eq_ok h
          have hkept := keepsCommands_settle setting command _ _ settled hsettle
          exact (ih settled (hok _ settled hsettle) hkept).1 u after hrest
        · intro fault after h
          obtain hsettle | ⟨_, settled, hsettle, hrest⟩ := bind_eq_error h
          · exact (herror fault after hsettle).imp_left fun h => ⟨command, hcommand, h⟩
          · have hkept := keepsCommands_settle setting command _ _ settled hsettle
            exact (ih settled (hok _ settled hsettle) hkept).2 fault after hrest

end Machine
end PocketCalc
