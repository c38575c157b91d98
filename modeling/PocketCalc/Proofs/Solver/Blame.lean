import PocketCalc.Proofs.Solver.Pending

/-! What a fault blames. An operation blames its own key, and settling blames the command that it
has come to. A token blames itself, if not one of the operations that it settles. -/

namespace PocketCalc

/-- What may be wrong with an operation whose key has this offset. -/
inductive OperationFault (offset : Nat) : Fault → Prop where
  | missingOperand : OperationFault offset (.malformed .missingOperand offset)
  | outsideDomain : OperationFault offset (.outsideDomain offset)
  | stackFull : OperationFault offset (.stackFull offset)

/-- What may be wrong where a cell is read for a key with this offset. -/
inductive CellFault (offset : Nat) : Fault → Prop where
  | operation {fault : Fault} (h : OperationFault offset fault) : CellFault offset fault
  | noSuchCell : CellFault offset (.noSuchCell offset)

/-- What may be wrong with a pending command when it is settled. -/
def CommandFault (command : Command) (fault : Fault) : Prop :=
  if command.kind.isIndex then CellFault command.offset fault
  else OperationFault command.offset fault

/-- What may be wrong with a token. Only a variable on its own and the bracket of an index read a
cell. -/
inductive TokenFault (setting : Setting) (commands : List Command) (token : Token) :
    Fault → Prop where
  | settling {command : Command} {fault : Fault} (hmem : command ∈ commands)
    (hkind : command.kind.isIndex = false) (h : OperationFault command.offset fault) :
    TokenFault setting commands token fault
  | operation {fault : Fault} (h : OperationFault token.offset fault) :
    TokenFault setting commands token fault
  | unopened (hkind : token.kind = .closeParen) :
    TokenFault setting commands token (.malformed .unopenedParen token.offset)
  | named {name : Char} (hkind : token.kind = .named name) (hcell : setting.cell? name 0 = none) :
    TokenFault setting commands token (.noSuchCell token.offset)
  | closing {command : Command} (hkind : token.kind = .closeBracket) (hmem : command ∈ commands)
    (hindex : command.kind.isIndex = true) :
    TokenFault setting commands token (.noSuchCell token.offset)

namespace Machine

variable {α β : Type} {x : Run α} {possible other : Fault → Prop}

/-- The run comes to no other faults. -/
def Faults (x : Run α) (possible : Fault → Prop) : Prop :=
  ∀ machine fault after, x machine = .error fault after → possible fault

theorem Faults.bind {f : α → Run β} (hx : Faults x possible) (hf : ∀ a, Faults (f a) possible) :
    Faults (x >>= f) possible := by
  intro machine fault after h
  obtain h | ⟨a, next, _, h⟩ := bind_eq_error h
  · exact hx machine fault after h
  · exact hf a next fault after h

theorem Faults.mono (hx : Faults x possible) (h : ∀ fault, possible fault → other fault) :
    Faults x other :=
  fun machine fault after hrun => h fault (hx machine fault after hrun)

theorem faults_pure (a : α) : Faults (pure a : Run α) possible := by
  intro machine fault after h
  cases h

theorem faults_throw {fault : Fault} (h : possible fault) :
    Faults (throw fault : Run α) possible := by
  intro machine other after hrun
  cases hrun
  exact h

theorem faults_record (event : Event) : Faults (record event) possible := by
  intro machine fault after h
  cases h

theorem faults_recordApplied (key : Key) (offset : Nat) :
    Faults (recordApplied key offset) possible := by
  intro machine fault after h
  cases h

theorem faults_pushNumber (value : Float) (offset : Nat) :
    Faults (pushNumber value offset) (OperationFault offset) := by
  intro machine fault after h
  unfold pushNumber at h
  split at h <;> cases h
  exact .stackFull

theorem faults_pushCommand (kind : CommandKind) (offset : Nat) :
    Faults (pushCommand kind offset) (OperationFault offset) := by
  intro machine fault after h
  unfold pushCommand at h
  split at h <;> cases h
  exact .stackFull

theorem faults_popNumber (offset : Nat) :
    Faults (popNumber offset) (OperationFault offset) := by
  intro machine fault after h
  unfold popNumber at h
  split at h <;> cases h
  exact .missingOperand

theorem faults_pushResult (offset : Nat) (value? : Option Float) :
    Faults (pushResult offset value?) (OperationFault offset) := by
  cases value? with
  | none => exact faults_throw .outsideDomain
  | some value => exact faults_pushNumber value offset

theorem faults_applyOperator (op : Operator) (offset : Nat) :
    Faults (applyOperator op offset) (OperationFault offset) :=
  (faults_recordApplied _ offset).bind fun _ =>
    (faults_popNumber offset).bind fun _ =>
      (faults_popNumber offset).bind fun _ => faults_pushResult offset _

theorem faults_applyFn (key : Key) (marker : Bool) (value? : Float → Option Float)
    (offset : Nat) : Faults (applyFn key marker value? offset) (OperationFault offset) := by
  refine (faults_recordApplied key offset).bind fun _ => ?_
  cases marker with
  | true => exact faults_pure ()
  | false => exact (faults_popNumber offset).bind fun _ => faults_pushResult offset _

theorem faults_fetch (setting : Setting) (name : Char) (offset : Nat) :
    Faults (fetch setting name offset) (CellFault offset) := by
  refine ((faults_popNumber offset).mono fun _ => .operation).bind fun index => ?_
  cases setting.cell? name (Binary64.toIndex index) with
  | none => exact faults_throw .noSuchCell
  | some value =>
      refine (faults_record _).bind fun _ => ?_
      exact (faults_pushNumber value offset).mono fun _ => .operation

theorem faults_settle (setting : Setting) (command : Command) :
    Faults (settle setting command) (CommandFault command) := by
  obtain ⟨kind, offset⟩ := command
  cases kind with
  | operator op => exact faults_applyOperator op offset
  | prefixFn f => exact faults_applyFn _ _ _ offset
  | paren => exact faults_pure ()
  | index name => exact faults_fetch setting name offset

variable {setting : Setting} {stays : CommandKind → Bool} {machine after : Machine} {fault : Fault}

/-- Settling fails at a command that was not to stay. -/
theorem settleUntil_eq_error (h : settleUntil setting stays machine = .error fault after) :
    ∃ command ∈ machine.commands, stays command.kind = false ∧ CommandFault command fault := by
  induction hc : machine.commands generalizing machine with
  | nil =>
      rw [settleUntil_of_commands_nil hc] at h
      cases h
  | cons command below ih =>
      by_cases hs : stays command.kind = true
      · rw [settleUntil_of_top_stays hc hs] at h
        cases h
      · simp only [Bool.not_eq_true] at hs
        rw [settleUntil_of_not_stays hc hs] at h
        obtain h | ⟨_, settled, hsettle, h⟩ := bind_eq_error h
        · exact ⟨command, List.mem_cons_self, hs, faults_settle setting command _ _ _ h⟩
        · have hbelow := keepsCommands_settle setting command _ _ settled hsettle
          obtain ⟨other, hother, hfault⟩ := ih h hbelow
          exact ⟨other, List.mem_cons_of_mem command hother, hfault⟩

/-- Where indices stay open, settling fails at an operation. -/
theorem operationFault_of_settleUntil
    (hstays : ∀ kind : CommandKind, kind.isIndex = true → stays kind = true)
    (h : settleUntil setting stays machine = .error fault after) :
    ∃ command ∈ machine.commands, command.kind.isIndex = false ∧
      OperationFault command.offset fault := by
  obtain ⟨command, hmem, hs, hfault⟩ := settleUntil_eq_error h
  have hkind : command.kind.isIndex = false := by
    rw [Bool.eq_false_iff]
    intro hindex
    rw [hstays _ hindex] at hs
    cases hs
  rw [CommandFault, if_neg (by simp [hkind])] at hfault
  exact ⟨command, hmem, hkind, hfault⟩

/-- A bracket fails where a command above the index does, or where the cell of the index is read. -/
theorem tokenFault_of_closeBracket {offset : Nat}
    (h : closeBracket setting offset machine = .error fault after) :
    TokenFault setting machine.commands ⟨.closeBracket, offset⟩ fault := by
  obtain hsettle | ⟨settled, name, opener, below, hsettle, hcommands, hfetch⟩ :=
    closeBracket_eq_error h
  · obtain ⟨command, hmem, hkind, hfault⟩ := operationFault_of_settleUntil (fun _ => id) hsettle
    exact .settling hmem hkind hfault
  · cases faults_fetch setting name offset _ _ _ hfetch with
    | operation hfault => exact .operation hfault
    | noSuchCell =>
        have hbelow : settled.commands <:+ machine.commands := by
          rw [commands_of_settleUntil hsettle]
          exact List.dropWhile_suffix _
        rw [hcommands] at hbelow
        exact .closing rfl (hbelow.mem List.mem_cons_self) rfl

/-- What is wrong when a token cannot be taken. -/
theorem take_eq_error {token : Token} (h : take setting token machine = .error fault after) :
    TokenFault setting machine.commands token fault := by
  obtain ⟨kind, offset⟩ := token
  cases kind with
  | number value =>
      obtain hpush | ⟨_, _, _, hpure⟩ := bind_eq_error h
      · exact .operation (faults_pushNumber value offset _ _ _ hpush)
      · cases hpure
  | named name =>
      cases hcell : setting.cell? name 0 with
      | none =>
          rw [take_named_of_none hcell] at h
          cases h
          exact .named rfl hcell
      | some value =>
          rw [take_named_of_some hcell] at h
          obtain hpush | ⟨_, _, _, hpure⟩ := bind_eq_error h
          · exact .operation (faults_pushNumber value offset _ _ _ hpush)
          · cases hpure
  | indexed | prefixFn | openParen =>
      obtain hpush | ⟨_, _, _, hpure⟩ := bind_eq_error h
      · exact .operation (faults_pushCommand _ offset _ _ _ hpush)
      · cases hpure
  | operator op =>
      obtain hsettle | ⟨_, _, _, hrest⟩ := bind_eq_error h
      · obtain ⟨command, hmem, hkind, hfault⟩ := operationFault_of_settleUntil
          (fun _ hindex => CommandKind.bindsLessThan_of_isIndex hindex op.precedence) hsettle
        exact .settling hmem hkind hfault
      · obtain hpush | ⟨_, _, _, hpure⟩ := bind_eq_error hrest
        · exact .operation (faults_pushCommand _ offset _ _ _ hpush)
        · cases hpure
  | postfixFn f =>
      obtain hsettle | ⟨_, _, _, hrest⟩ := bind_eq_error h
      · obtain ⟨command, hmem, hkind, hfault⟩ := operationFault_of_settleUntil
          (fun _ hindex => CommandKind.bindsLessThan_of_isIndex hindex f.precedence) hsettle
        exact .settling hmem hkind hfault
      · obtain happly | ⟨_, _, _, hpure⟩ := bind_eq_error hrest
        · exact .operation (faults_applyFn _ _ _ offset _ _ _ happly)
        · cases hpure
  | closeParen =>
      obtain hclose | ⟨_, _, _, hpure⟩ := bind_eq_error h
      · obtain hsettle | ⟨_, _, rfl, _⟩ := closeParen_eq_error hclose
        · obtain ⟨command, hmem, hkind, hfault⟩ :=
            operationFault_of_settleUntil (fun _ => CommandKind.isOpener_of_isIndex) hsettle
          exact .settling hmem hkind hfault
        · exact .unopened rfl
      · cases hpure
  | closeBracket => exact tokenFault_of_closeBracket h
  | lineEnd | foreign => cases h

/-- What is wrong when an expression cannot be finished: a command that is still pending fails, or
there is nothing on the stack. -/
theorem finish_eq_error {stop : Nat} (h : finish setting stop machine = .error fault after) :
    (∃ command ∈ machine.commands, CommandFault command fault) ∨ fault = .nothingToSolve stop := by
  obtain hsettle | ⟨_, settled, _, hconclude⟩ := bind_eq_error h
  · obtain ⟨command, hmem, _, hfault⟩ := settleUntil_eq_error hsettle
    exact .inl ⟨command, hmem, hfault⟩
  · cases hn : settled.numbers with
    | nil =>
        rw [conclude_of_numbers_nil hn] at hconclude
        cases hconclude
        exact .inr rfl
    | cons value below =>
        rw [conclude_of_numbers hn] at hconclude
        cases hconclude

end Machine
end PocketCalc
