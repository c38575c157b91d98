import Mathlib.Data.List.Forall2
import PocketCalc.Proofs.Event.Entry
import PocketCalc.Proofs.Key.Longest
import PocketCalc.Proofs.Solver.Outcome

/-! Which keys are applied. The key of an operator, or of a function before its operand, waits among
the commands until it is settled, and is applied then; a function after its operand is applied at
once. So the keys that have been applied and those that wait are together the ones that have been
taken, and at the end of an expression none is waiting. -/

namespace PocketCalc

namespace TokenKind

def isNamed : TokenKind → Bool
  | named _ => true
  | _ => false

theorem surplus_add_isOperator (kind : TokenKind) :
    kind.surplus + (if kind.isOperator then 1 else 0 : Nat) =
      (if kind.isNumber then 1 else 0 : Nat) + (if kind.isNamed then 1 else 0 : Nat) := by
  cases kind <;> rfl

end TokenKind

/-- The key of an operator or a function, with its offset. -/
def Token.operation? (token : Token) : Option (Key × Nat) :=
  token.kind.key?.map fun key => (key, token.offset)

/-- The key of a pending operator or function, with its offset. -/
def Command.operation? (command : Command) : Option (Key × Nat) :=
  match command.kind with
  | .operator op => some (.operator op, command.offset)
  | .prefixFn f => some (.prefixFn f, command.offset)
  | .paren | .index _ => none

/-- The key that is applied, with its offset. -/
def Event.applied? : Event → Option (Key × Nat)
  | .applied key offset _ => some (key, offset)
  | _ => none

/-- The numbers that are left when the operators have been applied are the operands that are a token
on their own, but for one for each operator. -/
theorem surplus_eq_countP (tokens : List Token) :
    surplus tokens + tokens.countP (fun token => token.kind.isOperator) =
      tokens.countP (fun token => token.kind.isNumber) +
        tokens.countP (fun token => token.kind.isNamed) := by
  induction tokens with
  | nil => rfl
  | cons token rest ih =>
      have hkind := token.kind.surplus_add_isOperator
      simp only [surplus_cons, List.countP_cons]
      omega

namespace Machine

variable {α β : Type} {x : Run α} {setting : Setting} {stays : CommandKind → Bool}
  {machine after start : Machine}

/-- The operations that have been applied, the latest first. -/
def applied (machine : Machine) : List (Key × Nat) := machine.events.filterMap Event.applied?

/-- The operations that wait among the commands, the innermost first. -/
def pending (commands : List Command) : List (Key × Nat) := commands.filterMap Command.operation?

/-! ## What a run applies -/

/-- Where the run succeeds, it has applied these operations, the latest first. -/
def Applies (x : Run α) (operations : List (Key × Nat)) : Prop :=
  ∀ machine a after, x machine = .ok a after → after.applied = operations ++ machine.applied

theorem Applies.bind {f : α → Run β} {operations : List (Key × Nat)}
    (hx : Applies x operations) (hf : ∀ a, Applies (f a) []) :
    Applies (x >>= f) operations := by
  intro machine b after h
  obtain ⟨a, next, hnext, hafter⟩ := bind_eq_ok h
  rw [hf a next b after hafter, List.nil_append, hx machine a next hnext]

theorem applies_pure (a : α) : Applies (pure a : Run α) [] := by
  intro machine b after h
  cases h
  rfl

theorem applies_throw (fault : Fault) : Applies (throw fault : Run α) [] := by
  intro machine b after h
  cases h

theorem applies_record {event : Event} (h : event.applied? = none) :
    Applies (record event) [] := by
  intro machine a after hrun
  cases hrun
  exact List.filterMap_cons_none h

theorem applies_recordApplied (key : Key) (offset : Nat) :
    Applies (recordApplied key offset) [(key, offset)] := by
  intro machine a after h
  cases h
  rfl

theorem applies_pushNumber (value : Float) (offset : Nat) :
    Applies (pushNumber value offset) [] := by
  intro machine a after h
  unfold pushNumber at h
  split at h <;> cases h
  rfl

theorem applies_popNumber (offset : Nat) : Applies (popNumber offset) [] := by
  intro machine a after h
  unfold popNumber at h
  split at h <;> cases h
  rfl

theorem applies_pushCommand (kind : CommandKind) (offset : Nat) :
    Applies (pushCommand kind offset) [] := by
  intro machine a after h
  unfold pushCommand at h
  split at h <;> cases h
  rfl

theorem applies_pushResult (offset : Nat) (value? : Option Float) :
    Applies (pushResult offset value?) [] := by
  cases value? with
  | none => exact applies_throw _
  | some value => exact applies_pushNumber value offset

theorem applies_applyOperator (op : Operator) (offset : Nat) :
    Applies (applyOperator op offset) [(.operator op, offset)] :=
  (applies_recordApplied _ offset).bind fun _ =>
    (applies_popNumber offset).bind fun _ =>
      (applies_popNumber offset).bind fun _ => applies_pushResult offset _

/-- A marker is applied as well, though it changes nothing. -/
theorem applies_applyFn (key : Key) (marker : Bool) (value? : Float → Option Float)
    (offset : Nat) : Applies (applyFn key marker value? offset) [(key, offset)] := by
  refine (applies_recordApplied key offset).bind fun _ => ?_
  cases marker with
  | true => exact applies_pure ()
  | false => exact (applies_popNumber offset).bind fun _ => applies_pushResult offset _

theorem applies_fetch (setting : Setting) (name : Char) (offset : Nat) :
    Applies (fetch setting name offset) [] := by
  refine (applies_popNumber offset).bind fun index => ?_
  cases setting.cell? name (Binary64.toIndex index) with
  | none => exact applies_throw _
  | some value => exact (applies_record rfl).bind fun _ => applies_pushNumber value offset

theorem applies_settle (setting : Setting) (command : Command) :
    Applies (settle setting command) command.operation?.toList := by
  obtain ⟨kind, offset⟩ := command
  cases kind with
  | operator op => exact applies_applyOperator op offset
  | prefixFn f => exact applies_applyFn _ _ _ offset
  | paren => exact applies_pure ()
  | index name => exact applies_fetch setting name offset

/-! ## What has been applied and what waits -/

/-- The operations that have been taken: those that have been applied, and those that wait. -/
def operations (machine : Machine) : List (Key × Nat) :=
  machine.applied ++ pending machine.commands

theorem pending_cons (command : Command) (below : List Command) :
    pending (command :: below) = command.operation?.toList ++ pending below := by
  cases hoperation : command.operation? <;> simp [pending, hoperation]

/-- Where the run succeeds, it has taken these operations beside the ones before. None of those is
lost, and none is repeated. -/
def Brings (x : Run α) (brought : List (Key × Nat)) : Prop :=
  ∀ machine a after, x machine = .ok a after →
    after.operations.Perm (brought ++ machine.operations)

variable {brought : List (Key × Nat)}

theorem Applies.brings (h : Applies x brought) (hk : KeepsCommands x) : Brings x brought := by
  intro machine a after hrun
  rw [operations, h machine a after hrun, hk machine a after hrun, List.append_assoc]
  exact .refl _

/-- A run that brings nothing may come before another one. -/
theorem Brings.bind {f : α → Run β} (hx : Brings x []) (hf : ∀ a, Brings (f a) brought) :
    Brings (x >>= f) brought := by
  intro machine b after h
  obtain ⟨a, next, hnext, hafter⟩ := bind_eq_ok h
  exact (hf a next b after hafter).trans ((hx machine a next hnext).append_left brought)

/-- What a run tells is no matter to the operations. -/
theorem Brings.bind_pure (hx : Brings x brought) (b : β) :
    Brings (x >>= fun _ => pure b) brought := by
  intro machine c after h
  obtain ⟨a, next, hnext, hpure⟩ := bind_eq_ok h
  cases hpure
  exact hx machine a _ hnext

theorem brings_pushNumber (value : Float) (offset : Nat) : Brings (pushNumber value offset) [] :=
  (applies_pushNumber value offset).brings (keepsCommands_pushNumber value offset)

theorem brings_applyPostfixFn (setting : Setting) (f : PostfixFn) (offset : Nat) :
    Brings (applyPostfixFn setting f offset) [(.postfixFn f, offset)] :=
  (applies_applyFn _ _ _ offset).brings (keepsCommands_applyPostfixFn setting f offset)

theorem brings_fetch (setting : Setting) (name : Char) (offset : Nat) :
    Brings (fetch setting name offset) [] :=
  (applies_fetch setting name offset).brings (keepsCommands_fetch setting name offset)

theorem brings_pushCommand (kind : CommandKind) (offset : Nat) :
    Brings (pushCommand kind offset) (Command.operation? ⟨kind, offset⟩).toList := by
  intro machine a after h
  rw [operations, applies_pushCommand kind offset _ _ _ h, commands_of_pushCommand h, pending_cons]
  exact List.perm_append_comm_assoc _ _ _

/-- What has been waiting is applied when it is settled. -/
theorem brings_settleUntil (setting : Setting) (stays : CommandKind → Bool) :
    Brings (settleUntil setting stays) [] := by
  intro machine _ after h
  refine settleUntil_induction (fun machine _ => .refl _) ?_ h
  intro machine settled after command below hc _ hsettle hbelow ih
  have happlied := applies_settle setting command _ _ settled hsettle
  have hsettled : settled.operations =
      command.operation?.toList ++ (machine.applied ++ pending below) := by
    rw [operations, happlied, hbelow, List.append_assoc]
    rfl
  have hbefore : machine.operations =
      machine.applied ++ (command.operation?.toList ++ pending below) := by
    rw [operations, hc, pending_cons]
  refine ih.trans ?_
  rw [List.nil_append, List.nil_append, hsettled, hbefore]
  exact List.perm_append_comm_assoc _ _ _

theorem brings_closeParen (setting : Setting) (offset : Nat) :
    Brings (closeParen setting offset) [] := by
  intro machine _ after h
  obtain ⟨settled, opener, below, hsettle, hcommands, rfl⟩ := closeParen_eq_ok h
  have hopen : settled.operations = settled.applied ++ pending below := by
    rw [operations, hcommands]
    rfl
  have hsettled := brings_settleUntil setting _ machine _ settled hsettle
  rwa [hopen] at hsettled

theorem brings_closeBracket (setting : Setting) (offset : Nat) :
    Brings (closeBracket setting offset) [] := by
  intro machine _ after h
  obtain ⟨_, settled, name, opener, below, hsettle, hcommands, hfetch⟩ | ⟨_, hsettle, _⟩ :=
    closeBracket_eq_ok h
  · have hopen : settled.operations = settled.applied ++ pending below := by
      rw [operations, hcommands]
      rfl
    have hsettled := brings_settleUntil setting _ machine _ settled hsettle
    rw [hopen] at hsettled
    exact (brings_fetch setting name offset _ _ _ hfetch).trans hsettled
  · exact brings_settleUntil setting _ machine _ after hsettle

/-- A token brings its own operation, if it has one. -/
theorem brings_take (setting : Setting) (token : Token) :
    Brings (take setting token) token.operation?.toList := by
  obtain ⟨kind, offset⟩ := token
  cases kind with
  | number value => exact (brings_pushNumber value offset).bind_pure true
  | named name =>
      intro machine goesOn after h
      obtain ⟨value, _, hnumber⟩ := take_named_eq_ok h
      exact (brings_pushNumber value offset).bind_pure true _ _ _ hnumber
  | indexed name => exact (brings_pushCommand (.index name) offset).bind_pure true
  | prefixFn f => exact (brings_pushCommand (.prefixFn f) offset).bind_pure true
  | openParen => exact (brings_pushCommand .paren offset).bind_pure true
  | operator op =>
      exact (brings_settleUntil setting _).bind fun _ =>
        (brings_pushCommand (.operator op) offset).bind_pure true
  | postfixFn f =>
      exact (brings_settleUntil setting _).bind fun _ =>
        (brings_applyPostfixFn setting f offset).bind_pure true
  | closeParen => exact (brings_closeParen setting offset).bind_pure true
  | closeBracket => exact brings_closeBracket setting offset
  | lineEnd | foreign =>
      intro machine _ after h
      cases h
      exact .refl _

/-- The operations that have been taken are those of the tokens. -/
theorem Takes.operations_perm {tokens : List Token} (h : Takes setting start tokens machine) :
    machine.operations.Perm (tokens.filterMap Token.operation? ++ start.operations) := by
  induction h with
  | nil => exact .refl _
  | @snoc tokens token machine after _ _ htake ih =>
      have hlast : [token].filterMap Token.operation? = token.operation?.toList := by
        cases hoperation : token.operation? <;> simp [hoperation]
      rw [List.filterMap_append, hlast, List.append_assoc]
      refine (brings_take setting token _ _ _ htake).trans ?_
      exact (ih.append_left _).trans (List.perm_append_comm_assoc _ _ _)

variable {keys : List Key} {offset stop : Nat} {value : Float}

/-- A value is found when all the operations before the end have been applied. -/
theorem applied_of_solve (h : solve setting offset keys {} = .ok (value, stop) after) :
    after.applied.Perm ((tokensBefore offset keys stop).filterMap Token.operation?) := by
  obtain ⟨next, settled, below, last, htaken, _, _, hsettle, _, rfl⟩ := solve_eq_ok h
  have hnone : settled.operations = settled.applied := by
    rw [operations, commands_of_settleUntil_never hsettle]
    exact List.append_nil _
  have hsettled := brings_settleUntil setting _ next _ settled hsettle
  rw [hnone] at hsettled
  have htokens := htaken.operations_perm
  rw [show (started offset keys).operations = [] from rfl, List.append_nil] at htokens
  exact hsettled.trans htokens

/-- The numbers that are left are as many as the operands that are a token on their own, but for one
for each operator. -/
theorem numbers_add_operators_of_solve
    (h : solve setting offset keys {} = .ok (value, stop) after) :
    after.numbers.length +
        (tokensBefore offset keys stop).countP (fun token => token.kind.isOperator) =
      (tokensBefore offset keys stop).countP (fun token => token.kind.isNumber) +
        (tokensBefore offset keys stop).countP (fun token => token.kind.isNamed) := by
  obtain ⟨next, settled, below, last, htaken, _, _, hsettle, _, rfl⟩ := solve_eq_ok h
  have hspare : next.surplus = settled.numbers.length := surplus_of_settleUntil_never hsettle
  have htokens : next.surplus = 0 + PocketCalc.surplus (tokensBefore offset keys stop) :=
    htaken.surplus_eq
  have hcount := surplus_eq_countP (tokensBefore offset keys stop)
  change settled.numbers.length + _ = _
  omega

end Machine

/-- The tokens of a row have offsets of their own, and so have their operations. -/
theorem nodup_operations_tokensBefore (start : Nat) (keys : List Key) (stop : Nat) :
    ((tokensBefore start keys stop).filterMap Token.operation?).Nodup := by
  have hrow : (tokensBefore start keys stop).Pairwise
      fun first second => first.offset < second.offset :=
    (List.pairwise_append.mp (pairwise_offset_tokenize start keys)).1.sublist
      (List.takeWhile_sublist _)
  refine hrow.filterMap _ fun first second hlt operation hfirst other hsecond => ?_
  obtain ⟨key, _, rfl⟩ := Option.map_eq_some_iff.mp hfirst
  obtain ⟨otherKey, _, rfl⟩ := Option.map_eq_some_iff.mp hsecond
  exact fun heq => Nat.ne_of_lt hlt (congrArg Prod.snd heq)

/-! ## What the log says -/

/-- The entry names the key that is applied, and its offset. -/
def NotesApplication (entry : String) (operation : Key × Nat) : Prop :=
  ∃ operands : Nat, entry = "TRACE apply '" ++ operation.1.label ++ "' at " ++
    toString operation.2 ++ ", " ++ toString operands ++ " operand(s) on stack"

theorem entry_applied (key : Key) (offset operands : Nat) :
    (Event.applied key offset operands).entry = "TRACE apply '" ++ key.label ++ "' at " ++
      toString offset ++ ", " ++ toString operands ++ " operand(s) on stack" := by
  rw [← String.toList_inj, Event.toList_entry_applied]
  simp

/-- The text of an entry tells the operation from all others of which the keys have a key cap. -/
theorem NotesApplication.unique {entry : String} {operation other : Key × Nat}
    (h : NotesApplication entry operation) (hother : NotesApplication entry other)
    (hcap : operation.1.HasCap) (hcap' : other.1.HasCap) : operation = other := by
  obtain ⟨operands, rfl⟩ := h
  obtain ⟨operands', hentry⟩ := hother
  rw [← entry_applied, ← entry_applied] at hentry
  obtain ⟨_, hparts⟩ := Event.parts_eq_of_entry hentry
  simp only [Event.parts, List.cons.injEq] at hparts
  obtain ⟨hlabel, hoffset, _⟩ := hparts
  exact Prod.ext (Key.eq_of_label_eq hcap hcap' hlabel) (Decimal.toString_injective hoffset)

/-- Of each operation in a log there is one entry, in the same order. -/
theorem notesApplication_entries (log : List Event) :
    List.Forall₂ NotesApplication ((log.map Event.entry).filter EventKind.applied.fits)
      (log.filterMap Event.applied?) := by
  rw [filter_map_entry]
  induction log with
  | nil => exact .nil
  | cons event log ih =>
      cases event with
      | applied key offset operands => exact .cons ⟨operands, entry_applied _ _ _⟩ ih
      | _ => exact ih

theorem exists_related_of_mem {α β : Type} {related : α → β → Prop} {xs : List α} {ys : List β}
    (h : List.Forall₂ related xs ys) {x : α} (hx : x ∈ xs) : ∃ y ∈ ys, related x y := by
  induction h with
  | nil => cases hx
  | @cons first y xs ys hfirst _ ih =>
      rcases List.mem_cons.mp hx with rfl | hx
      · exact ⟨y, List.mem_cons_self, hfirst⟩
      · obtain ⟨z, hz, hrelated⟩ := ih hx
        exact ⟨z, List.mem_cons_of_mem y hz, hrelated⟩

/-- Where each member of a row is related to one of the other row only, and these are all different,
the members are different as well. -/
theorem nodup_of_forall₂ {α β : Type} {related : α → β → Prop} {xs : List α} {ys : List β}
    (h : List.Forall₂ related xs ys) (hnodup : ys.Nodup)
    (hunique : ∀ x, ∀ y ∈ ys, ∀ other ∈ ys, related x y → related x other → y = other) :
    xs.Nodup := by
  induction h with
  | nil => exact .nil
  | @cons x y xs ys hxy hrest ih =>
      obtain ⟨hfresh, hnodup⟩ := List.nodup_cons.mp hnodup
      refine List.nodup_cons.mpr ⟨fun hmem => ?_, ih hnodup fun x y hy other hother =>
        hunique x y (List.mem_cons_of_mem _ hy) other (List.mem_cons_of_mem _ hother)⟩
      obtain ⟨other, hother, hrelated⟩ := exists_related_of_mem hrest hmem
      have hsame :=
        hunique x y List.mem_cons_self other (List.mem_cons_of_mem _ hother) hxy hrelated
      exact hfresh (hsame ▸ hother)

theorem hasCap_of_operation? {tokens : List Token} :
    ∀ operation ∈ tokens.filterMap Token.operation?, operation.1.HasCap := by
  intro operation hoperation
  obtain ⟨token, _, htoken⟩ := List.mem_filterMap.mp hoperation
  obtain ⟨key, hkey, rfl⟩ := Option.map_eq_some_iff.mp htoken
  cases hkind : token.kind <;> rw [hkind] at hkey <;> cases hkey <;> trivial

namespace Solver

/-- Where there is a value, the log notes the operators and the functions before the end of the
expression as applied, each with its key at its offset, and each once; no two of the entries are the
same. Nothing is pending any more, the value is on top of the stack, and the stack holds one number
for every number and every variable on its own, less one for every operator. -/
theorem solve_applies {solver next : Solver} {line : Line} {start : Nat} {solution : Solution}
    {value : Float} (hsolve : solver.solve line start = (solution, next))
    (hvalue : solution.result = .ok value) :
    List.Forall₂ NotesApplication
        ((solution.log.map Event.entry).filter EventKind.applied.fits)
        (solution.log.filterMap Event.applied?) ∧
      ((solution.log.map Event.entry).filter EventKind.applied.fits).Nodup ∧
      (solution.log.filterMap Event.applied?).Perm
        ((tokensBefore start (line.drop start) solution.cursor).filterMap Token.operation?) ∧
      (solution.log.filterMap Event.applied?).Nodup ∧
      next.machine.commands = [] ∧ next.top? = some value ∧
      next.machine.numbers.length +
          (tokensBefore start (line.drop start) solution.cursor).countP
            (fun token => token.kind.isOperator) =
        (tokensBefore start (line.drop start) solution.cursor).countP
            (fun token => token.kind.isNumber) +
          (tokensBefore start (line.drop start) solution.cursor).countP
            (fun token => token.kind.isNamed) := by
  cases hsolve
  obtain ⟨after, hrun⟩ := Setting.run_of_result_ok hvalue
  have hmachine : (solver.setting.solve line start).machine = after :=
    congrArg Solution.machine (Setting.solve_of_ok hrun)
  obtain ⟨hcommands, below, hnumbers, _⟩ := Machine.numbers_of_solve hrun
  have hlog : ((solver.setting.solve line start).log.filterMap Event.applied?).Perm
      after.applied := by
    rw [Solution.log, hmachine, List.filterMap_reverse]
    exact List.reverse_perm _
  have happlied := hlog.trans (Machine.applied_of_solve hrun)
  have hnodup := happlied.nodup_iff.mpr (nodup_operations_tokensBefore _ _ _)
  have hentries := notesApplication_entries (solver.setting.solve line start).log
  have hcap : ∀ operation ∈ (solver.setting.solve line start).log.filterMap Event.applied?,
      operation.1.HasCap := fun operation hoperation =>
    hasCap_of_operation? operation (happlied.mem_iff.mp hoperation)
  refine ⟨hentries, ?_, happlied, hnodup, ?_, ?_, ?_⟩
  · exact nodup_of_forall₂ hentries hnodup fun _ operation hmem other hother hnotes hnotes' =>
      hnotes.unique hnotes' (hcap operation hmem) (hcap other hother)
  · rw [hmachine, hcommands]
  · rw [top?, hmachine, hnumbers, List.head?_cons]
  · rw [hmachine]
    exact Machine.numbers_add_operators_of_solve hrun

/-- In `+A hex B'*C[1` the last key is applied second and the first one last. -/
theorem solve_applies_leading_sum :
    let solution := (Solver.solve ⟨⟨fun _ _ => some 2.0, .degrees⟩, {}⟩ [.operator .add,
      .letter 'A', .prefixFn (.marker .hexadecimal), .letter 'B', .postfixFn .degreeMark,
      .operator .multiply, .letter 'C', .openBracket, .digit 1] 0).1
    solution.result = .ok 6.0 ∧
      (solution.log.filterMap Event.applied?).Perm
        [(.operator .add, 0), (.prefixFn (.marker .hexadecimal), 2), (.postfixFn .degreeMark, 4),
          (.operator .multiply, 5)] ∧
      (solution.log.map Event.entry).filter EventKind.applied.fits =
        ["TRACE apply ''' at 4, 2 operand(s) on stack",
          "TRACE apply 'hex' at 2, 2 operand(s) on stack",
          "TRACE apply '*' at 5, 3 operand(s) on stack",
          "TRACE apply '+' at 0, 2 operand(s) on stack"] := by
  intro solution
  have hvalue : solution.result = .ok 6.0 := by decide +kernel
  obtain ⟨_, _, happlied, _⟩ := solve_applies rfl hvalue
  exact ⟨hvalue, happlied.trans (.of_eq (by decide +kernel)), by decide +kernel⟩

end Solver
end PocketCalc
