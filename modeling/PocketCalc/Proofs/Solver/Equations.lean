import PocketCalc.Solver.Basic

/-! How runs compose, and what single steps do to the two stacks. Everything that settles a command
works on the numbers alone; only taking a token and unwinding change the commands. -/

namespace PocketCalc.Machine

variable {α β : Type} {x : Run α} {machine after : Machine}

/-! ## Composition -/

theorem bind_of_ok {a : α} (h : x machine = .ok a after) (f : α → Run β) :
    (x >>= f) machine = f a after := by
  simp only [bind, EStateM.bind, h]

theorem bind_of_error {fault : Fault} (h : x machine = .error fault after) (f : α → Run β) :
    (x >>= f) machine = .error fault after := by
  simp only [bind, EStateM.bind, h]

/-- A sequence of runs that succeeds has succeeded in both. -/
theorem bind_eq_ok {f : α → Run β} {b : β} (h : (x >>= f) machine = .ok b after) :
    ∃ a next, x machine = .ok a next ∧ f a next = .ok b after := by
  cases hx : x machine with
  | ok a next =>
      rw [bind_of_ok hx] at h
      exact ⟨a, next, rfl, h⟩
  | error fault next =>
      rw [bind_of_error hx] at h
      cases h

/-- A sequence of runs that fails has failed in the first or in the second. -/
theorem bind_eq_error {f : α → Run β} {fault : Fault}
    (h : (x >>= f) machine = .error fault after) :
    x machine = .error fault after ∨
      ∃ a next, x machine = .ok a next ∧ f a next = .error fault after := by
  cases hx : x machine with
  | ok a next =>
      rw [bind_of_ok hx] at h
      exact .inr ⟨a, next, rfl, h⟩
  | error fault next =>
      rw [bind_of_error hx] at h
      cases h
      exact .inl rfl

/-- Two continuations may be exchanged that agree wherever the first run can lead. -/
theorem bind_congr_of_ok {f g : α → Run β}
    (h : ∀ a after, x machine = .ok a after → f a after = g a after) :
    (x >>= f) machine = (x >>= g) machine := by
  cases hx : x machine with
  | ok a after => rw [bind_of_ok hx, bind_of_ok hx, h a after hx]
  | error fault after => rw [bind_of_error hx, bind_of_error hx]

/-- A prefix of a run may be exchanged together with the machine where it starts. -/
theorem bind_congr_left {y : Run α} {other : Machine} (h : x machine = y other) (f : α → Run β) :
    (x >>= f) machine = (y >>= f) other := by
  cases hx : x machine with
  | ok a after => rw [bind_of_ok hx, bind_of_ok (h.symm.trans hx)]
  | error fault after => rw [bind_of_error hx, bind_of_error (h.symm.trans hx)]

/-! ## Steps that leave the commands alone -/

/-- Where the run succeeds, the stack of commands is what it was. -/
def KeepsCommands (x : Run α) : Prop :=
  ∀ machine a after, x machine = .ok a after → after.commands = machine.commands

theorem keepsCommands_pure (a : α) : KeepsCommands (pure a : Run α) := by
  intro machine a after h
  cases h
  rfl

theorem keepsCommands_throw (fault : Fault) : KeepsCommands (throw fault : Run α) := by
  intro machine a after h
  cases h

theorem KeepsCommands.bind {f : α → Run β} (hx : KeepsCommands x)
    (hf : ∀ a, KeepsCommands (f a)) : KeepsCommands (x >>= f) := by
  intro machine b after h
  cases hm : x machine with
  | ok a next =>
      rw [bind_of_ok hm] at h
      exact (hf a next b after h).trans (hx machine a next hm)
  | error fault next =>
      rw [bind_of_error hm] at h
      cases h

theorem keepsCommands_record (event : Event) : KeepsCommands (record event) := by
  intro machine a after h
  cases h
  rfl

theorem keepsCommands_pushNumber (value : Float) (offset : Nat) :
    KeepsCommands (pushNumber value offset) := by
  intro machine a after h
  unfold pushNumber at h
  split at h <;> cases h
  rfl

theorem keepsCommands_popNumber (offset : Nat) : KeepsCommands (popNumber offset) := by
  intro machine a after h
  unfold popNumber at h
  split at h <;> cases h
  rfl

theorem keepsCommands_pushResult (offset : Nat) (value? : Option Float) :
    KeepsCommands (pushResult offset value?) := by
  cases value? with
  | none => exact keepsCommands_throw _
  | some value => exact keepsCommands_pushNumber value offset

theorem keepsCommands_recordApplied (key : Key) (offset : Nat) :
    KeepsCommands (recordApplied key offset) := by
  intro machine a after h
  cases h
  rfl

theorem keepsCommands_applyOperator (op : Operator) (offset : Nat) :
    KeepsCommands (applyOperator op offset) :=
  (keepsCommands_recordApplied _ offset).bind fun _ =>
    (keepsCommands_popNumber offset).bind fun _ =>
      (keepsCommands_popNumber offset).bind fun _ => keepsCommands_pushResult offset _

/-- What both kinds of functions do, written before their operand or after it. -/
def applyFn (key : Key) (marker : Bool) (value? : Float → Option Float) (offset : Nat) :
    Run Unit := do
  recordApplied key offset
  if marker then pure () else pushResult offset (value? (← popNumber offset))

theorem applyPrefixFn_eq_applyFn (setting : Setting) (f : PrefixFn) (offset : Nat) :
    applyPrefixFn setting f offset =
      applyFn (.prefixFn f) f.isMarker (f.value? setting.unit) offset := rfl

theorem applyPostfixFn_eq_applyFn (setting : Setting) (f : PostfixFn) (offset : Nat) :
    applyPostfixFn setting f offset =
      applyFn (.postfixFn f) f.isMarker (f.value? setting.unit) offset := rfl

theorem keepsCommands_applyFn (key : Key) (marker : Bool) (value? : Float → Option Float)
    (offset : Nat) : KeepsCommands (applyFn key marker value? offset) := by
  refine (keepsCommands_recordApplied key offset).bind fun _ => ?_
  split
  · exact keepsCommands_pure ()
  · exact (keepsCommands_popNumber offset).bind fun _ => keepsCommands_pushResult offset _

theorem keepsCommands_applyPrefixFn (setting : Setting) (f : PrefixFn) (offset : Nat) :
    KeepsCommands (applyPrefixFn setting f offset) := by
  rw [applyPrefixFn_eq_applyFn]
  exact keepsCommands_applyFn _ _ _ offset

theorem keepsCommands_applyPostfixFn (setting : Setting) (f : PostfixFn) (offset : Nat) :
    KeepsCommands (applyPostfixFn setting f offset) := by
  rw [applyPostfixFn_eq_applyFn]
  exact keepsCommands_applyFn _ _ _ offset

theorem keepsCommands_fetch (setting : Setting) (name : Char) (offset : Nat) :
    KeepsCommands (fetch setting name offset) := by
  refine (keepsCommands_popNumber offset).bind fun index => ?_
  split
  · exact keepsCommands_throw _
  · exact (keepsCommands_record _).bind fun _ => keepsCommands_pushNumber _ offset

theorem keepsCommands_settle (setting : Setting) (command : Command) :
    KeepsCommands (settle setting command) := by
  unfold settle
  split
  · exact keepsCommands_applyOperator _ _
  · exact keepsCommands_applyPrefixFn setting _ _
  · exact keepsCommands_pure ()
  · exact keepsCommands_fetch setting _ _

/-! ## Unwinding -/

theorem settleUntil_eq_unwind (setting : Setting) (stays : CommandKind → Bool) (machine : Machine) :
    settleUntil setting stays machine = unwind setting stays machine.commands machine := rfl

/-- Nothing happens while the top of the stack is to stay. -/
theorem settleUntil_of_stays {setting : Setting} {stays : CommandKind → Bool}
    (h : ∀ command ∈ machine.commands.head?, stays command.kind = true) :
    settleUntil setting stays machine = .ok () machine := by
  rw [settleUntil_eq_unwind]
  cases hc : machine.commands with
  | nil => rfl
  | cons command below =>
      have hs : stays command.kind = true := h command (by simp [hc])
      simp only [unwind, hs, if_true]
      rfl

theorem settleUntil_of_commands_nil {setting : Setting} {stays : CommandKind → Bool}
    (h : machine.commands = []) : settleUntil setting stays machine = .ok () machine :=
  settleUntil_of_stays (by simp [h])

theorem settleUntil_of_top_stays {setting : Setting} {stays : CommandKind → Bool}
    {command : Command} {below : List Command} (hc : machine.commands = command :: below)
    (hs : stays command.kind = true) : settleUntil setting stays machine = .ok () machine :=
  settleUntil_of_stays (by simpa [hc] using hs)

/-- A command that is not to stay is taken off and settled, and then the one below it has its
turn. -/
theorem settleUntil_of_not_stays {setting : Setting} {stays : CommandKind → Bool}
    {command : Command} {below : List Command} (hc : machine.commands = command :: below)
    (hs : stays command.kind = false) :
    settleUntil setting stays machine =
      (settle setting command >>= fun _ => settleUntil setting stays)
        { machine with commands := below } := by
  rw [settleUntil_eq_unwind, hc]
  simp only [unwind, hs, Bool.false_eq_true, if_false]
  change (settle setting command >>= fun _ => unwind setting stays below) _ = _
  refine bind_congr_of_ok fun _ after h => ?_
  rw [settleUntil_eq_unwind, keepsCommands_settle setting command _ _ _ h]

/-! ## Tokens -/

/-- Neighbours that fit together are let pass. -/
theorem checkNeighbours_of_fits {previous : Option TokenKind} {current : TokenKind}
    (h : ∀ kind ∈ previous, current.mayFollow kind = true) (offset : Nat) :
    checkNeighbours previous current offset = pure () := by
  cases previous with
  | none => rfl
  | some kind => simp [checkNeighbours, h kind rfl]

/-- Neighbours that are let pass fit together, and the machine is left alone. -/
theorem fits_of_checkNeighbours {previous : Option TokenKind} {current : TokenKind} {offset : Nat}
    (h : checkNeighbours previous current offset machine = .ok () after) :
    (∀ kind ∈ previous, current.mayFollow kind = true) ∧ after = machine := by
  cases previous with
  | none =>
      cases h
      simp
  | some kind =>
      by_cases hfit : current.mayFollow kind = true
      · simp only [checkNeighbours, hfit, if_true] at h
        cases h
        simpa using hfit
      · simp only [checkNeighbours, hfit] at h
        cases h

/-- A variable is taken like the number in its cell. -/
theorem take_named_of_some {setting : Setting} {name : Char} {value : Float}
    (h : setting.cell? name 0 = some value) (offset : Nat) :
    take setting ⟨.named name, offset⟩ = take setting ⟨.number value, offset⟩ := by
  simp only [take, h]

theorem take_named_of_none {setting : Setting} {name : Char} (h : setting.cell? name 0 = none)
    (offset : Nat) : take setting ⟨.named name, offset⟩ = throw (.noSuchCell offset) := by
  simp only [take, h]

/-- A variable that is taken has a cell. -/
theorem take_named_eq_ok {setting : Setting} {name : Char} {offset : Nat} {goesOn : Bool}
    (h : take setting ⟨.named name, offset⟩ machine = .ok goesOn after) :
    ∃ value, setting.cell? name 0 = some value ∧
      take setting ⟨.number value, offset⟩ machine = .ok goesOn after := by
  cases hcell : setting.cell? name 0 with
  | none =>
      rw [take_named_of_none hcell] at h
      cases h
  | some value =>
      rw [take_named_of_some hcell] at h
      exact ⟨value, rfl, h⟩

/-- Only neighbours that do not fit together are stopped. -/
theorem misfit_of_checkNeighbours {previous : Option TokenKind} {current : TokenKind}
    {offset : Nat} {fault : Fault}
    (h : checkNeighbours previous current offset machine = .error fault after) :
    (∃ kind ∈ previous, current.mayFollow kind = false) ∧
      fault = .malformed .neighbours offset := by
  cases previous with
  | none => cases h
  | some kind =>
      by_cases hfit : current.mayFollow kind = true
      · simp only [checkNeighbours, hfit, if_true] at h
        cases h
      · simp only [checkNeighbours, hfit] at h
        cases h
        exact ⟨⟨kind, rfl, Bool.eq_false_iff.mpr hfit⟩, rfl⟩

/-- A token that fits is taken. -/
theorem scan_cons {previous : Option TokenKind} {token : Token}
    (hf : ∀ kind ∈ previous, token.kind.mayFollow kind = true) (rest : List Token)
    (ending : Ending) :
    scan setting previous (token :: rest) ending =
      (take setting token >>= fun goesOn =>
        if goesOn = true then scan setting (some token.kind) rest ending
        else pure token.offset) := by
  simp only [scan, checkNeighbours_of_fits hf, pure_bind]

/-- Where the tokens are at an end that fits, the expression ends. -/
theorem scan_nil {setting : Setting} {previous : Option TokenKind}
    (hf : ∀ kind ∈ previous, TokenKind.lineEnd.mayFollow kind = true) (stop : Nat) :
    scan setting previous [] (.stop stop) = pure stop := by
  simp only [scan, checkNeighbours_of_fits hf, pure_bind]

/-- A scan that succeeds has let its first token pass and taken it. -/
theorem scan_cons_eq_ok {setting : Setting} {previous : Option TokenKind} {token : Token}
    {rest : List Token} {ending : Ending} {stop : Nat}
    (h : scan setting previous (token :: rest) ending machine = .ok stop after) :
    (∀ kind ∈ previous, token.kind.mayFollow kind = true) ∧
      ∃ goesOn next, take setting token machine = .ok goesOn next ∧
        ((goesOn = true ∧ scan setting (some token.kind) rest ending next = .ok stop after) ∨
          (goesOn = false ∧ token.offset = stop ∧ after = next)) := by
  obtain ⟨_, checked, hcheck, htake⟩ := bind_eq_ok h
  obtain ⟨hfit, rfl⟩ := fits_of_checkNeighbours hcheck
  obtain ⟨goesOn, next, hnext, hrest⟩ := bind_eq_ok htake
  refine ⟨hfit, goesOn, next, hnext, ?_⟩
  cases goesOn with
  | true => exact .inl ⟨rfl, hrest⟩
  | false =>
      cases hrest
      exact .inr ⟨rfl, rfl, rfl⟩

/-- A closing parenthesis that closes one has settled everything above it. -/
theorem closeParen_eq_ok {setting : Setting} {offset : Nat}
    (h : closeParen setting offset machine = .ok () after) :
    ∃ settled opener below, settleUntil setting CommandKind.isOpener machine = .ok () settled ∧
      settled.commands = ⟨.paren, opener⟩ :: below ∧
      after = { settled with commands := below } := by
  obtain ⟨_, settled, hsettle, hclose⟩ := bind_eq_ok h
  have hget : (get : Run Machine) settled = .ok settled settled := rfl
  rw [bind_of_ok hget] at hclose
  cases hcommands : settled.commands with
  | nil =>
      rw [hcommands] at hclose
      cases hclose
  | cons command below =>
      obtain ⟨kind, opener⟩ := command
      rw [hcommands] at hclose
      cases kind with
      | paren =>
          cases hclose
          exact ⟨settled, opener, below, hsettle, hcommands, rfl⟩
      | _ => cases hclose

/-- A closing parenthesis fails where something above an opener does, or finds no parenthesis
there. -/
theorem closeParen_eq_error {setting : Setting} {offset : Nat} {fault : Fault}
    (h : closeParen setting offset machine = .error fault after) :
    settleUntil setting CommandKind.isOpener machine = .error fault after ∨
      ∃ settled, settleUntil setting CommandKind.isOpener machine = .ok () settled ∧
        fault = .malformed .unopenedParen offset ∧
        ∀ command ∈ settled.commands.head?, command.kind ≠ .paren := by
  obtain hsettle | ⟨_, settled, hsettle, hclose⟩ := bind_eq_error h
  · exact .inl hsettle
  · have hget : (get : Run Machine) settled = .ok settled settled := rfl
    rw [bind_of_ok hget] at hclose
    refine .inr ⟨settled, hsettle, ?_⟩
    cases hcommands : settled.commands with
    | nil =>
        rw [hcommands] at hclose
        cases hclose
        exact ⟨rfl, by simp⟩
    | cons command below =>
        obtain ⟨kind, opener⟩ := command
        rw [hcommands] at hclose
        cases kind with
        | paren => cases hclose
        | _ =>
            cases hclose
            exact ⟨rfl, by simp⟩

/-- A closing bracket closes an index after everything above it has been settled, or finds nothing
left to settle. -/
theorem closeBracket_eq_ok {setting : Setting} {offset : Nat} {goesOn : Bool}
    (h : closeBracket setting offset machine = .ok goesOn after) :
    (goesOn = true ∧ ∃ settled name opener below,
        settleUntil setting CommandKind.isIndex machine = .ok () settled ∧
        settled.commands = ⟨.index name, opener⟩ :: below ∧
        fetch setting name offset { settled with commands := below } = .ok () after) ∨
      (goesOn = false ∧ settleUntil setting CommandKind.isIndex machine = .ok () after ∧
        ∀ command ∈ after.commands.head?, command.kind.isIndex = false) := by
  obtain ⟨_, settled, hsettle, hclose⟩ := bind_eq_ok h
  have hget : (get : Run Machine) settled = .ok settled settled := rfl
  rw [bind_of_ok hget] at hclose
  cases hcommands : settled.commands with
  | nil =>
      rw [hcommands] at hclose
      cases hclose
      exact .inr ⟨rfl, hsettle, by simp [hcommands]⟩
  | cons command below =>
      obtain ⟨kind, opener⟩ := command
      rw [hcommands] at hclose
      cases kind with
      | index name =>
          obtain ⟨_, dropped, hdrop, hfetch⟩ := bind_eq_ok hclose
          obtain ⟨_, fetched, hfetch, hpure⟩ := bind_eq_ok hfetch
          cases hdrop
          cases hpure
          exact .inl ⟨rfl, settled, name, opener, below, hsettle, hcommands, hfetch⟩
      | _ =>
          cases hclose
          exact .inr ⟨rfl, hsettle, by simp [hcommands, CommandKind.isIndex]⟩

/-- A closing bracket fails where a command above the index does, or where the cell is read. -/
theorem closeBracket_eq_error {setting : Setting} {offset : Nat} {fault : Fault}
    (h : closeBracket setting offset machine = .error fault after) :
    settleUntil setting CommandKind.isIndex machine = .error fault after ∨
      ∃ settled name opener below,
        settleUntil setting CommandKind.isIndex machine = .ok () settled ∧
        settled.commands = ⟨.index name, opener⟩ :: below ∧
        fetch setting name offset { settled with commands := below } = .error fault after := by
  obtain hsettle | ⟨_, settled, hsettle, hclose⟩ := bind_eq_error h
  · exact .inl hsettle
  · have hget : (get : Run Machine) settled = .ok settled settled := rfl
    rw [bind_of_ok hget] at hclose
    cases hcommands : settled.commands with
    | nil =>
        rw [hcommands] at hclose
        cases hclose
    | cons command below =>
        obtain ⟨kind, opener⟩ := command
        rw [hcommands] at hclose
        cases kind with
        | index name =>
            obtain hdrop | ⟨_, dropped, hdrop, hfetch⟩ := bind_eq_error hclose
            · cases hdrop
            · cases hdrop
              obtain hfetch | ⟨_, _, _, hpure⟩ := bind_eq_error hfetch
              · exact .inr ⟨settled, name, opener, below, hsettle, hcommands, hfetch⟩
              · cases hpure
        | _ => cases hclose

/-! ## The end of solving -/

/-- What is done when nothing is pending any more: the number on top is the value. -/
def conclude (stop : Nat) : Run (Float × Nat) := do
  match (← get).numbers with
  | value :: _ =>
    record (.solved value stop)
    pure (value, stop)
  | [] => throw (Fault.nothingToSolve stop)

theorem solve_eq_conclude (setting : Setting) (start : Nat) (keys : List Key) :
    solve setting start keys =
      (record (.started start keys) >>= fun _ =>
        scan setting none (tokenize start keys).1 (tokenize start keys).2 >>= fun stop =>
          settleUntil setting (fun _ => false) >>= fun _ => conclude stop) := rfl

/-- Whatever is still open is closed at the end of the expression. -/
def finish (setting : Setting) (stop : Nat) : Run (Float × Nat) := do
  settleUntil setting fun _ => false
  conclude stop

theorem solve_eq_finish (setting : Setting) (start : Nat) (keys : List Key) :
    solve setting start keys =
      (record (.started start keys) >>= fun _ =>
        scan setting none (tokenize start keys).1 (tokenize start keys).2 >>= finish setting) := rfl

theorem conclude_of_numbers {v : Float} {below : List Float} (h : machine.numbers = v :: below)
    (stop : Nat) :
    conclude stop machine =
      .ok (v, stop) { machine with events := .solved v stop :: machine.events } := by
  obtain ⟨numbers, commands, events⟩ := machine
  cases h
  rfl

theorem conclude_of_numbers_nil (h : machine.numbers = []) (stop : Nat) :
    conclude stop machine = .error (.nothingToSolve stop) machine := by
  obtain ⟨numbers, commands, events⟩ := machine
  cases h
  rfl

/-- A value at the end of an expression is the number on top when everything is settled. -/
theorem finish_eq_ok {setting : Setting} {last stop : Nat} {value : Float}
    (h : finish setting last machine = .ok (value, stop) after) :
    last = stop ∧ ∃ settled below, settleUntil setting (fun _ => false) machine = .ok () settled ∧
      settled.numbers = value :: below ∧
      after = { settled with events := .solved value stop :: settled.events } := by
  obtain ⟨_, settled, hsettle, hconclude⟩ := bind_eq_ok h
  cases hn : settled.numbers with
  | nil =>
      rw [conclude_of_numbers_nil hn] at hconclude
      cases hconclude
  | cons top below =>
      rw [conclude_of_numbers hn] at hconclude
      cases hconclude
      exact ⟨rfl, settled, below, hsettle, hn, rfl⟩

end PocketCalc.Machine
