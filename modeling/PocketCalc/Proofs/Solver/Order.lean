import PocketCalc.Proofs.Expression.Delivery
import PocketCalc.Proofs.Solver.Room
import PocketCalc.Proofs.Solver.Stop
import PocketCalc.Proofs.Solver.Within

/-! The order on the two stacks. While an expression is solved, the commands that wait are tokens of
the line, each read after the one below it and all of them read already, and an operator binds more
tightly than the command on which it lies. Nothing is needed for this but that commands are taken
off the top, and that an operator is put where all that binds at least as tightly has gone. -/

namespace PocketCalc

/-- The kind of token that waits as a command. -/
def CommandKind.token : CommandKind → TokenKind
  | operator op => .operator op
  | prefixFn f => .prefixFn f
  | paren => .openParen
  | index name => .indexed name

def Command.token (command : Command) : Token := ⟨command.kind.token, command.offset⟩

/-- An operator binds more tightly than the command below it. Parentheses and indices have
precedence zero. -/
def Command.Outranks (upper lower : Command) : Prop :=
  ∀ op, upper.kind = .operator op → lower.kind.key.precedence < op.precedence

theorem CommandKind.bindsLessThan_iff {kind : CommandKind} {precedence : Nat}
    (h : 0 < precedence) :
    kind.bindsLessThan precedence = true ↔ kind.key.precedence < precedence := by
  cases kind with
  | operator | prefixFn => simp [bindsLessThan, key, Key.precedence]
  | paren | index => simp [bindsLessThan, key, Key.precedence, h]

/-- Every command that can be waiting binds less tightly than a function written after its
operand. -/
theorem CommandKind.bindsLessThan_postfixFn (kind : CommandKind) (f : PostfixFn) :
    kind.bindsLessThan f.precedence = true := by
  cases kind with
  | operator op => simpa [bindsLessThan] using op.precedence_lt_postfixFn f
  | prefixFn g => simpa [bindsLessThan] using g.precedence_lt_postfixFn f
  | paren | index => rfl

namespace Machine

/-- The stacks are within their limits. The commands are tokens of the expression from `start` on,
in the order of the line, and all of them before the cursor. -/
structure InOrder (keys : Line) (start cursor : Nat) (machine : Machine) : Prop where
  numbers_le : machine.numbers.length ≤ 9
  commands_le : machine.commands.length ≤ 20
  token_mem : ∀ command ∈ machine.commands, command.token ∈ (tokenize start (keys.drop start)).1
  bounds : ∀ command ∈ machine.commands, start ≤ command.offset ∧ command.offset < cursor
  increasing : machine.commands.Pairwise fun upper lower => lower.offset < upper.offset
  outranks : machine.commands.IsChain Command.Outranks

variable {keys : Line} {start cursor later offset : Nat} {machine state : Machine}

theorem InOrder.within (h : machine.InOrder keys start cursor) :
    machine.Within machine.commands :=
  ⟨h.numbers_le, List.suffix_refl _⟩

/-- What is left when commands are taken off is still in order, also when the line is read on. -/
theorem InOrder.of_within (h : machine.InOrder keys start cursor)
    (hstate : state.Within machine.commands) (hle : cursor ≤ later) :
    state.InOrder keys start later where
  numbers_le := hstate.numbers_le
  commands_le := Nat.le_trans hstate.suffix.length_le h.commands_le
  token_mem command hcommand := h.token_mem command (hstate.suffix.mem hcommand)
  bounds command hcommand := by
    obtain ⟨hlow, hhigh⟩ := h.bounds command (hstate.suffix.mem hcommand)
    exact ⟨hlow, Nat.lt_of_lt_of_le hhigh hle⟩
  increasing := h.increasing.sublist hstate.suffix.sublist
  outranks := h.outranks.suffix hstate.suffix

/-- A token that has been read may wait on top of the others, if it outranks the top. -/
theorem InOrder.push {kind : CommandKind} (h : machine.InOrder keys start offset)
    (hmem : ⟨kind.token, offset⟩ ∈ (tokenize start (keys.drop start)).1) (hread : offset < cursor)
    (htop : ∀ lower ∈ machine.commands.head?, Command.Outranks ⟨kind, offset⟩ lower)
    (hroom : machine.commands.length < commandLimit) :
    InOrder keys start cursor { machine with commands := ⟨kind, offset⟩ :: machine.commands } where
  numbers_le := h.numbers_le
  commands_le := hroom
  token_mem := List.forall_mem_cons.mpr ⟨hmem, h.token_mem⟩
  bounds := by
    have hlow := (read_of_mem_tokenize hmem).2.1
    refine List.forall_mem_cons.mpr ⟨⟨hlow, hread⟩, fun command hcommand => ?_⟩
    obtain ⟨hstart, hoffset⟩ := h.bounds command hcommand
    exact ⟨hstart, Nat.lt_trans hoffset hread⟩
  increasing := List.pairwise_cons.mpr ⟨fun lower hlower => (h.bounds lower hlower).2, h.increasing⟩
  outranks := List.isChain_cons.mpr ⟨htop, h.outranks⟩

namespace Traced

variable {α : Type} {setting : Setting}

/-! ## Tokens -/

/-- Where commands are only taken off, the stacks stay in order. -/
theorem Keeps.throughout {x : Traced α} (hx : Keeps (Within machine.commands) x)
    (h : machine.InOrder keys start offset) (hle : offset ≤ cursor) :
    Throughout (InOrder keys start cursor) (fun _ => True) x machine
      fun _ after => after.Within machine.commands :=
  (hx machine h.within).weaken fun _ hstate => h.of_within hstate hle

/-- How a token leaves the stacks: in order up to the cursor, and up to the token itself where the
expression does not go on. -/
def LeavesInOrder (keys : Line) (start offset cursor : Nat) (goesOn : Bool) (after : Machine) :
    Prop :=
  after.InOrder keys start cursor ∧ (goesOn = false → after.InOrder keys start offset)

theorem Keeps.leavesInOrder {x : Traced Bool} (hx : Keeps (Within machine.commands) x)
    (h : machine.InOrder keys start offset) (hle : offset ≤ cursor) :
    Throughout (InOrder keys start cursor) (fun _ => True) x machine
      (LeavesInOrder keys start offset cursor) :=
  (hx.throughout h hle).mono fun _ _ hafter =>
    ⟨h.of_within hafter hle, fun _ => h.of_within hafter (Nat.le_refl offset)⟩

/-- A command is put on top if there is room for it. -/
theorem throughout_pushCommand (kind : CommandKind) (h : machine.InOrder keys start offset)
    (hmem : ⟨kind.token, offset⟩ ∈ (tokenize start (keys.drop start)).1) (hread : offset < cursor)
    (htop : ∀ lower ∈ machine.commands.head?, Command.Outranks ⟨kind, offset⟩ lower) :
    Throughout (InOrder keys start cursor) (fun _ => True)
      (do step (pushCommand kind offset); pure true) machine
      (LeavesInOrder keys start offset cursor) := by
  by_cases hroom : machine.commands.length < commandLimit
  · have hpush := h.push hmem hread htop hroom
    have hrun : pushCommand kind offset machine =
        .ok () { machine with commands := ⟨kind, offset⟩ :: machine.commands } := if_pos hroom
    exact throughout_step_bind hrun hpush (throughout_pure ⟨hpush, by simp⟩)
  · have hstay := h.of_within h.within (Nat.le_of_lt hread)
    have hrun : pushCommand kind offset machine = .error (.stackFull offset) machine := if_neg hroom
    have hfull : Throughout (InOrder keys start cursor) (fun _ => True)
        (step (pushCommand kind offset)) machine fun _ _ => False :=
      throughout_step_of_error hrun hstay trivial
    exact hfull.bind fun _ _ hfalse => hfalse.elim

/-- Only operators are compared with what is below them. -/
theorem outranks_of_ne_operator {kind : CommandKind} (h : ∀ op, kind ≠ .operator op)
    (lower : Command) : Command.Outranks ⟨kind, offset⟩ lower :=
  fun op hop => absurd hop (h op)

/-- An operator outranks what is left when it has settled the rest. -/
theorem outranks_of_settleUntil {op : Operator} {settled : Machine}
    (h : (settleUntil setting (CommandKind.bindsLessThan op.precedence)).run machine =
      .ok () settled) :
    ∀ lower ∈ settled.commands.head?, Command.Outranks ⟨.operator op, offset⟩ lower := by
  rw [run_settleUntil] at h
  rintro lower hlower other ⟨⟩
  exact (CommandKind.bindsLessThan_iff op.precedence_pos).mp (stays_of_settleUntil h lower hlower)

/-- A token that has just been read leaves the stacks in order. -/
theorem throughout_take (setting : Setting) {token : Token}
    (h : machine.InOrder keys start token.offset)
    (hmem : token ∈ (tokenize start (keys.drop start)).1) (hread : token.offset < cursor) :
    Throughout (InOrder keys start cursor) (fun _ => True) (take setting token) machine
      (LeavesInOrder keys start token.offset cursor) := by
  obtain ⟨kind, offset⟩ := token
  have hle : offset ≤ cursor := Nat.le_of_lt hread
  have hopens (opener : CommandKind) (hopener : ∀ op, opener ≠ .operator op)
      (hmem : ⟨opener.token, offset⟩ ∈ (tokenize start (keys.drop start)).1) :
      Throughout (InOrder keys start cursor) (fun _ => True)
        (do step (pushCommand opener offset); pure true) machine
        (LeavesInOrder keys start offset cursor) :=
    throughout_pushCommand opener h hmem hread fun lower _ => outranks_of_ne_operator hopener lower
  cases kind with
  | number value =>
      refine Keeps.leavesInOrder ?_ h hle
      exact (keeps_pushNumber value offset).bind fun _ => keeps_pure true
  | named name =>
      refine Keeps.leavesInOrder ?_ h hle
      simp only [take]
      cases setting.cell? name 0 with
      | none => exact keeps_throw _
      | some value => exact (keeps_pushNumber value offset).bind fun _ => keeps_pure true
  | indexed name => exact hopens (.index name) (by simp) hmem
  | prefixFn f => exact hopens (.prefixFn f) (by simp) hmem
  | openParen => exact hopens .paren (by simp) hmem
  | operator op =>
      -- what is left when the operator has settled the rest lies lower in precedence
      refine ((keeps_settleUntil setting _).throughout h hle).and_run.bind ?_
      rintro _ settled ⟨hsettled, hrun⟩
      have horder := h.of_within hsettled (Nat.le_refl offset)
      exact throughout_pushCommand (.operator op) horder hmem hread (outranks_of_settleUntil hrun)
  | postfixFn f =>
      refine Keeps.leavesInOrder ?_ h hle
      exact (keeps_settleUntil setting _).bind fun _ => (keeps_applyFn _ _ _ offset).bind
        fun _ => keeps_pure true
  | closeParen =>
      refine Keeps.leavesInOrder ?_ h hle
      exact (keeps_closeParen setting offset).bind fun _ => keeps_pure true
  | closeBracket => exact (keeps_closeBracket setting offset).leavesInOrder h hle
  | lineEnd | foreign => exact (keeps_pure false).leavesInOrder h hle

/-! ## Expressions -/

theorem throughout_accept (setting : Setting) (previous : Option TokenKind) {token : Token}
    (h : machine.InOrder keys start token.offset)
    (hmem : token ∈ (tokenize start (keys.drop start)).1) (hread : token.offset < cursor) :
    Throughout (InOrder keys start cursor) (fun _ => True) (accept setting previous token) machine
      (LeavesInOrder keys start token.offset cursor) := by
  have hstay := h.of_within h.within (Nat.le_of_lt hread)
  refine ((keeps_checkNeighbours previous token.kind token.offset) machine hstay).and_run.bind ?_
  rintro _ checked ⟨_, hrun⟩
  obtain ⟨_, rfl⟩ := fits_of_checkNeighbours hrun
  exact throughout_take setting h hmem hread

theorem Throughout.inOrder {x : Traced α} {fails : Fault → Prop} {ends : α → Machine → Prop}
    (hx : Throughout (InOrder keys start cursor) fails x machine ends) :
    ∀ moment ∈ x.momentsAt cursor machine, moment.machine.InOrder keys start moment.cursor := by
  intro moment hmoment
  obtain ⟨state, hstate, rfl⟩ := List.mem_map.mp hmoment
  exact hx.1 state hstate

theorem inOrder_finish (setting : Setting) (h : machine.InOrder keys start cursor) :
    ∀ moment ∈ (finish setting cursor).momentsAt cursor machine,
      moment.machine.InOrder keys start moment.cursor :=
  ((keeps_finish setting cursor).throughout h (Nat.le_refl cursor)).inOrder

/-- From any place in a row of tokens, the stacks stay in order to the end. The induction is on the
reads of the lexer, and the tokens ahead of it are among those of the expression all along. -/
theorem inOrder_moments (setting : Setting) (previous : Option TokenKind) {lexer : Lexer}
    (hline : lexer.line = keys)
    (hrow : (tokenize lexer.offset (keys.drop lexer.offset)).1 ⊆
      (tokenize start (keys.drop start)).1)
    (h : machine.InOrder keys start lexer.offset) :
    ∀ moment ∈ lexer.moments setting previous machine,
      moment.machine.InOrder keys start moment.cursor := by
  fun_induction Lexer.moments setting previous lexer machine with
  | case1 previous lexer machine fault hnext =>
      exact ((keeps_throw fault).throughout h (Nat.le_refl lexer.offset)).inOrder
  | case2 previous lexer machine token next hnext ih =>
      subst hline
      cases hend : token.kind.isEnd with
      | true =>
          obtain rfl := Lexer.next_of_isEnd hnext hend
          have hkeeps := (keeps_accept_of_isEnd setting previous hend).throughout h (Nat.le_refl _)
          have hafter := hkeeps.2
          refine List.forall_mem_append.mpr ⟨hkeeps.inOrder, ?_⟩
          cases hrun : (accept setting previous token).run machine with
          | error fault after => simp
          | ok goesOn after =>
              rw [hrun] at hafter
              exact inOrder_finish setting (h.of_within hafter (Nat.le_refl _))
      | false =>
          obtain ⟨width, _, hpos, _, htoken, hlexer⟩ := Lexer.next_of_not_isEnd hnext hend
          rw [Lexer.tokenize_of_next hnext hend] at hrow
          obtain ⟨hmem, hrest⟩ := List.cons_subset.mp hrow
          have hoffset : token.offset = lexer.offset := congrArg Token.offset htoken
          have hread : token.offset < next.offset := by
            rw [hoffset, hlexer]
            exact Nat.lt_add_of_pos_right hpos
          have htaken := throughout_accept setting previous (hoffset ▸ h) hmem hread
          have hafter := htaken.2
          refine List.forall_mem_append.mpr ⟨htaken.inOrder, ?_⟩
          cases hrun : (accept setting previous token).run machine with
          | error fault after => simp
          | ok goesOn after =>
              rw [hrun] at hafter
              obtain ⟨honward, hback⟩ := hafter
              cases goesOn with
              | true =>
                  have hline : next.line = lexer.line := by rw [hlexer]
                  rw [hline] at hrest
                  simpa using ih after (by simp [hend]) hline hrest honward
              | false =>
                  -- the lexer is back at the bracket, and nothing behind that is pending
                  rw [← rewind_of_accept hnext hend hrun] at hback
                  simpa using inOrder_finish setting (hback rfl)

end Traced

/-! ## What follows from the order -/

/-- The function settles nothing before it is applied, and it is applied to the number on top. -/
structure AppliesToTop (setting : Setting) (f : PostfixFn) (offset : Nat) (machine : Machine) :
    Prop where
  settles_nothing :
    settleUntil setting (CommandKind.bindsLessThan f.precedence) machine = .ok () machine
  of_some : ∀ value below result, machine.numbers = value :: below →
    f.value? setting.unit value = some result →
      ∃ after, take setting ⟨.postfixFn f, offset⟩ machine = .ok true after ∧
        after.numbers = result :: below ∧ after.commands = machine.commands
  of_none : ∀ value below, machine.numbers = value :: below → f.value? setting.unit value = none →
    ∃ after, take setting ⟨.postfixFn f, offset⟩ machine = .error (.outsideDomain offset) after
  of_nil : machine.numbers = [] → f.isMarker = false →
    ∃ after, take setting ⟨.postfixFn f, offset⟩ machine =
      .error (.malformed .missingOperand offset) after

/-- Settling everything empties the stack of commands, if none of them comes to a fault. -/
def Drains (setting : Setting) (machine : Machine) : Prop :=
  (∃ after, settleUntil setting (fun _ => false) machine = .ok () after ∧ after.commands = []) ∨
    ∃ fault after, settleUntil setting (fun _ => false) machine = .error fault after ∧
      ∃ command ∈ machine.commands, ApplyFault command.kind.key command.offset fault

theorem settleUntil_postfixFn (setting : Setting) (f : PostfixFn) (machine : Machine) :
    settleUntil setting (CommandKind.bindsLessThan f.precedence) machine = .ok () machine :=
  settleUntil_of_stays fun command _ => command.kind.bindsLessThan_postfixFn f

theorem take_postfixFn (setting : Setting) (f : PostfixFn) (offset : Nat) (machine : Machine) :
    take setting ⟨.postfixFn f, offset⟩ machine =
      (do applyPostfixFn setting f offset; pure true : Run Bool) machine :=
  bind_of_ok (settleUntil_postfixFn setting f machine) _

/-- The value of the function takes the place of the number on top. -/
theorem take_postfixFn_of_some {f : PostfixFn} {value result : Float} {below : List Float}
    (h : machine.numbers.length ≤ numberLimit) (hnumbers : machine.numbers = value :: below)
    (hvalue : f.value? setting.unit value = some result) :
    ∃ after, take setting ⟨.postfixFn f, offset⟩ machine = .ok true after ∧
      after.numbers = result :: below ∧ after.commands = machine.commands := by
  rw [hnumbers] at h
  have hresult := applyPostfixFn_delivers setting f offset hnumbers h
  rw [hvalue] at hresult
  cases hrun : applyPostfixFn setting f offset machine with
  | ok u after =>
      obtain ⟨_, _, ⟨⟩, hafter⟩ := (delivers_ok_iff hrun).mp hresult
      exact ⟨after, (take_postfixFn setting f offset machine).trans (bind_of_ok hrun _), hafter,
        keepsCommands_applyPostfixFn setting f offset machine u after hrun⟩
  | error fault after =>
      obtain ⟨⟨⟩⟩ | ⟨_, ⟨⟩, _⟩ := (delivers_error_iff hrun).mp hresult

theorem take_postfixFn_of_none {f : PostfixFn} {value : Float} {below : List Float}
    (h : machine.numbers.length ≤ numberLimit) (hnumbers : machine.numbers = value :: below)
    (hvalue : f.value? setting.unit value = none) :
    ∃ after, take setting ⟨.postfixFn f, offset⟩ machine =
      .error (.outsideDomain offset) after := by
  rw [hnumbers] at h
  have hresult := applyPostfixFn_delivers setting f offset hnumbers h
  rw [hvalue] at hresult
  cases hrun : applyPostfixFn setting f offset machine with
  | ok u after =>
      obtain ⟨_, _, ⟨⟩, _⟩ := (delivers_ok_iff hrun).mp hresult
  | error fault after =>
      obtain ⟨⟨⟩⟩ | ⟨_, ⟨⟩, _⟩ := (delivers_error_iff hrun).mp hresult
      exact ⟨after, (take_postfixFn setting f offset machine).trans (bind_of_error hrun _)⟩

theorem take_postfixFn_of_numbers_nil {f : PostfixFn} (hnumbers : machine.numbers = [])
    (hmarker : f.isMarker = false) :
    ∃ after, take setting ⟨.postfixFn f, offset⟩ machine =
      .error (.malformed .missingOperand offset) after := by
  let event := Event.applied (.postfixFn f) offset machine.numbers.length
  let logged : Machine := { machine with events := event :: machine.events }
  have hpop : popNumber offset logged = .error (.malformed .missingOperand offset) logged := by
    simp only [popNumber, logged, hnumbers]
  have happly : applyPostfixFn setting f offset machine =
      (popNumber offset >>= fun v => pushResult offset (f.value? setting.unit v)) logged := by
    simp only [applyPostfixFn, hmarker, Bool.false_eq_true, if_false]
    rfl
  exact ⟨logged, (take_postfixFn setting f offset machine).trans
    (bind_of_error (happly.trans (bind_of_error hpop _)) _)⟩

theorem appliesToTop (setting : Setting) (f : PostfixFn) (offset : Nat)
    (h : machine.numbers.length ≤ numberLimit) : machine.AppliesToTop setting f offset where
  settles_nothing := settleUntil_postfixFn setting f machine
  of_some _ _ _ hnumbers hvalue := take_postfixFn_of_some h hnumbers hvalue
  of_none _ _ hnumbers hvalue := take_postfixFn_of_none h hnumbers hvalue
  of_nil hnumbers hmarker := take_postfixFn_of_numbers_nil hnumbers hmarker

theorem drains (setting : Setting) (h : machine.numbers.length ≤ numberLimit) :
    machine.Drains setting := by
  cases hdrain : settleUntil setting (fun _ => false) machine with
  | ok u after => exact .inl ⟨after, hdrain, commands_of_settleUntil_never hdrain⟩
  | error fault after =>
      have hroom : HasRoom (· ∈ machine.commands) 0 machine := ⟨fun _ hcommand => hcommand, h⟩
      exact .inr ⟨fault, after, hdrain,
        ((spares_settleUntil setting _ machine hroom).2 fault after hdrain).1⟩

end Machine

namespace Setting

open Machine

variable {setting : Setting} {keys : Line} {start : Nat}

/-- Nothing is pending when solving has come to a value, or to nothing to solve. -/
theorem commands_of_concluded
    (h : (∃ value, (setting.solve keys start).result = .ok value) ∨
      ∃ stop, (setting.solve keys start).result = .error (.nothingToSolve stop)) :
    (setting.solve keys start).machine.commands = [] := by
  obtain ⟨value, hvalue⟩ | ⟨stop, hempty⟩ := h
  · obtain ⟨after, hrun⟩ := run_of_result_ok hvalue
    rw [solve_of_ok hrun]
    rw [solve_eq_finish] at hrun
    obtain ⟨_, _, _, hscanned⟩ := bind_eq_ok hrun
    obtain ⟨_, _, _, hfinish⟩ := bind_eq_ok hscanned
    obtain ⟨_, settled, _, hsettle, _, rfl⟩ := finish_eq_ok hfinish
    have hnothing : settled.commands = [] := commands_of_settleUntil_never hsettle
    exact hnothing
  · obtain ⟨after, hrun⟩ := run_of_result_error hempty
    obtain ⟨scanned, _, hsettle, _⟩ := solve_eq_nothingToSolve_iff.mp hrun
    rw [machine_of_error hrun]
    exact commands_of_settleUntil_never hsettle

theorem inOrder_of_mem_moments {moment : Moment} (h : moment ∈ setting.moments keys start) :
    moment.machine.InOrder keys start moment.cursor := by
  have hempty (events : List Event) : InOrder keys start start ⟨[], [], events⟩ :=
    ⟨by simp, by simp, by simp, by simp, .nil, .nil⟩
  obtain rfl | hmoment := List.mem_cons.mp h
  · exact hempty []
  obtain hstarted | hrest := List.mem_append.mp hmoment
  · cases List.mem_singleton.mp hstarted
    exact hempty _
  · exact Traced.inOrder_moments setting none rfl (List.Subset.refl _) (hempty _) moment hrest

/-- Whatever the line holds, the stacks are in order all the time. So a function written after its
operand finds nothing to settle, and works on the number on top; and nothing stops the settling at
the end but a fault. -/
theorem solve_inOrder (setting : Setting) (keys : Line) (start : Nat) :
    (setting.moments keys start).map Moment.machine = setting.states keys start ∧
      (∀ moment ∈ setting.moments keys start,
        moment.machine.InOrder keys start moment.cursor ∧
          (∀ f offset, moment.machine.AppliesToTop setting f offset) ∧
          moment.machine.Drains setting) ∧
      (((∃ value, (setting.solve keys start).result = .ok value) ∨
          ∃ stop, (setting.solve keys start).result = .error (.nothingToSolve stop)) →
        (setting.solve keys start).machine.commands = []) := by
  refine ⟨map_machine_moments setting keys start, fun moment hmoment => ?_, commands_of_concluded⟩
  have hmachine := inOrder_of_mem_moments hmoment
  exact ⟨hmachine, fun f offset => appliesToTop setting f offset hmachine.numbers_le,
    drains setting hmachine.numbers_le⟩

/-- Five commands are pending in `(1+2*~3^4!` when the factorial comes. None is when `(1+2*~3!` has
been solved. -/
theorem solve_inOrder_before_factorial :
    let setting : Setting := ⟨fun _ _ => none, .degrees⟩
    let product : Line := [.openParen, .digit 1, .operator .add, .digit 2, .operator .multiply,
      .prefixFn .minus, .digit 3]
    let keys : Line := product ++ [.operator .power, .digit 4, .postfixFn .factorial]
    let pending : List Command := [⟨.operator .power, 7⟩, ⟨.prefixFn .minus, 5⟩,
      ⟨.operator .multiply, 4⟩, ⟨.operator .add, 2⟩, ⟨.paren, 0⟩]
    let machine : Machine := ⟨[4.0, 3.0, 2.0, 1.0], pending, [.started 0 keys]⟩
    let solution := setting.solve (product ++ [.postfixFn .factorial]) 0
    ⟨machine, 9⟩ ∈ setting.moments keys 0 ∧ machine.InOrder keys 0 9 ∧
      machine.AppliesToTop setting .factorial 9 ∧ machine.Drains setting ∧
      solution.result = .ok (-11.0) ∧ solution.machine.commands = [] := by
  intro setting product keys pending machine solution
  have hmoment : ⟨machine, 9⟩ ∈ setting.moments keys 0 := by decide +kernel
  have hvalue : solution.result = .ok (-11.0) := by decide +kernel
  obtain ⟨horder, happlies, hdrains⟩ := (solve_inOrder setting keys 0).2.1 _ hmoment
  exact ⟨hmoment, horder, happlies .factorial 9, hdrains, hvalue,
    (solve_inOrder setting _ 0).2.2 (.inl ⟨_, hvalue⟩)⟩

end Setting
end PocketCalc
