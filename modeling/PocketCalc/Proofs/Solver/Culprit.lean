import PocketCalc.Proofs.Solver.Outcome
import PocketCalc.Proofs.Solver.Room
import PocketCalc.Proofs.Token.Places

/-! Which key a fault blames. Operations are applied long after they have been read, but each of
them keeps the offset of its key, and so every pending command still has its own key in the line. -/

namespace PocketCalc

/-- A number that stands in the line goes on the stack at the key. -/
def Key.pushesNumber : Key → Bool
  | .digit _ | .dot | .letter _ => true
  | _ => false

/-- A command goes on the stack at the key. -/
def Key.pushesCommand : Key → Bool
  | .letter _ | .openParen | .prefixFn _ | .operator _ => true
  | _ => false

/-- The key stands at the offset in the line, not before the start. -/
structure StandsAt (keys : Line) (start : Nat) (key : Key) (offset : Nat) : Prop where
  start_le : start ≤ offset
  getElem?_eq : keys[offset]? = some key

theorem StandsAt.le_length {keys : Line} {start offset : Nat} {key : Key}
    (h : StandsAt keys start key offset) : offset ≤ keys.length :=
  Nat.le_of_lt (List.getElem?_eq_some_iff.mp h.getElem?_eq).1

/-- The token begins with the key. -/
def TokenKind.BeginsWith (key : Key) : TokenKind → Prop
  | number _ => key.isNumeric = true
  | kind => kind.ownKeys.head? = some key

theorem TokenKind.beginsWith_of_read {key : Key} {rest : List Key} {kind : TokenKind} {width : Nat}
    (h : TokenKind.read (key :: rest) = .ok (kind, width)) (hend : kind.isEnd = false) :
    kind.BeginsWith key := by
  unfold TokenKind.read at h
  split at h
  case h_12 n keys hkeys | h_13 keys hkeys =>
    cases hkeys
    obtain ⟨literal, _, rfl, rfl⟩ := TokenKind.literal_of_read h
    rfl
  all_goals
    cases h
    simp_all [BeginsWith, ownKeys, isEnd]

/-- The key that a token begins with stands in the line. -/
theorem standsAt_of_mem_tokenize {keys : Line} {start : Nat} {token : Token}
    (h : token ∈ (tokenize start (keys.drop start)).1) :
    ∃ key, StandsAt keys start key token.offset ∧ token.kind.BeginsWith key := by
  obtain ⟨hend, hlow, width, hread⟩ := read_of_mem_tokenize h
  obtain ⟨kind, offset⟩ := token
  rw [List.drop_drop, Nat.add_sub_cancel' hlow] at hread
  cases hkeys : keys.drop offset with
  | nil =>
      rw [hkeys] at hread
      cases hread
      cases hend
  | cons key rest =>
      rw [hkeys] at hread
      refine ⟨key, ⟨hlow, ?_⟩, TokenKind.beginsWith_of_read hread hend⟩
      rw [← List.head?_drop, hkeys, List.head?_cons]

/-- The fault is one that can arise from what stands at its offset, from the start on. -/
inductive Blames (keys : Line) (start : Nat) : Fault → Machine → Prop where
  | malformed {cause : Malformation} {offset : Nat} {machine : Machine} (hlow : start ≤ offset)
      (hhigh : offset ≤ keys.length) : Blames keys start (.malformed cause offset) machine
  | nothingToSolve {offset : Nat} {machine : Machine} (hlow : start ≤ offset)
      (hhigh : offset ≤ keys.length) : Blames keys start (.nothingToSolve offset) machine
  | applied {key : Key} {offset : Nat} {fault : Fault} {machine : Machine}
      (hkey : StandsAt keys start key offset) (h : ApplyFault key offset fault) :
      Blames keys start fault machine
  | numbersFull {key : Key} {offset : Nat} {machine : Machine}
      (hkey : StandsAt keys start key offset) (h : key.pushesNumber = true)
      (hfull : machine.numbers.length = numberLimit) : Blames keys start (.stackFull offset) machine
  | commandsFull {key : Key} {offset : Nat} {machine : Machine}
      (hkey : StandsAt keys start key offset) (h : key.pushesCommand = true)
      (hfull : commandLimit ≤ machine.commands.length) :
      Blames keys start (.stackFull offset) machine

/-- A stack is full where a key of the line has to go on it. -/
theorem Blames.of_stackFull {keys : Line} {start offset : Nat} {machine : Machine}
    (h : Blames keys start (.stackFull offset) machine) : ∃ key, keys[offset]? = some key ∧
      (key.pushesNumber = true ∧ machine.numbers.length = numberLimit ∨
        key.pushesCommand = true ∧ commandLimit ≤ machine.commands.length) := by
  cases h with
  | applied _ happlied => cases happlied
  | numbersFull hkey hpushes hfull => exact ⟨_, hkey.getElem?_eq, .inl ⟨hpushes, hfull⟩⟩
  | commandsFull hkey hpushes hfull => exact ⟨_, hkey.getElem?_eq, .inr ⟨hpushes, hfull⟩⟩

/-- The key of the command stands in the line. -/
def Command.StandsIn (keys : Line) (start : Nat) (command : Command) : Prop :=
  StandsAt keys start command.kind.key command.offset

namespace Machine

variable {keys : Line} {start offset room : Nat} {key : Key} {machine after : Machine}

/-! ## Tokens -/

theorem spares_pushOperand (hkey : StandsAt keys start key offset) (h : key.pushesNumber = true)
    (value : Float) :
    Spares (Command.StandsIn keys start) 0 0 (pushNumber value offset) (Blames keys start) := by
  intro machine hroom
  by_cases hfull : numberLimit ≤ machine.numbers.length
  · unfold pushNumber
    rw [if_neg (Nat.not_lt.mpr hfull)]
    refine ⟨fun a after hrun => ?_, fun fault after hrun => ?_⟩
    · cases hrun
    · cases hrun
      have hlength := hroom.length_le
      exact ⟨.numbersFull hkey h (Nat.le_antisymm hlength hfull), hlength⟩
  · exact spares_pushNumber value offset machine ⟨hroom.allowed, by omega⟩

theorem spares_pushCommand (kind : CommandKind) (hkey : StandsAt keys start kind.key offset) :
    Spares (Command.StandsIn keys start) 0 0 (pushCommand kind offset) (Blames keys start) := by
  intro machine hroom
  unfold pushCommand
  split
  · refine ⟨fun a after hrun => ?_, fun fault after hrun => ?_⟩
    · cases hrun
      exact ⟨List.forall_mem_cons.mpr ⟨hkey, hroom.allowed⟩, hroom.numbers_le⟩
    · cases hrun
  · next hfull =>
      refine ⟨fun a after hrun => ?_, fun fault after hrun => ?_⟩
      · cases hrun
      · cases hrun
        have hpushes : kind.key.pushesCommand = true := by cases kind <;> rfl
        exact ⟨.commandsFull hkey hpushes (Nat.not_lt.mp hfull), hroom.length_le⟩

/-- Settling blames the keys of the commands that are settled. -/
theorem spares_settleUntil_in (setting : Setting) (stays : CommandKind → Bool) :
    Spares (Command.StandsIn keys start) 0 0 (settleUntil setting stays) (Blames keys start) := by
  refine (spares_settleUntil setting stays).mono ?_
  rintro fault machine ⟨command, hcommand, hfault⟩
  exact .applied hcommand hfault

theorem spares_closeParen (setting : Setting) (hkey : StandsAt keys start key offset) :
    Spares (Command.StandsIn keys start) 0 0 (closeParen setting offset) (Blames keys start) := by
  refine (spares_settleUntil_in setting CommandKind.isOpener).bind fun _ machine hroom => ?_
  have hget : (get : Run Machine) machine = .ok machine machine := rfl
  have hunopened : Spares (Command.StandsIn keys start) 0 0
      (throw (.malformed .unopenedParen offset) : Run Unit) (Blames keys start) :=
    spares_throw fun _ => .malformed hkey.start_le hkey.le_length
  rw [bind_of_ok hget]
  cases hcommands : machine.commands with
  | nil => exact hunopened machine hroom
  | cons command below =>
      obtain ⟨kind, opener⟩ := command
      cases kind with
      | paren =>
          refine ⟨fun a after h => ?_, fun fault after h => ?_⟩
          · cases h
            exact (hroom.below hcommands).2
          · cases h
      | _ => exact hunopened machine hroom

theorem spares_closeBracket (setting : Setting) (hkey : StandsAt keys start .closeBracket offset) :
    Spares (Command.StandsIn keys start) 0 0 (closeBracket setting offset) (Blames keys start) := by
  have hreads : Key.closeBracket.readsCell = true := rfl
  refine (spares_settleUntil_in setting CommandKind.isIndex).bind fun _ machine hroom => ?_
  have hget : (get : Run Machine) machine = .ok machine machine := rfl
  rw [bind_of_ok hget]
  cases hcommands : machine.commands with
  | nil => exact spares_pure false machine hroom
  | cons command below =>
      obtain ⟨kind, opener⟩ := command
      cases kind with
      | index name =>
          -- the value is fetched with the index taken off the stack of commands
          have hfetches : Spares (Command.StandsIn keys start) 0 0 (fetch setting name offset)
              (Blames keys start) :=
            (spares_fetch setting name hreads offset).mono fun _ _ => .applied hkey
          exact (hfetches.bind fun _ => spares_pure true) { machine with commands := below }
            (hroom.below hcommands).2
      | _ => exact spares_pure false machine hroom

/-- A token blames its own key, or that of a command which it settles. -/
theorem spares_take (setting : Setting) {token : Token}
    (hkey : StandsAt keys start key token.offset) (hbegins : token.kind.BeginsWith key) :
    Spares (Command.StandsIn keys start) 0 0 (take setting token) (Blames keys start) := by
  obtain ⟨kind, offset⟩ := token
  have hgoesOn : ∀ _ : Unit,
      Spares (Command.StandsIn keys start) 0 0 (pure true : Run Bool) (Blames keys start) :=
    fun _ => spares_pure true
  cases kind with
  | number value =>
      have hnumber : key.pushesNumber = true := by
        cases key with
        | digit | dot => rfl
        | _ => cases hbegins
      exact (spares_pushOperand hkey hnumber value).bind hgoesOn
  | named name =>
      cases hbegins
      cases hcell : setting.cell? name 0 with
      | none =>
          rw [take_named_of_none hcell]
          exact spares_throw fun _ => .applied hkey (.noSuchCell rfl)
      | some value =>
          rw [take_named_of_some hcell]
          exact (spares_pushOperand hkey rfl value).bind hgoesOn
  | indexed name =>
      cases hbegins
      exact (spares_pushCommand (.index name) hkey).bind hgoesOn
  | prefixFn f =>
      cases hbegins
      exact (spares_pushCommand (.prefixFn f) hkey).bind hgoesOn
  | openParen =>
      cases hbegins
      exact (spares_pushCommand .paren hkey).bind hgoesOn
  | operator op =>
      cases hbegins
      exact (spares_settleUntil_in setting _).bind fun _ =>
        (spares_pushCommand (.operator op) hkey).bind hgoesOn
  | postfixFn f =>
      cases hbegins
      refine (spares_settleUntil_in setting _).bind fun _ => Spares.bind ?_ hgoesOn
      exact (spares_applyFn (fun _ => PostfixFn.isPartial_of_value?) offset).mono
        fun _ _ => .applied hkey
  | closeParen => exact (spares_closeParen setting hkey).bind hgoesOn
  | closeBracket =>
      cases hbegins
      exact spares_closeBracket setting hkey
  | lineEnd | foreign => exact spares_pure false

/-! ## Expressions -/

theorem spares_checkNeighbours (previous : Option TokenKind) (current : TokenKind)
    (hlow : start ≤ offset) (hhigh : offset ≤ keys.length) :
    Spares (Command.StandsIn keys start) room room (checkNeighbours previous current offset)
      (Blames keys start) := by
  cases previous with
  | none => exact spares_pure ()
  | some kind =>
      by_cases hfit : current.mayFollow kind = true
      · have hpass : checkNeighbours (some kind) current offset = pure () := if_pos hfit
        rw [hpass]
        exact spares_pure ()
      · have hstop : checkNeighbours (some kind) current offset =
            throw (.malformed .neighbours offset) := if_neg hfit
        rw [hstop]
        exact spares_throw fun _ => .malformed hlow hhigh

theorem spares_scan (setting : Setting) (previous : Option TokenKind) {tokens : List Token}
    (htokens : ∀ token ∈ tokens, ∃ key, StandsAt keys start key token.offset ∧
      token.kind.BeginsWith key) {ending : Ending} (hlow : start ≤ ending.offset)
    (hhigh : ending.offset ≤ keys.length) :
    Spares (Command.StandsIn keys start) 0 0 (scan setting previous tokens ending)
      (Blames keys start) := by
  induction tokens generalizing previous with
  | nil =>
      cases ending with
      | malformed place => exact spares_throw fun _ => .malformed hlow hhigh
      | stop place =>
          exact (spares_checkNeighbours previous .lineEnd hlow hhigh).bind fun _ =>
            spares_pure place
  | cons token rest ih =>
      obtain ⟨⟨key, hkey, hbegins⟩, hrest⟩ := List.forall_mem_cons.mp htokens
      refine (spares_checkNeighbours previous token.kind hkey.start_le hkey.le_length).bind
        fun _ => (spares_take setting hkey hbegins).bind fun goesOn => ?_
      cases goesOn with
      | true => exact ih (some token.kind) hrest
      | false => exact spares_pure token.offset

theorem spares_finish (setting : Setting) {stop : Nat} (hlow : start ≤ stop)
    (hhigh : stop ≤ keys.length) :
    Spares (Command.StandsIn keys start) 0 0 (finish setting stop) (Blames keys start) := by
  refine (spares_settleUntil_in setting _).bind fun _ machine hroom => ?_
  cases hnumbers : machine.numbers with
  | nil =>
      rw [conclude_of_numbers_nil hnumbers]
      exact spares_throw (fun _ => .nothingToSolve hlow hhigh) machine hroom
  | cons value below =>
      rw [conclude_of_numbers hnumbers]
      refine ⟨fun a after h => ?_, fun fault after h => ?_⟩
      · cases h
        exact ⟨hroom.allowed, hroom.numbers_le⟩
      · cases h

/-- A fault of an expression blames what stands at its offset. -/
theorem spares_solve (setting : Setting) (hstart : start ≤ keys.length) :
    Spares (Command.StandsIn keys start) 0 0 (solve setting start (keys.drop start))
      (Blames keys start) := by
  have hrow : ∀ offset, InRow start (keys.drop start) offset →
      start ≤ offset ∧ offset ≤ keys.length := by
    intro offset hoffset
    rw [InRow, List.length_drop] at hoffset
    omega
  obtain ⟨htokens, hending⟩ := tokenize_inRow start (keys.drop start)
  obtain ⟨hlow, hhigh⟩ := hrow _ hending
  rw [solve_eq_finish]
  refine (spares_record _).bind fun _ => Spares.bind_of_ok
    (spares_scan setting none (fun _ => standsAt_of_mem_tokenize) hlow hhigh) ?_
  intro machine stop scanned hscan
  have hstop : InRow start (keys.drop start) stop := by
    obtain ⟨token, hmem, rfl⟩ | hend := scan_stop hscan
    · exact htokens token hmem
    · rwa [hend] at hending
  obtain ⟨hlow, hhigh⟩ := hrow stop hstop
  exact spares_finish setting hlow hhigh

end Machine

namespace Setting

variable {setting : Setting} {keys : Line} {start : Nat} {fault : Fault}

theorem hasRoom_new (keys : Line) (start : Nat) :
    Machine.HasRoom (Command.StandsIn keys start) 0 {} :=
  ⟨by simp, Nat.zero_le _⟩

/-- The fault of an expression blames what stands at its offset. -/
theorem blames_of_result (hstart : start ≤ keys.length)
    (h : (setting.solve keys start).result = .error fault) :
    Blames keys start fault (setting.solve keys start).machine := by
  obtain ⟨after, hrun⟩ := run_of_result_error h
  rw [machine_of_error hrun]
  exact ((Machine.spares_solve setting hstart {} (hasRoom_new keys start)).2 fault after hrun).1

/-- There are never more numbers than the stack holds. -/
theorem length_numbers_le (setting : Setting) (hstart : start ≤ keys.length) :
    (setting.solve keys start).machine.numbers.length ≤ numberLimit := by
  obtain ⟨hok, herror⟩ := Machine.spares_solve setting hstart {} (hasRoom_new keys start)
  cases hresult : (setting.solve keys start).result with
  | ok value =>
      obtain ⟨after, hrun⟩ := run_of_result_ok hresult
      rw [solve_of_ok hrun]
      exact (hok _ after hrun).length_le
  | error fault =>
      obtain ⟨after, hrun⟩ := run_of_result_error hresult
      rw [machine_of_error hrun]
      exact (herror fault after hrun).2

end Setting
end PocketCalc
