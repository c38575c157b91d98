import PocketCalc.Proofs.Solver.Beginning
import PocketCalc.Proofs.Solver.Malformation
import PocketCalc.Proofs.Solver.Stop

/-! When there is nothing to solve. Once there is a number on the stack there will always be one,
since whatever takes numbers puts one in their place. And a token that needs no operand before it is
a number, or waits for one. So an expression without a number is one of degree marks alone, which
ask for nothing. -/

namespace PocketCalc

/-- An expression that stands before this key is over. -/
def Key.endsExpression : Key → Bool
  | .closeBracket | .openBracket | .separator _ => true
  | _ => false

/-- The row is at an end of an expression. -/
def EndsExpression (keys : List Key) : Prop := ∀ key ∈ keys.head?, key.endsExpression = true

theorem endsExpression_nil : EndsExpression [] := by
  simp [EndsExpression]

theorem endsExpression_cons {key : Key} {rest : List Key} :
    EndsExpression (key :: rest) ↔ key.endsExpression = true := by
  simp [EndsExpression]

namespace Machine

variable {α β : Type} {x : Run α} {setting : Setting} {machine after start : Machine}

/-! ## A number is never lost -/

/-- Where the run succeeds, there is a number on the stack. -/
def LeavesNumber (x : Run α) : Prop :=
  ∀ machine a after, x machine = .ok a after → after.numbers ≠ []

/-- Where the run succeeds and there was a number on the stack, there still is one. -/
def KeepsNumber (x : Run α) : Prop :=
  ∀ machine a after, x machine = .ok a after → machine.numbers ≠ [] → after.numbers ≠ []

theorem LeavesNumber.keeps (h : LeavesNumber x) : KeepsNumber x :=
  fun machine a after hrun _ => h machine a after hrun

theorem LeavesNumber.after_bind {f : α → Run β} (hf : ∀ a, LeavesNumber (f a)) :
    LeavesNumber (x >>= f) := by
  intro machine b after h
  obtain ⟨a, next, _, hafter⟩ := bind_eq_ok h
  exact hf a next b after hafter

theorem KeepsNumber.bind {f : α → Run β} (hx : KeepsNumber x) (hf : ∀ a, KeepsNumber (f a)) :
    KeepsNumber (x >>= f) := by
  intro machine b after h hnumber
  obtain ⟨a, next, hnext, hafter⟩ := bind_eq_ok h
  exact hf a next b after hafter (hx machine a next hnext hnumber)

theorem keepsNumber_pure (a : α) : KeepsNumber (pure a : Run α) := by
  intro machine b after h hnumber
  cases h
  exact hnumber

theorem keepsNumber_recordApplied (key : Key) (offset : Nat) :
    KeepsNumber (recordApplied key offset) := by
  intro machine a after h hnumber
  cases h
  exact hnumber

theorem keepsNumber_pushCommand (kind : CommandKind) (offset : Nat) :
    KeepsNumber (pushCommand kind offset) := by
  intro machine a after h hnumber
  unfold pushCommand at h
  split at h <;> cases h
  exact hnumber

theorem leavesNumber_pushNumber (value : Float) (offset : Nat) :
    LeavesNumber (pushNumber value offset) := by
  intro machine a after h
  unfold pushNumber at h
  split at h <;> cases h
  exact List.cons_ne_nil _ _

theorem leavesNumber_pushResult (offset : Nat) (value? : Option Float) :
    LeavesNumber (pushResult offset value?) := by
  cases value? with
  | none =>
      intro machine a after h
      cases h
  | some value => exact leavesNumber_pushNumber value offset

theorem leavesNumber_applyOperator (op : Operator) (offset : Nat) :
    LeavesNumber (applyOperator op offset) :=
  .after_bind fun _ => .after_bind fun _ => .after_bind fun _ => leavesNumber_pushResult offset _

theorem keepsNumber_applyFn (key : Key) (marker : Bool) (value? : Float → Option Float)
    (offset : Nat) : KeepsNumber (applyFn key marker value? offset) := by
  refine (keepsNumber_recordApplied key offset).bind fun _ => ?_
  cases marker with
  | true => exact keepsNumber_pure ()
  | false => exact LeavesNumber.keeps (.after_bind fun _ => leavesNumber_pushResult offset _)

theorem leavesNumber_fetch (setting : Setting) (name : Char) (offset : Nat) :
    LeavesNumber (fetch setting name offset) := by
  refine .after_bind fun index => ?_
  cases setting.cell? name (Binary64.toIndex index) with
  | none =>
      intro machine a after h
      cases h
  | some value => exact .after_bind fun _ => leavesNumber_pushNumber value offset

theorem keepsNumber_settle (setting : Setting) (command : Command) :
    KeepsNumber (settle setting command) := by
  obtain ⟨kind, offset⟩ := command
  cases kind with
  | operator op => exact (leavesNumber_applyOperator op offset).keeps
  | prefixFn f => exact keepsNumber_applyFn _ _ _ offset
  | paren => exact keepsNumber_pure ()
  | index name => exact (leavesNumber_fetch setting name offset).keeps

theorem keepsNumber_settleUntil (setting : Setting) (stays : CommandKind → Bool) :
    KeepsNumber (settleUntil setting stays) := by
  intro machine _ after h
  refine settleUntil_induction (fun _ _ hnumber => hnumber) ?_ h
  intro machine settled after command below _ _ hsettle _ ih hnumber
  exact ih (keepsNumber_settle setting command _ _ settled hsettle hnumber)

theorem keepsNumber_closeParen (setting : Setting) (offset : Nat) :
    KeepsNumber (closeParen setting offset) := by
  intro machine _ after h hnumber
  obtain ⟨settled, opener, below, hsettle, _, rfl⟩ := closeParen_eq_ok h
  exact keepsNumber_settleUntil setting _ machine _ settled hsettle hnumber

theorem keepsNumber_closeBracket (setting : Setting) (offset : Nat) :
    KeepsNumber (closeBracket setting offset) := by
  intro machine _ after h hnumber
  obtain ⟨_, settled, name, opener, below, _, _, hfetch⟩ | ⟨_, hsettle, _⟩ := closeBracket_eq_ok h
  · exact leavesNumber_fetch setting name offset _ _ _ hfetch
  · exact keepsNumber_settleUntil setting _ machine _ after hsettle hnumber

theorem keepsNumber_take (setting : Setting) (token : Token) :
    KeepsNumber (take setting token) := by
  obtain ⟨kind, offset⟩ := token
  have hgoesOn : ∀ _ : Unit, KeepsNumber (pure true : Run Bool) := fun _ => keepsNumber_pure true
  cases kind with
  | number value => exact (leavesNumber_pushNumber value offset).keeps.bind hgoesOn
  | named name =>
      intro machine goesOn after h
      obtain ⟨value, _, hnumber⟩ := take_named_eq_ok h
      exact (leavesNumber_pushNumber value offset).keeps.bind hgoesOn _ _ _ hnumber
  | indexed name => exact (keepsNumber_pushCommand (.index name) offset).bind hgoesOn
  | prefixFn f => exact (keepsNumber_pushCommand (.prefixFn f) offset).bind hgoesOn
  | openParen => exact (keepsNumber_pushCommand .paren offset).bind hgoesOn
  | operator op =>
      exact (keepsNumber_settleUntil setting _).bind fun _ =>
        (keepsNumber_pushCommand (.operator op) offset).bind hgoesOn
  | postfixFn f =>
      exact (keepsNumber_settleUntil setting _).bind fun _ =>
        (keepsNumber_applyFn _ _ _ offset).bind hgoesOn
  | closeParen => exact (keepsNumber_closeParen setting offset).bind hgoesOn
  | closeBracket => exact keepsNumber_closeBracket setting offset
  | lineEnd | foreign => exact keepsNumber_pure false

/-! ## A number is needed -/

/-- An operand that is a token on its own puts a number on the stack. -/
theorem number_of_take {token : Token} (h : take setting token machine = .ok true after)
    (hneeds : token.kind.needsOperand = false) (hawaits : token.kind.awaitsOperand = false) :
    after.numbers ≠ [] := by
  obtain ⟨kind, offset⟩ := token
  cases kind with
  | number value =>
      obtain ⟨_, pushed, hpush, ⟨⟩⟩ := bind_eq_ok h
      exact leavesNumber_pushNumber value offset _ _ _ hpush
  | named name =>
      obtain ⟨value, _, hnumber⟩ := take_named_eq_ok h
      obtain ⟨_, pushed, hpush, ⟨⟩⟩ := bind_eq_ok hnumber
      exact leavesNumber_pushNumber value offset _ _ _ hpush
  | indexed | operator | prefixFn | openParen => cases hawaits
  | _ => cases hneeds

/-- Where nothing is open, a degree mark changes nothing on the stacks. -/
theorem take_degreeMark (setting : Setting) (hcommands : machine.commands = []) (offset : Nat) :
    ∃ after, take setting ⟨.postfixFn .degreeMark, offset⟩ machine = .ok true after ∧
      after.numbers = machine.numbers ∧ after.commands = [] := by
  obtain ⟨numbers, commands, events⟩ := machine
  cases hcommands
  exact ⟨_, rfl, rfl, rfl⟩

/-- As long as there is no number, either only degree marks have been taken, or an operand is
awaited. -/
theorem Takes.marks_or_number {tokens : List Token} (h : Takes setting start tokens machine)
    (hnumbers : start.numbers = []) (hcommands : start.commands = []) :
    ((∀ token ∈ tokens, token.kind = .postfixFn .degreeMark) ∧
        machine.numbers = [] ∧ machine.commands = []) ∨
      machine.numbers ≠ [] ∨ ∃ last ∈ tokens.getLast?, last.kind.awaitsOperand = true := by
  induction h with
  | nil => exact .inl ⟨by simp, hnumbers, hcommands⟩
  | @snoc tokens token machine after _ hfit htake ih =>
      -- what needs no operand before it brings a number, or awaits an operand
      have hbrings (hneeds : token.kind.needsOperand = false) : after.numbers ≠ [] ∨
          ∃ last ∈ (tokens ++ [token]).getLast?, last.kind.awaitsOperand = true := by
        cases hawaits : token.kind.awaitsOperand with
        | true => exact .inr ⟨token, by simp, hawaits⟩
        | false => exact .inl (number_of_take htake hneeds hawaits)
      cases hneeds : token.kind.needsOperand with
      | false => exact .inr (hbrings hneeds)
      | true =>
          obtain ⟨hmarks, hnone, hopen⟩ | hnumber | ⟨last, hlast, hawaits⟩ := ih
          · obtain hop | hmark := isOperator_or_degreeMark_of_take hnone hopen htake hneeds
            · exact .inr (.inr ⟨token, by simp, TokenKind.awaitsOperand_of_isOperator hop⟩)
            · obtain ⟨kind, offset⟩ := token
              obtain rfl : kind = .postfixFn .degreeMark := hmark
              obtain ⟨marked, hmarked, hsame, hclosed⟩ := take_degreeMark setting hopen offset
              rw [hmarked] at htake
              cases htake
              refine .inl ⟨?_, hsame.trans hnone, hclosed⟩
              rw [List.forall_mem_append, List.forall_mem_singleton]
              exact ⟨hmarks, rfl⟩
          · exact .inr (.inl (keepsNumber_take setting token _ _ _ htake hnumber))
          · rw [TokenKind.awaitsOperand_of_mayFollow (hfit last hlast) hneeds] at hawaits
            cases hawaits

end Machine

/-! ## Degree marks in a row -/

theorem tokenize_degreeMark (start : Nat) (keys : List Key) :
    tokenize start (.postfixFn .degreeMark :: keys) =
      (⟨.postfixFn .degreeMark, start⟩ :: (tokenize (start + 1) keys).1,
        (tokenize (start + 1) keys).2) :=
  tokenize_of_read (.postfixFn .degreeMark) 1 rfl rfl

/-- Tokens that are degree marks are made of such keys. -/
theorem keys_of_tokenize_marks {start : Nat} {keys : List Key} {taken behind : List Token}
    (htokens : (tokenize start keys).1 = taken ++ behind)
    (hmarks : ∀ token ∈ taken, token.kind = .postfixFn .degreeMark) :
    ∃ rest, keys = List.replicate taken.length (.postfixFn .degreeMark) ++ rest ∧
      (tokenize (start + taken.length) rest).1 = behind ∧
      (tokenize (start + taken.length) rest).2 = (tokenize start keys).2 := by
  induction taken generalizing start keys with
  | nil => exact ⟨keys, rfl, htokens, rfl⟩
  | cons first taken ih =>
      obtain ⟨hfirst, htaken⟩ := List.forall_mem_cons.mp hmarks
      have hhead : first ∈ (tokenize start keys).1.head? := by
        rw [htokens]
        rfl
      obtain ⟨key, rest, width, rfl, hread⟩ := read_of_head_tokenize hhead
      rw [hfirst] at hread
      obtain rfl : key = .postfixFn .degreeMark := (key_of_read hread).2 _ rfl
      rw [tokenize_degreeMark] at htokens ⊢
      obtain ⟨more, rfl, hmore⟩ := ih (List.cons.inj htokens).2 htaken
      rw [Nat.add_assoc, Nat.add_comm 1] at hmore
      exact ⟨more, rfl, hmore⟩

/-- A row whose tokens are over, or begin with a closing bracket, is at an end of an expression. -/
theorem endsExpression_of_read {keys : List Key} {kind : TokenKind} {width : Nat}
    (hread : TokenKind.read keys = .ok (kind, width))
    (hkind : kind = .closeBracket ∨ kind.isEnd = true) : EndsExpression keys := by
  unfold TokenKind.read at hread
  split at hread
  case h_12 | h_13 =>
    obtain ⟨literal, _, rfl, rfl⟩ := TokenKind.literal_of_read hread
    simp [TokenKind.isEnd] at hkind
  all_goals
    cases hread
    simp_all [endsExpression_nil, endsExpression_cons, Key.endsExpression, TokenKind.isEnd]

theorem endsExpression_of_tokenize {start : Nat} {keys : List Key} {token : Token}
    (htoken : token ∈ ((tokenize start keys).1 ++ (tokenize start keys).2.token?.toList).head?)
    (hkind : token.kind = .closeBracket ∨ token.kind.isEnd = true) :
    EndsExpression keys ∧ token.offset = start := by
  fun_induction tokenize start keys with
  | case1 start =>
      cases htoken
      exact ⟨endsExpression_nil, rfl⟩
  | case2 => cases htoken
  | case3 start key rest kind width hread hend =>
      cases htoken
      exact ⟨endsExpression_of_read hread (.inr hend), rfl⟩
  | case4 start key rest kind width hread hend tokens ending =>
      cases htoken
      exact ⟨endsExpression_of_read hread hkind, rfl⟩

namespace Machine

variable {setting : Setting} {machine after : Machine} {start stop : Nat} {keys rest : List Key}
  {previous : Option TokenKind}

/-- Where nothing is open, a scan halts at an end of an expression. -/
theorem scan_of_endsExpression (hkeys : EndsExpression keys) (hcommands : machine.commands = [])
    (hprevious : ∀ kind ∈ previous, kind = .postfixFn .degreeMark) (start : Nat) :
    scan setting previous (tokenize start keys).1 (tokenize start keys).2 machine =
      .ok start machine := by
  have hhalts : scan setting previous [] (.stop start) machine = .ok start machine := by
    rw [scan_nil fun kind hkind => by rw [hprevious kind hkind]; rfl]
    rfl
  cases keys with
  | nil => rwa [tokenize_nil]
  | cons key rest =>
      have hkey := endsExpression_cons.mp hkeys
      cases key with
      | closeBracket =>
          have htake : take setting ⟨.closeBracket, start⟩ machine = .ok false machine :=
            closeBracket_of_commands_nil hcommands start
          rw [tokenize_of_read .closeBracket 1 rfl rfl,
            scan_cons fun kind hkind => by rw [hprevious kind hkind]; rfl, bind_of_ok htake]
          rfl
      | openBracket | separator =>
          rw [tokenize_of_isEnd .foreign 0 rfl rfl]
          exact hhalts
      | _ => cases hkey

/-- A scan over nothing but degree marks leaves the stacks empty. -/
theorem scan_marks (setting : Setting) (hrest : EndsExpression rest)
    (hnumbers : machine.numbers = []) (hcommands : machine.commands = [])
    (hprevious : ∀ kind ∈ previous, kind = .postfixFn .degreeMark) (start count : Nat) :
    ∃ scanned, scan setting previous
        (tokenize start (List.replicate count (.postfixFn .degreeMark) ++ rest)).1
        (tokenize start (List.replicate count (.postfixFn .degreeMark) ++ rest)).2 machine =
          .ok (start + count) scanned ∧
      scanned.numbers = [] ∧ scanned.commands = [] := by
  induction count generalizing start machine previous with
  | zero =>
      exact ⟨machine, scan_of_endsExpression hrest hcommands hprevious start, hnumbers, hcommands⟩
  | succ count ih =>
      obtain ⟨marked, htake, hmarked, hopen⟩ := take_degreeMark setting hcommands start
      have hmark : ∀ kind ∈ some (TokenKind.postfixFn .degreeMark),
          kind = .postfixFn .degreeMark := by simp
      obtain ⟨scanned, hscan, hempty⟩ := ih (hmarked.trans hnumbers) hopen hmark (start + 1)
      refine ⟨scanned, ?_, hempty⟩
      rw [Nat.add_assoc, Nat.add_comm 1] at hscan
      simp only [List.replicate_succ, List.cons_append, tokenize_degreeMark]
      rw [scan_cons fun kind hkind => by rw [hprevious kind hkind]; rfl, bind_of_ok htake]
      exact hscan

/-- There is nothing to solve exactly where degree marks are all that there is of the expression. -/
theorem solve_eq_nothingToSolve_iff_marks (setting : Setting) (start : Nat) (keys : List Key)
    (stop : Nat) :
    (∃ after, solve setting start keys {} = .error (.nothingToSolve stop) after) ↔
      ∃ count rest, keys = List.replicate count (.postfixFn .degreeMark) ++ rest ∧
        EndsExpression rest ∧ stop = start + count := by
  constructor
  · rintro ⟨after, h⟩
    obtain ⟨scanned, hscan, hsettle, hnumbers⟩ := solve_eq_nothingToSolve_iff.mp h
    obtain ⟨taken, behind, next, token, htokens, htaken, htoken, hfit, htake, rfl⟩ :=
      scan_eq_ok hscan
    obtain ⟨hneeds, hsame⟩ := take_eq_ok_false htake
    obtain ⟨hmarks, _⟩ | hnumber | ⟨last, hlast, hawaits⟩ := htaken.marks_or_number rfl rfl
    · obtain ⟨rest, rfl, rfl, hending⟩ := keys_of_tokenize_marks htokens hmarks
      rw [← hending] at htoken
      obtain ⟨hends, hoffset⟩ :=
        endsExpression_of_tokenize htoken (eq_closeBracket_or_isEnd_of_take htake)
      exact ⟨taken.length, rest, rfl, hends, hoffset⟩
    · rw [hsame] at hsettle
      exact absurd hnumbers (keepsNumber_settleUntil setting _ next () after hsettle hnumber)
    · rw [TokenKind.awaitsOperand_of_mayFollow (hfit last hlast) hneeds] at hawaits
      cases hawaits
  · rintro ⟨count, rest, rfl, hrest, rfl⟩
    have hstarted : (started start
        (List.replicate count (.postfixFn .degreeMark) ++ rest)).numbers = [] := rfl
    have hnone : ∀ kind ∈ (none : Option TokenKind), kind = .postfixFn .degreeMark := by simp
    obtain ⟨scanned, hscan, hnumbers, hcommands⟩ :=
      scan_marks setting hrest hstarted rfl hnone start count
    exact ⟨scanned, solve_eq_nothingToSolve_iff.mpr
      ⟨scanned, hscan, settleUntil_of_commands_nil hcommands, hnumbers⟩⟩

end Machine

namespace Setting

/-- There is nothing to solve if and only if nothing but degree marks stands before the end of the
expression, and the fault tells where they end. Beyond the line there is never anything to solve. -/
theorem solve_nothingToSolve (setting : Setting) (line : Line) (start : Nat) :
    (∀ offset, (setting.solve line start).result = .error (.nothingToSolve offset) ↔
        ∃ count rest, line.drop start = List.replicate count (.postfixFn .degreeMark) ++ rest ∧
          EndsExpression rest ∧ offset = start + count) ∧
      (line.length < start →
        (setting.solve line start).result = .error (.nothingToSolve start)) := by
  have hiff : ∀ offset, (setting.solve line start).result = .error (.nothingToSolve offset) ↔
      ∃ count rest, line.drop start = List.replicate count (.postfixFn .degreeMark) ++ rest ∧
        EndsExpression rest ∧ offset = start + count := by
    intro offset
    rw [← Machine.solve_eq_nothingToSolve_iff_marks setting]
    exact ⟨run_of_result_error, fun ⟨after, hrun⟩ => result_of_error hrun⟩
  refine ⟨hiff, fun hbeyond => (hiff start).mpr ⟨0, [], ?_, endsExpression_nil, rfl⟩⟩
  rw [List.drop_eq_nil_of_le (Nat.le_of_lt hbeyond)]
  rfl

/-- Of `,',` there is nothing to solve at the mark, which ends before the second comma, nor behind
the line. -/
theorem solve_nothingToSolve_at_mark :
    (Setting.solve ⟨fun _ _ => none, .degrees⟩
        [.separator .comma, .postfixFn .degreeMark, .separator .comma] 1).result =
          .error (.nothingToSolve 2) ∧
      [Key.separator .comma, .postfixFn .degreeMark, .separator .comma].length < 5 ∧
      (Setting.solve ⟨fun _ _ => none, .degrees⟩
        [.separator .comma, .postfixFn .degreeMark, .separator .comma] 5).result =
          .error (.nothingToSolve 5) := by
  have hbeyond : [Key.separator .comma, .postfixFn .degreeMark, .separator .comma].length < 5 := by
    decide
  have hends : EndsExpression [.separator .comma] := endsExpression_cons.mpr rfl
  exact ⟨((solve_nothingToSolve _ _ 1).1 2).mpr ⟨1, [.separator .comma], rfl, hends, rfl⟩, hbeyond,
    (solve_nothingToSolve _ _ 5).2 hbeyond⟩

end Setting
end PocketCalc
