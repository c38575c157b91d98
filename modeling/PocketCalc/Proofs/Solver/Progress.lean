import PocketCalc.Proofs.Solver.Nesting
import PocketCalc.Proofs.Solver.Supply

/-! How far the tokens of a row are taken. A scan takes one token after the other, as long as they
fit and the expression goes on. What a single token preserves is preserved by all that are taken. -/

namespace PocketCalc

/-- The token that stands at the end of a row, if the row has an end. Its two kinds make no
difference to the token before it. -/
def Ending.token? : Ending → Option Token
  | stop offset => some ⟨.lineEnd, offset⟩
  | malformed _ => none

namespace Machine

variable {setting : Setting} {start machine next after : Machine} {tokens taken : List Token}

/-- The tokens fit together, and taking one after the other leads from one machine to another. -/
inductive Takes (setting : Setting) (start : Machine) : List Token → Machine → Prop where
  | nil : Takes setting start [] start
  | snoc {tokens : List Token} {token : Token} {machine after : Machine}
      (h : Takes setting start tokens machine) (hfit : token.FitsBehind tokens)
      (htake : take setting token machine = .ok true after) :
      Takes setting start (tokens ++ [token]) after

theorem Takes.neighboursFit (h : Takes setting start tokens machine) : NeighboursFit tokens := by
  induction h with
  | nil => exact List.isChain_nil
  | snoc _ hfit _ ih => exact ih.concat hfit

/-- The surplus on the stacks is that of the tokens. -/
theorem Takes.surplus_eq (h : Takes setting start tokens machine) :
    machine.surplus = start.surplus + PocketCalc.surplus tokens := by
  induction h with
  | nil => exact (Int.add_zero _).symm
  | snoc _ _ htake ih =>
      rw [surplus_of_take htake, ih, surplus_append, surplus_cons, surplus_nil]
      omega

/-- The brackets on the stack are those that the tokens leave open. -/
theorem Takes.brackets_eq (h : Takes setting start tokens machine) (hstart : start.commands = []) :
    brackets machine.commands = openBrackets tokens := by
  induction h with
  | nil => rw [hstart, openBrackets_nil]; rfl
  | snoc _ _ htake ih => rw [brackets_of_take htake, ih, openBrackets_concat]

theorem Takes.eq_start (h : Takes setting start [] machine) : machine = start := by
  generalize hnil : ([] : List Token) = tokens at h
  cases h with
  | nil => rfl
  | snoc => simp at hnil

/-- The first token is taken where the row starts. -/
theorem Takes.head (h : Takes setting start tokens machine) :
    ∀ token ∈ tokens.head?, ∃ after, take setting token start = .ok true after := by
  induction h with
  | nil => simp
  | @snoc tokens token machine after h _ htake ih =>
      cases tokens with
      | nil =>
          intro first hfirst
          cases hfirst
          rw [h.eq_start] at htake
          exact ⟨after, htake⟩
      | cons first rest => exact ih

/-- Where nothing is open, a token that needs an operand before it is taken only if it is an
operator or a function. -/
theorem isOperator_or_isPostfixFn_of_take {token : Token} (hcommands : machine.commands = [])
    (h : take setting token machine = .ok true after) (hneeds : token.kind.needsOperand = true) :
    token.kind.isOperator = true ∨ token.kind.isPostfixFn = true := by
  obtain ⟨kind, offset⟩ := token
  cases kind with
  | operator op => exact .inl rfl
  | postfixFn f => exact .inr rfl
  | closeParen =>
      obtain ⟨_, closed, hclose, _⟩ := bind_eq_ok h
      have hopen := brackets_of_closeParen hclose
      rw [hcommands] at hopen
      cases hopen
  | closeBracket =>
      have hopen := brackets_of_closeBracket h
      rw [hcommands] at hopen
      cases hopen
  | lineEnd | foreign => cases h
  | _ => cases hneeds

/-- Behind tokens that are complete, there is one number to spare for each juxtaposition and one for
the tokens themselves, apart from what they have needed at their head. -/
theorem Takes.surplus_add_needsOperand {first token : Token} {rest : List Token}
    (h : Takes setting start (first :: rest) machine) (hstart : start.surplus = 0)
    (hfit : token.FitsBehind (first :: rest)) (hneeds : token.kind.needsOperand = true) :
    machine.surplus + first.kind.needsOperand.toNat = 1 + juxtapositions (first :: rest) := by
  have hlast : (first :: rest).getLast? = some ((first :: rest).getLast (by simp)) :=
    List.getLast?_eq_some_getLast _
  have htokens := PocketCalc.surplus_add_needsOperand h.neighboursFit hlast
  rw [TokenKind.awaitsOperand_of_mayFollow (hfit _ hlast) hneeds, Bool.not_false,
    Bool.toNat_true] at htokens
  rw [h.surplus_eq, hstart]
  omega

/-- An expression is ended by a bracket that closes no index, if not by a token that is no part of
any. -/
theorem eq_closeBracket_or_isEnd_of_take {token : Token}
    (h : take setting token machine = .ok false after) :
    token.kind = .closeBracket ∨ token.kind.isEnd = true := by
  obtain ⟨kind, offset⟩ := token
  cases kind with
  | closeBracket => exact .inl rfl
  | lineEnd | foreign => exact .inr rfl
  | named name =>
      obtain ⟨value, _, hnumber⟩ := take_named_eq_ok h
      obtain ⟨_, _, _, hpure⟩ := bind_eq_ok hnumber
      cases hpure
  | operator | postfixFn =>
      obtain ⟨_, _, _, hrest⟩ := bind_eq_ok h
      obtain ⟨_, _, _, hpure⟩ := bind_eq_ok hrest
      cases hpure
  | number | indexed | prefixFn | openParen | closeParen =>
      obtain ⟨_, _, _, hpure⟩ := bind_eq_ok h
      cases hpure

/-- A token that ends the expression needs an operand before it, and leaves to the end what it has
not settled itself. -/
theorem take_eq_ok_false {token : Token} (h : take setting token machine = .ok false after) :
    token.kind.needsOperand = true ∧
      settleUntil setting (fun _ => false) after =
        settleUntil setting (fun _ => false) machine := by
  obtain ⟨kind, offset⟩ := token
  obtain hkind | hend := eq_closeBracket_or_isEnd_of_take h
  · cases hkind
    refine ⟨rfl, ?_⟩
    obtain ⟨htrue, _⟩ | ⟨_, hsettle, _⟩ := closeBracket_eq_ok h
    · cases htrue
    · have hnever : ∀ kind : CommandKind, (fun _ => false) kind = true → kind.isIndex = true := by
        simp
      rw [← settleUntil_settleUntil hnever machine, bind_of_ok hsettle]
  · refine ⟨TokenKind.needsOperand_of_isEnd hend, ?_⟩
    cases kind with
    | lineEnd | foreign =>
        cases h
        rfl
    | _ => cases hend

/-! ## Where a scan halts -/

theorem fitsBehind_iff {token : Token} :
    token.FitsBehind tokens ↔
      ∀ kind ∈ tokens.getLast?.map Token.kind, token.kind.mayFollow kind = true := by
  simp [Token.FitsBehind]

/-- The expression does not go on with the first of the tokens behind. -/
def HaltsAt (setting : Setting) (tokens behind : List Token) (machine : Machine) : Prop :=
  ∀ token ∈ behind.head?, token.FitsBehind tokens →
    ∀ after, take setting token machine ≠ .ok true after

/-- Scanning takes all the tokens that it can. -/
theorem Takes.scan_halts (h : Takes setting start taken machine) (rest : List Token)
    (ending : Ending) :
    ∃ more behind next, rest = more ++ behind ∧ Takes setting start (taken ++ more) next ∧
      HaltsAt setting (taken ++ more) behind next ∧
      scan setting (taken.getLast?.map Token.kind) rest ending machine =
        scan setting ((taken ++ more).getLast?.map Token.kind) behind ending next := by
  induction rest generalizing taken machine with
  | nil =>
      refine ⟨[], [], machine, rfl, ?_, ?_, ?_⟩
      · rwa [List.append_nil]
      · simp [HaltsAt]
      · rw [List.append_nil]
  | cons token rest ih =>
      -- the row is cut at the first token that does not fit or with which the scan does not go on
      by_cases hgo : token.FitsBehind taken ∧ ∃ after, take setting token machine = .ok true after
      · obtain ⟨hfit, after, htake⟩ := hgo
        obtain ⟨more, behind, next, rfl, hnext, hhalt, hscan⟩ := ih (h.snoc hfit htake)
        rw [List.append_assoc] at hnext hhalt hscan
        refine ⟨token :: more, behind, next, rfl, hnext, hhalt, ?_⟩
        rw [scan_cons (fitsBehind_iff.mp hfit), bind_of_ok htake]
        rw [List.getLast?_append] at hscan
        exact hscan
      · refine ⟨[], token :: rest, machine, rfl, ?_, ?_, ?_⟩
        · rwa [List.append_nil]
        · rw [List.append_nil]
          intro first hfirst hfit after htake
          cases hfirst
          exact hgo ⟨hfit, after, htake⟩
        · rw [List.append_nil]

/-- A scan from the start of a row comes through the tokens that it takes. -/
theorem scan_halts (setting : Setting) (start : Machine) (tokens : List Token) (ending : Ending) :
    ∃ taken behind next, tokens = taken ++ behind ∧ Takes setting start taken next ∧
      HaltsAt setting taken behind next ∧
      scan setting none tokens ending start =
        scan setting (taken.getLast?.map Token.kind) behind ending next := by
  have hnil : Takes setting start [] start := .nil
  exact hnil.scan_halts tokens ending

variable {behind : List Token} {ending : Ending}

/-- A scan that halts without a fault is at a token that ends the expression. -/
theorem HaltsAt.of_ok {stop : Nat} (h : HaltsAt setting tokens behind machine)
    (hrun : scan setting (tokens.getLast?.map Token.kind) behind ending machine = .ok stop after) :
    ∃ token ∈ (behind ++ ending.token?.toList).head?, token.FitsBehind tokens ∧
      take setting token machine = .ok false after ∧ token.offset = stop := by
  cases behind with
  | nil =>
      cases ending with
      | malformed offset => cases hrun
      | stop offset =>
          obtain ⟨_, checked, hcheck, hpure⟩ := bind_eq_ok hrun
          obtain ⟨hfit, rfl⟩ := fits_of_checkNeighbours hcheck
          cases hpure
          exact ⟨_, rfl, fitsBehind_iff.mpr hfit, rfl, rfl⟩
  | cons token rest =>
      obtain ⟨hfit, goesOn, taken, htake, hrest⟩ := scan_cons_eq_ok hrun
      obtain ⟨rfl, _⟩ | ⟨rfl, hstop, rfl⟩ := hrest
      · exact absurd htake (h token rfl (fitsBehind_iff.mpr hfit) taken)
      · exact ⟨token, rfl, fitsBehind_iff.mpr hfit, htake, hstop⟩

/-- A scan halts with a fault at a number that is none, at a token that does not fit, or at one that
cannot be taken. -/
theorem HaltsAt.of_error {fault : Fault} (h : HaltsAt setting tokens behind machine)
    (hrun : scan setting (tokens.getLast?.map Token.kind) behind ending machine =
      .error fault after) :
    (behind = [] ∧ ∃ offset, ending = .malformed offset ∧ fault = .malformed .number offset) ∨
      (∃ token ∈ (behind ++ ending.token?.toList).head?, ∃ last ∈ tokens.getLast?,
        token.kind.mayFollow last.kind = false ∧ fault = .malformed .neighbours token.offset) ∨
      ∃ token ∈ behind.head?, token.FitsBehind tokens ∧
        take setting token machine = .error fault after := by
  cases behind with
  | nil =>
      cases ending with
      | malformed offset =>
          cases hrun
          exact .inl ⟨rfl, offset, rfl, rfl⟩
      | stop offset =>
          obtain hcheck | ⟨_, checked, hcheck, hpure⟩ := bind_eq_error hrun
          · obtain ⟨⟨kind, hkind, hmisfit⟩, rfl⟩ := misfit_of_checkNeighbours hcheck
            obtain ⟨last, hlast, rfl⟩ := Option.map_eq_some_iff.mp hkind
            exact .inr (.inl ⟨_, rfl, last, hlast, hmisfit, rfl⟩)
          · cases hpure
  | cons token rest =>
      obtain hcheck | ⟨_, checked, hcheck, htake⟩ := bind_eq_error hrun
      · obtain ⟨⟨kind, hkind, hmisfit⟩, rfl⟩ := misfit_of_checkNeighbours hcheck
        obtain ⟨last, hlast, rfl⟩ := Option.map_eq_some_iff.mp hkind
        exact .inr (.inl ⟨token, rfl, last, hlast, hmisfit, rfl⟩)
      · obtain ⟨hfit, rfl⟩ := fits_of_checkNeighbours hcheck
        obtain htake | ⟨goesOn, taken, htake, hrest⟩ := bind_eq_error htake
        · exact .inr (.inr ⟨token, rfl, fitsBehind_iff.mpr hfit, htake⟩)
        · cases goesOn with
          | true => exact absurd htake (h token rfl (fitsBehind_iff.mpr hfit) taken)
          | false => cases hrest

/-- A scan that succeeds takes the tokens before one with which the expression does not go on, and
ends at that one. -/
theorem scan_eq_ok {stop : Nat} (h : scan setting none tokens ending start = .ok stop after) :
    ∃ taken behind next token, tokens = taken ++ behind ∧ Takes setting start taken next ∧
      token ∈ (behind ++ ending.token?.toList).head? ∧ token.FitsBehind taken ∧
      take setting token next = .ok false after ∧ token.offset = stop := by
  obtain ⟨taken, behind, next, htokens, htaken, hhalt, hsame⟩ :=
    scan_halts setting start tokens ending
  obtain ⟨token, htoken, hfit, htake, hstop⟩ := hhalt.of_ok (hsame.symm.trans h)
  exact ⟨taken, behind, next, token, htokens, htaken, htoken, hfit, htake, hstop⟩

end Machine
end PocketCalc
