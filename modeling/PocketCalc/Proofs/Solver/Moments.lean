import PocketCalc.Proofs.Solver.Progress
import PocketCalc.Proofs.Solver.States
import PocketCalc.Proofs.Token.Tiling

/-! The machines that a run comes through, each with the place up to which the line has been read
for it. Here the tokens are not cut beforehand: they come from a lexer, one after the other, and the
lexer goes back over a bracket that is no part of the expression. Without the cursors, the moments
are the machines of the run itself. -/

namespace PocketCalc

/-- A machine in the course of a run, and the cursor of the lexer that it is fed from. -/
structure Moment where
  machine : Machine
  cursor : Nat
  deriving DecidableEq, Repr

namespace Machine.Traced

variable {α β : Type}

/-- The machines of a second run, if the first one succeeds and comes to it. -/
def statesAfter (x : Traced α) (f : α → Traced β) (machine : Machine) : List Machine :=
  match x.run machine with
  | .ok a next => (f a).states next
  | .error _ _ => []

theorem states_bind (x : Traced α) (f : α → Traced β) (machine : Machine) :
    (x >>= f).states machine = x.states machine ++ x.statesAfter f machine := by
  unfold statesAfter states run
  rw [bind_apply]
  rcases x machine with ⟨⟨a, next⟩ | ⟨fault, next⟩, before⟩
  · rfl
  · exact (List.append_nil before).symm

instance : LawfulMonad Traced := by
  refine LawfulMonad.mk' Traced (fun x => ?_) (fun a f => rfl) (fun x f g => ?_)
  · funext machine
    change (x >>= fun a => pure a) machine = x machine
    simp only [bind]
    rcases x machine with ⟨⟨a, next⟩ | ⟨fault, next⟩, before⟩
    · exact Prod.ext rfl (List.append_nil before)
    · rfl
  · funext machine
    simp only [bind]
    rcases x machine with ⟨⟨a, next⟩ | ⟨fault, next⟩, before⟩
    · simp only
      rcases f a next with ⟨⟨b, last⟩ | ⟨fault, last⟩, between⟩
      · exact Prod.ext rfl (List.append_assoc before between _)
      · rfl
    · rfl

/-- The moments of a run during which the cursor stays where it is. -/
def momentsAt (cursor : Nat) (x : Traced α) (machine : Machine) : List Moment :=
  (x.states machine).map (Moment.mk · cursor)

theorem map_machine_momentsAt (cursor : Nat) (x : Traced α) (machine : Machine) :
    (x.momentsAt cursor machine).map Moment.machine = x.states machine := by
  simp [momentsAt, Function.comp_def]

/-- A token that has been read is compared with the one before it and taken. -/
def accept (setting : Setting) (previous : Option TokenKind) (token : Token) : Traced Bool := do
  step (checkNeighbours previous token.kind token.offset)
  take setting token

/-- Whatever is still open is closed at the end of the expression. -/
def finish (setting : Setting) (stop : Nat) : Traced (Float × Nat) := do
  settleUntil setting fun _ => false
  step (conclude stop)

end Machine.Traced

open Machine.Traced

/-- The moments from the next token to the end of the run. -/
def Lexer.moments (setting : Setting) (previous : Option TokenKind) (lexer : Lexer)
    (machine : Machine) : List Moment :=
  match _ : lexer.next with
  | .error fault => momentsAt lexer.offset (step (throw fault : Run Unit)) machine
  | .ok (token, next) =>
    (accept setting previous token).momentsAt next.offset machine ++
      match (accept setting previous token).run machine with
      | .error _ _ => []
      | .ok goesOn after =>
        if _ : token.kind.isEnd = true then
          (finish setting next.offset).momentsAt next.offset after
        else if goesOn = true then next.moments setting (some token.kind) after
        else (finish setting next.rewind.offset).momentsAt next.rewind.offset after
termination_by lexer.line.length - lexer.offset
decreasing_by
  have hend := Bool.eq_false_iff.mpr ‹token.kind.isEnd ≠ true›
  obtain ⟨width, _, hpos, hle, _, rfl⟩ := next_of_not_isEnd ‹lexer.next = .ok (token, next)› hend
  simp only
  omega

namespace Machine.Traced

variable {setting : Setting} {previous : Option TokenKind} {token : Token} {machine : Machine}

/-- From the tokens ahead of a lexer to the end of the run. -/
def solveFrom (setting : Setting) (previous : Option TokenKind) (lexer : Lexer) :
    Traced (Float × Nat) := do
  let row := tokenize lexer.offset (lexer.line.drop lexer.offset)
  let stop ← scan setting previous row.1 row.2
  finish setting stop

/-- A check leaves the machine alone, and lets neighbours pass that fit together. -/
theorem states_checkNeighbours_bind (previous : Option TokenKind) (current : TokenKind)
    (offset : Nat) (f : Unit → Traced α) (machine : Machine) :
    (step (checkNeighbours previous current offset) >>= f).states machine =
      machine :: if previous.all current.mayFollow then (f ()).states machine else [] := by
  rw [states_bind, statesAfter, run_step]
  cases previous with
  | none => rfl
  | some kind =>
      simp only [checkNeighbours, Option.all_some]
      by_cases hfit : current.mayFollow kind = true
      · simp only [hfit, if_true]
        rfl
      · simp only [hfit]
        rfl

/-- All ends have the same neighbours. -/
theorem mayFollow_of_isEnd {kind : TokenKind} (h : kind.isEnd = true) :
    kind.mayFollow = TokenKind.lineEnd.mayFollow := by
  cases kind with
  | lineEnd | foreign => rfl
  | _ => cases h

/-- An end is only compared with the token before it. -/
theorem accept_of_isEnd (h : token.kind.isEnd = true) :
    accept setting previous token =
      (do step (checkNeighbours previous token.kind token.offset); pure false) := by
  obtain ⟨kind, offset⟩ := token
  cases kind with
  | lineEnd | foreign => rfl
  | _ => cases h

/-- The run from a token on takes it, and goes on behind it or comes to the end. -/
theorem solveFrom_of_next {lexer next : Lexer} (h : lexer.next = .ok (token, next))
    (hend : token.kind.isEnd = false) :
    solveFrom setting previous lexer =
      (do
        if ← accept setting previous token then solveFrom setting (some token.kind) next
        else finish setting token.offset) := by
  simp only [solveFrom, accept, Lexer.tokenize_of_next h hend, scan, bind_assoc]
  congr
  funext _
  congr
  funext goesOn
  cases goesOn <;> simp

theorem run_accept (setting : Setting) (previous : Option TokenKind) (token : Token) :
    (accept setting previous token).run =
      (do checkNeighbours previous token.kind token.offset; Machine.take setting token) := by
  simp only [accept, run_bind, run_step, run_take]

/-- The lexer goes back to a bracket that closes no index. -/
theorem rewind_of_accept {lexer next : Lexer} {after : Machine} (h : lexer.next = .ok (token, next))
    (hend : token.kind.isEnd = false)
    (hrun : (accept setting previous token).run machine = .ok false after) :
    next.rewind.offset = token.offset := by
  rw [run_accept] at hrun
  obtain ⟨_, _, _, htake⟩ := bind_eq_ok hrun
  obtain ⟨width, hread, _, _, htoken, rfl⟩ := Lexer.next_of_not_isEnd h hend
  obtain hkind | hkind := eq_closeBracket_or_isEnd_of_take htake
  · have hspan := TokenKind.spans_of_read hread
    rw [hkind] at hspan
    cases hspan
    rw [htoken]
    rfl
  · rw [hkind] at hend
    cases hend

/-- The run from an end on comes to that end. -/
theorem states_solveFrom_of_isEnd {lexer next : Lexer} (h : lexer.next = .ok (token, next))
    (hend : token.kind.isEnd = true) :
    (solveFrom setting previous lexer).states machine =
      (accept setting previous token >>= fun _ => finish setting next.offset).states machine := by
  obtain rfl := Lexer.next_of_isEnd h hend
  simp only [solveFrom, Lexer.tokenize_of_next_isEnd h hend, scan, accept_of_isEnd hend, bind_assoc,
    pure_bind, states_checkNeighbours_bind, mayFollow_of_isEnd hend]

/-- Without their cursors the moments are the states of the run. -/
theorem map_machine_moments (setting : Setting) (previous : Option TokenKind) (lexer : Lexer)
    (machine : Machine) :
    (lexer.moments setting previous machine).map Moment.machine =
      (solveFrom setting previous lexer).states machine := by
  fun_induction Lexer.moments setting previous lexer machine with
  | case1 previous lexer machine fault hnext =>
      obtain ⟨offset, rfl, hrow⟩ := Lexer.tokenize_of_next_error hnext
      simp only [solveFrom, hrow, map_machine_momentsAt]
      rfl
  | case2 previous lexer machine token next hnext ih =>
      rw [List.map_append, map_machine_momentsAt]
      cases hend : token.kind.isEnd with
      | true =>
          rw [states_solveFrom_of_isEnd hnext hend, states_bind, statesAfter]
          congr 1
          cases (accept setting previous token).run machine with
          | error fault after => rfl
          | ok goesOn after => simp [map_machine_momentsAt]
      | false =>
          rw [solveFrom_of_next hnext hend, states_bind, statesAfter]
          congr 1
          cases hrun : (accept setting previous token).run machine with
          | error fault after => rfl
          | ok goesOn after =>
              cases goesOn with
              | true => simpa using ih after (by simp [hend])
              | false => simp [rewind_of_accept hnext hend hrun, map_machine_momentsAt]

end Machine.Traced

namespace Setting

open Machine

/-- The moments of solving, from the empty machine on. -/
def moments (setting : Setting) (keys : Line) (start : Nat) : List Moment :=
  let note : Run Unit := record (.started start (keys.drop start))
  ⟨{}, start⟩ :: ((Traced.step note).momentsAt start {} ++
    Lexer.moments setting none ⟨keys, start⟩ (machineOf (note {})))

theorem map_machine_moments (setting : Setting) (keys : Line) (start : Nat) :
    (setting.moments keys start).map Moment.machine = setting.states keys start := by
  simp only [moments, states, List.map_cons, List.map_append, Traced.map_machine_momentsAt,
    Traced.map_machine_moments]
  rfl

end Setting
end PocketCalc
