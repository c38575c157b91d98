import Mathlib.Data.List.Perm.Subperm
import PocketCalc.Proofs.Expression.Scan
import PocketCalc.Proofs.Literal.Shape
import PocketCalc.Proofs.Memory.History
import PocketCalc.Proofs.Solver.States

/-! Flat expressions: operands with operators between them, and functions only behind an operand.
However many there are, the operators that are pending bind ever more tightly towards the top of the
stack, so that there is one of each precedence at most. Small stacks are enough for any length. -/

namespace PocketCalc

/-- A number or a variable, with any functions written after it. -/
inductive FlatOperand : List Key → Prop where
  | literal {keys : List Key} (h : IsLiteral keys) : FlatOperand keys
  | named {name : Char} (hname : 'A' ≤ name ∧ name ≤ 'Z') : FlatOperand [.letter name]
  | postfixed {keys : List Key} (h : FlatOperand keys) (f : PostfixFn) :
    FlatOperand (keys ++ [.postfixFn f])

/-- Operands with an operator between each two of them. -/
inductive Flat : List Key → Prop where
  | single {keys : List Key} (h : FlatOperand keys) : Flat keys
  | joined {keys rest : List Key} (h : FlatOperand keys) (op : Operator) (hrest : Flat rest) :
    Flat (keys ++ .operator op :: rest)

/-! ## The tokens of a flat row -/

/-- The tokens go on from where an operand is complete, or has to come, to the end of a flat row.
Variables have values. -/
inductive FlatTokens (cell? : Char → Int → Option Float) : Bool → List Token → Prop where
  | nil : FlatTokens cell? true []
  | number {value : Float} {offset : Nat} {rest : List Token} (h : FlatTokens cell? true rest) :
    FlatTokens cell? false (⟨.number value, offset⟩ :: rest)
  | named {name : Char} {offset : Nat} {rest : List Token} (hcell : (cell? name 0).isSome)
      (h : FlatTokens cell? true rest) : FlatTokens cell? false (⟨.named name, offset⟩ :: rest)
  | postfixFn {f : PostfixFn} {offset : Nat} {rest : List Token} (h : FlatTokens cell? true rest) :
    FlatTokens cell? true (⟨.postfixFn f, offset⟩ :: rest)
  | operator {op : Operator} {offset : Nat} {rest : List Token} (h : FlatTokens cell? false rest) :
    FlatTokens cell? true (⟨.operator op, offset⟩ :: rest)

variable {cell? : Char → Int → Option Float} {keys rest : List Key}

theorem FlatOperand.tokenize (h : FlatOperand keys)
    (hcells : ∀ name, 'A' ≤ name ∧ name ≤ 'Z' → (cell? name 0).isSome) (start : Nat) :
    ∃ tokens, tokenize start keys = (tokens, .stop (start + keys.length)) ∧
      ∀ more, FlatTokens cell? true more → FlatTokens cell? false (tokens ++ more) := by
  induction h with
  | literal h =>
      obtain ⟨literal, hread, hwidth⟩ := (Literal.read_eq_ok_iff _).mpr h
      exact ⟨_, Expression.tokenize_literal start hread hwidth, fun more hmore => hmore.number⟩
  | @named name hname =>
      refine ⟨[⟨.named name, start⟩], ?_, fun more hmore => hmore.named (hcells name hname)⟩
      rw [tokenize_of_read (.named name) 1 rfl rfl, Nat.sub_self, List.drop_zero, tokenize_nil]
      rfl
  | @postfixed keys h f ih =>
      obtain ⟨tokens, htokens, hmore⟩ := ih
      refine ⟨tokens ++ [⟨.postfixFn f, start + keys.length⟩], ?_, fun more h => ?_⟩
      · rw [tokenize_append (startsAfresh_cons.mpr rfl), htokens, if_pos rfl,
          tokenize_of_read (.postfixFn f) 1 rfl rfl, Nat.sub_self, List.drop_zero, tokenize_nil,
          List.length_append]
        rfl
      · rw [List.append_assoc]
        exact hmore _ h.postfixFn

theorem Flat.tokenize (h : Flat keys)
    (hcells : ∀ name, 'A' ≤ name ∧ name ≤ 'Z' → (cell? name 0).isSome) (start : Nat) :
    FlatTokens cell? false (tokenize start keys).1 ∧
      (tokenize start keys).2 = .stop (start + keys.length) := by
  induction h generalizing start with
  | single h =>
      obtain ⟨tokens, htokens, hmore⟩ := h.tokenize hcells start
      rw [htokens]
      exact ⟨by simpa using hmore [] .nil, rfl⟩
  | @joined keys rest h op hrest ih =>
      obtain ⟨tokens, htokens, hmore⟩ := h.tokenize hcells start
      obtain ⟨hflat, hstop⟩ := ih (start + keys.length + 1)
      rw [tokenize_append (startsAfresh_cons.mpr rfl), htokens, if_pos rfl,
        tokenize_of_read (.operator op) 1 rfl rfl, Nat.sub_self, List.drop_zero]
      refine ⟨hmore _ hflat.operator, ?_⟩
      rw [hstop, List.length_append, List.length_cons]
      congr 1
      omega

/-! ## Pending operators -/

/-- Operators are pending and nothing else, and each of them binds more tightly than the one below
it. -/
def Ascends (commands : List Command) : Prop :=
  ∃ ops : List Operator, commands.map Command.kind = ops.map .operator ∧
    ops.Pairwise fun upper lower => lower.precedence < upper.precedence

theorem ascends_nil : Ascends [] := ⟨[], rfl, .nil⟩

/-- Operators have three precedences. -/
theorem Ascends.length_le {commands : List Command} (h : Ascends commands) :
    commands.length ≤ 3 := by
  obtain ⟨ops, hkinds, hops⟩ := h
  have hnodup : (ops.map Operator.precedence).Nodup :=
    List.pairwise_map.mpr (hops.imp fun hlt => Nat.ne_of_gt hlt)
  have hsubset : ops.map Operator.precedence ⊆ [1, 2, 5] := by
    intro precedence hmem
    obtain ⟨op, _, rfl⟩ := List.mem_map.mp hmem
    cases op <;> simp [Operator.precedence]
  have hlength := congrArg List.length hkinds
  have hthree := (hnodup.subperm hsubset).length_le
  simp only [List.length_map, List.length_cons, List.length_nil] at hlength hthree
  omega

theorem ascends_cons_iff {command : Command} {below : List Command} :
    Ascends (command :: below) ↔ ∃ op, command.kind = .operator op ∧ Ascends below ∧
      ∀ lower ∈ below, lower.kind.bindsLessThan op.precedence = true := by
  constructor
  · rintro ⟨ops, hkinds, hops⟩
    cases ops with
    | nil => cases hkinds
    | cons op ops =>
        simp only [List.map_cons, List.cons.injEq] at hkinds
        obtain ⟨hop, hbelow⟩ := List.pairwise_cons.mp hops
        refine ⟨op, hkinds.1, ⟨ops, hkinds.2, hbelow⟩, fun lower hlower => ?_⟩
        have hmem : lower.kind ∈ ops.map CommandKind.operator := by
          rw [← hkinds.2]
          exact List.mem_map_of_mem hlower
        obtain ⟨other, hother, hkind⟩ := List.mem_map.mp hmem
        rw [← hkind]
        simpa [CommandKind.bindsLessThan] using hop other hother
  · rintro ⟨op, hop, ⟨ops, hkinds, hops⟩, hbelow⟩
    refine ⟨op :: ops, by simp [hop, hkinds], List.pairwise_cons.mpr ⟨fun other hother => ?_, hops⟩⟩
    have hmem : CommandKind.operator other ∈ below.map Command.kind := by
      rw [hkinds]
      exact List.mem_map_of_mem hother
    obtain ⟨lower, hlower, hkind⟩ := List.mem_map.mp hmem
    have hless := hbelow lower hlower
    rw [hkind] at hless
    simpa [CommandKind.bindsLessThan] using hless

/-- An operator that binds more tightly than the top of the stack binds more tightly than all of
it. -/
theorem Ascends.push {commands : List Command} (h : Ascends commands) {op : Operator}
    (htop : ∀ command ∈ commands.head?, command.kind.bindsLessThan op.precedence = true)
    (offset : Nat) : Ascends (⟨.operator op, offset⟩ :: commands) := by
  refine ascends_cons_iff.mpr ⟨op, rfl, h, fun lower hlower => ?_⟩
  cases commands with
  | nil => cases hlower
  | cons top below =>
      obtain ⟨topOp, hkind, hbelow, hall⟩ := ascends_cons_iff.mp h
      have hless := htop top rfl
      rw [hkind] at hless
      rcases List.mem_cons.mp hlower with rfl | hlower
      · rwa [hkind]
      · have hlow := hall lower hlower
        cases hlowerKind : lower.kind with
        | operator lowerOp =>
            rw [hlowerKind] at hlow
            simp only [CommandKind.bindsLessThan, decide_eq_true_eq] at hlow hless ⊢
            omega
        | prefixFn f =>
            rw [hlowerKind] at hlow
            simp only [CommandKind.bindsLessThan, decide_eq_true_eq] at hlow hless ⊢
            omega
        | paren | index => rfl

namespace Machine

variable {setting : Setting} {stays : CommandKind → Bool} {machine : Machine}

/-- Three commands and four numbers at most. -/
def IsSmall (machine : Machine) : Prop :=
  machine.commands.length ≤ 3 ∧ machine.numbers.length ≤ 4

/-- The pending operators have their left operands, and there are some operands more. -/
structure Balanced (extra : Nat) (machine : Machine) : Prop where
  ascends : Ascends machine.commands
  numbers : machine.numbers.length = machine.commands.length + extra

theorem Balanced.isSmall {extra : Nat} (h : machine.Balanced extra) (hextra : extra ≤ 1) :
    machine.IsSmall := by
  have hlength := h.ascends.length_le
  have hnumbers := h.numbers
  exact ⟨hlength, by omega⟩

namespace Traced

/-- The fault is that an operation has no value. -/
def IsOutsideDomain (fault : Fault) : Prop := ∃ offset, fault = .outsideDomain offset

/-- A result is one number more. -/
theorem throughout_pushResult (hcommands : machine.commands.length ≤ 3)
    (hnumbers : machine.numbers.length ≤ 3) (value? : Option Float) (offset : Nat) :
    Throughout IsSmall IsOutsideDomain (step (pushResult offset value?)) machine
      fun _ after => after.commands = machine.commands ∧
        after.numbers.length = machine.numbers.length + 1 := by
  cases value? with
  | none => exact throughout_step_of_error rfl ⟨hcommands, by omega⟩ ⟨offset, rfl⟩
  | some value =>
      have hpush : pushResult offset (some value) machine =
          .ok () { machine with numbers := value :: machine.numbers } := by
        simp only [pushResult, pushNumber]
        rw [if_pos (by simp only [numberLimit]; omega)]
      refine throughout_step hpush ⟨hcommands, ?_⟩ ⟨rfl, rfl⟩
      simp only [List.length_cons]
      omega

/-- An operator takes two numbers off the stack and puts one on it. -/
theorem throughout_applyOperator (h : machine.Balanced 2) (hcommands : machine.commands.length ≤ 2)
    (op : Operator) (offset : Nat) :
    Throughout IsSmall IsOutsideDomain (applyOperator op offset) machine
      fun _ after => after.commands = machine.commands ∧ after.Balanced 1 := by
  obtain ⟨numbers, commands, events⟩ := machine
  obtain ⟨hascends, hnumbers⟩ := h
  rcases numbers with _ | ⟨right, _ | ⟨left, numbers⟩⟩
  · simp at hnumbers
  · simp at hnumbers
  · simp only [List.length_cons] at hnumbers hcommands
    have hsmall {taken : List Float} {events : List Event}
        (htaken : taken.length ≤ numbers.length + 2) : IsSmall ⟨taken, commands, events⟩ :=
      ⟨Nat.le_succ_of_le hcommands, by simp only; omega⟩
    refine throughout_step_bind rfl (hsmall (Nat.le_refl _)) ?_
    refine throughout_step_bind rfl (hsmall (Nat.le_succ _)) ?_
    refine throughout_step_bind rfl (hsmall (by omega)) ?_
    have hroom : numbers.length ≤ 3 := by omega
    refine (throughout_pushResult (Nat.le_succ_of_le hcommands) hroom _ _).mono ?_
    rintro _ after ⟨hafter, hlength⟩
    refine ⟨hafter, by rwa [hafter], ?_⟩
    rw [hafter, hlength]
    exact Nat.succ.inj hnumbers

/-- A function puts one number in the place of another. -/
theorem throughout_applyFn (h : machine.Balanced 1) (key : Key) (marker : Bool)
    (value? : Float → Option Float) (offset : Nat) :
    Throughout IsSmall IsOutsideDomain (applyFn key marker value? offset) machine
      fun _ after => after.Balanced 1 := by
  have hcommands := h.ascends.length_le
  obtain ⟨numbers, commands, events⟩ := machine
  obtain ⟨hascends, hnumbers⟩ := h
  rcases numbers with _ | ⟨operand, numbers⟩
  · simp at hnumbers
  · simp only [List.length_cons] at hnumbers hcommands
    have hsmall {taken : List Float} {events : List Event}
        (htaken : taken.length ≤ numbers.length + 1) : IsSmall ⟨taken, commands, events⟩ :=
      ⟨hcommands, by simp only; omega⟩
    refine throughout_step_bind rfl (hsmall (Nat.le_refl _)) ?_
    cases marker with
    | true => exact throughout_pure ⟨hascends, hnumbers⟩
    | false =>
        refine throughout_step_bind rfl (hsmall (Nat.le_succ _)) ?_
        have hroom : numbers.length ≤ 3 := by omega
        refine (throughout_pushResult hcommands hroom _ _).mono ?_
        rintro _ after ⟨hafter, hlength⟩
        refine ⟨by rwa [hafter], ?_⟩
        rw [hafter, hlength]
        exact hnumbers

/-! ## Settling -/

/-- Without the operator on top its right operand is one more. -/
theorem Balanced.below {command : Command} {below : List Command}
    (hmachine : machine.commands = command :: below) (h : machine.Balanced 1) :
    (∃ op, command.kind = .operator op) ∧ Balanced 2 { machine with commands := below } := by
  obtain ⟨hascends, hnumbers⟩ := h
  rw [hmachine] at hascends hnumbers
  obtain ⟨op, hkind, hbelow, _⟩ := ascends_cons_iff.mp hascends
  rw [List.length_cons] at hnumbers
  exact ⟨⟨op, hkind⟩, hbelow, by simp only; omega⟩

/-- Settling pending operators leaves those that bind less tightly, with their operands. -/
theorem throughout_unwind (setting : Setting) (stays : CommandKind → Bool) {commands : List Command}
    (hmachine : machine.commands = commands) (h : machine.Balanced 1) :
    Throughout IsSmall IsOutsideDomain (unwind setting stays commands) machine
      fun _ after => after.Balanced 1 ∧
        ∀ command ∈ after.commands.head?, stays command.kind = true := by
  induction commands generalizing machine with
  | nil => exact throughout_pure ⟨h, by simp [hmachine]⟩
  | cons command below ih =>
      rw [unwind]
      split
      · next hstays =>
          refine throughout_pure ⟨h, fun top htop => ?_⟩
          rw [hmachine] at htop
          cases htop
          exact hstays
      · -- the operator has its two operands
        obtain ⟨hcommands, hnumbers⟩ := h.isSmall (Nat.le_refl 1)
        rw [hmachine, List.length_cons] at hcommands
        obtain ⟨⟨op, hkind⟩, hbelow⟩ := Balanced.below hmachine h
        have hsettle : settle setting command = applyOperator op command.offset := by
          rw [settle, hkind]
        have hset : setCommands below machine = .ok () { machine with commands := below } := rfl
        rw [hsettle]
        refine throughout_step_bind hset ⟨Nat.le_of_succ_le hcommands, hnumbers⟩ ?_
        refine (throughout_applyOperator hbelow (Nat.le_of_succ_le_succ hcommands) op _).bind ?_
        rintro _ after ⟨hafter, hbalanced⟩
        exact ih hafter hbalanced

theorem throughout_settleUntil (setting : Setting) (stays : CommandKind → Bool)
    (h : machine.Balanced 1) :
    Throughout IsSmall IsOutsideDomain (settleUntil setting stays) machine
      fun _ after => after.Balanced 1 ∧
        ∀ command ∈ after.commands.head?, stays command.kind = true := by
  have hget : (get : Run Machine) machine = .ok machine machine := rfl
  exact throughout_step_bind hget (h.isSmall (Nat.le_refl 1))
    (throughout_unwind setting stays rfl h)

/-! ## Tokens -/

theorem throughout_checkNeighbours {previous : Option TokenKind} {current : TokenKind}
    {offset : Nat} {α : Type} {next : Traced α} {ends : α → Machine → Prop}
    (hfits : ∀ kind ∈ previous, current.mayFollow kind = true) (hsmall : machine.IsSmall)
    (h : Throughout IsSmall IsOutsideDomain next machine ends) :
    Throughout IsSmall IsOutsideDomain
      (step (checkNeighbours previous current offset) >>= fun _ => next) machine ends := by
  rw [checkNeighbours_of_fits hfits]
  exact throughout_step_bind rfl hsmall h

/-- An operand is one number more. -/
theorem throughout_pushNumber (h : machine.Balanced 0) (value : Float) (offset : Nat) :
    Throughout IsSmall IsOutsideDomain (step (pushNumber value offset) >>= fun _ => pure true)
      machine fun goesOn after => goesOn = true ∧ after.Balanced 1 := by
  have hlength := h.ascends.length_le
  have hnumbers := h.numbers
  have hpush : pushNumber value offset machine =
      .ok () { machine with numbers := value :: machine.numbers } := by
    rw [pushNumber, if_pos (by simp only [numberLimit]; omega)]
  have hafter : Balanced 1 { machine with numbers := value :: machine.numbers } :=
    ⟨h.ascends, congrArg (· + 1) hnumbers⟩
  exact throughout_step_bind hpush (hafter.isSmall (Nat.le_refl 1)) (throughout_pure ⟨rfl, hafter⟩)

/-- A function is applied to the operand on top. -/
theorem throughout_take_postfixFn (h : machine.Balanced 1) (f : PostfixFn) (offset : Nat) :
    Throughout IsSmall IsOutsideDomain (take setting ⟨.postfixFn f, offset⟩) machine
      fun goesOn after => goesOn = true ∧ after.Balanced 1 := by
  refine (throughout_settleUntil setting _ h).bind fun _ settled hsettled => ?_
  refine (throughout_applyFn hsettled.1 _ _ _ _).bind fun _ after hafter => ?_
  exact throughout_pure ⟨rfl, hafter⟩

/-- An operator settles what binds at least as tightly and waits on top of the rest. -/
theorem throughout_take_operator (h : machine.Balanced 1) (op : Operator) (offset : Nat) :
    Throughout IsSmall IsOutsideDomain (take setting ⟨.operator op, offset⟩) machine
      fun goesOn after => goesOn = true ∧ after.Balanced 0 := by
  refine (throughout_settleUntil setting _ h).bind fun _ settled hsettled => ?_
  have hlength := hsettled.1.ascends.length_le
  have hpush : pushCommand (.operator op) offset settled =
      .ok () { settled with commands := ⟨.operator op, offset⟩ :: settled.commands } := by
    rw [pushCommand, if_pos (by simp only [commandLimit]; omega)]
  have hafter :
      Balanced 0 { settled with commands := ⟨.operator op, offset⟩ :: settled.commands } :=
    ⟨hsettled.1.ascends.push hsettled.2 offset, hsettled.1.numbers⟩
  exact throughout_step_bind hpush (hafter.isSmall (Nat.zero_le 1)) (throughout_pure ⟨rfl, hafter⟩)

/-- One token of a flat row, and then the rest of it. -/
theorem throughout_scan_cons {ends next : Machine → Prop} {token : Token} {rest : List Token}
    {previous : Option TokenKind} {stop : Nat}
    (hfits : ∀ kind ∈ previous, token.kind.mayFollow kind = true) (hsmall : machine.IsSmall)
    (htake : Throughout IsSmall IsOutsideDomain (take setting token) machine
      fun goesOn after => goesOn = true ∧ next after)
    (hrest : ∀ after, next after → Throughout IsSmall IsOutsideDomain
      (scan setting (some token.kind) rest (.stop stop)) after fun _ last => ends last) :
    Throughout IsSmall IsOutsideDomain (scan setting previous (token :: rest) (.stop stop)) machine
      fun _ last => ends last := by
  refine throughout_checkNeighbours hfits hsmall (htake.bind fun goesOn after hafter => ?_)
  obtain ⟨rfl, hafter⟩ := hafter
  exact hrest after hafter

/-- An operand fits behind what awaits one, and all else behind what awaits none. -/
theorem fits_of_awaitsOperand {previous : Option TokenKind} {current : TokenKind} {awaits : Bool}
    (hprevious : ∀ kind ∈ previous, kind.awaitsOperand = awaits)
    (hcurrent : if awaits then current.needsOperand = false else current.isNumber = false) :
    ∀ kind ∈ previous, current.mayFollow kind = true := by
  intro kind hkind
  cases awaits with
  | true => exact TokenKind.mayFollow_of_awaitsOperand (hprevious kind hkind) hcurrent
  | false => exact TokenKind.mayFollow_of_not_awaitsOperand (hprevious kind hkind) hcurrent

/-- The scan comes through a flat row and leaves operators with both their operands. -/
theorem throughout_scan {complete : Bool} {tokens : List Token}
    (htokens : FlatTokens setting.cell? complete tokens) {previous : Option TokenKind}
    (hprevious : ∀ kind ∈ previous, kind.awaitsOperand = !complete)
    (h : machine.Balanced complete.toNat) (stop : Nat) :
    Throughout IsSmall IsOutsideDomain (scan setting previous tokens (.stop stop)) machine
      fun _ after => after.Balanced 1 := by
  have hsmall := h.isSmall (Bool.toNat_le complete)
  induction htokens generalizing previous machine with
  | nil =>
      exact throughout_checkNeighbours (fits_of_awaitsOperand hprevious rfl) hsmall
        (throughout_pure h)
  | @number value offset rest _ ih =>
      have htake := throughout_pushNumber h value offset
      refine throughout_scan_cons (fits_of_awaitsOperand hprevious rfl) hsmall htake
        fun after hafter => ih ?_ hafter (hafter.isSmall (Nat.le_refl 1))
      simp [TokenKind.awaitsOperand]
  | @named name offset rest hcell _ ih =>
      obtain ⟨value, hvalue⟩ := Option.isSome_iff_exists.mp hcell
      have htake := throughout_pushNumber h value offset
      have hnamed : take setting ⟨.named name, offset⟩ =
          (step (pushNumber value offset) >>= fun _ => pure true) := by
        simp only [take, hvalue]
      rw [← hnamed] at htake
      refine throughout_scan_cons (fits_of_awaitsOperand hprevious rfl) hsmall htake
        fun after hafter => ih ?_ hafter (hafter.isSmall (Nat.le_refl 1))
      simp [TokenKind.awaitsOperand]
  | @postfixFn f offset rest _ ih =>
      refine throughout_scan_cons (fits_of_awaitsOperand hprevious rfl) hsmall
        (throughout_take_postfixFn h f offset)
        fun after hafter => ih ?_ hafter (hafter.isSmall (Nat.le_refl 1))
      simp [TokenKind.awaitsOperand]
  | @operator op offset rest _ ih =>
      refine throughout_scan_cons (fits_of_awaitsOperand hprevious rfl) hsmall
        (throughout_take_operator h op offset)
        fun after hafter => ih ?_ hafter (hafter.isSmall (Nat.zero_le 1))
      simp [TokenKind.awaitsOperand]

/-- The whole run on a flat row: at its end one number is left. -/
theorem throughout_solve {keys : List Key} (h : Flat keys)
    (hcells : ∀ name, 'A' ≤ name ∧ name ≤ 'Z' → (setting.cell? name 0).isSome) (start : Nat) :
    Throughout IsSmall IsOutsideDomain (solve setting start keys) {} fun _ _ => True := by
  obtain ⟨htokens, hstop⟩ := h.tokenize hcells start
  have hempty : Balanced 0 { events := [.started start keys] } := ⟨ascends_nil, rfl⟩
  refine throughout_step_bind rfl (hempty.isSmall (Nat.zero_le 1)) ?_
  rw [hstop]
  refine (throughout_scan htokens (by simp) hempty _).bind fun stop scanned hscanned => ?_
  refine (throughout_settleUntil setting _ hscanned).bind fun _ settled hsettled => ?_
  obtain ⟨hbalanced, htop⟩ := hsettled
  have hnumbers := hbalanced.numbers
  rcases hcases : settled.numbers with _ | ⟨value, below⟩
  · simp [hcases] at hnumbers
  · exact throughout_step (conclude_of_numbers hcases stop) (hbalanced.isSmall (Nat.le_refl 1))
      trivial

end Traced
end Machine

/-- A flat expression of any length is solved with three commands and four numbers at most on the
stacks, whatever the memory has gone through and in any unit, as long as words can count the cells.
It has a value, or one of its operations has none. -/
theorem Setting.solve_flat {line : Line} {start : Nat} (h : Flat (line.drop start))
    {history : List Memory.Change} (hcount : Memory.extent history < wordLimit)
    (unit : AngleUnit) :
    (∀ state ∈ Setting.states ⟨(Memory.after history).cell?, unit⟩ line start,
        state.commands.length ≤ 3 ∧ state.numbers.length ≤ 4) ∧
      ((∃ value, (Setting.solve ⟨(Memory.after history).cell?, unit⟩ line start).result =
          .ok value) ∨
        ∃ offset, (Setting.solve ⟨(Memory.after history).cell?, unit⟩ line start).result =
          .error (.outsideDomain offset)) := by
  have hcells : ∀ name, 'A' ≤ name ∧ name ≤ 'Z' → ((Memory.after history).cell? name 0).isSome :=
    fun name hname => (Memory.hasNamedCells_after hcount).isSome_cell? hname
  have hrun :=
    @Machine.Traced.throughout_solve ⟨(Memory.after history).cell?, unit⟩ _ h hcells start
  obtain ⟨hstates, hvalue | ⟨_, ⟨offset, rfl⟩, hfault⟩⟩ :=
    Setting.forall_states ⟨Nat.zero_le 3, Nat.zero_le 4⟩ hrun
  · exact ⟨hstates, .inl hvalue⟩
  · exact ⟨hstates, .inr ⟨offset, hfault⟩⟩

/-- `1+2*3^A²` fills three places for commands and four for numbers. -/
theorem Setting.solve_flat_filled :
    let line : Line := [.digit 1, .operator .add, .digit 2, .operator .multiply, .digit 3,
      .operator .power, .letter 'A', .postfixFn .square]
    let states := Setting.states ⟨(Memory.after [.store 'A' 0 2.0]).cell?, .degrees⟩ line 0
    Flat line ∧ Memory.extent [.store 'A' 0 2.0] < wordLimit ∧
      (∀ state ∈ states, state.commands.length ≤ 3 ∧ state.numbers.length ≤ 4) ∧
      ∃ state ∈ states, state.commands.length = 3 ∧ state.numbers.length = 4 := by
  intro line states
  have hdigit (n : Nat) (hn : n ≤ 9) : FlatOperand [.digit n] :=
    .literal ⟨by simpa [Key.isLiteralKey_digit] using hn, by simp, n, by simp⟩
  have hflat : Flat line :=
    .joined (hdigit 1 (by decide)) .add <| .joined (hdigit 2 (by decide)) .multiply <|
      .joined (hdigit 3 (by decide)) .power <| .single (.postfixed (.named (by decide)) .square)
  have hrow : Flat (line.drop 0) := hflat
  have hcount : Memory.extent [.store 'A' 0 2.0] < wordLimit := by decide
  exact ⟨hflat, hcount, (solve_flat hrow hcount _).1, by decide +kernel⟩

/-- Extended past what words can count, a new memory is left with 25 cells, and the plain variable
`Z` is a flat expression with no cell to read. -/
theorem Setting.not_forall_solve_of_flat :
    ¬ ∀ (line : Line) (start : Nat) (history : List Memory.Change) (unit : AngleUnit),
      Flat (line.drop start) →
      (∃ value, (Setting.solve ⟨(Memory.after history).cell?, unit⟩ line start).result =
          .ok value) ∨
        ∃ offset, (Setting.solve ⟨(Memory.after history).cell?, unit⟩ line start).result =
          .error (.outsideDomain offset) := by
  intro h
  have hflat : Flat (([.letter 'Z'] : Line).drop 0) := .single (.named (by decide))
  have hfault : (Setting.solve ⟨(Memory.after [.extend (wordLimit - 1)]).cell?, .degrees⟩
      [.letter 'Z'] 0).result = .error (.noSuchCell 0) := by decide +kernel
  obtain ⟨_, hresult⟩ | ⟨_, hresult⟩ := h _ _ [.extend (wordLimit - 1)] .degrees hflat
  · cases hfault.symm.trans hresult
  · cases hfault.symm.trans hresult

end PocketCalc
