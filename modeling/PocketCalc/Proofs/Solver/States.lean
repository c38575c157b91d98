import PocketCalc.Proofs.Solver.Equations
import PocketCalc.Proofs.Solver.Solution

/-! The machines that a run comes through. The runs of the solver are written down once more, each
with a list of the machines behind its single steps. Without these lists they are the runs
themselves, so that what holds of all the machines in a list holds throughout the run. -/

namespace PocketCalc

namespace Machine

/-- A run, and the machines behind its steps. -/
def Traced (α : Type) : Type := Machine → EStateM.Result Fault Machine α × List Machine

/-- The machine at the end of a run, whether it has failed or not. -/
def machineOf {α : Type} : EStateM.Result Fault Machine α → Machine
  | .ok _ after => after
  | .error _ after => after

namespace Traced

variable {α β : Type}

/-- A run that is one step. -/
def step (x : Run α) : Traced α := fun machine => (x machine, [machineOf (x machine)])

instance : Monad Traced where
  pure a := fun machine => (.ok a machine, [])
  bind x f := fun machine =>
    match x machine with
    | (.ok a next, states) => ((f a next).1, states ++ (f a next).2)
    | (.error fault next, states) => (.error fault next, states)

theorem bind_apply (x : Traced α) (f : α → Traced β) (machine : Machine) :
    (x >>= f) machine =
      match x machine with
      | (.ok a next, states) => ((f a next).1, states ++ (f a next).2)
      | (.error fault next, states) => (.error fault next, states) := rfl

/-- The run without its machines. -/
def run (x : Traced α) : Run α := fun machine => (x machine).1

/-- The machines behind the steps that are taken from a machine. -/
def states (x : Traced α) (machine : Machine) : List Machine := (x machine).2

@[simp] theorem run_step (x : Run α) : (step x).run = x := rfl

@[simp] theorem run_pure (a : α) : (pure a : Traced α).run = pure a := rfl

@[simp] theorem run_bind (x : Traced α) (f : α → Traced β) :
    (x >>= f).run = x.run >>= fun a => (f a).run := by
  funext machine
  simp only [run, bind, EStateM.bind]
  rcases x machine with ⟨a, next⟩ | ⟨fault, next⟩ <;> rfl

/-! ## The runs of the solver -/

def applyOperator (op : Operator) (offset : Nat) : Traced Unit := do
  step (recordApplied (.operator op) offset)
  let right ← step (popNumber offset)
  let left ← step (popNumber offset)
  step (pushResult offset (op.value? left right))

def applyFn (key : Key) (marker : Bool) (value? : Float → Option Float) (offset : Nat) :
    Traced Unit := do
  step (recordApplied key offset)
  if marker then pure ()
  else
    let operand ← step (popNumber offset)
    step (pushResult offset (value? operand))

def fetch (setting : Setting) (name : Char) (offset : Nat) : Traced Unit := do
  let index ← step (popNumber offset)
  match setting.cell? name (Binary64.toIndex index) with
  | none => step (throw (.noSuchCell offset))
  | some value =>
    step (record (.fetched name index value))
    step (pushNumber value offset)

def settle (setting : Setting) (command : Command) : Traced Unit :=
  match command.kind with
  | .operator op => applyOperator op command.offset
  | .prefixFn f => applyFn (.prefixFn f) f.isMarker (f.value? setting.unit) command.offset
  | .paren => pure ()
  | .index name => fetch setting name command.offset

def unwind (setting : Setting) (stays : CommandKind → Bool) : List Command → Traced Unit
  | [] => pure ()
  | command :: below =>
    if stays command.kind then pure ()
    else do
      step (setCommands below)
      settle setting command
      unwind setting stays below

def settleUntil (setting : Setting) (stays : CommandKind → Bool) : Traced Unit := do
  unwind setting stays (← step get).commands

def closeParen (setting : Setting) (offset : Nat) : Traced Unit := do
  settleUntil setting CommandKind.isOpener
  match (← step get).commands with
  | ⟨.paren, _⟩ :: below => step (setCommands below)
  | _ => step (throw (.malformed .unopenedParen offset))

def closeBracket (setting : Setting) (offset : Nat) : Traced Bool := do
  settleUntil setting CommandKind.isIndex
  match (← step get).commands with
  | ⟨.index name, _⟩ :: below =>
    step (setCommands below)
    fetch setting name offset
    pure true
  | _ => pure false

def take (setting : Setting) (token : Token) : Traced Bool :=
  let offset := token.offset
  match token.kind with
  | .number value => do step (pushNumber value offset); pure true
  | .named name =>
    match setting.cell? name 0 with
    | none => step (throw (.noSuchCell offset))
    | some value => do step (pushNumber value offset); pure true
  | .indexed name => do step (pushCommand (.index name) offset); pure true
  | .prefixFn f => do step (pushCommand (.prefixFn f) offset); pure true
  | .openParen => do step (pushCommand .paren offset); pure true
  | .operator op => do
    settleUntil setting (CommandKind.bindsLessThan op.precedence)
    step (pushCommand (.operator op) offset)
    pure true
  | .postfixFn f => do
    settleUntil setting (CommandKind.bindsLessThan f.precedence)
    applyFn (.postfixFn f) f.isMarker (f.value? setting.unit) offset
    pure true
  | .closeParen => do closeParen setting offset; pure true
  | .closeBracket => closeBracket setting offset
  | .lineEnd | .foreign => pure false

def scan (setting : Setting) (previous : Option TokenKind) : List Token → Ending → Traced Nat
  | [], .malformed offset => step (throw (.malformed .number offset))
  | [], .stop offset => do
    step (checkNeighbours previous .lineEnd offset)
    pure offset
  | token :: rest, ending => do
    step (checkNeighbours previous token.kind token.offset)
    if ← take setting token then scan setting (some token.kind) rest ending
    else pure token.offset

def solve (setting : Setting) (start : Nat) (keys : List Key) : Traced (Float × Nat) := do
  step (record (.started start keys))
  let stop ← scan setting none (tokenize start keys).1 (tokenize start keys).2
  settleUntil setting fun _ => false
  step (conclude stop)

/-! ## Without the machines -/

theorem run_applyOperator (op : Operator) (offset : Nat) :
    (applyOperator op offset).run = Machine.applyOperator op offset := by
  simp only [applyOperator, run_bind, run_step]
  rfl

theorem run_applyFn (key : Key) (marker : Bool) (value? : Float → Option Float) (offset : Nat) :
    (applyFn key marker value? offset).run = Machine.applyFn key marker value? offset := by
  simp only [applyFn, Machine.applyFn, run_bind, run_step]
  congr 1
  funext _
  cases marker with
  | true => rfl
  | false => exact run_bind _ _

theorem run_fetch (setting : Setting) (name : Char) (offset : Nat) :
    (fetch setting name offset).run = Machine.fetch setting name offset := by
  simp only [fetch, run_bind, run_step, Machine.fetch]
  congr 1
  funext index
  cases setting.cell? name (Binary64.toIndex index) with
  | none => rfl
  | some value => exact run_bind _ _

theorem run_settle (setting : Setting) (command : Command) :
    (settle setting command).run = Machine.settle setting command := by
  obtain ⟨kind, offset⟩ := command
  cases kind with
  | operator op => exact run_applyOperator op offset
  | prefixFn f => exact run_applyFn _ _ _ offset
  | paren => rfl
  | index name => exact run_fetch setting name offset

theorem run_unwind (setting : Setting) (stays : CommandKind → Bool) (commands : List Command) :
    (unwind setting stays commands).run = Machine.unwind setting stays commands := by
  induction commands with
  | nil => rfl
  | cons command below ih =>
      simp only [unwind, Machine.unwind]
      split
      · rfl
      · simp only [run_bind, run_step, run_settle, ih]

theorem run_settleUntil (setting : Setting) (stays : CommandKind → Bool) :
    (settleUntil setting stays).run = Machine.settleUntil setting stays := by
  simp only [settleUntil, run_bind, run_step, run_unwind]
  rfl

theorem run_closeParen (setting : Setting) (offset : Nat) :
    (closeParen setting offset).run = Machine.closeParen setting offset := by
  simp only [closeParen, run_bind, run_step, run_settleUntil, Machine.closeParen]
  congr 1
  funext _
  congr 1
  funext machine
  rcases machine.commands with _ | ⟨⟨kind, opener⟩, below⟩
  · rfl
  · cases kind <;> rfl

theorem run_closeBracket (setting : Setting) (offset : Nat) :
    (closeBracket setting offset).run = Machine.closeBracket setting offset := by
  simp only [closeBracket, run_bind, run_step, run_settleUntil, Machine.closeBracket]
  congr 1
  funext _
  congr 1
  funext machine
  rcases machine.commands with _ | ⟨⟨kind, opener⟩, below⟩
  · rfl
  · cases kind with
    | index name => simp only [run_bind, run_step, run_fetch, run_pure]
    | _ => rfl

theorem run_take (setting : Setting) (token : Token) :
    (take setting token).run = Machine.take setting token := by
  obtain ⟨kind, offset⟩ := token
  cases kind with
  | named name =>
      simp only [take, Machine.take]
      cases setting.cell? name 0 with
      | none => rfl
      | some value => exact run_bind _ _
  | operator op =>
      simp only [take, Machine.take, run_bind, run_step, run_settleUntil, run_pure]
  | postfixFn f =>
      simp only [take, Machine.take, run_bind, run_settleUntil, run_applyFn, run_pure,
        applyPostfixFn_eq_applyFn]
  | closeParen => simp only [take, Machine.take, run_bind, run_closeParen, run_pure]
  | closeBracket => exact run_closeBracket setting offset
  | lineEnd | foreign => rfl
  | _ => exact run_bind _ _

theorem run_scan (setting : Setting) (previous : Option TokenKind) (tokens : List Token)
    (ending : Ending) :
    (scan setting previous tokens ending).run = Machine.scan setting previous tokens ending := by
  induction tokens generalizing previous with
  | nil =>
      cases ending with
      | stop offset => exact run_bind _ _
      | malformed offset => rfl
  | cons token rest ih =>
      simp only [scan, Machine.scan, run_bind, run_step, run_take]
      congr 1
      funext _
      congr 1
      funext goesOn
      cases goesOn with
      | true => exact ih _
      | false => rfl

/-- The traced run of the solver is its run. -/
theorem run_solve (setting : Setting) (start : Nat) (keys : List Key) :
    (solve setting start keys).run = Machine.solve setting start keys := by
  simp only [solve, run_bind, run_step, run_scan, run_settleUntil, solve_eq_conclude]

/-! ## Throughout a run -/

/-- Every machine that the run comes through is as `always` says. The run ends as `ends` says, or
with a fault that `fails` allows. -/
def Throughout (always : Machine → Prop) (fails : Fault → Prop) (x : Traced α) (machine : Machine)
    (ends : α → Machine → Prop) : Prop :=
  (∀ state ∈ x.states machine, always state) ∧
    match x.run machine with
    | .ok a after => ends a after
    | .error fault _ => fails fault

variable {always : Machine → Prop} {fails : Fault → Prop} {machine after : Machine}
  {ends : α → Machine → Prop}

theorem throughout_pure {a : α} (h : ends a machine) :
    Throughout always fails (pure a) machine ends :=
  ⟨fun _ hstate => absurd hstate List.not_mem_nil, h⟩

theorem throughout_step {x : Run α} {a : α} (hx : x machine = .ok a after)
    (hstate : always after) (h : ends a after) :
    Throughout always fails (step x) machine ends := by
  constructor
  · intro state hmem
    rw [states, step, hx] at hmem
    cases List.mem_singleton.mp hmem
    exact hstate
  · rw [run_step, hx]
    exact h

theorem throughout_step_of_error {x : Run α} {fault : Fault} (hx : x machine = .error fault after)
    (hstate : always after) (h : fails fault) :
    Throughout always fails (step x) machine ends := by
  constructor
  · intro state hmem
    rw [states, step, hx] at hmem
    cases List.mem_singleton.mp hmem
    exact hstate
  · rw [run_step, hx]
    exact h

theorem Throughout.bind {x : Traced α} {f : α → Traced β} {last : β → Machine → Prop}
    (hx : Throughout always fails x machine ends)
    (hf : ∀ a next, ends a next → Throughout always fails (f a) next last) :
    Throughout always fails (x >>= f) machine last := by
  obtain ⟨hstates, hend⟩ := hx
  unfold states run at *
  rw [Throughout, states, run, bind_apply]
  rcases hxm : x machine with ⟨⟨a, next⟩ | ⟨fault, next⟩, before⟩
  · rw [hxm] at hstates hend
    obtain ⟨hmore, hlast⟩ := hf a next hend
    refine ⟨fun state hstate => ?_, hlast⟩
    rcases List.mem_append.mp hstate with hstate | hstate
    · exact hstates state hstate
    · exact hmore state hstate
  · rw [hxm] at hstates hend
    exact ⟨hstates, hend⟩

theorem Throughout.mono {x : Traced α} {last : α → Machine → Prop}
    (hx : Throughout always fails x machine ends) (h : ∀ a next, ends a next → last a next) :
    Throughout always fails x machine last := by
  obtain ⟨hstates, hend⟩ := hx
  refine ⟨hstates, ?_⟩
  cases hrun : x.run machine with
  | ok a next =>
      rw [hrun] at hend
      exact h a next hend
  | error fault next =>
      rw [hrun] at hend
      exact hend

theorem Throughout.weaken {x : Traced α} {looser : Machine → Prop}
    (hx : Throughout always fails x machine ends) (h : ∀ state, always state → looser state) :
    Throughout looser fails x machine ends :=
  ⟨fun state hstate => h state (hx.1 state hstate), hx.2⟩

/-- What is known of the run itself holds at its end as well. -/
theorem Throughout.and_run {x : Traced α} (hx : Throughout always fails x machine ends) :
    Throughout always fails x machine fun a after =>
      ends a after ∧ x.run machine = .ok a after := by
  obtain ⟨hstates, hend⟩ := hx
  refine ⟨hstates, ?_⟩
  cases hrun : x.run machine with
  | ok a after =>
      rw [hrun] at hend
      exact ⟨hend, rfl⟩
  | error fault after =>
      rw [hrun] at hend
      exact hend

/-- A first step leads to the machine from which the rest of the run is taken. -/
theorem throughout_step_bind {x : Run α} {a : α} {f : α → Traced β} {last : β → Machine → Prop}
    (hx : x machine = .ok a after) (hstate : always after)
    (hf : Throughout always fails (f a) after last) :
    Throughout always fails (step x >>= f) machine last := by
  have hstep : Throughout always fails (step x) machine fun b next => b = a ∧ next = after :=
    throughout_step hx hstate ⟨rfl, rfl⟩
  refine hstep.bind fun b next hb => ?_
  obtain ⟨rfl, rfl⟩ := hb
  exact hf

end Traced
end Machine

namespace Setting

open Machine

variable {setting : Setting} {line : Line} {start : Nat}

/-- The machines that solving comes through, from the empty one on. -/
def states (setting : Setting) (line : Line) (start : Nat) : List Machine :=
  {} :: (Traced.solve setting start (line.drop start)).states {}

/-- What holds throughout the run holds of the states, and the solution is a value or a fault that
is allowed. -/
theorem forall_states {always : Machine → Prop} {fails : Fault → Prop}
    {ends : Float × Nat → Machine → Prop} (hempty : always {})
    (h : Traced.Throughout always fails (Traced.solve setting start (line.drop start)) {} ends) :
    (∀ state ∈ setting.states line start, always state) ∧
      ((∃ value, (setting.solve line start).result = .ok value) ∨
        ∃ fault, fails fault ∧ (setting.solve line start).result = .error fault) := by
  obtain ⟨hstates, hend⟩ := h
  refine ⟨List.forall_mem_cons.mpr ⟨hempty, hstates⟩, ?_⟩
  rw [Traced.run_solve] at hend
  cases hrun : Machine.solve setting start (line.drop start) {} with
  | ok a after =>
      obtain ⟨value, stop⟩ := a
      rw [solve_of_ok hrun]
      exact .inl ⟨value, rfl⟩
  | error fault after =>
      rw [hrun] at hend
      exact .inr ⟨fault, hend, result_of_error hrun⟩

end Setting
end PocketCalc
