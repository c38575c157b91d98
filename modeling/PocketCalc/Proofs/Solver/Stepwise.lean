import PocketCalc.Proofs.Solver.Equations

/-! What the steps of the solver have in common. A property that every single step has, and that
two runs in sequence have if each of them does, is a property of everything that is done between the
beginning and the end of an expression. -/

namespace PocketCalc.Machine

/-- Single steps have the property, and so do runs that are put together from runs with it. -/
structure Stepwise (P : (α : Type) → Run α → Prop) : Prop where
  pure {α : Type} (a : α) : P α (pure a)
  throw {α : Type} (fault : Fault) : P α (throw fault)
  bind {α β : Type} {x : Run α} {f : α → Run β} (hx : P α x) (hf : ∀ a, P β (f a)) : P β (x >>= f)
  get : P Machine get
  pushNumber (value : Float) (offset : Nat) : P Unit (pushNumber value offset)
  popNumber (offset : Nat) : P Float (popNumber offset)
  pushCommand (kind : CommandKind) (offset : Nat) : P Unit (pushCommand kind offset)
  setCommands (commands : List Command) : P Unit (setCommands commands)
  recordApplied (key : Key) (offset : Nat) : P Unit (recordApplied key offset)
  recordFetched (name : Char) (index value : Float) : P Unit (record (.fetched name index value))

namespace Stepwise

variable {P : (α : Type) → Run α → Prop} (h : Stepwise P)

include h

theorem pushResult (offset : Nat) (value? : Option Float) :
    P Unit (Machine.pushResult offset value?) := by
  cases value? with
  | none => exact h.throw _
  | some value => exact h.pushNumber value offset

theorem applyOperator (op : Operator) (offset : Nat) : P Unit (Machine.applyOperator op offset) :=
  h.bind (h.recordApplied _ offset) fun _ => h.bind (h.popNumber offset) fun _ =>
    h.bind (h.popNumber offset) fun _ => h.pushResult offset _

theorem applyFn (key : Key) (marker : Bool) (value? : Float → Option Float) (offset : Nat) :
    P Unit (Machine.applyFn key marker value? offset) := by
  refine h.bind (h.recordApplied key offset) fun _ => ?_
  cases marker with
  | true => exact h.pure ()
  | false => exact h.bind (h.popNumber offset) fun _ => h.pushResult offset _

theorem fetch (setting : Setting) (name : Char) (offset : Nat) :
    P Unit (Machine.fetch setting name offset) := by
  refine h.bind (h.popNumber offset) fun index => ?_
  cases setting.cell? name (Binary64.toIndex index) with
  | none => exact h.throw _
  | some value => exact h.bind (h.recordFetched name index value) fun _ => h.pushNumber value offset

theorem settle (setting : Setting) (command : Command) :
    P Unit (Machine.settle setting command) := by
  obtain ⟨kind, offset⟩ := command
  cases kind with
  | operator op => exact h.applyOperator op offset
  | prefixFn f => exact h.applyFn _ _ _ offset
  | paren => exact h.pure ()
  | index name => exact h.fetch setting name offset

theorem unwind (setting : Setting) (stays : CommandKind → Bool) (commands : List Command) :
    P Unit (Machine.unwind setting stays commands) := by
  induction commands with
  | nil => exact h.pure ()
  | cons command below ih =>
      rw [Machine.unwind]
      split
      · exact h.pure ()
      · exact h.bind (h.setCommands below) fun _ => h.bind (h.settle setting command) fun _ => ih

theorem settleUntil (setting : Setting) (stays : CommandKind → Bool) :
    P Unit (Machine.settleUntil setting stays) :=
  h.bind h.get fun machine => h.unwind setting stays machine.commands

theorem closeParen (setting : Setting) (offset : Nat) :
    P Unit (Machine.closeParen setting offset) := by
  refine h.bind (h.settleUntil setting _) fun _ => h.bind h.get fun machine => ?_
  rcases machine.commands with _ | ⟨⟨kind, opener⟩, below⟩
  · exact h.throw _
  · cases kind with
    | paren => exact h.setCommands below
    | _ => exact h.throw _

theorem closeBracket (setting : Setting) (offset : Nat) :
    P Bool (Machine.closeBracket setting offset) := by
  refine h.bind (h.settleUntil setting _) fun _ => h.bind h.get fun machine => ?_
  rcases machine.commands with _ | ⟨⟨kind, opener⟩, below⟩
  · exact h.pure false
  · cases kind with
    | index name =>
        exact h.bind (h.setCommands below) fun _ => h.bind (h.fetch setting name offset) fun _ =>
          h.pure true
    | _ => exact h.pure false

theorem take (setting : Setting) (token : Token) : P Bool (Machine.take setting token) := by
  obtain ⟨kind, offset⟩ := token
  cases kind with
  | number value => exact h.bind (h.pushNumber value offset) fun _ => h.pure true
  | named name =>
      simp only [Machine.take]
      cases setting.cell? name 0 with
      | none => exact h.throw _
      | some value => exact h.bind (h.pushNumber value offset) fun _ => h.pure true
  | indexed | prefixFn | openParen => exact h.bind (h.pushCommand _ offset) fun _ => h.pure true
  | operator op =>
      exact h.bind (h.settleUntil setting _) fun _ => h.bind (h.pushCommand _ offset) fun _ =>
        h.pure true
  | postfixFn f =>
      exact h.bind (h.settleUntil setting _) fun _ => h.bind (h.applyFn _ _ _ offset) fun _ =>
        h.pure true
  | closeParen => exact h.bind (h.closeParen setting offset) fun _ => h.pure true
  | closeBracket => exact h.closeBracket setting offset
  | lineEnd | foreign => exact h.pure false

theorem checkNeighbours (previous : Option TokenKind) (current : TokenKind) (offset : Nat) :
    P Unit (Machine.checkNeighbours previous current offset) := by
  cases previous with
  | none => exact h.pure ()
  | some previous =>
      simp only [Machine.checkNeighbours]
      split
      · exact h.pure ()
      · exact h.throw _

theorem scan (setting : Setting) (previous : Option TokenKind) (tokens : List Token)
    (ending : Ending) : P Nat (Machine.scan setting previous tokens ending) := by
  induction tokens generalizing previous with
  | nil =>
      cases ending with
      | stop offset => exact h.bind (h.checkNeighbours previous _ offset) fun _ => h.pure offset
      | malformed offset => exact h.throw _
  | cons token rest ih =>
      refine h.bind (h.checkNeighbours previous _ _) fun _ =>
        h.bind (h.take setting token) fun goesOn => ?_
      cases goesOn with
      | true => exact ih _
      | false => exact h.pure _

end Stepwise
end PocketCalc.Machine
