import PocketCalc.Event
import PocketCalc.Fault
import PocketCalc.Operation
import PocketCalc.Setting
import PocketCalc.Token.Basic

/-! The two small stacks on which an expression is evaluated: numbers, and commands that wait for
their operands. A run that fails leaves the stacks as they are at that moment. -/

namespace PocketCalc

/-- A pending operator or function, an open parenthesis, or a variable whose index is open. -/
inductive CommandKind where
  | operator (op : Operator)
  | prefixFn (f : PrefixFn)
  | paren
  | index (name : Char)
  deriving DecidableEq, Repr

structure Command where
  kind : CommandKind
  offset : Nat
  deriving DecidableEq, Repr

/-- The top of a stack is the head of its list; the latest event comes first. -/
structure Machine where
  numbers : List Float := []
  commands : List Command := []
  events : List Event := []
  deriving DecidableEq, Repr

def numberLimit : Nat := 9

def commandLimit : Nat := 20

abbrev Run := EStateM Fault Machine

namespace CommandKind

/-- It stays on the stack when an operator or a function of the given precedence arrives. -/
def bindsLessThan (precedence : Nat) : CommandKind → Bool
  | operator op => op.precedence < precedence
  | prefixFn f => f.precedence < precedence
  | paren | index _ => true

def isOpener : CommandKind → Bool
  | paren | index _ => true
  | _ => false

def isIndex : CommandKind → Bool
  | index _ => true
  | _ => false

end CommandKind

namespace Machine

def record (event : Event) : Run Unit := fun machine =>
  .ok () { machine with events := event :: machine.events }

def pushNumber (value : Float) (offset : Nat) : Run Unit := fun machine =>
  if machine.numbers.length < numberLimit then
    .ok () { machine with numbers := value :: machine.numbers }
  else .error (.stackFull offset) machine

def popNumber (offset : Nat) : Run Float := fun machine =>
  match machine.numbers with
  | value :: below => .ok value { machine with numbers := below }
  | [] => .error (.malformed .missingOperand offset) machine

def pushCommand (kind : CommandKind) (offset : Nat) : Run Unit := fun machine =>
  if machine.commands.length < commandLimit then
    .ok () { machine with commands := ⟨kind, offset⟩ :: machine.commands }
  else .error (.stackFull offset) machine

/-- Leaves the given commands on the stack. -/
def setCommands (commands : List Command) : Run Unit := fun machine =>
  .ok () { machine with commands }

/-- Pushes the value of an operation, or fails where it has none. -/
def pushResult (offset : Nat) : Option Float → Run Unit
  | some value => pushNumber value offset
  | none => throw (.outsideDomain offset)

/-- Notes that a key is applied to the numbers that wait for it. -/
def recordApplied (key : Key) (offset : Nat) : Run Unit := do
  record (.applied key offset (← get).numbers.length)

def applyOperator (op : Operator) (offset : Nat) : Run Unit := do
  recordApplied (.operator op) offset
  let right ← popNumber offset
  let left ← popNumber offset
  pushResult offset (op.value? left right)

def applyPrefixFn (setting : Setting) (f : PrefixFn) (offset : Nat) : Run Unit := do
  recordApplied (.prefixFn f) offset
  if f.isMarker then pure ()
  else pushResult offset (f.value? setting.unit (← popNumber offset))

def applyPostfixFn (setting : Setting) (f : PostfixFn) (offset : Nat) : Run Unit := do
  recordApplied (.postfixFn f) offset
  if f.isMarker then pure ()
  else pushResult offset (f.value? setting.unit (← popNumber offset))

/-- Puts the value of a cell in the place of its index. -/
def fetch (setting : Setting) (name : Char) (offset : Nat) : Run Unit := do
  let index ← popNumber offset
  match setting.cell? name (Binary64.toIndex index) with
  | none => throw (.noSuchCell offset)
  | some value =>
    record (.fetched name index value)
    pushNumber value offset

/-- Does what a command waits for. An open parenthesis waits for nothing. -/
def settle (setting : Setting) (command : Command) : Run Unit :=
  match command.kind with
  | .operator op => applyOperator op command.offset
  | .prefixFn f => applyPrefixFn setting f command.offset
  | .paren => pure ()
  | .index name => fetch setting name command.offset

/-- Takes commands off the stack and settles them, down to the first that is to stay. -/
def unwind (setting : Setting) (stays : CommandKind → Bool) : List Command → Run Unit
  | [] => pure ()
  | command :: below =>
    if stays command.kind then pure ()
    else do
      setCommands below
      settle setting command
      unwind setting stays below

/-- Settles the commands on the stack, down to the first that is to stay. -/
def settleUntil (setting : Setting) (stays : CommandKind → Bool) : Run Unit := do
  unwind setting stays (← get).commands

end Machine
end PocketCalc
