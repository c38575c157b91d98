import PocketCalc.Solver.Machine
import PocketCalc.Token.Lexer

/-! Evaluating the expression at a place in a line. Tokens are taken from left to right. Operands
and openers wait on the stacks; an operator first settles the commands that bind at least as
tightly; a closer settles those down to its opener. Whatever is still open at the end is closed
there, so that closers before an end may be left out. -/

namespace PocketCalc

namespace Machine

/-- Two neighbours fit together; nothing is asked of the first token. -/
def checkNeighbours (previous : Option TokenKind) (current : TokenKind) (offset : Nat) : Run Unit :=
  match previous with
  | none => pure ()
  | some previous =>
    if current.mayFollow previous then pure () else throw (.malformed .neighbours offset)

/-- Closes the innermost open parenthesis. -/
def closeParen (setting : Setting) (offset : Nat) : Run Unit := do
  settleUntil setting CommandKind.isOpener
  match (← get).commands with
  | ⟨.paren, _⟩ :: below => setCommands below
  | _ => throw (.malformed .unopenedParen offset)

/-- Closes the innermost open index and the parentheses open in it. Tells whether there was one. -/
def closeBracket (setting : Setting) (offset : Nat) : Run Bool := do
  settleUntil setting CommandKind.isIndex
  match (← get).commands with
  | ⟨.index name, _⟩ :: below =>
    setCommands below
    fetch setting name offset
    pure true
  | _ => pure false

/-- Takes one token. Tells whether the expression goes on: a bracket that closes no index is not a
part of it. -/
def take (setting : Setting) (token : Token) : Run Bool :=
  let offset := token.offset
  match token.kind with
  | .number value => do pushNumber value offset; pure true
  | .named name =>
    match setting.cell? name 0 with
    | none => throw (.noSuchCell offset)
    | some value => do pushNumber value offset; pure true
  | .indexed name => do pushCommand (.index name) offset; pure true
  | .prefixFn f => do pushCommand (.prefixFn f) offset; pure true
  | .openParen => do pushCommand .paren offset; pure true
  | .operator op => do
    settleUntil setting (CommandKind.bindsLessThan op.precedence)
    pushCommand (.operator op) offset
    pure true
  | .postfixFn f => do
    settleUntil setting (CommandKind.bindsLessThan f.precedence)
    applyPostfixFn setting f offset
    pure true
  | .closeParen => do closeParen setting offset; pure true
  | .closeBracket => closeBracket setting offset
  | .lineEnd | .foreign => pure false

/-- Takes tokens up to the end of the expression, and gives the offset of that end. -/
def scan (setting : Setting) (previous : Option TokenKind) : List Token → Ending → Run Nat
  | [], .malformed offset => throw (.malformed .number offset)
  | [], .stop offset => do
    checkNeighbours previous .lineEnd offset
    pure offset
  | token :: rest, ending => do
    checkNeighbours previous token.kind token.offset
    if ← take setting token then scan setting (some token.kind) rest ending
    else pure token.offset

/-- Evaluates the expression at the head of a row of keys, the first of which has the given offset.
Gives its value and the offset of its end. -/
def solve (setting : Setting) (start : Nat) (keys : List Key) : Run (Float × Nat) := do
  record (.started start keys)
  let (tokens, ending) := tokenize start keys
  let stop ← scan setting none tokens ending
  settleUntil setting fun _ => false
  match (← get).numbers with
  | value :: _ =>
    record (.solved value stop)
    pure (value, stop)
  | [] => throw (.nothingToSolve stop)

end Machine

/-- The outcome of solving. The cursor is where the expression ends; it stays at the start if the
expression has a fault, unless the fault is that it is empty. -/
structure Solution where
  result : Except Fault Float
  cursor : Nat
  machine : Machine

namespace Solution

/-- The events in the order in which they happened. -/
def log (solution : Solution) : List Event := solution.machine.events.reverse

end Solution

/-- Solves the expression that begins at an offset in a line. -/
def Setting.solve (setting : Setting) (line : Line) (start : Nat) : Solution :=
  match Machine.solve setting start (line.drop start) {} with
  | .ok (value, stop) machine => ⟨.ok value, stop, machine⟩
  | .error (.nothingToSolve stop) machine => ⟨.error (.nothingToSolve stop), stop, machine⟩
  | .error fault machine => ⟨.error fault, start, machine⟩

/-- A solver keeps the stacks of its last run. -/
structure Solver where
  setting : Setting
  machine : Machine := {}

namespace Solver

/-- Every run begins with empty stacks. -/
def solve (solver : Solver) (line : Line) (start : Nat) : Solution × Solver :=
  let solution := solver.setting.solve line start
  (solution, { solver with machine := solution.machine })

def clear (solver : Solver) : Solver := { solver with machine := {} }

/-- The number on top of the stack. -/
def top? (solver : Solver) : Option Float := solver.machine.numbers.head?

end Solver
end PocketCalc
