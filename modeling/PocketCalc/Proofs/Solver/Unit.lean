import PocketCalc.Proofs.Solver.Progress
import PocketCalc.Proofs.Token.Places

/-! What the angle unit matters to. Three functions take their operand in the current unit and three
suffixes convert theirs to it. An expression without them is solved in the same way in every unit,
the inverse functions and the marks included. -/

namespace PocketCalc

/-- It takes its operand in the current unit. -/
def PrefixFn.usesUnit : PrefixFn → Bool
  | .sin | .cos | .tan => true
  | _ => false

/-- It converts its operand to the current unit. -/
def PostfixFn.usesUnit : PostfixFn → Bool
  | .degrees | .radians | .gradians => true
  | _ => false

def Key.usesUnit : Key → Bool
  | prefixFn f => f.usesUnit
  | postfixFn f => f.usesUnit
  | _ => false

def TokenKind.usesUnit : TokenKind → Bool
  | prefixFn f => f.usesUnit
  | postfixFn f => f.usesUnit
  | _ => false

def CommandKind.usesUnit : CommandKind → Bool
  | prefixFn f => f.usesUnit
  | _ => false

theorem PrefixFn.value?_unit {f : PrefixFn} (h : f.usesUnit = false) (unit other : AngleUnit) :
    f.value? unit = f.value? other := by
  cases f with
  | sin | cos | tan => cases h
  | _ => rfl

theorem PostfixFn.value?_unit {f : PostfixFn} (h : f.usesUnit = false) (unit other : AngleUnit) :
    f.value? unit = f.value? other := by
  cases f with
  | degrees | radians | gradians => cases h
  | _ => rfl

/-- A token uses the unit if one of the keys that make it up does. -/
theorem usesUnit_of_mem_tokenize {keys : Line} {start : Nat} {token : Token}
    (h : token ∈ (tokenize start (keys.drop start)).1)
    (hkeys : ∀ key ∈ keys, key.usesUnit = false) : token.kind.usesUnit = false := by
  obtain ⟨kind, offset⟩ := token
  have hkey : ∀ key, kind.ownKeys[0]? = some key → key.usesUnit = false := fun key hown =>
    hkeys key (List.mem_of_getElem? (getElem?_of_mem_tokenize h 0 hown))
  cases kind with
  | prefixFn f => exact hkey (.prefixFn f) rfl
  | postfixFn f => exact hkey (.postfixFn f) rfl
  | _ => rfl

namespace Machine

variable {cell? : Char → Int → Option Float} {unit other : AngleUnit} {machine after : Machine}
  {token : Token} {tokens : List Token}

/-- Nothing that is pending uses the unit. -/
def UnitFree (machine : Machine) : Prop :=
  ∀ command ∈ machine.commands, command.kind.usesUnit = false

/-! ## Settling -/

theorem settle_unit {command : Command} (h : command.kind.usesUnit = false)
    (unit other : AngleUnit) : settle ⟨cell?, unit⟩ command = settle ⟨cell?, other⟩ command := by
  obtain ⟨kind, offset⟩ := command
  cases kind with
  | prefixFn f =>
      simp only [settle, applyPrefixFn_eq_applyFn]
      rw [PrefixFn.value?_unit h unit other]
  | _ => rfl

theorem unwind_unit (stays : CommandKind → Bool) {commands : List Command}
    (h : ∀ command ∈ commands, command.kind.usesUnit = false) (unit other : AngleUnit) :
    unwind ⟨cell?, unit⟩ stays commands = unwind ⟨cell?, other⟩ stays commands := by
  induction commands with
  | nil => rfl
  | cons command below ih =>
      obtain ⟨hcommand, hbelow⟩ := List.forall_mem_cons.mp h
      simp only [unwind, settle_unit hcommand unit other, ih hbelow]

theorem settleUntil_unit (h : machine.UnitFree) (stays : CommandKind → Bool)
    (unit other : AngleUnit) :
    settleUntil ⟨cell?, unit⟩ stays machine = settleUntil ⟨cell?, other⟩ stays machine := by
  rw [settleUntil_eq_unwind, settleUntil_eq_unwind, unwind_unit stays h unit other]

/-! ## Tokens -/

theorem take_unit (htoken : token.kind.usesUnit = false) (h : machine.UnitFree)
    (unit other : AngleUnit) :
    take ⟨cell?, unit⟩ token machine = take ⟨cell?, other⟩ token machine := by
  obtain ⟨kind, offset⟩ := token
  cases kind with
  | operator op => exact bind_congr_left (settleUntil_unit h _ unit other) _
  | postfixFn f =>
      simp only [take, applyPostfixFn_eq_applyFn]
      rw [PostfixFn.value?_unit htoken unit other]
      exact bind_congr_left (settleUntil_unit h _ unit other) _
  | closeParen =>
      refine bind_congr_left ?_ _
      exact bind_congr_left (settleUntil_unit h _ unit other) _
  | closeBracket => exact bind_congr_left (settleUntil_unit h _ unit other) _
  | _ => rfl

theorem UnitFree.take {setting : Setting} (h : machine.UnitFree)
    (htoken : token.kind.usesUnit = false)
    (htake : take setting token machine = .ok true after) : after.UnitFree := by
  obtain ⟨kind, offset⟩ := token
  have hdrop (p : Command → Bool) : ∀ command ∈ machine.commands.dropWhile p,
      command.kind.usesUnit = false := fun command hcommand =>
    h command ((List.dropWhile_sublist p).mem hcommand)
  rw [UnitFree, commands_of_take htake]
  cases kind with
  | number | named | lineEnd | foreign => exact h
  | indexed | prefixFn | openParen => exact List.forall_mem_cons.mpr ⟨htoken, h⟩
  | operator op => exact List.forall_mem_cons.mpr ⟨rfl, hdrop _⟩
  | postfixFn f => exact hdrop _
  | closeParen | closeBracket =>
      exact fun command hcommand => hdrop _ command (List.mem_of_mem_tail hcommand)

/-- Tokens that are taken, and what is still open at their end, come to the same in all units. -/
theorem scan_finish_unit (h : machine.UnitFree)
    (htokens : ∀ token ∈ tokens, token.kind.usesUnit = false) (previous : Option TokenKind)
    (ending : Ending) (unit other : AngleUnit) :
    (scan ⟨cell?, unit⟩ previous tokens ending >>= finish ⟨cell?, unit⟩) machine =
      (scan ⟨cell?, other⟩ previous tokens ending >>= finish ⟨cell?, other⟩) machine := by
  induction tokens generalizing previous machine with
  | nil =>
      cases ending with
      | malformed offset => rfl
      | stop offset =>
          simp only [scan, bind_assoc]
          refine bind_congr_of_ok fun _ checked hcheck => ?_
          obtain ⟨_, rfl⟩ := fits_of_checkNeighbours hcheck
          exact bind_congr_left (settleUntil_unit h _ unit other) _
  | cons token rest ih =>
      obtain ⟨htoken, hrest⟩ := List.forall_mem_cons.mp htokens
      simp only [scan, bind_assoc]
      refine bind_congr_of_ok fun _ checked hcheck => ?_
      obtain ⟨_, rfl⟩ := fits_of_checkNeighbours hcheck
      rw [bind_congr_left (take_unit htoken h unit other)]
      refine bind_congr_of_ok fun goesOn after htake => ?_
      cases goesOn with
      | true => exact ih (h.take htoken htake) hrest _
      | false =>
          -- what is open is left to the end, where it is settled as from the machine before
          have hother := (take_eq_ok_false htake).2
          rw [← take_unit htoken h unit other] at htake
          have hunit := (take_eq_ok_false htake).2
          simp only [Bool.false_eq_true, if_false, pure_bind]
          refine bind_congr_left ?_ _
          rw [hunit, hother, settleUntil_unit h _ unit other]

/-- A row of keys without functions of the angle unit is solved in the same way in all units. -/
theorem solve_unit {keys : Line} (hkeys : ∀ key ∈ keys, key.usesUnit = false) (start : Nat)
    (unit other : AngleUnit) :
    solve ⟨cell?, unit⟩ start (keys.drop start) {} =
      solve ⟨cell?, other⟩ start (keys.drop start) {} := by
  simp only [solve_eq_finish]
  refine bind_congr_of_ok fun _ started hstarted => ?_
  cases hstarted
  have hempty : UnitFree { events := [.started start (keys.drop start)] } := by
    simp [UnitFree]
  exact scan_finish_unit hempty (fun token htoken => usesUnit_of_mem_tokenize htoken hkeys) none _
    unit other

end Machine

/-- The solution is the same in all units, to the numbers that it leaves and the log. -/
theorem Setting.solve_unit {line : Line} (hline : ∀ key ∈ line, key.usesUnit = false)
    (cell? : Char → Int → Option Float) (start : Nat) (unit other : AngleUnit) :
    Setting.solve ⟨cell?, unit⟩ line start = Setting.solve ⟨cell?, other⟩ line start := by
  simp only [Setting.solve, Machine.solve_unit hline start unit other]

end PocketCalc
