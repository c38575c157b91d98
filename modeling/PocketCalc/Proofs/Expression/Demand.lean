import PocketCalc.Expression.Demand
import PocketCalc.Proofs.Expression.Tokens
import PocketCalc.Solver.Machine

/-! The room that an expression takes, and the places where it takes it. Every token that goes onto
a stack finds there what waits for the expression around it, so that the heights of the stacks can
be read off the tree. -/

namespace PocketCalc

/-- A token goes onto a stack on which so many items are waiting. -/
structure Push where
  offset : Nat
  waiting : Nat
  limit : Nat
  deriving DecidableEq, Repr

def Push.isFull (push : Push) : Bool := push.limit ≤ push.waiting

/-- The token goes onto one of the stacks. The others only settle what is waiting there. -/
def TokenKind.isPushed : TokenKind → Bool
  | number _ | named _ | indexed _ | prefixFn _ | openParen | operator _ => true
  | _ => false

namespace Expression

theorem numberDemand_pos (e : Expression) : 0 < e.numberDemand := by
  induction e with
  | number _ | cell _ => exact Nat.one_pos
  | indexed _ inner ih | paren inner ih | prefixed _ inner ih | postfixed inner _ ih => exact ih
  | binary left op right ihl _ => exact Nat.lt_of_lt_of_le ihl (Nat.le_max_left _ _)

/-- There is room for every token exactly if there is room for the demands. -/
theorem overflow?_eq_none_iff (e : Expression) (numberRoom commandRoom start : Nat) :
    e.overflow? numberRoom commandRoom start = none ↔
      e.numberDemand ≤ numberRoom ∧ e.commandDemand ≤ commandRoom := by
  induction e generalizing numberRoom commandRoom start with
  | number _ | cell _ =>
      simp only [overflow?, numberDemand, commandDemand]
      by_cases h : numberRoom = 0
      · simp [h]
      · have hroom : 1 ≤ numberRoom := Nat.pos_of_ne_zero h
        simp [h, hroom]
  | indexed _ inner ih | paren inner ih | prefixed _ inner ih =>
      simp only [overflow?, numberDemand, commandDemand]
      by_cases h : commandRoom = 0
      · simp [h]
      · rw [if_neg h, ih]
        omega
  | postfixed operand _ ih => exact ih numberRoom commandRoom start
  | binary left op right ihl ihr =>
      have hright := right.numberDemand_pos
      have hl := ihl numberRoom commandRoom start
      simp only [overflow?, numberDemand, commandDemand]
      cases hleft : left.overflow? numberRoom commandRoom start with
      | some offset =>
          rw [hleft] at hl
          simp only [reduceCtorEq, false_iff] at hl ⊢
          omega
      | none =>
          rw [hleft] at hl
          have hfits := hl.mp rfl
          by_cases h : commandRoom = 0
          · simp only [h, if_true, reduceCtorEq, false_iff]
            omega
          · simp only [h, if_false]
            rw [ihr]
            omega

/-! ## The order of the pushes -/

/-- The pushes of an expression in the order of its tokens, with so many numbers and commands
waiting for it. An operator arrives when its left operand has become one number and everything that
was pending in it is settled. -/
def pushes (start numbers commands : Nat) : Expression → List Push
  | number _ | cell _ => [⟨start, numbers, numberLimit⟩]
  | indexed _ index =>
    ⟨start, commands, commandLimit⟩ :: index.pushes (start + 2) numbers (commands + 1)
  | paren inner | prefixed _ inner =>
    ⟨start, commands, commandLimit⟩ :: inner.pushes (start + 1) numbers (commands + 1)
  | postfixed operand _ => operand.pushes start numbers commands
  | binary left _ right =>
    left.pushes start numbers commands ++
      ⟨start + left.keys.length, commands, commandLimit⟩ ::
        right.pushes (start + left.keys.length + 1) (numbers + 1) (commands + 1)

/-- There is one push for every token that goes onto a stack. -/
theorem map_offset_pushes {e : Expression} {level : Nat} (h : e.IsReading level)
    (start numbers commands : Nat) :
    (e.pushes start numbers commands).map Push.offset =
      ((e.tokens start).filter fun token => token.kind.isPushed).map Token.offset := by
  induction e generalizing level start numbers commands with
  | number digits =>
      obtain ⟨literal, hl, _⟩ := exists_literal_of_isReading h
      simp only [tokens, hl]
      rfl
  | cell name => rfl
  | indexed name index ih =>
      have hi := ih h (start + 2) numbers (commands + 1)
      have hcloser (offset : Nat) :
          [Token.mk .closeBracket offset].filter (fun token => token.kind.isPushed) = [] := rfl
      rw [pushes, tokens, List.map_cons, List.filter_cons_of_pos rfl, List.filter_append, hcloser,
        List.append_nil, List.map_cons, hi]
  | paren inner ih =>
      have hi := ih h (start + 1) numbers (commands + 1)
      have hcloser (offset : Nat) :
          [Token.mk .closeParen offset].filter (fun token => token.kind.isPushed) = [] := rfl
      rw [pushes, tokens, List.map_cons, List.filter_cons_of_pos rfl, List.filter_append, hcloser,
        List.append_nil, List.map_cons, hi]
  | prefixed f operand ih =>
      have ho := ih h (start + 1) numbers (commands + 1)
      rw [pushes, tokens, List.map_cons, List.filter_cons_of_pos rfl, List.map_cons, ho]
  | postfixed operand f ih =>
      have ho := ih h.2 start numbers commands
      have hfunction (offset : Nat) :
          [Token.mk (.postfixFn f) offset].filter (fun token => token.kind.isPushed) = [] := rfl
      rw [pushes, tokens, List.filter_append, hfunction, List.append_nil, ho]
  | binary left op right ihl ihr =>
      have hl := ihl h.2.2.1 start numbers commands
      have hr := ihr h.2.2.2 (start + left.keys.length + 1) (numbers + 1) (commands + 1)
      rw [pushes, tokens, List.map_append, List.map_cons, List.filter_append,
        List.filter_cons_of_pos rfl, List.map_append, List.map_cons, hl, hr]

theorem offset_of_mem_pushes {e : Expression} {level : Nat} (h : e.IsReading level)
    {start numbers commands : Nat} {push : Push} (hp : push ∈ e.pushes start numbers commands) :
    start ≤ push.offset ∧ push.offset < start + e.keys.length := by
  induction e generalizing level start numbers commands with
  | number digits =>
      obtain ⟨literal, hl, hw⟩ := exists_literal_of_isReading h
      have hpos := (Literal.width_of_read hl).1
      rw [List.mem_singleton.mp hp]
      simp only [keys]
      omega
  | cell name =>
      rw [List.mem_singleton.mp hp]
      simp [keys]
  | indexed name index ih =>
      simp only [keys, List.length_cons, List.length_append, List.length_nil]
      rcases List.mem_cons.mp hp with rfl | hp
      · constructor <;> simp only <;> omega
      · have hi := ih h hp
        omega
  | paren inner ih =>
      simp only [keys, List.length_cons, List.length_append, List.length_nil]
      rcases List.mem_cons.mp hp with rfl | hp
      · constructor <;> simp only <;> omega
      · have hi := ih h hp
        omega
  | prefixed f operand ih =>
      simp only [keys, List.length_cons]
      rcases List.mem_cons.mp hp with rfl | hp
      · constructor <;> simp only <;> omega
      · have ho := ih h hp
        omega
  | postfixed operand f ih =>
      have ho := ih h.2 hp
      simp only [keys, List.length_append, List.length_cons, List.length_nil]
      omega
  | binary left op right ihl ihr =>
      simp only [keys, List.length_append, List.length_cons]
      rcases List.mem_append.mp hp with hp | hp
      · have hl := ihl h.2.2.1 hp
        omega
      · rcases List.mem_cons.mp hp with rfl | hp
        · constructor <;> simp only <;> omega
        · have hr := ihr h.2.2.2 hp
          omega

/-- No two tokens are pushed at the same place, and the pushes come in the order of the line. -/
theorem pairwise_pushes {e : Expression} {level : Nat} (h : e.IsReading level)
    (start numbers commands : Nat) :
    (e.pushes start numbers commands).Pairwise fun first second =>
      first.offset < second.offset := by
  induction e generalizing level start numbers commands with
  | number _ | cell _ => exact List.pairwise_singleton _ _
  | indexed name index ih =>
      refine List.pairwise_cons.mpr ⟨fun push hp => ?_, ih h _ _ _⟩
      have hi : index.IsReading 0 := h
      have hoffset : start + 2 ≤ push.offset := (offset_of_mem_pushes hi hp).1
      exact Nat.lt_of_lt_of_le (Nat.lt_add_of_pos_right Nat.two_pos) hoffset
  | paren inner ih | prefixed _ inner ih =>
      refine List.pairwise_cons.mpr ⟨fun push hp => ?_, ih h _ _ _⟩
      have hi : inner.IsReading _ := h
      have hoffset : start + 1 ≤ push.offset := (offset_of_mem_pushes hi hp).1
      exact hoffset
  | postfixed operand f ih => exact ih h.2 _ _ _
  | binary left op right ihl ihr =>
      have hright : ∀ push ∈ right.pushes (start + left.keys.length + 1) (numbers + 1)
          (commands + 1), start + left.keys.length < push.offset := fun push hp =>
        (offset_of_mem_pushes h.2.2.2 hp).1
      refine List.pairwise_append.mpr ⟨ihl h.2.2.1 _ _ _, ?_, fun first hfirst second hsecond => ?_⟩
      · exact List.pairwise_cons.mpr ⟨hright, ihr h.2.2.2 _ _ _⟩
      · have hleft := (offset_of_mem_pushes h.2.2.1 hfirst).2
        rcases List.mem_cons.mp hsecond with rfl | hsecond
        · exact hleft
        · exact Nat.lt_trans hleft (hright second hsecond)

/-- The first token without room is the first that finds its stack full. -/
theorem overflow?_eq_find? (e : Expression) (start numbers commands : Nat) :
    e.overflow? (numberLimit - numbers) (commandLimit - commands) start =
      ((e.pushes start numbers commands).find? Push.isFull).map Push.offset := by
  induction e generalizing start numbers commands with
  | number _ | cell _ =>
      simp only [overflow?, pushes, List.find?_singleton, Push.isFull, Nat.sub_eq_zero_iff_le]
      by_cases h : numberLimit ≤ numbers <;> simp [h]
  | indexed _ inner ih | paren inner ih | prefixed _ inner ih =>
      simp only [overflow?, pushes, List.find?_cons, Push.isFull, Nat.sub_eq_zero_iff_le]
      by_cases h : commandLimit ≤ commands
      · simp [h]
      · simp only [h, if_false, decide_false]
        rw [Nat.sub_sub, ih]
  | postfixed operand _ ih => exact ih start numbers commands
  | binary left op right ihl ihr =>
      simp only [overflow?, pushes, List.find?_append, List.find?_cons, ihl]
      cases (left.pushes start numbers commands).find? Push.isFull with
      | some push => rfl
      | none =>
          by_cases h : commandLimit ≤ commands
          · simp [Push.isFull, h]
          · simp only [Push.isFull, Nat.sub_eq_zero_iff_le, h, if_false, decide_false]
            rw [Nat.sub_sub, Nat.sub_sub, ihr]
            rfl

end Expression
end PocketCalc
