import Mathlib.Data.List.Basic
import PocketCalc.Proofs.Solver.Displacement
import PocketCalc.Proofs.Solver.Extent
import PocketCalc.Proofs.Solver.Pending
import PocketCalc.Proofs.Token.Operands

/-! Closers before an end are optional. What a closer settles is settled by the end as well, so that
the same machine is left whether the closer is there or not. The tokens behind it are then taken in
step, one key further on. -/

namespace PocketCalc

namespace Machine

variable {setting : Setting} {machine after : Machine} {previous : Option TokenKind}
  {tokens : List Token} {ending : Ending} {value : Float} {offset stop : Nat}

/-! ## What a closer leaves -/

/-- The offset of a fetch is only told where the fetch fails. -/
theorem fetch_of_fetch {name : Char} (h : fetch setting name offset machine = .ok () after)
    (other : Nat) : fetch setting name other machine = .ok () after := by
  obtain ⟨index, popped, hpop, hrest⟩ := bind_eq_ok h
  have hother : popNumber other machine = .ok index popped := by
    cases hn : machine.numbers with
    | nil =>
        simp only [popNumber, hn] at hpop
        cases hpop
    | cons top below => simpa only [popNumber, hn] using hpop
  unfold fetch
  rw [bind_of_ok hother]
  cases hcell : setting.cell? name (Binary64.toIndex index) with
  | none =>
      simp only [hcell] at hrest
      cases hrest
  | some cell =>
      simp only [hcell] at hrest ⊢
      obtain ⟨_, recorded, hrecord, hpush⟩ := bind_eq_ok hrest
      rw [bind_of_ok hrecord]
      by_cases hroom : recorded.numbers.length < numberLimit
      · simpa only [pushNumber, hroom, if_true] using hpush
      · simp only [pushNumber, hroom, if_false] at hpush
        cases hpush

/-- A closing parenthesis settles nothing that a halt further down would not settle. -/
theorem settleUntil_of_closeParen {deeper : CommandKind → Bool}
    (hdeeper : ∀ kind, deeper kind = true → kind.isOpener = true) (hparen : deeper .paren = false)
    (h : closeParen setting offset machine = .ok () after) :
    settleUntil setting deeper after = settleUntil setting deeper machine := by
  obtain ⟨settled, opener, below, hsettle, hcommands, rfl⟩ := closeParen_eq_ok h
  rw [← settleUntil_settleUntil hdeeper machine, bind_of_ok hsettle,
    settleUntil_of_not_stays hcommands hparen]
  rfl

/-- A closing bracket that closes an index settles nothing that the end would not settle. -/
theorem settleUntil_of_closeBracket (h : closeBracket setting offset machine = .ok true after) :
    settleUntil setting (fun _ => false) after = settleUntil setting (fun _ => false) machine := by
  obtain ⟨_, settled, name, opener, below, hsettle, hcommands, hfetch⟩ | ⟨hfalse, _⟩ :=
    closeBracket_eq_ok h
  · have hfetched : settle setting ⟨.index name, opener⟩ { settled with commands := below } =
        .ok () after := fetch_of_fetch hfetch opener
    have hnever : ∀ kind : CommandKind, (fun _ => false) kind = true → kind.isIndex = true := by
      simp
    rw [← settleUntil_settleUntil hnever machine, bind_of_ok hsettle,
      settleUntil_of_not_stays hcommands rfl, bind_of_ok hfetched]
  · cases hfalse

/-! ## Tokens without a closer -/

/-- After a token that a closer may follow, every token may come that needs an operand before it. -/
theorem fits_of_closer {closer kind : TokenKind} (hcloser : closer.needsOperand = true)
    (hkind : kind.needsOperand = true)
    (h : ∀ last ∈ previous, closer.mayFollow last = true) :
    ∀ last ∈ previous, kind.mayFollow last = true := by
  intro last hlast
  have hawaits := TokenKind.awaitsOperand_of_mayFollow (h last hlast) hcloser
  have hnumber : kind.isNumber = false := by
    cases kind with
    | number value => cases hkind
    | _ => rfl
  simp [TokenKind.mayFollow, hawaits, hnumber]

/-- A closing bracket does the same in two machines that are the same when everything above the
innermost index has been settled. -/
theorem scan_closeBracket_congr {other : Option TokenKind} {twin : Machine}
    (hp : ∀ last ∈ previous, TokenKind.closeBracket.mayFollow last = true)
    (ho : ∀ last ∈ other, TokenKind.closeBracket.mayFollow last = true)
    (h : settleUntil setting CommandKind.isIndex machine =
      settleUntil setting CommandKind.isIndex twin) (rest : List Token) :
    scan setting previous (⟨.closeBracket, offset⟩ :: rest) ending machine =
      scan setting other (⟨.closeBracket, offset⟩ :: rest) ending twin := by
  rw [scan_cons hp, scan_cons ho]
  exact bind_congr_left (bind_congr_left h _) _

/-- Where only the end or a closing bracket comes behind it, a closing parenthesis may be left
out. -/
theorem finish_without_closeParen
    (hbehind : (tokens = [] ∧ ∃ stop, ending = .stop stop) ∨
      ∃ bracket rest, tokens = ⟨.closeBracket, bracket⟩ :: rest)
    (h : (scan setting previous (⟨.closeParen, offset⟩ :: tokens) ending >>= finish setting)
      machine = .ok (value, stop) after) :
    (scan setting previous tokens ending >>= finish setting) machine =
      .ok (value, stop) after := by
  obtain ⟨last, scanned, hscan, hfinish⟩ := bind_eq_ok h
  obtain ⟨hfit, _, closed, htake, hrest⟩ := scan_cons_eq_ok hscan
  obtain ⟨_, _, hclose, hpure⟩ := bind_eq_ok htake
  cases hpure
  obtain ⟨_, hrest⟩ | ⟨hfalse, _⟩ := hrest
  · rcases hbehind with ⟨rfl, end_, rfl⟩ | ⟨bracket, rest, rfl⟩
    · have hend : ∀ kind ∈ some TokenKind.closeParen, TokenKind.lineEnd.mayFollow kind = true := by
        rintro kind ⟨⟩
        rfl
      rw [scan_nil hend] at hrest
      cases hrest
      rw [scan_nil (fits_of_closer rfl rfl hfit), pure_bind, ← hfinish]
      exact bind_congr_left (settleUntil_of_closeParen (by simp) rfl hclose).symm _
    · have hbracket : ∀ kind ∈ some TokenKind.closeParen,
          TokenKind.closeBracket.mayFollow kind = true := by
        rintro kind ⟨⟩
        rfl
      have hsame := settleUntil_of_closeParen (fun _ => CommandKind.isOpener_of_isIndex) rfl hclose
      have hscan :
          scan setting (some .closeParen) (⟨.closeBracket, bracket⟩ :: rest) ending closed =
            scan setting previous (⟨.closeBracket, bracket⟩ :: rest) ending machine :=
        scan_closeBracket_congr hbracket (fits_of_closer rfl rfl hfit) hsame rest
      rw [bind_of_ok (hscan.symm.trans hrest), hfinish]
  · cases hfalse

/-- Where only the end comes behind it, a closing bracket that closes an index may be left out. -/
theorem finish_without_closeBracket (hoffset : offset < stop)
    (h : (scan setting previous [⟨.closeBracket, offset⟩] ending >>= finish setting)
      machine = .ok (value, stop) after) :
    (scan setting previous [] ending >>= finish setting) machine = .ok (value, stop) after := by
  obtain ⟨last, scanned, hscan, hfinish⟩ := bind_eq_ok h
  obtain ⟨rfl, _⟩ := finish_eq_ok hfinish
  obtain ⟨hfit, _, closed, htake, ⟨rfl, hrest⟩ | ⟨_, rfl, _⟩⟩ := scan_cons_eq_ok hscan
  · cases ending with
    | malformed spoiled => cases hrest
    | stop end_ =>
        have hend : ∀ kind ∈ some TokenKind.closeBracket,
            TokenKind.lineEnd.mayFollow kind = true := by
          rintro kind ⟨⟩
          rfl
        rw [scan_nil hend] at hrest
        cases hrest
        rw [scan_nil (fits_of_closer rfl rfl hfit), pure_bind, ← hfinish]
        exact bind_congr_left (settleUntil_of_closeBracket htake).symm _
  · exact absurd hoffset (Nat.lt_irrefl _)

end Machine

/-! ## Rows without a closer -/

/-- The offset that a key has when the key at `gap` is taken out of the row. -/
def withoutKey (gap offset : Nat) : Nat := if offset ≤ gap then offset else offset - 1

theorem withoutKey_of_le {gap offset : Nat} (h : offset ≤ gap) : withoutKey gap offset = offset :=
  if_pos h

theorem withoutKey_of_lt {gap offset : Nat} (h : gap < offset) :
    withoutKey gap offset = offset - 1 :=
  if_neg (Nat.not_le_of_lt h)

/-- The tokens before the gap stay where they are. -/
theorem relocate_tokens_before (keys : List Key) :
    (tokenize 0 keys).1.map (Token.relocate (withoutKey keys.length)) = (tokenize 0 keys).1 := by
  have hstay : ∀ token ∈ (tokenize 0 keys).1,
      token.relocate (withoutKey keys.length) = id token := by
    intro token hmem
    have hrow := (tokenize_inRow 0 keys).1 token hmem
    simp only [InRow, Nat.zero_add] at hrow
    simp only [Token.relocate, withoutKey_of_le hrow.2, id]
  rw [List.map_congr_left hstay, List.map_id]

/-- What stands behind the gap moves up. -/
theorem relocate_tokenize_behind (gap : Nat) (keys : List Key) :
    (tokenize (gap + 1) keys).1.map (Token.relocate (withoutKey gap)) = (tokenize gap keys).1 ∧
      (tokenize (gap + 1) keys).2.relocate (withoutKey gap) = (tokenize gap keys).2 := by
  have hback : ∀ offset, InRow gap keys offset → withoutKey gap (offset + 1) = offset := by
    intro offset hrow
    exact withoutKey_of_lt (Nat.lt_succ_of_le hrow.1)
  obtain ⟨htokens, hending⟩ := tokenize_inRow gap keys
  rw [tokenize_add]
  constructor
  · have hmove : ∀ token ∈ (tokenize gap keys).1,
        (Token.relocate (withoutKey gap) ∘ Token.relocate (· + 1)) token = id token := by
      intro token hmem
      simp only [Function.comp, Token.relocate, hback _ (htokens token hmem), id]
    rw [List.map_map, List.map_congr_left hmove, List.map_id]
  · cases hend : (tokenize gap keys).2 with
    | stop offset | malformed offset =>
        rw [hend] at hending
        simp only [Ending.relocate, hback offset hending]

namespace Machine

variable {setting : Setting} {machine after : Machine} {first rest : List Key} {closer : Key}
  {kind : TokenKind} {value : Float} {stop : Nat}

/-- A row is solved like its tokens with a gap among them. -/
theorem solve_of_gap (hfirst : (tokenize 0 first).2 = .stop first.length)
    (hrest : StartsAfresh rest) (hnumbers : machine.numbers = [])
    (hcommands : machine.commands = [])
    (h : (scan setting none ((tokenize 0 first).1 ++ (tokenize (first.length + 1) rest).1)
        (tokenize (first.length + 1) rest).2 >>= finish setting) machine = .ok (value, stop) after)
    (hstop : first.length < stop) :
    ∃ moved, solve setting 0 (first ++ rest) {} = .ok (value, stop - 1) moved := by
  let started : Machine := { events := [.started 0 (first ++ rest)] }
  have htokens : tokenize 0 (first ++ rest) =
      ((tokenize 0 first).1 ++ (tokenize first.length rest).1, (tokenize first.length rest).2) := by
    rw [tokenize_append hrest, Nat.zero_add, hfirst, if_pos rfl]
  have hsolve : solve setting 0 (first ++ rest) {} =
      (scan setting none ((tokenize 0 first).1 ++ (tokenize first.length rest).1)
        (tokenize first.length rest).2 >>= finish setting) started := by
    rw [solve_eq_finish, htokens]
    rfl
  have hfresh : Relocated (withoutKey first.length) machine started := by
    constructor
    · exact hnumbers.symm
    · rw [hcommands]
      rfl
  have hsame := relocates_scan_finish setting none
    ((tokenize 0 first).1 ++ (tokenize (first.length + 1) rest).1)
    (tokenize (first.length + 1) rest).2 machine started hfresh
  obtain ⟨hbehind, hending⟩ := relocate_tokenize_behind first.length rest
  rw [List.map_append, relocate_tokens_before, hbehind, hending, h, ← hsolve] at hsame
  cases hmoved : solve setting 0 (first ++ rest) {} with
  | ok b moved =>
      rw [hmoved] at hsame
      obtain ⟨rfl, _⟩ := hsame
      refine ⟨moved, ?_⟩
      simp only [withoutKey_of_lt hstop]
  | error fault moved =>
      rw [hmoved] at hsame
      cases hsame

/-- A key that is a token of its own may be taken out of a row if nothing is lost with its token. -/
theorem solve_without_key (hread : TokenKind.read (closer :: rest) = .ok (kind, 1))
    (hend : kind.isEnd = false) (hcloser : closer.extendsToken = false) (hrest : StartsAfresh rest)
    (hdrop : ∀ previous machine after,
      (scan setting previous (⟨kind, first.length⟩ :: (tokenize (first.length + 1) rest).1)
          (tokenize (first.length + 1) rest).2 >>= finish setting) machine =
        .ok (value, stop) after →
      (scan setting previous (tokenize (first.length + 1) rest).1
          (tokenize (first.length + 1) rest).2 >>= finish setting) machine =
        .ok (value, stop) after)
    (h : solve setting 0 (first ++ closer :: rest) {} = .ok (value, stop) after)
    (hstop : first.length < stop) :
    ∃ moved, solve setting 0 (first ++ rest) {} = .ok (value, stop - 1) moved := by
  have hafresh : StartsAfresh (closer :: rest) := startsAfresh_cons.mpr hcloser
  have happend := tokenize_append hafresh 0 first
  by_cases hfirst : (tokenize 0 first).2 = .stop (0 + first.length)
  · rw [if_pos hfirst, tokenize_of_read kind 1 hread hend] at happend
    simp only [Nat.zero_add, Nat.sub_self, List.drop_zero] at happend hfirst
    let started : Machine := { events := [.started 0 (first ++ closer :: rest)] }
    have hrun : (scan setting none ((tokenize 0 first).1 ++
          ⟨kind, first.length⟩ :: (tokenize (first.length + 1) rest).1)
        (tokenize (first.length + 1) rest).2 >>= finish setting) started =
        .ok (value, stop) after := by
      rw [solve_eq_finish, happend] at h
      exact h
    obtain ⟨last, scanned, hscan, hfinish⟩ := bind_eq_ok hrun
    obtain ⟨rfl, _⟩ := finish_eq_ok hfinish
    have hbefore : ∀ token ∈ (tokenize 0 first).1, token.offset ≠ last := by
      intro token hmem heq
      have hrow := (tokenize_inRow 0 first).1 token hmem
      simp only [InRow, Nat.zero_add] at hrow
      omega
    obtain ⟨previous, next, hthrough⟩ := scan_append hscan hbefore
    rw [bind_congr_left (hthrough _ _)] at hrun
    have hgap : (scan setting none ((tokenize 0 first).1 ++ (tokenize (first.length + 1) rest).1)
        (tokenize (first.length + 1) rest).2 >>= finish setting) started =
        .ok (value, last) after := by
      rw [bind_congr_left (hthrough _ _)]
      exact hdrop previous next after hrun
    exact solve_of_gap hfirst hrest rfl rfl hgap hstop
  · -- the first part ends before the closer, which is then never read
    rw [if_neg hfirst] at happend
    obtain ⟨_, last, _, _, hrun, hsame⟩ | ⟨_, _, _, _, hsame⟩ := solve_add setting 0 happend
    · rw [Nat.add_zero, h] at hsame
      cases hsame
      have hrow := solve_inRow hrun
      simp only [InRow, Nat.zero_add] at hrow
      omega
    · rw [Nat.add_zero, h] at hsame
      cases hsame

end Machine

/-- A row that is empty or begins with a separator has no tokens. -/
theorem tokenize_of_separator {rest : List Key}
    (h : ∀ key ∈ rest.head?, ∃ s, key = .separator s) (start : Nat) :
    tokenize start rest = ([], .stop start) := by
  cases rest with
  | nil => exact tokenize_nil start
  | cons key rest =>
      obtain ⟨s, rfl⟩ := h key rfl
      exact tokenize_of_isEnd .foreign 0 rfl rfl

theorem startsAfresh_of_separator {rest : List Key}
    (h : ∀ key ∈ rest.head?, ∃ s, key = .separator s) : StartsAfresh rest := by
  intro key hkey
  obtain ⟨s, rfl⟩ := h key hkey
  rfl

namespace Setting

/-- Wherever the expression ends behind a closing parenthesis and nothing but an end or a closing
bracket follows it, the parenthesis may be left out; and likewise a closing bracket that only an end
follows. The value is the same and the end is one key nearer. -/
theorem solve_without_closer (setting : Setting) (first rest : Line) (value : Float) :
    ((∀ key ∈ rest.head?, key = .closeBracket ∨ ∃ s, key = .separator s) →
        (setting.solve (first ++ .closeParen :: rest) 0).result = .ok value →
        first.length < (setting.solve (first ++ .closeParen :: rest) 0).cursor →
        (setting.solve (first ++ rest) 0).result = .ok value ∧
          (setting.solve (first ++ rest) 0).cursor =
            (setting.solve (first ++ .closeParen :: rest) 0).cursor - 1) ∧
      ((∀ key ∈ rest.head?, ∃ s, key = .separator s) →
        (setting.solve (first ++ .closeBracket :: rest) 0).result = .ok value →
        first.length < (setting.solve (first ++ .closeBracket :: rest) 0).cursor →
        (setting.solve (first ++ rest) 0).result = .ok value ∧
          (setting.solve (first ++ rest) 0).cursor =
            (setting.solve (first ++ .closeBracket :: rest) 0).cursor - 1) := by
  constructor
  · intro hrest hvalue hstop
    obtain ⟨after, hrun⟩ := run_of_result_ok hvalue
    have hafresh : StartsAfresh rest := by
      intro key hkey
      rcases hrest key hkey with rfl | ⟨s, rfl⟩ <;> rfl
    have hbehind : ((tokenize (first.length + 1) rest).1 = [] ∧
          ∃ stop, (tokenize (first.length + 1) rest).2 = .stop stop) ∨
        ∃ bracket tokens, (tokenize (first.length + 1) rest).1 =
          ⟨.closeBracket, bracket⟩ :: tokens := by
      by_cases hbracket : rest.head? = some .closeBracket
      · obtain ⟨behind, rfl⟩ := List.head?_eq_some_iff.mp hbracket
        rw [tokenize_of_read .closeBracket 1 rfl rfl]
        exact .inr ⟨_, _, rfl⟩
      · have hseparator : ∀ key ∈ rest.head?, ∃ s, key = .separator s := by
          intro key hkey
          rcases hrest key hkey with rfl | hs
          · exact absurd hkey hbracket
          · exact hs
        rw [tokenize_of_separator hseparator]
        exact .inl ⟨rfl, _, rfl⟩
    obtain ⟨moved, hmoved⟩ := Machine.solve_without_key rfl rfl rfl hafresh
      (fun _ _ _ => Machine.finish_without_closeParen hbehind) hrun hstop
    rw [solve_of_ok hmoved]
    exact ⟨rfl, rfl⟩
  · intro hrest hvalue hstop
    obtain ⟨after, hrun⟩ := run_of_result_ok hvalue
    have hnone : (tokenize (first.length + 1) rest).1 = [] := by
      rw [tokenize_of_separator hrest]
    obtain ⟨moved, hmoved⟩ := Machine.solve_without_key rfl rfl rfl
      (startsAfresh_of_separator hrest)
      (fun _ _ _ h => by
        rw [hnone] at h ⊢
        exact Machine.finish_without_closeBracket hstop h) hrun hstop
    rw [solve_of_ok hmoved]
    exact ⟨rfl, rfl⟩

/-- `A[(1)]+2` without its parenthesis, and `1+A[1]` without its bracket. -/
theorem solve_unclosed :
    ((Setting.solve ⟨fun _ _ => some 3.0, .degrees⟩ [.letter 'A', .openBracket, .openParen,
          .digit 1, .closeBracket, .operator .add, .digit 2] 0).result = .ok 5.0 ∧
        (Setting.solve ⟨fun _ _ => some 3.0, .degrees⟩ [.letter 'A', .openBracket, .openParen,
          .digit 1, .closeBracket, .operator .add, .digit 2] 0).cursor =
        (Setting.solve ⟨fun _ _ => some 3.0, .degrees⟩ [.letter 'A', .openBracket, .openParen,
          .digit 1, .closeParen, .closeBracket, .operator .add, .digit 2] 0).cursor - 1) ∧
      (Setting.solve ⟨fun _ _ => some 3.0, .degrees⟩ [.digit 1, .operator .add, .letter 'A',
          .openBracket, .digit 1] 0).result = .ok 4.0 ∧
        (Setting.solve ⟨fun _ _ => some 3.0, .degrees⟩ [.digit 1, .operator .add, .letter 'A',
          .openBracket, .digit 1] 0).cursor =
        (Setting.solve ⟨fun _ _ => some 3.0, .degrees⟩ [.digit 1, .operator .add, .letter 'A',
          .openBracket, .digit 1, .closeBracket] 0).cursor - 1 := by
  have hparen := (solve_without_closer ⟨fun _ _ => some 3.0, .degrees⟩
    [.letter 'A', .openBracket, .openParen, .digit 1] [.closeBracket, .operator .add, .digit 2]
    5.0).1
  have hbracket := (solve_without_closer ⟨fun _ _ => some 3.0, .degrees⟩
    [.digit 1, .operator .add, .letter 'A', .openBracket, .digit 1] [] 4.0).2
  constructor
  · exact hparen (by simp) (by decide +kernel) (by decide +kernel)
  · exact hbracket (by simp) (by decide +kernel) (by decide +kernel)

end Setting
end PocketCalc
