import PocketCalc.Proofs.Literal.Spoiling
import PocketCalc.Proofs.Solver.Equations

/-! How far solving reads. The expression ends at a token of the row or at the end of its tokens, so
that its end is a place in the row. -/

namespace PocketCalc

/-- The offset is a place in a row of keys or the place behind it. -/
def InRow (start : Nat) (keys : List Key) (offset : Nat) : Prop :=
  start ≤ offset ∧ offset ≤ start + keys.length

def Ending.offset : Ending → Nat
  | stop offset | malformed offset => offset

theorem tokenize_inRow (start : Nat) (keys : List Key) :
    (∀ token ∈ (tokenize start keys).1, InRow start keys token.offset) ∧
      InRow start keys (tokenize start keys).2.offset := by
  fun_induction tokenize start keys with
  | case1 start => exact ⟨by simp, Nat.le_refl _, Nat.le_refl _⟩
  | case2 start key rest index hread =>
      have hindex := (TokenKind.spoils_of_read hread).2.2.lt_length
      refine ⟨by simp, Nat.le_add_right _ _, ?_⟩
      simp only [Ending.offset]
      omega
  | case3 start key rest kind width hread hend =>
      exact ⟨by simp, Nat.le_refl _, Nat.le_add_right _ _⟩
  | case4 start key rest kind width hread hend tokens ending heq ih =>
      have hwidth := TokenKind.width_of_read hread
      have hmono : ∀ offset, InRow (start + width) (rest.drop (width - 1)) offset →
          InRow start (key :: rest) offset := by
        intro offset h
        simp only [InRow, List.length_drop, List.length_cons] at h hwidth ⊢
        have hpos := hwidth.1 (by simpa using hend)
        omega
      rw [heq] at ih
      refine ⟨fun token hmem => ?_, hmono _ ih.2⟩
      rcases List.mem_cons.mp hmem with rfl | hmem
      · exact ⟨Nat.le_refl _, Nat.le_add_right _ _⟩
      · exact hmono _ (ih.1 token hmem)

namespace Machine

variable {setting : Setting} {machine after : Machine}

/-- Scanning ends at a token or where the tokens end. -/
theorem scan_stop {previous : Option TokenKind} {tokens : List Token} {ending : Ending} {stop : Nat}
    (h : scan setting previous tokens ending machine = .ok stop after) :
    (∃ token ∈ tokens, token.offset = stop) ∨ ending = .stop stop := by
  induction tokens generalizing previous machine with
  | nil =>
      cases ending with
      | malformed offset => cases h
      | stop offset =>
          obtain ⟨_, next, _, hpure⟩ := bind_eq_ok h
          cases hpure
          exact .inr rfl
  | cons token rest ih =>
      obtain ⟨_, goesOn, taken, _, ⟨_, hrest⟩ | ⟨_, hstop, _⟩⟩ := scan_cons_eq_ok h
      · rcases ih hrest with ⟨last, hmem, hlast⟩ | hending
        · exact .inl ⟨last, List.mem_cons_of_mem token hmem, hlast⟩
        · exact .inr hending
      · exact .inl ⟨token, List.mem_cons_self, hstop⟩

/-- A scan that does not end among the first tokens comes through them, whatever follows. -/
theorem scan_append {previous : Option TokenKind} {tokens rest : List Token} {ending : Ending}
    {stop : Nat} (h : scan setting previous (tokens ++ rest) ending machine = .ok stop after)
    (hstop : ∀ token ∈ tokens, token.offset ≠ stop) :
    ∃ last next, ∀ rest ending,
      scan setting previous (tokens ++ rest) ending machine =
        scan setting last rest ending next := by
  induction tokens generalizing previous machine with
  | nil => exact ⟨previous, machine, fun _ _ => rfl⟩
  | cons token tokens ih =>
      obtain ⟨hfit, goesOn, taken, htake, hrest⟩ := scan_cons_eq_ok h
      obtain ⟨rfl, hrest⟩ | ⟨_, hoffset, _⟩ := hrest
      · obtain ⟨last, next, hthrough⟩ :=
          ih hrest fun other hother => hstop other (List.mem_cons_of_mem _ hother)
        refine ⟨last, next, fun rest ending => ?_⟩
        rw [List.cons_append, scan_cons hfit, bind_of_ok htake]
        simpa only [if_true] using hthrough rest ending
      · exact absurd hoffset (hstop token List.mem_cons_self)

/-- The end of the expression is a place in the row. -/
theorem solve_inRow {start : Nat} {keys : List Key} {value : Float} {stop : Nat}
    (h : solve setting start keys machine = .ok (value, stop) after) : InRow start keys stop := by
  rw [solve_eq_finish] at h
  obtain ⟨_, recorded, _, h⟩ := bind_eq_ok h
  obtain ⟨scanned, next, hscan, hfinish⟩ := bind_eq_ok h
  obtain ⟨rfl, _⟩ := finish_eq_ok hfinish
  rcases scan_stop hscan with ⟨token, hmem, hoffset⟩ | hending
  · rw [← hoffset]
    exact (tokenize_inRow start keys).1 token hmem
  · have hrow := (tokenize_inRow start keys).2
    rwa [hending] at hrow

end Machine
end PocketCalc
