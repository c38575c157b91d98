import Mathlib.Data.List.Find
import PocketCalc.Line.Printer

/-! The spellings of the keys and what may continue them. What follows a text matters to the
spellings that fit it only if it would make a longer one. -/

namespace PocketCalc.Key

/-! ## Keys with a key cap -/

/-- The key can be typed: its digit is a decimal one, or its name a capital letter. -/
def HasCap : Key → Prop
  | digit n => n ≤ 9
  | letter name => 'A' ≤ name ∧ name ≤ 'Z'
  | _ => True

instance decidableHasCap : (key : Key) → Decidable key.HasCap
  | digit n => inferInstanceAs (Decidable (n ≤ 9))
  | letter name => inferInstanceAs (Decidable ('A' ≤ name ∧ name ≤ 'Z'))
  | dot | openParen | closeParen | openBracket | closeBracket | operator _ | prefixFn _
  | postfixFn _ | separator _ => .isTrue trivial

/-- The keys with a key cap other than letters. -/
def capped : List Key := (List.range 10).map digit ++ spellings.map Prod.snd

theorem isUpper_iff (name : Char) : name.isUpper = true ↔ 'A' ≤ name ∧ name ≤ 'Z' :=
  decide_eq_true_iff

theorem toNat_of_isDigit {c : Char} (h : c.isDigit = true) : 48 ≤ c.toNat ∧ c.toNat ≤ 57 := by
  obtain ⟨hzero, hnine⟩ := (Bool.and_eq_true_iff.mp h)
  exact ⟨UInt32.le_iff_toNat_le.mp (of_decide_eq_true hzero),
    UInt32.le_iff_toNat_le.mp (of_decide_eq_true hnine)⟩

theorem toNat_of_isUpper {name : Char} (h : name.isUpper = true) :
    65 ≤ name.toNat ∧ name.toNat ≤ 90 := by
  obtain ⟨hA, hZ⟩ := (isUpper_iff name).mp h
  exact ⟨UInt32.le_iff_toNat_le.mp hA, UInt32.le_iff_toNat_le.mp hZ⟩

@[elab_as_elim] theorem HasCap.elim {motive : Key → Prop} {key : Key} (h : key.HasCap)
    (letter : ∀ name, name.isUpper = true → motive (letter name))
    (other : ∀ key ∈ capped, motive key) : motive key := by
  cases key with
  | letter name => exact letter name ((isUpper_iff name).mpr h)
  | digit n =>
      have hn : n < 10 := Nat.lt_succ_of_le h
      exact other _ (List.mem_append_left _ (List.mem_map_of_mem (List.mem_range.mpr hn)))
  | dot | openParen | closeParen | openBracket | closeBracket => exact other _ (by decide)
  | operator op => exact other _ (by cases op <;> decide)
  | prefixFn f =>
      refine other _ ?_
      cases f with
      | marker m => cases m <;> decide
      | _ => decide
  | postfixFn f => exact other _ (by cases f <;> decide)
  | separator s => exact other _ (by cases s <;> decide)

theorem spellings_nonempty : ∀ entry ∈ spellings, 0 < entry.1.length := by
  decide

theorem hasCap_of_mem_spellings : ∀ entry ∈ spellings, entry.2.HasCap := by
  decide

/-! ## What may continue a spelling -/

/-- The characters that may come next in a spelling that begins with the given text. -/
def continuations (text : List Char) : List Char :=
  spellings.filterMap fun entry =>
    if text.isPrefixOf entry.1 then (entry.1.drop text.length).head? else none

theorem mem_continuations {text : List Char} {c : Char} :
    c ∈ continuations text ↔ ∃ rest key, (text ++ c :: rest, key) ∈ spellings := by
  constructor
  · intro h
    obtain ⟨⟨spelling, key⟩, hentry, hnext⟩ := List.mem_filterMap.mp h
    split at hnext
    · next hp =>
        obtain ⟨after, hafter⟩ := List.isPrefixOf_iff_prefix.mp hp
        rw [← hafter, List.drop_left, List.head?_eq_some_iff] at hnext
        obtain ⟨rest, rfl⟩ := hnext
        exact ⟨rest, key, by rw [hafter]; exact hentry⟩
    · cases hnext
  · rintro ⟨rest, key, hentry⟩
    refine List.mem_filterMap.mpr ⟨_, hentry, ?_⟩
    simp

/-- Where the next character does not continue a text, the spellings that fit are those that fit the
text alone. -/
theorem isPrefixOf_append {entry : List Char × Key} (hmem : entry ∈ spellings)
    {text rest : List Char} (h : ∀ c ∈ rest.head?, c ∉ continuations text) :
    entry.1.isPrefixOf (text ++ rest) = entry.1.isPrefixOf text := by
  rw [Bool.eq_iff_iff, List.isPrefixOf_iff_prefix, List.isPrefixOf_iff_prefix]
  constructor
  · intro hp
    by_cases hlength : entry.1.length ≤ text.length
    · exact List.prefix_of_prefix_length_le hp (List.prefix_append text rest) hlength
    · obtain ⟨tail, htail⟩ :=
        List.prefix_of_prefix_length_le (List.prefix_append text rest) hp (by omega)
      cases tail with
      | nil =>
          rw [← htail] at hlength
          simp at hlength
      | cons c tail =>
          rw [← htail, List.prefix_append_right_inj] at hp
          obtain ⟨after, rfl⟩ := hp
          have hc : c ∈ continuations text :=
            mem_continuations.mpr ⟨tail, entry.2, by rw [htail]; exact hmem⟩
          exact absurd hc (h c rfl)
  · intro hp
    exact hp.trans (List.prefix_append text rest)

/-! ## Labels -/

/-- Of the spellings of a key, the first one is its label. -/
theorem find?_spellings_eq_label :
    ∀ entry ∈ spellings,
      spellings.find? (fun other => other.2 = entry.2) = some (entry.2.label.toList, entry.2) := by
  decide

/-- The character may come only at the beginning of a spelling. -/
def StartsOnly (c : Char) : Prop := ∀ entry ∈ spellings, c ∉ entry.1.tail

theorem startsOnly_space : StartsOnly ' ' := by
  unfold StartsOnly
  decide

theorem startsOnly_tab : StartsOnly '\t' := by
  unfold StartsOnly
  decide

theorem startsOnly_colon : StartsOnly ':' := by
  unfold StartsOnly
  decide

theorem StartsOnly.not_mem_continuations {c : Char} (h : StartsOnly c) {text : List Char}
    (hne : text ≠ []) : c ∉ continuations text := by
  intro hmem
  obtain ⟨rest, key, hentry⟩ := mem_continuations.mp hmem
  have htail := h _ hentry
  rw [List.tail_append_of_ne_nil hne] at htail
  exact htail (by simp)

/-- A spelling in the table begins neither with a digit nor with a capital letter. -/
theorem head_of_mem_spellings :
    ∀ entry ∈ spellings, entry.1.head?.any (fun c => c.isDigit || c.isUpper) = false := by
  decide

theorem isDigit_of_isUpper {name : Char} (h : name.isUpper = true) : name.isDigit = false := by
  rw [Bool.eq_false_iff]
  intro hdigit
  have hletter := toNat_of_isUpper h
  have hnine := toNat_of_isDigit hdigit
  omega

theorem label_letter (name : Char) : (letter name).label.toList = [name] :=
  String.toList_singleton name

/-- The only label other than a word that begins a longer spelling is the minus of an arrow. -/
theorem eq_of_mem_continuations {key : Key} (h : key.HasCap) (hw : key.isWord = false) {c : Char}
    (hc : c ∈ continuations key.label.toList) : c = '>' := by
  have hall : key.isWord = true ∨ (continuations key.label.toList).all (· = '>') = true := by
    refine h.elim (fun name hupper => .inr (List.all_eq_true.mpr fun c hc => ?_)) (by decide)
    rw [label_letter] at hc
    obtain ⟨rest, key, hentry⟩ := mem_continuations.mp hc
    have hneither : (name.isDigit || name.isUpper) = false := head_of_mem_spellings _ hentry
    rw [hupper, Bool.or_true] at hneither
    cases hneither
  rcases hall with hword | hall
  · rw [hw] at hword
    cases hword
  · exact of_decide_eq_true (List.all_eq_true.mp hall c hc)

theorem label_ne_nil {key : Key} (h : key.HasCap) : key.label.toList ≠ [] := by
  refine h.elim (fun name _ => ?_) (by decide)
  rw [label_letter]
  exact List.cons_ne_nil name []

theorem head?_label_ne {key : Key} (h : key.HasCap) : key.label.toList.head? ≠ some '>' := by
  refine h.elim (fun name hupper hhead => ?_) (by decide)
  rw [label_letter] at hhead
  cases hhead
  cases hupper

theorem isWhiteSpace_of_isUpper {c : Char} (h : c.isUpper = true) :
    Text.isWhiteSpace c = false := by
  have hbounds := toNat_of_isUpper h
  simp only [Text.isWhiteSpace, Text.whiteSpaceRanges, List.any_cons, List.any_nil, Bool.or_false,
    Bool.or_eq_false_iff, Bool.and_eq_false_imp, decide_eq_true_eq, decide_eq_false_iff_not]
  omega

/-- Labels hold no white space. -/
theorem isWhiteSpace_of_mem_label {key : Key} (h : key.HasCap) :
    ∀ c ∈ key.label.toList, Text.isWhiteSpace c = false := by
  have hall : key.label.toList.all (fun c => !Text.isWhiteSpace c) = true := by
    refine h.elim (fun name hupper => ?_) (by decide)
    rw [label_letter]
    simpa using isWhiteSpace_of_isUpper hupper
  intro c hc
  exact Bool.not_eq_true' _ |>.mp (List.all_eq_true.mp hall c hc)

end PocketCalc.Key
