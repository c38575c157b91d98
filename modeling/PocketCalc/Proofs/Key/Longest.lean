import Mathlib.Data.List.Perm.Basic
import PocketCalc.Line.Reader
import PocketCalc.Proofs.Key.Spelling

/-! The key that a text begins with, told without the order in which spellings are tried: it is the
one with the longest spelling that fits. The grammar tries its words in an order of its own, and has
the same spellings as the keys. No two keys share one. -/

namespace PocketCalc

/-- The word stands for the key, and is a part of a number if the key is. -/
structure Word.StandsFor (word : Word) (key : Key) : Prop where
  key?_eq : word.key? = .ok (some key)
  isNumeric_eq : word.isNumeric = key.isNumeric

namespace Key

/-- What may stand for a key in a text. -/
inductive Spelled : Key → List Char → Prop where
  | digit {c : Char} (h : '0' ≤ c ∧ c ≤ '9') : Spelled (.digit (c.toNat - '0'.toNat)) [c]
  | letter {name : Char} (h : 'A' ≤ name ∧ name ≤ 'Z') : Spelled (.letter name) [name]
  | named {key : Key} {spelling : List Char} (h : (spelling, key) ∈ spellings) :
      Spelled key spelling

/-- A text begins with a spelling of the key and with no longer one of any key. -/
structure Begins (text : List Char) (key : Key) (spelling : List Char) : Prop where
  spelled : key.Spelled spelling
  fits : spelling <+: text
  longest : ∀ other longer, Spelled other longer → longer <+: text →
    longer.length ≤ spelling.length

theorem isDigit_iff (c : Char) : c.isDigit = true ↔ '0' ≤ c ∧ c ≤ '9' := by
  simp only [Char.isDigit, Bool.and_eq_true, decide_eq_true_eq]
  rfl

/-! ## Spellings -/

theorem eq_of_mem_spellings :
    ∀ entry ∈ spellings, ∀ other ∈ spellings, entry.1 = other.1 → entry = other := by
  decide +kernel

theorem Spelled.length_pos {key : Key} {spelling : List Char} (h : key.Spelled spelling) :
    0 < spelling.length := by
  cases h with
  | digit | letter => exact Nat.one_pos
  | named h => exact spellings_nonempty _ h

/-- Only keys with a key cap can be spelled. -/
theorem Spelled.hasCap {key : Key} {spelling : List Char} (h : key.Spelled spelling) :
    key.HasCap := by
  cases h with
  | @digit c h =>
      have hnine := (toNat_of_isDigit ((isDigit_iff c).mpr h)).2
      exact Nat.sub_le_of_le_add hnine
  | letter h => exact h
  | named h => exact hasCap_of_mem_spellings _ h

theorem isBlank_head_of_mem_spellings :
    ∀ entry ∈ spellings, entry.1.head?.any Text.isBlank = false := by
  decide

/-- No spelling begins with a blank. -/
theorem Spelled.isBlank_head {key : Key} {spelling : List Char} (h : key.Spelled spelling) :
    ∀ c ∈ spelling.head?, Text.isBlank c = false := by
  intro c hc
  cases h with
  | named h =>
      have hhead := isBlank_head_of_mem_spellings _ h
      rwa [Option.mem_def.mp hc] at hhead
  | digit h | letter h =>
      cases hc
      rw [Bool.eq_false_iff]
      intro hblank
      simp only [Text.isBlank, Bool.or_eq_true, decide_eq_true_eq] at hblank
      rcases hblank with rfl | rfl
      · exact absurd h (by decide)
      · exact absurd h (by decide)

theorem not_mem_spellings {c : Char} (h : (c.isDigit || c.isUpper) = true) (rest : List Char)
    (key : Key) : (c :: rest, key) ∉ spellings := by
  intro hmem
  have hneither : (c.isDigit || c.isUpper) = false := head_of_mem_spellings _ hmem
  rw [h] at hneither
  cases hneither

theorem isDigit_or_isUpper_of_digit {c : Char} (h : '0' ≤ c ∧ c ≤ '9') :
    (c.isDigit || c.isUpper) = true := by
  rw [(isDigit_iff c).mpr h, Bool.true_or]

theorem isDigit_or_isUpper_of_letter {c : Char} (h : 'A' ≤ c ∧ c ≤ 'Z') :
    (c.isDigit || c.isUpper) = true := by
  rw [(isUpper_iff c).mpr h, Bool.or_true]

theorem not_digit_of_letter {c : Char} (h : 'A' ≤ c ∧ c ≤ 'Z') : ¬ ('0' ≤ c ∧ c ≤ '9') := by
  rw [← isDigit_iff, isDigit_of_isUpper ((isUpper_iff c).mpr h)]
  exact Bool.false_ne_true

/-- No two keys share a spelling. -/
theorem Spelled.unique {key other : Key} {spelling : List Char} (h : key.Spelled spelling)
    (hother : other.Spelled spelling) : key = other := by
  cases h with
  | digit h =>
      cases hother with
      | digit => rfl
      | letter hname => exact absurd h (not_digit_of_letter hname)
      | named hmem => exact absurd hmem (not_mem_spellings (isDigit_or_isUpper_of_digit h) _ _)
  | letter h =>
      cases hother with
      | digit hdigit => exact absurd hdigit (not_digit_of_letter h)
      | letter => rfl
      | named hmem => exact absurd hmem (not_mem_spellings (isDigit_or_isUpper_of_letter h) _ _)
  | named h =>
      cases hother with
      | digit hdigit =>
          exact absurd h (not_mem_spellings (isDigit_or_isUpper_of_digit hdigit) _ _)
      | letter hname =>
          exact absurd h (not_mem_spellings (isDigit_or_isUpper_of_letter hname) _ _)
      | named hother => exact congrArg Prod.snd (eq_of_mem_spellings _ h _ hother rfl)

/-- A text begins with one key at most, and with one spelling of it. -/
theorem Begins.unique {text spelling longer : List Char} {key other : Key}
    (h : Begins text key spelling) (hother : Begins text other longer) :
    key = other ∧ spelling = longer := by
  have hle := hother.longest key spelling h.spelled h.fits
  have hge := h.longest other longer hother.spelled hother.fits
  have hsame : spelling = longer :=
    (List.prefix_of_prefix_length_le h.fits hother.fits hle).eq_of_length (hle.antisymm hge)
  subst hsame
  exact ⟨h.spelled.unique hother.spelled, rfl⟩

/-! ## The words of the grammar -/

/-- The words that the grammar gives by their letters, in the order in which they are tried. -/
def literals : List (List Char) := Grammar.keywords ++ Grammar.symbols

/-- The grammar has the spellings of the keys, and no others. -/
theorem literals_perm_spellings : literals.Perm (spellings.map Prod.fst) := by
  decide +kernel

/-- No word begins another one that is tried later. -/
theorem literals_longest_first : literals.Pairwise fun a b => a.isPrefixOf b = false := by
  decide +kernel

theorem mem_literals_iff {word : List Char} :
    word ∈ literals ↔ ∃ key, (word, key) ∈ spellings := by
  simp [literals_perm_spellings.mem_iff]

/-- The first word that fits is the longest, if no word begins a later one. -/
theorem length_le_of_find? {words : List (List Char)} {text word : List Char}
    (horder : words.Pairwise fun a b => a.isPrefixOf b = false)
    (h : (words.find? fun word => word.isPrefixOf text) = some word) :
    ∀ other ∈ words, other <+: text → other.length ≤ word.length := by
  intro other hother hfits
  obtain ⟨hword, before, after, rfl, hbefore⟩ := List.find?_eq_some_iff_append.mp h
  rcases List.mem_append.mp hother with hmem | hmem
  · have hmisfit := hbefore other hmem
    rw [List.isPrefixOf_iff_prefix.mpr hfits] at hmisfit
    cases hmisfit
  · rcases List.mem_cons.mp hmem with rfl | hmem
    · exact Nat.le_refl _
    · -- both fit, so that one begins the other
      have hnot := List.rel_of_pairwise_cons (List.pairwise_append.mp horder).2.1 hmem
      by_contra hlt
      have hbegins := List.prefix_of_prefix_length_le (List.isPrefixOf_iff_prefix.mp hword) hfits
        (Nat.le_of_not_le hlt)
      rw [List.isPrefixOf_iff_prefix.mpr hbegins] at hnot
      cases hnot

theorem character?_eq_some_iff {accepts : Char → Bool} {text word : List Char} :
    Grammar.character? accepts text = some word ↔
      ∃ c rest, text = c :: rest ∧ word = [c] ∧ accepts c = true := by
  constructor
  · intro h
    cases text with
    | nil => cases h
    | cons c rest =>
        simp only [Grammar.character?, List.head?_cons, Option.map_eq_some_iff,
          Option.filter_eq_some_iff] at h
        obtain ⟨_, ⟨⟨rfl⟩, hc⟩, rfl⟩ := h
        exact ⟨c, rest, rfl, rfl, hc⟩
  · rintro ⟨c, rest, rfl, rfl, hc⟩
    simp [Grammar.character?, Option.filter, hc]

/-- The rules are tried one after the other. -/
theorem entity?_eq (text : List Char) :
    Grammar.entity? text =
      ((Grammar.literal? Grammar.keywords text).map (Rule.keyword, ·)).or
        (((Grammar.character? Char.isDigit text).map (Rule.digit, ·)).or
          (((Grammar.character? Char.isUpper text).map (Rule.letter, ·)).or
            ((Grammar.literal? Grammar.symbols text).map (Rule.symbol, ·)))) := by
  simp only [Grammar.entity?, List.findSome?_cons, List.findSome?_nil, Grammar.matched?]
  cases Grammar.literal? Grammar.keywords text <;> cases Grammar.character? Char.isDigit text <;>
    cases Grammar.character? Char.isUpper text <;>
      cases Grammar.literal? Grammar.symbols text <;> rfl

theorem literal?_literals (text : List Char) :
    Grammar.literal? literals text =
      (Grammar.literal? Grammar.keywords text).or (Grammar.literal? Grammar.symbols text) :=
  List.find?_append

/-- The word that is found is the first literal that fits, or else a digit or a capital letter. -/
theorem entity?_cases {text word : List Char} {rule : Rule}
    (h : Grammar.entity? text = some (rule, word)) :
    (rule = .keyword ∧ word ∈ Grammar.keywords ∨ rule = .symbol) ∧
        Grammar.literal? literals text = some word ∨
      ∃ c rest, text = c :: rest ∧ word = [c] ∧
        (rule = .digit ∧ c.isDigit = true ∨ rule = .letter ∧ c.isUpper = true) := by
  simp only [entity?_eq, Option.or_eq_some_iff, Option.map_eq_some_iff, Option.map_eq_none_iff,
    Prod.mk.injEq] at h
  rw [literal?_literals]
  rcases h with ⟨_, hkeyword, rfl, rfl⟩ | ⟨hnone, ⟨_, hdigit, rfl, rfl⟩ |
    ⟨_, ⟨_, hletter, rfl, rfl⟩ | ⟨_, _, hsymbol, rfl, rfl⟩⟩⟩
  · have hmem := List.mem_of_find?_eq_some hkeyword
    exact .inl ⟨.inl ⟨rfl, hmem⟩, by rw [hkeyword, Option.some_or]⟩
  · obtain ⟨c, rest, rfl, rfl, hc⟩ := character?_eq_some_iff.mp hdigit
    exact .inr ⟨c, rest, rfl, rfl, .inl ⟨rfl, hc⟩⟩
  · obtain ⟨c, rest, rfl, rfl, hc⟩ := character?_eq_some_iff.mp hletter
    exact .inr ⟨c, rest, rfl, rfl, .inr ⟨rfl, hc⟩⟩
  · exact .inl ⟨.inr rfl, by rw [hnone, hsymbol, Option.none_or]⟩

/-- A literal that is the first to fit is the longest spelling that does. -/
theorem exists_begins_of_literal? {text word : List Char}
    (h : Grammar.literal? literals text = some word) : ∃ key, Begins text key word := by
  obtain ⟨key, hmem⟩ := mem_literals_iff.mp (List.mem_of_find?_eq_some h)
  have hfits := List.isPrefixOf_iff_prefix.mp (List.find?_eq_some_iff_append.mp h).1
  refine ⟨key, .named hmem, hfits, fun other longer hother hlonger => ?_⟩
  cases hother with
  | named hother =>
      have hliteral := mem_literals_iff.mpr ⟨other, hother⟩
      exact length_le_of_find? literals_longest_first h longer hliteral hlonger
  | digit | letter => exact spellings_nonempty _ hmem

/-- No spelling that fits a text with a digit or a capital letter in front is longer than that. -/
theorem Begins.of_singleton {c : Char} {key : Key} (h : key.Spelled [c])
    (hclass : (c.isDigit || c.isUpper) = true) (rest : List Char) : Begins (c :: rest) key [c] := by
  refine ⟨h, List.prefix_append [c] rest, fun other longer hother hlonger => ?_⟩
  cases hother with
  | @named _ spelling hother =>
      cases longer with
      | nil => exact Nat.zero_le 1
      | cons d tail =>
          obtain ⟨rfl, _⟩ := List.cons_prefix_cons.mp hlonger
          exact absurd hother (not_mem_spellings hclass tail other)
  | digit | letter => exact Nat.le_refl 1

/-! ## The keys of words -/

theorem lookup_spellings : ∀ entry ∈ spellings, spellings.lookup entry.1 = some entry.2 := by
  decide +kernel

theorem isNumeric_of_mem_spellings :
    ∀ entry ∈ spellings, entry.2.isNumeric = decide (entry.1 = ['.']) := by
  decide

theorem dot_not_mem_keywords : ['.'] ∉ Grammar.keywords := by
  decide

/-- Ordered choice finds the longest spelling, and the word that it finds stands for the key. -/
theorem exists_standsFor_of_entity? {text word : List Char} {rule : Rule}
    (h : Grammar.entity? text = some (rule, word)) :
    ∃ key, Begins text key word ∧
      ∀ start stop, Word.StandsFor ⟨rule, word, start, stop⟩ key := by
  obtain ⟨hrule, hliteral⟩ | ⟨c, rest, rfl, rfl, ⟨rfl, hdigit⟩ | ⟨rfl, hupper⟩⟩ := entity?_cases h
  · obtain ⟨key, hbegins⟩ := exists_begins_of_literal? hliteral
    obtain ⟨name, hmem⟩ := mem_literals_iff.mp (List.mem_of_find?_eq_some hliteral)
    obtain rfl := hbegins.spelled.unique (.named hmem)
    have hlookup := lookup_spellings _ hmem
    have hnumeric := isNumeric_of_mem_spellings _ hmem
    refine ⟨key, hbegins, fun start stop => ?_⟩
    rcases hrule with ⟨rfl, hkeyword⟩ | rfl
    · have hdot : word ≠ ['.'] := fun hdot => dot_not_mem_keywords (hdot ▸ hkeyword)
      exact ⟨by simp only [Word.key?, hlookup], by simp [Word.isNumeric, hnumeric, hdot]⟩
    · exact ⟨by simp only [Word.key?, hlookup], by simp [Word.isNumeric, hnumeric]⟩
  · have hspelled : (digit (c.toNat - '0'.toNat)).Spelled [c] := .digit ((isDigit_iff c).mp hdigit)
    refine ⟨_, .of_singleton hspelled (by rw [hdigit, Bool.true_or]) rest, fun _ _ => ⟨?_, rfl⟩⟩
    simp only [Word.key?, List.head?_cons, Option.filter, hdigit, if_true]
  · have hspelled : (letter c).Spelled [c] := .letter ((isUpper_iff c).mp hupper)
    exact ⟨_, .of_singleton hspelled (by rw [hupper, Bool.or_true]) rest, fun _ _ => ⟨rfl, rfl⟩⟩

/-- Where no word is found, no spelling fits. -/
theorem not_prefix_of_entity?_eq_none {text : List Char} (h : Grammar.entity? text = none)
    (key : Key) (spelling : List Char) (hspelled : key.Spelled spelling) : ¬ spelling <+: text := by
  simp only [entity?_eq, Option.or_eq_none_iff, Option.map_eq_none_iff] at h
  obtain ⟨hkeyword, hdigit, hletter, hsymbol⟩ := h
  have hliteral : Grammar.literal? literals text = none := by
    rw [literal?_literals, hkeyword, hsymbol, Option.none_or]
  rintro ⟨rest, rfl⟩
  cases hspelled with
  | named hmem =>
      have hword := mem_literals_iff.mpr ⟨key, hmem⟩
      exact List.find?_eq_none.mp hliteral _ hword
        (List.isPrefixOf_iff_prefix.mpr (List.prefix_append _ _))
  | @digit c hc =>
      have hfound := character?_eq_some_iff.mpr ⟨c, rest, rfl, rfl, (isDigit_iff c).mpr hc⟩
      cases hdigit.symm.trans hfound
  | @letter c hc =>
      have hfound := character?_eq_some_iff.mpr ⟨c, rest, rfl, rfl, (isUpper_iff c).mpr hc⟩
      cases hletter.symm.trans hfound

/-! ## The key at the beginning of a text -/

/-- The key that a text begins with, and the number of characters that spell it. -/
def spelled? (text : List Char) : Option (Key × Nat) := do
  let (rule, word) ← Grammar.entity? text
  let key ← (Word.key? ⟨rule, word, 0, 0⟩).toOption.join
  return (key, word.length)

theorem spelled?_of_entity? {text word : List Char} {rule : Rule}
    (h : Grammar.entity? text = some (rule, word)) :
    ∃ key, spelled? text = some (key, word.length) ∧ Begins text key word ∧
      ∀ start stop, Word.StandsFor ⟨rule, word, start, stop⟩ key := by
  obtain ⟨key, hbegins, hstands⟩ := exists_standsFor_of_entity? h
  refine ⟨key, ?_, hbegins, hstands⟩
  have hkey := (hstands 0 0).key?_eq
  simp only [spelled?, h, Option.bind_eq_bind, Option.bind_some, hkey]
  rfl

theorem spelled?_of_entity?_eq_none {text : List Char} (h : Grammar.entity? text = none) :
    spelled? text = none := by
  simp only [spelled?, h]
  rfl

/-- The key that is read at the beginning of a text has the longest spelling that fits. -/
theorem begins_of_spelled? {text : List Char} {key : Key} {width : Nat}
    (h : spelled? text = some (key, width)) :
    ∃ spelling, Begins text key spelling ∧ spelling.length = width := by
  cases hentity : Grammar.entity? text with
  | none => cases (spelled?_of_entity?_eq_none hentity).symm.trans h
  | some found =>
      obtain ⟨other, hspelled, hbegins, _⟩ := spelled?_of_entity? hentity
      cases hspelled.symm.trans h
      exact ⟨found.2, hbegins, rfl⟩

/-- No key is read where no spelling fits. -/
theorem spelled?_eq_none_iff {text : List Char} :
    spelled? text = none ↔ ∀ key spelling, Spelled key spelling → ¬ spelling <+: text := by
  constructor
  · intro h
    cases hentity : Grammar.entity? text with
    | none => exact not_prefix_of_entity?_eq_none hentity
    | some found =>
        obtain ⟨key, hspelled, _⟩ := spelled?_of_entity? hentity
        cases hspelled.symm.trans h
  · intro h
    cases hspelled : spelled? text with
    | none => rfl
    | some found =>
        obtain ⟨spelling, hbegins, _⟩ := begins_of_spelled? hspelled
        exact absurd hbegins.fits (h _ _ hbegins.spelled)

/-- A text that begins with a spelling of a key is read as that key. -/
theorem Begins.spelled?_eq {text spelling : List Char} {key : Key} (h : Begins text key spelling) :
    spelled? text = some (key, spelling.length) := by
  cases hspelled : spelled? text with
  | none => exact absurd h.fits (spelled?_eq_none_iff.mp hspelled key spelling h.spelled)
  | some found =>
      obtain ⟨other, hbegins, hwidth⟩ := begins_of_spelled? hspelled
      obtain ⟨hkey, rfl⟩ := h.unique hbegins
      exact congrArg some (Prod.ext hkey.symm hwidth.symm)

/-- The text is the spelling that is read and what is left to read behind it. -/
theorem append_of_spelled? {c : Char} {tail : List Char} {key : Key} {width : Nat}
    (h : spelled? (c :: tail) = some (key, width)) :
    ∃ spelling, Begins (spelling ++ tail.drop (width - 1)) key spelling ∧
      spelling ++ tail.drop (width - 1) = c :: tail ∧ (c :: tail).take width = spelling := by
  obtain ⟨spelling, hbegins, rfl⟩ := begins_of_spelled? h
  have htake : (c :: tail).take spelling.length = spelling :=
    (List.prefix_iff_eq_take.mp hbegins.fits).symm
  have hdrop : (c :: tail).drop spelling.length = tail.drop (spelling.length - 1) :=
    List.drop_cons hbegins.spelled.length_pos
  have htext : spelling ++ tail.drop (spelling.length - 1) = c :: tail := by
    calc
      spelling ++ tail.drop (spelling.length - 1) =
          (c :: tail).take spelling.length ++ (c :: tail).drop spelling.length := by
        rw [htake, hdrop]
      _ = c :: tail := List.take_append_drop _ _
  exact ⟨spelling, by rwa [htext], htext, htake⟩

/-- A text begins with the key that is read from it. -/
theorem Begins.of_spelled?_eq {spelling rest : List Char} {key : Key}
    (h : spelled? (spelling ++ rest) = some (key, spelling.length)) :
    Begins (spelling ++ rest) key spelling := by
  obtain ⟨found, hbegins, hlength⟩ := begins_of_spelled? h
  have hprefix := List.prefix_append spelling rest
  have hsame : found = spelling :=
    (List.prefix_of_prefix_length_le hbegins.fits hprefix hlength.le).eq_of_length hlength
  rwa [hsame] at hbegins

/-- A spelling takes at least one character. -/
theorem spelled?_width_pos {text : List Char} {key : Key} {width : Nat}
    (h : spelled? text = some (key, width)) : 0 < width := by
  obtain ⟨spelling, hbegins, rfl⟩ := begins_of_spelled? h
  exact hbegins.spelled.length_pos

/-- A key is spelled within the text. -/
theorem width_le_of_spelled? {text : List Char} {key : Key} {width : Nat}
    (h : spelled? text = some (key, width)) : width ≤ text.length := by
  obtain ⟨spelling, hbegins, rfl⟩ := begins_of_spelled? h
  exact hbegins.fits.length_le

/-- Only keys with a key cap are read from a text. -/
theorem hasCap_of_spelled? {text : List Char} {key : Key} {width : Nat}
    (h : spelled? text = some (key, width)) : key.HasCap := by
  obtain ⟨spelling, hbegins, _⟩ := begins_of_spelled? h
  exact hbegins.spelled.hasCap

/-- Where the next character does not continue a text, the spellings that fit are those that fit the
text alone. -/
theorem Spelled.prefix_append_iff {key : Key} {spelling text rest : List Char}
    (h : key.Spelled spelling) (hne : text ≠ [])
    (hrest : ∀ c ∈ rest.head?, c ∉ continuations text) :
    spelling <+: text ++ rest ↔ spelling <+: text := by
  cases h with
  | named hmem =>
      rw [← List.isPrefixOf_iff_prefix, isPrefixOf_append hmem hrest, List.isPrefixOf_iff_prefix]
  | digit | letter =>
      cases text with
      | nil => exact absurd rfl hne
      | cons c tail => simp

/-- What follows a text does not matter if it does not continue it. -/
theorem spelled?_append {text rest : List Char} (hne : text ≠ [])
    (h : ∀ c ∈ rest.head?, c ∉ continuations text) : spelled? (text ++ rest) = spelled? text := by
  cases hspelled : spelled? text with
  | none =>
      rw [spelled?_eq_none_iff] at hspelled ⊢
      intro key spelling hkey
      rw [hkey.prefix_append_iff hne h]
      exact hspelled key spelling hkey
  | some found =>
      obtain ⟨spelling, hbegins, hwidth⟩ := begins_of_spelled? hspelled
      have happend : Begins (text ++ rest) found.1 spelling := by
        refine ⟨hbegins.spelled, (hbegins.spelled.prefix_append_iff hne h).mpr hbegins.fits, ?_⟩
        intro other longer hother hfits
        exact hbegins.longest other longer hother ((hother.prefix_append_iff hne h).mp hfits)
      rw [happend.spelled?_eq, hwidth]

/-- Every key with a key cap is read from its label. -/
theorem spelled?_label {key : Key} (h : key.HasCap) :
    spelled? key.label.toList = some (key, key.label.toList.length) := by
  refine h.elim (fun name hupper => ?_) (by decide +kernel)
  have hname := (isUpper_iff name).mp hupper
  rw [label_letter]
  exact (Begins.of_singleton (.letter hname) (isDigit_or_isUpper_of_letter hname) []).spelled?_eq

/-- No two keys with key caps have the same label. -/
theorem eq_of_label_eq {key other : Key} (h : key.HasCap) (hother : other.HasCap)
    (hlabel : key.label = other.label) : key = other := by
  have hspelled := spelled?_label h
  rw [hlabel, spelled?_label hother] at hspelled
  exact congrArg Prod.fst (Option.some.inj hspelled.symm)

end Key
end PocketCalc
