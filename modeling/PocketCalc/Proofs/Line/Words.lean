import PocketCalc.Proofs.Key.Longest

/-! The words of a text as keys in their places. Each word stands for the key with the longest
spelling at its place, so that reading a text fails only where no spelling fits or where blanks part
a number. -/

namespace PocketCalc

/-- A key and the bytes of the text that spell it, from `start` up to `stop`. -/
structure PlacedKey where
  key : Key
  start : Nat
  stop : Nat
  deriving DecidableEq, Repr

namespace Line

/-- The keys spelled by a text whose first byte has the given position, or the position at which no
spelling fits. -/
def readPlaced (position : Nat) : List Char → Except Nat (List PlacedKey)
  | [] => .ok []
  | c :: rest =>
    if Text.isBlank c then readPlaced (position + c.utf8Size) rest
    else
      match Key.spelled? (c :: rest) with
      | none => .error position
      | some (key, width) =>
        let stop := position + Text.byteLength ((c :: rest).take width)
        (readPlaced stop (rest.drop (width - 1))).map (⟨key, position, stop⟩ :: ·)
termination_by text => text.length
decreasing_by all_goals simp only [List.length_drop, List.length_cons]; omega

/-- The end of the first digit or dot that a blank parts from another one. -/
def splitNumber? : List PlacedKey → Option Nat
  | a :: b :: rest =>
    if a.key.isNumeric && b.key.isNumeric && a.stop != b.start then some a.stop
    else splitNumber? (b :: rest)
  | _ => none

/-- The end of the first digit or dot that a blank parts from another one, if the given number comes
before the keys. -/
def splitFrom? (numberEnd : Option Nat) : List PlacedKey → Option Nat
  | [] => none
  | placed :: rest =>
    (numberEnd.filter fun stop => placed.key.isNumeric && stop != placed.start).or
      (splitFrom? (if placed.key.isNumeric then some placed.stop else none) rest)

theorem splitFrom?_stop (placed : PlacedKey) (rest : List PlacedKey) :
    splitFrom? (if placed.key.isNumeric then some placed.stop else none) rest =
      splitNumber? (placed :: rest) := by
  induction rest generalizing placed with
  | nil => rfl
  | cons next rest ih =>
      rw [splitFrom?, ih next, splitNumber?]
      cases placed.key.isNumeric with
      | false => rfl
      | true =>
          cases hparted : next.key.isNumeric && placed.stop != next.start <;>
            simp [Option.filter, hparted]

theorem splitFrom?_none (placed : List PlacedKey) :
    splitFrom? none placed = splitNumber? placed := by
  cases placed with
  | nil => rfl
  | cons first rest =>
      rw [splitFrom?, splitFrom?_stop]
      rfl

/-- A word that stands for a key is read as that key, unless it goes on with a number behind a
blank. -/
theorem readWords_cons {word : Word} {key : Key} (h : word.StandsFor key) (numberEnd : Option Nat)
    (rest : List Word) :
    readWords numberEnd (word :: rest) =
      (numberEnd.filter fun stop => key.isNumeric && stop != word.start).elim
        ((readWords (if key.isNumeric then some word.stop else none) rest).map (key :: ·))
        fun stop => .error (.splitNumber stop) := by
  rw [readWords, Word.splitEnd?, h.isNumeric_eq, h.key?_eq]
  cases numberEnd.filter fun stop => key.isNumeric && stop != word.start with
  | some stop => rfl
  | none =>
      change (readWords _ rest >>= fun line => pure (key :: line)) = Except.map _ (readWords _ rest)
      cases readWords (if key.isNumeric then some word.stop else none) rest <;> rfl

/-- The end of the text stands for no key. -/
theorem readWords_finish (numberEnd : Option Nat) (position : Nat) :
    readWords numberEnd [⟨.finish, [], position, position⟩] = .ok [] := by
  cases numberEnd <;> rfl

/-- Reading the words of a text is reading its keys: every word stands for one. -/
theorem readWords_words (position : Nat) (text : List Char) :
    (∀ place, Grammar.words position text = .error place →
        readPlaced position text = .error place) ∧
      ∀ words, Grammar.words position text = .ok words →
        ∃ placed, readPlaced position text = .ok placed ∧
          ∀ numberEnd, readWords numberEnd words =
            (splitFrom? numberEnd placed).elim (.ok (placed.map PlacedKey.key))
              fun stop => .error (.splitNumber stop) := by
  fun_induction Grammar.words position text with
  | case1 position =>
      refine ⟨fun place h => (by cases h), fun words h => ?_⟩
      cases h
      exact ⟨[], by rw [readPlaced], fun numberEnd => readWords_finish numberEnd position⟩
  | case2 position c tail hblank ih =>
      rw [readPlaced, if_pos hblank]
      exact ih
  | case3 position c tail hblank hnone =>
      refine ⟨fun place h => ?_, fun words h => (by cases h)⟩
      cases h
      rw [readPlaced, if_neg hblank, Key.spelled?_of_entity?_eq_none hnone]
  | case4 position c tail hblank rule word hword stop ih =>
      obtain ⟨key, hspelled, hbegins, hstands⟩ := Key.spelled?_of_entity? hword
      have htake : (c :: tail).take word.length = word :=
        (List.prefix_iff_eq_take.mp hbegins.fits).symm
      have hread : readPlaced position (c :: tail) =
          (readPlaced stop (tail.drop (word.length - 1))).map (⟨key, position, stop⟩ :: ·) := by
        rw [readPlaced, if_neg hblank, hspelled]
        simp only [htake, stop]
      rw [hread]
      cases hrest : Grammar.words stop (tail.drop (word.length - 1)) with
      | error place =>
          rw [hrest] at ih
          rw [ih.1 place rfl]
          refine ⟨fun other h => ?_, fun words h => (by cases h)⟩
          cases h
          rfl
      | ok behind =>
          rw [hrest] at ih
          obtain ⟨placed, hplaced, hbehind⟩ := ih.2 behind rfl
          refine ⟨fun place h => (by cases h), fun words h => ?_⟩
          cases h
          refine ⟨⟨key, position, stop⟩ :: placed, by rw [hplaced]; rfl, fun numberEnd => ?_⟩
          rw [readWords_cons (hstands position stop), hbehind, splitFrom?]
          cases numberEnd.filter fun stop => key.isNumeric && stop != position with
          | some place => rfl
          | none =>
              cases splitFrom? (if key.isNumeric then some stop else none) placed <;> rfl

/-- A text is read up to the first place where no spelling fits. -/
theorem read_of_readPlaced_error {text : List Char} {place : Nat}
    (h : readPlaced 0 text = .error place) : read text = .error (.unknownSymbol place) := by
  rw [read]
  cases hwords : Grammar.words 0 text with
  | error other =>
      have hsame := (readWords_words 0 text).1 other hwords
      cases hsame.symm.trans h
      rfl
  | ok words =>
      obtain ⟨_, hplaced, _⟩ := (readWords_words 0 text).2 words hwords
      cases hplaced.symm.trans h

/-- The keys of a text are its line, unless blanks part a number. -/
theorem read_of_readPlaced_ok {text : List Char} {placed : List PlacedKey}
    (h : readPlaced 0 text = .ok placed) :
    read text = (splitNumber? placed).elim (.ok (placed.map PlacedKey.key))
      fun stop => .error (.splitNumber stop) := by
  rw [read]
  cases hwords : Grammar.words 0 text with
  | error place =>
      have hsame := (readWords_words 0 text).1 place hwords
      cases hsame.symm.trans h
  | ok words =>
      obtain ⟨_, hplaced, hread⟩ := (readWords_words 0 text).2 words hwords
      cases hplaced.symm.trans h
      rw [← splitFrom?_none]
      exact hread none

/-- Only a place where no spelling fits and a number in parts make a text unreadable. No word of it
is an invalid digit, an empty name, without a key, or unexpected. -/
theorem fault_of_read {text : List Char} {fault : TextFault} (h : read text = .error fault) :
    ∃ place, fault = .unknownSymbol place ∨ fault = .splitNumber place := by
  cases hplaced : readPlaced 0 text with
  | error place =>
      cases (read_of_readPlaced_error hplaced).symm.trans h
      exact ⟨place, .inl rfl⟩
  | ok placed =>
      rw [read_of_readPlaced_ok hplaced] at h
      cases hsplit : splitNumber? placed with
      | none =>
          rw [hsplit] at h
          cases h
      | some stop =>
          rw [hsplit] at h
          cases h
          exact ⟨stop, .inr rfl⟩

end Line
end PocketCalc
