import Mathlib.Data.List.Basic
import PocketCalc.Event

/-! What the entries of a log tell. An entry shows which kind of event it is about, and every text
that it is made of: the label of the key, the offset, the numbers. So a log can be read from its
entries alone. -/

namespace PocketCalc

/-! ## Numbers in an entry -/

namespace Decimal

/-- The characters of which numbers are written. -/
def IsNumeral (c : Char) : Prop := c.isDigit = true ∨ c ∈ "-.NaNinf".toList

instance (c : Char) : Decidable (IsNumeral c) := inferInstanceAs (Decidable (_ ∨ _))

theorem isNumeral_of_mem_toDigits {n : Nat} {c : Char} (h : c ∈ Nat.toDigits 10 n) :
    IsNumeral c :=
  .inl (Nat.isDigit_of_mem_toDigits (by decide) (by decide) h)

theorem isNumeral_of_mem_replicate {n : Nat} {c : Char} (h : c ∈ List.replicate n '0') :
    IsNumeral c := by
  rw [List.eq_of_mem_replicate h]
  decide

theorem isNumeral_of_mem_positional (d : Scaled) : ∀ c ∈ d.positional.toList, IsNumeral c := by
  intro c hc
  unfold Scaled.positional at hc
  split at hc
  · rw [String.toList_ofList] at hc
    exact (List.mem_append.mp hc).elim isNumeral_of_mem_toDigits isNumeral_of_mem_replicate
  · -- the point stands somewhere among the digits
    have hpadded {n : Nat} (h : c ∈ List.replicate n '0' ++ Nat.toDigits 10 d.digits) :
        IsNumeral c :=
      (List.mem_append.mp h).elim isNumeral_of_mem_replicate isNumeral_of_mem_toDigits
    rw [String.toList_ofList] at hc
    rcases List.mem_append.mp hc with hwhole | hpoint
    · exact hpadded (List.mem_of_mem_take hwhole)
    · rcases List.mem_cons.mp hpoint with rfl | hplaces
      · decide
      · exact hpadded (List.mem_of_mem_drop hplaces)

theorem isNumeral_of_all {word : String}
    (h : word.toList.all (fun c => decide (IsNumeral c)) = true) :
    ∀ c ∈ word.toList, IsNumeral c :=
  fun c hc => of_decide_eq_true (List.all_eq_true.mp h c hc)

theorem isNumeral_of_mem_text (x : Float) : ∀ c ∈ (text x).toList, IsNumeral c := by
  intro c hc
  unfold text at hc
  split at hc
  · exact isNumeral_of_all (by decide) c hc
  · have hunsigned : ∀ c ∈ (if !Binary64.isFinite x then "inf"
        else if Binary64.bits x % 0x8000000000000000 = 0 then "0"
        else (shortest (Binary64.bits x % 0x8000000000000000)).positional).toList,
        IsNumeral c := by
      split
      · exact isNumeral_of_all (by decide)
      · split
        · exact isNumeral_of_all (by decide)
        · exact isNumeral_of_mem_positional _
    dsimp only at hc
    split at hc
    · rw [String.toList_append] at hc
      rcases List.mem_append.mp hc with hsign | hc
      · rw [List.mem_singleton.mp hsign]
        decide
      · exact hunsigned c hc
    · exact hunsigned c hc

theorem not_mem_text {c : Char} (h : ¬ IsNumeral c) (x : Float) : c ∉ (text x).toList :=
  fun hc => h (isNumeral_of_mem_text x c hc)

theorem not_mem_toDigits {c : Char} (h : ¬ IsNumeral c) (n : Nat) : c ∉ Nat.toDigits 10 n :=
  fun hc => h (isNumeral_of_mem_toDigits hc)

theorem toDigits_injective : Function.Injective (Nat.toDigits 10) :=
  Function.LeftInverse.injective (g := fun digits => Nat.ofDigitChars 10 digits 0) fun _ =>
    Nat.ofDigitChars_toDigits (by decide) (by decide)

theorem toString_injective : Function.Injective (toString : Nat → String) := by
  intro n m h
  have hdigits := congrArg String.toList h
  rw [Nat.toString_eq_repr, Nat.toString_eq_repr, Nat.toList_repr, Nat.toList_repr] at hdigits
  exact toDigits_injective hdigits

end Decimal

/-! ## The texts of entries -/

namespace Event

theorem toList_entry_started (offset : Nat) (keys : Line) :
    (started offset keys).entry.toList =
      "DEBUG solve from ".toList ++ (Nat.toDigits 10 offset ++ ':' :: ' ' :: keys.print) := by
  simp [entry, level, message, toString]

theorem toList_entry_applied (key : Key) (offset operands : Nat) :
    (applied key offset operands).entry.toList =
      "TRACE apply '".toList ++ (key.label.toList ++ "' at".toList ++
        ' ' :: (Nat.toDigits 10 offset ++ [',']) ++ ' ' :: Nat.toDigits 10 operands ++
          " operand(s) on stack".toList) := by
  simp [entry, level, message, toString]

theorem toList_entry_fetched (name : Char) (index value : Float) :
    (fetched name index value).entry.toList =
      "TRACE ".toList ++ name :: '[' :: ((Decimal.text index).toList ++
        ']' :: ' ' :: '=' :: ' ' :: (Decimal.text value).toList) := by
  simp [entry, level, message, toString]

theorem toList_entry_solved (value : Float) (stop : Nat) :
    (solved value stop).entry.toList =
      "DEBUG solved: ".toList ++ ((Decimal.text value).toList ++
        ' ' :: ("(stopped at ".toList ++ (Nat.toDigits 10 stop ++ [')']))) := by
  simp [entry, level, message, toString]

theorem toList_entry_assigned (value : Float) (name : Char) :
    (assigned value name).entry.toList =
      "DEBUG ".toList ++ ((Decimal.text value).toList ++ ' ' :: '-' :: '>' :: ' ' :: [name]) := by
  simp [entry, level, message, toString]

end Event

/-! ## Kinds of entries -/

inductive EventKind where
  | started | applied | fetched | solved | assigned
  deriving DecidableEq, Repr

def Event.kind : Event → EventKind
  | started .. => .started
  | applied .. => .applied
  | fetched .. => .fetched
  | solved .. => .solved
  | assigned .. => .assigned

/-- What an entry is about, as far as its text tells. An arrow comes behind the first word of the
message, which is a number. -/
def EventKind.ofEntry? (entry : String) : Option EventKind :=
  let text := entry.toList
  if "DEBUG solve from ".toList.isPrefixOf text then some .started
  else if "DEBUG solved: ".toList.isPrefixOf text then some .solved
  else if "TRACE apply ".toList.isPrefixOf text then some .applied
  else if "TRACE ".toList.isPrefixOf text then some .fetched
  else if "DEBUG ".toList.isPrefixOf text &&
      " -> ".toList.isPrefixOf ((text.drop 6).dropWhile fun c => c ≠ ' ') then some .assigned
  else none

/-- The entry is about an event of this kind. -/
def EventKind.fits (kind : EventKind) (entry : String) : Bool :=
  EventKind.ofEntry? entry = some kind

/-- An entry tells what it is about. -/
theorem EventKind.ofEntry?_entry (event : Event) :
    EventKind.ofEntry? event.entry = some event.kind := by
  unfold EventKind.ofEntry?
  cases event with
  | started offset keys =>
      rw [Event.toList_entry_started]
      rfl
  | applied key offset operands =>
      rw [Event.toList_entry_applied]
      rfl
  | fetched name index value =>
      rw [Event.toList_entry_fetched]
      simp [List.isPrefixOf, Event.kind]
  | solved value stop =>
      rw [Event.toList_entry_solved]
      rfl
  | assigned value name =>
      have hnumber : ∀ c ∈ (Decimal.text value).toList, c ≠ 's' ∧ c ≠ ' ' := fun c hc =>
        ⟨fun h => Decimal.not_mem_text (by decide) value (h ▸ hc),
          fun h => Decimal.not_mem_text (by decide) value (h ▸ hc)⟩
      rw [Event.toList_entry_assigned]
      generalize (Decimal.text value).toList = number at hnumber
      generalize htext : number ++ ' ' :: '-' :: '>' :: ' ' :: [name] = text
      -- the first word is a number, and so it is neither `solve` nor `solved`
      have hother (word : List Char) :
          ("DEBUG s".toList ++ word).isPrefixOf ("DEBUG ".toList ++ text) = false := by
        rw [← htext]
        cases number with
        | nil => rfl
        | cons c number =>
            have hc : c ≠ 's' := (hnumber c List.mem_cons_self).1
            simp [List.isPrefixOf, hc.symm]
      have hsolve : "DEBUG solve from ".toList.isPrefixOf ("DEBUG ".toList ++ text) = false :=
        hother "olve from ".toList
      have hsolved : "DEBUG solved: ".toList.isPrefixOf ("DEBUG ".toList ++ text) = false :=
        hother "olved: ".toList
      have hdrop : ("DEBUG ".toList ++ text).drop 6 = text := rfl
      have hskip : text.dropWhile (fun c => c ≠ ' ') = ' ' :: '-' :: '>' :: ' ' :: [name] := by
        rw [← htext, List.dropWhile_append_of_pos (by simpa using fun c hc => (hnumber c hc).2)]
        rfl
      simp only [hsolve, hsolved, hdrop, hskip]
      rfl

theorem fits_entry {event : Event} {kind : EventKind} (h : event.kind = kind) :
    kind.fits event.entry = true := by
  rw [EventKind.fits, EventKind.ofEntry?_entry, h, decide_eq_true rfl]

/-! ## What an entry carries -/

/-- Equal texts have the same front, up to a character that neither of the fronts has. -/
theorem Text.append_cons_inj {sep : Char} {front behind other rest : List Char}
    (h : sep ∉ front) (hother : sep ∉ other)
    (heq : front ++ sep :: behind = other ++ sep :: rest) : front = other ∧ behind = rest := by
  induction front generalizing other with
  | nil =>
      cases other with
      | nil => exact ⟨rfl, (List.cons.inj heq).2⟩
      | cons c other => exact absurd (List.cons.inj heq).1 fun hc => hother (by simp [hc])
  | cons c front ih =>
      cases other with
      | nil => exact absurd (List.cons.inj heq).1 fun hc => h (by simp [hc])
      | cons d other =>
          obtain ⟨rfl, htail⟩ := List.cons.inj heq
          obtain ⟨rfl, hrest⟩ := ih (fun hmem => h (List.mem_cons_of_mem c hmem))
            (fun hmem => hother (List.mem_cons_of_mem c hmem)) htail
          exact ⟨rfl, hrest⟩

/-- The same from the end. -/
theorem Text.append_cons_inj_right {sep : Char} {front behind other rest : List Char}
    (h : sep ∉ behind) (hother : sep ∉ rest)
    (heq : front ++ sep :: behind = other ++ sep :: rest) : front = other ∧ behind = rest := by
  have hreverse := congrArg List.reverse heq
  simp only [List.reverse_append, List.reverse_cons, List.append_assoc, List.singleton_append]
    at hreverse
  obtain ⟨hbehind, hfront⟩ :=
    append_cons_inj (by simpa using h) (by simpa using hother) hreverse
  exact ⟨List.reverse_injective hfront, List.reverse_injective hbehind⟩

/-- The texts of which the message of an event is made. -/
def Event.parts : Event → List String
  | started offset keys => [toString offset, Line.text keys]
  | applied key offset operands => [key.label, toString offset, toString operands]
  | fetched name index value => [String.singleton name, Decimal.text index, Decimal.text value]
  | solved value stop => [Decimal.text value, toString stop]
  | assigned value name => [Decimal.text value, String.singleton name]

/-- The entries of two events are the same only if these are of one kind, and all that is in their
messages is the same. -/
theorem Event.parts_eq_of_entry {event other : Event} (h : event.entry = other.entry) :
    event.kind = other.kind ∧ event.parts = other.parts := by
  have hkind : some event.kind = some other.kind := by
    rw [← EventKind.ofEntry?_entry, h, EventKind.ofEntry?_entry]
  refine ⟨Option.some.inj hkind, ?_⟩
  have htext := congrArg String.toList h
  cases event with
  | started offset keys =>
      cases other with
      | started offset' keys' =>
          rw [toList_entry_started, toList_entry_started, List.append_cancel_left_eq] at htext
          obtain ⟨hoffset, hkeys⟩ := Text.append_cons_inj (Decimal.not_mem_toDigits (by decide) _)
            (Decimal.not_mem_toDigits (by decide) _) htext
          obtain rfl := Decimal.toDigits_injective hoffset
          have hline : Line.text keys = Line.text keys' :=
            congrArg String.ofList (List.cons.inj hkeys).2
          rw [parts, parts, hline]
      | _ => cases hkind
  | applied key offset operands =>
      cases other with
      | applied key' offset' operands' =>
          -- the label may hold any character, so that the numbers are read off from the end
          rw [toList_entry_applied, toList_entry_applied, List.append_cancel_left_eq,
            List.append_cancel_right_eq] at htext
          obtain ⟨hfront, hoperands⟩ := Text.append_cons_inj_right
            (Decimal.not_mem_toDigits (by decide) _) (Decimal.not_mem_toDigits (by decide) _) htext
          have hblank (n : Nat) : ' ' ∉ Nat.toDigits 10 n ++ [','] := by
            simpa using Decimal.not_mem_toDigits (by decide) n
          obtain ⟨hlabel, hoffset⟩ :=
            Text.append_cons_inj_right (hblank offset) (hblank offset') hfront
          rw [List.append_cancel_right_eq] at hlabel hoffset
          obtain rfl := Decimal.toDigits_injective hoffset
          obtain rfl := Decimal.toDigits_injective hoperands
          rw [parts, parts, String.toList_inj.mp hlabel]
      | _ => cases hkind
  | fetched name index value =>
      cases other with
      | fetched name' index' value' =>
          rw [toList_entry_fetched, toList_entry_fetched, List.append_cancel_left_eq] at htext
          obtain ⟨rfl, htail⟩ := List.cons.inj htext
          obtain ⟨hindex, hvalue⟩ := Text.append_cons_inj (Decimal.not_mem_text (by decide) _)
            (Decimal.not_mem_text (by decide) _) (List.cons.inj htail).2
          have hvalue' : (Decimal.text value).toList = (Decimal.text value').toList :=
            List.append_cancel_left (show [' ', '=', ' '] ++ _ = [' ', '=', ' '] ++ _ from hvalue)
          rw [parts, parts, String.toList_inj.mp hindex, String.toList_inj.mp hvalue']
      | _ => cases hkind
  | solved value stop =>
      cases other with
      | solved value' stop' =>
          rw [toList_entry_solved, toList_entry_solved, List.append_cancel_left_eq] at htext
          obtain ⟨hvalue, hstop⟩ := Text.append_cons_inj (Decimal.not_mem_text (by decide) _)
            (Decimal.not_mem_text (by decide) _) htext
          rw [List.append_cancel_left_eq, List.append_cancel_right_eq] at hstop
          obtain rfl := Decimal.toDigits_injective hstop
          rw [parts, parts, String.toList_inj.mp hvalue]
      | _ => cases hkind
  | assigned value name =>
      cases other with
      | assigned value' name' =>
          rw [toList_entry_assigned, toList_entry_assigned, List.append_cancel_left_eq] at htext
          obtain ⟨hvalue, hname⟩ := Text.append_cons_inj (Decimal.not_mem_text (by decide) _)
            (Decimal.not_mem_text (by decide) _) htext
          cases hname
          rw [parts, parts, String.toList_inj.mp hvalue]
      | _ => cases hkind

/-! ## Reading a log from its entries -/

/-- The entries of some kind are those of the events of that kind. -/
theorem filter_map_entry (kind : EventKind) (log : List Event) :
    (log.map Event.entry).filter kind.fits =
      (log.filter fun event => event.kind = kind).map Event.entry := by
  rw [List.filter_map]
  congr 2
  funext event
  simp [EventKind.fits, EventKind.ofEntry?_entry]

theorem countP_map_entry (kind : EventKind) (log : List Event) :
    (log.map Event.entry).countP kind.fits = log.countP fun event => event.kind = kind := by
  rw [List.countP_eq_length_filter, filter_map_entry, List.length_map, List.countP_eq_length_filter]

end PocketCalc
