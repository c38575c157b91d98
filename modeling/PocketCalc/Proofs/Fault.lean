import PocketCalc.Fault
import PocketCalc.Proofs.Event.Entry

/-! The texts of faults. The message on the display and the diagnostic each tell under which class a
fault is reported, and its offset. -/

namespace PocketCalc.Fault

variable {fault other : Fault}

def classNames : List String := ["Syntax", "Math", "Stack", "Memory", "EmptyResult", "ParseFailed"]

theorem className_mem_classNames (fault : Fault) : fault.className ∈ classNames := by
  cases fault <;> simp [className, classNames]

/-- What a fault carries, with its reason shown in some way. -/
def detail (quote : String → String) : Fault → String
  | malformed _ offset | outsideDomain offset | stackFull offset | noSuchCell offset
  | nothingToSolve offset => toString offset
  | unreadable reason => quote reason

theorem offset?_eq_detail (quote : String → String) (fault : Fault) :
    fault.offset?.map toString =
      if fault.className = "ParseFailed" then none else some (fault.detail quote) := by
  cases fault <;> rfl

theorem offset?_eq_of_detail (quote : String → String) (hclass : fault.className = other.className)
    (hdetail : fault.detail quote = other.detail quote) : fault.offset? = other.offset? := by
  apply Option.map_injective Decimal.toString_injective
  rw [offset?_eq_detail quote, offset?_eq_detail quote, hclass, hdetail]

/-! ## On the display -/

/-- The first word of the messages of a class. -/
def headword (className : String) : String :=
  if className = "EmptyResult" then "Nothing"
  else if className = "ParseFailed" then "Failed"
  else className

/-- The words between the first one and the detail. -/
def wording (className : String) : String :=
  if className = "EmptyResult" then "to calculate at "
  else if className = "ParseFailed" then "to parse expression: "
  else "ERROR at "

theorem headword_injOn : ∀ name ∈ classNames, ∀ name' ∈ classNames,
    headword name = headword name' → name = name' := by
  decide

theorem not_mem_headword : ∀ name ∈ classNames, ' ' ∉ (headword name).toList := by
  decide

theorem message_eq (fault : Fault) :
    fault.message = headword fault.className ++ " " ++ wording fault.className ++
      fault.detail id := by
  cases fault <;> rfl

theorem toList_message (fault : Fault) :
    fault.message.toList = (headword fault.className).toList ++
      ' ' :: ((wording fault.className).toList ++ (fault.detail id).toList) := by
  simp [message_eq]

/-- Faults with one message are of one class, at one offset. -/
theorem eq_of_message_eq (h : fault.message = other.message) :
    fault.className = other.className ∧ fault.offset? = other.offset? := by
  have htext := congrArg String.toList h
  rw [toList_message, toList_message] at htext
  obtain ⟨hword, hrest⟩ := Text.append_cons_inj
    (not_mem_headword _ fault.className_mem_classNames)
    (not_mem_headword _ other.className_mem_classNames) htext
  have hclass := headword_injOn _ fault.className_mem_classNames _ other.className_mem_classNames
    (String.toList_inj.mp hword)
  rw [hclass, List.append_cancel_left_eq] at hrest
  exact ⟨hclass, offset?_eq_of_detail id hclass (String.toList_inj.mp hrest)⟩

/-! ## As a diagnostic -/

theorem not_mem_className : ∀ name ∈ classNames, '(' ∉ name.toList := by
  decide

theorem diagnostic_eq (fault : Fault) :
    fault.diagnostic = fault.className ++ "(" ++ fault.detail Text.quoted ++ ")" := by
  cases fault <;> rfl

theorem toList_diagnostic (fault : Fault) :
    fault.diagnostic.toList =
      fault.className.toList ++ '(' :: ((fault.detail Text.quoted).toList ++ [')']) := by
  simp [diagnostic_eq]

/-- Faults with one diagnostic are of one class, at one offset. -/
theorem eq_of_diagnostic_eq (h : fault.diagnostic = other.diagnostic) :
    fault.className = other.className ∧ fault.offset? = other.offset? := by
  have htext := congrArg String.toList h
  rw [toList_diagnostic, toList_diagnostic] at htext
  obtain ⟨hclass, hdetail⟩ := Text.append_cons_inj
    (not_mem_className _ fault.className_mem_classNames)
    (not_mem_className _ other.className_mem_classNames) htext
  rw [List.append_cancel_right_eq] at hdetail
  have hclass := String.toList_inj.mp hclass
  exact ⟨hclass, offset?_eq_of_detail Text.quoted hclass (String.toList_inj.mp hdetail)⟩

end PocketCalc.Fault
