import PocketCalc.Proofs.Calculator.Sequence
import PocketCalc.Proofs.Event.Entry
import PocketCalc.Proofs.Solver.Log
import PocketCalc.Proofs.Solver.Stop

/-! The log of an evaluation, statement by statement. Solving begins once for each statement that is
reached, ever further on in the line. If all of them are completed there is one for each colon and
one more, and each arrow in the line stands for an assignment in the log. All of this can be told
from the entries of the log. -/

namespace PocketCalc

/-- Where solving begins. -/
def Event.start? : Event → Option Nat
  | .started offset _ => some offset
  | _ => none

def Event.isAssigned : Event → Bool
  | .assigned .. => true
  | _ => false

/-- Where solving begins, in the order of the log. -/
def starts (log : List Event) : List Nat := log.filterMap Event.start?

/-- The log of a statement that is completed: its expression is solved from its start on, with
nothing but traces until the value is found, and the value may be assigned. -/
def IsStatementLog (log : List Event) : Prop :=
  ∃ start keys traces value stop assigned,
    log = .started start keys :: (traces ++ .solved value stop :: assigned) ∧
      (∀ event ∈ traces, event.IsTrace) ∧ assigned.length ≤ 1 ∧
        ∀ event ∈ assigned, event.isAssigned = true

namespace Event.IsTrace

variable {event : Event}

theorem start?_eq (h : event.IsTrace) : event.start? = none := by
  cases event with
  | started => exact absurd (show "DEBUG" = "TRACE" from h) (by decide)
  | _ => rfl

theorem isAssigned_eq (h : event.IsTrace) : event.isAssigned = false := by
  cases event with
  | assigned => exact absurd (show "DEBUG" = "TRACE" from h) (by decide)
  | _ => rfl

theorem kind_ne_solved (h : event.IsTrace) : event.kind ≠ .solved := by
  cases event with
  | solved => exact absurd (show "DEBUG" = "TRACE" from h) (by decide)
  | _ => simp [Event.kind]

end Event.IsTrace

theorem mem_starts {log : List Event} {place : Nat} {row : Line}
    (h : Event.started place row ∈ log) : place ∈ starts log :=
  List.mem_filterMap.mpr ⟨_, h, rfl⟩

/-- Wherever solving begins, what is ahead is the rest of a row that begins at an offset. -/
def BeginsInRow (log : List Event) (start : Nat) (keys : List Key) : Prop :=
  ∀ place row, Event.started place row ∈ log → row = keys.drop (place - start)

theorem starts_append (log more : List Event) : starts (log ++ more) = starts log ++ starts more :=
  List.filterMap_append

theorem starts_traces {traces : List Event} (h : ∀ event ∈ traces, event.IsTrace) :
    starts traces = [] :=
  List.filterMap_eq_nil_iff.mpr fun event hevent => (h event hevent).start?_eq

theorem countP_traces {traces : List Event} (h : ∀ event ∈ traces, event.IsTrace) :
    traces.countP Event.isAssigned = 0 :=
  List.countP_eq_zero.mpr fun event hevent => by simp [(h event hevent).isAssigned_eq]

namespace Calculator

variable {calculator next : Calculator} {value last : Float} {start stop : Nat}
  {keys row rest : List Key}

/-! ## The end of a statement -/

theorem atEnd_eq_finished (h : calculator.atEnd value stop row = .finished last next) :
    row = [] := by
  cases row with
  | nil => rfl
  | cons key row =>
      by_cases hkey : key = .separator .colon
      · subst hkey
        cases h
      · rw [atEnd_of_ne hkey] at h
        cases h

theorem atEnd_eq_continues (h : calculator.atEnd value stop row = .continues next start rest) :
    row = .separator .colon :: rest := by
  cases row with
  | nil => cases h
  | cons key row =>
      by_cases hkey : key = .separator .colon
      · subst hkey
        cases h
        rfl
      · rw [atEnd_of_ne hkey] at h
        cases h

theorem isAssigned_of_mem_assignment {event : Event}
    (h : event ∈ calculator.assignment value row) : event.isAssigned = true := by
  unfold assignment at h
  split at h
  · split at h
    · cases List.mem_singleton.mp h
      rfl
    · cases h
  · cases h

theorem length_assignment_le (calculator : Calculator) (value : Float) (row : List Key) :
    (calculator.assignment value row).length ≤ 1 := by
  unfold assignment
  split
  · split <;> simp
  · simp

/-- Behind the value of an expression there is an assignment for an arrow, and then the end of the
statement, unless it breaks off. -/
theorem afterValue_cases (calculator : Calculator) (value : Float) (stop : Nat) (row : List Key) :
    (∃ fault, calculator.afterValue value stop row = .failed fault calculator) ∨
      ∃ (front behind : List Key) (after : Calculator) (place : Nat), row = front ++ behind ∧
        calculator.afterValue value stop row = after.atEnd value place behind ∧
        front.count (.separator .colon) = 0 ∧
        front.count (.separator .assign) = (calculator.assignment value row).length := by
  cases row with
  | nil => exact .inr ⟨[], [], calculator, stop, rfl, rfl, rfl, rfl⟩
  | cons key row =>
      by_cases hkey : key = .separator .assign
      · subst hkey
        by_cases htarget : ∃ name more, row = .letter name :: more
        · obtain ⟨name, more, rfl⟩ := htarget
          cases hstore : calculator.memory.store? name 0 value with
          | none => exact .inl ⟨.noSuchCell (stop + 1), by simp only [afterValue, hstore]⟩
          | some memory =>
              refine .inr ⟨[.separator .assign, .letter name], more, { calculator with memory },
                stop + 2, rfl, by simp only [afterValue, hstore], rfl, ?_⟩
              simp only [assignment, hstore, Option.isSome_some, if_true]
              rfl
        · refine .inl ⟨.malformed .missingTarget (stop + 1), ?_⟩
          cases row with
          | nil => rfl
          | cons target more =>
              cases target with
              | letter name => exact absurd ⟨name, more, rfl⟩ htarget
              | _ => rfl
      · refine .inr ⟨[], key :: row, calculator, stop, rfl, ?_, rfl, ?_⟩
        · exact afterValue_of_ne hkey calculator value stop row
        · rw [assignment_of_ne hkey]
          rfl

/-! ## The first statement -/

theorem starts_solved {assigned : List Event}
    (hassigned : ∀ event ∈ assigned, event.isAssigned = true) (value : Float) (stop : Nat) :
    starts (.solved value stop :: assigned) = [] := by
  refine List.filterMap_eq_nil_iff.mpr (List.forall_mem_cons.mpr ⟨rfl, fun event hevent => ?_⟩)
  cases event with
  | started => cases hassigned _ hevent
  | _ => rfl

theorem starts_statement {traces assigned : List Event} (htraces : ∀ event ∈ traces, event.IsTrace)
    (hassigned : ∀ event ∈ assigned, event.isAssigned = true) (value : Float) (stop : Nat) :
    starts (.started start keys :: (traces ++ .solved value stop :: assigned)) = [start] := by
  have hcons : starts (.started start keys :: (traces ++ .solved value stop :: assigned)) =
    start :: starts (traces ++ .solved value stop :: assigned) := rfl
  rw [hcons, starts_append, starts_traces htraces, List.nil_append, starts_solved hassigned]

theorem countP_statement {traces assigned : List Event} (htraces : ∀ event ∈ traces, event.IsTrace)
    (hassigned : ∀ event ∈ assigned, event.isAssigned = true) (value : Float) (stop : Nat) :
    (Event.started start keys :: (traces ++ .solved value stop :: assigned)).countP
      Event.isAssigned = assigned.length := by
  have hall : assigned.countP Event.isAssigned = assigned.length :=
    List.countP_eq_length.mpr hassigned
  rw [List.countP_cons_of_neg (by simp [Event.isAssigned]), List.countP_append,
    countP_traces htraces, List.countP_cons_of_neg (by simp [Event.isAssigned]), hall, Nat.zero_add]

theorem eq_of_started_mem {traces behind : List Event} {place : Nat} {row : Line}
    (htraces : ∀ event ∈ traces, event.IsTrace) (hbehind : starts behind = [])
    (h : Event.started place row ∈ .started start keys :: (traces ++ behind)) :
    place = start ∧ row = keys := by
  rcases List.mem_cons.mp h with hfirst | hlater
  · cases hfirst
    exact ⟨rfl, rfl⟩
  · have hmem := mem_starts hlater
    rw [starts_append, starts_traces htraces, hbehind] at hmem
    cases hmem

/-- Solving begins once for the first statement, with its whole row ahead. If its expression has a
value, the log is that of a statement, and no separator has been passed over. -/
theorem firstLog_cases (calculator : Calculator) (start : Nat) (keys : List Key) :
    starts (calculator.firstLog start keys) = [start] ∧
      (∀ place row, Event.started place row ∈ calculator.firstLog start keys →
        place = start ∧ row = keys) ∧
      ((∃ fault, calculator.firstStatement start keys = .failed fault calculator) ∨
        ∃ value stop row, calculator.firstStatement start keys =
            calculator.afterValue value stop row ∧
          IsStatementLog (calculator.firstLog start keys) ∧
          (calculator.firstLog start keys).countP Event.isAssigned =
            (calculator.assignment value row).length ∧ row <:+ keys ∧
          ∀ s, row.count (.separator s) = keys.count (.separator s)) := by
  unfold firstStatement firstLog
  cases hrun : Machine.solve calculator.setting start keys {} with
  | error fault machine =>
      obtain ⟨traces, hevents, htraces⟩ := Machine.events_of_solve_error hrun
      simp only [hevents]
      refine ⟨?_, fun place row hmem => ?_, .inl ⟨fault, rfl⟩⟩
      · rw [← List.singleton_append, starts_append, starts_traces htraces]
        rfl
      · rw [← List.append_nil traces] at hmem
        exact eq_of_started_mem htraces rfl hmem
  | ok found machine =>
      obtain ⟨value, stop⟩ := found
      obtain ⟨traces, hevents, htraces⟩ := Machine.events_of_solve_ok hrun
      obtain ⟨scanned, hscan⟩ := Machine.scan_of_solve_eq_ok hrun
      have hassigned : ∀ event ∈ calculator.assignment value (keys.drop (stop - start)),
          event.isAssigned = true := fun event => isAssigned_of_mem_assignment
      have hlog : machine.events.reverse ++ calculator.assignment value (keys.drop (stop - start)) =
          .started start keys :: (traces ++ .solved value stop ::
            calculator.assignment value (keys.drop (stop - start))) := by
        simp only [hevents, List.cons_append, List.append_assoc, List.nil_append]
      simp only [hlog]
      refine ⟨starts_statement htraces hassigned value stop, fun place row hmem =>
        eq_of_started_mem htraces (starts_solved hassigned value stop) hmem,
        .inr ⟨value, stop, keys.drop (stop - start), rfl, ?_, ?_, List.drop_suffix _ _,
          fun s => ?_⟩⟩
      · exact ⟨start, keys, traces, value, stop, _, rfl, htraces, length_assignment_le _ _ _,
          hassigned⟩
      · exact countP_statement htraces hassigned value stop
      · rw [Machine.scan_eq_ok_expressionEnd hscan, count_drop_expressionEnd]

/-! ## Rows of statements -/

/-- What the log of a row that begins at an offset says about its statements. -/
structure LogsStatements (start : Nat) (keys : List Key) (evaluation : Evaluation) : Prop where
  increasing : (starts evaluation.log).Pairwise (· < ·)
  inRow : ∀ place ∈ starts evaluation.log, start ≤ place ∧ place ≤ start + keys.length
  ahead : BeginsInRow evaluation.log start keys
  length_le : (starts evaluation.log).length ≤ 1 + keys.count (.separator .colon)
  completed : ∀ value, evaluation.result = .ok value →
    (starts evaluation.log).length = 1 + keys.count (.separator .colon) ∧
      evaluation.log.countP Event.isAssigned = keys.count (.separator .assign) ∧
      ∃ parts : List (List Event), evaluation.log = parts.flatten ∧
        parts.length = 1 + keys.count (.separator .colon) ∧ ∀ part ∈ parts, IsStatementLog part

namespace LogsStatements

variable {log : List Event} {fault : Fault} {evaluation : Evaluation}

theorem beginsInRow_first
    (hfirst : ∀ place row, Event.started place row ∈ log → place = start ∧ row = keys) :
    BeginsInRow log start keys := by
  intro place row hmem
  obtain ⟨rfl, rfl⟩ := hfirst place row hmem
  rw [Nat.sub_self, List.drop_zero]

/-- A row whose first statement is not completed. -/
theorem of_failed (hstarts : starts log = [start])
    (hfirst : ∀ place row, Event.started place row ∈ log → place = start ∧ row = keys)
    (fault : Fault) (calculator : Calculator) :
    LogsStatements start keys ⟨.error fault, calculator, log⟩ where
  increasing := by simp [hstarts]
  inRow place hplace := by
    rw [hstarts, List.mem_singleton] at hplace
    omega
  ahead := beginsInRow_first hfirst
  length_le := by simp [hstarts]
  completed := by
    rintro value ⟨⟩

/-- A row of one statement. -/
theorem of_finished (hstarts : starts log = [start])
    (hfirst : ∀ place row, Event.started place row ∈ log → place = start ∧ row = keys)
    (hlog : IsStatementLog log)
    (hcolons : keys.count (.separator .colon) = 0)
    (harrows : keys.count (.separator .assign) = log.countP Event.isAssigned) (value : Float)
    (calculator : Calculator) : LogsStatements start keys ⟨.ok value, calculator, log⟩ where
  increasing := by simp [hstarts]
  inRow place hplace := by
    rw [hstarts, List.mem_singleton] at hplace
    omega
  ahead := beginsInRow_first hfirst
  length_le := by simp [hstarts]
  completed _ _ := by
    refine ⟨by simp [hstarts, hcolons], harrows.symm, [log], by simp, by simp [hcolons], ?_⟩
    simpa using hlog

/-- A row of one statement and more behind a colon. -/
theorem of_continues (h : LogsStatements stop rest evaluation) (hstarts : starts log = [start])
    (hfirst : ∀ place row, Event.started place row ∈ log → place = start ∧ row = keys)
    (hlog : IsStatementLog log) (hplace : start < stop ∧ stop + rest.length = start + keys.length)
    (hsuffix : rest <:+ keys)
    (hcolons : keys.count (.separator .colon) = rest.count (.separator .colon) + 1)
    (harrows : keys.count (.separator .assign) =
      log.countP Event.isAssigned + rest.count (.separator .assign)) :
    LogsStatements start keys { evaluation with log := log ++ evaluation.log } := by
  have hall : starts (log ++ evaluation.log) = start :: starts evaluation.log := by
    rw [starts_append, hstarts, List.singleton_append]
  constructor
  · simp only [hall, List.pairwise_cons]
    refine ⟨fun place hmem => ?_, h.increasing⟩
    have hrow := h.inRow place hmem
    omega
  · intro place hmem
    simp only [hall, List.mem_cons] at hmem
    obtain rfl | hmem := hmem
    · omega
    · have hrow := h.inRow place hmem
      omega
  · intro place row hmem
    rcases List.mem_append.mp hmem with hmem | hmem
    · exact beginsInRow_first hfirst place row hmem
    · have hrow := h.inRow place (mem_starts hmem)
      have hlength : keys.length - rest.length = stop - start := by omega
      have hplaces : stop - start + (place - stop) = place - start := by omega
      rw [h.ahead place row hmem, List.suffix_iff_eq_drop.mp hsuffix, List.drop_drop, hlength,
        hplaces]
  · have hlength := h.length_le
    simp only [hall, List.length_cons]
    omega
  · intro value hvalue
    obtain ⟨hlength, hassigned, parts, hparts, hcount, hall'⟩ := h.completed value hvalue
    refine ⟨?_, ?_, log :: parts, ?_, ?_, List.forall_mem_cons.mpr ⟨hlog, hall'⟩⟩
    · simp only [hall, List.length_cons]
      omega
    · simp only [List.countP_append]
      omega
    · simp only [List.flatten_cons, hparts]
    · simp only [List.length_cons]
      omega

end LogsStatements

/-- Every row logs its statements, from the first one to the last that is reached. -/
theorem logsStatements (calculator : Calculator) (start : Nat) (keys : List Key) :
    LogsStatements start keys (calculator.evaluateFrom start keys) := by
  induction calculator, start, keys using statements_induction with
  | step calculator start keys ih =>
      rw [evaluateFrom_eq]
      obtain ⟨hstarts, hahead, ⟨fault, hfirst⟩ |
        ⟨value, stop, row, hfirst, hlog, hassigned, hsuffix, hrow⟩⟩ :=
        firstLog_cases calculator start keys
      · rw [hfirst]
        exact .of_failed hstarts hahead fault calculator
      · obtain ⟨fault, hfailed⟩ | ⟨front, behind, after, place, rfl, hend, hcolons, harrows⟩ :=
          afterValue_cases calculator value stop row
        · rw [hfirst, hfailed]
          exact .of_failed hstarts hahead fault calculator
        · simp only [List.count_append] at hrow
          cases hprogress : calculator.firstStatement start keys with
          | failed fault next => exact .of_failed hstarts hahead fault next
          | finished last next =>
              rw [hfirst, hend] at hprogress
              cases atEnd_eq_finished hprogress
              refine .of_finished hstarts hahead hlog ?_ ?_ last next
              · rw [← hrow, hcolons]
                rfl
              · rw [← hrow, harrows, hassigned]
                rfl
          | continues next stop rest =>
              have hplace := firstStatement_continues hprogress
              have hmore := ih next stop rest hprogress
              rw [hfirst, hend] at hprogress
              cases atEnd_eq_continues hprogress
              have hrest : rest <:+ keys :=
                ((List.suffix_cons _ rest).trans (List.suffix_append front _)).trans hsuffix
              refine hmore.of_continues hstarts hahead hlog hplace hrest ?_ ?_
              · rw [← hrow, hcolons, List.count_cons_self]
                omega
              · rw [← hrow, harrows, hassigned, List.count_cons_of_ne (by simp)]

end Calculator

/-! ## Entries -/

/-- The entries of a statement that is completed: solving begins, nothing but traces follows until
the value is found, and the value may be assigned. -/
def LogsStatement (entries : List String) : Prop :=
  ∃ first traces last assigned, entries = first :: (traces ++ last :: assigned) ∧
    EventKind.started.fits first = true ∧
    (∀ entry ∈ traces, "TRACE ".toList <+: entry.toList) ∧
    EventKind.solved.fits last = true ∧ assigned.length ≤ 1 ∧
    ∀ entry ∈ assigned, EventKind.assigned.fits entry = true

theorem Event.kind_of_isAssigned {event : Event} (h : event.isAssigned = true) :
    event.kind = .assigned := by
  cases event with
  | assigned => rfl
  | _ => cases h

theorem Event.IsTrace.prefix_entry {event : Event} (h : event.IsTrace) :
    "TRACE ".toList <+: event.entry.toList := by
  have hentry : event.entry.toList = "TRACE ".toList ++ event.message.toList := by
    have hlevel : event.level = "TRACE" := h
    simp [Event.entry, hlevel, toString]
  rw [hentry]
  exact List.prefix_append _ _

theorem IsStatementLog.logsStatement {log : List Event} (h : IsStatementLog log) :
    LogsStatement (log.map Event.entry) := by
  obtain ⟨start, keys, traces, value, stop, assigned, rfl, htraces, hlength, hassigned⟩ := h
  refine ⟨(Event.started start keys).entry, traces.map Event.entry, (Event.solved value stop).entry,
    assigned.map Event.entry, by simp, fits_entry rfl, ?_, fits_entry rfl,
    by simpa using hlength, ?_⟩
  · simpa using fun event hevent => (htraces event hevent).prefix_entry
  · simpa using fun event hevent => fits_entry (Event.kind_of_isAssigned (hassigned event hevent))

theorem IsStatementLog.countP_solved {log : List Event} (h : IsStatementLog log) :
    log.countP (fun event => event.kind = .solved) = 1 := by
  obtain ⟨start, keys, traces, value, stop, assigned, rfl, htraces, _, hassigned⟩ := h
  have hnone : traces.countP (fun event => event.kind = .solved) = 0 :=
    List.countP_eq_zero.mpr fun event hevent => by simpa using (htraces event hevent).kind_ne_solved
  have hbehind : assigned.countP (fun event => event.kind = .solved) = 0 :=
    List.countP_eq_zero.mpr fun event hevent => by
      simp [Event.kind_of_isAssigned (hassigned event hevent)]
  rw [List.countP_cons_of_neg (by simp [Event.kind]), List.countP_append, hnone,
    List.countP_cons_of_pos (by simp [Event.kind]), hbehind]

/-- A row of statements comes to a value as often as there are statements in it. -/
theorem countP_solved_flatten {parts : List (List Event)}
    (h : ∀ part ∈ parts, IsStatementLog part) :
    parts.flatten.countP (fun event => event.kind = .solved) = parts.length := by
  induction parts with
  | nil => rfl
  | cons part parts ih =>
      obtain ⟨hpart, hparts⟩ := List.forall_mem_cons.mp h
      rw [List.flatten_cons, List.countP_append, hpart.countP_solved, ih hparts, List.length_cons,
        Nat.add_comm]

/-- An entry that notes the beginning of solving tells the offset and the keys that are ahead. -/
theorem filter_started_entries {log : List Event} {line : Line} (h : BeginsInRow log 0 line) :
    (log.map Event.entry).filter EventKind.started.fits =
      (starts log).map fun offset =>
        "DEBUG solve from " ++ toString offset ++ ": " ++ Line.text (line.drop offset) := by
  rw [filter_map_entry]
  induction log with
  | nil => rfl
  | cons event log ih =>
      have hrest := ih fun place row hmem => h place row (List.mem_cons_of_mem event hmem)
      cases event with
      | started offset row =>
          have hrow : row = line.drop offset := h offset row List.mem_cons_self
          have hentry : (Event.started offset row).entry =
              "DEBUG solve from " ++ toString offset ++ ": " ++ Line.text (line.drop offset) := by
            rw [← String.toList_inj, Event.toList_entry_started, hrow]
            simp
          exact congrArg₂ List.cons hentry hrest
      | _ => exact hrest

namespace Calculator

/-! ## Texts -/

/-- The entries of the log tell where solving begins, and what is ahead: once for each statement of
a text that is reached, ever further on and never behind the end of the line, so that it begins once
more than there are colons at most. If the evaluation has a value, it begins exactly so many times,
and comes to a value as often; the log is made up of as many logs of statements; and there is an
entry with an arrow for each arrow in the line. -/
theorem evaluate_log {text : String} {line : Line} (h : Line.ofText text = .ok line)
    (calculator : Calculator) :
    ((calculator.evaluate text).log.map Event.entry).filter EventKind.started.fits =
        (starts (calculator.evaluate text).log).map (fun offset =>
          "DEBUG solve from " ++ toString offset ++ ": " ++ Line.text (line.drop offset)) ∧
      (starts (calculator.evaluate text).log).Pairwise (· < ·) ∧
      (∀ start ∈ starts (calculator.evaluate text).log, start ≤ line.length) ∧
      (starts (calculator.evaluate text).log).length ≤ 1 + line.count (.separator .colon) ∧
      ∀ value, (calculator.evaluate text).result = .ok value →
        (starts (calculator.evaluate text).log).length = 1 + line.count (.separator .colon) ∧
        ((calculator.evaluate text).log.map Event.entry).countP EventKind.solved.fits =
          1 + line.count (.separator .colon) ∧
        (∃ parts : List (List String),
          (calculator.evaluate text).log.map Event.entry = parts.flatten ∧
          parts.length = 1 + line.count (.separator .colon) ∧
            ∀ part ∈ parts, LogsStatement part) ∧
        ((calculator.evaluate text).log.map Event.entry).countP EventKind.assigned.fits =
          line.count (.separator .assign) := by
  rw [evaluate_of_ofText h]
  have hlog := logsStatements calculator 0 line
  refine ⟨filter_started_entries hlog.ahead, hlog.increasing, fun start hstart => ?_,
    hlog.length_le, fun value hvalue => ?_⟩
  · have hrow := (hlog.inRow start hstart).2
    omega
  · obtain ⟨hlength, hassigned, parts, hparts, hcount, hall⟩ := hlog.completed value hvalue
    refine ⟨hlength, ?_, ⟨parts.map (List.map Event.entry), ?_, ?_, ?_⟩, ?_⟩
    · rw [countP_map_entry, hparts, countP_solved_flatten hall, hcount]
    · rw [hparts, List.map_flatten]
    · rw [List.length_map, hcount]
    · simpa using fun part hpart => (hall part hpart).logsStatement
    · rw [countP_map_entry, ← hassigned]
      exact List.countP_congr fun event _ => by cases event <;> simp [Event.kind, Event.isAssigned]

/-- Two statements and two arrows: `1->A:A+1->B` is solved from its first key and from the second
`A`. -/
theorem evaluate_log_of_two_statements :
    Line.ofText "1->A:A+1->B" = .ok [.digit 1, .separator .assign, .letter 'A', .separator .colon,
        .letter 'A', .operator .add, .digit 1, .separator .assign, .letter 'B'] ∧
      (evaluate {} "1->A:A+1->B").result = .ok 2.0 ∧
      ((evaluate {} "1->A:A+1->B").log.map Event.entry).filter EventKind.started.fits =
        ["DEBUG solve from 0: 1->A:A+1->B", "DEBUG solve from 4: A+1->B"] ∧
      ((evaluate {} "1->A:A+1->B").log.map Event.entry).countP EventKind.solved.fits = 2 ∧
      ((evaluate {} "1->A:A+1->B").log.map Event.entry).countP EventKind.assigned.fits = 2 := by
  have hread : Line.ofText "1->A:A+1->B" = .ok [.digit 1, .separator .assign, .letter 'A',
      .separator .colon, .letter 'A', .operator .add, .digit 1, .separator .assign,
      .letter 'B'] := by decide +kernel
  have hvalue : (evaluate {} "1->A:A+1->B").result = .ok 2.0 := by decide +kernel
  obtain ⟨hstarted, _, _, _, hcompleted⟩ := evaluate_log hread {}
  obtain ⟨_, hsolved, _, hassigned⟩ := hcompleted 2.0 hvalue
  exact ⟨hread, hvalue, hstarted.trans (by decide +kernel), hsolved, hassigned⟩

end Calculator
end PocketCalc
