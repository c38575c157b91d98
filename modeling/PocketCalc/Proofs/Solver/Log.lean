import PocketCalc.Proofs.Solver.States
import PocketCalc.Proofs.Solver.Stepwise

/-! What solving leaves in the log. It begins with a note of the start. Between that and the note of
the value, which comes last if there is one, only traces of single steps are added. -/

namespace PocketCalc

/-- A note of a single step, not of an expression or an assignment. -/
def Event.IsTrace (event : Event) : Prop := event.level = "TRACE"

namespace Machine

variable {α : Type} {machine after : Machine} {setting : Setting} {start stop : Nat}
  {keys : List Key} {value : Float} {fault : Fault}

/-- The run adds traces to the log and nothing else, also if it fails. -/
def AddsTraces (x : Run α) : Prop :=
  ∀ machine, ∃ traces, (machineOf (x machine)).events = traces ++ machine.events ∧
    ∀ event ∈ traces, event.IsTrace

/-- A run that leaves the log alone. -/
theorem addsTraces_of_events {x : Run α}
    (h : ∀ machine, (machineOf (x machine)).events = machine.events) : AddsTraces x :=
  fun machine => ⟨[], h machine, fun _ hevent => absurd hevent List.not_mem_nil⟩

theorem addsTraces_record {event : Event} (h : event.IsTrace) : AddsTraces (record event) :=
  fun _ => ⟨[event], rfl, fun _ hevent => List.mem_singleton.mp hevent ▸ h⟩

theorem addsTraces_stepwise : Stepwise fun _ x => AddsTraces x where
  pure _ := addsTraces_of_events fun _ => rfl
  throw _ := addsTraces_of_events fun _ => rfl
  get := addsTraces_of_events fun _ => rfl
  pushNumber value offset := addsTraces_of_events fun machine => by
    unfold pushNumber
    split <;> rfl
  popNumber offset := addsTraces_of_events fun machine => by
    unfold popNumber
    split <;> rfl
  pushCommand kind offset := addsTraces_of_events fun machine => by
    unfold pushCommand
    split <;> rfl
  setCommands _ := addsTraces_of_events fun _ => rfl
  recordApplied key offset machine :=
    have htrace : Event.IsTrace (.applied key offset machine.numbers.length) := rfl
    addsTraces_record htrace machine
  recordFetched name index value :=
    have htrace : Event.IsTrace (.fetched name index value) := rfl
    addsTraces_record htrace
  bind {_ _ x f} hx hf machine := by
    obtain ⟨traces, hevents, htraces⟩ := hx machine
    cases hrun : x machine with
    | error fault next =>
        rw [bind_of_error hrun]
        rw [hrun] at hevents
        exact ⟨traces, hevents, htraces⟩
    | ok a next =>
        rw [bind_of_ok hrun]
        rw [hrun] at hevents
        obtain ⟨more, hmore, hmoreTraces⟩ := hf a next
        refine ⟨more ++ traces, ?_, ?_⟩
        · rw [hmore, List.append_assoc]
          exact congrArg (more ++ ·) hevents
        · intro event hevent
          exact (List.mem_append.mp hevent).elim (hmoreTraces event) (htraces event)

theorem addsTraces_scan_settle (setting : Setting) (tokens : List Token) (ending : Ending) :
    AddsTraces (scan setting none tokens ending >>= fun _ => settleUntil setting fun _ => false) :=
  addsTraces_stepwise.bind (addsTraces_stepwise.scan setting none tokens ending) fun _ =>
    addsTraces_stepwise.settleUntil setting _

/-- A run that adds traces leaves them behind the note of the start. -/
theorem AddsTraces.events_reverse {x : Run α} (h : AddsTraces x) (start : Nat) (keys : List Key) :
    ∃ traces, (machineOf (x { events := [.started start keys] })).events.reverse =
        .started start keys :: traces ∧ ∀ event ∈ traces, event.IsTrace := by
  obtain ⟨traces, hevents, htraces⟩ := h { events := [.started start keys] }
  refine ⟨traces.reverse, ?_, fun event hevent => htraces event (List.mem_reverse.mp hevent)⟩
  rw [hevents, List.reverse_append, List.reverse_singleton, List.singleton_append]

/-- An expression that has a value leaves the note of it at the end of the log. -/
theorem events_of_solve_ok (h : solve setting start keys {} = .ok (value, stop) after) :
    ∃ traces, after.events.reverse = .started start keys :: (traces ++ [.solved value stop]) ∧
      ∀ event ∈ traces, event.IsTrace := by
  have hrun : (scan setting none (tokenize start keys).1 (tokenize start keys).2 >>=
      finish setting) { events := [.started start keys] } = .ok (value, stop) after := h
  obtain ⟨last, scanned, hscan, hfinish⟩ := bind_eq_ok hrun
  obtain ⟨rfl, settled, below, hsettle, hnumbers, rfl⟩ := finish_eq_ok hfinish
  have hboth := addsTraces_scan_settle setting (tokenize start keys).1 (tokenize start keys).2
  obtain ⟨traces, htraces, hlevel⟩ := hboth.events_reverse start keys
  rw [bind_of_ok hscan, hsettle] at htraces
  refine ⟨traces, ?_, hlevel⟩
  rw [List.reverse_cons, show settled.events.reverse = _ from htraces, List.cons_append]

/-- An expression that has none leaves nothing but traces behind the note of its start. -/
theorem events_of_solve_error (h : solve setting start keys {} = .error fault after) :
    ∃ traces, after.events.reverse = .started start keys :: traces ∧
      ∀ event ∈ traces, event.IsTrace := by
  have hrun : (scan setting none (tokenize start keys).1 (tokenize start keys).2 >>=
      finish setting) { events := [.started start keys] } = .error fault after := h
  obtain hscan | ⟨last, scanned, hscan, hfinish⟩ := bind_eq_error hrun
  · have hscans := addsTraces_stepwise.scan setting none (tokenize start keys).1
      (tokenize start keys).2
    have hevents := AddsTraces.events_reverse hscans start keys
    rwa [hscan] at hevents
  · have hboth := addsTraces_scan_settle setting (tokenize start keys).1 (tokenize start keys).2
    have hevents := hboth.events_reverse start keys
    rw [bind_of_ok hscan] at hevents
    obtain hsettle | ⟨_, settled, hsettle, hconclude⟩ := bind_eq_error hfinish
    · rwa [hsettle] at hevents
    · rw [hsettle] at hevents
      cases hnumbers : settled.numbers with
      | nil =>
          rw [conclude_of_numbers_nil hnumbers] at hconclude
          cases hconclude
          exact hevents
      | cons top below =>
          rw [conclude_of_numbers hnumbers] at hconclude
          cases hconclude

end Machine
end PocketCalc
