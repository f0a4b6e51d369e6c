import SupraClient.Frame.Dispatch

/-! # Deciders: guards first, then one event

A decider separates what a command is allowed to do from what it does. Its
decision reads the store and returns an error, nothing, or one event; the event
alone then determines the new store. A dispatch program that implements a
decider is atomic, its event log replays to its store, and its invariants
follow from those of the events it may deposit.
-/

namespace Frame

/-- Decisions on commands and the effect of the events they produce. -/
structure Decider (Store Command Event Error : Type) where
  decide : Store → Command → Except (DispatchError Error) (Option Event)
  evolve : Store → Event → Store

namespace Decider

variable {Store Command Event Error : Type} (machine : Decider Store Command Event Error)

/-- Append the event of a decision, if any, and let it act on the store. -/
def perform (ledger : Ledger Store Event) : Option Event → Ledger Store Event
  | none => ledger
  | some event =>
      { store := machine.evolve ledger.store event, events := ledger.events ++ [event] }

/-- Dispatch a command: a rejected one leaves the ledger alone, an accepted one
performs its decision. -/
def step (ledger : Ledger Store Event) (command : Command) :
    Except (DispatchError Error) Unit × Ledger Store Event :=
  match machine.decide ledger.store command with
  | .error error => (.error error, ledger)
  | .ok outcome => (.ok (), machine.perform ledger outcome)

/-- The program returns the decision and performs its event, on every ledger. -/
def Implements (program : Command → Dispatch (Ledger Store Event) Error Unit) : Prop :=
  ∀ command ledger, (program command).exec ledger = machine.step ledger command

variable {machine} {ledger : Ledger Store Event} {command : Command}

theorem step_of_error {error : DispatchError Error}
    (h : machine.decide ledger.store command = .error error) :
    machine.step ledger command = (.error error, ledger) := by
  rw [step, h]

theorem step_of_ok {outcome : Option Event}
    (h : machine.decide ledger.store command = .ok outcome) :
    machine.step ledger command = (.ok (), machine.perform ledger outcome) := by
  rw [step, h]

/-- The result of a step is its decision with the event forgotten. -/
theorem step_fst (machine : Decider Store Command Event Error) (ledger : Ledger Store Event)
    (command : Command) :
    (machine.step ledger command).1 = (machine.decide ledger.store command).map fun _ => () := by
  unfold step
  split <;> rename_i h <;> rw [h] <;> rfl

/-- A step either keeps the ledger or performs one decided event. -/
theorem step_cases (machine : Decider Store Command Event Error) (ledger : Ledger Store Event)
    (command : Command) :
    (machine.step ledger command).2 = ledger ∧
        (∀ event, machine.decide ledger.store command ≠ .ok (some event)) ∨
      ∃ event, machine.decide ledger.store command = .ok (some event) ∧
        machine.step ledger command = (.ok (), machine.perform ledger (some event)) := by
  rcases hdecide : machine.decide ledger.store command with error | _ | event
  · exact Or.inl ⟨by rw [step_of_error hdecide], fun _ h => nomatch h⟩
  · exact Or.inl ⟨by rw [step_of_ok hdecide]; rfl, fun _ h => nomatch h⟩
  · exact Or.inr ⟨event, rfl, step_of_ok hdecide⟩

/-! ## Guard lists -/

/-- Check guards in order; the first one that fails determines the error. -/
def checkGuards : List (Bool × DispatchError Error) → Except (DispatchError Error) Unit
  | [] => .ok ()
  | (holds, error) :: rest => if holds then checkGuards rest else .error error

theorem checkGuards_eq_ok_iff (guards : List (Bool × DispatchError Error)) :
    checkGuards guards = .ok () ↔ ∀ guard ∈ guards, guard.1 = true := by
  induction guards with
  | nil => simp [checkGuards]
  | cons guard rest ih =>
      obtain ⟨holds, error⟩ := guard
      cases holds with
      | true => simpa [checkGuards] using ih
      | false => simp [checkGuards]

theorem map_checkGuards_eq_ok_iff (guards : List (Bool × DispatchError Error))
    (outcome result : Option Event) :
    (checkGuards guards).map (fun _ => outcome) = .ok result ↔
      (∀ guard ∈ guards, guard.1 = true) ∧ outcome = result := by
  rw [← checkGuards_eq_ok_iff]
  cases checkGuards guards with
  | error error => simp [Except.map]
  | ok value => simp [Except.map]

/-- The step of a decision made by guards, as a chain of checks. -/
def guardedStep (ledger target : Ledger Store Event) :
    List (Bool × DispatchError Error) → Except (DispatchError Error) Unit × Ledger Store Event
  | [] => (.ok (), target)
  | (holds, error) :: rest =>
      if holds then guardedStep ledger target rest else (.error error, ledger)

theorem step_eq_guardedStep {guards : List (Bool × DispatchError Error)} {outcome : Option Event}
    (h : machine.decide ledger.store command = (checkGuards guards).map fun _ => outcome) :
    machine.step ledger command = guardedStep ledger (machine.perform ledger outcome) guards := by
  rw [step, h]
  clear h
  induction guards with
  | nil => rfl
  | cons guard rest ih =>
      obtain ⟨holds, error⟩ := guard
      cases holds with
      | true => exact ih
      | false => rfl

/-! ## Programs that implement a decider -/

namespace Implements

variable {program : Command → Dispatch (Ledger Store Event) Error Unit}

/-- A failing command leaves store and event log as they were. -/
theorem exec_of_error (himpl : machine.Implements program) {error : DispatchError Error}
    (h : ((program command).exec ledger).1 = .error error) :
    ((program command).exec ledger).2 = ledger := by
  rw [himpl] at h ⊢
  cases hdecide : machine.decide ledger.store command with
  | error _ => rw [step_of_error hdecide]
  | ok outcome =>
      rw [step_of_ok hdecide] at h
      cases h

/-- An invariant of the store that every decided event preserves holds after
every run. -/
theorem run_store_invariant (himpl : machine.Implements program) (invariant : Store → Prop)
    (hevent : ∀ store command event, machine.decide store command = .ok (some event) →
      invariant store → invariant (machine.evolve store event))
    (hstore : invariant ledger.store) (commands : List Command) :
    invariant (Dispatch.run program ledger commands).store := by
  refine Dispatch.run_invariant program (fun ledger => invariant ledger.store) ?_ hstore commands
  intro current command hcurrent
  rw [himpl]
  obtain ⟨hkeep, -⟩ | ⟨event, hdecide, hstep⟩ := machine.step_cases current command
  · rwa [hkeep]
  · rw [hstep]
    exact hevent current.store command event hdecide hcurrent

/-- The conditional form: a guard that decides, for each decided event, whether
the event preserves the invariant, decides it for whole runs. -/
theorem run_store_always_iff (himpl : machine.Implements program) (invariant : Store → Prop)
    (guard : Store → Command → Prop)
    (hidle : ∀ store command, (∀ event, machine.decide store command ≠ .ok (some event)) →
      guard store command)
    (hevent : ∀ store command event, machine.decide store command = .ok (some event) →
      invariant store → (invariant (machine.evolve store event) ↔ guard store command))
    (hstore : invariant ledger.store) (commands : List Command) :
    (∀ done, done <+: commands → invariant (Dispatch.run program ledger done).store) ↔
      ∀ done command, done ++ [command] <+: commands →
        guard (Dispatch.run program ledger done).store command := by
  refine Dispatch.run_always_iff program (fun ledger => invariant ledger.store)
    (fun ledger => guard ledger.store) ?_ hstore commands
  intro current command hcurrent
  rw [himpl]
  obtain ⟨hkeep, hnone⟩ | ⟨event, hdecide, hstep⟩ := machine.step_cases current command
  · rw [hkeep]
    exact iff_of_true hcurrent (hidle current.store command hnone)
  · rw [hstep]
    exact hevent current.store command event hdecide hcurrent

/-- The log of a run extends the earlier log by events that replay the store. -/
theorem run_replay (himpl : machine.Implements program) (ledger : Ledger Store Event)
    (commands : List Command) :
    ∃ deposited, (Dispatch.run program ledger commands).events = ledger.events ++ deposited ∧
      (Dispatch.run program ledger commands).store =
        deposited.foldl machine.evolve ledger.store := by
  induction commands generalizing ledger with
  | nil => exact ⟨[], by simp, rfl⟩
  | cons command rest ih =>
      obtain ⟨deposited, hevents, hstore⟩ := ih ((program command).exec ledger).2
      rw [Dispatch.run_cons, hevents, hstore, himpl]
      obtain ⟨hkeep, -⟩ | ⟨event, -, hstep⟩ := machine.step_cases ledger command
      · rw [hkeep]
        exact ⟨deposited, rfl, rfl⟩
      · rw [hstep]
        exact ⟨event :: deposited, by simp [perform], rfl⟩

/-- Every event of the log was decided by a command of the run, on the store that
the events before it had led to. -/
theorem exists_of_deposited (himpl : machine.Implements program) {ledger : Ledger Store Event}
    {commands : List Command} {before after : List Event} {event : Event}
    (hevents : (Dispatch.run program ledger commands).events =
      ledger.events ++ (before ++ event :: after)) :
    ∃ done command rest, commands = done ++ command :: rest ∧
      (Dispatch.run program ledger done).events = ledger.events ++ before ∧
      machine.decide (Dispatch.run program ledger done).store command = .ok (some event) := by
  induction commands generalizing ledger before with
  | nil => simp [Dispatch.run_nil] at hevents
  | cons command rest ih =>
      rw [Dispatch.run_cons, himpl] at hevents
      obtain ⟨hkeep, -⟩ | ⟨first, hdecide, hstep⟩ := machine.step_cases ledger command
      · rw [hkeep] at hevents
        obtain ⟨done, next, others, rfl, hdone, hnext⟩ := ih hevents
        refine ⟨command :: done, next, others, rfl, ?_⟩
        rw [Dispatch.run_cons, himpl, hkeep]
        exact ⟨hdone, hnext⟩
      · obtain ⟨deposited, hdeposited, -⟩ :=
          himpl.run_replay (machine.step ledger command).2 rest
        have hlog : first :: deposited = before ++ event :: after := by
          rw [hevents, hstep, perform, List.append_assoc] at hdeposited
          exact (List.append_cancel_left hdeposited).symm
        cases before with
        | nil =>
            obtain ⟨rfl, rfl⟩ := List.cons.inj hlog
            exact ⟨[], command, rest, rfl, by simp [Dispatch.run_nil], hdecide⟩
        | cons _ others =>
            obtain ⟨rfl, rfl⟩ := List.cons.inj hlog
            obtain ⟨done, next, remaining, rfl, hdone, hnext⟩ := ih hdeposited
            refine ⟨command :: done, next, remaining, rfl, ?_⟩
            rw [Dispatch.run_cons, himpl]
            refine ⟨?_, hnext⟩
            rw [hdone, hstep]
            simp [perform]

end Implements

/-! ## Independent commands -/

/-- Two commands that do not disturb each other's decision, and whose events
commute on the store, may be dispatched in either order. -/
theorem step_comm {first second : Command} {ledger : Ledger Store Event}
    (hsecond : ∀ event, machine.decide ledger.store first = .ok (some event) →
      machine.decide (machine.evolve ledger.store event) second =
        machine.decide ledger.store second)
    (hfirst : ∀ event, machine.decide ledger.store second = .ok (some event) →
      machine.decide (machine.evolve ledger.store event) first =
        machine.decide ledger.store first)
    (hevolve : ∀ left right, machine.decide ledger.store first = .ok (some left) →
      machine.decide ledger.store second = .ok (some right) →
      machine.evolve (machine.evolve ledger.store left) right =
        machine.evolve (machine.evolve ledger.store right) left) :
    (machine.step ledger first).1 = (machine.step (machine.step ledger second).2 first).1 ∧
      (machine.step (machine.step ledger first).2 second).1 = (machine.step ledger second).1 ∧
      (machine.step (machine.step ledger first).2 second).2.store =
        (machine.step (machine.step ledger second).2 first).2.store := by
  -- The decision on either command survives the other one.
  have hdecide₁ : machine.decide (machine.step ledger second).2.store first =
      machine.decide ledger.store first := by
    obtain ⟨hkeep, -⟩ | ⟨event, hdecide, hstep⟩ := machine.step_cases ledger second
    · rw [hkeep]
    · rw [hstep]
      exact hfirst event hdecide
  have hdecide₂ : machine.decide (machine.step ledger first).2.store second =
      machine.decide ledger.store second := by
    obtain ⟨hkeep, -⟩ | ⟨event, hdecide, hstep⟩ := machine.step_cases ledger first
    · rw [hkeep]
    · rw [hstep]
      exact hsecond event hdecide
  refine ⟨by rw [step_fst, step_fst, hdecide₁], by rw [step_fst, step_fst, hdecide₂], ?_⟩
  rcases hleft : machine.decide ledger.store first with _ | _ | left
  · rw [step_of_error hleft, step_of_error (hdecide₁.trans hleft)]
  · rw [step_of_ok hleft, step_of_ok (hdecide₁.trans hleft)]
    rfl
  · rw [hleft] at hdecide₁
    rcases hright : machine.decide ledger.store second with _ | _ | right
    · rw [step_of_error (hdecide₂.trans hright), step_of_error hright]
    · rw [step_of_ok (hdecide₂.trans hright), step_of_ok hright]
      rfl
    · rw [step_of_ok (hdecide₂.trans hright), step_of_ok hdecide₁, step_of_ok hleft,
        step_of_ok hright]
      exact hevolve left right hleft hright

end Decider

end Frame
