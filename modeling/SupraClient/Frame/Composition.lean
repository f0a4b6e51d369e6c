import SupraClient.Frame.Dispatch

/-! # Pallets within a runtime

A runtime keeps the state of each of its pallets as a part of its own state, and
runs the programs of a pallet on that part. A step of the runtime may reach a
part with any number of commands, which depends on the state it starts from. A
run of the runtime, seen from one part, is the run of the commands that reach
the part.
-/

namespace Frame

variable {State Inner Error InnerError Command InnerCommand α β : Type}

/-- The error of a module as an error of the runtime it belongs to. -/
def DispatchError.wrap (embed : InnerError → Error) : DispatchError InnerError → DispatchError Error
  | .badOrigin => .badOrigin
  | .module error => .module (embed error)

namespace Dispatch

/-- Run a program on a part of the state. -/
def mount (part : StorageItem State Inner) (embed : InnerError → Error)
    (program : Dispatch Inner InnerError Unit) : Dispatch State Error Unit :=
  ExceptT.mk fun state =>
    let outcome := program.exec (part.view state)
    (outcome.1.mapError (DispatchError.wrap embed), part.set outcome.2 state)

/-- Run a program and go on with what it has returned, an error included. -/
def attempt (program : Dispatch State Error α) :
    Dispatch State Error (Except (DispatchError Error) α) :=
  ExceptT.mk (.ok <$> ExceptT.run program)

@[simp] theorem exec_attempt_bind (program : Dispatch State Error α)
    (next : Except (DispatchError Error) α → Dispatch State Error β) (state : State) :
    exec (attempt program >>= next) state =
      exec (next (program.exec state).1) (program.exec state).2 :=
  rfl

end Dispatch

/-! ## Runs seen from one part -/

/-- The commands that reach a part in the course of a run, up to the first step
that is not possible. -/
def projected (step : State → Command → Option State)
    (project : State → Command → List InnerCommand) :
    State → List Command → List InnerCommand
  | _, [] => []
  | state, command :: rest =>
      match step state command with
      | some next => project state command ++ projected step project next rest
      | none => []

/-- A property holds at every step of a run, up to the first one that is not
possible. -/
def Along (step : State → Command → Option State) (property : State → Command → Prop) :
    State → List Command → Prop
  | _, [] => True
  | state, command :: rest =>
      property state command ∧
        ∀ next, step state command = some next → Along step property next rest

section Runs

variable {step : State → Command → Option State}
  {project : State → Command → List InnerCommand}
  {property weaker : State → Command → Prop}

theorem Along.imp (himp : ∀ state command, property state command → weaker state command)
    {state : State} {commands : List Command} (halong : Along step property state commands) :
    Along step weaker state commands := by
  induction commands generalizing state with
  | nil => trivial
  | cons command rest ih =>
      exact ⟨himp state command halong.1, fun next hnext => ih (halong.2 next hnext)⟩

theorem along_of_forall (hproperty : ∀ state command, property state command) (state : State)
    (commands : List Command) : Along step property state commands := by
  induction commands generalizing state with
  | nil => trivial
  | cons command rest ih => exact ⟨hproperty state command, fun next _ => ih next⟩

/-- What is allowed and what is kept hold along every run. -/
theorem along_of_invariant (kept : State → Prop) (allowed : Command → Prop)
    (hkept : ∀ state command next, step state command = some next → allowed command →
      kept state → kept next)
    {state : State} {commands : List Command} (hallowed : ∀ command ∈ commands, allowed command)
    (hstate : kept state) :
    Along step (fun current command => kept current ∧ allowed command) state commands := by
  induction commands generalizing state with
  | nil => trivial
  | cons command rest ih =>
      obtain ⟨hcommand, hothers⟩ := List.forall_mem_cons.mp hallowed
      exact ⟨⟨hstate, hcommand⟩, fun next hnext =>
        ih hothers (hkept state command next hnext hcommand hstate)⟩

/-- What holds along a run holds along its beginning. -/
theorem Along.of_append {state : State} {first second : List Command}
    (halong : Along step property state (first ++ second)) :
    Along step property state first := by
  induction first generalizing state with
  | nil => trivial
  | cons command rest ih => exact ⟨halong.1, fun next hnext => ih (halong.2 next hnext)⟩

theorem projected_cons {state next : State} {command : Command}
    (hnext : step state command = some next) (rest : List Command) :
    projected step project state (command :: rest) =
      project state command ++ projected step project next rest := by
  rw [projected, hnext]

/-- A run splits at its first step. -/
theorem foldlM_cons_eq_some_iff {state final : State} {command : Command} {rest : List Command} :
    (command :: rest).foldlM step state = some final ↔
      ∃ next, step state command = some next ∧ rest.foldlM step next = some final := by
  rw [List.foldlM_cons]
  exact Option.bind_eq_some_iff

theorem projected_append {state middle : State} {first : List Command}
    (hfirst : first.foldlM step state = some middle) (second : List Command) :
    projected step project state (first ++ second) =
      projected step project state first ++ projected step project middle second := by
  induction first generalizing state with
  | nil =>
      cases hfirst
      rfl
  | cons command rest ih =>
      obtain ⟨next, hnext, hrest⟩ := foldlM_cons_eq_some_iff.mp hfirst
      rw [List.cons_append, projected_cons hnext, projected_cons hnext, ih hrest,
        List.append_assoc]

/-- If every step is, for a part, a run of the commands that reach the part, so
is every run of such steps. -/
theorem view_foldlM (view : State → Inner) {innerStep : Inner → InnerCommand → Inner}
    {allowed : State → Command → Prop}
    (hstep : ∀ state command next, step state command = some next → allowed state command →
      view next = (project state command).foldl innerStep (view state))
    {state final : State} {commands : List Command} (halong : Along step allowed state commands)
    (hrun : commands.foldlM step state = some final) :
    view final = (projected step project state commands).foldl innerStep (view state) := by
  induction commands generalizing state with
  | nil =>
      cases hrun
      rfl
  | cons command rest ih =>
      obtain ⟨next, hnext, hrest⟩ := foldlM_cons_eq_some_iff.mp hrun
      obtain ⟨hallowed, hlater⟩ := halong
      rw [projected_cons hnext, List.foldl_append, ← hstep state command next hnext hallowed]
      exact ih (hlater next hnext) hrest

/-- A log to which every step appends its entries. -/
theorem log_foldlM {Entry : Type} (log : State → List Entry) {entries : Command → List Entry}
    {allowed : State → Command → Prop}
    (hstep : ∀ state command next, step state command = some next → allowed state command →
      log next = log state ++ entries command)
    {state final : State} {commands : List Command} (halong : Along step allowed state commands)
    (hrun : commands.foldlM step state = some final) :
    log final = log state ++ commands.flatMap entries := by
  induction commands generalizing state with
  | nil =>
      cases hrun
      exact (List.append_nil _).symm
  | cons command rest ih =>
      obtain ⟨next, hnext, hrest⟩ := foldlM_cons_eq_some_iff.mp hrun
      obtain ⟨hallowed, hlater⟩ := halong
      rw [ih (hlater next hnext) hrest, hstep state command next hnext hallowed,
        List.append_assoc, List.flatMap_cons]

/-- What survives every step that is allowed survives every run of such steps. -/
theorem foldlM_invariant (kept : State → Prop) (allowed : Command → Prop)
    (hkept : ∀ state command next, step state command = some next → allowed command →
      kept state → kept next)
    {state final : State} {commands : List Command}
    (hallowed : ∀ command ∈ commands, allowed command) (hstate : kept state)
    (hrun : commands.foldlM step state = some final) : kept final := by
  induction commands generalizing state with
  | nil =>
      cases hrun
      exact hstate
  | cons command rest ih =>
      obtain ⟨next, hnext, hrest⟩ := foldlM_cons_eq_some_iff.mp hrun
      obtain ⟨hcommand, hothers⟩ := List.forall_mem_cons.mp hallowed
      exact ih hothers (hkept state command next hnext hcommand hstate) hrest

/-- What holds of the commands that reach a part at every step of a run holds of
all that reach it in the run. -/
theorem forall_mem_projected {property : InnerCommand → Prop} {state : State}
    {commands : List Command}
    (halong : Along step (fun current command => ∀ inner ∈ project current command, property inner)
      state commands) :
    ∀ inner ∈ projected step project state commands, property inner := by
  induction commands generalizing state with
  | nil =>
      intro inner hinner
      cases hinner
  | cons command rest ih =>
      obtain ⟨hfirst, hlater⟩ := halong
      intro inner hinner
      rw [projected] at hinner
      split at hinner
      next next hnext =>
        rcases List.mem_append.mp hinner with hhead | htail
        · exact hfirst inner hhead
        · exact ih (hlater next hnext) inner htail
      next => cases hinner

end Runs

end Frame
