import Mathlib.Data.List.Forall2
import Mathlib.Data.List.Induction

/-! # Labelled transition systems

A system takes labelled steps from one initial state. The label says who did
what and with which outcome, so that a list of labels is a complete account of
a run: a schedule, the answers of the environment, and everything observed.
Safety is a relation between such a history and the state it leads to.
-/

namespace Concurrency

/-- A system whose labels determine its steps; a label that is not enabled has
none. -/
structure LabelledSystem (State Label : Type) where
  initial : State
  step : State → Label → Option State

namespace LabelledSystem

variable {State Label : Type} (system : LabelledSystem State Label)

/-- The state a history leads to, if every label is enabled in its turn. -/
def run (history : List Label) : Option State :=
  history.foldlM system.step system.initial

@[simp] theorem run_nil : system.run [] = some system.initial := rfl

theorem run_append (before after : List Label) :
    system.run (before ++ after) =
      (system.run before).bind fun state => after.foldlM system.step state := by
  rw [run, List.foldlM_append]
  rfl

theorem run_concat (history : List Label) (label : Label) :
    system.run (history ++ [label]) =
      (system.run history).bind fun state => system.step state label := by
  rw [run_append]
  refine congrArg (Option.bind (system.run history)) (funext fun state => ?_)
  cases hstep : system.step state label <;> simp [hstep]

/-- Every label of a run was enabled in the state its predecessors led to. -/
theorem enabled_of_run {before after : List Label} {label : Label}
    (h : (system.run (before ++ label :: after)).isSome) :
    ∃ current next, system.run before = some current ∧ system.step current label = some next := by
  rw [List.append_cons, run_append] at h
  obtain ⟨state, hstate⟩ := Option.isSome_iff_exists.mp h
  obtain ⟨next, hnext, -⟩ := Option.bind_eq_some_iff.mp hstate
  rw [run_concat] at hnext
  obtain ⟨current, hcurrent, hstep⟩ := Option.bind_eq_some_iff.mp hnext
  exact ⟨current, next, hcurrent, hstep⟩

/-- A property holds in all states that a history passes through. -/
def Always (property : State → Prop) (history : List Label) : Prop :=
  ∀ done current, done <+: history → system.run done = some current → property current

theorem Always.concat {property : State → Prop} {history : List Label} {label : Label}
    {next : State} (halways : system.Always property history)
    (hrun : system.run (history ++ [label]) = some next) (hnext : property next) :
    system.Always property (history ++ [label]) := by
  intro done current hdone hcurrent
  rcases List.prefix_concat_iff.mp hdone with rfl | hearlier
  · obtain rfl := Option.some.inj (hcurrent.symm.trans hrun)
    exact hnext
  · exact halways done current hearlier hcurrent

/-- A relation between history and state that holds initially and survives every
step holds along all runs. -/
theorem run_invariant (invariant : List Label → State → Prop)
    (hinitial : invariant [] system.initial)
    (hstep : ∀ history state label next, invariant history state →
      system.step state label = some next → invariant (history ++ [label]) next)
    {history : List Label} {state : State} (hrun : system.run history = some state) :
    invariant history state := by
  induction history using List.reverseRecOn generalizing state with
  | nil =>
      cases hrun
      exact hinitial
  | append_singleton history label ih =>
      rw [run_concat] at hrun
      obtain ⟨current, hcurrent, hnext⟩ := Option.bind_eq_some_iff.mp hrun
      exact hstep history current label state (ih hcurrent) hnext

/-- The same for a relation whose survival depends on other facts about the run. -/
theorem run_invariant_of_run (invariant : List Label → State → Prop)
    (hinitial : invariant [] system.initial)
    (hstep : ∀ history state label next, system.run history = some state →
      invariant history state → system.step state label = some next →
        invariant (history ++ [label]) next)
    {history : List Label} {state : State} (hrun : system.run history = some state) :
    invariant history state := by
  refine (system.run_invariant
    (fun history state => system.run history = some state ∧ invariant history state)
    ⟨rfl, hinitial⟩ ?_ hrun).2
  rintro history state label next ⟨hbefore, hinvariant⟩ hnext
  refine ⟨?_, hstep history state label next hbefore hinvariant hnext⟩
  rw [run_concat, hbefore]
  exact hnext

/-- A system is simulated by another one if every step can be answered by steps
of the other. Then every run is answered, label by label. -/
theorem exists_run_of_simulation {Abstract AbstractLabel : Type}
    (abstract : LabelledSystem Abstract AbstractLabel) (related : State → Abstract → Prop)
    (answers : Label → List AbstractLabel → Prop)
    (hinitial : related system.initial abstract.initial)
    (hstep : ∀ state other label next, related state other → system.step state label = some next →
      ∃ labels after, answers label labels ∧ labels.foldlM abstract.step other = some after ∧
        related next after)
    {history : List Label} {state : State} (hrun : system.run history = some state) :
    ∃ segments other, List.Forall₂ answers history segments ∧
      abstract.run segments.flatten = some other ∧ related state other := by
  refine system.run_invariant (fun history state => ∃ segments other,
    List.Forall₂ answers history segments ∧ abstract.run segments.flatten = some other ∧
      related state other) ⟨[], _, .nil, rfl, hinitial⟩ ?_ hrun
  rintro history state label next ⟨segments, other, hanswers, hother, hrelated⟩ hnext
  obtain ⟨labels, after, hlabels, hafter, hrelated⟩ := hstep state other label next hrelated hnext
  refine ⟨segments ++ [labels], after, ?_, ?_, hrelated⟩
  · exact List.rel_append hanswers (.cons hlabels .nil)
  · rw [List.flatten_append, run_append, hother, Option.bind_some, List.flatten_singleton, hafter]

end LabelledSystem

end Concurrency
