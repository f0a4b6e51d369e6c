import SupraClient.Oracle.StorageLock

/-! # Mutual exclusion

The lock keeps two runs of the worker from fetching and storing at the same time
as long as every run is prompt: it leaves the guarded block before its deadline.
Nothing in the code makes sure of that. The requests have a deadline shorter than
the lock, but the body of a response is read without one. Once a single run is
late, exclusion is lost also between runs that are prompt, because the late one
drops the lock of somebody else. On the other hand a run that never leaves the
guarded block does not keep the others out for good.
-/

namespace SupraClient.Oracle

open Scale Concurrency

/-- The run is between taking the lock and dropping the guard. -/
def Phase.Guarded : Phase → Prop
  | .locked | .fetched _ | .stored | .failed _ => True
  | _ => False

namespace TimedState

variable {Worker : Type}

/-- The run of a worker has not stayed in the guarded block beyond its deadline. -/
def Prompt (state : TimedState Worker) (worker : Worker) : Prop :=
  (state.phase worker).Guarded →
    state.timestamp ≤ state.entered worker + lockTimeoutExpiration

/-- A run within the guarded block is alone there, and the stored deadline is its
own. -/
structure Exclusive (state : TimedState Worker) : Prop where
  deadline : ∀ worker, (state.phase worker).Guarded → ∃ number,
    state.lock = some (some ⟨state.entered worker + lockTimeoutExpiration, number⟩)
  alone : ∀ first second, (state.phase first).Guarded → (state.phase second).Guarded →
    first = second

variable {state next : TimedState Worker} {worker : Worker} {storageLock : StorageLock}

/-- While a prompt run holds the lock, nobody else can take it. -/
theorem tryLock_eq_none (hexclusive : state.Exclusive) (hprompt : state.Prompt worker)
    (hguarded : (state.phase worker).Guarded) (number : ℕ) :
    storageLock.tryLock state.lock ⟨state.timestamp, number⟩ = none := by
  obtain ⟨deadline, hlock⟩ := hexclusive.deadline worker hguarded
  rw [hlock]
  exact storageLock.tryLock_eq_none_of_le (hprompt hguarded)

/-- Steps that neither touch the lock nor let anybody into the guarded block. -/
theorem Exclusive.of_guarded (hexclusive : state.Exclusive) (hlock : next.lock = state.lock)
    (hentered : next.entered = state.entered)
    (hguarded : ∀ other, (next.phase other).Guarded → (state.phase other).Guarded) :
    next.Exclusive := by
  refine ⟨fun other hother => ?_, fun first second hfirst hsecond => ?_⟩
  · rw [hlock, hentered]
    exact hexclusive.deadline other (hguarded other hother)
  · exact hexclusive.alone first second (hguarded first hfirst) (hguarded second hsecond)

variable [DecidableEq Worker] {blockNumber : Worker → ℕ}

theorem advance_phase_self (state : TimedState Worker) (worker : Worker) (phase : Phase) :
    (state.advance worker phase).phase worker = phase :=
  Function.update_self _ _ _

theorem advance_phase_of_ne (state : TimedState Worker) {worker other : Worker}
    (hother : other ≠ worker) (phase : Phase) :
    (state.advance worker phase).phase other = state.phase other :=
  Function.update_of_ne hother _ _

theorem take_entered (state : TimedState Worker) (worker : Worker) (deadline : BlockAndTime) :
    (state.take worker deadline).entered worker = state.timestamp :=
  Function.update_self _ _ _

/-- A run that leaves the guarded block leaves nobody behind. -/
theorem Exclusive.release (hexclusive : state.Exclusive) (hguarded : (state.phase worker).Guarded)
    {phase : Phase} (hphase : ¬ phase.Guarded) :
    Exclusive ({ state with lock := none }.advance worker phase) := by
  have hnobody : ∀ other,
      ¬ (({ state with lock := none }.advance worker phase).phase other).Guarded := by
    intro other hother
    by_cases heq : other = worker
    · subst heq
      rw [advance_phase_self] at hother
      exact hphase hother
    · rw [advance_phase_of_ne _ heq] at hother
      exact heq (hexclusive.alone other worker hother hguarded)
  exact ⟨fun other hother => absurd hother (hnobody other),
    fun first _ hfirst _ => absurd hfirst (hnobody first)⟩

/-- Among the other actions only those within the guarded block stay there. -/
theorem guarded_of_acts {untimed after : WorkerState Worker} {action : Action}
    (hacts : WorkerState.Acts untimed worker action after)
    (htryLock : ∀ acquired, action ≠ .tryLock acquired) (other : Worker)
    (hother : (after.phase other).Guarded) : (untimed.phase other).Guarded := by
  by_cases heq : other = worker
  · subst heq
    cases hacts with
    | acquire => exact absurd rfl (htryLock true)
    | skip => exact absurd rfl (htryLock false)
    | fetch hphase | fetchError hphase | store hphase =>
        rw [hphase]
        trivial
    | _ =>
        rw [WorkerState.advance_phase_self] at hother
        cases hother
  · have hsame : after.phase other = untimed.phase other := by
      cases hacts with
      | unlock | unlockError =>
          rw [WorkerState.advance_phase_of_ne _ heq, WorkerState.release_phase]
      | _ => exact WorkerState.advance_phase_of_ne _ heq _
    rwa [hsame] at hother

/-- An action keeps exclusion if all runs are prompt at that moment. -/
theorem Exclusive.act {action : Action} (hexclusive : state.Exclusive)
    (hprompt : ∀ other, state.Prompt other)
    (hacts : Acts storageLock blockNumber state worker action next) : next.Exclusive := by
  cases hacts with
  | @acquire deadline hphase hlock =>
      have hnobody : ∀ other, ¬ (state.phase other).Guarded := by
        intro other hother
        rw [tryLock_eq_none hexclusive (hprompt other) hother] at hlock
        cases hlock
      have honly : ∀ other,
          ((state.take worker deadline).phase other).Guarded → other = worker := by
        intro other hother
        by_contra hne
        rw [take, advance_phase_of_ne _ hne] at hother
        exact hnobody other hother
      refine ⟨fun other hother => ?_, fun first second hfirst hsecond => ?_⟩
      · obtain rfl := honly other hother
        refine ⟨blockNumber other + lockBlockExpiration, ?_⟩
        rw [take_entered, storageLock.eq_deadline hlock]
        rfl
      · rw [honly first hfirst, honly second hsecond]
  | skip hphase hlock =>
      refine hexclusive.of_guarded rfl rfl fun other hother => ?_
      by_cases heq : other = worker
      · subst heq
        rw [advance_phase_self] at hother
        cases hother
      · rwa [advance_phase_of_ne _ heq] at hother
  | unlock hphase =>
      exact hexclusive.release (by rw [hphase]; trivial) (fun hguarded => hguarded)
  | unlockError hphase =>
      exact hexclusive.release (by rw [hphase]; trivial) (fun hguarded => hguarded)
  | other htryLock hunlock hnext =>
      exact hexclusive.of_guarded rfl rfl (guarded_of_acts hnext htryLock)

/-- Nobody becomes late by an action: only time can pass a deadline. -/
theorem Prompt.act {other : Worker} {action : Action} (hprompt : state.Prompt other)
    (hacts : Acts storageLock blockNumber state worker action next) : next.Prompt other := by
  intro hguarded
  cases hacts with
  | @acquire deadline hphase hlock =>
      by_cases heq : other = worker
      · subst heq
        rw [take_entered]
        exact Nat.le_add_right _ _
      · rw [take, advance_phase_of_ne _ heq] at hguarded
        have hentered : (state.take worker deadline).entered other = state.entered other :=
          Function.update_of_ne heq _ _
        rw [hentered]
        exact hprompt hguarded
  | skip | unlock | unlockError =>
      by_cases heq : other = worker
      · subst heq
        rw [advance_phase_self] at hguarded
        cases hguarded
      · rw [advance_phase_of_ne _ heq] at hguarded
        exact hprompt hguarded
  | other htryLock hunlock hnext => exact hprompt (guarded_of_acts hnext htryLock other hguarded)

end TimedState

variable {Worker : Type} [DecidableEq Worker]

/-- At most one run at a time is in the guarded block, whatever the interleaving,
the outcomes of the fetches and the blocks the runs belong to, if no run stays
there beyond its deadline. -/
theorem mutual_exclusion_of_prompt (storageLock : StorageLock) (blockNumber : Worker → ℕ)
    (history : List (TimedLabel Worker)) (state : TimedState Worker)
    (hrun : (timedWorkers storageLock blockNumber).run history = some state)
    (hprompt : ∀ done current, done <+: history →
      (timedWorkers storageLock blockNumber).run done = some current →
        ∀ worker, current.Prompt worker)
    (first second : Worker) (hfirst : (state.phase first).Guarded)
    (hsecond : (state.phase second).Guarded) : first = second := by
  have hexclusive : history <+: history → state.Exclusive := by
    refine (timedWorkers storageLock blockNumber).run_invariant_of_run
      (fun done current => done <+: history → current.Exclusive) ?_ ?_ hrun
    · exact fun _ => ⟨fun _ hguarded => hguarded.elim, fun _ _ hguarded => hguarded.elim⟩
    · intro done current label next hcurrent hbefore hstep hinitial
      have hdone : done <+: history := (List.prefix_append done [label]).trans hinitial
      cases label with
      | act worker action =>
          exact (hbefore hdone).act (hprompt done current hdone hcurrent)
            (TimedState.acts_of_act hstep)
      | tick duration =>
          cases hstep
          exact (hbefore hdone).of_guarded rfl rfl fun _ hguarded => hguarded
  exact (hexclusive List.prefix_rfl).alone first second hfirst hsecond

/-- While the run for block 1 waits for its response, the run for block 2 is kept
out. -/
theorem mutual_exclusion_of_two :
    let history : List (TimedLabel ℕ) :=
      [.act 1 (.tryLock true), .tick 3000, .act 2 (.tryLock false)]
    ∃ state, (timedWorkers blockAndTimeLock id).run history = some state ∧
      ∀ worker, (state.phase worker).Guarded → worker = 1 := by
  intro history
  have hsome : ((timedWorkers blockAndTimeLock id).run history).isSome = true := by decide
  obtain ⟨state, hstate⟩ := Option.isSome_iff_exists.mp hsome
  have hone : (state.phase 1).Guarded := by
    cases hstate
    trivial
  refine ⟨state, hstate, fun worker hguarded =>
    mutual_exclusion_of_prompt _ id history state hstate ?_ worker 1 hguarded hone⟩
  intro done current hinitial hcurrent worker _
  -- no more than 3000 milliseconds have passed at any time
  have htime : current.timestamp ≤ 3000 := by
    rw [← List.mem_inits] at hinitial
    simp only [history, List.inits, List.map_cons, List.map_nil, List.mem_cons,
      List.not_mem_nil, or_false] at hinitial
    rcases hinitial with rfl | rfl | rfl | rfl <;> cases hcurrent <;> decide
  exact htime.trans (Nat.le_trans (by decide) (Nat.le_add_left lockTimeoutExpiration _))

section Runs

variable {storageLock : StorageLock} {blockNumber : Worker → ℕ}
  {history : List (TimedLabel Worker)} {state next : TimedState Worker} {worker : Worker}
  {action : Action}

theorem TimedState.act_of_acts (hacts : Acts storageLock blockNumber state worker action next) :
    state.act storageLock blockNumber worker action = some next := by
  cases hacts with
  | acquire hphase hlock => simp [act, hphase, hlock]
  | skip hphase hlock => simp [act, hphase, hlock]
  | unlock hphase => simp [act, hphase]
  | unlockError hphase => simp [act, hphase]
  | other htryLock hunlock hnext =>
      have hsome := WorkerState.act_of_acts hnext
      cases action with
      | tryLock acquired => exact absurd rfl (htryLock acquired)
      | unlock => exact absurd rfl hunlock
      | _ => simp [act, hsome]

theorem run_act (hrun : (timedWorkers storageLock blockNumber).run history = some state)
    (hacts : TimedState.Acts storageLock blockNumber state worker action next) :
    (timedWorkers storageLock blockNumber).run (history ++ [.act worker action]) = some next := by
  rw [LabelledSystem.run_concat, hrun]
  exact TimedState.act_of_acts hacts

theorem run_tick (hrun : (timedWorkers storageLock blockNumber).run history = some state)
    (duration : ℕ) :
    (timedWorkers storageLock blockNumber).run (history ++ [.tick duration]) =
      some { state with timestamp := state.timestamp + duration } := by
  rw [LabelledSystem.run_concat, hrun]
  rfl

end Runs

/-- A stored deadline is that of a run that has taken the lock, no later than now. -/
def TimedState.Bounded (blockNumber : Worker → ℕ) (history : List (TimedLabel Worker))
    (state : TimedState Worker) : Prop :=
  ∀ deadline, state.lock = some (some deadline) →
    deadline.timestamp ≤ state.timestamp + lockTimeoutExpiration ∧
      ∃ worker, .act worker (.tryLock true) ∈ history ∧
        deadline.blockNumber = blockNumber worker + lockBlockExpiration

theorem bounded_of_run {storageLock : StorageLock} {blockNumber : Worker → ℕ}
    {history : List (TimedLabel Worker)} {state : TimedState Worker}
    (hrun : (timedWorkers storageLock blockNumber).run history = some state) :
    state.Bounded blockNumber history := by
  refine (timedWorkers storageLock blockNumber).run_invariant
    (fun history state => state.Bounded blockNumber history) ?_ ?_ hrun
  · intro deadline hlock
    cases hlock
  · intro history state label next hbounded hstep
    have hkept : next.lock = state.lock → state.timestamp ≤ next.timestamp →
        next.Bounded blockNumber (history ++ [label]) := by
      intro hlock htime deadline hdeadline
      obtain ⟨hle, worker, hmem, hnumber⟩ := hbounded deadline (hlock.symm.trans hdeadline)
      exact ⟨hle.trans (Nat.add_le_add_right htime _), worker, List.mem_append_left _ hmem,
        hnumber⟩
    cases label with
    | tick duration =>
        cases hstep
        exact hkept rfl (Nat.le_add_right _ _)
    | act worker action =>
        cases TimedState.acts_of_act hstep with
        | acquire hphase hlock =>
            rintro deadline ⟨⟩
            rw [storageLock.eq_deadline hlock]
            exact ⟨le_rfl, worker, by simp, rfl⟩
        | skip | other => exact hkept rfl le_rfl
        | unlock | unlockError =>
            intro deadline hdeadline
            cases hdeadline

/-- The lock cannot stay closed for good, whatever has become of the run that took
it. Once more than the deadline's time has passed, a run for a block beyond the
deadlines of all that have taken the lock so far gets it. -/
theorem lock_available_after_deadline (storageLock : StorageLock) (blockNumber : Worker → ℕ)
    (history : List (TimedLabel Worker)) (state : TimedState Worker)
    (hrun : (timedWorkers storageLock blockNumber).run history = some state) (worker : Worker)
    (hstart : state.phase worker = .start) (duration : ℕ)
    (hduration : lockTimeoutExpiration < duration)
    (hblock : ∀ other, .act other (.tryLock true) ∈ history →
      blockNumber other + lockBlockExpiration < blockNumber worker) :
    ∃ next, (timedWorkers storageLock blockNumber).run
        (history ++ [.tick duration] ++ [.act worker (.tryLock true)]) = some next ∧
      (next.phase worker).Guarded := by
  have hlock : storageLock.tryLock state.lock ⟨state.timestamp + duration, blockNumber worker⟩ =
      some (BlockAndTime.deadline ⟨state.timestamp + duration, blockNumber worker⟩) := by
    refine storageLock.tryLock_eq_deadline fun deadline hstored => ?_
    obtain ⟨htime, other, hother, hnumber⟩ := bounded_of_run hrun deadline hstored
    simp only [BlockAndTime.hasExpired, Bool.and_eq_true, decide_eq_true_eq, hnumber]
    exact ⟨htime.trans_lt (Nat.add_lt_add_left hduration _), hblock other hother⟩
  refine ⟨_, run_act (run_tick hrun duration) (.acquire hstart hlock), ?_⟩
  rw [TimedState.take, TimedState.advance_phase_self]
  trivial

/-- The run for block 1 never returns; the one for block 5 gets the lock. -/
theorem lock_available_at_block_five : ∃ next,
    (timedWorkers blockAndTimeLock (id : ℕ → ℕ)).run
        [.act 1 (.tryLock true), .tick 4001, .act 5 (.tryLock true)] = some next ∧
      (next.phase 5).Guarded := by
  have hsome : ((timedWorkers blockAndTimeLock (id : ℕ → ℕ)).run
      [.act 1 (.tryLock true)]).isSome = true := by
    decide
  obtain ⟨state, hstate⟩ := Option.isSome_iff_exists.mp hsome
  refine lock_available_after_deadline _ id _ state hstate 5 ?_ 4001 (by decide) ?_
  · cases hstate
    rfl
  · intro other hother
    cases List.mem_singleton.mp hother
    decide

end SupraClient.Oracle
