import SupraClient.Oracle.Schedule

/-! # The lock with a deadline

The lock of the price workers is a deadline in the storage of the node: a time
and a block number. The lock comes with the framework. What is known of it is that
it is there to be taken unless a deadline stands against it, and that a deadline
stands against it at least until its time has passed. Dropping the guard clears the
storage without looking at it: a run that has stayed beyond its deadline clears a
lock that somebody else has taken in the meantime.

Every run of the workers with this lock is a run of the system in which a lock
may be lost at any time. So whatever holds there, such as the provenance of
prices, holds here.
-/

namespace SupraClient.Oracle

open Scale Concurrency

/-! ## Deadlines -/

def fetchTimeoutPeriod : ℕ := 3000

def lockTimeoutExpiration : ℕ := fetchTimeoutPeriod + 1000

def lockBlockExpiration : ℕ := 3

/-- A time in milliseconds and the number of the current block. -/
structure BlockAndTime where
  timestamp : ℕ
  blockNumber : ℕ
  deriving DecidableEq

namespace BlockAndTime

/-- The deadline of a lock taken now. -/
def deadline (now : BlockAndTime) : BlockAndTime where
  timestamp := now.timestamp + lockTimeoutExpiration
  blockNumber := now.blockNumber + lockBlockExpiration

/-- A deadline has expired when both of its parts have passed. -/
def hasExpired (deadline now : BlockAndTime) : Bool :=
  deadline.timestamp < now.timestamp && deadline.blockNumber < now.blockNumber

end BlockAndTime

/-- A lock that is kept in the storage as a deadline. -/
structure StorageLock where
  /-- The deadline to store if the lock can be taken. The stored one is absent,
  present but not decodable, or decoded. -/
  tryLock : Option (Option BlockAndTime) → BlockAndTime → Option BlockAndTime
  eq_deadline : ∀ {stored now deadline}, tryLock stored now = some deadline →
    deadline = now.deadline
  /-- A lock that is taken from somebody has run out of its time. -/
  timestamp_lt : ∀ {stored now deadline}, tryLock (some (some stored)) now = some deadline →
    stored.timestamp < now.timestamp
  /-- A lock that no deadline protects can be taken. -/
  isSome_tryLock : ∀ {stored now},
    (∀ deadline, stored = some (some deadline) → deadline.hasExpired now = true) →
      (tryLock stored now).isSome = true

theorem StorageLock.tryLock_eq_deadline (storageLock : StorageLock)
    {stored : Option (Option BlockAndTime)} {now : BlockAndTime}
    (hfree : ∀ deadline, stored = some (some deadline) → deadline.hasExpired now = true) :
    storageLock.tryLock stored now = some now.deadline := by
  obtain ⟨deadline, hlock⟩ := Option.isSome_iff_exists.mp (storageLock.isSome_tryLock hfree)
  rw [hlock, storageLock.eq_deadline hlock]

theorem StorageLock.tryLock_none (storageLock : StorageLock) (now : BlockAndTime) :
    storageLock.tryLock none now = some now.deadline :=
  storageLock.tryLock_eq_deadline fun _ hstored => by cases hstored

theorem StorageLock.tryLock_eq_none_of_le (storageLock : StorageLock)
    {deadline now : BlockAndTime} (htime : now.timestamp ≤ deadline.timestamp) :
    storageLock.tryLock (some (some deadline)) now = none :=
  Option.eq_none_iff_forall_ne_some.mpr fun _ hlock =>
    Nat.not_lt.mpr htime (storageLock.timestamp_lt hlock)

/-- The lock as the framework has it. -/
def blockAndTimeLock : StorageLock where
  tryLock stored now :=
    match stored with
    | none => some now.deadline
    | some none => some now.deadline
    | some (some deadline) => if deadline.hasExpired now then some now.deadline else none
  eq_deadline := by
    intro stored now deadline hlock
    split at hlock
    next => exact (Option.some.inj hlock).symm
    next => exact (Option.some.inj hlock).symm
    next =>
      split at hlock
      next => exact (Option.some.inj hlock).symm
      next => cases hlock
  timestamp_lt := by
    intro stored now deadline hlock
    dsimp only at hlock
    split at hlock
    next hexpired =>
      rw [BlockAndTime.hasExpired, Bool.and_eq_true, decide_eq_true_eq] at hexpired
      exact hexpired.1
    next => cases hlock
  isSome_tryLock := by
    intro stored now hfree
    match stored, hfree with
    | none, _ => rfl
    | some none, _ => rfl
    | some (some deadline), hfree => simp [hfree deadline rfl]

/-! ## Workers on a clock -/

/-- The stored record and the stored deadline, the time, and the progress of
every run. The time at which a run took the lock is kept for reference. -/
structure TimedState (Worker : Type) where
  info : Option Bytes
  lock : Option (Option BlockAndTime)
  timestamp : ℕ
  phase : Worker → Phase
  entered : Worker → ℕ

inductive TimedLabel (Worker : Type) where
  | act (worker : Worker) (action : Action)
  /-- Time passes, in milliseconds. -/
  | tick (duration : ℕ)

namespace TimedState

variable {Worker : Type} [DecidableEq Worker]

def initial : TimedState Worker where
  info := none
  lock := none
  timestamp := 0
  phase _ := .start
  entered _ := 0

def advance (state : TimedState Worker) (worker : Worker) (phase : Phase) : TimedState Worker :=
  { state with phase := Function.update state.phase worker phase }

/-- Take the lock and enter the guarded block. -/
def take (state : TimedState Worker) (worker : Worker) (deadline : BlockAndTime) :
    TimedState Worker :=
  { state with
    lock := some (some deadline)
    entered := Function.update state.entered worker state.timestamp }.advance worker .locked

/-- The workers without the clock, with a holder of the lock. -/
def untimed (state : TimedState Worker) (holder : Option Worker) : WorkerState Worker where
  info := state.info
  lock := holder
  phase := state.phase

variable (storageLock : StorageLock) (blockNumber : Worker → ℕ)

/-- One action of one run. A run sees the number of the block it was started for. -/
def act (state : TimedState Worker) (worker : Worker) : Action → Option (TimedState Worker)
  | .tryLock acquired =>
      match state.phase worker with
      | .start =>
          match storageLock.tryLock state.lock ⟨state.timestamp, blockNumber worker⟩, acquired with
          | some deadline, true => some (state.take worker deadline)
          | none, false => some (state.advance worker .unlocked)
          | _, _ => none
      | _ => none
  | .unlock =>
      match state.phase worker with
      | .stored => some ({ state with lock := none }.advance worker .unlocked)
      | .failed error =>
          some ({ state with lock := none }.advance worker (.finished (.error error)))
      | _ => none
  | action =>
      ((state.untimed none).act worker action).map fun next =>
        { state with info := next.info, phase := next.phase }

/-- The actions of a run on a clock, one by one. -/
inductive Acts (state : TimedState Worker) (worker : Worker) : Action → TimedState Worker → Prop
  | acquire {deadline} (hphase : state.phase worker = .start)
      (hlock : storageLock.tryLock state.lock ⟨state.timestamp, blockNumber worker⟩ =
        some deadline) :
      Acts state worker (.tryLock true) (state.take worker deadline)
  | skip (hphase : state.phase worker = .start)
      (hlock : storageLock.tryLock state.lock ⟨state.timestamp, blockNumber worker⟩ = none) :
      Acts state worker (.tryLock false) (state.advance worker .unlocked)
  | unlock (hphase : state.phase worker = .stored) :
      Acts state worker .unlock ({ state with lock := none }.advance worker .unlocked)
  | unlockError {error} (hphase : state.phase worker = .failed error) :
      Acts state worker .unlock
        ({ state with lock := none }.advance worker (.finished (.error error)))
  | other {action next} (htryLock : ∀ acquired, action ≠ .tryLock acquired)
      (hunlock : action ≠ .unlock)
      (hnext : WorkerState.Acts (state.untimed none) worker action next) :
      Acts state worker action { state with info := next.info, phase := next.phase }

variable {storageLock} {blockNumber}

theorem acts_of_act {state next : TimedState Worker} {worker : Worker} {action : Action}
    (h : state.act storageLock blockNumber worker action = some next) :
    Acts storageLock blockNumber state worker action next := by
  unfold act at h
  split at h
  next acquired =>
    split at h
    next hphase =>
      split at h
      next hlock =>
        cases h
        exact .acquire hphase hlock
      next hlock =>
        cases h
        exact .skip hphase hlock
      next => cases h
    next => cases h
  next =>
    split at h
    next hphase =>
      cases h
      exact .unlock hphase
    next hphase =>
      cases h
      exact .unlockError hphase
    next => cases h
  next htryLock hunlock =>
    obtain ⟨untimed, huntimed, rfl⟩ := Option.map_eq_some_iff.mp h
    exact .other htryLock hunlock (WorkerState.acts_of_act huntimed)

end TimedState

/-- All interleavings of all runs of the worker, each started for a block. -/
def timedWorkers {Worker : Type} [DecidableEq Worker] (storageLock : StorageLock)
    (blockNumber : Worker → ℕ) :
    LabelledSystem (TimedState Worker) (TimedLabel Worker) where
  initial := .initial
  step state
    | .act worker action => state.act storageLock blockNumber worker action
    | .tick duration => some { state with timestamp := state.timestamp + duration }

/-! ## Refinement -/

variable {Worker : Type} [DecidableEq Worker] {storageLock : StorageLock}
  {blockNumber : Worker → ℕ}

/-- Actions other than those on the lock do not depend on its holder. -/
theorem WorkerState.Acts.of_lock {info : Option Bytes} {lock : Option Worker}
    {phase : Worker → Phase} {worker : Worker} {action : Action} {next : WorkerState Worker}
    (hacts : WorkerState.Acts ⟨info, lock, phase⟩ worker action next)
    (htryLock : ∀ acquired, action ≠ .tryLock acquired) (hunlock : action ≠ .unlock)
    (holder : Option Worker) :
    WorkerState.Acts ⟨info, holder, phase⟩ worker action ⟨next.info, holder, next.phase⟩ := by
  cases hacts with
  | acquire => exact absurd rfl (htryLock true)
  | skip => exact absurd rfl (htryLock false)
  | unlock | unlockError => exact absurd rfl hunlock
  | fetch hphase => exact .fetch hphase
  | fetchError hphase => exact .fetchError hphase
  | store hphase => exact .store hphase
  | read hphase => exact .read hphase
  | post hphase hbody => exact .post hphase hbody
  | postInvalid hphase hbody => exact .postInvalid hphase hbody
  | postError hphase => exact .postError hphase
  | abandon hphase => exact .abandon hphase
  | panic hphase => exact .panic hphase
  | submit hphase => exact .submit hphase

theorem WorkerState.release_advance (state : TimedState Worker) (holder : Option Worker)
    (worker : Worker) (phase : Phase) :
    ((state.untimed holder).release worker).advance worker phase =
      ({ state with lock := none }.advance worker phase).untimed
        ((state.untimed holder).release worker).lock := by
  unfold release
  split <;> rfl

theorem StorageLock.ne_none_of_tryLock {stored : Option (Option BlockAndTime)}
    {now : BlockAndTime} (hlock : storageLock.tryLock stored now = none) : stored ≠ none := by
  rintro rfl
  rw [storageLock.tryLock_none] at hlock
  cases hlock

/-- A state of the untimed workers that stands for a timed one. Whenever there is
a deadline in the storage, somebody counts as the holder of the lock; the
converse fails after a guard was dropped too late. -/
def Untimes (timed : TimedState Worker) (state : WorkerState Worker) : Prop :=
  ∃ holder, state = timed.untimed holder ∧ (timed.lock ≠ none → holder ≠ none)

/-- The label of the untimed workers in a timed one. -/
def TimedLabel.label? : TimedLabel Worker → Option (Label Worker)
  | .act worker action => some (.act worker action)
  | .tick _ => none

/-- The actions in a timed history. -/
def actions (history : List (TimedLabel Worker)) : List (Label Worker) :=
  history.filterMap TimedLabel.label?

def Label.isAct : Label Worker → Bool
  | .act _ _ => true
  | .expire => false

/-- Untimed steps that stand for a timed one: the same action, perhaps after the
loss of the lock. -/
def SameActions (label : TimedLabel Worker) (labels : List (Label Worker)) : Prop :=
  labels.filter Label.isAct = label.label?.toList

theorem untimed_act {timed next : TimedState Worker} {state : WorkerState Worker}
    (huntimes : Untimes timed state) {worker : Worker} {action : Action}
    (hacts : TimedState.Acts storageLock blockNumber timed worker action next) :
    ∃ labels after, SameActions (.act worker action) labels ∧
      labels.foldlM (workers Worker).step state = some after ∧ Untimes next after := by
  obtain ⟨holder, rfl, hholder⟩ := huntimes
  have hsingle : ∀ {after : WorkerState Worker},
      WorkerState.Acts (timed.untimed holder) worker action after →
        [Label.act worker action].foldlM (workers Worker).step (timed.untimed holder) =
          some after :=
    fun hafter => (Performs.single hafter).foldlM_step
  cases hacts with
  | acquire hphase hlock =>
      -- whoever counts as the holder loses the lock first
      have hacquire : WorkerState.Acts (timed.untimed none) worker (.tryLock true) _ :=
        .acquire hphase rfl
      refine ⟨[.expire, .act worker (.tryLock true)], _, rfl, ?_,
        some worker, rfl, fun _ => Option.some_ne_none worker⟩
      exact (Performs.single hacquire).foldlM_step
  | skip hphase hlock =>
      have htaken := hholder (StorageLock.ne_none_of_tryLock hlock)
      exact ⟨[.act worker _], _, rfl, hsingle (.skip hphase htaken), holder, rfl, hholder⟩
  | unlock hphase =>
      refine ⟨[.act worker _], _, rfl, hsingle (.unlock hphase), _,
        WorkerState.release_advance _ _ _ _, ?_⟩
      exact fun hlock => absurd rfl hlock
  | unlockError hphase =>
      refine ⟨[.act worker _], _, rfl, hsingle (.unlockError hphase), _,
        WorkerState.release_advance _ _ _ _, ?_⟩
      exact fun hlock => absurd rfl hlock
  | other htryLock hunlock hnext =>
      exact ⟨[.act worker action], _, rfl, hsingle (hnext.of_lock htryLock hunlock holder), holder,
        rfl, hholder⟩

/-- Every history of the timed workers is a history of the untimed ones, with the
same actions in the same order and with the same stored record and progress of
all runs. -/
theorem exists_untimed_run {history : List (TimedLabel Worker)} {timed : TimedState Worker}
    (hrun : (timedWorkers storageLock blockNumber).run history = some timed) :
    ∃ untimed state, untimed.filter Label.isAct = actions history ∧
      (workers Worker).run untimed = some state ∧ Untimes timed state := by
  have hstep : ∀ (timed : TimedState Worker) (state : WorkerState Worker) label next,
      Untimes timed state → (timedWorkers storageLock blockNumber).step timed label = some next →
        ∃ labels after, SameActions label labels ∧
          labels.foldlM (workers Worker).step state = some after ∧ Untimes next after := by
    intro timed state label next huntimes hstep
    cases label with
    | act worker action => exact untimed_act huntimes (TimedState.acts_of_act hstep)
    | tick duration =>
        cases hstep
        exact ⟨[], state, rfl, rfl, huntimes⟩
  obtain ⟨segments, state, hanswers, hstate, huntimes⟩ :=
    (timedWorkers storageLock blockNumber).exists_run_of_simulation (workers Worker) Untimes
      SameActions ⟨none, rfl, fun hlock => absurd rfl hlock⟩ hstep hrun
  refine ⟨segments.flatten, state, ?_, hstate, huntimes⟩
  clear hrun hstate
  induction hanswers with
  | nil => rfl
  | @cons label labels history segments hlabel _ ih =>
      rw [List.flatten_cons, List.filter_append, hlabel, ih]
      cases label <;> rfl

/-! ## Provenance of prices -/

omit [DecidableEq Worker] in
/-- The source of a price shows in the actions alone. -/
theorem Sourced.filter {history : List (Label Worker)} {worker : Worker} {price : ByteVec}
    (hsourced : Sourced history worker price) :
    Sourced (history.filter Label.isAct) worker price := by
  rcases hsourced with ⟨data, ⟨fetcher, hsublist⟩, hprice⟩ | ⟨hzero, earlier, later, rfl, hnothing⟩
  · exact Or.inl ⟨data, ⟨fetcher, hsublist.filter Label.isAct⟩, hprice⟩
  · refine Or.inr ⟨hzero, earlier.filter Label.isAct, later.filter Label.isAct, ?_, ?_⟩
    · rw [List.filter_append, List.filter_cons_of_pos rfl]
    · exact fun storer data hmem => hnothing storer data (List.mem_filter.mp hmem).1

/-- With the lock as it is, deadlines, late releases and all, every price posted
to Ethereum or submitted to the chain is the price of a record fetched and stored
before, or the zero read by its worker before anything was stored. -/
theorem timed_published_price_sourced (storageLock : StorageLock) (blockNumber : Worker → ℕ)
    (history before after : List (TimedLabel Worker)) (label : TimedLabel Worker)
    (worker : Worker) (price : ByteVec)
    (hrun : ((timedWorkers storageLock blockNumber).run history).isSome = true)
    (hsplit : history = before ++ label :: after)
    (hpublished : label.label?.bind Label.published = some (worker, price)) :
    Sourced (actions before) worker price := by
  subst hsplit
  obtain ⟨current, next, hcurrent, hstep⟩ :=
    (timedWorkers storageLock blockNumber).enabled_of_run hrun
  obtain ⟨untimed, state, hactions, hstate, holder, rfl, -⟩ := exists_untimed_run hcurrent
  cases label with
  | tick duration => cases hpublished
  | act actor action =>
      cases TimedState.acts_of_act hstep with
      | acquire | skip | unlock | unlockError => cases hpublished
      | other htryLock hunlock hnext =>
          have huntimed := WorkerState.act_of_acts (hnext.of_lock htryLock hunlock holder)
          rw [← hactions]
          exact ((tracks_of_run hstate).sourced_of_published hpublished huntimed).filter

/-- A run that stays beyond its deadline, one that takes over, stores its record
and submits the price. -/
theorem timed_price_posted :
    let price : ByteVec := ⟨bytesOf "1800.25", by decide⟩
    let data : LightClient := ⟨price, ⟨[], by decide⟩⟩
    let before : List (TimedLabel ℕ) :=
      [.act 1 (.tryLock true), .tick 4001, .act 5 (.tryLock true),
        .act 5 (.fetchNParse (.ok data)), .act 5 (.store data), .act 5 .unlock,
        .act 5 (.read price)]
    let label : TimedLabel ℕ := .act 5 (.post price (.ok []))
    ((timedWorkers blockAndTimeLock id).run (before ++ label :: [])).isSome = true ∧
      Sourced (actions before) 5 price := by
  intro price data before label
  have hrun : ((timedWorkers blockAndTimeLock id).run (before ++ label :: [])).isSome = true := by
    decide
  exact ⟨hrun, timed_published_price_sourced _ id _ before [] label 5 price hrun rfl rfl⟩

end SupraClient.Oracle
