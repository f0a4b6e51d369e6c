import SupraClient.Oracle.Posting
import SupraClient.Oracle.Provenance

/-! # Runs of the worker as schedules

The system of concurrent workers takes a run of the worker apart into actions.
A run that is not disturbed by others is the sequence of its actions: it leaves
the same record behind, ends in the same way, and posts and submits the same
prices. What holds in all interleavings therefore holds for the prices that the
code of the worker submits.
-/

namespace SupraClient.Oracle

open Scale Concurrency

variable {Worker : Type} [DecidableEq Worker]

/-! ## Sequences of actions -/

theorem WorkerState.act_of_acts {state next : WorkerState Worker} {worker : Worker}
    {action : Action} (hacts : Acts state worker action next) :
    state.act worker action = some next := by
  cases hacts with
  | acquire hphase hlock => simp [act, hphase, hlock]
  | skip hphase hlock =>
      obtain ⟨holder, hholder⟩ := Option.ne_none_iff_exists'.mp hlock
      simp [act, hphase, hholder]
  | fetch hphase | fetchError hphase | store hphase | unlock hphase | unlockError hphase
  | read hphase | postError hphase | abandon hphase | panic hphase | submit hphase =>
      simp [act, hphase]
  | post hphase hbody | postInvalid hphase hbody => simp [act, hphase, hbody]

/-- A worker performs actions one after the other, undisturbed by others. -/
inductive Performs (worker : Worker) :
    WorkerState Worker → List Action → WorkerState Worker → Prop
  | done (state : WorkerState Worker) : Performs worker state [] state
  | act {state middle next : WorkerState Worker} {action : Action} {actions : List Action}
      (hacts : WorkerState.Acts state worker action middle)
      (hperforms : Performs worker middle actions next) :
      Performs worker state (action :: actions) next

namespace Performs

variable {worker : Worker} {state middle next : WorkerState Worker} {actions more : List Action}

theorem single {action : Action} (hacts : WorkerState.Acts state worker action next) :
    Performs worker state [action] next :=
  .act hacts (.done next)

theorem append (hfirst : Performs worker state actions middle)
    (hsecond : Performs worker middle more next) :
    Performs worker state (actions ++ more) next := by
  induction hfirst with
  | done => exact hsecond
  | act hacts _ ih => exact .act hacts (ih hsecond)

theorem foldlM_step (hperforms : Performs worker state actions next) :
    (actions.map (Label.act worker)).foldlM (workers Worker).step state = some next := by
  induction hperforms with
  | done => rfl
  | @act state middle next action actions hacts _ ih =>
      have hstep : (workers Worker).step state (.act worker action) = some middle :=
        WorkerState.act_of_acts hacts
      rw [List.map_cons, List.foldlM_cons, hstep]
      exact ih

/-- The actions of one worker do not touch the others. -/
theorem phase_of_ne (hperforms : Performs worker state actions next) {other : Worker}
    (hother : other ≠ worker) : next.phase other = state.phase other := by
  induction hperforms with
  | done => rfl
  | act hacts _ ih =>
      rw [ih]
      cases hacts with
      | unlock | unlockError =>
          rw [WorkerState.advance_phase_of_ne _ hother, WorkerState.release_phase]
      | _ => exact WorkerState.advance_phase_of_ne _ hother _

end Performs

/-! ## The actions of a run -/

def Action.posted? : Action → Option ByteVec
  | .post price _ => some price
  | _ => none

def Action.submitted? : Action → Option ByteVec
  | .submit price _ => some price
  | _ => none

/-- The phase at the end of a run. -/
def Phase.ofResult : Except Exit Unit → Phase
  | .ok () => .finished (.ok ())
  | .error (.error error) => .finished (.error error)
  | .error .panic => .panicked

/-- A transaction posts a price: its data is the calldata of the price. -/
def Environment.PostsPrice (environment : Environment) (price : ByteVec) (exchange : Exchange) :
    Prop :=
  ∃ data, environment.calldataOf price = .ok data ∧ exchange.PostsCalldata data

/-- Actions that post and submit the prices a run has posted and submitted. -/
structure Accounts (environment : Environment) (actions : List Action) (world : World) :
    Prop where
  posted : List.Forall₂ environment.PostsPrice (actions.filterMap Action.posted?)
    world.transactions
  submitted : actions.filterMap Action.submitted? = world.submissions

section Actions

variable {environment : Environment} {call : WorkerCall} {worker : Worker}
  {state : WorkerState Worker} {price : ByteVec} {world : World}

/-- The actions up to the point where the price is known. -/
theorem performs_of_prepared (hphase : state.phase worker = .start)
    (hlock : environment.lockFree = true ↔ state.lock = none)
    (hprepared : Prepared environment state.info price world) :
    ∃ actions next, Performs worker state actions next ∧ next.phase worker = .ready price ∧
      next.info = world.info ∧ actions.filterMap Action.posted? = [] ∧
      actions.filterMap Action.submitted? = [] := by
  -- reading comes last in both cases
  suffices hunlocked : ∃ actions next, Performs worker state actions next ∧
      next.phase worker = .unlocked ∧ next.info = world.info ∧
      actions.filterMap Action.posted? = [] ∧ actions.filterMap Action.submitted? = [] by
    obtain ⟨actions, next, hperforms, hunlocked, hinfo, hposted, hsubmitted⟩ := hunlocked
    refine ⟨_, _, hperforms.append (.single (.read hunlocked)), ?_, hinfo, ?_, ?_⟩
    · rw [WorkerState.advance_phase_self, hinfo, hprepared.finalPrice_info]
    · rw [List.filterMap_append, hposted]
      rfl
    · rw [List.filterMap_append, hsubmitted]
      rfl
  cases hprepared with
  | stored hfree =>
      have htaken : state.lock ≠ none := fun hnone => by simp [hlock.mpr hnone] at hfree
      exact ⟨_, _, .single (.skip hphase htaken), WorkerState.advance_phase_self _ _ _, rfl,
        rfl, rfl⟩
  | @fetched data hfree hdata =>
      have hfetched : Performs worker ({ state with lock := some worker }.advance worker .locked)
          [.fetchNParse (.ok data)] _ :=
        .single (.fetch (WorkerState.advance_phase_self _ _ _))
      have hstored := hfetched.append (.single (.store (WorkerState.advance_phase_self _ _ _)))
      have hunlocked := hstored.append (.single (.unlock (WorkerState.advance_phase_self _ _ _)))
      refine ⟨_, _, .act (.acquire hphase (hlock.mp hfree)) hunlocked,
        WorkerState.advance_phase_self _ _ _, ?_, rfl, rfl⟩
      exact WorkerState.release_info _ _

/-- The actions of a run that has a price to deliver, from those that deliver it. -/
theorem performs_of_ready {result : Except Exit Unit} {final : World}
    (hphase : state.phase worker = .start)
    (hlock : environment.lockFree = true ↔ state.lock = none)
    (hprepared : Prepared environment state.info price world) (hfinal : final.info = world.info)
    (hready : ∀ middle : WorkerState Worker, middle.phase worker = .ready price →
      ∃ actions next, Performs worker middle actions next ∧
        next.phase worker = .ofResult result ∧ next.info = middle.info ∧
        Accounts environment actions final) :
    ∃ actions next, Performs worker state actions next ∧ next.phase worker = .ofResult result ∧
      next.info = final.info ∧ Accounts environment actions final := by
  obtain ⟨before, middle, hbefore, hprice, hinfo, hposted, hsubmitted⟩ :=
    performs_of_prepared hphase hlock hprepared
  obtain ⟨actions, next, hperforms, hresult, hsame, haccounts⟩ := hready middle hprice
  refine ⟨_, next, hbefore.append hperforms, hresult, hsame.trans (hinfo.trans hfinal.symm), ?_, ?_⟩
  · rw [List.filterMap_append, hposted]
    exact haccounts.posted
  · rw [List.filterMap_append, hsubmitted]
    exact haccounts.submitted

/-- The actions of a whole run. -/
theorem performs_of_ends {result : Except Exit Unit} (hphase : state.phase worker = .start)
    (hlock : environment.lockFree = true ↔ state.lock = none)
    (hends : Ends environment call state.info result world) :
    ∃ actions next, Performs worker state actions next ∧ next.phase worker = .ofResult result ∧
      next.info = world.info ∧ Accounts environment actions world := by
  cases hends with
  | @fetchFailed error hfree herror =>
      have hfailed : Performs worker ({ state with lock := some worker }.advance worker .locked)
          [.fetchNParse (.error error)] _ :=
        .single (.fetchError (WorkerState.advance_phase_self _ _ _))
      have hunlocked :=
        hfailed.append (.single (.unlockError (WorkerState.advance_phase_self _ _ _)))
      refine ⟨_, _, .act (.acquire hphase (hlock.mp hfree)) hunlocked,
        WorkerState.advance_phase_self _ _ _, ?_, ⟨.nil, rfl⟩⟩
      exact WorkerState.release_info _ _
  | notNumeric hprepared herror =>
      refine performs_of_ready hphase hlock hprepared rfl ?_
      intro middle hready
      refine ⟨_, _, .single (.abandon hready), WorkerState.advance_phase_self _ _ _, rfl, ?_, ?_⟩
      · rw [hprepared.transactions]
        exact .nil
      · exact hprepared.submissions.symm
  | panicked hprepared hdata hestimate =>
      refine performs_of_ready hphase hlock hprepared rfl ?_
      intro middle hready
      refine ⟨_, _, .single (.panic hready), WorkerState.advance_phase_self _ _ _, rfl, ?_, ?_⟩
      · rw [hprepared.transactions_estimated]
        exact .nil
      · exact hprepared.submissions.symm
  | @notAnswered price before data estimate hprepared hdata hestimate hanswer =>
      refine performs_of_ready hphase hlock hprepared rfl ?_
      intro middle hready
      by_cases hsend : environment.answer .transaction = .sendFailed
      · -- nothing is posted, as when the price is not numeric
        refine ⟨_, _, .single (.abandon hready), WorkerState.advance_phase_self _ _ _, rfl, ?_, ?_⟩
        · rw [hprepared.transactions_posted, if_pos hsend]
          exact .nil
        · exact hprepared.submissions.symm
      · -- the response is missing, or it is no text
        have hpost : ∃ response, WorkerState.Acts middle worker (.post price response)
            (middle.advance worker (.finished (.error .httpFetchingError))) := by
          cases hbody : (environment.answer .transaction).body? with
          | none => exact ⟨.error .httpFetchingError, .postError hready⟩
          | some body =>
              rw [hbody, Option.bind_some] at hanswer
              exact ⟨.ok body, .postInvalid hready hanswer⟩
        obtain ⟨response, hpost⟩ := hpost
        refine ⟨_, _, .single hpost, WorkerState.advance_phase_self _ _ _, rfl, ?_, ?_⟩
        · rw [hprepared.transactions_posted, if_neg hsend]
          exact .cons ⟨data, hdata, postsCalldata_transactionExchange hestimate data⟩ .nil
        · exact hprepared.submissions.symm
  | @submitted price before data estimate text hprepared hdata hestimate hanswer =>
      refine performs_of_ready hphase hlock hprepared rfl ?_
      intro middle hready
      obtain ⟨body, hbody, htext⟩ := Option.bind_eq_some_iff.mp hanswer
      have hposted : Performs worker middle [.post price (.ok body)] _ :=
        .single (.post hready htext)
      have hsubmitted : Performs worker _ [.submit price environment.poolAccepts] _ :=
        .single (.submit (WorkerState.advance_phase_self middle worker (.posted price)))
      refine ⟨_, _, hposted.append hsubmitted, ?_, rfl, ?_, ?_⟩
      · rw [WorkerState.advance_phase_self]
        cases environment.poolAccepts <;> rfl
      · rw [World.transactions_submit, hprepared.transactions_posted,
          if_neg (Environment.answer_ne_sendFailed hanswer)]
        exact .cons ⟨data, hdata, postsCalldata_transactionExchange hestimate data⟩ .nil
      · change [price] = before.submissions ++ [price]
        rw [hprepared.submissions]
        rfl

end Actions

/-! ## Runs within interleavings -/

/-- After any history of the concurrent workers, a run of the worker that nobody
disturbs continues the history with its own actions. -/
theorem exists_run_updateEthereumPriceWorker {history : List (Label Worker)}
    {state : WorkerState Worker} (hrun : (workers Worker).run history = some state)
    {worker : Worker} (hphase : state.phase worker = .start) {environment : Environment}
    (hlock : environment.lockFree = true ↔ state.lock = none) (call : WorkerCall) :
    let outcome := Run.exec (updateEthereumPriceWorker environment call) (World.start state.info)
    ∃ actions next, (workers Worker).run (history ++ actions.map (Label.act worker)) = some next ∧
      next.phase worker = .ofResult outcome.1 ∧ next.info = outcome.2.info ∧
      (∀ other ≠ worker, next.phase other = state.phase other) ∧
      Accounts environment actions outcome.2 := by
  intro outcome
  obtain ⟨actions, next, hperforms, hresult, hinfo, haccounts⟩ := performs_of_ends hphase hlock
    (ends_updateEthereumPriceWorker environment call state.info)
  refine ⟨actions, next, ?_, hresult, hinfo, fun other => hperforms.phase_of_ne, haccounts⟩
  rw [LabelledSystem.run_append, hrun, Option.bind_some, hperforms.foldlM_step]

/-- Every price that the code of the worker submits is the price of a record
fetched and stored before, or the zero it has read before anything was stored. -/
theorem submission_sourced {history : List (Label Worker)} {state : WorkerState Worker}
    (hrun : (workers Worker).run history = some state) {worker : Worker}
    (hphase : state.phase worker = .start) {environment : Environment}
    (hlock : environment.lockFree = true ↔ state.lock = none) (call : WorkerCall) :
    let world := (Run.exec (updateEthereumPriceWorker environment call) (World.start state.info)).2
    ∃ actions next, (workers Worker).run (history ++ actions.map (Label.act worker)) = some next ∧
      Accounts environment actions world ∧
      ∀ price ∈ world.submissions, ∃ earlier, earlier <+: actions ∧
        Sourced (history ++ earlier.map (Label.act worker)) worker price := by
  intro world
  obtain ⟨actions, next, hnext, -, -, -, haccounts⟩ :=
    exists_run_updateEthereumPriceWorker hrun hphase hlock call
  refine ⟨actions, next, hnext, haccounts, ?_⟩
  intro price hprice
  rw [← haccounts.submitted, List.mem_filterMap] at hprice
  obtain ⟨action, hmem, hsubmitted⟩ := hprice
  obtain ⟨earlier, later, rfl⟩ := List.append_of_mem hmem
  refine ⟨earlier, List.prefix_append _ _, ?_⟩
  -- the submission was enabled after the earlier actions of the run
  rw [List.map_append, List.map_cons, ← List.append_assoc] at hnext
  obtain ⟨current, after, hcurrent, hstep⟩ :=
    (workers Worker).enabled_of_run (Option.isSome_iff_exists.mpr ⟨next, hnext⟩)
  have hpublished : (Label.act worker action).published = some (worker, price) := by
    cases action with
    | submit submitted accepted =>
        cases hsubmitted
        rfl
    | _ => cases hsubmitted
  exact (tracks_of_run hcurrent).sourced_of_published hpublished hstep

end SupraClient.Oracle
