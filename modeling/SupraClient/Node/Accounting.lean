import SupraClient.Node.Pipeline

/-! # Where the prices on the chain come from

The history of a node accounts for every price event of its chain. The price was
put into the pool from elsewhere, or it was in a block of another node, or it
has the whole way behind it: a signed request on the chain, a run of the worker
for the block of the request, a fetched record, a transaction posted to Ethereum,
and a submission that the pool has accepted.
-/

namespace SupraClient.Node

open Frame Scale Concurrency Oracle

variable {AccountId Other Storage : Type}

/-! ## Runs of the workers -/

section Workers

variable {Worker : Type} [DecidableEq Worker] {history : List (Oracle.Label Worker)}
  {state next : WorkerState Worker} {worker : Worker} {action : Action}

theorem phase_eq_of_acts_of_ne (hacts : WorkerState.Acts state worker action next)
    {other : Worker} (hother : other ≠ worker) : next.phase other = state.phase other := by
  cases hacts with
  | unlock | unlockError =>
      rw [WorkerState.advance_phase_of_ne _ hother, WorkerState.release_phase]
  | _ => exact WorkerState.advance_phase_of_ne _ hother _

theorem exists_tryLock_of_start (hacts : WorkerState.Acts state worker action next)
    (hphase : state.phase worker = .start) : ∃ acquired, action = .tryLock acquired := by
  cases hacts with
  | acquire => exact ⟨true, rfl⟩
  | skip => exact ⟨false, rfl⟩
  | fetch hother | fetchError hother | store hother | unlock hother | unlockError hother
  | read hother | post hother hbody | postInvalid hother hbody | postError hother
  | abandon hother | panic hother | submit hother => cases hphase.symm.trans hother

theorem exists_post_of_posted (hacts : WorkerState.Acts state worker action next)
    {price : ByteVec} (hphase : next.phase worker = .posted price) :
    ∃ body, action = .post price (.ok body) := by
  cases hacts with
  | @post _ body =>
      rw [WorkerState.advance_phase_self] at hphase
      cases hphase
      exact ⟨body, rfl⟩
  | _ =>
      rw [WorkerState.advance_phase_self] at hphase
      cases hphase

/-- A run that is about to submit a price has posted it, and was answered. -/
theorem post_mem_of_posted (hrun : (workers Worker).run history = some state) {price : ByteVec}
    (hphase : state.phase worker = .posted price) :
    ∃ body, .act worker (.post price (.ok body)) ∈ history := by
  refine (workers Worker).run_invariant
    (fun history state => state.phase worker = .posted price →
      ∃ body, .act worker (.post price (.ok body)) ∈ history) ?_ ?_ hrun hphase
  · intro hstart
    cases hstart
  · intro history state label next hbefore hstep hposted
    cases label with
    | expire =>
        cases hstep
        obtain ⟨body, hmem⟩ := hbefore hposted
        exact ⟨body, List.mem_append_left _ hmem⟩
    | act actor action =>
        have hacts := WorkerState.acts_of_act hstep
        by_cases hactor : worker = actor
        · subst hactor
          obtain ⟨body, rfl⟩ := exists_post_of_posted hacts hposted
          exact ⟨body, List.mem_append_right _ (List.mem_singleton_self _)⟩
        · rw [phase_eq_of_acts_of_ne hacts hactor] at hposted
          obtain ⟨body, hmem⟩ := hbefore hposted
          exact ⟨body, List.mem_append_left _ hmem⟩

omit [DecidableEq Worker] in
theorem sourced_append {price : ByteVec} (hsourced : Sourced history worker price)
    (later : List (Oracle.Label Worker)) : Sourced (history ++ later) worker price := by
  induction later generalizing history with
  | nil => rwa [List.append_nil]
  | cons label rest ih =>
      rw [List.append_cons]
      exact ih (hsourced.append label)

/-- Every submission of a run has a source, and it was posted before. -/
theorem sourced_and_posted_of_submit (hrun : (workers Worker).run history = some state)
    {price : ByteVec} {accepted : Bool}
    (hsubmit : .act worker (.submit price accepted) ∈ history) :
    Sourced history worker price ∧ ∃ body, .act worker (.post price (.ok body)) ∈ history := by
  obtain ⟨before, after, rfl⟩ := List.append_of_mem hsubmit
  obtain ⟨current, next, hcurrent, hstep⟩ :=
    (workers Worker).enabled_of_run (Option.isSome_iff_exists.mpr ⟨state, hrun⟩)
  have hsourced := (tracks_of_run hcurrent).sourced_of_published rfl hstep
  cases WorkerState.acts_of_act hstep with
  | submit hphase =>
      obtain ⟨body, hmem⟩ := post_mem_of_posted hcurrent hphase
      exact ⟨sourced_append hsourced _, body, List.mem_append_left _ hmem⟩

end Workers

/-! ## Histories -/

def Label.worker? : Label AccountId Other → Option (Oracle.Label BlockNumber)
  | .worker label => some label
  | _ => none

def Label.block? : Label AccountId Other → Option (Runtime.Block AccountId Other)
  | .author block => some block
  | .importBlock block => some block
  | _ => none

/-- The steps of the workers in a history. -/
def workerLabels (history : List (Label AccountId Other)) : List (Oracle.Label BlockNumber) :=
  history.filterMap Label.worker?

/-- The blocks executed in a history. -/
def blocksOf (history : List (Label AccountId Other)) : List (Runtime.Block AccountId Other) :=
  history.filterMap Label.block?

/-- The pool has taken the price from a worker or from elsewhere. -/
def Submitted (history : List (Label AccountId Other)) (price : ByteVec) : Prop :=
  (∃ number, .worker (.act number (.submit price true)) ∈ history) ∨ .outside price ∈ history

/-- The price was in a block of another node. -/
def Imported (history : List (Label AccountId Other)) (price : ByteVec) : Prop :=
  ∃ block, .importBlock block ∈ history ∧ price ∈ block.submissions

theorem Submitted.append {history : List (Label AccountId Other)} {price : ByteVec}
    (hsubmitted : Submitted history price) (label : Label AccountId Other) :
    Submitted (history ++ [label]) price := by
  rcases hsubmitted with ⟨number, hmem⟩ | hmem
  · exact Or.inl ⟨number, List.mem_append_left _ hmem⟩
  · exact Or.inr (List.mem_append_left _ hmem)

theorem Imported.append {history : List (Label AccountId Other)} {price : ByteVec}
    (himported : Imported history price) (label : Label AccountId Other) :
    Imported (history ++ [label]) price := by
  obtain ⟨block, hmem, hprice⟩ := himported
  exact ⟨block, List.mem_append_left _ hmem, hprice⟩

/-- The submissions in the pool: they do not exclude each other, although all of
them provide the same tag with the same priority. -/
structure Orderly (pool : Pool.Queue Tag ByteVec) : Prop where
  consistent : pool.Consistent
  provides : ∀ queued ∈ pool,
    submissionTag ∈ queued.provides ∧ queued.priority = unsignedTxsPriority.toNat

theorem Orderly.filter {pool : Pool.Queue Tag ByteVec} (horderly : Orderly pool)
    (keep : Pool.Transaction Tag ByteVec → Bool) : Orderly (pool.filter keep) :=
  ⟨Pool.Queue.consistent_filter horderly.consistent keep,
    fun queued hmem => horderly.provides queued (List.mem_filter.mp hmem).1⟩

theorem submissionTag_mem_provides (price : ByteVec) :
    submissionTag ∈ (submission price).provides :=
  List.mem_singleton_self _

theorem Orderly.importReady {policy : Pool.Policy Tag ByteVec} {pool next : Pool.Queue Tag ByteVec}
    (horderly : Orderly pool) {price : ByteVec}
    (hnext : policy.importReady pool (submission price) = some next) : Orderly next := by
  refine ⟨policy.consistent_importReady hnext horderly.consistent, fun queued hmem => ?_⟩
  rcases policy.mem_of_importReady hnext hmem with hold | rfl
  · exact horderly.provides queued hold
  · exact ⟨submissionTag_mem_provides price, rfl⟩

/-! ## The history accounts for the state -/

section Appended

variable {history : List (Label AccountId Other)}

theorem workerLabels_concat (label : Label AccountId Other) :
    workerLabels (history ++ [label]) = workerLabels history ++ label.worker?.toList := by
  rw [workerLabels, List.filterMap_append]
  cases label <;> rfl

theorem blocksOf_concat (label : Label AccountId Other) :
    blocksOf (history ++ [label]) = blocksOf history ++ label.block?.toList := by
  rw [blocksOf, List.filterMap_append]
  cases label <;> rfl

theorem mem_workerLabels {label : Oracle.Label BlockNumber} (hmem : .worker label ∈ history) :
    label ∈ workerLabels history :=
  List.mem_filterMap.mpr ⟨.worker label, hmem, rfl⟩

theorem of_mem_workerLabels {label : Oracle.Label BlockNumber}
    (hmem : label ∈ workerLabels history) : .worker label ∈ history := by
  obtain ⟨other, hother, hlabel⟩ := List.mem_filterMap.mp hmem
  cases other with
  | worker inner =>
      cases hlabel
      exact hother
  | _ => cases hlabel

end Appended

variable [DecidableEq AccountId] [Inhabited AccountId] {setup : Setup AccountId Other Storage}
  {history : List (Label AccountId Other)} {state : State AccountId Storage}

/-- The chain is the one of the executed blocks. -/
theorem chain_of_run (hrun : (node setup).run history = some state) :
    Runtime.executeBlocks setup.framework setup.genesis (blocksOf history) = some state.chain := by
  refine (node setup).run_invariant
    (fun history state => Runtime.executeBlocks setup.framework setup.genesis (blocksOf history) =
      some state.chain) rfl ?_ hrun
  intro history state label next hchain hstep
  rw [blocksOf_concat]
  cases steps_of_step hstep with
  | act | submit | outside | discard => simpa [Label.block?] using hchain
  | author hpending hnext | importBlock hnext =>
      rw [Runtime.executeBlocks, Label.block?, Option.toList_some, List.foldlM_append]
      rw [Runtime.executeBlocks] at hchain
      rw [hchain]
      exact foldlM_cons_eq_some_iff.mpr ⟨_, hnext, rfl⟩

/-- The workers took exactly the steps in the history. -/
theorem workers_of_run (hrun : (node setup).run history = some state) :
    (workers BlockNumber).run (workerLabels history) = some state.workers := by
  refine (node setup).run_invariant
    (fun history state => (workers BlockNumber).run (workerLabels history) = some state.workers)
    rfl ?_ hrun
  intro history state label next hworkers hstep
  rw [workerLabels_concat]
  cases steps_of_step hstep with
  | outside | author | importBlock | discard => simpa [Label.worker?] using hworkers
  | act hserves hnext hquiet | submit hnext hpool =>
      rw [Label.worker?, Option.toList_some, LabelledSystem.run_concat, hworkers]
      exact hnext

theorem orderly_of_run (hrun : (node setup).run history = some state) :
    Orderly state.pool := by
  refine (node setup).run_invariant (fun _ state => Orderly state.pool)
    ⟨List.Pairwise.nil, fun _ hmem => by cases hmem⟩ ?_ hrun
  intro history state label next horderly hstep
  cases steps_of_step hstep with
  | act => exact horderly
  | submit hworkers hpool | outside hpool => exact horderly.importReady hpool
  | author | importBlock => exact horderly
  | discard => exact horderly.filter _

/-! ## Requests -/

/-- A signed request for a price was executed in the block with the number. -/
def Requested (setup : Setup AccountId Other Storage) (history : List (Label AccountId Other))
    (number : BlockNumber) : Prop :=
  ∃ who ethHost fromAddress toAddress,
    (.signed who, .updateEthereumPrice ethHost fromAddress toAddress) ∈
      callsIn (Runtime.lightClientBlocks setup.framework setup.genesis (blocksOf history)) number

theorem Requested.append {number : BlockNumber}
    (hrun : (node setup).run history = some state)
    (hrequested : Requested setup history number) (label : Label AccountId Other) :
    Requested setup (history ++ [label]) number := by
  obtain ⟨who, ethHost, fromAddress, toAddress, hmem⟩ := hrequested
  refine ⟨who, ethHost, fromAddress, toAddress, ?_⟩
  rw [blocksOf_concat, Runtime.lightClientBlocks, Runtime.Component.blocks,
    projected_append (chain_of_run hrun), List.map_append, callsIn_append]
  exact List.mem_append_left _ hmem

/-- The blocks of a history do not disturb the pallets. -/
def Undisturbed (setup : Setup AccountId Other Storage) (history : List (Label AccountId Other)) :
    Prop :=
  Runtime.Undisturbed setup.framework setup.genesis (blocksOf history)

theorem Undisturbed.of_concat {label : Label AccountId Other}
    (hundisturbed : Undisturbed setup (history ++ [label])) : Undisturbed setup history := by
  rw [Undisturbed, blocksOf_concat] at hundisturbed
  exact Along.of_append hundisturbed

omit [DecidableEq AccountId] [Inhabited AccountId] in
theorem accepts_of_mem_callsIn {blocks : List (Oracle.Block AccountId)} {number : BlockNumber}
    {extrinsic : Oracle.Extrinsic AccountId} (hmem : extrinsic ∈ callsIn blocks number) :
    accepts extrinsic = true := by
  obtain ⟨block, -, hblock⟩ := List.mem_flatMap.mp hmem
  split at hblock
  next => exact (List.mem_filter.mp hblock).2
  next => cases hblock

/-- If the worker of a block finds something to do, a request was executed. -/
theorem requested_of_offchainWorker {number : BlockNumber}
    (hrun : (node setup).run history = some state) (hundisturbed : Undisturbed setup history)
    (hworker : offchainWorker state.chain.lightClient.store.index number ≠ []) :
    Requested setup history number := by
  obtain ⟨flag, hflag⟩ := (offchainWorker_ne_nil_iff _ _).mp hworker
  rw [Runtime.lightClient_executeBlocks (chain_of_run hrun) hundisturbed] at hflag
  obtain ⟨⟨origin, call⟩, hlast, hrequest⟩ :=
    Option.bind_eq_some_iff.mp ((retrieveFlag_executeBlocks _ number).symm.trans hflag)
  obtain ⟨rfl, -⟩ := (requestOf_eq_some_iff call flag).mp hrequest
  have hmem := List.mem_of_getLast? hlast
  obtain ⟨who, rfl⟩ := exists_signed_of_accepts (accepts_of_mem_callsIn hmem)
  exact ⟨who, _, _, _, hmem⟩

/-- Only its own actions change the phase of a run. -/
theorem phase_eq_or_act {label : Label AccountId Other} {next : State AccountId Storage}
    (hsteps : Steps setup state label next) (number : BlockNumber) :
    next.workers.phase number = state.workers.phase number ∨
      ∃ action, label = .worker (.act number action) := by
  cases hsteps with
  | outside | author | importBlock | discard => exact Or.inl rfl
  | @act label workers hserves hworkers hquiet =>
      cases label with
      | expire =>
          cases hworkers
          exact Or.inl rfl
      | act actor action =>
          by_cases hactor : number = actor
          · subst hactor
            exact Or.inr ⟨action, rfl⟩
          · exact Or.inl (phase_eq_of_acts_of_ne (WorkerState.acts_of_act hworkers) hactor)
  | @submit actor price workers pool hworkers hpool =>
      by_cases hactor : number = actor
      · subst hactor
        exact Or.inr ⟨_, rfl⟩
      · exact Or.inl (phase_eq_of_acts_of_ne (WorkerState.acts_of_act hworkers) hactor)

/-- A run that has not begun yet begins with a request. -/
theorem offchainWorker_ne_nil_of_act {number : BlockNumber} {action : Action}
    {next : State AccountId Storage}
    (hsteps : Steps setup state (.worker (.act number action)) next)
    (hphase : state.workers.phase number = .start) :
    offchainWorker state.chain.lightClient.store.index number ≠ [] := by
  cases hsteps with
  | act hserves hworkers hquiet =>
      obtain ⟨acquired, rfl⟩ :=
        exists_tryLock_of_start (WorkerState.acts_of_act hworkers) hphase
      simpa [State.serves] using hserves
  | submit hworkers hpool =>
      obtain ⟨acquired, htryLock⟩ :=
        exists_tryLock_of_start (WorkerState.acts_of_act hworkers) hphase
      cases htryLock

/-- Whatever a run of the worker does, its block has a request. -/
theorem requested_of_run (hrun : (node setup).run history = some state)
    (hundisturbed : Undisturbed setup history) (number : BlockNumber) :
    (state.workers.phase number ≠ .start → Requested setup history number) ∧
      ∀ action, .worker (.act number action) ∈ history → Requested setup history number := by
  refine (node setup).run_invariant_of_run
    (fun history state => Undisturbed setup history →
      (state.workers.phase number ≠ .start → Requested setup history number) ∧
        ∀ action, .worker (.act number action) ∈ history → Requested setup history number)
    (fun _ => ⟨fun hphase => absurd rfl hphase, fun _ hmem => by cases hmem⟩) ?_ hrun hundisturbed
  intro history state label next hbefore hinvariant hstep hundisturbed
  obtain ⟨hstarted, hacted⟩ := hinvariant hundisturbed.of_concat
  have hsteps := steps_of_step hstep
  have hact : ∀ action, label = .worker (.act number action) →
      Requested setup history number := by
    rintro action rfl
    by_cases hphase : state.workers.phase number = .start
    · exact requested_of_offchainWorker hbefore hundisturbed.of_concat
        (offchainWorker_ne_nil_of_act hsteps hphase)
    · exact hstarted hphase
  constructor
  · intro hphase
    refine Requested.append hbefore ?_ label
    rcases phase_eq_or_act hsteps number with hsame | ⟨action, hlabel⟩
    · exact hstarted (hsame ▸ hphase)
    · exact hact action hlabel
  · intro action hmem
    refine Requested.append hbefore ?_ label
    rcases List.mem_append.mp hmem with hold | hnew
    · exact hacted action hold
    · exact hact action (List.mem_singleton.mp hnew).symm

/-! ## Prices -/

omit [DecidableEq AccountId] [Inhabited AccountId] in
theorem submissionsOf_concat (label : Label AccountId Other) :
    Runtime.submissionsOf (blocksOf (history ++ [label])) =
      Runtime.submissionsOf (blocksOf history) ++
        Runtime.submissionsOf label.block?.toList := by
  rw [blocksOf_concat, Runtime.submissionsOf, List.flatMap_append]
  rfl

omit [DecidableEq AccountId] [Inhabited AccountId] in
theorem forall_mem_submissionsOf_concat {property : ByteVec → Prop} {label : Label AccountId Other}
    (hold : ∀ price ∈ Runtime.submissionsOf (blocksOf history), property price)
    (hnew : ∀ block, label.block? = some block → ∀ price ∈ block.submissions, property price) :
    ∀ price ∈ Runtime.submissionsOf (blocksOf (history ++ [label])), property price := by
  intro price hmem
  rw [submissionsOf_concat] at hmem
  rcases List.mem_append.mp hmem with hbefore | hlast
  · exact hold price hbefore
  · obtain ⟨block, hblock, hprice⟩ := List.mem_flatMap.mp hlast
    exact hnew block (Option.mem_toList.mp hblock) price hprice

/-- The pool and the blocks hold nothing but what was submitted or imported. -/
theorem submitted_of_run (hrun : (node setup).run history = some state) :
    (∀ queued ∈ state.pool, Submitted history queued.payload) ∧
      ∀ price ∈ Runtime.submissionsOf (blocksOf history),
        Submitted history price ∨ Imported history price := by
  refine (node setup).run_invariant
    (fun history state => (∀ queued ∈ state.pool, Submitted history queued.payload) ∧
      ∀ price ∈ Runtime.submissionsOf (blocksOf history),
        Submitted history price ∨ Imported history price)
    ⟨fun _ hmem => (by cases hmem), fun _ hmem => (by cases hmem)⟩ ?_ hrun
  rintro history state label next ⟨hqueued, hblocks⟩ hstep
  have hqueued' : ∀ queued ∈ state.pool, Submitted (history ++ [label]) queued.payload :=
    fun queued hmem => (hqueued queued hmem).append label
  have hblocks' : ∀ price ∈ Runtime.submissionsOf (blocksOf history),
      Submitted (history ++ [label]) price ∨ Imported (history ++ [label]) price :=
    fun price hmem => (hblocks price hmem).imp (·.append label) (·.append label)
  have hlast : label ∈ history ++ [label] := by simp
  cases steps_of_step hstep with
  | act => exact ⟨hqueued', forall_mem_submissionsOf_concat hblocks' nofun⟩
  | discard =>
      exact ⟨fun queued hmem => hqueued' queued (List.mem_filter.mp hmem).1,
        forall_mem_submissionsOf_concat hblocks' nofun⟩
  | submit hworkers hpool =>
      refine ⟨fun queued hmem => ?_, forall_mem_submissionsOf_concat hblocks' nofun⟩
      rcases setup.policy.mem_of_importReady hpool hmem with hold | rfl
      · exact hqueued' queued hold
      · exact Or.inl ⟨_, hlast⟩
  | outside hpool =>
      refine ⟨fun queued hmem => ?_, forall_mem_submissionsOf_concat hblocks' nofun⟩
      rcases setup.policy.mem_of_importReady hpool hmem with hold | rfl
      · exact hqueued' queued hold
      · exact Or.inr hlast
  | @author block chain hpending hchain =>
      refine ⟨hqueued', forall_mem_submissionsOf_concat hblocks' ?_⟩
      rintro _ ⟨⟩ price hprice
      obtain ⟨queued, hpooled, rfl⟩ := List.mem_map.mp (hpending.subset hprice)
      exact Or.inl (hqueued' queued hpooled)
  | @importBlock block chain hchain =>
      refine ⟨hqueued', forall_mem_submissionsOf_concat hblocks' ?_⟩
      rintro _ ⟨⟩ price hprice
      exact Or.inr ⟨block, hlast, hprice⟩

/-- The history of a node accounts for every price event on its chain, as long as
no block disturbs the pallets. Either the price came from elsewhere, into the pool
or in a block; or a run of the worker has submitted it and the pool has accepted it.
Then the run had read the price of a stored record (or the zero that stands for
none), had posted it to Ethereum with an answer, and there was a signed request in
the block the run belongs to. -/
theorem price_events_accounted (setup : Setup AccountId Other Storage)
    (history : List (Label AccountId Other)) (state : State AccountId Storage)
    (hrun : (node setup).run history = some state) (hundisturbed : Undisturbed setup history)
    (price : ByteVec) (hprice : price ∈ Runtime.prices state.chain.lightClient) :
    .outside price ∈ history ∨ Imported history price ∨
      ∃ number, .worker (.act number (.submit price true)) ∈ history ∧
        Sourced (workerLabels history) number price ∧
        (∃ body, .worker (.act number (.post price (.ok body))) ∈ history) ∧
        Requested setup history number := by
  have hprices := Runtime.prices_of_executeBlocks (chain_of_run hrun) hundisturbed
  rw [hprices] at hprice
  rcases (submitted_of_run hrun).2 price hprice with (⟨number, hsubmit⟩ | houtside) | himported
  · obtain ⟨hsourced, body, hpost⟩ :=
      sourced_and_posted_of_submit (workers_of_run hrun) (mem_workerLabels hsubmit)
    exact Or.inr (Or.inr ⟨number, hsubmit, hsourced, ⟨body, of_mem_workerLabels hpost⟩,
      (requested_of_run hrun hundisturbed number).2 _ hsubmit⟩)
  · exact Or.inl houtside
  · exact Or.inr (Or.inl himported)

/-- A framework and a pool for the smallest node. -/
def bareSetup : Setup ℕ Unit Unit where
  framework := .bare ℕ
  policy := .byPriority
  key := 7
  nodes := []

/-- A request in block 1, served by its worker, and the price in block 2. -/
theorem price_event_of_worker :
    let address : ByteVec := ⟨bytesOf "52", by decide⟩
    let price : ByteVec := ⟨bytesOf "1800.25", by decide⟩
    let data : LightClient := ⟨price, ⟨[], by decide⟩⟩
    let history : List (Label ℕ Unit) :=
      [.author ⟨1, [⟨none, .framework ()⟩, .ofSigner 5 0 (.pallet (.lightClient
          (.updateEthereumPrice address address address)))]⟩,
        .worker (.act 1 (.tryLock true)), .worker (.act 1 (.fetchNParse (.ok data))),
        .worker (.act 1 (.store data)), .worker (.act 1 .unlock), .worker (.act 1 (.read price)),
        .worker (.act 1 (.post price (.ok []))), .worker (.act 1 (.submit price true)),
        .author ⟨2, [⟨none, .pallet (.lightClient (.submitEthereumPrice price))⟩]⟩]
    ∃ state, (node bareSetup).run history = some state ∧
      price ∈ Runtime.prices state.chain.lightClient ∧
      ∃ number, Sourced (workerLabels history) number price ∧
        Requested bareSetup history number := by
  intro address price data history
  have hprices : ((node bareSetup).run history).map
      (fun state => Runtime.prices state.chain.lightClient) = some [price] := by
    decide +kernel
  obtain ⟨state, hstate, hevents⟩ := Option.map_eq_some_iff.mp hprices
  have hprice : price ∈ Runtime.prices state.chain.lightClient :=
    hevents ▸ List.mem_singleton_self price
  refine ⟨state, hstate, hprice, ?_⟩
  rcases price_events_accounted bareSetup history state hstate
      (Runtime.undisturbed_bare _ _) price hprice with
    houtside | ⟨block, himport, -⟩ | ⟨number, -, hsourced, -, hrequested⟩
  · simp [history] at houtside
  · simp [history] at himport
  · exact ⟨number, hsourced, hrequested⟩

/-! ## The pool -/

/-- In every run of a node the pool holds at most one submission of a price, and
takes no other one as long as it holds one: the first one wins, whatever its price
and wherever it comes from. A block made by the node has at most one submission. -/
theorem at_most_one_submission_pending (setup : Setup AccountId Other Storage)
    (history : List (Label AccountId Other)) (state : State AccountId Storage)
    (hrun : (node setup).run history = some state) :
    state.pool.length ≤ 1 ∧
      (state.pool ≠ [] → ∀ price, state.submit setup price = none) ∧
      ∀ block next, state.step setup (.author block) = some next →
        block.submissions.length ≤ 1 := by
  have horderly := orderly_of_run hrun
  have hlength : state.pool.length ≤ 1 :=
    Pool.Queue.length_le_one horderly.consistent fun queued hmem =>
      (horderly.provides queued hmem).1
  refine ⟨hlength, fun hpending price => ?_, fun block next hnext => ?_⟩
  · rw [State.submit_eq, Pool.Queue.importReady_eq_none_of_provides setup.policy hpending
      horderly.provides (submissionTag_mem_provides price)]
    rfl
  · cases steps_of_step hnext with
    | author hpending hchain =>
        have hle := hpending.length_le
        rw [List.length_map] at hle
        exact hle.trans hlength

/-- Of two submissions from elsewhere the pool takes the first. -/
theorem second_submission_refused :
    let first : ByteVec := ⟨bytesOf "1800", by decide⟩
    let second : ByteVec := ⟨bytesOf "1900", by decide⟩
    ∃ state, (node bareSetup).run [.outside first] = some state ∧
      state.submit bareSetup second = none := by
  intro first second
  have hsome : ((node bareSetup).run [.outside first]).isSome = true := by decide
  obtain ⟨state, hstate⟩ := Option.isSome_iff_exists.mp hsome
  refine ⟨state, hstate, ?_⟩
  refine (at_most_one_submission_pending bareSetup _ state hstate).2.1 ?_ second
  cases hstate
  exact List.cons_ne_nil _ _

end SupraClient.Node
