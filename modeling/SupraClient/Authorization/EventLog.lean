import SupraClient.Authorization.Invariants

/-! # The event log

An observer who knows the genesis nodes and reads nothing but the deposited
events knows the storage: the effect of an event is a function of its payload.
Every successful call leaves exactly one event, with the single exception of
the swap of a node with itself, and failing calls leave none.
-/

namespace SupraClient.Authorization

open Frame

variable {AccountId : Type}

/-- The storage an observer reconstructs from the payloads of events. -/
def replay (store : Store AccountId) (events : List (Event AccountId)) : Store AccountId :=
  events.foldl evolve store

/-- The swap of a node with itself, which is accepted without effect. -/
def Call.IsSelfSwap (call : Call AccountId) : Prop :=
  ∃ node, call = .swapWellKnownNode node node

theorem not_isSelfSwap_of_permits {config : Config AccountId} {store : Store AccountId}
    {extrinsic : Extrinsic AccountId} {event : Event AccountId}
    (hpermits : Permits config store extrinsic event) : ¬ extrinsic.2.IsSelfSwap := by
  rintro ⟨node, hcall⟩
  cases hpermits with
  | swap horigin hremove hadd hne =>
      obtain ⟨rfl, rfl⟩ := Call.swapWellKnownNode.inj hcall
      exact hne rfl
  | _ => cases hcall

variable [DecidableEq AccountId] [Inhabited AccountId]

/-- The log of a run from genesis replays to the storage of the run. -/
theorem runFrom_store_eq_replay (config : Config AccountId) (nodes : List (PeerId × AccountId))
    (extrinsics : List (Extrinsic AccountId)) :
    (runFrom config nodes extrinsics).store =
      replay (genesis nodes).store (runFrom config nodes extrinsics).events := by
  obtain ⟨deposited, hevents, hstore⟩ :=
    (dispatch_implements config).run_replay (genesis nodes) extrinsics
  have hempty : (genesis nodes).events = [] := by rw [genesis_eq]
  rw [hempty, List.nil_append] at hevents
  rw [runFrom, hevents, hstore]
  rfl

/-- The log replays on the registry as well: storage and registry stay in step
along the whole log. -/
theorem runFrom_record_eq_replay (config : Config AccountId) (nodes : List (PeerId × AccountId))
    (extrinsics : List (Extrinsic AccountId)) :
    (runFrom config nodes extrinsics).store.record =
      (runFrom config nodes extrinsics).events.foldl Registry.evolve
        (genesis nodes).store.record := by
  refine Dispatch.run_invariant (dispatch config)
    (fun chain => chain.store.record =
      chain.events.foldl Registry.evolve (genesis nodes).store.record) ?_ ?_ extrinsics
  · intro chain extrinsic hchain
    obtain ⟨error, hexec⟩ | ⟨_, _, -, hexec⟩ | ⟨event, hpermits, hexec⟩ :=
      dispatch_cases config extrinsic chain
    · rwa [hexec]
    · rwa [hexec]
    · rw [hexec, perform, List.foldl_append, ← hchain]
      exact record_evolve hpermits
  · have hempty : (genesis nodes).events = [] := by rw [genesis_eq]
    rw [hempty, List.foldl_nil]

/-- What a call adds to the log. -/
theorem exec_events (config : Config AccountId) (chain : Chain AccountId)
    (extrinsic : Extrinsic AccountId) :
    (∀ error, ((dispatch config extrinsic).exec chain).1 = .error error →
        ((dispatch config extrinsic).exec chain).2 = chain) ∧
      (((dispatch config extrinsic).exec chain).1 = .ok () →
        (¬ extrinsic.2.IsSelfSwap →
          ∃ event, ((dispatch config extrinsic).exec chain).2.events = chain.events ++ [event]) ∧
        (extrinsic.2.IsSelfSwap → ((dispatch config extrinsic).exec chain).2 = chain)) := by
  refine ⟨fun error => (dispatch_implements config).exec_of_error, fun hok => ?_⟩
  obtain ⟨error, hexec⟩ | ⟨origin, node, rfl, hexec⟩ | ⟨event, hpermits, hexec⟩ :=
    dispatch_cases config extrinsic chain
  · rw [hexec] at hok
    cases hok
  · rw [hexec]
    exact ⟨fun hnot => absurd ⟨node, rfl⟩ hnot, fun _ => rfl⟩
  · rw [hexec]
    refine ⟨fun _ => ⟨event, rfl⟩, fun hself => ?_⟩
    exact absurd hself (not_isSelfSwap_of_permits hpermits)

/-- A failing call leaves the storage and the log as they were, so the failing
calls of a run may be deleted from it. -/
theorem failing_calls_change_nothing (config : Config AccountId) :
    (∀ (chain : Chain AccountId) extrinsic error,
        ((dispatch config extrinsic).exec chain).1 = .error error →
          ((dispatch config extrinsic).exec chain).2 = chain) ∧
      ∀ chain extrinsics,
        Dispatch.run (dispatch config) chain extrinsics =
          Dispatch.run (dispatch config) chain
            (Dispatch.succeeded (dispatch config) chain extrinsics) := by
  have hatomic : ∀ (chain : Chain AccountId) extrinsic error,
      ((dispatch config extrinsic).exec chain).1 = .error error →
        ((dispatch config extrinsic).exec chain).2 = chain :=
    fun chain extrinsic error => (dispatch_implements config).exec_of_error
  refine ⟨hatomic, fun chain extrinsics => ?_⟩
  exact (Dispatch.run_succeeded (dispatch config) hatomic chain extrinsics).symm

/-- The event log determines the storage after every sequence of calls, and
every successful call is in it exactly once, swaps of a node with itself apart. -/
theorem eventLog_determines_storage (config : Config AccountId)
    (nodes : List (PeerId × AccountId)) (extrinsics : List (Extrinsic AccountId)) :
    (runFrom config nodes extrinsics).store =
        replay (genesis nodes).store (runFrom config nodes extrinsics).events ∧
      ∀ done extrinsic, done ++ [extrinsic] <+: extrinsics →
        let chain := runFrom config nodes done
        let (result, next) := (dispatch config extrinsic).exec chain
        (∀ error, result = .error error → next = chain) ∧
          (result = .ok () →
            (¬ extrinsic.2.IsSelfSwap → ∃ event, next.events = chain.events ++ [event]) ∧
            (extrinsic.2.IsSelfSwap → next = chain)) :=
  ⟨runFrom_store_eq_replay config nodes extrinsics,
    fun done extrinsic _ => exec_events config (runFrom config nodes done) extrinsic⟩

end SupraClient.Authorization
