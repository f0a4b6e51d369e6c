import SupraClient.Authorization.Registry

/-! # Invariants of the registry

An invariant is a condition on single records, checked once for every event a
call may perform. Genesis satisfies it, so it holds after every sequence of
dispatched calls.
-/

namespace SupraClient.Authorization

open Frame

variable {AccountId : Type}

/-! ## Genesis -/

/-- Genesis is a reset of empty storage, with no events. -/
theorem genesis_eq (nodes : List (PeerId × AccountId)) :
    genesis nodes = { store := evolve emptyChain.store (.nodesReset nodes), events := [] } := by
  rw [genesis, exec_initializeNodes]
  rfl

theorem record_genesis (nodes : List (PeerId × AccountId)) (node : PeerId) :
    (genesis nodes).store.record node =
      { wellKnown := node ∈ nodes.map Prod.fst
        owner := lastOwner nodes node
        connections := none } := by
  rw [genesis_eq, record_evolve_reset]
  simp [Registry.evolve, Store.record, emptyChain]

variable [DecidableEq AccountId] [Inhabited AccountId]

/-- A condition on single records that every permitted event preserves, and
that holds of the records of genesis, holds after every sequence of calls. -/
theorem runFrom_record_invariant (config : Config AccountId)
    (holds : PeerId → NodeRecord AccountId → Prop)
    (hevent : ∀ store extrinsic event, Permits config store extrinsic event →
      (∀ node, holds node (store.record node)) →
      ∀ node, holds node (Registry.evolve store.record event node))
    {nodes : List (PeerId × AccountId)}
    (hgenesis : ∀ node, holds node ((genesis nodes).store.record node))
    (extrinsics : List (Extrinsic AccountId)) (node : PeerId) :
    holds node ((runFrom config nodes extrinsics).store.record node) := by
  refine (dispatch_implements config).run_store_invariant
    (fun store => ∀ node, holds node (store.record node)) ?_ hgenesis extrinsics node
  intro store extrinsic event hdecide hstore node
  have hpermits := permits_of_decide hdecide
  change holds node ((evolve store event).record node)
  rw [record_evolve hpermits]
  exact hevent store extrinsic event hpermits hstore node

/-- A successful claim is signed and finds no owner. -/
theorem exec_claimNode_ok {config : Config AccountId} {origin : RawOrigin AccountId}
    {node : PeerId} {chain : Chain AccountId}
    (h : ((dispatch config (origin, .claimNode node)).exec chain).1 = .ok ()) :
    ∃ who, chain.store.owners.tryGet node = none ∧
      (dispatch config (origin, .claimNode node)).exec chain =
        (.ok (), perform chain (.nodeClaimed node who)) := by
  obtain ⟨event, hpermits, hexec⟩ := permits_of_ok h (by simp)
  cases hpermits with
  | claim hlength hfree => exact ⟨_, hfree, hexec⟩

/-! ## Referential integrity -/

/-- A record is accounted for when it has an owner as soon as it says anything. -/
def NodeRecord.Accounted (record : NodeRecord AccountId) : Prop :=
  record.wellKnown ∨ record.connections.isSome → record.owner.isSome

omit [DecidableEq AccountId] [Inhabited AccountId] in
theorem accounted_evolve {config : Config AccountId} {store : Store AccountId}
    {extrinsic : Extrinsic AccountId} {event : Event AccountId}
    (hpermits : Permits config store extrinsic event)
    (hstore : ∀ node, (store.record node).Accounted) (node : PeerId) :
    (Registry.evolve store.record event node).Accounted := by
  have hupdate : ∀ {subject : PeerId} {entry : NodeRecord AccountId}, entry.Accounted →
      (Function.update store.record subject entry node).Accounted :=
    fun hentry => Registry.forall_update (fun _ => NodeRecord.Accounted) hstore hentry node
  cases hpermits with
  | swap horigin hremove hadd hne hmem hnew => exact hstore _
  | reset horigin hcount =>
      rintro (hlisted | hconnections)
      · have hsome := (lastOwner_isSome_iff _ node).mpr hlisted
        exact Option.isSome_or.trans (by rw [hsome, Bool.true_or])
      · have hsome := hstore node (Or.inr hconnections)
        exact Option.isSome_or.trans (by rw [hsome, Bool.or_true])
  | add horigin hlength hcount hnew =>
      exact hupdate (fun _ => rfl)
  | remove horigin hlength hmem =>
      exact hupdate (by simp [NodeRecord.Accounted, NodeRecord.vacant])
  | claim hlength hfree =>
      exact hupdate (fun _ => rfl)
  | unclaim hlength howner hnot =>
      -- the guard against well known nodes is what keeps the record accounted for
      exact hupdate (by simp [NodeRecord.Accounted, Store.record, hnot])
  | transfer hlength howner =>
      exact hupdate (fun _ => rfl)
  | connect hlength howner =>
      exact hupdate (by simp [NodeRecord.Accounted, Store.record, howner])
  | disconnect hlength howner =>
      exact hupdate (by simp [NodeRecord.Accounted, Store.record, howner])

theorem runFrom_accounted (config : Config AccountId) (nodes : List (PeerId × AccountId))
    (extrinsics : List (Extrinsic AccountId)) (node : PeerId) :
    ((runFrom config nodes extrinsics).store.record node).Accounted := by
  refine runFrom_record_invariant config (fun _ record => record.Accounted)
    (fun _ _ _ => accounted_evolve) (fun node => ?_) extrinsics node
  rw [record_genesis]
  rintro (hlisted | hconnections)
  · exact (lastOwner_isSome_iff nodes node).mpr hlisted
  · cases hconnections

/-- Every well known node and every node with a connections entry has an owner
entry, after any genesis list and any sequence of calls. Hence no well known
node can be claimed, and a fresh claim finds no connections left behind. -/
theorem referential_integrity (config : Config AccountId) (nodes : List (PeerId × AccountId))
    (extrinsics : List (Extrinsic AccountId)) :
    let chain := runFrom config nodes extrinsics
    (∀ node ∈ chain.store.wellKnownNodes, chain.store.owners.containsKey node = true) ∧
      (∀ node, chain.store.additionalConnections.containsKey node = true →
        chain.store.owners.containsKey node = true) ∧
      (∀ origin, ∀ node ∈ chain.store.wellKnownNodes,
        ((dispatch config (origin, .claimNode node)).exec chain).1 ≠ .ok ()) ∧
      (∀ origin node, ((dispatch config (origin, .claimNode node)).exec chain).1 = .ok () →
        ((dispatch config (origin, .claimNode node)).exec
          chain).2.store.additionalConnections.tryGet node = none) := by
  intro chain
  have haccounted : ∀ node, (chain.store.record node).Accounted :=
    runFrom_accounted config nodes extrinsics
  refine ⟨fun node hnode => haccounted node (Or.inl hnode),
    fun node hnode => haccounted node (Or.inr hnode), ?_, ?_⟩
  · intro origin node hnode hclaim
    obtain ⟨who, hfree, -⟩ := exec_claimNode_ok hclaim
    have howner := haccounted node (Or.inl hnode)
    rw [Store.record, hfree] at howner
    cases howner
  · intro origin node hclaim
    obtain ⟨who, hfree, hafter⟩ := exec_claimNode_ok hclaim
    rw [hafter]
    change chain.store.additionalConnections.tryGet node = none
    by_contra hconnections
    have howner := haccounted node (Or.inr (Option.ne_none_iff_isSome.mp hconnections))
    rw [Store.record, hfree] at howner
    cases howner

end SupraClient.Authorization
