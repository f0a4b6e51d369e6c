import SupraClient.Authorization.Invariants

/-! # Stored peer identifiers and their length

Every call that names a node rejects identifiers that are not shorter than the
configured maximum. An identifier that is stored anyway can then be neither
removed nor edited. Only a reset stores identifiers without looking at their
length, so the lists of accepted resets decide whether all stored identifiers
stay manageable.
-/

namespace SupraClient.Authorization

open Frame

variable {AccountId : Type}

/-- The node of a call that is reserved to its owner. -/
def Call.ownedNode : Call AccountId → Option PeerId
  | .removeClaim node | .transferNode node _ | .addConnections node _
  | .removeConnections node _ => some node
  | _ => none

/-- Every stored identifier is short enough; hence every well known node can be
removed, and no owner is rejected because of the identifier. -/
structure Manageable [DecidableEq AccountId] [Inhabited AccountId] (config : Config AccountId)
    (chain : Chain AccountId) : Prop where
  wellKnown_short : ∀ node ∈ chain.store.wellKnownNodes,
    node.bytes.length < config.maxPeerIdLength
  owned_short : ∀ node, chain.store.owners.containsKey node = true →
    node.bytes.length < config.maxPeerIdLength
  removable : ∀ origin, config.removeOrigin origin = true →
    ∀ node ∈ chain.store.wellKnownNodes,
      ((dispatch config (origin, .removeWellKnownNode node)).exec chain).1 = .ok ()
  not_locked_out : ∀ call node who, Call.ownedNode call = some node →
    chain.store.owners.tryGet node = some who →
    ((dispatch config (.signed who, call)).exec chain).1 ≠ .error (.module .peerIdTooLong)

/-- A stored identifier is shorter than the configured maximum. -/
def NodeRecord.Short (config : Config AccountId) (node : PeerId)
    (record : NodeRecord AccountId) : Prop :=
  record.wellKnown ∨ record.owner.isSome → node.bytes.length < config.maxPeerIdLength

/-- An accepted reset lists short identifiers only. Other calls are not
restricted. -/
def ResetsShort (config : Config AccountId) : Extrinsic AccountId → Prop
  | (origin, .resetWellKnownNodes nodes) =>
      config.resetOrigin origin = true → nodes.length < config.maxWellKnownNodes →
        ∀ entry ∈ nodes, entry.1.bytes.length < config.maxPeerIdLength
  | _ => True

/-- A reset keeps stored identifiers short exactly when its list is short. -/
theorem forall_short_reset_iff {config : Config AccountId} {registry : Registry AccountId}
    (hshort : ∀ node, (registry node).Short config node) (nodes : List (PeerId × AccountId)) :
    (∀ node, (registry.evolve (.nodesReset nodes) node).Short config node) ↔
      ∀ entry ∈ nodes, entry.1.bytes.length < config.maxPeerIdLength := by
  constructor
  · intro hreset entry hentry
    exact hreset entry.1 (Or.inl (List.mem_map_of_mem hentry))
  · intro hlist node hstored
    by_cases hlisted : node ∈ nodes.map Prod.fst
    · obtain ⟨entry, hentry, rfl⟩ := List.mem_map.mp hlisted
      exact hlist entry hentry
    · -- an unlisted node keeps its owner and nothing else
      refine hshort node (Or.inr ?_)
      have hnone := (lastOwner_eq_none_iff nodes node).mpr hlisted
      have howner : ((lastOwner nodes node).or (registry node).owner).isSome :=
        hstored.resolve_left hlisted
      rwa [hnone, Option.none_or] at howner

theorem short_evolve_iff {config : Config AccountId} {store : Store AccountId}
    {extrinsic : Extrinsic AccountId} {event : Event AccountId}
    (hpermits : Permits config store extrinsic event)
    (hshort : ∀ node, (store.record node).Short config node) :
    (∀ node, ((evolve store event).record node).Short config node) ↔
      ResetsShort config extrinsic := by
  rw [record_evolve hpermits]
  have hupdate : ∀ {node : PeerId} {entry : NodeRecord AccountId}, entry.Short config node →
      ∀ other, (Function.update store.record node entry other).Short config other :=
    Registry.forall_update (fun node record => record.Short config node) hshort
  cases hpermits with
  | reset horigin hcount =>
      refine (forall_short_reset_iff hshort _).trans ⟨fun hlist _ _ => hlist, fun hlist => ?_⟩
      exact hlist horigin hcount
  | swap horigin hremove hadd hne hmem hnew =>
      refine iff_of_true (fun node => ?_) trivial
      rw [Registry.evolve, Function.comp_apply, Equiv.swap_apply_def]
      split
      next heq => exact fun _ => heq ▸ hremove
      next =>
        split
        next heq => exact fun _ => heq ▸ hadd
        next => exact hshort node
  | add horigin hlength hcount hnew => exact iff_of_true (hupdate fun _ => hlength) trivial
  | remove horigin hlength hmem => exact iff_of_true (hupdate fun _ => hlength) trivial
  | claim hlength hfree => exact iff_of_true (hupdate fun _ => hlength) trivial
  | unclaim hlength howner hnot => exact iff_of_true (hupdate fun _ => hlength) trivial
  | transfer hlength howner => exact iff_of_true (hupdate fun _ => hlength) trivial
  | connect hlength howner => exact iff_of_true (hupdate fun _ => hlength) trivial
  | disconnect hlength howner => exact iff_of_true (hupdate fun _ => hlength) trivial

variable [DecidableEq AccountId] [Inhabited AccountId]

/-- The owner of a short identifier gets past the length, presence and owner
guards; only a well known node is refused, and not because of its length. -/
theorem exec_removeClaim_of_owner {config : Config AccountId} {chain : Chain AccountId}
    {node : PeerId} {who : AccountId} (hlength : node.bytes.length < config.maxPeerIdLength)
    (howner : chain.store.owners.tryGet node = some who) :
    ((dispatch config (.signed who, .removeClaim node)).exec chain).1 =
      if node ∈ chain.store.wellKnownNodes then .error (.module .permissionDenied) else .ok () := by
  obtain ⟨hpresent, hget⟩ := (owner_guards_iff chain.store node who).mpr howner
  rw [dispatch_implements config, decider_step]
  by_cases hmem : node ∈ chain.store.wellKnownNodes
  · simp [guards, ownerGuards, lengthGuard, Decider.guardedStep, hlength, hpresent, hget, hmem]
  · simp [guards, ownerGuards, lengthGuard, Decider.guardedStep, hlength, hpresent, hget, hmem]

theorem exec_owned_ne_peerIdTooLong {config : Config AccountId} {chain : Chain AccountId}
    {call : Call AccountId} {node : PeerId} {who : AccountId}
    (hcall : Call.ownedNode call = some node)
    (hlength : node.bytes.length < config.maxPeerIdLength)
    (howner : chain.store.owners.tryGet node = some who) :
    ((dispatch config (.signed who, call)).exec chain).1 ≠ .error (.module .peerIdTooLong) := by
  cases call with
  | removeClaim _ =>
      cases hcall
      rw [exec_removeClaim_of_owner hlength howner]
      split <;> simp
  | transferNode _ owner =>
      cases hcall
      rw [exec_of_permits (.transfer hlength howner)]
      simp
  | addConnections _ connections =>
      cases hcall
      rw [exec_of_permits (.connect hlength howner)]
      simp
  | removeConnections _ connections =>
      cases hcall
      rw [exec_of_permits (.disconnect hlength howner)]
      simp
  | addWellKnownNode _ _ => cases hcall
  | removeWellKnownNode _ => cases hcall
  | swapWellKnownNode _ _ => cases hcall
  | resetWellKnownNodes _ => cases hcall
  | claimNode _ => cases hcall

theorem manageable_iff (config : Config AccountId) (chain : Chain AccountId) :
    Manageable config chain ↔ ∀ node, (chain.store.record node).Short config node := by
  constructor
  · rintro hmanageable node (hwellKnown | howned)
    · exact hmanageable.wellKnown_short node hwellKnown
    · exact hmanageable.owned_short node howned
  · intro hshort
    refine ⟨fun node hnode => hshort node (Or.inl hnode),
      fun node hnode => hshort node (Or.inr hnode), ?_, ?_⟩
    · intro origin horigin node hnode
      rw [exec_of_permits (.remove horigin (hshort node (Or.inl hnode)) hnode)]
    · intro call node who hcall howner
      have hlength := hshort node (Or.inr (Option.isSome_iff_exists.mpr ⟨who, howner⟩))
      exact exec_owned_ne_peerIdTooLong hcall hlength howner

omit [DecidableEq AccountId] [Inhabited AccountId] in
theorem short_genesis {config : Config AccountId} {nodes : List (PeerId × AccountId)}
    (hnodes : ∀ entry ∈ nodes, entry.1.bytes.length < config.maxPeerIdLength) (node : PeerId) :
    ((genesis nodes).store.record node).Short config node := by
  intro hstored
  rw [record_genesis] at hstored
  have hlisted : node ∈ nodes.map Prod.fst :=
    hstored.elim id (fun howned => (lastOwner_isSome_iff nodes node).mp howned)
  obtain ⟨entry, hentry, rfl⟩ := List.mem_map.mp hlisted
  exact hnodes entry hentry

/-- From a genesis list of short identifiers, all stored identifiers stay
manageable all along a run exactly when its accepted resets list short
identifiers only. -/
theorem manageable_run_iff (config : Config AccountId) (nodes : List (PeerId × AccountId))
    (hnodes : ∀ entry ∈ nodes, entry.1.bytes.length < config.maxPeerIdLength)
    (extrinsics : List (Extrinsic AccountId)) :
    (∀ done, done <+: extrinsics → Manageable config (runFrom config nodes done)) ↔
      ∀ extrinsic ∈ extrinsics, ResetsShort config extrinsic := by
  have hiff := (dispatch_implements config).run_store_always_iff
    (fun store => ∀ node, (store.record node).Short config node)
    (fun _ extrinsic => ResetsShort config extrinsic) ?_ ?_ (short_genesis hnodes) extrinsics
  · simp only [manageable_iff]
    refine hiff.trans ⟨fun hguards extrinsic hmem => ?_, fun hguards done extrinsic hinitial => ?_⟩
    · obtain ⟨before, after, rfl⟩ := List.mem_iff_append.mp hmem
      exact hguards before extrinsic ⟨after, by simp⟩
    · exact hguards extrinsic (hinitial.subset (by simp))
  · rintro store ⟨origin, call⟩ hidle
    cases call with
    | resetWellKnownNodes list =>
        intro horigin hcount
        exact absurd (decide_of_permits (.reset horigin hcount)) (hidle _)
    | _ => trivial
  · intro store extrinsic event hdecide hshort
    exact short_evolve_iff (permits_of_decide hdecide) hshort

/-- A reset of the mock runtime to a one-byte identifier, after a swap. -/
theorem manageable_mock_run :
    (∀ entry ∈ [(testNode 10, 10)], entry.1.bytes.length < mockConfig.maxPeerIdLength) ∧
      ∀ done, done <+: [(.signed 3, .swapWellKnownNode (testNode 10) (testNode 20)),
          (.signed 4, .resetWellKnownNodes [(testNode 15, 15)])] →
        Manageable mockConfig (runFrom mockConfig [(testNode 10, 10)] done) := by
  refine ⟨by decide, (manageable_run_iff mockConfig [(testNode 10, 10)] (by decide) _).mpr ?_⟩
  intro extrinsic hmem
  rcases List.mem_pair.mp hmem with rfl | rfl
  · trivial
  · intro _ _
    decide

/-- An accepted reset stores a three-byte identifier where two bytes are already
too long. The identifier can then not be removed, and its owner is locked out of
the calls reserved to them. -/
theorem manageable_fails_on_reset :
    let long : PeerId := ⟨[1, 2, 3]⟩
    let chain := runFrom mockConfig [(testNode 10, 10)]
      [(.signed 4, .resetWellKnownNodes [(long, 7)])]
    ¬ Manageable mockConfig chain ∧
      long ∈ chain.store.wellKnownNodes ∧
      ((dispatch mockConfig (.signed 2, .removeWellKnownNode long)).exec chain).1 =
        .error (.module .peerIdTooLong) ∧
      ((dispatch mockConfig (.signed 7, .transferNode long 8)).exec chain).1 =
        .error (.module .peerIdTooLong) := by
  intro long chain
  have hmem : long ∈ chain.store.wellKnownNodes := by decide
  refine ⟨fun hmanageable => ?_, hmem, by decide, by decide⟩
  exact absurd (hmanageable.wellKnown_short long hmem) (by decide)

end SupraClient.Authorization
