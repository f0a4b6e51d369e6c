import SupraClient.Authorization.Connections
import SupraClient.Authorization.EventLog
import SupraClient.Frame.Marking

/-! # Who authorized a connection

Whether a node may connect to a peer can be read off the event log. Either both
are well known, or there is an entry that added the connection, and no later one
has taken it away. Swaps rename nodes in between, so the entry may name the node
differently. Every such entry was deposited by a call of the account that owned
the node at that time.
-/

namespace SupraClient.Authorization

open Frame

variable {AccountId : Type}

/-! ## Marks in the log -/

/-- How events act on the connections, as pairs of a node and a peer. A swap moves
the connections of the nodes but leaves the peers in them. -/
def connectionMarking : Marking (Event AccountId) (PeerId × PeerId) where
  marks
    | .connectionsAdded node connections, (owned, peer) =>
        owned = node ∧ peer ∈ connections ∧ peer ≠ node
    | _, _ => False
  clears
    | .nodeRemoved node, (owned, _) => owned = node
    | .claimRemoved node _, (owned, _) => owned = node
    | .connectionsRemoved node connections, (owned, peer) => owned = node ∧ peer ∈ connections
    | _, _ => False
  source
    | .nodeSwapped remove add, (owned, peer) => (Equiv.swap remove add owned, peer)
    | _, key => key

/-- How events act on the well known nodes. -/
def membershipMarking : Marking (Event AccountId) PeerId where
  marks
    | .nodeAdded node _, other => other = node
    | .nodesReset nodes, other => other ∈ nodes.map Prod.fst
    | _, _ => False
  clears
    | .nodeRemoved node, other => other = node
    | .nodesReset nodes, other => other ∉ nodes.map Prod.fst
    | _, _ => False
  source
    | .nodeSwapped remove add, other => Equiv.swap remove add other
    | _, other => other

theorem mem_connections_evolve (registry : Registry AccountId) (event : Event AccountId)
    (key : PeerId × PeerId) :
    key.2 ∈ (registry.evolve event key.1).connections.getD ∅ ↔
      connectionMarking.marks event key ∨ ¬ connectionMarking.clears event key ∧
        (connectionMarking.source event key).2 ∈
          (registry (connectionMarking.source event key).1).connections.getD ∅ := by
  obtain ⟨owned, peer⟩ := key
  cases event with
  | nodeSwapped remove add => simp [Registry.evolve, connectionMarking]
  | nodesReset nodes => simp [Registry.evolve, connectionMarking]
  | nodeAdded node _ | nodeClaimed node _ | nodeTransferred node _ =>
      -- the owner changes, not the connections
      by_cases heq : owned = node <;> simp [Registry.evolve, connectionMarking, heq]
  | nodeRemoved node =>
      by_cases heq : owned = node <;>
        simp [Registry.evolve, connectionMarking, heq, NodeRecord.vacant]
  | claimRemoved node owner =>
      by_cases heq : owned = node <;> simp [Registry.evolve, connectionMarking, heq]
  | connectionsAdded node connections =>
      by_cases heq : owned = node
      · simp [Registry.evolve, connectionMarking, heq, mem_extendConnections, or_comm]
      · simp [Registry.evolve, connectionMarking, heq]
  | connectionsRemoved node connections =>
      by_cases heq : owned = node
      · simp [Registry.evolve, connectionMarking, heq, mem_reduceConnections, and_comm]
      · simp [Registry.evolve, connectionMarking, heq]

theorem wellKnown_evolve (registry : Registry AccountId) (event : Event AccountId)
    (node : PeerId) :
    (registry.evolve event node).wellKnown ↔
      membershipMarking.marks event node ∨ ¬ membershipMarking.clears event node ∧
        (registry (membershipMarking.source event node)).wellKnown := by
  cases event with
  | nodeSwapped remove add => simp [Registry.evolve, membershipMarking]
  | nodesReset nodes =>
      by_cases hmem : node ∈ nodes.map Prod.fst <;> simp_all [Registry.evolve, membershipMarking]
  | nodeAdded other owner =>
      by_cases heq : node = other <;> simp [Registry.evolve, membershipMarking, heq]
  | nodeRemoved other =>
      by_cases heq : node = other <;>
        simp [Registry.evolve, membershipMarking, heq, NodeRecord.vacant]
  | nodeClaimed other _ | claimRemoved other _ | nodeTransferred other _
  | connectionsAdded other _ | connectionsRemoved other _ =>
      by_cases heq : node = other <;> simp [Registry.evolve, membershipMarking, heq]

/-! ## Reading the log -/

/-- What the log says about the well known nodes: a node was added or listed and
not removed since, or it stands for a node of genesis. -/
def WellKnownIn (nodes : List (PeerId × AccountId)) (events : List (Event AccountId))
    (node : PeerId) : Prop :=
  membershipMarking.Granted events node ∨
    membershipMarking.Keeps events node ∧ membershipMarking.trace events node ∈ nodes.map Prod.fst

/-- Only additions by name mark a connection. -/
theorem exists_of_marks {event : Event AccountId} {key : PeerId × PeerId}
    (hmarks : connectionMarking.marks event key) :
    ∃ connections, event = .connectionsAdded key.1 connections ∧ key.2 ∈ connections := by
  cases event with
  | connectionsAdded node connections =>
      obtain ⟨rfl, hpeer, -⟩ := hmarks
      exact ⟨connections, rfl, hpeer⟩
  | _ => exact hmarks.elim

/-- Renaming concerns the owned node of a connection, never the peer. -/
theorem trace_connection_snd (events : List (Event AccountId)) (key : PeerId × PeerId) :
    (connectionMarking.trace events key).2 = key.2 := by
  induction events with
  | nil => rfl
  | cons event after ih =>
      rw [Marking.trace_cons, ← ih]
      cases event <;> rfl

theorem signed_of_connectionsAdded {config : Config AccountId} {store : Store AccountId}
    {extrinsic : Extrinsic AccountId} {node : PeerId} {connections : List PeerId}
    (hpermits : Permits config store extrinsic (.connectionsAdded node connections)) :
    ∃ who, extrinsic = (.signed who, .addConnections node connections) ∧
      store.owners.tryGet node = some who := by
  cases hpermits with
  | connect hlength howner => exact ⟨_, rfl, howner⟩

variable [DecidableEq AccountId] [Inhabited AccountId]

/-- Every entry of the log of a run was deposited by a call that was permitted
then. -/
theorem exists_permits_of_events {config : Config AccountId} {nodes : List (PeerId × AccountId)}
    {extrinsics : List (Extrinsic AccountId)} {before since : List (Event AccountId)}
    {event : Event AccountId}
    (hevents : (runFrom config nodes extrinsics).events = before ++ event :: since) :
    ∃ done extrinsic rest, extrinsics = done ++ extrinsic :: rest ∧
      (runFrom config nodes done).events = before ∧
      Permits config (runFrom config nodes done).store extrinsic event := by
  have hempty : (genesis nodes).events = [] := by rw [genesis_eq]
  have hdeposited : (Dispatch.run (dispatch config) (genesis nodes) extrinsics).events =
      (genesis nodes).events ++ (before ++ event :: since) := by
    rw [hempty, List.nil_append]
    exact hevents
  obtain ⟨done, extrinsic, rest, hsplit, hdone, hdecide⟩ :=
    (dispatch_implements config).exists_of_deposited hdeposited
  rw [hempty, List.nil_append] at hdone
  exact ⟨done, extrinsic, rest, hsplit, hdone, permits_of_decide hdecide⟩

theorem mem_connections_iff_granted (config : Config AccountId)
    (nodes : List (PeerId × AccountId)) (extrinsics : List (Extrinsic AccountId))
    (node peer : PeerId) :
    peer ∈ (runFrom config nodes extrinsics).store.connections node ↔
      connectionMarking.Granted (runFrom config nodes extrinsics).events (node, peer) := by
  rw [Store.connections_eq, runFrom_record_eq_replay]
  refine (connectionMarking.holds_foldl_iff
    (fun (registry : Registry AccountId) key => key.2 ∈ (registry key.1).connections.getD ∅)
    mem_connections_evolve _ _ (node, peer)).trans ?_
  simp [record_genesis]

theorem mem_wellKnownNodes_iff (config : Config AccountId)
    (nodes : List (PeerId × AccountId)) (extrinsics : List (Extrinsic AccountId))
    (node : PeerId) :
    node ∈ (runFrom config nodes extrinsics).store.wellKnownNodes ↔
      WellKnownIn nodes (runFrom config nodes extrinsics).events node := by
  change ((runFrom config nodes extrinsics).store.record node).wellKnown ↔ _
  rw [runFrom_record_eq_replay]
  refine (membershipMarking.holds_foldl_iff
    (fun (registry : Registry AccountId) node => (registry node).wellKnown)
    wellKnown_evolve _ _ node).trans ?_
  rw [record_genesis]
  rfl

/-- The log tells who may connect to whom. A node may connect to a peer if an
entry has added the connection to the node, under the name it had then, and none
has taken it away since; or if both are well known by the log. -/
theorem authorized_iff_recorded (config : Config AccountId) (nodes : List (PeerId × AccountId))
    (extrinsics : List (Extrinsic AccountId)) (node peer : PeerId) :
    let chain := runFrom config nodes extrinsics
    peer ∈ getAuthorizedNodes chain.store node ↔
      connectionMarking.Granted chain.events (node, peer) ∨
        WellKnownIn nodes chain.events node ∧ WellKnownIn nodes chain.events peer ∧
          peer ≠ node := by
  intro chain
  rw [mem_getAuthorizedNodes, mem_connections_iff_granted, mem_wellKnownNodes_iff,
    mem_wellKnownNodes_iff]

/-- An owner of the node has added the peer: there is a call signed by the account
that owned the node then, perhaps under an earlier name, and the connection has
been kept since. -/
def AddedByOwner (config : Config AccountId) (nodes : List (PeerId × AccountId))
    (extrinsics : List (Extrinsic AccountId)) (node peer : PeerId) : Prop :=
  ∃ done who owned connections rest since,
    extrinsics = done ++ (.signed who, .addConnections owned connections) :: rest ∧
    (runFrom config nodes done).store.owners.tryGet owned = some who ∧
    peer ∈ connections ∧
    (runFrom config nodes extrinsics).events =
      (runFrom config nodes done).events ++ .connectionsAdded owned connections :: since ∧
    connectionMarking.trace since (node, peer) = (owned, peer) ∧
    connectionMarking.Keeps since (node, peer)

theorem addedByOwner_of_mem_connections {config : Config AccountId}
    {nodes : List (PeerId × AccountId)} {extrinsics : List (Extrinsic AccountId)}
    {node peer : PeerId}
    (hmem : peer ∈ (runFrom config nodes extrinsics).store.connections node) :
    AddedByOwner config nodes extrinsics node peer := by
  obtain ⟨before, event, since, hevents, hmarks, hkeeps⟩ :=
    (mem_connections_iff_granted config nodes extrinsics node peer).mp hmem
  obtain ⟨connections, rfl, hpeer⟩ := exists_of_marks hmarks
  rw [trace_connection_snd] at hpeer
  obtain ⟨done, extrinsic, rest, rfl, hdone, hpermits⟩ := exists_permits_of_events hevents
  obtain ⟨who, rfl, howner⟩ := signed_of_connectionsAdded hpermits
  refine ⟨done, who, _, connections, rest, since, rfl, howner, hpeer, ?_,
    Prod.ext rfl (trace_connection_snd since (node, peer)), hkeeps⟩
  rw [hevents, hdone]

/-- A node and a peer that are not both well known may connect only because an
owner of the node has added the peer. -/
theorem connection_added_by_owner (config : Config AccountId) (nodes : List (PeerId × AccountId))
    (extrinsics : List (Extrinsic AccountId)) (node peer : PeerId)
    (hauthorized : peer ∈ getAuthorizedNodes (runFrom config nodes extrinsics).store node)
    (hmesh : ¬ (node ∈ (runFrom config nodes extrinsics).store.wellKnownNodes ∧
      peer ∈ (runFrom config nodes extrinsics).store.wellKnownNodes)) :
    AddedByOwner config nodes extrinsics node peer := by
  rcases (mem_getAuthorizedNodes _ _ _).mp hauthorized with hmem | ⟨hnode, hpeer, -⟩
  · exact addedByOwner_of_mem_connections hmem
  · exact absurd ⟨hnode, hpeer⟩ hmesh

/-- The owner of node 20 adds a connection, and the node is swapped for node 30,
which may then connect to the peer. -/
theorem connection_added_before_swap :
    let extrinsics : List (Extrinsic ℕ) :=
      [(.signed 20, .addConnections (testNode 20) [testNode 5]),
        (.signed 3, .swapWellKnownNode (testNode 20) (testNode 30))]
    AddedByOwner mockConfig [(testNode 20, 20)] extrinsics (testNode 30) (testNode 5) := by
  intro extrinsics
  have hmem : testNode 5 ∈
      (runFrom mockConfig [(testNode 20, 20)] extrinsics).store.connections (testNode 30) := by
    decide
  have hpeer : testNode 5 ∉
      (runFrom mockConfig [(testNode 20, 20)] extrinsics).store.wellKnownNodes := by decide
  exact connection_added_by_owner mockConfig [(testNode 20, 20)] extrinsics (testNode 30)
    (testNode 5) ((mem_getAuthorizedNodes _ _ _).mpr (Or.inl hmem)) fun hboth => hpeer hboth.2

end SupraClient.Authorization
