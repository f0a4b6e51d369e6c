import SupraClient.Authorization.Attribution
import SupraClient.Concurrency.LabelledSystem
import SupraClient.Scale.Codec

/-! # The network of authorized nodes

For every block it has imported, a node runs a worker that asks its own network for
the peer identifier of the node, and tells it which peers are authorized, and that
no others are. Every node imports blocks at its own pace. The workers of its blocks
run beside the import and beside each other, in any order, and the question may
fail. So at any time the list of a node may be that of an earlier block.

A link needs both sides: a node that admits authorized peers only neither dials
nor accepts others. Such links are consented: either both nodes were well known,
or the owner of each has added the other.
-/

namespace SupraClient.Authorization

open Frame Scale Concurrency

variable {AccountId : Type}

/-- The identity of a node: the bytes of its peer identifier. -/
abbrev Identity := ByteVec

def Identity.peerId (identity : Identity) : PeerId := ⟨identity.bytes⟩

/-- What the off-chain worker tells the network: the authorized nodes, and whether
only those are to be admitted. It says nothing if the state of the network cannot
be obtained, or the peer identifier in it cannot be decoded. -/
def offchainWorker (store : Store AccountId) (networkState : Option Bytes) :
    Option (List PeerId × Bool) :=
  match networkState with
  | none => none
  | some encodedPeer =>
      match byteVec.read encodedPeer with
      | none => none
      | some node => some (getAuthorizedNodes store ⟨node.bytes⟩, true)

/-- The answer of the network of a node, if there is one: the encoding of the
bytes of its peer identifier. -/
def networkState (identity : Identity) (available : Bool) : Option Bytes :=
  if available then some (byteVec.encode identity) else none

/-! ## Nodes that follow a chain -/

/-- The blocks of the chain, how many of them each node has imported, and what the
network of each node was told last. -/
structure NetworkState (AccountId : Type) where
  blocks : List (List (Extrinsic AccountId))
  imported : Identity → ℕ
  authorized : Identity → Option (List PeerId × Bool)

/-- A node admits a peer unless it was told to admit others only. -/
def NetworkState.Admits (state : NetworkState AccountId) (node : Identity) (peer : PeerId) :
    Prop :=
  ∀ peers, state.authorized node = some (peers, true) → peer ∈ peers

/-- Two nodes can have a link if each admits the other. -/
def NetworkState.Linked (state : NetworkState AccountId) (left right : Identity) : Prop :=
  state.Admits left right.peerId ∧ state.Admits right left.peerId

inductive NetworkLabel (AccountId : Type) where
  /-- The chain grows by a block. -/
  | extend (block : List (Extrinsic AccountId))
  /-- A node imports the next block. -/
  | importBlock (node : Identity)
  /-- The worker of one of the blocks that a node has imported runs. -/
  | worker (node : Identity) (count : ℕ) (available : Bool)

/-- The block whose worker was the last to tell something to the network of a
node. -/
def lastTold (history : List (NetworkLabel AccountId)) (node : Identity) : Option ℕ :=
  (history.filterMap fun
    | .worker other count available => if other = node ∧ available then some count else none
    | _ => none).getLast?

/-- The network of the node was last told something by the worker of the last
block. -/
def Current (history : List (NetworkLabel AccountId)) (state : NetworkState AccountId)
    (node : Identity) : Prop :=
  lastTold history node = some state.blocks.length

variable [DecidableEq AccountId] [Inhabited AccountId]

/-- The chain after the first blocks. -/
def chainAt (config : Config AccountId) (nodes : List (PeerId × AccountId))
    (blocks : List (List (Extrinsic AccountId))) (count : ℕ) : Chain AccountId :=
  runFrom config nodes (blocks.take count).flatten

namespace NetworkState

def importBlock (state : NetworkState AccountId) (node : Identity) : NetworkState AccountId :=
  { state with imported := Function.update state.imported node (state.imported node + 1) }

/-- The worker of a block sees the state after the block. -/
def runWorker (config : Config AccountId) (nodes : List (PeerId × AccountId))
    (state : NetworkState AccountId) (node : Identity) (count : ℕ) (available : Bool) :
    NetworkState AccountId :=
  let chain := chainAt config nodes state.blocks count
  { state with
    authorized := Function.update state.authorized node
      ((offchainWorker chain.store (networkState node available)).or (state.authorized node)) }

def step (config : Config AccountId) (nodes : List (PeerId × AccountId))
    (state : NetworkState AccountId) : NetworkLabel AccountId → Option (NetworkState AccountId)
  | .extend block => some { state with blocks := state.blocks ++ [block] }
  | .importBlock node =>
      if state.imported node < state.blocks.length then some (state.importBlock node) else none
  | .worker node count available =>
      if 0 < count ∧ count ≤ state.imported node then
        some (state.runWorker config nodes node count available)
      else none

end NetworkState

/-- All interleavings of the growth of the chain and of the nodes that follow it. -/
def network (config : Config AccountId) (nodes : List (PeerId × AccountId)) :
    LabelledSystem (NetworkState AccountId) (NetworkLabel AccountId) where
  initial := { blocks := [], imported := fun _ => 0, authorized := fun _ => none }
  step := NetworkState.step config nodes

/-! ## What nodes are told -/

omit [DecidableEq AccountId] [Inhabited AccountId] in
/-- The node asks about itself, since it can decode its own identity. -/
theorem offchainWorker_networkState (store : Store AccountId) (node : Identity)
    (available : Bool) :
    offchainWorker store (networkState node available) =
      if available then some (getAuthorizedNodes store node.peerId, true) else none := by
  cases available with
  | false => rfl
  | true =>
      simp only [offchainWorker, networkState, if_true, Codec.read_encode]
      rfl

variable {config : Config AccountId} {nodes : List (PeerId × AccountId)}

/-- A block does not change what the chain was before. -/
theorem chainAt_concat {blocks : List (List (Extrinsic AccountId))} {count : ℕ}
    (hcount : count ≤ blocks.length) (block : List (Extrinsic AccountId)) :
    chainAt config nodes (blocks ++ [block]) count = chainAt config nodes blocks count := by
  rw [chainAt, List.take_append_of_le_length hcount, chainAt]

/-- What a node is told at some block of the chain. -/
def toldAt (config : Config AccountId) (nodes : List (PeerId × AccountId))
    (blocks : List (List (Extrinsic AccountId))) (node : Identity) (count : ℕ) :
    List PeerId × Bool :=
  (getAuthorizedNodes (chainAt config nodes blocks count).store node.peerId, true)

/-- Every node was told what the chain said after a block it has imported, and the
history says which block that was. -/
structure Follows (config : Config AccountId) (nodes : List (PeerId × AccountId))
    (history : List (NetworkLabel AccountId)) (state : NetworkState AccountId) : Prop where
  imported_le : ∀ node, state.imported node ≤ state.blocks.length
  told : ∀ node, state.authorized node =
    (lastTold history node).map (toldAt config nodes state.blocks node)
  told_le : ∀ node count, lastTold history node = some count → count ≤ state.imported node

section LastTold

omit [DecidableEq AccountId] [Inhabited AccountId]

variable (history : List (NetworkLabel AccountId))

theorem lastTold_extend (block : List (Extrinsic AccountId)) (node : Identity) :
    lastTold (history ++ [.extend block]) node = lastTold history node := by
  simp [lastTold, List.filterMap_append]

theorem lastTold_importBlock (node other : Identity) :
    lastTold (history ++ [.importBlock node]) other = lastTold history other := by
  simp [lastTold, List.filterMap_append]

theorem lastTold_worker (node other : Identity) (count : ℕ) (available : Bool) :
    lastTold (history ++ [.worker node count available]) other =
      if node = other ∧ available then some count else lastTold history other := by
  by_cases htold : node = other ∧ available = true <;>
    simp [lastTold, List.filterMap_append, htold]

end LastTold

theorem Follows.extend {history : List (NetworkLabel AccountId)}
    {state : NetworkState AccountId} (hfollows : Follows config nodes history state)
    (block : List (Extrinsic AccountId)) :
    Follows config nodes (history ++ [.extend block])
      { state with blocks := state.blocks ++ [block] } := by
  refine ⟨fun node => ?_, fun node => ?_, fun node count hcount => ?_⟩
  · rw [List.length_append]
    exact (hfollows.imported_le node).trans (Nat.le_add_right _ _)
  · rw [lastTold_extend, hfollows.told node]
    refine Option.map_congr fun count hcount => ?_
    rw [toldAt, toldAt, chainAt_concat
      ((hfollows.told_le node count hcount).trans (hfollows.imported_le node))]
  · rw [lastTold_extend] at hcount
    exact hfollows.told_le node count hcount

theorem Follows.importBlock {history : List (NetworkLabel AccountId)}
    {state : NetworkState AccountId} (hfollows : Follows config nodes history state)
    {node : Identity} (hbehind : state.imported node < state.blocks.length) :
    Follows config nodes (history ++ [.importBlock node]) (state.importBlock node) := by
  have himported : ∀ other, state.imported other ≤ (state.importBlock node).imported other := by
    intro other
    by_cases heq : other = node
    · subst heq
      simp [NetworkState.importBlock]
    · simp [NetworkState.importBlock, heq]
  refine ⟨fun other => ?_, fun other => ?_, fun other count hcount => ?_⟩
  · by_cases heq : other = node
    · subst other
      simpa [NetworkState.importBlock] using Nat.succ_le_of_lt hbehind
    · simpa [NetworkState.importBlock, heq] using hfollows.imported_le other
  · rw [lastTold_importBlock]
    exact hfollows.told other
  · rw [lastTold_importBlock] at hcount
    exact (hfollows.told_le other count hcount).trans (himported other)

theorem Follows.worker {history : List (NetworkLabel AccountId)}
    {state : NetworkState AccountId} (hfollows : Follows config nodes history state)
    {node : Identity} {count : ℕ} (himported : count ≤ state.imported node) (available : Bool) :
    Follows config nodes (history ++ [.worker node count available])
      (state.runWorker config nodes node count available) := by
  refine ⟨hfollows.imported_le, fun other => ?_, fun other told htold => ?_⟩
  · rw [lastTold_worker]
    by_cases heq : other = node
    · subst heq
      simp only [NetworkState.runWorker, Function.update_self, offchainWorker_networkState]
      cases available with
      | true => simp [toldAt]
      | false => simpa using hfollows.told other
    · simp only [NetworkState.runWorker, Function.update_of_ne heq, Ne.symm heq, false_and,
        if_false]
      exact hfollows.told other
  · rw [lastTold_worker] at htold
    split at htold
    next hworker =>
      cases htold
      exact hworker.1 ▸ himported
    next => exact hfollows.told_le other told htold

theorem follows_of_run {history : List (NetworkLabel AccountId)}
    {state : NetworkState AccountId} (hrun : (network config nodes).run history = some state) :
    Follows config nodes history state := by
  refine (network config nodes).run_invariant (Follows config nodes) ?_ ?_ hrun
  · exact ⟨fun _ => le_rfl, fun _ => rfl, fun _ _ htold => by cases htold⟩
  · intro history state label next hfollows hstep
    cases label with
    | extend block =>
        cases hstep
        exact hfollows.extend block
    | importBlock node =>
        simp only [network, NetworkState.step] at hstep
        split at hstep
        next hbehind =>
          cases hstep
          exact hfollows.importBlock hbehind
        next => cases hstep
    | worker node count available =>
        simp only [network, NetworkState.step] at hstep
        split at hstep
        next hcount =>
          cases hstep
          exact hfollows.worker hcount.2 available
        next => cases hstep

/-! ## Links -/

theorem admits_iff_of_current {history : List (NetworkLabel AccountId)}
    {state : NetworkState AccountId} (hrun : (network config nodes).run history = some state)
    {node : Identity} (hcurrent : Current history state node) (peer : PeerId) :
    state.Admits node peer ↔
      peer ∈ getAuthorizedNodes (runFrom config nodes state.blocks.flatten).store node.peerId := by
  have hauthorized := (follows_of_run hrun).told node
  rw [hcurrent, Option.map_some, toldAt, chainAt, List.take_length] at hauthorized
  rw [NetworkState.Admits, hauthorized]
  simp

/-- At a block that the node has imported, the node and the peer were well known,
or an owner of the node had added the peer. -/
def Consents (config : Config AccountId) (nodes : List (PeerId × AccountId))
    (state : NetworkState AccountId) (node peer : Identity) : Prop :=
  ∃ count ≤ state.imported node,
    (node.peerId ∈ (chainAt config nodes state.blocks count).store.wellKnownNodes ∧
        peer.peerId ∈ (chainAt config nodes state.blocks count).store.wellKnownNodes) ∨
      AddedByOwner config nodes (state.blocks.take count).flatten node.peerId peer.peerId

theorem consents_of_admits {history : List (NetworkLabel AccountId)}
    {state : NetworkState AccountId} (hrun : (network config nodes).run history = some state)
    {node peer : Identity} (hadmits : state.Admits node peer.peerId)
    (htold : state.authorized node ≠ none) : Consents config nodes state node peer := by
  have hfollows := follows_of_run hrun
  obtain ⟨told, hauthorized⟩ := Option.ne_none_iff_exists'.mp htold
  obtain ⟨count, hcount, rfl⟩ := Option.map_eq_some_iff.mp ((hfollows.told node).symm.trans
    hauthorized)
  refine ⟨count, hfollows.told_le node count hcount, ?_⟩
  rcases (mem_getAuthorizedNodes _ _ _).mp (hadmits _ hauthorized) with
    hmem | ⟨hnode, hpeer, -⟩
  · exact Or.inr (addedByOwner_of_mem_connections hmem)
  · exact Or.inl ⟨hnode, hpeer⟩

/-- Links are consented, on whatever blocks the two nodes are and however often
their workers have failed: each of the nodes that was told anything has imported
a block at which both were well known, or its own owner had added the other. -/
theorem links_consented (config : Config AccountId) (nodes : List (PeerId × AccountId))
    (history : List (NetworkLabel AccountId)) (state : NetworkState AccountId)
    (hrun : (network config nodes).run history = some state) (left right : Identity)
    (hlinked : state.Linked left right) :
    (state.authorized left ≠ none → Consents config nodes state left right) ∧
      (state.authorized right ≠ none → Consents config nodes state right left) :=
  ⟨consents_of_admits hrun hlinked.1, consents_of_admits hrun hlinked.2⟩

/-- A well known node and a node that its owner has connected to it, the other way
round as well. -/
theorem links_consented_of_claimed :
    let left : Identity := ⟨[1], by decide⟩
    let right : Identity := ⟨[2], by decide⟩
    let nodes := [(left.peerId, 1)]
    let block : List (Extrinsic ℕ) := [(.signed 2, .claimNode right.peerId),
      (.signed 2, .addConnections right.peerId [left.peerId]),
      (.signed 1, .addConnections left.peerId [right.peerId])]
    let history : List (NetworkLabel ℕ) := [.extend block, .importBlock right,
      .importBlock left, .worker right 1 true, .worker left 1 true]
    ∃ state, (network mockConfig nodes).run history = some state ∧
      Consents mockConfig nodes state left right ∧ Consents mockConfig nodes state right left := by
  intro left right nodes block history
  have hsome : ((network mockConfig nodes).run history).isSome = true := rfl
  obtain ⟨state, hstate⟩ := Option.isSome_iff_exists.mp hsome
  have hblocks : state.blocks = [block] := by
    cases hstate
    rfl
  have hcurrent : ∀ node ∈ [left, right], Current history state node := by
    intro node hnode
    rw [Current, hblocks]
    rcases List.mem_pair.mp hnode with rfl | rfl <;> rfl
  have htold : ∀ node ∈ [left, right], state.authorized node ≠ none := by
    intro node hnode
    rw [(follows_of_run hstate).told node, hcurrent node hnode]
    exact Option.some_ne_none _
  have hlinked : state.Linked left right := by
    refine ⟨(admits_iff_of_current hstate (hcurrent left (by simp)) _).mpr ?_,
      (admits_iff_of_current hstate (hcurrent right (by simp)) _).mpr ?_⟩ <;>
    · rw [hblocks, mem_getAuthorizedNodes]
      exact Or.inl (by decide)
  obtain ⟨hconsents, hconsents'⟩ :=
    links_consented mockConfig nodes history state hstate left right hlinked
  exact ⟨state, hstate, hconsents (htold left (by simp)), hconsents' (htold right (by simp))⟩

/-- A node without an owner is authorized for nothing: it is not well known and has
no connections. -/
theorem notMem_getAuthorizedNodes_of_unowned {extrinsics : List (Extrinsic AccountId)}
    {node : PeerId} (howner : (runFrom config nodes extrinsics).store.owners.tryGet node = none)
    (peer : PeerId) : peer ∉ getAuthorizedNodes (runFrom config nodes extrinsics).store node := by
  have hnothing : ¬ (node ∈ (runFrom config nodes extrinsics).store.wellKnownNodes ∨
      ((runFrom config nodes extrinsics).store.additionalConnections.tryGet node).isSome) := by
    intro hsays
    have hsome := runFrom_accounted config nodes extrinsics node hsays
    rw [Store.record, howner] at hsome
    cases hsome
  obtain ⟨hwellKnown, hconnections⟩ := not_or.mp hnothing
  rw [mem_getAuthorizedNodes, Store.connections_eq]
  rintro (hmem | ⟨hmem, -⟩)
  · rw [Store.record, Option.not_isSome_iff_eq_none.mp hconnections] at hmem
    exact Finset.notMem_empty peer hmem
  · exact hwellKnown hmem

/-- Two nodes whose networks were told of the last block can have a link exactly
when they are different well known nodes, or each is among the connections of the
other. So the well known nodes form a full mesh, a connection entered on one side
only has no effect, and a node without an owner is cut off. -/
theorem current_links_iff (config : Config AccountId) (nodes : List (PeerId × AccountId))
    (history : List (NetworkLabel AccountId)) (state : NetworkState AccountId)
    (hrun : (network config nodes).run history = some state) (left right : Identity)
    (hleft : Current history state left) (hright : Current history state right) :
    let store := (runFrom config nodes state.blocks.flatten).store
    (state.Linked left right ↔
        (left.peerId ∈ store.wellKnownNodes ∧ right.peerId ∈ store.wellKnownNodes ∧
            left ≠ right) ∨
          (right.peerId ∈ store.connections left.peerId ∧
            left.peerId ∈ store.connections right.peerId)) ∧
      (store.owners.tryGet left.peerId = none → ¬ state.Linked left right) := by
  intro store
  have hpeerId : left.peerId = right.peerId ↔ left = right :=
    ⟨fun heq => ByteVec.ext (PeerId.mk.inj heq), congrArg Identity.peerId⟩
  rw [NetworkState.Linked, admits_iff_of_current hrun hleft, admits_iff_of_current hrun hright]
  refine ⟨?_, fun howner hlinked => ?_⟩
  · rw [mem_getAuthorizedNodes, mem_getAuthorizedNodes, ne_comm, Ne, hpeerId]
    tauto
  · exact notMem_getAuthorizedNodes_of_unowned howner right.peerId hlinked.1

/-- Two well known nodes have run the worker of the last of two blocks, one of them
also that of the first block. -/
theorem current_links_of_two :
    let left : Identity := ⟨[1], by decide⟩
    let right : Identity := ⟨[2], by decide⟩
    let nodes := [(left.peerId, 1), (right.peerId, 2)]
    ∃ state, (network mockConfig nodes).run
        [.extend [], .extend [], .importBlock right, .importBlock right, .importBlock left,
          .worker left 1 true, .importBlock left, .worker left 2 true,
          .worker right 2 true] = some state ∧
      state.Linked left right := by
  intro left right nodes
  let history : List (NetworkLabel ℕ) :=
    [.extend [], .extend [], .importBlock right, .importBlock right, .importBlock left,
      .worker left 1 true, .importBlock left, .worker left 2 true, .worker right 2 true]
  have hsome : ((network mockConfig nodes).run history).isSome = true := rfl
  obtain ⟨state, hstate⟩ := Option.isSome_iff_exists.mp hsome
  have hblocks : state.blocks = [[], []] := by
    cases hstate
    rfl
  have hleft : Current history state left := by
    rw [Current, hblocks]
    rfl
  have hright : Current history state right := by
    rw [Current, hblocks]
    rfl
  refine ⟨state, hstate, ((current_links_iff mockConfig nodes history state hstate left right
    hleft hright).1).mpr (Or.inl ?_)⟩
  rw [hblocks]
  decide

end SupraClient.Authorization
