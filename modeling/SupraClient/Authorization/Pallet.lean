import SupraClient.Frame.Decider
import Mathlib.Data.Finset.Sort
import Mathlib.Data.List.Lex

/-! # The node authorization pallet

The dispatchables are written in the order of the source: every guard, every
storage write, and the deposited event stand where the pallet has them. Nothing
here rolls a failing call back.
-/

namespace SupraClient.Authorization

open Frame Frame.Dispatch

/-- An opaque peer identifier: raw bytes of any length. -/
structure PeerId where
  bytes : List UInt8
  deriving DecidableEq

namespace PeerId

/-- Peer identifiers are ordered by their bytes, lexicographically. -/
def byteValues (peer : PeerId) : List Nat := peer.bytes.map UInt8.toNat

theorem byteValues_injective : Function.Injective byteValues := by
  rintro ⟨left⟩ ⟨right⟩ heq
  congr 1
  exact List.map_injective_iff.mpr (fun _ _ h => UInt8.toNat_inj.mp h) heq

instance : LinearOrder PeerId := LinearOrder.lift' byteValues byteValues_injective

end PeerId

variable {AccountId : Type}

/-- The constants and privileged origins a runtime configures. -/
structure Config (AccountId : Type) where
  /-- The maximum number of well known nodes that are allowed to set. -/
  maxWellKnownNodes : Nat
  /-- The maximum length in bytes of a peer identifier. -/
  maxPeerIdLength : Nat
  addOrigin : RawOrigin AccountId → Bool
  removeOrigin : RawOrigin AccountId → Bool
  swapOrigin : RawOrigin AccountId → Bool
  resetOrigin : RawOrigin AccountId → Bool

/-- The three storage items of the pallet. -/
@[ext] structure Store (AccountId : Type) where
  wellKnownNodes : Finset PeerId
  owners : StorageMap PeerId AccountId
  additionalConnections : StorageMap PeerId (Finset PeerId)
  deriving DecidableEq

inductive Event (AccountId : Type) where
  /-- The given well known node was added. -/
  | nodeAdded (node : PeerId) (owner : AccountId)
  /-- The given well known node was removed. -/
  | nodeRemoved (node : PeerId)
  /-- The given well known node was swapped; the first was removed, the latter added. -/
  | nodeSwapped (remove add : PeerId)
  /-- The given well known nodes were reset. -/
  | nodesReset (nodes : List (PeerId × AccountId))
  /-- The given node was claimed by a user. -/
  | nodeClaimed (node : PeerId) (owner : AccountId)
  /-- The given claim was removed by its owner. -/
  | claimRemoved (node : PeerId) (owner : AccountId)
  /-- The node was transferred to another account. -/
  | nodeTransferred (node : PeerId) (owner : AccountId)
  /-- The allowed connections were added to a node. -/
  | connectionsAdded (node : PeerId) (connections : List PeerId)
  /-- The allowed connections were removed from a node. -/
  | connectionsRemoved (node : PeerId) (connections : List PeerId)
  deriving DecidableEq

inductive Error where
  | peerIdTooLong
  | tooManyNodes
  | alreadyJoined
  | notExist
  | alreadyClaimed
  | notClaimed
  | notOwner
  | permissionDenied
  deriving DecidableEq

inductive Call (AccountId : Type) where
  | addWellKnownNode (node : PeerId) (owner : AccountId)
  | removeWellKnownNode (node : PeerId)
  | swapWellKnownNode (remove add : PeerId)
  | resetWellKnownNodes (nodes : List (PeerId × AccountId))
  | claimNode (node : PeerId)
  | removeClaim (node : PeerId)
  | transferNode (node : PeerId) (owner : AccountId)
  | addConnections (node : PeerId) (connections : List PeerId)
  | removeConnections (node : PeerId) (connections : List PeerId)
  deriving DecidableEq

/-- A call together with the origin it is dispatched with. -/
abbrev Extrinsic (AccountId : Type) := RawOrigin AccountId × Call AccountId

/-- The pallet's storage and the events it has deposited. -/
abbrev Chain (AccountId : Type) := Ledger (Store AccountId) (Event AccountId)

/-- The effects a dispatchable of the pallet may have. -/
abbrev Pallet (AccountId : Type) := Dispatch (Chain AccountId) Error

/-! ## Storage items -/

def wellKnownNodes : StorageItem (Store AccountId) (Finset PeerId) where
  view := Store.wellKnownNodes
  set nodes store := { store with wellKnownNodes := nodes }

def owners : StorageItem (Store AccountId) (StorageMap PeerId AccountId) where
  view := Store.owners
  set entries store := { store with owners := entries }

def additionalConnections :
    StorageItem (Store AccountId) (StorageMap PeerId (Finset PeerId)) where
  view := Store.additionalConnections
  set entries store := { store with additionalConnections := entries }

/-! ## Helpers of the module -/

def initializeNodes (nodes : List (PeerId × AccountId)) : Pallet AccountId Unit := do
  let peerIds := (nodes.map Prod.fst).toFinset
  wellKnownNodes.put peerIds
  nodes.forM fun entry => owners.insert entry.1 entry.2

/-- The peers the given node may connect to, in ascending order. -/
def getAuthorizedNodes (store : Store AccountId) (node : PeerId) : List PeerId :=
  let nodes := store.additionalConnections.get node
  let wellKnownNodes := store.wellKnownNodes
  let nodes :=
    if node ∈ wellKnownNodes then nodes ∪ wellKnownNodes.erase node else nodes
  nodes.sort

/-- The loop of `addConnections`: the node itself is skipped. -/
def extendConnections (node : PeerId) (connections : List PeerId) (nodes : Finset PeerId) :
    Finset PeerId :=
  connections.foldl
    (fun nodes addNode => if addNode = node then nodes else insert addNode nodes) nodes

/-- The loop of `removeConnections`. -/
def reduceConnections (connections : List PeerId) (nodes : Finset PeerId) : Finset PeerId :=
  connections.foldl (fun nodes removeNode => nodes.erase removeNode) nodes

/-! ## Dispatchables -/

section Dispatchables

variable (config : Config AccountId) (origin : RawOrigin AccountId)

def addWellKnownNode (node : PeerId) (owner : AccountId) : Pallet AccountId Unit := do
  ensureOrigin config.addOrigin origin
  ensure (node.bytes.length < config.maxPeerIdLength) .peerIdTooLong
  let nodes ← wellKnownNodes.get
  ensure (nodes.card < config.maxWellKnownNodes) .tooManyNodes
  ensure (node ∉ nodes) .alreadyJoined
  wellKnownNodes.put (insert node nodes)
  owners.insert node owner
  depositEvent (.nodeAdded node owner)

def removeWellKnownNode (node : PeerId) : Pallet AccountId Unit := do
  ensureOrigin config.removeOrigin origin
  ensure (node.bytes.length < config.maxPeerIdLength) .peerIdTooLong
  let nodes ← wellKnownNodes.get
  ensure (node ∈ nodes) .notExist
  wellKnownNodes.put (nodes.erase node)
  owners.remove node
  additionalConnections.remove node
  depositEvent (.nodeRemoved node)

def swapWellKnownNode (remove add : PeerId) : Pallet AccountId Unit := do
  ensureOrigin config.swapOrigin origin
  ensure (remove.bytes.length < config.maxPeerIdLength) .peerIdTooLong
  ensure (add.bytes.length < config.maxPeerIdLength) .peerIdTooLong
  -- the early return of the source: neither a write nor an event
  if remove = add then
    pure ()
  else do
    let nodes ← wellKnownNodes.get
    ensure (remove ∈ nodes) .notExist
    ensure (add ∉ nodes) .alreadyJoined
    wellKnownNodes.put (insert add (nodes.erase remove))
    owners.swap remove add
    additionalConnections.swap remove add
    depositEvent (.nodeSwapped remove add)

def resetWellKnownNodes (nodes : List (PeerId × AccountId)) : Pallet AccountId Unit := do
  ensureOrigin config.resetOrigin origin
  ensure (nodes.length < config.maxWellKnownNodes) .tooManyNodes
  initializeNodes nodes
  depositEvent (.nodesReset nodes)

def claimNode (node : PeerId) : Pallet AccountId Unit := do
  let sender ← ensureSigned origin
  ensure (node.bytes.length < config.maxPeerIdLength) .peerIdTooLong
  let claimed ← owners.containsKey node
  ensure (¬ claimed) .alreadyClaimed
  owners.insert node sender
  depositEvent (.nodeClaimed node sender)

variable [DecidableEq AccountId] [Inhabited AccountId]

def removeClaim (node : PeerId) : Pallet AccountId Unit := do
  let sender ← ensureSigned origin
  ensure (node.bytes.length < config.maxPeerIdLength) .peerIdTooLong
  let claimed ← owners.containsKey node
  ensure claimed .notClaimed
  let owner ← owners.getKey node
  ensure (owner = sender) .notOwner
  let nodes ← wellKnownNodes.get
  ensure (node ∉ nodes) .permissionDenied
  owners.remove node
  additionalConnections.remove node
  depositEvent (.claimRemoved node sender)

def transferNode (node : PeerId) (owner : AccountId) : Pallet AccountId Unit := do
  let sender ← ensureSigned origin
  ensure (node.bytes.length < config.maxPeerIdLength) .peerIdTooLong
  let claimed ← owners.containsKey node
  ensure claimed .notClaimed
  let holder ← owners.getKey node
  ensure (holder = sender) .notOwner
  owners.insert node owner
  depositEvent (.nodeTransferred node owner)

def addConnections (node : PeerId) (connections : List PeerId) : Pallet AccountId Unit := do
  let sender ← ensureSigned origin
  ensure (node.bytes.length < config.maxPeerIdLength) .peerIdTooLong
  let claimed ← owners.containsKey node
  ensure claimed .notClaimed
  let holder ← owners.getKey node
  ensure (holder = sender) .notOwner
  let nodes ← additionalConnections.getKey node
  additionalConnections.insert node (extendConnections node connections nodes)
  depositEvent (.connectionsAdded node connections)

def removeConnections (node : PeerId) (connections : List PeerId) : Pallet AccountId Unit := do
  let sender ← ensureSigned origin
  ensure (node.bytes.length < config.maxPeerIdLength) .peerIdTooLong
  let claimed ← owners.containsKey node
  ensure claimed .notClaimed
  let holder ← owners.getKey node
  ensure (holder = sender) .notOwner
  let nodes ← additionalConnections.getKey node
  additionalConnections.insert node (reduceConnections connections nodes)
  depositEvent (.connectionsRemoved node connections)

end Dispatchables

/-- The storage before genesis. -/
def emptyChain : Chain AccountId where
  store := { wellKnownNodes := ∅, owners := ∅, additionalConnections := ∅ }
  events := []

/-- The genesis build initializes the configured nodes in empty storage. -/
def genesis (nodes : List (PeerId × AccountId)) : Chain AccountId :=
  ((initializeNodes nodes).exec emptyChain).2

variable [DecidableEq AccountId] [Inhabited AccountId]

/-- Dispatch a call of the pallet with its origin. -/
def dispatch (config : Config AccountId) : Extrinsic AccountId → Pallet AccountId Unit
  | (origin, .addWellKnownNode node owner) => addWellKnownNode config origin node owner
  | (origin, .removeWellKnownNode node) => removeWellKnownNode config origin node
  | (origin, .swapWellKnownNode remove add) => swapWellKnownNode config origin remove add
  | (origin, .resetWellKnownNodes nodes) => resetWellKnownNodes config origin nodes
  | (origin, .claimNode node) => claimNode config origin node
  | (origin, .removeClaim node) => removeClaim config origin node
  | (origin, .transferNode node owner) => transferNode config origin node owner
  | (origin, .addConnections node connections) => addConnections config origin node connections
  | (origin, .removeConnections node connections) =>
      removeConnections config origin node connections

/-- The chain after a genesis list and a sequence of dispatched calls. -/
def runFrom (config : Config AccountId) (nodes : List (PeerId × AccountId))
    (extrinsics : List (Extrinsic AccountId)) : Chain AccountId :=
  Dispatch.run (dispatch config) (genesis nodes) extrinsics

/-! ## The configuration of the pallet's own tests -/

/-- Accept one signer only. -/
def ensureSignedBy (account : Nat) : RawOrigin Nat → Bool
  | .signed who => who = account
  | _ => false

def mockConfig : Config Nat where
  maxWellKnownNodes := 4
  maxPeerIdLength := 2
  addOrigin := ensureSignedBy 1
  removeOrigin := ensureSignedBy 2
  swapOrigin := ensureSignedBy 3
  resetOrigin := ensureSignedBy 4

def testNode (id : UInt8) : PeerId := ⟨[id]⟩

end SupraClient.Authorization
