import SupraClient.Authorization.Pallet

/-! # What a call may do

Every call of the pallet checks a list of guards and then performs a single
event. The guards and the events are stated here on their own, and the
dispatchables are shown to implement them: results, storage and event log
agree on every chain and for every origin.
-/

namespace SupraClient.Authorization

open Frame Frame.Dispatch

variable {AccountId : Type}

/-- The effect of an event on the storage. It reads the payload of the event and
the storage it acts on, neither the call nor the configuration. -/
def evolve (store : Store AccountId) : Event AccountId → Store AccountId
  | .nodeAdded node owner =>
      { store with
        wellKnownNodes := insert node store.wellKnownNodes
        owners := store.owners.insert node owner }
  | .nodeRemoved node =>
      { wellKnownNodes := store.wellKnownNodes.erase node
        owners := store.owners.remove node
        additionalConnections := store.additionalConnections.remove node }
  | .nodeSwapped remove add =>
      { wellKnownNodes := insert add (store.wellKnownNodes.erase remove)
        owners := store.owners.swap remove add
        additionalConnections := store.additionalConnections.swap remove add }
  | .nodesReset nodes =>
      { store with
        wellKnownNodes := (nodes.map Prod.fst).toFinset
        owners := nodes.foldl (fun entries entry => entries.insert entry.1 entry.2) store.owners }
  | .nodeClaimed node owner => { store with owners := store.owners.insert node owner }
  | .claimRemoved node _ =>
      { store with
        owners := store.owners.remove node
        additionalConnections := store.additionalConnections.remove node }
  | .nodeTransferred node owner => { store with owners := store.owners.insert node owner }
  | .connectionsAdded node connections =>
      { store with
        additionalConnections := store.additionalConnections.insert node
          (extendConnections node connections (store.additionalConnections.get node)) }
  | .connectionsRemoved node connections =>
      { store with
        additionalConnections := store.additionalConnections.insert node
          (reduceConnections connections (store.additionalConnections.get node)) }

/-- The event of an accepted call; a swap of a node with itself has none. -/
def eventOf : Extrinsic AccountId → Option (Event AccountId)
  | (_, .addWellKnownNode node owner) => some (.nodeAdded node owner)
  | (_, .removeWellKnownNode node) => some (.nodeRemoved node)
  | (_, .swapWellKnownNode remove add) =>
      if remove = add then none else some (.nodeSwapped remove add)
  | (_, .resetWellKnownNodes nodes) => some (.nodesReset nodes)
  | (.signed who, .claimNode node) => some (.nodeClaimed node who)
  | (.signed who, .removeClaim node) => some (.claimRemoved node who)
  | (.signed _, .transferNode node owner) => some (.nodeTransferred node owner)
  | (.signed _, .addConnections node connections) => some (.connectionsAdded node connections)
  | (.signed _, .removeConnections node connections) => some (.connectionsRemoved node connections)
  | (_, .claimNode _) | (_, .removeClaim _) | (_, .transferNode _ _)
  | (_, .addConnections _ _) | (_, .removeConnections _ _) => none

variable [DecidableEq AccountId] [Inhabited AccountId]

/-- The guard that a peer identifier is short enough to be accepted. -/
def lengthGuard (config : Config AccountId) (node : PeerId) : Bool × DispatchError Error :=
  (decide (node.bytes.length < config.maxPeerIdLength), .module .peerIdTooLong)

/-- The guards shared by the calls reserved to the owner of a node. -/
def ownerGuards (config : Config AccountId) (store : Store AccountId)
    (origin : RawOrigin AccountId) (node : PeerId) : List (Bool × DispatchError Error) :=
  match origin with
  | .signed sender =>
      [lengthGuard config node,
        (store.owners.containsKey node, .module .notClaimed),
        (decide (store.owners.get node = sender), .module .notOwner)]
  | _ => [(false, .badOrigin)]

/-- The guards of a call in the order they are checked. -/
def guards (config : Config AccountId) (store : Store AccountId) :
    Extrinsic AccountId → List (Bool × DispatchError Error)
  | (origin, .addWellKnownNode node _) =>
      [(config.addOrigin origin, .badOrigin), lengthGuard config node,
        (decide (store.wellKnownNodes.card < config.maxWellKnownNodes), .module .tooManyNodes),
        (decide (node ∉ store.wellKnownNodes), .module .alreadyJoined)]
  | (origin, .removeWellKnownNode node) =>
      [(config.removeOrigin origin, .badOrigin), lengthGuard config node,
        (decide (node ∈ store.wellKnownNodes), .module .notExist)]
  | (origin, .swapWellKnownNode remove add) =>
      [(config.swapOrigin origin, .badOrigin), lengthGuard config remove,
        lengthGuard config add] ++
      if remove = add then []
      else [(decide (remove ∈ store.wellKnownNodes), .module .notExist),
        (decide (add ∉ store.wellKnownNodes), .module .alreadyJoined)]
  | (origin, .resetWellKnownNodes nodes) =>
      [(config.resetOrigin origin, .badOrigin),
        (decide (nodes.length < config.maxWellKnownNodes), .module .tooManyNodes)]
  | (.signed _, .claimNode node) =>
      [lengthGuard config node, (!store.owners.containsKey node, .module .alreadyClaimed)]
  | (_, .claimNode _) => [(false, .badOrigin)]
  | (origin, .removeClaim node) =>
      ownerGuards config store origin node ++
        [(decide (node ∉ store.wellKnownNodes), .module .permissionDenied)]
  | (origin, .transferNode node _) => ownerGuards config store origin node
  | (origin, .addConnections node _) => ownerGuards config store origin node
  | (origin, .removeConnections node _) => ownerGuards config store origin node

/-- Guards first, then the event. -/
def decider (config : Config AccountId) :
    Decider (Store AccountId) (Extrinsic AccountId) (Event AccountId) Error where
  decide store extrinsic :=
    (Decider.checkGuards (guards config store extrinsic)).map fun _ => eventOf extrinsic
  evolve := evolve

/-! ## The dispatchables implement the decisions -/

section Initialization

omit [DecidableEq AccountId] [Inhabited AccountId]

/-- The loop over the initialized nodes inserts their owners in order. -/
theorem exec_insertOwners (nodes : List (PeerId × AccountId)) (chain : Chain AccountId) :
    exec (nodes.forM fun entry => owners.insert entry.1 entry.2 : Pallet AccountId Unit) chain =
      (.ok (), { chain with store := { chain.store with
        owners := nodes.foldl (fun entries entry => entries.insert entry.1 entry.2)
          chain.store.owners } }) := by
  induction nodes generalizing chain with
  | nil => rfl
  | cons entry rest ih =>
      change exec (owners.insert entry.1 entry.2 >>= fun _ => rest.forM _) chain = _
      rw [exec_item_insert_bind, ih]
      rfl

/-- Initialization never fails and acts on the storage as a reset does. -/
theorem exec_initializeNodes (nodes : List (PeerId × AccountId)) (chain : Chain AccountId) :
    exec (initializeNodes nodes) chain =
      (.ok (), { chain with store := evolve chain.store (.nodesReset nodes) }) := by
  unfold initializeNodes
  rw [exec_item_put_bind, exec_insertOwners]
  rfl

theorem exec_initializeNodes_bind (nodes : List (PeerId × AccountId))
    (next : Unit → Pallet AccountId Unit) (chain : Chain AccountId) :
    exec (initializeNodes nodes >>= next) chain =
      exec (next ()) { chain with store := evolve chain.store (.nodesReset nodes) } := by
  rw [exec_bind, exec_initializeNodes]

end Initialization

theorem decider_step (config : Config AccountId) (chain : Chain AccountId)
    (extrinsic : Extrinsic AccountId) :
    (decider config).step chain extrinsic =
      Decider.guardedStep chain ((decider config).perform chain (eventOf extrinsic))
        (guards config chain.store extrinsic) :=
  Decider.step_eq_guardedStep rfl

/-- Every dispatchable checks exactly its guards, in their order, before its
first write, and then performs exactly its event. -/
theorem dispatch_implements (config : Config AccountId) :
    (decider config).Implements (dispatch config) := by
  rintro ⟨origin, call⟩ chain
  rw [decider_step]
  cases call with
  | addWellKnownNode node owner =>
      simp [dispatch, addWellKnownNode, guards, lengthGuard, Decider.guardedStep, eventOf,
        Decider.perform, decider, evolve]
      rfl
  | removeWellKnownNode node =>
      simp [dispatch, removeWellKnownNode, guards, lengthGuard, Decider.guardedStep, eventOf,
        Decider.perform, decider, evolve]
      rfl
  | swapWellKnownNode remove add =>
      by_cases heq : remove = add
      · simp [dispatch, swapWellKnownNode, guards, lengthGuard, Decider.guardedStep, eventOf,
          Decider.perform, heq]
      · simp [dispatch, swapWellKnownNode, guards, lengthGuard, Decider.guardedStep, eventOf,
          Decider.perform, decider, evolve, heq]
        rfl
  | resetWellKnownNodes nodes =>
      simp [dispatch, resetWellKnownNodes, guards, Decider.guardedStep, eventOf,
        Decider.perform, decider, exec_initializeNodes_bind]
  | claimNode node =>
      cases origin with
      | signed who =>
          simp [dispatch, claimNode, guards, lengthGuard, Decider.guardedStep, eventOf,
            Decider.perform, decider, evolve]
          rfl
      | root => rfl
      | none => rfl
  | removeClaim node =>
      cases origin with
      | signed who =>
          simp [dispatch, removeClaim, guards, ownerGuards, lengthGuard, Decider.guardedStep,
            eventOf, Decider.perform, decider, evolve]
          rfl
      | root => rfl
      | none => rfl
  | transferNode node owner =>
      cases origin with
      | signed who =>
          simp [dispatch, transferNode, guards, ownerGuards, lengthGuard, Decider.guardedStep,
            eventOf, Decider.perform, decider, evolve]
          rfl
      | root => rfl
      | none => rfl
  | addConnections node connections =>
      cases origin with
      | signed who =>
          simp [dispatch, addConnections, guards, ownerGuards, lengthGuard, Decider.guardedStep,
            eventOf, Decider.perform, decider, evolve]
          rfl
      | root => rfl
      | none => rfl
  | removeConnections node connections =>
      cases origin with
      | signed who =>
          simp [dispatch, removeConnections, guards, ownerGuards, lengthGuard,
            Decider.guardedStep, eventOf, Decider.perform, decider, evolve]
          rfl
      | root => rfl
      | none => rfl

/-! ## Permissions -/

/-- The extrinsics that succeed with an event, and under which conditions. -/
inductive Permits (config : Config AccountId) (store : Store AccountId) :
    Extrinsic AccountId → Event AccountId → Prop
  | add {origin node owner} (horigin : config.addOrigin origin = true)
      (hlength : node.bytes.length < config.maxPeerIdLength)
      (hcount : store.wellKnownNodes.card < config.maxWellKnownNodes)
      (hnew : node ∉ store.wellKnownNodes) :
      Permits config store (origin, .addWellKnownNode node owner) (.nodeAdded node owner)
  | remove {origin node} (horigin : config.removeOrigin origin = true)
      (hlength : node.bytes.length < config.maxPeerIdLength)
      (hmem : node ∈ store.wellKnownNodes) :
      Permits config store (origin, .removeWellKnownNode node) (.nodeRemoved node)
  | swap {origin remove add} (horigin : config.swapOrigin origin = true)
      (hremove : remove.bytes.length < config.maxPeerIdLength)
      (hadd : add.bytes.length < config.maxPeerIdLength) (hne : remove ≠ add)
      (hmem : remove ∈ store.wellKnownNodes) (hnew : add ∉ store.wellKnownNodes) :
      Permits config store (origin, .swapWellKnownNode remove add) (.nodeSwapped remove add)
  | reset {origin nodes} (horigin : config.resetOrigin origin = true)
      (hcount : nodes.length < config.maxWellKnownNodes) :
      Permits config store (origin, .resetWellKnownNodes nodes) (.nodesReset nodes)
  | claim {who node} (hlength : node.bytes.length < config.maxPeerIdLength)
      (hfree : store.owners.tryGet node = none) :
      Permits config store (.signed who, .claimNode node) (.nodeClaimed node who)
  | unclaim {who node} (hlength : node.bytes.length < config.maxPeerIdLength)
      (howner : store.owners.tryGet node = some who) (hnot : node ∉ store.wellKnownNodes) :
      Permits config store (.signed who, .removeClaim node) (.claimRemoved node who)
  | transfer {who node owner} (hlength : node.bytes.length < config.maxPeerIdLength)
      (howner : store.owners.tryGet node = some who) :
      Permits config store (.signed who, .transferNode node owner) (.nodeTransferred node owner)
  | connect {who node connections} (hlength : node.bytes.length < config.maxPeerIdLength)
      (howner : store.owners.tryGet node = some who) :
      Permits config store (.signed who, .addConnections node connections)
        (.connectionsAdded node connections)
  | disconnect {who node connections} (hlength : node.bytes.length < config.maxPeerIdLength)
      (howner : store.owners.tryGet node = some who) :
      Permits config store (.signed who, .removeConnections node connections)
        (.connectionsRemoved node connections)

omit [DecidableEq AccountId] in
/-- The guards on presence and owner together ask for the raw owner entry. An
absent entry reads as the default account, but the presence check stands in
front of that read. -/
theorem owner_guards_iff (store : Store AccountId) (node : PeerId) (who : AccountId) :
    (store.owners.containsKey node = true ∧ store.owners.get node = who) ↔
      store.owners.tryGet node = some who := by
  constructor
  · rintro ⟨hpresent, howner⟩
    obtain ⟨owner, hentry⟩ := (store.owners.containsKey_eq_true_iff node).mp hpresent
    rw [StorageMap.get_of_tryGet hentry] at howner
    rw [hentry, howner]
  · intro hentry
    exact ⟨(store.owners.containsKey_eq_true_iff node).mpr ⟨who, hentry⟩,
      StorageMap.get_of_tryGet hentry⟩

theorem ownerGuards_hold_iff (config : Config AccountId) (store : Store AccountId)
    (origin : RawOrigin AccountId) (node : PeerId) :
    (∀ guard ∈ ownerGuards config store origin node, guard.1 = true) ↔
      ∃ who, origin = .signed who ∧ node.bytes.length < config.maxPeerIdLength ∧
        store.owners.tryGet node = some who := by
  cases origin with
  | signed who => simp [ownerGuards, lengthGuard, ← owner_guards_iff]
  | root => simp [ownerGuards]
  | none => simp [ownerGuards]

theorem decide_eq_ok_iff (config : Config AccountId) (store : Store AccountId)
    (extrinsic : Extrinsic AccountId) (outcome : Option (Event AccountId)) :
    (decider config).decide store extrinsic = .ok outcome ↔
      (∀ guard ∈ guards config store extrinsic, guard.1 = true) ∧ eventOf extrinsic = outcome :=
  Decider.map_checkGuards_eq_ok_iff _ _ _

theorem permits_of_decide {config : Config AccountId} {store : Store AccountId}
    {extrinsic : Extrinsic AccountId} {event : Event AccountId}
    (h : (decider config).decide store extrinsic = .ok (some event)) :
    Permits config store extrinsic event := by
  obtain ⟨hguards, hevent⟩ := (decide_eq_ok_iff config store extrinsic (some event)).mp h
  obtain ⟨origin, call⟩ := extrinsic
  cases call with
  | addWellKnownNode node owner =>
      obtain ⟨horigin, hlength, hcount, hnew⟩ : config.addOrigin origin = true ∧
          node.bytes.length < config.maxPeerIdLength ∧
          store.wellKnownNodes.card < config.maxWellKnownNodes ∧
          node ∉ store.wellKnownNodes := by
        simpa [guards, lengthGuard] using hguards
      cases hevent
      exact .add horigin hlength hcount hnew
  | removeWellKnownNode node =>
      obtain ⟨horigin, hlength, hmem⟩ : config.removeOrigin origin = true ∧
          node.bytes.length < config.maxPeerIdLength ∧ node ∈ store.wellKnownNodes := by
        simpa [guards, lengthGuard] using hguards
      cases hevent
      exact .remove horigin hlength hmem
  | swapWellKnownNode remove add =>
      by_cases heq : remove = add
      · simp [eventOf, heq] at hevent
      · obtain ⟨horigin, hremove, hadd, hmem, hnew⟩ : config.swapOrigin origin = true ∧
            remove.bytes.length < config.maxPeerIdLength ∧
            add.bytes.length < config.maxPeerIdLength ∧
            remove ∈ store.wellKnownNodes ∧ add ∉ store.wellKnownNodes := by
          simpa [guards, lengthGuard, heq] using hguards
        simp only [eventOf, if_neg heq, Option.some.injEq] at hevent
        subst hevent
        exact .swap horigin hremove hadd heq hmem hnew
  | resetWellKnownNodes nodes =>
      obtain ⟨horigin, hcount⟩ : config.resetOrigin origin = true ∧
          nodes.length < config.maxWellKnownNodes := by
        simpa [guards] using hguards
      cases hevent
      exact .reset horigin hcount
  | claimNode node =>
      cases origin with
      | signed who =>
          obtain ⟨hlength, hfree⟩ : node.bytes.length < config.maxPeerIdLength ∧
              store.owners.tryGet node = none := by
            simpa [guards, lengthGuard, StorageMap.containsKey_eq_false_iff] using hguards
          cases hevent
          exact .claim hlength hfree
      | root => cases hevent
      | none => cases hevent
  | removeClaim node =>
      simp only [guards, List.forall_mem_append, ownerGuards_hold_iff] at hguards
      obtain ⟨⟨who, rfl, hlength, howner⟩, hnot⟩ := hguards
      cases hevent
      exact .unclaim hlength howner (by simpa using hnot)
  | transferNode node owner =>
      obtain ⟨who, rfl, hlength, howner⟩ :=
        (ownerGuards_hold_iff config store origin node).mp hguards
      cases hevent
      exact .transfer hlength howner
  | addConnections node connections =>
      obtain ⟨who, rfl, hlength, howner⟩ :=
        (ownerGuards_hold_iff config store origin node).mp hguards
      cases hevent
      exact .connect hlength howner
  | removeConnections node connections =>
      obtain ⟨who, rfl, hlength, howner⟩ :=
        (ownerGuards_hold_iff config store origin node).mp hguards
      cases hevent
      exact .disconnect hlength howner

theorem decide_of_permits {config : Config AccountId} {store : Store AccountId}
    {extrinsic : Extrinsic AccountId} {event : Event AccountId}
    (h : Permits config store extrinsic event) :
    (decider config).decide store extrinsic = .ok (some event) := by
  refine (decide_eq_ok_iff config store extrinsic (some event)).mpr ?_
  cases h with
  | add horigin hlength hcount hnew => simp [guards, lengthGuard, eventOf, *]
  | remove horigin hlength hmem => simp [guards, lengthGuard, eventOf, *]
  | swap horigin hremove hadd hne hmem hnew => simp [guards, lengthGuard, eventOf, *]
  | reset horigin hcount => simp [guards, eventOf, *]
  | claim hlength hfree =>
      simp [guards, lengthGuard, eventOf, StorageMap.containsKey_eq_false_iff, *]
  | unclaim hlength howner hnot =>
      refine ⟨?_, rfl⟩
      simp only [guards, List.forall_mem_append, ownerGuards_hold_iff]
      exact ⟨⟨_, rfl, hlength, howner⟩, by simpa using hnot⟩
  | transfer hlength howner =>
      exact ⟨(ownerGuards_hold_iff config store _ _).mpr ⟨_, rfl, hlength, howner⟩, rfl⟩
  | connect hlength howner =>
      exact ⟨(ownerGuards_hold_iff config store _ _).mpr ⟨_, rfl, hlength, howner⟩, rfl⟩
  | disconnect hlength howner =>
      exact ⟨(ownerGuards_hold_iff config store _ _).mpr ⟨_, rfl, hlength, howner⟩, rfl⟩

/-- The only accepted call without an event is the swap of a node with itself. -/
theorem eq_swap_of_decide_none {config : Config AccountId} {store : Store AccountId}
    {extrinsic : Extrinsic AccountId} (h : (decider config).decide store extrinsic = .ok none) :
    ∃ origin node, extrinsic = (origin, .swapWellKnownNode node node) := by
  obtain ⟨hguards, hevent⟩ := (decide_eq_ok_iff config store extrinsic none).mp h
  obtain ⟨origin, call⟩ := extrinsic
  cases call with
  | swapWellKnownNode remove add =>
      by_cases heq : remove = add
      · exact ⟨origin, remove, by rw [heq]⟩
      · simp [eventOf, heq] at hevent
  | addWellKnownNode node owner => cases hevent
  | removeWellKnownNode node => cases hevent
  | resetWellKnownNodes nodes => cases hevent
  | claimNode node =>
      cases origin with
      | signed who => cases hevent
      | root => simp [guards] at hguards
      | none => simp [guards] at hguards
  | removeClaim node =>
      simp only [guards, List.forall_mem_append, ownerGuards_hold_iff] at hguards
      obtain ⟨⟨who, rfl, -⟩, -⟩ := hguards
      cases hevent
  | transferNode node owner =>
      obtain ⟨who, rfl, -⟩ := (ownerGuards_hold_iff config store origin node).mp hguards
      cases hevent
  | addConnections node connections =>
      obtain ⟨who, rfl, -⟩ := (ownerGuards_hold_iff config store origin node).mp hguards
      cases hevent
  | removeConnections node connections =>
      obtain ⟨who, rfl, -⟩ := (ownerGuards_hold_iff config store origin node).mp hguards
      cases hevent

/-! ## What a dispatched call does -/

/-- The chain after an event. -/
def perform (chain : Chain AccountId) (event : Event AccountId) : Chain AccountId where
  store := evolve chain.store event
  events := chain.events ++ [event]

/-- A dispatched call fails and changes nothing, swaps a node with itself and
changes nothing, or performs a permitted event. -/
theorem dispatch_cases (config : Config AccountId) (extrinsic : Extrinsic AccountId)
    (chain : Chain AccountId) :
    (∃ error, (dispatch config extrinsic).exec chain = (.error error, chain)) ∨
      (∃ origin node, extrinsic = (origin, .swapWellKnownNode node node) ∧
        (dispatch config extrinsic).exec chain = (.ok (), chain)) ∨
      ∃ event, Permits config chain.store extrinsic event ∧
        (dispatch config extrinsic).exec chain = (.ok (), perform chain event) := by
  rw [dispatch_implements config]
  rcases hdecide : (decider config).decide chain.store extrinsic with error | _ | event
  · exact Or.inl ⟨error, Decider.step_of_error hdecide⟩
  · obtain ⟨origin, node, heq⟩ := eq_swap_of_decide_none hdecide
    exact Or.inr (Or.inl ⟨origin, node, heq, Decider.step_of_ok hdecide⟩)
  · exact Or.inr (Or.inr ⟨event, permits_of_decide hdecide, Decider.step_of_ok hdecide⟩)

/-- A call other than the swap of a node with itself succeeds only by performing
a permitted event. -/
theorem permits_of_ok {config : Config AccountId} {chain : Chain AccountId}
    {extrinsic : Extrinsic AccountId}
    (hok : ((dispatch config extrinsic).exec chain).1 = .ok ())
    (hswap : ∀ node, extrinsic.2 ≠ .swapWellKnownNode node node) :
    ∃ event, Permits config chain.store extrinsic event ∧
      (dispatch config extrinsic).exec chain = (.ok (), perform chain event) := by
  obtain ⟨error, hexec⟩ | ⟨origin, node, rfl, -⟩ | hperforms :=
    dispatch_cases config extrinsic chain
  · rw [hexec] at hok
    cases hok
  · exact absurd rfl (hswap node)
  · exact hperforms

/-- A permitted call succeeds and performs its event. -/
theorem exec_of_permits {config : Config AccountId} {chain : Chain AccountId}
    {extrinsic : Extrinsic AccountId} {event : Event AccountId}
    (h : Permits config chain.store extrinsic event) :
    (dispatch config extrinsic).exec chain = (.ok (), perform chain event) := by
  rw [dispatch_implements config]
  exact Decider.step_of_ok (decide_of_permits h)

end SupraClient.Authorization
