import SupraClient.Authorization.Decision

/-! # The registry of nodes

The three storage items are three views of one registry: a record for every
node, saying whether it is well known, who owns it, and which additional
connections it has. Seen this way an event edits the records of the nodes it
names, a swap exchanges two records, and a reset is the only event that
touches records it does not name.
-/

namespace SupraClient.Authorization

open Frame

variable {AccountId : Type}

/-- Everything the storage says about one node, absence included. -/
@[ext] structure NodeRecord (AccountId : Type) where
  wellKnown : Prop
  owner : Option AccountId
  connections : Option (Finset PeerId)

/-- The record of a node the pallet does not know. -/
def NodeRecord.vacant : NodeRecord AccountId where
  wellKnown := False
  owner := none
  connections := none

abbrev Registry (AccountId : Type) := PeerId → NodeRecord AccountId

namespace Store

/-- The record of a node in the three storage items. -/
def record (store : Store AccountId) : Registry AccountId := fun node =>
  { wellKnown := node ∈ store.wellKnownNodes
    owner := store.owners.tryGet node
    connections := store.additionalConnections.tryGet node }

/-- The connections of a node as the getter reads them. -/
def connections (store : Store AccountId) (node : PeerId) : Finset PeerId :=
  store.additionalConnections.get node

theorem connections_eq (store : Store AccountId) (node : PeerId) :
    store.connections node = (store.record node).connections.getD ∅ := rfl

/-- The registry determines the storage. -/
theorem ext_record {left right : Store AccountId}
    (h : ∀ node, left.record node = right.record node) : left = right := by
  ext1
  · ext node
    exact iff_of_eq (congrArg NodeRecord.wellKnown (h node))
  · exact StorageMap.ext fun node => congrArg NodeRecord.owner (h node)
  · exact StorageMap.ext fun node => congrArg NodeRecord.connections (h node)

end Store

/-- The owner a list of entries gives to a node: the one listed last. -/
def lastOwner (nodes : List (PeerId × AccountId)) (node : PeerId) : Option AccountId :=
  nodes.reverse.lookup node

theorem tryGet_insertOwners (nodes : List (PeerId × AccountId))
    (entries : StorageMap PeerId AccountId) (node : PeerId) :
    (nodes.foldl (fun entries entry => entries.insert entry.1 entry.2) entries).tryGet node =
      (lastOwner nodes node).or (entries.tryGet node) := by
  induction nodes generalizing entries with
  | nil => rfl
  | cons entry rest ih =>
      obtain ⟨listed, owner⟩ := entry
      rw [List.foldl_cons, ih, lastOwner, lastOwner, List.reverse_cons, List.lookup_append,
        Option.or_assoc, StorageMap.tryGet_insert]
      by_cases heq : node = listed
      · simp [heq]
      · simp [List.lookup_cons, heq, beq_false_of_ne heq]

/-- A node has a last owner exactly when it is listed. -/
theorem lastOwner_isSome_iff (nodes : List (PeerId × AccountId)) (node : PeerId) :
    (lastOwner nodes node).isSome ↔ node ∈ nodes.map Prod.fst := by
  rw [lastOwner, List.lookup_isSome_iff, List.mem_map]
  constructor
  · rintro ⟨entry, hentry, heq⟩
    exact ⟨entry, List.mem_reverse.mp hentry, (beq_iff_eq.mp heq).symm⟩
  · rintro ⟨entry, hentry, heq⟩
    exact ⟨entry, List.mem_reverse.mpr hentry, beq_iff_eq.mpr heq.symm⟩

theorem lastOwner_eq_none_iff (nodes : List (PeerId × AccountId)) (node : PeerId) :
    lastOwner nodes node = none ↔ node ∉ nodes.map Prod.fst := by
  rw [← Option.not_isSome_iff_eq_none, lastOwner_isSome_iff]

/-- The effect of an event on the registry. -/
def Registry.evolve (registry : Registry AccountId) : Event AccountId → Registry AccountId
  | .nodeAdded node owner => Function.update registry node
      { registry node with wellKnown := True, owner := some owner }
  | .nodeRemoved node => Function.update registry node .vacant
  | .nodeSwapped remove add => registry ∘ Equiv.swap remove add
  | .nodesReset nodes => fun node =>
      { registry node with
        wellKnown := node ∈ nodes.map Prod.fst
        owner := (lastOwner nodes node).or (registry node).owner }
  | .nodeClaimed node owner => Function.update registry node
      { registry node with owner := some owner }
  | .claimRemoved node _ => Function.update registry node
      { registry node with owner := none, connections := none }
  | .nodeTransferred node owner => Function.update registry node
      { registry node with owner := some owner }
  | .connectionsAdded node connections => Function.update registry node
      { registry node with
        connections := some
          (extendConnections node connections ((registry node).connections.getD ∅)) }
  | .connectionsRemoved node connections => Function.update registry node
      { registry node with
        connections := some (reduceConnections connections ((registry node).connections.getD ∅)) }

/-! ## The storage simulates the registry -/

theorem Store.record_eq_update {store next : Store AccountId} {node : PeerId}
    {entry : NodeRecord AccountId} (hself : next.record node = entry)
    (hother : ∀ other, other ≠ node → next.record other = store.record other) :
    next.record = Function.update store.record node entry := by
  funext other
  by_cases heq : other = node
  · subst other
    rw [Function.update_self, hself]
  · rw [Function.update_of_ne heq, hother other heq]

/-- Under its guards a swap is the transposition of the two records. The set is
edited by removal and insertion, the maps by raw exchange; both describe the
same permutation because one node is a member and the other is not. -/
theorem record_evolve_swapped (store : Store AccountId) {remove add : PeerId}
    (hne : remove ≠ add) (hmem : remove ∈ store.wellKnownNodes)
    (hnew : add ∉ store.wellKnownNodes) :
    (evolve store (.nodeSwapped remove add)).record = store.record ∘ Equiv.swap remove add := by
  funext node
  ext1
  · simp only [evolve, Store.record, Function.comp_apply, Finset.mem_insert, Finset.mem_erase,
      Equiv.swap_apply_def, eq_iff_iff]
    by_cases hremove : node = remove
    · subst node
      simp [hne, hnew]
    · by_cases hadd : node = add
      · subst node
        simp [hremove, hmem]
      · simp [hremove, hadd]
  · exact StorageMap.tryGet_swap _ _ _ _
  · exact StorageMap.tryGet_swap _ _ _ _

theorem record_evolve_reset (store : Store AccountId) (nodes : List (PeerId × AccountId)) :
    (evolve store (.nodesReset nodes)).record =
      Registry.evolve store.record (.nodesReset nodes) := by
  funext node
  ext1
  · exact propext List.mem_toFinset
  · exact tryGet_insertOwners nodes store.owners node
  · rfl

theorem record_setOwner (store : Store AccountId) (node : PeerId) (owner : AccountId) :
    { store with owners := store.owners.insert node owner }.record =
      Function.update store.record node { store.record node with owner := some owner } := by
  apply Store.record_eq_update
  · simp [Store.record, StorageMap.tryGet_insert]
  · intro other hne
    simp [Store.record, StorageMap.tryGet_insert, hne]

theorem record_setConnections (store : Store AccountId) (node : PeerId) (nodes : Finset PeerId) :
    { store with
      additionalConnections := store.additionalConnections.insert node nodes }.record =
      Function.update store.record node { store.record node with connections := some nodes } := by
  apply Store.record_eq_update
  · simp [Store.record, StorageMap.tryGet_insert]
  · intro other hne
    simp [Store.record, StorageMap.tryGet_insert, hne]

/-- Every permitted event acts on the registry as described. -/
theorem record_evolve {config : Config AccountId} {store : Store AccountId}
    {extrinsic : Extrinsic AccountId} {event : Event AccountId}
    (hpermits : Permits config store extrinsic event) :
    (evolve store event).record = Registry.evolve store.record event := by
  cases hpermits with
  | swap horigin hremove hadd hne hmem hnew => exact record_evolve_swapped store hne hmem hnew
  | reset horigin hcount => exact record_evolve_reset store _
  | add horigin hlength hcount hnew =>
      apply Store.record_eq_update
      · simp [evolve, Store.record, StorageMap.tryGet_insert]
      · intro other hne
        simp [evolve, Store.record, StorageMap.tryGet_insert, hne]
  | remove horigin hlength hmem =>
      apply Store.record_eq_update
      · simp [evolve, Store.record, StorageMap.tryGet_remove, NodeRecord.vacant]
      · intro other hne
        simp [evolve, Store.record, StorageMap.tryGet_remove, hne]
  | claim hlength hfree => exact record_setOwner store _ _
  | unclaim hlength howner hnot =>
      apply Store.record_eq_update
      · simp [evolve, Store.record, StorageMap.tryGet_remove]
      · intro other hne
        simp [evolve, Store.record, StorageMap.tryGet_remove, hne]
  | transfer hlength howner => exact record_setOwner store _ _
  | connect hlength howner => exact record_setConnections store _ _
  | disconnect hlength howner => exact record_setConnections store _ _

/-- A condition on single records survives the edit of one record that meets it. -/
theorem Registry.forall_update {registry : Registry AccountId}
    (holds : PeerId → NodeRecord AccountId → Prop) (hregistry : ∀ node, holds node (registry node))
    {node : PeerId} {entry : NodeRecord AccountId} (hentry : holds node entry) (other : PeerId) :
    holds other (Function.update registry node entry other) :=
  (Function.forall_update_iff registry holds).mpr ⟨hentry, fun _ _ => hregistry _⟩ other

/-! ## Locality -/

/-- The nodes whose records an event may change or read. -/
def Event.subjects : Event AccountId → Set PeerId
  | .nodeSwapped remove add => {remove, add}
  | .nodesReset _ => Set.univ
  | .nodeAdded node _ | .nodeRemoved node | .nodeClaimed node _ | .claimRemoved node _
  | .nodeTransferred node _ | .connectionsAdded node _ | .connectionsRemoved node _ => {node}

namespace Registry

variable (registry : Registry AccountId) {node : PeerId} {event : Event AccountId}

/-- An event leaves the records of all other nodes alone. -/
theorem evolve_of_notMem (hnode : node ∉ event.subjects) :
    registry.evolve event node = registry node := by
  cases event with
  | nodeSwapped remove add =>
      simp only [Event.subjects, Set.mem_insert_iff, Set.mem_singleton_iff, not_or] at hnode
      exact congrArg registry (Equiv.swap_apply_of_ne_of_ne hnode.1 hnode.2)
  | nodesReset nodes => exact absurd (Set.mem_univ node) hnode
  | nodeAdded _ _ | nodeRemoved _ | nodeClaimed _ _ | claimRemoved _ _ | nodeTransferred _ _
  | connectionsAdded _ _ | connectionsRemoved _ _ => exact Function.update_of_ne hnode _ _

/-- What an event does to its subjects depends on their records alone. -/
theorem evolve_congr {left right : Registry AccountId}
    (hagree : ∀ subject ∈ event.subjects, left subject = right subject)
    (hnode : node ∈ event.subjects) : left.evolve event node = right.evolve event node := by
  cases event with
  | nodeSwapped remove add =>
      refine hagree _ ?_
      simp only [Event.subjects, Set.mem_insert_iff, Set.mem_singleton_iff] at hnode ⊢
      rcases hnode with rfl | rfl
      · exact Or.inr (Equiv.swap_apply_left _ _)
      · exact Or.inl (Equiv.swap_apply_right _ _)
  | nodesReset nodes => simp only [evolve, hagree node hnode]
  | nodeAdded _ _ | nodeRemoved _ | nodeClaimed _ _ | claimRemoved _ _ | nodeTransferred _ _
  | connectionsAdded _ _ | connectionsRemoved _ _ =>
      cases hnode
      simp only [evolve, Function.update_self, hagree _ rfl]

/-- Events with different subjects commute. -/
theorem evolve_comm {first second : Event AccountId}
    (hdisjoint : ∀ subject ∈ first.subjects, subject ∉ second.subjects) :
    (registry.evolve first).evolve second = (registry.evolve second).evolve first := by
  have hkeep : ∀ subject ∈ first.subjects,
      registry.evolve second subject = registry subject := fun _ hmem =>
    registry.evolve_of_notMem (hdisjoint _ hmem)
  have hkeep' : ∀ subject ∈ second.subjects,
      registry.evolve first subject = registry subject := fun _ hmem =>
    registry.evolve_of_notMem fun hfirst => hdisjoint _ hfirst hmem
  funext node
  by_cases hfirst : node ∈ first.subjects
  · rw [evolve_of_notMem _ (hdisjoint _ hfirst), evolve_congr hkeep hfirst]
  · by_cases hsecond : node ∈ second.subjects
    · rw [evolve_congr hkeep' hsecond, evolve_of_notMem _ hfirst]
    · rw [evolve_of_notMem _ hsecond, evolve_of_notMem _ hfirst, evolve_of_notMem _ hfirst,
        evolve_of_notMem _ hsecond]

end Registry

end SupraClient.Authorization
