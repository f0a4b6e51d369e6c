import SupraClient.Authorization.Invariants

/-! # Initialization of the well known nodes

Genesis and resets share one helper. It collects the listed identifiers into
the new set, and writes the owners one after the other, so that of several
owners listed for one node the last one stays. Nothing is erased: a node that
loses its place keeps its owner, who may then give it up.
-/

namespace SupraClient.Authorization

open Frame Frame.Dispatch

variable {AccountId : Type}

/-! ## The owner listed last -/

/-- The last owner of a node comes from the last entry that names it. -/
theorem lastOwner_eq_some_iff (nodes : List (PeerId × AccountId)) (node : PeerId)
    (owner : AccountId) :
    lastOwner nodes node = some owner ↔
      ∃ before after, nodes = before ++ (node, owner) :: after ∧ node ∉ after.map Prod.fst := by
  constructor
  · intro hlast
    -- the list is searched from its end
    obtain ⟨after, before, hsplit, hafter⟩ := List.lookup_eq_some_iff.mp hlast
    refine ⟨before.reverse, after.reverse, ?_, ?_⟩
    · rw [← List.reverse_reverse nodes, hsplit]
      simp
    · intro hmem
      obtain ⟨entry, hentry, rfl⟩ := List.mem_map.mp hmem
      simpa using hafter entry (List.mem_reverse.mp hentry)
  · intro hsplit
    obtain ⟨before, after, rfl, hafter⟩ := hsplit
    have hnone : after.reverse.lookup node = none := (lastOwner_eq_none_iff after node).mpr hafter
    rw [lastOwner, List.reverse_append, List.reverse_cons, List.append_assoc, List.lookup_append,
      hnone, Option.none_or, List.singleton_append, List.lookup_cons_self]

/-- When equal nodes carry equal owners, being listed is all that counts. -/
theorem lastOwner_eq_some_iff_mem {nodes : List (PeerId × AccountId)}
    (hagree : ∀ node left right, (node, left) ∈ nodes → (node, right) ∈ nodes → left = right)
    (node : PeerId) (owner : AccountId) :
    lastOwner nodes node = some owner ↔ (node, owner) ∈ nodes := by
  constructor
  · intro hlast
    obtain ⟨before, after, rfl, -⟩ := (lastOwner_eq_some_iff _ _ _).mp hlast
    exact List.mem_append_right before List.mem_cons_self
  · intro hmem
    obtain ⟨last, hlast⟩ := Option.isSome_iff_exists.mp
      ((lastOwner_isSome_iff nodes node).mpr (List.mem_map.mpr ⟨_, hmem, rfl⟩))
    obtain ⟨before, after, hsplit, -⟩ := (lastOwner_eq_some_iff _ _ _).mp hlast
    have hlisted : (node, last) ∈ nodes := by
      rw [hsplit]
      exact List.mem_append_right before List.mem_cons_self
    rw [hlast, hagree node last owner hlisted hmem]

theorem lastOwner_perm {nodes permuted : List (PeerId × AccountId)} (hperm : nodes.Perm permuted)
    (hagree : ∀ node left right, (node, left) ∈ nodes → (node, right) ∈ nodes → left = right)
    (node : PeerId) : lastOwner permuted node = lastOwner nodes node := by
  have hagree' : ∀ node left right, (node, left) ∈ permuted → (node, right) ∈ permuted →
      left = right := fun node left right hleft hright =>
    hagree node left right (hperm.mem_iff.mpr hleft) (hperm.mem_iff.mpr hright)
  ext owner
  rw [lastOwner_eq_some_iff_mem hagree', lastOwner_eq_some_iff_mem hagree, hperm.mem_iff]

/-! ## Resets of the registry -/

theorem evolve_reset_reset (store : Store AccountId) (nodes : List (PeerId × AccountId)) :
    evolve (evolve store (.nodesReset nodes)) (.nodesReset nodes) =
      evolve store (.nodesReset nodes) := by
  apply Store.ext_record
  intro node
  rw [record_evolve_reset, record_evolve_reset]
  ext1
  · rfl
  · simp only [Registry.evolve, ← Option.or_assoc, Option.or_self]
  · rfl

theorem evolve_reset_perm (store : Store AccountId) {nodes permuted : List (PeerId × AccountId)}
    (hperm : nodes.Perm permuted)
    (hagree : ∀ node left right, (node, left) ∈ nodes → (node, right) ∈ nodes → left = right) :
    evolve store (.nodesReset permuted) = evolve store (.nodesReset nodes) := by
  apply Store.ext_record
  intro node
  rw [record_evolve_reset, record_evolve_reset]
  ext1
  · exact propext (hperm.map Prod.fst).mem_iff.symm
  · simp only [Registry.evolve, lastOwner_perm hperm hagree]
  · rfl

variable [DecidableEq AccountId] [Inhabited AccountId]

/-- After a reset the owner of an unlisted node is as before, and may remove the
claim on it. -/
theorem removeClaim_after_reset (config : Config AccountId) (chain : Chain AccountId)
    (nodes : List (PeerId × AccountId)) {node : PeerId} {owner : AccountId}
    (howner : chain.store.owners.tryGet node = some owner)
    (hunlisted : node ∉ nodes.map Prod.fst)
    (hlength : node.bytes.length < config.maxPeerIdLength) :
    let removed := (dispatch config (.signed owner, .removeClaim node)).exec
      (perform chain (.nodesReset nodes))
    removed.1 = .ok () ∧ removed.2.store.owners.tryGet node = none ∧
      removed.2.store.additionalConnections.tryGet node = none := by
  have hkept : (perform chain (.nodesReset nodes)).store.owners.tryGet node = some owner := by
    refine (tryGet_insertOwners nodes chain.store.owners node).trans ?_
    rw [(lastOwner_eq_none_iff nodes node).mpr hunlisted, Option.none_or, howner]
  have hnot : node ∉ (perform chain (.nodesReset nodes)).store.wellKnownNodes :=
    fun hmem => hunlisted (List.mem_toFinset.mp hmem)
  intro removed
  have hremoved : removed = (.ok (), perform (perform chain (.nodesReset nodes))
      (.claimRemoved node owner)) := exec_of_permits (.unclaim hlength hkept hnot)
  rw [hremoved]
  simp [perform, evolve, StorageMap.tryGet_remove]

/-- Initialization over lists with repetitions: the set is that of the listed
nodes, each listed node gets the owner of the last entry naming it, and the rest
stays. Doing it twice is doing it once, the order of consistent entries is
irrelevant, and what a reset leaves behind can be cleaned up. -/
theorem initializeNodes_spec (config : Config AccountId) (chain : Chain AccountId)
    (nodes : List (PeerId × AccountId)) :
    let next := ((initializeNodes nodes).exec chain).2
    ((initializeNodes nodes).exec chain).1 = .ok () ∧
      (∀ node, node ∈ next.store.wellKnownNodes ↔ ∃ owner, (node, owner) ∈ nodes) ∧
      (∀ before node owner after, nodes = before ++ (node, owner) :: after →
        node ∉ after.map Prod.fst → next.store.owners.tryGet node = some owner) ∧
      (∀ node, node ∉ nodes.map Prod.fst →
        next.store.owners.tryGet node = chain.store.owners.tryGet node) ∧
      next.store.additionalConnections = chain.store.additionalConnections ∧
      ((initializeNodes nodes).exec next).2 = next ∧
      (∀ permuted, nodes.Perm permuted →
        (∀ node left right, (node, left) ∈ nodes → (node, right) ∈ nodes → left = right) →
        ((initializeNodes permuted).exec chain).2 = next) ∧
      ∀ origin, ((dispatch config (origin, .resetWellKnownNodes nodes)).exec chain).1 = .ok () →
        let reset := ((dispatch config (origin, .resetWellKnownNodes nodes)).exec chain).2
        reset.store = next.store ∧ ∀ node ∈ chain.store.wellKnownNodes, ∀ owner,
          chain.store.owners.tryGet node = some owner → node ∉ nodes.map Prod.fst →
          node.bytes.length < config.maxPeerIdLength →
          let removed := (dispatch config (.signed owner, .removeClaim node)).exec reset
          removed.1 = .ok () ∧ removed.2.store.owners.tryGet node = none ∧
            removed.2.store.additionalConnections.tryGet node = none := by
  intro next
  have hnext : next = { chain with store := evolve chain.store (.nodesReset nodes) } := by
    change ((initializeNodes nodes).exec chain).2 = _
    rw [exec_initializeNodes]
  have howners : ∀ node, next.store.owners.tryGet node =
      (lastOwner nodes node).or (chain.store.owners.tryGet node) := fun node => by
    rw [hnext]
    exact tryGet_insertOwners nodes chain.store.owners node
  refine ⟨by rw [exec_initializeNodes], ?_, ?_, ?_, ?_, ?_, ?_, ?_⟩
  · intro node
    rw [hnext]
    simp [evolve]
  · intro before node owner after hsplit hafter
    rw [howners, (lastOwner_eq_some_iff nodes node owner).mpr ⟨before, after, hsplit, hafter⟩,
      Option.some_or]
  · intro node hunlisted
    rw [howners, (lastOwner_eq_none_iff nodes node).mpr hunlisted, Option.none_or]
  · rw [hnext]
    rfl
  · rw [exec_initializeNodes, hnext, evolve_reset_reset]
  · intro permuted hperm hagree
    rw [exec_initializeNodes, hnext, evolve_reset_perm chain.store hperm hagree]
  · intro origin hok
    obtain ⟨event, hpermits, hexec⟩ := permits_of_ok hok (by simp)
    rw [hexec]
    cases hpermits
    refine ⟨by rw [hnext]; rfl, fun node _ owner howner hunlisted hlength => ?_⟩
    exact removeClaim_after_reset config chain nodes howner hunlisted hlength

/-- A node listed twice belongs to the owner listed last. -/
example : (genesis [(testNode 1, 10), (testNode 2, 20), (testNode 1, 30)]).store.owners.tryGet
    (testNode 1) = some 30 := by decide

end SupraClient.Authorization
