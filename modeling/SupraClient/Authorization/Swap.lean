import SupraClient.Authorization.Invariants

/-! # Swaps of well known nodes

A swap hands the place of one node to another one: the storage before and after
differ by the transposition of the two keys, in all three items at once. Counts
are therefore unchanged, and the swap back undoes the swap.
-/

namespace SupraClient.Authorization

open Frame

variable {AccountId : Type}

/-- One node out, one in. -/
theorem card_wellKnownNodes_swapped (store : Store AccountId) {remove add : PeerId}
    (hmem : remove ∈ store.wellKnownNodes) (hnew : add ∉ store.wellKnownNodes) :
    (evolve store (.nodeSwapped remove add)).wellKnownNodes.card = store.wellKnownNodes.card := by
  have hadd : add ∉ store.wellKnownNodes.erase remove :=
    fun hmem => hnew (Finset.mem_of_mem_erase hmem)
  simp only [evolve, Finset.card_insert_of_notMem hadd, Finset.card_erase_add_one hmem]

/-- After a swap its nodes stand the other way around, ready to be swapped back. -/
theorem swapped_membership (store : Store AccountId) {remove add : PeerId}
    (hne : remove ≠ add) :
    add ∈ (evolve store (.nodeSwapped remove add)).wellKnownNodes ∧
      remove ∉ (evolve store (.nodeSwapped remove add)).wellKnownNodes := by
  simp [evolve, hne]

/-- Swapping there and back is the identity on the storage. -/
theorem evolve_swapped_back (store : Store AccountId) {remove add : PeerId} (hne : remove ≠ add)
    (hmem : remove ∈ store.wellKnownNodes) (hnew : add ∉ store.wellKnownNodes) :
    evolve (evolve store (.nodeSwapped remove add)) (.nodeSwapped add remove) = store := by
  obtain ⟨hmem', hnew'⟩ := swapped_membership store hne
  apply Store.ext_record
  intro node
  rw [record_evolve_swapped _ hne.symm hmem' hnew', Function.comp_apply,
    record_evolve_swapped store hne hmem hnew, Function.comp_apply, Equiv.swap_comm add remove,
    Equiv.swap_apply_self]

variable [DecidableEq AccountId] [Inhabited AccountId]

/-- A successful swap of two different nodes exchanges their keys in the set and
in both maps, keeps every count, and is undone by the swap back. -/
theorem swap_is_transposition (config : Config AccountId) (chain : Chain AccountId)
    (origin : RawOrigin AccountId) {remove add : PeerId} (hne : remove ≠ add)
    (hok : ((dispatch config (origin, .swapWellKnownNode remove add)).exec chain).1 = .ok ()) :
    let next := ((dispatch config (origin, .swapWellKnownNode remove add)).exec chain).2
    (∀ node, node ∈ next.store.wellKnownNodes ↔
        Equiv.swap remove add node ∈ chain.store.wellKnownNodes) ∧
      (∀ node, next.store.owners.tryGet node =
        chain.store.owners.tryGet (Equiv.swap remove add node)) ∧
      (∀ node, next.store.additionalConnections.tryGet node =
        chain.store.additionalConnections.tryGet (Equiv.swap remove add node)) ∧
      next.store.wellKnownNodes.card = chain.store.wellKnownNodes.card ∧
      (∀ account, (next.store.owners.keysOf account).card =
        (chain.store.owners.keysOf account).card) ∧
      config.swapOrigin origin = true ∧
      ∀ swapper, config.swapOrigin swapper = true →
        let back := (dispatch config (swapper, .swapWellKnownNode add remove)).exec next
        back.1 = .ok () ∧ back.2.store = chain.store := by
  obtain ⟨event, hpermits, hexec⟩ := permits_of_ok hok (fun node heq => hne (by cases heq; rfl))
  rw [hexec]
  cases hpermits with
  | swap horigin hremove hadd _ hmem hnew =>
      have hrecord := record_evolve_swapped chain.store hne hmem hnew
      obtain ⟨hmem', hnew'⟩ := swapped_membership chain.store hne
      refine ⟨fun node => iff_of_eq (congrArg NodeRecord.wellKnown (congrFun hrecord node)),
        fun node => congrArg NodeRecord.owner (congrFun hrecord node),
        fun node => congrArg NodeRecord.connections (congrFun hrecord node),
        card_wellKnownNodes_swapped chain.store hmem hnew,
        fun account => StorageMap.card_keysOf_swap _ _ _ account, horigin, ?_⟩
      intro swapper hswapper back
      have hback : back = (.ok (), perform (perform chain (.nodeSwapped remove add))
          (.nodeSwapped add remove)) :=
        exec_of_permits (.swap hswapper hadd hremove hne.symm hmem' hnew')
      rw [hback]
      exact ⟨rfl, evolve_swapped_back chain.store hne hmem hnew⟩

/-- A swap onto a node that a third party has claimed and connected: the claim
moves to the key of the node that leaves. -/
theorem swap_with_claimed_node :
    let chain := runFrom mockConfig [(testNode 10, 10)]
      [(.signed 7, .claimNode (testNode 5)),
        (.signed 7, .addConnections (testNode 5) [testNode 30])]
    let next := ((dispatch mockConfig (.signed 3, .swapWellKnownNode (testNode 10)
      (testNode 5))).exec chain).2
    next.store.owners.tryGet (testNode 10) = some 7 ∧
      next.store.additionalConnections.tryGet (testNode 5) = none ∧
      ((dispatch mockConfig (.signed 3, .swapWellKnownNode (testNode 5)
        (testNode 10))).exec next).2.store = chain.store := by
  intro chain next
  obtain ⟨-, howners, hconnections, -, -, -, hback⟩ :=
    swap_is_transposition mockConfig chain (.signed 3)
      (show testNode 10 ≠ testNode 5 by decide) (by decide)
  exact ⟨(howners (testNode 10)).trans (by decide), (hconnections (testNode 5)).trans (by decide),
    (hback (.signed 3) rfl).2⟩

end SupraClient.Authorization
