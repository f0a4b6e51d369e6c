import SupraClient.Authorization.Swap

/-! # Admission of well known nodes

Three calls admit well known nodes, and each has a check of its own: an
addition looks at the size of the set, a swap at the membership of its two
nodes, a reset at the length of its list. Genesis has none. Together the checks
keep the set within the configured maximum once it is there. They do not agree
on the maximum itself: additions may fill the set up to it, a reset may not.
-/

namespace SupraClient.Authorization

open Frame Frame.Dispatch

variable {AccountId : Type}

/-! ## The size of the set -/

/-- No permitted event enlarges the set beyond the maximum. -/
theorem card_evolve_le {config : Config AccountId} {store : Store AccountId}
    {extrinsic : Extrinsic AccountId} {event : Event AccountId}
    (hpermits : Permits config store extrinsic event) :
    (evolve store event).wellKnownNodes.card ≤
      max config.maxWellKnownNodes store.wellKnownNodes.card := by
  cases hpermits with
  | add horigin hlength hcount hnew =>
      apply le_max_of_le_left
      simp only [evolve, Finset.card_insert_of_notMem hnew]
      exact hcount
  | remove horigin hlength hmem => exact le_max_of_le_right Finset.card_erase_le
  | swap horigin hremove hadd hne hmem hnew =>
      exact le_max_of_le_right (card_wellKnownNodes_swapped store hmem hnew).le
  | @reset _ nodes horigin hcount =>
      apply le_max_of_le_left
      calc ((nodes.map Prod.fst).toFinset).card
          ≤ (nodes.map Prod.fst).length := List.toFinset_card_le _
        _ = nodes.length := List.length_map _
        _ ≤ config.maxWellKnownNodes := hcount.le
  | claim hlength hfree => exact le_max_right _ _
  | unclaim hlength howner hnot => exact le_max_right _ _
  | transfer hlength howner => exact le_max_right _ _
  | connect hlength howner => exact le_max_right _ _
  | disconnect hlength howner => exact le_max_right _ _

variable [DecidableEq AccountId] [Inhabited AccountId]

theorem run_card_le (config : Config AccountId) (chain : Chain AccountId)
    (extrinsics : List (Extrinsic AccountId)) :
    (run (dispatch config) chain extrinsics).store.wellKnownNodes.card ≤
      max config.maxWellKnownNodes chain.store.wellKnownNodes.card := by
  refine (dispatch_implements config).run_store_invariant
    (fun store => store.wellKnownNodes.card ≤
      max config.maxWellKnownNodes chain.store.wellKnownNodes.card) ?_ (le_max_right _ _) extrinsics
  intro store extrinsic event hdecide hstore
  have hevent := card_evolve_le (permits_of_decide hdecide)
  exact hevent.trans (max_le (le_max_left _ _) hstore)

/-- The set never outgrows the maximum and the genesis list, and once within
the maximum it stays there. -/
theorem wellKnownNodes_bounded (config : Config AccountId) (nodes : List (PeerId × AccountId))
    (extrinsics : List (Extrinsic AccountId)) :
    (runFrom config nodes extrinsics).store.wellKnownNodes.card ≤
        max config.maxWellKnownNodes (nodes.map Prod.fst).toFinset.card ∧
      ∀ done later, done <+: later → later <+: extrinsics →
        (runFrom config nodes done).store.wellKnownNodes.card ≤ config.maxWellKnownNodes →
        (runFrom config nodes later).store.wellKnownNodes.card ≤ config.maxWellKnownNodes := by
  constructor
  · have hgenesis : (genesis nodes).store.wellKnownNodes = (nodes.map Prod.fst).toFinset := by
      rw [genesis_eq]
      rfl
    rw [← hgenesis]
    exact run_card_le config (genesis nodes) extrinsics
  · intro done later hlater _ hdone
    obtain ⟨rest, rfl⟩ := hlater
    have hrest := run_card_le config (runFrom config nodes done) rest
    rw [max_eq_left hdone] at hrest
    rwa [runFrom, run_append]

/-! ## Resets against additions -/

/-- The additions of the listed nodes, one by one. -/
def additions (origin : RawOrigin AccountId) (nodes : List (PeerId × AccountId)) :
    List (Extrinsic AccountId) :=
  nodes.map fun entry => (origin, .addWellKnownNode entry.1 entry.2)

/-- The reset to a list and the additions of its nodes are accepted together,
and then store the same. -/
def ResetMatchesAdditions (config : Config AccountId) (chain : Chain AccountId)
    (resetter adder : RawOrigin AccountId) (nodes : List (PeerId × AccountId)) : Prop :=
  let reset := (dispatch config (resetter, .resetWellKnownNodes nodes)).exec chain
  (reset.1 = .ok () ↔ AllOk (dispatch config) chain (additions adder nodes)) ∧
    (reset.1 = .ok () → AllOk (dispatch config) chain (additions adder nodes) →
      reset.2.store = (run (dispatch config) chain (additions adder nodes)).store)

theorem reset_ok_iff (config : Config AccountId) (chain : Chain AccountId)
    {origin : RawOrigin AccountId} (horigin : config.resetOrigin origin = true)
    (nodes : List (PeerId × AccountId)) :
    ((dispatch config (origin, .resetWellKnownNodes nodes)).exec chain).1 = .ok () ↔
      nodes.length < config.maxWellKnownNodes := by
  constructor
  · intro hok
    obtain ⟨event, hpermits, -⟩ := permits_of_ok hok (by simp)
    cases hpermits with
    | reset _ hcount => exact hcount
  · intro hcount
    rw [exec_of_permits (.reset horigin hcount)]

/-- Additions of new nodes succeed as long as there is room for all of them. -/
theorem additions_ok_iff (config : Config AccountId) {origin : RawOrigin AccountId}
    (horigin : config.addOrigin origin = true) (nodes : List (PeerId × AccountId))
    (hdistinct : (nodes.map Prod.fst).Nodup)
    (hlength : ∀ entry ∈ nodes, entry.1.bytes.length < config.maxPeerIdLength)
    (chain : Chain AccountId) (hnew : ∀ entry ∈ nodes, entry.1 ∉ chain.store.wellKnownNodes)
    (hroom : chain.store.wellKnownNodes.card ≤ config.maxWellKnownNodes) :
    AllOk (dispatch config) chain (additions origin nodes) ↔
      chain.store.wellKnownNodes.card + nodes.length ≤ config.maxWellKnownNodes := by
  induction nodes generalizing chain with
  | nil => exact iff_of_true trivial hroom
  | cons entry rest ih =>
      obtain ⟨node, owner⟩ := entry
      rw [List.map_cons, List.nodup_cons] at hdistinct
      have hfresh := hnew _ List.mem_cons_self
      rw [additions, List.map_cons, allOk_cons, List.length_cons]
      by_cases hcount : chain.store.wellKnownNodes.card < config.maxWellKnownNodes
      · -- the first addition succeeds, and the others find one more member
        rw [exec_of_permits (.add horigin (hlength _ List.mem_cons_self) hcount hfresh)]
        have hcard : (perform chain (.nodeAdded node owner)).store.wellKnownNodes.card =
            chain.store.wellKnownNodes.card + 1 := Finset.card_insert_of_notMem hfresh
        have hrest := ih hdistinct.2
          (fun other hother => hlength other (List.mem_cons_of_mem _ hother))
          (perform chain (.nodeAdded node owner)) ?_ (by omega)
        · rw [hcard] at hrest
          simp only [true_and]
          exact hrest.trans (by omega)
        · intro other hother hmem
          rcases Finset.mem_insert.mp hmem with heq | hold
          · exact hdistinct.1 (List.mem_map.mpr ⟨other, hother, heq⟩)
          · exact hnew other (List.mem_cons_of_mem _ hother) hold
      · refine iff_of_false (fun hok => ?_) (by omega)
        obtain ⟨event, hpermits, -⟩ := permits_of_ok hok.1 (by simp)
        cases hpermits with
        | add _ _ hcount' _ => exact hcount hcount'

/-- Successful additions insert the listed nodes and their owners. -/
theorem store_of_additions_ok (config : Config AccountId) (origin : RawOrigin AccountId)
    (nodes : List (PeerId × AccountId)) (chain : Chain AccountId)
    (hok : AllOk (dispatch config) chain (additions origin nodes)) :
    (run (dispatch config) chain (additions origin nodes)).store =
      { chain.store with
        wellKnownNodes := chain.store.wellKnownNodes ∪ (nodes.map Prod.fst).toFinset
        owners := nodes.foldl (fun entries entry => entries.insert entry.1 entry.2)
          chain.store.owners } := by
  induction nodes generalizing chain with
  | nil => simp [additions]
  | cons entry rest ih =>
      obtain ⟨node, owner⟩ := entry
      obtain ⟨hhead, htail⟩ := hok
      obtain ⟨event, hpermits, hexec⟩ := permits_of_ok hhead (by simp)
      cases hpermits
      rw [hexec] at htail
      rw [additions, List.map_cons, run_cons, hexec]
      refine (ih _ htail).trans ?_
      simp [perform, evolve, Finset.insert_union, Finset.union_insert]

/-- In storage without well known nodes the two ways agree on a list of distinct
and short nodes except at the maximum itself, where only the additions are
accepted. -/
theorem resetMatchesAdditions_iff (config : Config AccountId) (chain : Chain AccountId)
    (hempty : chain.store.wellKnownNodes = ∅) {resetter adder : RawOrigin AccountId}
    (hresetter : config.resetOrigin resetter = true) (hadder : config.addOrigin adder = true)
    (nodes : List (PeerId × AccountId)) (hdistinct : (nodes.map Prod.fst).Nodup)
    (hlength : ∀ entry ∈ nodes, entry.1.bytes.length < config.maxPeerIdLength) :
    ResetMatchesAdditions config chain resetter adder nodes ↔
      nodes.length ≠ config.maxWellKnownNodes := by
  have hreset := reset_ok_iff config chain hresetter nodes
  have hadditions := additions_ok_iff config hadder nodes hdistinct hlength chain
    (by simp [hempty]) (by simp [hempty])
  rw [hempty, Finset.card_empty, Nat.zero_add] at hadditions
  rw [ResetMatchesAdditions, hreset, hadditions]
  constructor
  · intro hmatches heq
    have hlt := hmatches.1.mpr heq.le
    omega
  · intro hne
    -- off the boundary the two checks agree, below it both ways write the same
    refine ⟨by omega, fun hcount hroom => ?_⟩
    rw [exec_of_permits (.reset hresetter hcount),
      store_of_additions_ok config adder nodes chain (hadditions.mpr hroom), hempty,
      Finset.empty_union]
    rfl

/-- Below the maximum of the tests the two ways agree. -/
theorem resetMatchesAdditions_three :
    ResetMatchesAdditions mockConfig emptyChain (.signed 4) (.signed 1)
      [(testNode 15, 15), (testNode 5, 5), (testNode 20, 20)] :=
  (resetMatchesAdditions_iff mockConfig emptyChain rfl rfl rfl
    [(testNode 15, 15), (testNode 5, 5), (testNode 20, 20)] (by decide) (by decide)).mpr (by decide)

/-- Four additions fill the set of the tests to its maximum of four, and the
reset to the same four nodes is refused. -/
theorem resetMatchesAdditions_fails_at_maximum :
    let nodes := [(testNode 15, 15), (testNode 5, 5), (testNode 20, 20), (testNode 25, 25)]
    nodes.length = mockConfig.maxWellKnownNodes ∧
      AllOk (dispatch mockConfig) emptyChain (additions (.signed 1) nodes) ∧
      ((dispatch mockConfig (.signed 4, .resetWellKnownNodes nodes)).exec emptyChain).1 =
        .error (.module .tooManyNodes) ∧
      ¬ ResetMatchesAdditions mockConfig emptyChain (.signed 4) (.signed 1) nodes := by
  intro nodes
  have hadditions : AllOk (dispatch mockConfig) emptyChain (additions (.signed 1) nodes) :=
    ⟨by decide, by decide, by decide, by decide, trivial⟩
  have hreset : ((dispatch mockConfig (.signed 4, .resetWellKnownNodes nodes)).exec
      emptyChain).1 = .error (.module .tooManyNodes) := by decide
  refine ⟨rfl, hadditions, hreset, fun hmatches => ?_⟩
  have hok := hmatches.1.mpr hadditions
  rw [hreset] at hok
  cases hok

end SupraClient.Authorization
