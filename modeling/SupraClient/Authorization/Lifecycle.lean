import SupraClient.Authorization.Invariants

/-! # Joining and leaving

A node without an owner has no record at all in a reachable chain. Whatever its
successive owners do to it after it has joined concerns its own record only, so
that leaving brings the storage back to where it was, present keys included.
-/

namespace SupraClient.Authorization

open Frame Frame.Dispatch

variable {AccountId : Type}

/-- The calls by which the owners of a node manage it while it stays: edits of
its connections and transfers. -/
inductive Call.Manages (node : PeerId) : Call AccountId → Prop
  | transferNode (owner : AccountId) : Manages node (.transferNode node owner)
  | addConnections (connections : List PeerId) : Manages node (.addConnections node connections)
  | removeConnections (connections : List PeerId) :
      Manages node (.removeConnections node connections)

/-- The storage agrees with another one except for the record of a single node,
which is owned and well known as stated. -/
structure DiffersAt (base : Store AccountId) (node : PeerId) (wellKnown : Prop)
    (store : Store AccountId) : Prop where
  others : ∀ other, other ≠ node → store.record other = base.record other
  wellKnown_iff : node ∈ store.wellKnownNodes ↔ wellKnown
  owned : ∃ owner, store.owners.tryGet node = some owner

namespace DiffersAt

variable {base store next : Store AccountId} {node : PeerId} {wellKnown : Prop}
  {entry : NodeRecord AccountId}

/-- The edit of one record, to one that is owned and well known as stated. -/
theorem of_update (hnext : next.record = Function.update store.record node entry)
    (hentry : entry.wellKnown ↔ wellKnown) (howner : ∃ owner, entry.owner = some owner) :
    DiffersAt store node wellKnown next := by
  have hself : next.record node = entry := by rw [hnext, Function.update_self]
  refine ⟨fun other hne => by rw [hnext, Function.update_of_ne hne], ?_, ?_⟩
  · rw [← hentry, ← hself]
    rfl
  · rw [← hself] at howner
    exact howner

theorem trans (hstore : DiffersAt base node wellKnown store)
    (hnext : DiffersAt store node wellKnown next) : DiffersAt base node wellKnown next :=
  ⟨fun other hne => (hnext.others other hne).trans (hstore.others other hne),
    hnext.wellKnown_iff, hnext.owned⟩

/-- Erasing the record of a node that was vacant before restores the storage. -/
theorem eq_base (hstore : DiffersAt base node wellKnown store)
    (hvacant : base.record node = .vacant)
    (hnext : next.record = Function.update store.record node .vacant) : next = base := by
  apply Store.ext_record
  intro other
  rw [hnext]
  by_cases heq : other = node
  · subst other
    rw [Function.update_self, hvacant]
  · rw [Function.update_of_ne heq, hstore.others other heq]

end DiffersAt

variable [DecidableEq AccountId] [Inhabited AccountId]

/-- Managing a node changes nothing but its own record. -/
theorem differsAt_run (config : Config AccountId) {base : Store AccountId} {node : PeerId}
    {wellKnown : Prop} {chain : Chain AccountId}
    (hchain : DiffersAt base node wellKnown chain.store) {middle : List (Extrinsic AccountId)}
    (hmiddle : ∀ extrinsic ∈ middle, extrinsic.2.Manages node)
    (hok : AllOk (dispatch config) chain middle) :
    DiffersAt base node wellKnown (run (dispatch config) chain middle).store := by
  refine run_invariant_of_allOk (dispatch config)
    (fun chain => DiffersAt base node wellKnown chain.store)
    (fun extrinsic => extrinsic.2.Manages node) ?_ hchain hmiddle hok
  intro current extrinsic hmanages hhead hcurrent
  obtain ⟨origin, call⟩ := extrinsic
  have hswap : ∀ other, call ≠ .swapWellKnownNode other other := by
    intro other heq
    subst heq
    cases hmanages
  obtain ⟨event, hpermits, hexec⟩ := permits_of_ok hhead hswap
  have hrecord := record_evolve hpermits
  rw [hexec]
  -- a transfer replaces the owner, the edits keep it; all three keep the rest of the record
  cases hmanages with
  | transferNode owner =>
      cases hpermits
      exact hcurrent.trans (.of_update hrecord hcurrent.wellKnown_iff ⟨owner, rfl⟩)
  | addConnections connections =>
      cases hpermits
      exact hcurrent.trans (.of_update hrecord hcurrent.wellKnown_iff hcurrent.owned)
  | removeConnections connections =>
      cases hpermits
      exact hcurrent.trans (.of_update hrecord hcurrent.wellKnown_iff hcurrent.owned)

/-- In a reachable chain a node without an owner has no record at all. -/
theorem record_vacant_of_unowned (config : Config AccountId) (nodes : List (PeerId × AccountId))
    (extrinsics : List (Extrinsic AccountId)) {node : PeerId}
    (hfree : (runFrom config nodes extrinsics).store.owners.tryGet node = none) :
    (runFrom config nodes extrinsics).store.record node = .vacant := by
  have haccounted := runFrom_accounted config nodes extrinsics node
  have hnone : ((runFrom config nodes extrinsics).store.record node).owner = none := hfree
  rw [NodeRecord.Accounted, hnone] at haccounted
  ext1
  · exact eq_false fun hmem => Bool.false_ne_true (haccounted (Or.inl hmem))
  · exact hnone
  · by_contra hsome
    exact Bool.false_ne_true (haccounted (Or.inr (Option.ne_none_iff_isSome.mp hsome)))

/-- The current owner of a claimed node can leave, and nothing of it remains. -/
theorem removeClaim_restores (config : Config AccountId) {base : Store AccountId} {node : PeerId}
    (hvacant : base.record node = .vacant) (hlength : node.bytes.length < config.maxPeerIdLength)
    {chain : Chain AccountId} (hchain : DiffersAt base node False chain.store) :
    ∃ owner, chain.store.owners.tryGet node = some owner ∧
      let left := (dispatch config (.signed owner, .removeClaim node)).exec chain
      left.1 = .ok () ∧ left.2.store = base := by
  obtain ⟨owner, howner⟩ := hchain.owned
  have hleave := Permits.unclaim hlength howner hchain.wellKnown_iff.mp
  have herased : { chain.store.record node with owner := none, connections := none } =
      (NodeRecord.vacant : NodeRecord AccountId) := by
    ext1
    · exact eq_false hchain.wellKnown_iff.mp
    · rfl
    · rfl
  have hrecord := record_evolve hleave
  rw [Registry.evolve, herased] at hrecord
  refine ⟨owner, howner, ?_⟩
  rw [exec_of_permits hleave]
  exact ⟨rfl, hchain.eq_base hvacant hrecord⟩

/-- A node can be removed from the well known ones, and nothing of it remains. -/
theorem removeWellKnownNode_restores (config : Config AccountId) {base : Store AccountId}
    {node : PeerId} (hvacant : base.record node = .vacant)
    (hlength : node.bytes.length < config.maxPeerIdLength) {remover : RawOrigin AccountId}
    (hremover : config.removeOrigin remover = true) {chain : Chain AccountId}
    (hchain : DiffersAt base node True chain.store) :
    let left := (dispatch config (remover, .removeWellKnownNode node)).exec chain
    left.1 = .ok () ∧ left.2.store = base := by
  have hleave := Permits.remove hremover hlength (hchain.wellKnown_iff.mpr trivial)
  intro left
  have hleft : left = (.ok (), perform chain (.nodeRemoved node)) := exec_of_permits hleave
  rw [hleft]
  exact ⟨rfl, hchain.eq_base hvacant (record_evolve hleave)⟩

/-- A claim is undone by its removal, and the addition of a well known node by
the removal of the node, whatever management of the node comes in between. -/
theorem joining_and_leaving_cancel (config : Config AccountId) (nodes : List (PeerId × AccountId))
    (extrinsics : List (Extrinsic AccountId)) {node : PeerId}
    (hfree : (runFrom config nodes extrinsics).store.owners.tryGet node = none)
    (hlength : node.bytes.length < config.maxPeerIdLength)
    (middle : List (Extrinsic AccountId))
    (hmiddle : ∀ extrinsic ∈ middle, extrinsic.2.Manages node) :
    let chain := runFrom config nodes extrinsics
    (∀ who,
      let joined := (dispatch config (.signed who, .claimNode node)).exec chain
      joined.1 = .ok () ∧
        (AllOk (dispatch config) joined.2 middle →
          let managed := run (dispatch config) joined.2 middle
          ∃ owner, managed.store.owners.tryGet node = some owner ∧
            let left := (dispatch config (.signed owner, .removeClaim node)).exec managed
            left.1 = .ok () ∧ left.2.store = chain.store)) ∧
      ∀ adder remover owner, config.addOrigin adder = true → config.removeOrigin remover = true →
        chain.store.wellKnownNodes.card < config.maxWellKnownNodes →
        let joined := (dispatch config (adder, .addWellKnownNode node owner)).exec chain
        joined.1 = .ok () ∧
          (AllOk (dispatch config) joined.2 middle →
            let managed := run (dispatch config) joined.2 middle
            let left := (dispatch config (remover, .removeWellKnownNode node)).exec managed
            left.1 = .ok () ∧ left.2.store = chain.store) := by
  intro chain
  have hvacant : chain.store.record node = .vacant :=
    record_vacant_of_unowned config nodes extrinsics hfree
  have hnot : node ∉ chain.store.wellKnownNodes :=
    of_eq_false (congrArg NodeRecord.wellKnown hvacant)
  constructor
  · intro who
    have hclaim : Permits config chain.store (.signed who, .claimNode node)
      (.nodeClaimed node who) := .claim hlength hfree
    have hjoined : DiffersAt chain.store node False (perform chain (.nodeClaimed node who)).store :=
      .of_update (record_evolve hclaim) (iff_of_false hnot id) ⟨who, rfl⟩
    rw [exec_of_permits hclaim]
    refine ⟨rfl, fun hok => ?_⟩
    exact removeClaim_restores config hvacant hlength (differsAt_run config hjoined hmiddle hok)
  · intro adder remover owner hadder hremover hcount
    have hadd : Permits config chain.store (adder, .addWellKnownNode node owner)
      (.nodeAdded node owner) := .add hadder hlength hcount hnot
    have hjoined : DiffersAt chain.store node True (perform chain (.nodeAdded node owner)).store :=
      .of_update (record_evolve hadd) Iff.rfl ⟨owner, rfl⟩
    rw [exec_of_permits hadd]
    refine ⟨rfl, fun hok => ?_⟩
    exact removeWellKnownNode_restores config hvacant hlength hremover
      (differsAt_run config hjoined hmiddle hok)

/-- A claimed node is connected, handed over and connected again; its last owner
leaves the storage as the first one found it. -/
theorem joining_and_leaving_with_transfer :
    let chain := runFrom mockConfig [(testNode 20, 20)] []
    let joined := (dispatch mockConfig (.signed 1, .claimNode (testNode 10))).exec chain
    let managed := run (dispatch mockConfig) joined.2
      [(.signed 1, .addConnections (testNode 10) [testNode 20]),
        (.signed 1, .transferNode (testNode 10) 2),
        (.signed 2, .removeConnections (testNode 10) [testNode 20])]
    ∃ owner, managed.store.owners.tryGet (testNode 10) = some owner ∧
      ((dispatch mockConfig (.signed owner, .removeClaim (testNode 10))).exec
        managed).2.store = chain.store := by
  intro chain joined managed
  have hmiddle : ∀ extrinsic ∈ ([(.signed 1, .addConnections (testNode 10) [testNode 20]),
      (.signed 1, .transferNode (testNode 10) 2),
      (.signed 2, .removeConnections (testNode 10) [testNode 20])] : List (Extrinsic Nat)),
      extrinsic.2.Manages (testNode 10) := by
    simp only [List.forall_mem_cons]
    exact ⟨.addConnections _, .transferNode _, .removeConnections _, fun _ h => nomatch h⟩
  obtain ⟨owner, howner, -, hstore⟩ := ((joining_and_leaving_cancel mockConfig
    [(testNode 20, 20)] [] (by decide) (by decide) _ hmiddle).1 1).2
    ⟨by decide, by decide, by decide, trivial⟩
  exact ⟨owner, howner, hstore⟩

end SupraClient.Authorization
