import SupraClient.Authorization.Registry

/-! # Protection of owners

An account that no privileged origin accepts can change the record of a node in
two ways only: as the owner of the node, or by claiming a node that has no
owner. Neither way is open to anybody else along a whole run, although an
absent owner reads as the default account.
-/

namespace SupraClient.Authorization

open Frame

variable {AccountId : Type}

/-- A signed origin that none of the four privileged origins accepts. -/
structure Unprivileged (config : Config AccountId) (origin : RawOrigin AccountId) : Prop where
  signed : ∃ who, origin = .signed who
  not_add : config.addOrigin origin = false
  not_remove : config.removeOrigin origin = false
  not_swap : config.swapOrigin origin = false
  not_reset : config.resetOrigin origin = false

/-- What an unprivileged call may do: it keeps the well known nodes, and the
node it edits is owned by its signer or is being claimed. -/
theorem Permits.of_unprivileged {config : Config AccountId} {store : Store AccountId}
    {extrinsic : Extrinsic AccountId} {event : Event AccountId}
    (hpermits : Permits config store extrinsic event)
    (hunprivileged : Unprivileged config extrinsic.1) :
    (evolve store event).wellKnownNodes = store.wellKnownNodes ∧
      ∀ node ∈ event.subjects,
        (∃ owner, store.owners.tryGet node = some owner ∧ extrinsic.1 = .signed owner) ∨
          store.owners.tryGet node = none ∧ extrinsic.2 = .claimNode node := by
  cases hpermits with
  | add horigin => exact absurd horigin (by simp [hunprivileged.not_add])
  | remove horigin => exact absurd horigin (by simp [hunprivileged.not_remove])
  | swap horigin => exact absurd horigin (by simp [hunprivileged.not_swap])
  | reset horigin => exact absurd horigin (by simp [hunprivileged.not_reset])
  | claim hlength hfree =>
      refine ⟨rfl, ?_⟩
      rintro _ rfl
      exact Or.inr ⟨hfree, rfl⟩
  | unclaim hlength howner | transfer hlength howner | connect hlength howner
  | disconnect hlength howner =>
      refine ⟨rfl, ?_⟩
      rintro _ rfl
      exact Or.inl ⟨_, howner, rfl⟩

/-- The nodes a node may connect to depend on its own record and on the well
known nodes. -/
theorem getAuthorizedNodes_congr {left right : Store AccountId} {node : PeerId}
    (hwellKnown : left.wellKnownNodes = right.wellKnownNodes)
    (hrecord : left.record node = right.record node) :
    getAuthorizedNodes left node = getAuthorizedNodes right node := by
  have hconnections : left.connections node = right.connections node := by
    rw [Store.connections_eq, Store.connections_eq, hrecord]
  change Finset.sort (if _ then left.connections node ∪ _ else left.connections node) = _
  rw [hconnections, hwellKnown]
  rfl

variable [DecidableEq AccountId] [Inhabited AccountId]

/-- One unprivileged call keeps the record of a node unless its signer owns the
node or claims it with success. -/
theorem exec_unprivileged {config : Config AccountId} {extrinsic : Extrinsic AccountId}
    (hunprivileged : Unprivileged config extrinsic.1) (chain : Chain AccountId) :
    ((dispatch config extrinsic).exec chain).2.store.wellKnownNodes =
        chain.store.wellKnownNodes ∧
      ∀ node,
        ((dispatch config extrinsic).exec chain).2.store.record node = chain.store.record node ∨
        (∃ owner, chain.store.owners.tryGet node = some owner ∧ extrinsic.1 = .signed owner) ∨
        chain.store.owners.tryGet node = none ∧ extrinsic.2 = .claimNode node ∧
          ((dispatch config extrinsic).exec chain).1 = .ok () := by
  obtain ⟨error, hexec⟩ | ⟨_, _, -, hexec⟩ | ⟨event, hpermits, hexec⟩ :=
    dispatch_cases config extrinsic chain
  · rw [hexec]
    exact ⟨rfl, fun _ => Or.inl rfl⟩
  · rw [hexec]
    exact ⟨rfl, fun _ => Or.inl rfl⟩
  · rw [hexec]
    obtain ⟨hwellKnown, hsubjects⟩ := hpermits.of_unprivileged hunprivileged
    refine ⟨hwellKnown, fun node => ?_⟩
    by_cases hnode : node ∈ event.subjects
    · exact Or.inr ((hsubjects node hnode).imp_right fun ⟨hfree, hcall⟩ => ⟨hfree, hcall, rfl⟩)
    · left
      change (evolve chain.store event).record node = _
      rw [record_evolve hpermits, Registry.evolve_of_notMem _ hnode]

/-- A run of unprivileged calls keeps the record of a node as long as the owner
signs none of them, and, where there is no owner, none of them claims the node
with success. -/
theorem run_unprivileged (config : Config AccountId) (chain : Chain AccountId) (node : PeerId)
    {extrinsics : List (Extrinsic AccountId)}
    (hunprivileged : ∀ extrinsic ∈ extrinsics, Unprivileged config extrinsic.1)
    (howner : ∀ owner, chain.store.owners.tryGet node = some owner →
      ∀ extrinsic ∈ extrinsics, extrinsic.1 ≠ .signed owner)
    (hfree : chain.store.owners.tryGet node = none →
      ∀ done extrinsic, done ++ [extrinsic] <+: extrinsics → extrinsic.2 = .claimNode node →
        ((dispatch config extrinsic).exec (Dispatch.run (dispatch config) chain done)).1 ≠ .ok ()) :
    (Dispatch.run (dispatch config) chain extrinsics).store.wellKnownNodes =
        chain.store.wellKnownNodes ∧
      (Dispatch.run (dispatch config) chain extrinsics).store.record node =
        chain.store.record node := by
  refine Dispatch.run_invariant_along (dispatch config)
    (fun current => current.store.wellKnownNodes = chain.store.wellKnownNodes ∧
      current.store.record node = chain.store.record node) ⟨rfl, rfl⟩ extrinsics ?_
  rintro done extrinsic hinitial ⟨hwellKnown, hrecord⟩
  have hmem : extrinsic ∈ extrinsics := hinitial.subset (by simp)
  have hentry : (Dispatch.run (dispatch config) chain done).store.owners.tryGet node =
      chain.store.owners.tryGet node := congrArg NodeRecord.owner hrecord
  obtain ⟨hkeep, hcases⟩ := exec_unprivileged (hunprivileged extrinsic hmem)
    (Dispatch.run (dispatch config) chain done)
  refine ⟨hkeep.trans hwellKnown, ?_⟩
  obtain hsame | ⟨owner, howned, hsigned⟩ | ⟨hnone, hcall, hok⟩ := hcases node
  · exact hsame.trans hrecord
  · exact absurd hsigned (howner owner (hentry.symm.trans howned) extrinsic hmem)
  · exact absurd hok (hfree (hentry.symm.trans hnone) done extrinsic hinitial hcall)

/-- Along a run of unprivileged calls a node whose owner signs none of them keeps
its owner, its connections and its authorizations; a node without owner keeps
its absent owner and its connections until it is claimed with success. -/
theorem owner_protection (config : Config AccountId) (chain : Chain AccountId)
    (extrinsics : List (Extrinsic AccountId))
    (hunprivileged : ∀ extrinsic ∈ extrinsics, Unprivileged config extrinsic.1) (node : PeerId) :
    (∀ owner, chain.store.owners.tryGet node = some owner →
      (∀ extrinsic ∈ extrinsics, extrinsic.1 ≠ .signed owner) →
      let final := (Dispatch.run (dispatch config) chain extrinsics).store
      final.wellKnownNodes = chain.store.wellKnownNodes ∧
        final.owners.tryGet node = some owner ∧
        final.additionalConnections.tryGet node =
          chain.store.additionalConnections.tryGet node ∧
        getAuthorizedNodes final node = getAuthorizedNodes chain.store node) ∧
      (chain.store.owners.tryGet node = none →
        ∀ done, done <+: extrinsics →
          (∀ before extrinsic, before ++ [extrinsic] <+: done →
            extrinsic.2 = .claimNode node →
            ((dispatch config extrinsic).exec
              (Dispatch.run (dispatch config) chain before)).1 ≠ .ok ()) →
          let current := (Dispatch.run (dispatch config) chain done).store
          current.owners.tryGet node = none ∧
            current.additionalConnections.tryGet node =
              chain.store.additionalConnections.tryGet node) := by
  constructor
  · intro owner howned hsigner
    obtain ⟨hwellKnown, hrecord⟩ := run_unprivileged config chain node hunprivileged
      (fun other hother => Option.some.inj (howned.symm.trans hother) ▸ hsigner)
      (fun hnone => absurd (hnone.symm.trans howned) (by simp))
    exact ⟨hwellKnown, (congrArg NodeRecord.owner hrecord).trans howned,
      congrArg NodeRecord.connections hrecord, getAuthorizedNodes_congr hwellKnown hrecord⟩
  · intro hnone done hinitial hclaims
    obtain ⟨-, hrecord⟩ := run_unprivileged config chain node
      (fun extrinsic hmem => hunprivileged extrinsic (hinitial.subset hmem))
      (fun owner howned => absurd (hnone.symm.trans howned) (by simp)) (fun _ => hclaims)
    exact ⟨(congrArg NodeRecord.owner hrecord).trans hnone,
      congrArg NodeRecord.connections hrecord⟩

/-- Strangers, among them the default account, act on an owned and on an unowned
node of the mock runtime, and claim a third one. -/
theorem owner_protection_mock_run :
    let chain := genesis [(testNode 10, 10)]
    let extrinsics : List (Extrinsic Nat) :=
      [(.signed 5, .transferNode (testNode 10) 5), (.signed 0, .claimNode (testNode 20)),
        (.signed 0, .addConnections (testNode 30) [testNode 20])]
    (∀ extrinsic ∈ extrinsics, Unprivileged mockConfig extrinsic.1) ∧
      (Dispatch.run (dispatch mockConfig) chain extrinsics).store.owners.tryGet (testNode 10) =
        some 10 ∧
      (Dispatch.run (dispatch mockConfig) chain extrinsics).store.owners.tryGet (testNode 30) =
        none := by
  intro chain extrinsics
  have hunprivileged : ∀ extrinsic ∈ extrinsics, Unprivileged mockConfig extrinsic.1 := by
    simp only [extrinsics, List.forall_mem_cons]
    refine ⟨⟨⟨5, rfl⟩, rfl, rfl, rfl, rfl⟩, ⟨⟨0, rfl⟩, rfl, rfl, rfl, rfl⟩,
      ⟨⟨0, rfl⟩, rfl, rfl, rfl, rfl⟩, by simp⟩
  have howned := (owner_protection mockConfig chain extrinsics hunprivileged (testNode 10)).1
  have hfree := (owner_protection mockConfig chain extrinsics hunprivileged (testNode 30)).2
  refine ⟨hunprivileged, (howned 10 (by decide) (by decide)).2.1,
    (hfree (by decide) extrinsics List.prefix_rfl ?_).1⟩
  intro before extrinsic hinitial hcall
  have hmem : extrinsic ∈ extrinsics := hinitial.subset (by simp)
  have hother : ∀ extrinsic ∈ extrinsics, extrinsic.2 ≠ .claimNode (testNode 30) := by decide
  exact absurd hcall (hother extrinsic hmem)

end SupraClient.Authorization
