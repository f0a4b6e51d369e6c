import SupraClient.Authorization.Registry

/-! # Independent calls

The decision on a call reads the records of the nodes the call names; only the
addition of a well known node also counts the well known nodes. A call of a
user therefore commutes with every call that names other nodes: neither can
tell whether the other came first, and the storage ends up the same.
-/

namespace SupraClient.Authorization

open Frame

variable {AccountId : Type}

/-- The subject of a call that is open to every account. -/
def Call.userNode : Call AccountId → Option PeerId
  | .claimNode node | .removeClaim node | .transferNode node _ | .addConnections node _
  | .removeConnections node _ => some node
  | _ => none

/-- The nodes a call names. -/
def Call.subjects : Call AccountId → List PeerId
  | .swapWellKnownNode remove add => [remove, add]
  | .resetWellKnownNodes nodes => nodes.map Prod.fst
  | .addWellKnownNode node _ | .removeWellKnownNode node | .claimNode node | .removeClaim node
  | .transferNode node _ | .addConnections node _ | .removeConnections node _ => [node]

theorem Call.subjects_of_userNode {call : Call AccountId} {node : PeerId}
    (h : call.userNode = some node) : call.subjects = [node] := by
  cases call <;> cases h <;> rfl

/-- Apart from a reset, the event of a call concerns the nodes the call names. -/
theorem Permits.mem_subjects {config : Config AccountId} {store : Store AccountId}
    {extrinsic : Extrinsic AccountId} {event : Event AccountId}
    (hpermits : Permits config store extrinsic event)
    (hreset : ∀ nodes, extrinsic.2 ≠ .resetWellKnownNodes nodes) {node : PeerId}
    (hnode : node ∈ event.subjects) : node ∈ extrinsic.2.subjects := by
  cases hpermits with
  | reset horigin hcount => exact absurd rfl (hreset _)
  | swap horigin hremove hadd hne hmem hnew => simpa [Call.subjects, Event.subjects] using hnode
  | _ => exact List.mem_singleton.mpr hnode

/-- Apart from a reset, a call keeps the records of the nodes it does not name. -/
theorem Permits.record_of_notMem {config : Config AccountId} {store : Store AccountId}
    {extrinsic : Extrinsic AccountId} {event : Event AccountId}
    (hpermits : Permits config store extrinsic event)
    (hreset : ∀ nodes, extrinsic.2 ≠ .resetWellKnownNodes nodes) {node : PeerId}
    (hnode : node ∉ extrinsic.2.subjects) :
    (evolve store event).record node = store.record node := by
  rw [record_evolve hpermits]
  exact Registry.evolve_of_notMem _ fun hmem => hnode (hpermits.mem_subjects hreset hmem)

/-- Events that stay permitted after each other, and concern different nodes,
commute on the storage. -/
theorem evolve_comm_of_permits {config : Config AccountId} {store : Store AccountId}
    {first second : Extrinsic AccountId} {left right : Event AccountId}
    (hfirst : Permits config store first left) (hsecond : Permits config store second right)
    (hthen : Permits config (evolve store left) second right)
    (hthen' : Permits config (evolve store right) first left)
    (hdisjoint : ∀ subject ∈ left.subjects, subject ∉ right.subjects) :
    evolve (evolve store left) right = evolve (evolve store right) left := by
  refine Store.ext_record fun node => ?_
  rw [record_evolve hthen, record_evolve hthen', record_evolve hfirst, record_evolve hsecond,
    Registry.evolve_comm _ hdisjoint]

/-- A call of a user keeps the well known nodes. -/
theorem Permits.wellKnownNodes_of_userNode {config : Config AccountId} {store : Store AccountId}
    {extrinsic : Extrinsic AccountId} {event : Event AccountId}
    (hpermits : Permits config store extrinsic event) {node : PeerId}
    (huser : extrinsic.2.userNode = some node) :
    (evolve store event).wellKnownNodes = store.wellKnownNodes := by
  cases hpermits with
  | add | remove | swap | reset => cases huser
  | claim | unclaim | transfer | connect | disconnect => rfl

/-! ## Decisions are local -/

section Locality

variable {left right : Store AccountId} {node : PeerId}

theorem mem_wellKnownNodes_congr (h : left.record node = right.record node) :
    node ∈ left.wellKnownNodes ↔ node ∈ right.wellKnownNodes :=
  iff_of_eq (congrArg NodeRecord.wellKnown h)

theorem containsKey_owners_congr (h : left.record node = right.record node) :
    left.owners.containsKey node = right.owners.containsKey node :=
  congrArg (fun record => record.owner.isSome) h

variable [Inhabited AccountId]

theorem get_owners_congr (h : left.record node = right.record node) :
    left.owners.get node = right.owners.get node :=
  congrArg (fun record => record.owner.getD default) h

variable [DecidableEq AccountId]

theorem ownerGuards_congr (config : Config AccountId) (origin : RawOrigin AccountId)
    (h : left.record node = right.record node) :
    ownerGuards config left origin node = ownerGuards config right origin node := by
  cases origin with
  | signed sender =>
      simp only [ownerGuards, containsKey_owners_congr h, get_owners_congr h]
  | root => rfl
  | none => rfl

/-- Stores that agree on the nodes a call names, and on the number of well known
nodes if the call adds one, decide the call alike. -/
theorem decide_congr (config : Config AccountId) {extrinsic : Extrinsic AccountId}
    (hagree : ∀ node ∈ extrinsic.2.subjects, left.record node = right.record node)
    (hcard : ∀ node owner, extrinsic.2 = .addWellKnownNode node owner →
      left.wellKnownNodes.card = right.wellKnownNodes.card)
    (hreset : ∀ nodes, extrinsic.2 ≠ .resetWellKnownNodes nodes) :
    (decider config).decide left extrinsic = (decider config).decide right extrinsic := by
  suffices hguards : guards config left extrinsic = guards config right extrinsic by
    simp only [decider, hguards]
  obtain ⟨origin, call⟩ := extrinsic
  cases call with
  | addWellKnownNode node owner =>
      have hmem := mem_wellKnownNodes_congr (hagree node (by simp [Call.subjects]))
      simp only [guards, hcard node owner rfl, hmem]
  | removeWellKnownNode node =>
      have hmem := mem_wellKnownNodes_congr (hagree node (by simp [Call.subjects]))
      simp only [guards, hmem]
  | swapWellKnownNode remove add =>
      have hremove := mem_wellKnownNodes_congr (hagree remove (by simp [Call.subjects]))
      have hadd := mem_wellKnownNodes_congr (hagree add (by simp [Call.subjects]))
      simp only [guards, hremove, hadd]
  | resetWellKnownNodes nodes => exact absurd rfl (hreset nodes)
  | claimNode node =>
      have hcontains := containsKey_owners_congr (hagree node (by simp [Call.subjects]))
      cases origin <;> simp only [guards, hcontains]
  | removeClaim node =>
      have hrecord := hagree node (by simp [Call.subjects])
      simp only [guards, ownerGuards_congr config origin hrecord,
        mem_wellKnownNodes_congr hrecord]
  | transferNode node _ | addConnections node _ | removeConnections node _ =>
      exact ownerGuards_congr config origin (hagree node (by simp [Call.subjects]))

/-- A call is decided as before after a call that names other nodes. -/
theorem decide_after {config : Config AccountId} {store : Store AccountId}
    {first second : Extrinsic AccountId} {event : Event AccountId}
    (hpermits : Permits config store first event)
    (hfirst : ∀ nodes, first.2 ≠ .resetWellKnownNodes nodes)
    (hsecond : ∀ nodes, second.2 ≠ .resetWellKnownNodes nodes)
    (hdisjoint : ∀ subject ∈ second.2.subjects, subject ∉ first.2.subjects)
    (hwellKnown : ∀ node owner, second.2 = .addWellKnownNode node owner →
      (evolve store event).wellKnownNodes = store.wellKnownNodes) :
    (decider config).decide (evolve store event) second =
      (decider config).decide store second := by
  refine decide_congr config (fun subject hsubject => ?_) (fun node owner heq => ?_) hsecond
  · exact hpermits.record_of_notMem hfirst (hdisjoint subject hsubject)
  · rw [hwellKnown node owner heq]

end Locality

variable [DecidableEq AccountId] [Inhabited AccountId]

/-- A call of a user on one node and a call that names other nodes give the same
results and the same storage in either order. -/
theorem independent_calls_commute (config : Config AccountId) (chain : Chain AccountId)
    (user other : Extrinsic AccountId) (node : PeerId) (huser : user.2.userNode = some node)
    (hreset : ∀ nodes, other.2 ≠ .resetWellKnownNodes nodes) (hnode : node ∉ other.2.subjects) :
    let userFirst := (dispatch config user).exec chain
    let otherSecond := (dispatch config other).exec userFirst.2
    let otherFirst := (dispatch config other).exec chain
    let userSecond := (dispatch config user).exec otherFirst.2
    userFirst.1 = userSecond.1 ∧ otherSecond.1 = otherFirst.1 ∧
      otherSecond.2.store = userSecond.2.store := by
  have hnotReset : ∀ nodes, user.2 ≠ .resetWellKnownNodes nodes := by
    intro nodes heq
    rw [heq] at huser
    cases huser
  have hsubjects := Call.subjects_of_userNode huser
  have hother : ∀ event, (decider config).decide chain.store user = .ok (some event) →
      (decider config).decide (evolve chain.store event) other =
        (decider config).decide chain.store other := by
    intro event hdecide
    have hpermits := permits_of_decide hdecide
    refine decide_after hpermits hnotReset hreset (fun subject hsubject hmem => hnode ?_)
      (fun _ _ _ => hpermits.wellKnownNodes_of_userNode huser)
    rw [hsubjects, List.mem_singleton] at hmem
    rwa [← hmem]
  have huserKept : ∀ event, (decider config).decide chain.store other = .ok (some event) →
      (decider config).decide (evolve chain.store event) user =
        (decider config).decide chain.store user := by
    intro event hdecide
    refine decide_after (permits_of_decide hdecide) hreset hnotReset
      (fun subject hsubject hmem => hnode ?_) (fun added owner heq => ?_)
    · rw [hsubjects, List.mem_singleton] at hsubject
      rwa [← hsubject]
    · rw [heq] at huser
      cases huser
  simp only [dispatch_implements config user, dispatch_implements config other]
  refine Decider.step_comm hother huserKept fun left right hleft hright => ?_
  have hpermits := permits_of_decide hleft
  have hpermits' := permits_of_decide hright
  refine evolve_comm_of_permits hpermits hpermits'
    (permits_of_decide ((hother left hleft).trans hright))
    (permits_of_decide ((huserKept right hright).trans hleft)) ?_
  refine fun subject hmem hmem' => hnode ?_
  have hnamed := hpermits.mem_subjects hnotReset hmem
  rw [hsubjects, List.mem_singleton] at hnamed
  rw [← hnamed]
  exact hpermits'.mem_subjects hreset hmem'

/-- On the mock runtime, a claim commutes with a swap of two other nodes. -/
theorem claim_commutes_with_swap :
    let chain := genesis [(testNode 10, 10)]
    let claim : Extrinsic Nat := (.signed 7, .claimNode (testNode 30))
    let swap : Extrinsic Nat := (.signed 3, .swapWellKnownNode (testNode 10) (testNode 20))
    claim.2.userNode = some (testNode 30) ∧ testNode 30 ∉ swap.2.subjects ∧
      ((dispatch mockConfig claim).exec chain).1 = .ok () ∧
      ((dispatch mockConfig swap).exec ((dispatch mockConfig claim).exec chain).2).2.store =
        ((dispatch mockConfig claim).exec ((dispatch mockConfig swap).exec chain).2).2.store :=
  ⟨rfl, by decide, by decide,
    (independent_calls_commute mockConfig (genesis [(testNode 10, 10)])
      (.signed 7, .claimNode (testNode 30))
      (.signed 3, .swapWellKnownNode (testNode 10) (testNode 20)) (testNode 30) rfl
      (fun _ heq => nomatch heq) (by decide)).2.2⟩

end SupraClient.Authorization
