import SupraClient.Authorization.Connections

/-! # Sequences of connection edits

The owner of a node edits its connections with two calls, each over a list of
peers. Peer by peer the last edit that mentions it decides; the lists count as
sets.
-/

namespace SupraClient.Authorization

open Frame Frame.Dispatch

variable {AccountId : Type}

/-- An edit of the connections of a node. -/
inductive ConnectionEdit where
  | add (connections : List PeerId)
  | remove (connections : List PeerId)

namespace ConnectionEdit

/-- The peers an edit mentions. -/
def peers : ConnectionEdit → List PeerId
  | .add connections => connections
  | .remove connections => connections

def call (node : PeerId) : ConnectionEdit → Call AccountId
  | .add connections => .addConnections node connections
  | .remove connections => .removeConnections node connections

def event (node : PeerId) : ConnectionEdit → Event AccountId
  | .add connections => .connectionsAdded node connections
  | .remove connections => .connectionsRemoved node connections

/-- The effect of an edit on the connections. -/
def apply (node : PeerId) (nodes : Finset PeerId) : ConnectionEdit → Finset PeerId
  | .add connections => extendConnections node connections nodes
  | .remove connections => reduceConnections connections nodes

/-- Two edits of one kind that mention the same peers, in any order and any
number of times. -/
def Same : ConnectionEdit → ConnectionEdit → Prop
  | .add left, .add right => ∀ peer, peer ∈ left ↔ peer ∈ right
  | .remove left, .remove right => ∀ peer, peer ∈ left ↔ peer ∈ right
  | _, _ => False

theorem apply_same {left right : ConnectionEdit} (hsame : left.Same right) (node : PeerId)
    (nodes : Finset PeerId) : left.apply node nodes = right.apply node nodes := by
  ext peer
  cases left with
  | add connections =>
      cases right with
      | add others => simp only [apply, mem_extendConnections, hsame peer]
      | remove others => exact hsame.elim
  | remove connections =>
      cases right with
      | add others => exact hsame.elim
      | remove others => simp only [apply, mem_reduceConnections, hsame peer]

/-- Membership after one edit, for peers other than the node. -/
theorem mem_apply_iff {node peer : PeerId} (hne : peer ≠ node) (nodes : Finset PeerId)
    (edit : ConnectionEdit) :
    peer ∈ edit.apply node nodes ↔
      (∃ connections, edit = .add connections ∧ peer ∈ connections) ∨
        peer ∉ edit.peers ∧ peer ∈ nodes := by
  cases edit with
  | add connections =>
      simp only [apply, mem_extendConnections, peers, add.injEq, exists_eq_left']
      tauto
  | remove connections =>
      simp only [apply, mem_reduceConnections, peers, reduceCtorEq, false_and, exists_false,
        false_or]
      tauto

/-- No edit adds the node to its own connections. -/
theorem self_mem_of_mem_apply {node : PeerId} {nodes : Finset PeerId} (edit : ConnectionEdit)
    (hmem : node ∈ edit.apply node nodes) : node ∈ nodes := by
  cases edit with
  | add connections =>
      rcases (mem_extendConnections node connections nodes node).mp hmem with hold | ⟨-, hne⟩
      · exact hold
      · exact absurd rfl hne
  | remove connections => exact ((mem_reduceConnections connections nodes node).mp hmem).1

/-- The last edit that mentions a peer decides. -/
theorem mem_foldl_apply_iff {node peer : PeerId} (hne : peer ≠ node) (edits : List ConnectionEdit)
    (nodes : Finset PeerId) :
    peer ∈ edits.foldl (apply node) nodes ↔
      (∃ before connections after, edits = before ++ .add connections :: after ∧
          peer ∈ connections ∧ ∀ edit ∈ after, peer ∉ edit.peers) ∨
        (∀ edit ∈ edits, peer ∉ edit.peers) ∧ peer ∈ nodes := by
  induction edits generalizing nodes with
  | nil => simp
  | cons first rest ih =>
      rw [List.foldl_cons, ih, mem_apply_iff hne, List.forall_mem_cons]
      constructor
      · intro hpeer
        rcases hpeer with ⟨before, connections, after, rfl, hmem, hafter⟩ |
          ⟨hrest, ⟨connections, rfl, hmem⟩ | ⟨hfirst, hmem⟩⟩
        · exact Or.inl ⟨first :: before, connections, after, rfl, hmem, hafter⟩
        · exact Or.inl ⟨[], connections, rest, rfl, hmem, hrest⟩
        · exact Or.inr ⟨⟨hfirst, hrest⟩, hmem⟩
      · intro hpeer
        rcases hpeer with ⟨before, connections, after, hsplit, hmem, hafter⟩ |
          ⟨⟨hfirst, hrest⟩, hmem⟩
        · -- the deciding edit is the first one, or stands in the rest
          cases before with
          | nil =>
              cases hsplit
              exact Or.inr ⟨hafter, Or.inl ⟨connections, rfl, hmem⟩⟩
          | cons head before =>
              cases hsplit
              exact Or.inl ⟨before, connections, after, rfl, hmem, hafter⟩
        · exact Or.inr ⟨hrest, Or.inr ⟨hfirst, hmem⟩⟩

theorem self_mem_of_mem_foldl_apply {node : PeerId} (edits : List ConnectionEdit)
    {nodes : Finset PeerId} (hmem : node ∈ edits.foldl (apply node) nodes) : node ∈ nodes := by
  induction edits generalizing nodes with
  | nil => exact hmem
  | cons first rest ih => exact self_mem_of_mem_apply first (ih hmem)

end ConnectionEdit

/-! ## Edits of the storage -/

/-- The edits of a node by its owner, as extrinsics. -/
def edits (owner : AccountId) (node : PeerId) (changes : List ConnectionEdit) :
    List (Extrinsic AccountId) :=
  changes.map fun change => (.signed owner, change.call node)

/-- Edits of a node leave everything but its connections alone. -/
structure EditsOnly (node : PeerId) (changes : List ConnectionEdit)
    (store next : Store AccountId) : Prop where
  wellKnownNodes : next.wellKnownNodes = store.wellKnownNodes
  owners : next.owners = store.owners
  others : ∀ other, other ≠ node →
    next.additionalConnections.tryGet other = store.additionalConnections.tryGet other
  connections : next.connections node =
    changes.foldl (ConnectionEdit.apply node) (store.connections node)

/-- The event of an edit applies the edit to the connections of the node. -/
theorem evolve_event (store : Store AccountId) (node : PeerId) (change : ConnectionEdit) :
    evolve store (change.event node) =
      { store with
        additionalConnections := store.additionalConnections.insert node
          (change.apply node (store.connections node)) } := by
  cases change with
  | add connections => rfl
  | remove connections => rfl

theorem evolve_editsOnly (store : Store AccountId) (node : PeerId) (change : ConnectionEdit) :
    EditsOnly node [change] store (evolve store (change.event node)) := by
  rw [evolve_event]
  refine ⟨rfl, rfl, fun other hne => ?_, ?_⟩
  · exact (StorageMap.tryGet_insert _ _ _ _).trans (if_neg hne)
  · exact StorageMap.get_of_tryGet ((StorageMap.tryGet_insert _ _ _ _).trans (if_pos rfl))

theorem EditsOnly.cons {node : PeerId} {first : ConnectionEdit} {rest : List ConnectionEdit}
    {store middle next : Store AccountId} (hfirst : EditsOnly node [first] store middle)
    (hrest : EditsOnly node rest middle next) : EditsOnly node (first :: rest) store next where
  wellKnownNodes := hrest.wellKnownNodes.trans hfirst.wellKnownNodes
  owners := hrest.owners.trans hfirst.owners
  others other hne := (hrest.others other hne).trans (hfirst.others other hne)
  connections := by rw [hrest.connections, hfirst.connections]; rfl

theorem evolve_event_same (store : Store AccountId) (node : PeerId) {left right : ConnectionEdit}
    (hsame : left.Same right) :
    evolve store (left.event node) = evolve store (right.event node) := by
  rw [evolve_event, evolve_event, ConnectionEdit.apply_same hsame]

variable [DecidableEq AccountId] [Inhabited AccountId]

theorem exec_edit (config : Config AccountId) {chain : Chain AccountId} {node : PeerId}
    {owner : AccountId} (hlength : node.bytes.length < config.maxPeerIdLength)
    (howner : chain.store.owners.tryGet node = some owner) (change : ConnectionEdit) :
    (dispatch config (.signed owner, change.call node)).exec chain =
      (.ok (), perform chain (change.event node)) := by
  cases change with
  | add connections => exact exec_of_permits (.connect hlength howner)
  | remove connections => exact exec_of_permits (.disconnect hlength howner)

/-- Every edit by the owner succeeds, and together they edit the connections of
the node in order. -/
theorem run_edits (config : Config AccountId) {node : PeerId} {owner : AccountId}
    (hlength : node.bytes.length < config.maxPeerIdLength) (changes : List ConnectionEdit)
    (chain : Chain AccountId) (howner : chain.store.owners.tryGet node = some owner) :
    AllOk (dispatch config) chain (edits owner node changes) ∧
      EditsOnly node changes chain.store
        (run (dispatch config) chain (edits owner node changes)).store := by
  induction changes generalizing chain with
  | nil => exact ⟨trivial, rfl, rfl, fun _ _ => rfl, rfl⟩
  | cons first rest ih =>
      have hfirst := evolve_editsOnly chain.store node first
      have hexec := exec_edit config hlength howner first
      obtain ⟨hok, hrest⟩ := ih (perform chain (first.event node))
        (by rw [perform, hfirst.owners, howner])
      rw [edits, List.map_cons, allOk_cons, run_cons, hexec]
      exact ⟨⟨rfl, hok⟩, hfirst.cons hrest⟩

theorem run_edits_same (config : Config AccountId) {node : PeerId} {owner : AccountId}
    (hlength : node.bytes.length < config.maxPeerIdLength) {changes others : List ConnectionEdit}
    (hsame : List.Forall₂ ConnectionEdit.Same changes others) (chain other : Chain AccountId)
    (hstore : other.store = chain.store)
    (howner : chain.store.owners.tryGet node = some owner) :
    (run (dispatch config) other (edits owner node others)).store =
      (run (dispatch config) chain (edits owner node changes)).store := by
  induction hsame generalizing chain other with
  | nil => exact hstore
  | @cons left right _ _ hhead _ ih =>
      rw [edits, edits, List.map_cons, List.map_cons, run_cons, run_cons,
        exec_edit config hlength howner left,
        exec_edit config hlength (by rw [hstore, howner]) right]
      apply ih
      · rw [perform, perform, hstore, evolve_event_same chain.store node hhead]
      · rw [perform, (evolve_editsOnly chain.store node left).owners, howner]

/-- After any edits by its owner, a peer is connected to a node when the last edit
that mentions the peer adds it, or none does and it was connected before. The
node itself is never newly added, nothing else changes, and the lists of the
edits count as sets. -/
theorem connection_edits_last_writer_wins (config : Config AccountId) (chain : Chain AccountId)
    {node : PeerId} {owner : AccountId} (hlength : node.bytes.length < config.maxPeerIdLength)
    (howner : chain.store.owners.tryGet node = some owner) (changes : List ConnectionEdit) :
    let next := run (dispatch config) chain (edits owner node changes)
    AllOk (dispatch config) chain (edits owner node changes) ∧
      (∀ peer, peer ≠ node →
        (peer ∈ next.store.connections node ↔
          (∃ before connections after, changes = before ++ .add connections :: after ∧
            peer ∈ connections ∧ ∀ change ∈ after, peer ∉ change.peers) ∨
          (∀ change ∈ changes, peer ∉ change.peers) ∧
            peer ∈ chain.store.connections node)) ∧
      (node ∈ next.store.connections node → node ∈ chain.store.connections node) ∧
      (∀ other, other ≠ node →
        next.store.additionalConnections.tryGet other =
          chain.store.additionalConnections.tryGet other) ∧
      next.store.owners = chain.store.owners ∧
      next.store.wellKnownNodes = chain.store.wellKnownNodes ∧
      ∀ others, List.Forall₂ ConnectionEdit.Same changes others →
        (run (dispatch config) chain (edits owner node others)).store = next.store := by
  intro next
  obtain ⟨hok, honly⟩ := run_edits config hlength changes chain howner
  refine ⟨hok, fun peer hne => ?_, fun hmem => ?_, honly.others, honly.owners,
    honly.wellKnownNodes, fun others hsame => ?_⟩
  · rw [honly.connections]
    exact ConnectionEdit.mem_foldl_apply_iff hne changes _
  · rw [honly.connections] at hmem
    exact ConnectionEdit.self_mem_of_mem_foldl_apply changes hmem
  · exact run_edits_same config hlength hsame chain chain rfl howner

/-- A peer added, removed and added again, in lists with repetitions and with
the node itself. -/
theorem connection_edits_readd :
    let chain := runFrom mockConfig [(testNode 1, 10)] []
    let next := run (dispatch mockConfig) chain (edits 10 (testNode 1)
      [.add [testNode 2, testNode 1, testNode 2], .remove [testNode 2], .add [testNode 2]])
    testNode 2 ∈ next.store.connections (testNode 1) ∧
      testNode 1 ∉ next.store.connections (testNode 1) := by
  intro chain next
  obtain ⟨-, hpeers, hself, -⟩ := connection_edits_last_writer_wins mockConfig chain
    (show (testNode 1).bytes.length < 2 by decide)
    (show chain.store.owners.tryGet (testNode 1) = some 10 by decide)
    [.add [testNode 2, testNode 1, testNode 2], .remove [testNode 2], .add [testNode 2]]
  refine ⟨(hpeers (testNode 2) (by decide)).mpr (Or.inl
    ⟨[.add [testNode 2, testNode 1, testNode 2], .remove [testNode 2]], [testNode 2], [], rfl,
      ?_, ?_⟩), ?_⟩
  · exact List.mem_singleton.mpr rfl
  · exact fun _ h => nomatch h
  · exact fun hmem => absurd (hself hmem) (by decide)

end SupraClient.Authorization
