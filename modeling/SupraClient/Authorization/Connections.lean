import SupraClient.Authorization.Invariants

/-! # Additional connections

The connections of a node are edited by its owner, one peer after the other,
and never list the node itself through such an edit. Re-keying a set of
connections is different: the swap of a well known node moves the set as it
is, whatever it lists.
-/

namespace SupraClient.Authorization

open Frame

variable {AccountId : Type}

/-! ## Connections as sets -/

/-- The loop of `addConnections` adds the listed peers other than the node. -/
theorem mem_extendConnections (node : PeerId) (connections : List PeerId)
    (nodes : Finset PeerId) (peer : PeerId) :
    peer ∈ extendConnections node connections nodes ↔
      peer ∈ nodes ∨ peer ∈ connections ∧ peer ≠ node := by
  induction connections generalizing nodes with
  | nil => simp [extendConnections]
  | cons addNode rest ih =>
      rw [extendConnections, List.foldl_cons]
      refine (ih _).trans ?_
      by_cases hself : addNode = node
      · rw [if_pos hself]
        subst addNode
        simp only [List.mem_cons]
        tauto
      · rw [if_neg hself]
        simp only [Finset.mem_insert, List.mem_cons]
        constructor
        · intro hpeer
          rcases hpeer with (rfl | hmem) | hrest
          · exact Or.inr ⟨Or.inl rfl, hself⟩
          · exact Or.inl hmem
          · exact Or.inr ⟨Or.inr hrest.1, hrest.2⟩
        · intro hpeer
          rcases hpeer with hmem | ⟨rfl | hrest, hne⟩
          · exact Or.inl (Or.inr hmem)
          · exact Or.inl (Or.inl rfl)
          · exact Or.inr ⟨hrest, hne⟩

/-- The loop of `removeConnections` removes the listed peers. -/
theorem mem_reduceConnections (connections : List PeerId) (nodes : Finset PeerId)
    (peer : PeerId) :
    peer ∈ reduceConnections connections nodes ↔ peer ∈ nodes ∧ peer ∉ connections := by
  induction connections generalizing nodes with
  | nil => simp [reduceConnections]
  | cons removeNode rest ih =>
      rw [reduceConnections, List.foldl_cons]
      refine (ih _).trans ?_
      simp only [Finset.mem_erase, List.mem_cons, not_or]
      tauto

theorem mem_getAuthorizedNodes (store : Store AccountId) (node peer : PeerId) :
    peer ∈ getAuthorizedNodes store node ↔
      peer ∈ store.connections node ∨
        node ∈ store.wellKnownNodes ∧ peer ∈ store.wellKnownNodes ∧ peer ≠ node := by
  unfold getAuthorizedNodes
  rw [Finset.mem_sort]
  by_cases hnode : node ∈ store.wellKnownNodes
  · rw [if_pos hnode, Finset.mem_union, Finset.mem_erase]
    simp only [hnode, true_and]
    exact or_congr_right and_comm
  · rw [if_neg hnode]
    simp only [hnode, false_and, or_false]
    rfl

/-- One peer identifier comes before another one in the lexicographic order of
their bytes. -/
def PeerId.Precedes (left right : PeerId) : Prop :=
  List.Lex (fun first second : UInt8 => first.toNat < second.toNat) left.bytes right.bytes

theorem lex_of_lex_map {left right : List UInt8}
    (h : List.Lex (· < ·) (left.map UInt8.toNat) (right.map UInt8.toNat)) :
    List.Lex (fun first second : UInt8 => first.toNat < second.toNat) left right := by
  induction left generalizing right with
  | nil =>
      cases right with
      | nil => cases h
      | cons second rest => exact .nil
  | cons first left ih =>
      cases right with
      | nil => cases h
      | cons second right =>
          rw [List.map_cons, List.map_cons] at h
          rcases List.cons_lex_cons_iff.mp h with hlt | ⟨heq, hrest⟩
          · exact .rel hlt
          · rw [UInt8.toNat_inj.mp heq]
            exact .cons (ih hrest)

theorem PeerId.precedes_of_lt {left right : PeerId} (h : left < right) : left.Precedes right :=
  lex_of_lex_map ((List.lt_iff_lex_lt _ _).mp h)

/-- The authorized list is the set it stands for: strictly ascending in the
order of bytes, and made of the node's connections and, for a well known node,
of the other well known nodes. -/
theorem getAuthorizedNodes_spec (store : Store AccountId) (node : PeerId) :
    (getAuthorizedNodes store node).Pairwise PeerId.Precedes ∧
      (getAuthorizedNodes store node).Nodup ∧
      (∀ peer, peer ∈ getAuthorizedNodes store node ↔
        peer ∈ store.connections node ∨
          node ∈ store.wellKnownNodes ∧ peer ∈ store.wellKnownNodes ∧ peer ≠ node) ∧
      (∀ left ∈ store.wellKnownNodes, ∀ right ∈ store.wellKnownNodes, left ≠ right →
        left ∈ getAuthorizedNodes store right ∧ right ∈ getAuthorizedNodes store left) ∧
      (node ∉ store.wellKnownNodes →
        ∀ peer, peer ∈ getAuthorizedNodes store node ↔ peer ∈ store.connections node) := by
  refine ⟨?_, Finset.sort_nodup _ _, mem_getAuthorizedNodes store node, ?_, ?_⟩
  · exact (Finset.sortedLT_sort _).pairwise.imp PeerId.precedes_of_lt
  · intro left hleft right hright hne
    exact ⟨(mem_getAuthorizedNodes store right left).mpr (Or.inr ⟨hright, hleft, hne⟩),
      (mem_getAuthorizedNodes store left right).mpr (Or.inr ⟨hleft, hright, hne.symm⟩)⟩
  · intro hnot peer
    rw [mem_getAuthorizedNodes]
    simp only [hnot, false_and, or_false]

/-! ## No node is authorized for itself -/

/-- No node is among its own connections, nor in its own authorized list. -/
def NoSelfAuthorization (store : Store AccountId) : Prop :=
  ∀ node, node ∉ store.connections node ∧ node ∉ getAuthorizedNodes store node

/-- The authorized list strips the node from the well known nodes, so the
connections decide. -/
theorem noSelfAuthorization_iff (store : Store AccountId) :
    NoSelfAuthorization store ↔ ∀ node, node ∉ store.connections node := by
  refine forall_congr' fun node => ⟨And.left, fun hself => ⟨hself, ?_⟩⟩
  rw [mem_getAuthorizedNodes]
  rintro (hmem | ⟨-, -, hne⟩)
  · exact hself hmem
  · exact hne rfl

/-- An accepted swap finds neither of its two nodes in the connections of the
other one. Other calls are not restricted. -/
def KeepsApart (config : Config AccountId) (store : Store AccountId) :
    Extrinsic AccountId → Prop
  | (origin, .swapWellKnownNode remove add) =>
      Permits config store (origin, .swapWellKnownNode remove add) (.nodeSwapped remove add) →
        add ∉ store.connections remove ∧ remove ∉ store.connections add
  | _ => True

/-- Exchanging two records keeps nodes out of their own connections exactly
when the two sets do not list the key they move to. -/
theorem forall_notMem_swap_iff {registry : Registry AccountId} {remove add : PeerId}
    (hself : ∀ node, node ∉ (registry node).connections.getD ∅) :
    (∀ node, node ∉ ((registry ∘ Equiv.swap remove add) node).connections.getD ∅) ↔
      add ∉ (registry remove).connections.getD ∅ ∧
        remove ∉ (registry add).connections.getD ∅ := by
  constructor
  · intro hswapped
    have hadd := hswapped add
    have hremove := hswapped remove
    rw [Function.comp_apply, Equiv.swap_apply_right] at hadd
    rw [Function.comp_apply, Equiv.swap_apply_left] at hremove
    exact ⟨hadd, hremove⟩
  · rintro ⟨hadd, hremove⟩ node
    rw [Function.comp_apply, Equiv.swap_apply_def]
    split
    next heq => exact heq ▸ hremove
    next =>
      split
      next heq => exact heq ▸ hadd
      next => exact hself node

theorem noSelf_evolve_iff {config : Config AccountId} {store : Store AccountId}
    {extrinsic : Extrinsic AccountId} {event : Event AccountId}
    (hpermits : Permits config store extrinsic event)
    (hself : ∀ node, node ∉ store.connections node) :
    (∀ node, node ∉ (evolve store event).connections node) ↔
      KeepsApart config store extrinsic := by
  simp only [Store.connections_eq] at hself ⊢
  rw [record_evolve hpermits]
  have hupdate : ∀ {node : PeerId} {entry : NodeRecord AccountId},
      node ∉ entry.connections.getD ∅ →
      ∀ other, other ∉ (Function.update store.record node entry other).connections.getD ∅ :=
    Registry.forall_update (fun node record => node ∉ record.connections.getD ∅) hself
  cases hpermits with
  | swap horigin hremove hadd hne hmem hnew =>
      refine (forall_notMem_swap_iff hself).trans ⟨fun hapart _ => hapart, fun hapart => ?_⟩
      exact hapart (.swap horigin hremove hadd hne hmem hnew)
  | reset horigin hcount => exact iff_of_true hself trivial
  | add horigin hlength hcount hnew => exact iff_of_true (hupdate (hself _)) trivial
  | remove horigin hlength hmem => exact iff_of_true (hupdate (by simp [NodeRecord.vacant])) trivial
  | claim hlength hfree => exact iff_of_true (hupdate (hself _)) trivial
  | unclaim hlength howner hnot => exact iff_of_true (hupdate (by simp)) trivial
  | transfer hlength howner => exact iff_of_true (hupdate (hself _)) trivial
  | connect hlength howner =>
      refine iff_of_true (hupdate ?_) trivial
      rw [Option.getD_some, mem_extendConnections]
      rintro (hmem | ⟨-, hne⟩)
      · exact hself _ hmem
      · exact hne rfl
  | disconnect hlength howner =>
      refine iff_of_true (hupdate ?_) trivial
      rw [Option.getD_some, mem_reduceConnections]
      exact fun hmem => hself _ hmem.1

/-- All along a run no node is authorized for itself, exactly when every
accepted swap of the run keeps its two nodes out of each other's connections. -/
theorem noSelfAuthorization_run_iff [DecidableEq AccountId] [Inhabited AccountId]
    (config : Config AccountId) (nodes : List (PeerId × AccountId))
    (extrinsics : List (Extrinsic AccountId)) :
    (∀ done, done <+: extrinsics → NoSelfAuthorization (runFrom config nodes done).store) ↔
      ∀ done extrinsic, done ++ [extrinsic] <+: extrinsics →
        KeepsApart config (runFrom config nodes done).store extrinsic := by
  simp only [noSelfAuthorization_iff]
  refine (dispatch_implements config).run_store_always_iff
    (fun store => ∀ node, node ∉ store.connections node) (KeepsApart config) ?_ ?_ ?_ extrinsics
  · rintro store ⟨origin, call⟩ hidle
    cases call with
    | swapWellKnownNode remove add =>
        exact fun hpermits => absurd (decide_of_permits hpermits) (hidle _)
    | _ => trivial
  · intro store extrinsic event hdecide hself
    exact noSelf_evolve_iff (permits_of_decide hdecide) hself
  · intro node
    rw [Store.connections_eq, record_genesis]
    exact Finset.notMem_empty node

/-- The swap of a node to one of its own connections authorizes that node for
itself. -/
theorem noSelfAuthorization_fails_on_swap :
    let chain := runFrom mockConfig [(testNode 10, 10), (testNode 20, 20)]
      [(.signed 20, .addConnections (testNode 20) [testNode 5]),
        (.signed 3, .swapWellKnownNode (testNode 20) (testNode 5))]
    testNode 5 ∈ chain.store.connections (testNode 5) ∧
      testNode 5 ∈ getAuthorizedNodes chain.store (testNode 5) := by
  intro chain
  have hmem : testNode 5 ∈ chain.store.connections (testNode 5) := by decide
  exact ⟨hmem, (mem_getAuthorizedNodes _ _ _).mpr (Or.inl hmem)⟩

end SupraClient.Authorization
