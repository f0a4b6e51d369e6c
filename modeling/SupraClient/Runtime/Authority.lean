import SupraClient.Authorization.Ownership
import SupraClient.Runtime.Projection

/-! # Authority over the runtime

Only the holder of the sudo key can call a pallet as root, or in the name of
somebody else. In a chain of blocks without extrinsics of that account nothing
disturbs the pallets. The key itself and the well known nodes stay as they are, and
so does every claimed node whose owner signs nothing either.
-/

namespace SupraClient.Runtime

open Frame Frame.Dispatch

variable {AccountId Other Storage : Type}

/-- All extrinsics of a chain of blocks have a property. -/
def AllExtrinsics (property : CheckedExtrinsic AccountId Other → Prop)
    (chain : List (Block AccountId Other)) : Prop :=
  ∀ block ∈ chain, ∀ extrinsic ∈ block.extrinsics, property extrinsic

theorem CheckedExtrinsic.origin_ne_root (extrinsic : CheckedExtrinsic AccountId Other) :
    extrinsic.origin ≠ .root := by
  rw [origin]
  split <;> simp

/-! ## Calls without root -/

theorem not_permits_none {store : Authorization.Store AccountId}
    {call : Authorization.Call AccountId} {event : Authorization.Event AccountId} :
    ¬ Authorization.Permits (authorizationConfig AccountId) store (.none, call) event := by
  intro hpermits
  cases hpermits with
  | add horigin | remove horigin | swap horigin | reset horigin => cases horigin

variable [DecidableEq AccountId] [Inhabited AccountId]

/-- A call that is not root keeps the well known nodes, and it keeps the record of
every node whose owner has not signed it. -/
theorem exec_of_ne_root {extrinsic : Authorization.Extrinsic AccountId}
    (hroot : extrinsic.1 ≠ .root) (chain : Authorization.Chain AccountId) :
    let next := (exec (Authorization.dispatch (authorizationConfig AccountId) extrinsic) chain).2
    next.store.wellKnownNodes = chain.store.wellKnownNodes ∧
      ∀ node owner, chain.store.owners.tryGet node = some owner →
        extrinsic.1 ≠ .signed owner → next.store.record node = chain.store.record node := by
  obtain ⟨origin, call⟩ := extrinsic
  cases origin with
  | root => exact absurd rfl hroot
  | none =>
      -- without a signature nothing is permitted, so the call has failed or done nothing
      obtain ⟨error, hexec⟩ | ⟨_, _, -, hexec⟩ | ⟨event, hpermits, -⟩ :=
        Authorization.dispatch_cases (authorizationConfig AccountId) (.none, call) chain
      · rw [hexec]
        exact ⟨rfl, fun _ _ _ _ => rfl⟩
      · rw [hexec]
        exact ⟨rfl, fun _ _ _ _ => rfl⟩
      · exact absurd hpermits not_permits_none
  | signed who =>
      have hunprivileged : Authorization.Unprivileged (authorizationConfig AccountId)
          (RawOrigin.signed who, call).1 := ⟨⟨who, rfl⟩, rfl, rfl, rfl, rfl⟩
      obtain ⟨hwellKnown, hcases⟩ := Authorization.exec_unprivileged hunprivileged chain
      refine ⟨hwellKnown, fun node owner howner hsigner => ?_⟩
      obtain hsame | ⟨other, hother, hsigned⟩ | ⟨hnone, -⟩ := hcases node
      · exact hsame
      · rw [Option.some.inj (hother.symm.trans howner)] at hsigned
        exact absurd hsigned hsigner
      · exact absurd (hnone.symm.trans howner) (by simp)

/-- The same for a sequence of such calls. -/
theorem run_of_ne_root {extrinsics : List (Authorization.Extrinsic AccountId)}
    (hroot : ∀ extrinsic ∈ extrinsics, extrinsic.1 ≠ .root)
    (chain : Authorization.Chain AccountId) :
    let final := Dispatch.run (Authorization.dispatch (authorizationConfig AccountId)) chain
      extrinsics
    final.store.wellKnownNodes = chain.store.wellKnownNodes ∧
      ∀ node owner, chain.store.owners.tryGet node = some owner →
        (∀ extrinsic ∈ extrinsics, extrinsic.1 ≠ .signed owner) →
          final.store.record node = chain.store.record node := by
  induction extrinsics generalizing chain with
  | nil => exact ⟨rfl, fun _ _ _ _ => rfl⟩
  | cons extrinsic rest ih =>
      obtain ⟨hhead, htail⟩ := List.forall_mem_cons.mp hroot
      obtain ⟨hwellKnown, hrecord⟩ := exec_of_ne_root hhead chain
      obtain ⟨hwellKnown', hrecord'⟩ := ih htail
        (exec (Authorization.dispatch (authorizationConfig AccountId) extrinsic) chain).2
      refine ⟨hwellKnown'.trans hwellKnown, fun node owner howner hsigner => ?_⟩
      obtain ⟨hhead, htail⟩ := List.forall_mem_cons.mp hsigner
      have hsame := hrecord node owner howner hhead
      have howner' := (congrArg Authorization.NodeRecord.owner hsame).trans howner
      exact (hrecord' node owner howner' htail).trans hsame

/-! ## Chains without extrinsics of the key holder -/

variable {framework : Framework AccountId Other Storage}

omit [Inhabited AccountId] in
/-- Extrinsics of others do not disturb the pallets. -/
theorem not_disturbs_of_ne {key : AccountId} {extrinsic : CheckedExtrinsic AccountId Other}
    (hkey : extrinsic.origin ≠ .signed key) :
    ¬ framework.Disturbs (effect key extrinsic.origin extrinsic.function) := by
  have hroot := extrinsic.origin_ne_root
  obtain ⟨inner, -, heffect⟩ | ⟨inner, heffect⟩ | heffect := effect_of_ne hkey extrinsic.function
  · rw [heffect]
    exact id
  · rw [heffect]
    generalize extrinsic.origin = origin at hroot
    cases origin with
    | root => exact absurd rfl hroot
    | signed who => exact id
    | none => exact id
  · rw [heffect]
    exact id

theorem key_executeExtrinsic {state next : State AccountId Storage}
    {extrinsic : CheckedExtrinsic AccountId Other}
    (hnext : executeExtrinsic framework state extrinsic = some next)
    (hkey : extrinsic.origin ≠ .signed state.key) : next.key = state.key := by
  obtain ⟨before, after, rfl⟩ := exists_of_executeExtrinsic hnext
  obtain ⟨inner, -, heffect⟩ | ⟨inner, heffect⟩ | heffect := effect_of_ne hkey extrinsic.function
  · rw [heffect]
    cases inner <;> rfl
  · rw [heffect]
    have hkept := framework.toPallets_dispatch extrinsic.origin inner
      { state with storage := before } (fun hroot => absurd hroot extrinsic.origin_ne_root)
    exact congrArg Pallets.key hkept
  · rw [heffect]
    rfl

theorem key_executeBlock {key : AccountId} (state : State AccountId Storage)
    (block : Block AccountId Other) (next : State AccountId Storage)
    (hnext : executeBlock framework state block = some next)
    (hkey : ∀ extrinsic ∈ block.extrinsics, extrinsic.origin ≠ .signed key)
    (hstate : state.key = key) : next.key = key := by
  obtain ⟨last, hlast, rfl⟩ := foldlM_of_executeBlock hnext
  refine foldlM_invariant (fun current => current.key = key)
    (CheckedExtrinsic.origin · ≠ .signed key) ?_ hkey hstate hlast
  rintro current extrinsic after hafter hne rfl
  exact key_executeExtrinsic hafter hne

/-- The key stays the same along a chain without extrinsics of its holder. -/
theorem alongChain_of_allExtrinsics {state : State AccountId Storage}
    {chain : List (Block AccountId Other)}
    (hkey : AllExtrinsics (fun extrinsic => extrinsic.origin ≠ .signed state.key) chain)
    {allowed : CheckedExtrinsic AccountId Other → Prop} (hallowed : AllExtrinsics allowed chain) :
    AlongChain framework
      (fun current extrinsic =>
        current.key = state.key ∧ extrinsic.origin ≠ .signed state.key ∧ allowed extrinsic)
      state chain := by
  have hblocks : ∀ block ∈ chain, ∀ extrinsic ∈ block.extrinsics,
      extrinsic.origin ≠ .signed state.key ∧ allowed extrinsic :=
    fun block hmem extrinsic hextrinsic =>
      ⟨hkey block hmem extrinsic hextrinsic, hallowed block hmem extrinsic hextrinsic⟩
  have halong : Along (executeBlock framework)
      (fun current block => current.key = state.key ∧ ∀ extrinsic ∈ block.extrinsics,
        extrinsic.origin ≠ .signed state.key ∧ allowed extrinsic) state chain := by
    refine along_of_invariant (fun current : State AccountId Storage => current.key = state.key)
      _ ?_ hblocks rfl
    intro current block next hnext hblock
    exact key_executeBlock current block next hnext fun extrinsic hmem => (hblock extrinsic hmem).1
  refine halong.imp ?_
  rintro current block ⟨hcurrent, hblock⟩
  refine along_of_invariant (fun current : State AccountId Storage => current.key = state.key)
    _ ?_ hblock hcurrent
  intro before extrinsic after hafter hne hbefore
  rw [← hbefore] at hne ⊢
  exact key_executeExtrinsic hafter hne.1

theorem undisturbed_of_allExtrinsics {state : State AccountId Storage}
    {chain : List (Block AccountId Other)}
    (hkey : AllExtrinsics (fun extrinsic => extrinsic.origin ≠ .signed state.key) chain) :
    Undisturbed framework state chain := by
  refine (alongChain_of_allExtrinsics hkey hkey).imp ?_
  rintro current extrinsic ⟨hcurrent, hne, -⟩
  rw [hcurrent]
  exact not_disturbs_of_ne hne

/-- In a chain without extrinsics of the key holder every call reaches a part
with the origin of the extrinsic it stands in. -/
theorem Component.forall_mem_calls {Inner Command : Type}
    (component : Component AccountId Inner Command) {property : Command → Prop}
    {allowed : RawOrigin AccountId → Prop}
    (hselect : ∀ number origin call command, component.select number origin call = some command →
      allowed origin → property command)
    {state : State AccountId Storage} {chain : List (Block AccountId Other)}
    (hkey : AllExtrinsics (fun extrinsic => extrinsic.origin ≠ .signed state.key) chain)
    (hallowed : AllExtrinsics (fun extrinsic => allowed extrinsic.origin) chain) :
    ∀ command ∈ component.calls framework state chain, property command := by
  have hreached : AlongChain framework (fun current extrinsic =>
      ∀ command ∈ component.reached current extrinsic, property command) state chain := by
    refine (alongChain_of_allExtrinsics hkey hallowed).imp ?_
    rintro current extrinsic ⟨hcurrent, hne, horigin⟩ command hmem
    rw [Component.reached, hcurrent] at hmem
    obtain ⟨inner, -, heffect⟩ | ⟨inner, heffect⟩ | heffect :=
      effect_of_ne hne extrinsic.function
    · rw [heffect] at hmem
      exact hselect _ _ inner command (Option.mem_toList.mp hmem) horigin
    · rw [heffect] at hmem
      cases hmem
    · rw [heffect] at hmem
      cases hmem
  have hblocks : ∀ block ∈ component.blocks framework state chain, ∀ command ∈ block.2,
      property command := by
    refine forall_mem_projected (Along.imp ?_ hreached)
    intro current block hblock inner hmem
    obtain rfl := List.mem_singleton.mp hmem
    exact forall_mem_projected hblock
  intro command hmem
  obtain ⟨block, hblock, hcommand⟩ := List.mem_flatMap.mp hmem
  exact hblocks block hblock command hcommand

/-- As long as the holder of the sudo key signs nothing, the key and the well
known nodes stay as they are, whatever everybody else does. A node with an owner
who signs nothing either keeps its owner, its connections and the nodes it is
authorized to connect to. -/
theorem executeBlocks_without_key_holder (framework : Framework AccountId Other Storage)
    (state final : State AccountId Storage) (chain : List (Block AccountId Other))
    (hrun : executeBlocks framework state chain = some final)
    (hkey : AllExtrinsics (fun extrinsic => extrinsic.origin ≠ .signed state.key) chain) :
    final.key = state.key ∧
      final.supraAuthorization.store.wellKnownNodes =
        state.supraAuthorization.store.wellKnownNodes ∧
      ∀ node owner, state.supraAuthorization.store.owners.tryGet node = some owner →
        AllExtrinsics (fun extrinsic => extrinsic.origin ≠ .signed owner) chain →
        final.supraAuthorization.store.owners.tryGet node = some owner ∧
          final.supraAuthorization.store.additionalConnections.tryGet node =
            state.supraAuthorization.store.additionalConnections.tryGet node ∧
          Authorization.getAuthorizedNodes final.supraAuthorization.store node =
            Authorization.getAuthorizedNodes state.supraAuthorization.store node := by
  have hselect : ∀ (allowed : RawOrigin AccountId → Prop) (number : BlockNumber) origin call
      (command : Authorization.Extrinsic AccountId),
      supraAuthorizationComponent.select number origin call = some command →
        allowed origin → allowed command.1 := by
    intro allowed number origin call command hcommand horigin
    cases call with
    | supraAuthorization call =>
        cases hcommand
        exact horigin
    | templateModule call => cases hcommand
    | lightClient call => cases hcommand
  have hroot : ∀ extrinsic ∈ supraAuthorizationComponent.calls framework state chain,
      extrinsic.1 ≠ .root := by
    refine supraAuthorizationComponent.forall_mem_calls (hselect (· ≠ .root)) hkey ?_
    exact fun _ _ extrinsic _ => extrinsic.origin_ne_root
  obtain ⟨hwellKnown, hrecords⟩ := run_of_ne_root hroot state.supraAuthorization
  rw [← supraAuthorization_executeBlocks hrun (undisturbed_of_allExtrinsics hkey)]
    at hwellKnown hrecords
  refine ⟨foldlM_invariant (fun current => current.key = state.key) _ key_executeBlock hkey rfl
    hrun, hwellKnown, ?_⟩
  intro node owner howner hsigner
  have hrecord := hrecords node owner howner
    (supraAuthorizationComponent.forall_mem_calls (hselect (· ≠ .signed owner)) hkey hsigner)
  exact ⟨(congrArg Authorization.NodeRecord.owner hrecord).trans howner,
    congrArg Authorization.NodeRecord.connections hrecord,
    Authorization.getAuthorizedNodes_congr hwellKnown hrecord⟩

/-- A stranger tries to remove a well known node through sudo and to take it over
from its owner. -/
theorem executeBlocks_without_key_holder_of_stranger :
    let framework := Framework.bare ℕ
    let start := genesis framework 7 [(Authorization.testNode 1, 3)]
    let chain : List (Block ℕ Unit) := [⟨1, [
      .ofSigner 5 0 (.sudoCall (.pallet (.supraAuthorization
        (.removeWellKnownNode (Authorization.testNode 1))))),
      .ofSigner 5 1 (.pallet (.supraAuthorization
        (.transferNode (Authorization.testNode 1) 5)))]⟩]
    ∃ final, executeBlocks framework start chain = some final ∧
      final.supraAuthorization.store.wellKnownNodes = {Authorization.testNode 1} ∧
      final.supraAuthorization.store.owners.tryGet (Authorization.testNode 1) = some 3 := by
  intro framework start chain
  have hsome : (executeBlocks framework start chain).isSome = true := rfl
  obtain ⟨final, hfinal⟩ := Option.isSome_iff_exists.mp hsome
  have hsigner : ∀ who, who ≠ 5 →
      AllExtrinsics (fun extrinsic => extrinsic.origin ≠ .signed who) chain := by
    intro who hwho
    simp [AllExtrinsics, chain, CheckedExtrinsic.ofSigner, CheckedExtrinsic.origin, hwho.symm]
  obtain ⟨-, hwellKnown, hnodes⟩ :=
    executeBlocks_without_key_holder framework _ _ _ hfinal (hsigner 7 (by decide))
  exact ⟨final, hfinal, hwellKnown.trans (by decide),
    (hnodes _ 3 (by decide) (hsigner 3 (by decide))).1⟩

end SupraClient.Runtime
