import SupraClient.Runtime.Executive

/-! # What a chain looks like from one pallet

A call of the runtime, however deeply it is wrapped in sudo calls, comes down to
at most one call of one pallet or to one change of the sudo key. Seen from a
pallet of the repository, a chain of blocks is therefore a chain of the calls that
reach it, and the pallet is left in the state its own model gives for them, unless
storage is overridden as root.
-/

namespace SupraClient.Runtime

open Frame Frame.Dispatch

variable {AccountId Other Storage : Type}

/-! ## The effect of a call -/

/-- What a call of the runtime comes down to. -/
inductive Effect (AccountId Other : Type) where
  | pallet (origin : RawOrigin AccountId) (call : PalletCall AccountId)
  | framework (origin : RawOrigin AccountId) (call : Other)
  | setKey (new : AccountId)
  | nothing

/-- A call that writes to any storage takes effect as root. -/
def Framework.Disturbs (framework : Framework AccountId Other Storage) :
    Effect AccountId Other → Prop
  | .framework .root call => framework.overrides call = true
  | _ => False

section Effects

variable [DecidableEq AccountId]

/-- The effect of a call while an account holds the sudo key. -/
def effect (key : AccountId) :
    RawOrigin AccountId → Call AccountId Other → Effect AccountId Other
  | origin, .pallet call => .pallet origin call
  | origin, .framework call => .framework origin call
  | origin, .sudoCall call => if origin = .signed key then effect key .root call else .nothing
  | origin, .sudoUncheckedWeight call _ =>
      if origin = .signed key then effect key .root call else .nothing
  | origin, .setKey new => if origin = .signed key then .setKey new else .nothing
  | origin, .sudoAs who call =>
      if origin = .signed key then effect key (.signed who) call else .nothing

/-- Whoever does not hold the key has no other effect than calling a pallet in
their own name. -/
theorem effect_of_ne {key : AccountId} {origin : RawOrigin AccountId} (hkey : origin ≠ .signed key)
    (call : Call AccountId Other) :
    (∃ inner, call = .pallet inner ∧ effect key origin call = .pallet origin inner) ∨
      (∃ inner, effect key origin call = .framework origin inner) ∨
      effect key origin call = .nothing := by
  cases call with
  | pallet inner => exact Or.inl ⟨inner, rfl, rfl⟩
  | framework inner => exact Or.inr (Or.inl ⟨inner, rfl⟩)
  | sudoCall call => exact Or.inr (Or.inr (if_neg hkey))
  | sudoUncheckedWeight call weight => exact Or.inr (Or.inr (if_neg hkey))
  | setKey new => exact Or.inr (Or.inr (if_neg hkey))
  | sudoAs who call => exact Or.inr (Or.inr (if_neg hkey))

theorem exec_ensureSudo_bind (origin : RawOrigin AccountId)
    (next : Unit → Program AccountId Storage Unit) (state : State AccountId Storage) :
    (exec (ensureSudo origin >>= next) state).2 =
      if origin = .signed state.key then (exec (next ()) state).2 else state := by
  cases origin with
  | root => rfl
  | none => rfl
  | signed who =>
      change (exec (ensure (who = state.key) .requireSudo >>= next) state).2 = _
      rw [exec_ensure_bind, apply_ite Prod.snd]
      simp only [RawOrigin.signed.injEq]

end Effects

variable [DecidableEq AccountId] [Inhabited AccountId]
  (framework : Framework AccountId Other Storage)

def State.perform (state : State AccountId Storage) :
    Effect AccountId Other → State AccountId Storage
  | .pallet origin call => ((dispatchPallet origin call).exec state).2
  | .framework origin call => ((framework.dispatch origin call).exec state).2
  | .setKey new => { state with key := new }
  | .nothing => state

/-- A dispatched call leaves behind the state of its effect. The key is read
once for all levels of the call, since a call that changes it ends there. -/
theorem exec_dispatch (origin : RawOrigin AccountId) (call : Call AccountId Other)
    (state : State AccountId Storage) :
    (exec (dispatch framework origin call) state).2 =
      state.perform framework (effect state.key origin call) := by
  induction call generalizing origin with
  | pallet call => rfl
  | framework call => rfl
  | setKey new =>
      rw [dispatch, exec_ensureSudo_bind, effect, apply_ite (state.perform framework)]
      rfl
  | sudoCall call ih | sudoUncheckedWeight call weight ih | sudoAs who call ih =>
      rw [dispatch, exec_ensureSudo_bind, exec_attempt_bind, effect,
        apply_ite (state.perform framework), ← ih]
      rfl

/-! ## The effect of an extrinsic -/

variable {framework}

/-- A valid extrinsic has the effect of its call, in between two changes of the
framework to its own storage. -/
theorem exists_of_executeExtrinsic {state next : State AccountId Storage}
    {extrinsic : CheckedExtrinsic AccountId Other}
    (hnext : executeExtrinsic framework state extrinsic = some next) :
    ∃ before after, next =
      { ({ state with storage := before } : State AccountId Storage).perform framework
          (effect state.key extrinsic.origin extrinsic.function) with storage := after } := by
  obtain ⟨⟨result, last⟩, happly, rfl⟩ := Option.map_eq_some_iff.mp hnext
  obtain ⟨before, -, htail⟩ := Option.bind_eq_some_iff.mp happly
  obtain ⟨-, -, htail⟩ := Option.bind_eq_some_iff.mp htail
  obtain ⟨after, -, hreturn⟩ := Option.bind_eq_some_iff.mp htail
  cases hreturn
  have hexec := exec_dispatch framework extrinsic.origin extrinsic.function
    { state with storage := before }
  exact ⟨before, after,
    congrArg (fun last : State AccountId Storage => { last with storage := after }) hexec⟩

theorem foldlM_of_executeBlock {state next : State AccountId Storage}
    {block : Block AccountId Other} (hnext : executeBlock framework state block = some next) :
    ∃ last, block.extrinsics.foldlM (executeExtrinsic framework)
        (initializeBlock framework state block.number) = some last ∧
      next = finalizeBlock framework last := by
  unfold executeBlock at hnext
  split at hnext
  next =>
    obtain ⟨last, hlast, hfinal⟩ := Option.map_eq_some_iff.mp hnext
    exact ⟨last, hlast, hfinal.symm⟩
  next => cases hnext

/-! ## Properties along a chain -/

variable (framework)

/-- A property holds of every extrinsic of a chain, in the state that the extrinsic
is executed in. -/
def AlongChain (property : State AccountId Storage → CheckedExtrinsic AccountId Other → Prop) :
    State AccountId Storage → List (Block AccountId Other) → Prop :=
  Along (executeBlock framework) fun state block =>
    Along (executeExtrinsic framework) property (initializeBlock framework state block.number)
      block.extrinsics

/-- No call that writes to any storage takes effect as root. -/
def Undisturbed : State AccountId Storage → List (Block AccountId Other) → Prop :=
  AlongChain framework fun state extrinsic =>
    ¬ framework.Disturbs (effect state.key extrinsic.origin extrinsic.function)

variable {framework}

theorem AlongChain.imp
    {property weaker : State AccountId Storage → CheckedExtrinsic AccountId Other → Prop}
    (himp : ∀ state extrinsic, property state extrinsic → weaker state extrinsic)
    {state : State AccountId Storage} {chain : List (Block AccountId Other)}
    (halong : AlongChain framework property state chain) :
    AlongChain framework weaker state chain :=
  Along.imp (fun _ _ => Along.imp himp) halong

/-- Nothing disturbs the pallets if the framework cannot. -/
theorem undisturbed_bare (state : State AccountId Unit) (chain : List (Block AccountId Unit)) :
    Undisturbed (Framework.bare AccountId) state chain := by
  have hnever : ∀ effect, ¬ (Framework.bare AccountId).Disturbs effect := by
    intro effect hdisturbs
    unfold Framework.Disturbs at hdisturbs
    split at hdisturbs
    next => cases hdisturbs
    next => exact hdisturbs
  refine along_of_forall (fun current block => ?_) state chain
  exact along_of_forall (fun _ _ => hnever _) _ _

/-! ## Parts of the runtime -/

/-- A part of the state together with its own way of entering blocks and of
executing the calls that are meant for it. -/
structure Component (AccountId Inner Command : Type) [DecidableEq AccountId]
    [Inhabited AccountId] where
  view : Pallets AccountId → Inner
  enter : BlockNumber → Inner → Inner
  step : Inner → Command → Inner
  /-- The command for the part in a call of a pallet. -/
  select : BlockNumber → RawOrigin AccountId → PalletCall AccountId → Option Command
  view_setKey : ∀ pallets new, view { pallets with key := new } = view pallets
  view_enterBlock : ∀ pallets number,
    view { pallets with lightClient := Oracle.enterBlock pallets.lightClient number } =
      enter number (view pallets)
  view_pallet : ∀ {Storage : Type} (state : State AccountId Storage) origin call,
    view ((dispatchPallet origin call).exec state).2.toPallets =
      (select state.blockNumber origin call).toList.foldl step (view state.toPallets)

namespace Component

variable {Inner Command : Type} (component : Component AccountId Inner Command)

/-- The commands for the part in an effect. -/
def commands (number : BlockNumber) : Effect AccountId Other → List Command
  | .pallet origin call => (component.select number origin call).toList
  | _ => []

/-- The commands that reach the part through an extrinsic. -/
def reached (state : State AccountId Storage) (extrinsic : CheckedExtrinsic AccountId Other) :
    List Command :=
  component.commands state.blockNumber
    (effect state.key extrinsic.origin extrinsic.function)

variable (framework)

/-- The commands that reach the part in a block. -/
def reachedInBlock (state : State AccountId Storage) (block : Block AccountId Other) :
    List Command :=
  projected (executeExtrinsic framework) component.reached
    (initializeBlock framework state block.number) block.extrinsics

/-- A chain of blocks as the part sees it. -/
def blocks (state : State AccountId Storage) (blocks : List (Block AccountId Other)) :
    List (BlockNumber × List Command) :=
  projected (executeBlock framework)
    (fun current block => [(block.number, component.reachedInBlock framework current block)])
    state blocks

/-- All calls that reach the part in a chain of blocks. -/
def calls (state : State AccountId Storage) (chain : List (Block AccountId Other)) :
    List Command :=
  (component.blocks framework state chain).flatMap Prod.snd

variable {framework}

def executeBlock (inner : Inner) (block : BlockNumber × List Command) : Inner :=
  block.2.foldl component.step (component.enter block.1 inner)

theorem view_perform (state : State AccountId Storage) {effect : Effect AccountId Other}
    (heffect : ¬ framework.Disturbs effect) :
    component.view (state.perform framework effect).toPallets =
      (component.commands state.blockNumber effect).foldl component.step
        (component.view state.toPallets) := by
  cases effect with
  | pallet origin call => exact component.view_pallet state origin call
  | setKey new => exact component.view_setKey state.toPallets new
  | nothing => rfl
  | framework origin call =>
      refine congrArg component.view (framework.toPallets_dispatch origin call state ?_)
      rintro rfl
      exact Bool.eq_false_iff.mpr heffect

/-- An extrinsic acts on the part by the commands that reach it. -/
theorem view_executeExtrinsic {state next : State AccountId Storage}
    {extrinsic : CheckedExtrinsic AccountId Other}
    (hnext : executeExtrinsic framework state extrinsic = some next)
    (heffect : ¬ framework.Disturbs (effect state.key extrinsic.origin extrinsic.function)) :
    component.view next.toPallets =
      (component.reached state extrinsic).foldl component.step
        (component.view state.toPallets) := by
  obtain ⟨before, after, rfl⟩ := exists_of_executeExtrinsic hnext
  exact component.view_perform { state with storage := before } heffect

/-- A valid chain of blocks acts on the part as the chain that the part sees. -/
theorem view_executeBlocks {state final : State AccountId Storage}
    {chain : List (Block AccountId Other)} (hrun : executeBlocks framework state chain = some final)
    (hundisturbed : Undisturbed framework state chain) :
    component.view final.toPallets =
      (component.blocks framework state chain).foldl component.executeBlock
        (component.view state.toPallets) := by
  refine view_foldlM (fun current => component.view current.toPallets) ?_ hundisturbed hrun
  intro current block next hnext hblock
  obtain ⟨last, hlast, rfl⟩ := foldlM_of_executeBlock hnext
  have hview := view_foldlM (fun current => component.view current.toPallets)
    (fun _ _ _ => component.view_executeExtrinsic) hblock hlast
  refine hview.trans ?_
  rw [← reachedInBlock, List.foldl_cons, List.foldl_nil, executeBlock,
    ← component.view_enterBlock]
  rfl

/-- A part that does not depend on the blocks sees one sequence of calls. -/
theorem view_executeBlocks_of_enter (henter : ∀ number inner, component.enter number inner = inner)
    {state final : State AccountId Storage} {chain : List (Block AccountId Other)}
    (hrun : executeBlocks framework state chain = some final)
    (hundisturbed : Undisturbed framework state chain) :
    component.view final.toPallets =
      (component.calls framework state chain).foldl component.step
        (component.view state.toPallets) := by
  rw [component.view_executeBlocks hrun hundisturbed, calls, List.foldl_flatMap]
  refine List.foldl_ext _ _ _ fun inner block _ => ?_
  rw [executeBlock, henter]

end Component

/-! ## The pallets as parts -/

def templateModuleComponent : Component AccountId (ProofOfExistence.Chain AccountId BlockNumber)
    (ProofOfExistence.Execution AccountId BlockNumber) where
  view := Pallets.templateModule
  enter _ chain := chain
  step chain execution := (exec (ProofOfExistence.dispatch execution) chain).2
  select number origin
    | .templateModule call => some ⟨number, origin, call⟩
    | _ => none
  view_setKey _ _ := rfl
  view_enterBlock _ _ := rfl
  view_pallet _ _ call := by cases call <;> rfl

def lightClientComponent : Component AccountId (Oracle.Chain AccountId)
    (Oracle.Extrinsic AccountId) where
  view := Pallets.lightClient
  enter number chain := Oracle.enterBlock chain number
  step chain extrinsic := (exec (Oracle.dispatch extrinsic) chain).2
  select _ origin
    | .lightClient call => some (origin, call)
    | _ => none
  view_setKey _ _ := rfl
  view_enterBlock _ _ := rfl
  view_pallet _ _ call := by cases call <;> rfl

def supraAuthorizationComponent : Component AccountId (Authorization.Chain AccountId)
    (Authorization.Extrinsic AccountId) where
  view := Pallets.supraAuthorization
  enter _ chain := chain
  step chain extrinsic :=
    (exec (Authorization.dispatch (authorizationConfig AccountId) extrinsic) chain).2
  select _ origin
    | .supraAuthorization call => some (origin, call)
    | _ => none
  view_setKey _ _ := rfl
  view_enterBlock _ _ := rfl
  view_pallet _ _ call := by cases call <;> rfl

variable (framework)

/-- The blocks of the oracle pallet within a chain of blocks. -/
def lightClientBlocks (state : State AccountId Storage) (chain : List (Block AccountId Other)) :
    List (Oracle.Block AccountId) :=
  (lightClientComponent.blocks framework state chain).map fun block => ⟨block.1, block.2⟩

variable {framework}

theorem supraAuthorization_executeBlocks {state final : State AccountId Storage}
    {chain : List (Block AccountId Other)} (hrun : executeBlocks framework state chain = some final)
    (hundisturbed : Undisturbed framework state chain) :
    final.supraAuthorization =
      Dispatch.run (Authorization.dispatch (authorizationConfig AccountId))
        state.supraAuthorization (supraAuthorizationComponent.calls framework state chain) :=
  supraAuthorizationComponent.view_executeBlocks_of_enter (fun _ _ => rfl) hrun hundisturbed

theorem lightClient_executeBlocks {state final : State AccountId Storage}
    {chain : List (Block AccountId Other)} (hrun : executeBlocks framework state chain = some final)
    (hundisturbed : Undisturbed framework state chain) :
    final.lightClient =
      Oracle.executeBlocks state.lightClient (lightClientBlocks framework state chain) := by
  rw [Oracle.executeBlocks, lightClientBlocks, List.foldl_map]
  exact lightClientComponent.view_executeBlocks hrun hundisturbed

/-- A valid chain of blocks leaves every pallet of the repository in the state that
the pallet on its own reaches by the calls for it, each with the origin that the
extrinsic and the sudo key give it. No pallet interferes with another, and neither
does the framework, as long as no call that writes to any storage takes effect as
root. -/
theorem executeBlocks_refines_pallets (framework : Framework AccountId Other Storage)
    (state final : State AccountId Storage) (chain : List (Block AccountId Other))
    (hrun : executeBlocks framework state chain = some final)
    (hundisturbed : Undisturbed framework state chain) :
    final.templateModule = Dispatch.run ProofOfExistence.dispatch state.templateModule
        (templateModuleComponent.calls framework state chain) ∧
      final.lightClient =
        Oracle.executeBlocks state.lightClient (lightClientBlocks framework state chain) ∧
      final.supraAuthorization =
        Dispatch.run (Authorization.dispatch (authorizationConfig AccountId))
          state.supraAuthorization (supraAuthorizationComponent.calls framework state chain) :=
  ⟨templateModuleComponent.view_executeBlocks_of_enter (fun _ _ => rfl) hrun hundisturbed,
    lightClient_executeBlocks hrun hundisturbed,
    supraAuthorization_executeBlocks hrun hundisturbed⟩

/-- Behind an inherent extrinsic the holder of the sudo key adds a well known node,
and the call reaches the authorization pallet as root. -/
theorem executeBlocks_refines_pallets_of_sudo :
    let framework := Framework.bare ℕ
    let chain : List (Block ℕ Unit) := [⟨1, [⟨none, .framework ()⟩,
      .ofSigner 7 0 (.sudoCall (.pallet (.supraAuthorization
        (.addWellKnownNode (Authorization.testNode 1) 5))))]⟩]
    ∃ final, executeBlocks framework (genesis framework 7 []) chain = some final ∧
      final.supraAuthorization =
        Dispatch.run (Authorization.dispatch (authorizationConfig ℕ)) (Authorization.genesis [])
          [(.root, .addWellKnownNode (Authorization.testNode 1) 5)] := by
  intro framework chain
  have hsome : (executeBlocks framework (genesis framework 7 []) chain).isSome = true := rfl
  obtain ⟨final, hfinal⟩ := Option.isSome_iff_exists.mp hsome
  have hcalls : supraAuthorizationComponent.calls framework (genesis framework 7 []) chain =
      [(.root, .addWellKnownNode (Authorization.testNode 1) 5)] := rfl
  have hundisturbed := undisturbed_bare (genesis framework 7 []) chain
  exact ⟨final, hfinal,
    hcalls ▸ (executeBlocks_refines_pallets framework _ _ _ hfinal hundisturbed).2.2⟩

end SupraClient.Runtime
