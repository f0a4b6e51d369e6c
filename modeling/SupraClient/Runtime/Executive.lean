import SupraClient.Authorization.Pallet
import SupraClient.Frame.Composition
import SupraClient.Oracle.Unsigned
import SupraClient.ProofOfExistence.Pallet
import SupraClient.Runtime.SignedTransaction

/-! # The runtime

The runtime composes the three pallets of the repository with a sudo key and with
the pallets that come with the framework. A call is dispatched to its pallet with
the origin of the extrinsic; the holder of the sudo key may dispatch it as root or
as any account instead.

The framework is a parameter: its storage, its calls, and its checks of nonces,
eras, weights and fees can be anything. What is known of it is that it leaves the
pallets of the repository alone, unless one of the calls that write to any storage
is dispatched as root.

A block with an invalid extrinsic is not executed at all. An extrinsic whose call
fails is valid.
-/

namespace SupraClient.Runtime

open Frame Frame.Dispatch

/-! ## Configuration -/

/-- Accept the root origin only. -/
def ensureRoot {AccountId : Type} : RawOrigin AccountId → Bool
  | .root => true
  | _ => false

/-- The authorization pallet as the runtime configures it. -/
def authorizationConfig (AccountId : Type) : Authorization.Config AccountId where
  maxWellKnownNodes := 8
  maxPeerIdLength := 128
  addOrigin := ensureRoot
  removeOrigin := ensureRoot
  swapOrigin := ensureRoot
  resetOrigin := ensureRoot

/-! ## Calls, state and blocks -/

inductive PalletCall (AccountId : Type) where
  | templateModule (call : ProofOfExistence.Call)
  | lightClient (call : Oracle.Call)
  | supraAuthorization (call : Authorization.Call AccountId)
  deriving DecidableEq

/-- A call of the runtime; `Other` are the calls of the framework. -/
inductive Call (AccountId Other : Type) where
  | pallet (call : PalletCall AccountId)
  | framework (call : Other)
  | sudoCall (call : Call AccountId Other)
  | sudoUncheckedWeight (call : Call AccountId Other) (weight : UInt64)
  | setKey (new : AccountId)
  | sudoAs (who : AccountId) (call : Call AccountId Other)
  deriving DecidableEq

inductive ModuleError where
  | templateModule (error : ProofOfExistence.Error)
  | lightClient (error : Oracle.Error)
  | supraAuthorization (error : Authorization.Error)
  /-- Sender must be the sudo account. -/
  | requireSudo
  /-- Any error of a pallet of the framework. -/
  | framework
  deriving DecidableEq

/-- The sudo key and the parts of the pallets of the repository. The number of the
current block stands in the part of the light client. -/
structure Pallets (AccountId : Type) where
  key : AccountId
  templateModule : ProofOfExistence.Chain AccountId BlockNumber
  lightClient : Oracle.Chain AccountId
  supraAuthorization : Authorization.Chain AccountId

/-- The state of the runtime, with whatever the framework stores. -/
structure State (AccountId Storage : Type) extends Pallets AccountId where
  storage : Storage

variable {AccountId Other Storage : Type}

def State.blockNumber (state : State AccountId Storage) : BlockNumber :=
  state.lightClient.store.blockNumber

def templateModule :
    StorageItem (State AccountId Storage) (ProofOfExistence.Chain AccountId BlockNumber) where
  view state := state.templateModule
  set chain state := { state with templateModule := chain }

def lightClient : StorageItem (State AccountId Storage) (Oracle.Chain AccountId) where
  view state := state.lightClient
  set chain state := { state with lightClient := chain }

def supraAuthorization :
    StorageItem (State AccountId Storage) (Authorization.Chain AccountId) where
  view state := state.supraAuthorization
  set chain state := { state with supraAuthorization := chain }

abbrev Program (AccountId Storage : Type) := Dispatch (State AccountId Storage) ModuleError

/-- An extrinsic whose signature, if there is one, has been checked. -/
structure CheckedExtrinsic (AccountId Other : Type) where
  signed : Option (AccountId × SignedExtra)
  function : Call AccountId Other

namespace CheckedExtrinsic

def origin (extrinsic : CheckedExtrinsic AccountId Other) : RawOrigin AccountId :=
  match extrinsic.signed with
  | some (who, _) => .signed who
  | none => .none

/-- An extrinsic signed with a nonce, an era of 64 blocks and no tip. -/
def ofSigner (who : AccountId) (nonce : Index) (function : Call AccountId Other) :
    CheckedExtrinsic AccountId Other where
  signed := some (who, ⟨⟨64, 0, by decide⟩, nonce, 0⟩)
  function := function

end CheckedExtrinsic

structure Block (AccountId Other : Type) where
  number : BlockNumber
  extrinsics : List (CheckedExtrinsic AccountId Other)

/-! ## The framework -/

/-- The rest of the runtime: System, Timestamp, Grandpa, Balances and the other
pallets of the framework, with their calls, their hooks at the borders of a block,
and the signed extensions, which see every extrinsic before and after its call and
can refuse it. -/
structure Framework (AccountId Other Storage : Type) where
  genesis : Storage
  onInitialize : BlockNumber → Storage → Storage
  onFinalize : BlockNumber → Storage → Storage
  preDispatch : CheckedExtrinsic AccountId Other → Storage → Option Storage
  postDispatch : CheckedExtrinsic AccountId Other → Except (DispatchError ModuleError) Unit →
    Storage → Option Storage
  dispatch : RawOrigin AccountId → Other → Program AccountId Storage Unit
  /-- The calls that write to any storage or change the code: `set_storage`,
  `kill_storage`, `kill_prefix`, `set_code` and `set_code_without_checks`. -/
  overrides : Other → Bool
  /-- Calls leave the pallets of the repository alone, unless they override storage
  and are dispatched as root. -/
  toPallets_dispatch : ∀ origin call state, (origin = .root → overrides call = false) →
    ((dispatch origin call).exec state).2.toPallets = state.toPallets

/-- A framework that refuses nothing, stores nothing, and has one call that does
nothing. -/
def Framework.bare (AccountId : Type) : Framework AccountId Unit Unit where
  genesis := ()
  onInitialize _ _ := ()
  onFinalize _ _ := ()
  preDispatch _ _ := some ()
  postDispatch _ _ _ := some ()
  dispatch _ _ := pure ()
  overrides _ := false
  toPallets_dispatch _ _ _ _ := rfl

variable (framework : Framework AccountId Other Storage)

def initializeBlock (state : State AccountId Storage) (number : BlockNumber) :
    State AccountId Storage :=
  { state with
    lightClient := Oracle.enterBlock state.lightClient number
    storage := framework.onInitialize number state.storage }

def finalizeBlock (state : State AccountId Storage) : State AccountId Storage :=
  { state with storage := framework.onFinalize state.blockNumber state.storage }

/-- The state the chain starts from: a sudo key, and nodes that are well known
from the beginning. -/
def genesis (key : AccountId) (nodes : List (Authorization.PeerId × AccountId)) :
    State AccountId Storage where
  key := key
  templateModule := ProofOfExistence.emptyChain
  lightClient := Oracle.emptyChain
  supraAuthorization := Authorization.genesis nodes
  storage := framework.genesis

/-- The check of an unsigned extrinsic before its call is dispatched. Calls of
pallets that validate none pass, for the sake of inherent extrinsics. -/
def preDispatch (extrinsic : CheckedExtrinsic AccountId Other) :
    Except TransactionValidityError Unit :=
  match extrinsic.signed, extrinsic.function with
  | none, .pallet (.lightClient call) => (Oracle.validateUnsigned call).map fun _ => ()
  | _, _ => .ok ()

/-! ## Dispatch -/

variable [DecidableEq AccountId] [Inhabited AccountId]

/-- Dispatch a call to the pallet it belongs to. -/
def dispatchPallet (origin : RawOrigin AccountId) :
    PalletCall AccountId → Program AccountId Storage Unit
  | .templateModule call => do
      let state ← get
      mount templateModule .templateModule
        (ProofOfExistence.dispatch ⟨state.blockNumber, origin, call⟩)
  | .lightClient call => mount lightClient .lightClient (Oracle.dispatch (origin, call))
  | .supraAuthorization call =>
      mount supraAuthorization .supraAuthorization
        (Authorization.dispatch (authorizationConfig AccountId) (origin, call))

/-- Fail unless the origin is signed by the holder of the sudo key. -/
def ensureSudo (origin : RawOrigin AccountId) : Program AccountId Storage Unit := do
  let sender ← ensureSigned origin
  let state ← get
  ensure (sender = state.key) .requireSudo

/-- Dispatch a call of the runtime. Sudo calls succeed whatever the call inside
them returns. -/
def dispatch : RawOrigin AccountId → Call AccountId Other → Program AccountId Storage Unit
  | origin, .pallet call => dispatchPallet origin call
  | origin, .framework call => framework.dispatch origin call
  | origin, .sudoCall call => do
      ensureSudo origin
      let _ ← attempt (dispatch .root call)
      return ()
  | origin, .sudoUncheckedWeight call _ => do
      ensureSudo origin
      let _ ← attempt (dispatch .root call)
      return ()
  | origin, .setKey new => do
      ensureSudo origin
      modify fun state => { state with key := new }
  | origin, .sudoAs who call => do
      ensureSudo origin
      let _ ← attempt (dispatch (.signed who) call)
      return ()

/-! ## Execution -/

/-- Apply a valid extrinsic: the result of its call, and the state after it. -/
def applyExtrinsic (state : State AccountId Storage)
    (extrinsic : CheckedExtrinsic AccountId Other) :
    Option (Except (DispatchError ModuleError) Unit × State AccountId Storage) := do
  let before ← framework.preDispatch extrinsic state.storage
  (preDispatch extrinsic).toOption
  let (result, next) := (dispatch framework extrinsic.origin extrinsic.function).exec
    { state with storage := before }
  let after ← framework.postDispatch extrinsic result next.storage
  return (result, { next with storage := after })

/-- One extrinsic within a block: whether its call fails does not matter, but an
invalid extrinsic makes the block invalid. -/
def executeExtrinsic (state : State AccountId Storage)
    (extrinsic : CheckedExtrinsic AccountId Other) : Option (State AccountId Storage) :=
  (applyExtrinsic framework state extrinsic).map Prod.snd

def executeBlock (state : State AccountId Storage) (block : Block AccountId Other) :
    Option (State AccountId Storage) :=
  if block.number = state.blockNumber + 1 then
    (block.extrinsics.foldlM (executeExtrinsic framework)
      (initializeBlock framework state block.number)).map (finalizeBlock framework)
  else none

/-- Execute blocks one after the other; there is a result if all are valid. -/
def executeBlocks (state : State AccountId Storage) (blocks : List (Block AccountId Other)) :
    Option (State AccountId Storage) :=
  blocks.foldlM (executeBlock framework) state

end SupraClient.Runtime
