import SupraClient.Frame.Dispatch

/-! # The proof of existence pallet

An account claims a proof, any string of bytes, and later may revoke its claim.
The storage keeps the claimant and the number of the block the claim was made
in. As for the other pallets, nothing rolls a failing call back.
-/

namespace SupraClient.ProofOfExistence

open Frame Frame.Dispatch

/-- The bytes of a proof. -/
abbrev Proof := List UInt8

variable {AccountId BlockNumber : Type}

/-- The claims, each with its claimant and block number. -/
structure Store (AccountId BlockNumber : Type) where
  proofs : StorageMap Proof (AccountId × BlockNumber)

inductive Event (AccountId : Type) where
  /-- A proof has been claimed. -/
  | claimCreated (who : AccountId) (claim : Proof)
  /-- A claim is revoked by the owner. -/
  | claimRevoked (who : AccountId) (claim : Proof)
  deriving DecidableEq

inductive Error where
  /-- The proof has already been claimed. -/
  | proofAlreadyClaimed
  /-- The proof does not exist, so it cannot be revoked. -/
  | noSuchProof
  /-- The proof is claimed by another account, so the caller cannot revoke it. -/
  | notProofOwner
  deriving DecidableEq

inductive Call where
  | createClaim (proof : Proof)
  | revokeClaim (proof : Proof)
  deriving DecidableEq

def Call.proof : Call → Proof
  | .createClaim proof => proof
  | .revokeClaim proof => proof

/-- A call, the origin it is dispatched with, and the number of its block. -/
structure Execution (AccountId BlockNumber : Type) where
  blockNumber : BlockNumber
  origin : RawOrigin AccountId
  call : Call

abbrev Chain (AccountId BlockNumber : Type) :=
  Ledger (Store AccountId BlockNumber) (Event AccountId)

abbrev Pallet (AccountId BlockNumber : Type) := Dispatch (Chain AccountId BlockNumber) Error

def proofs : StorageItem (Store AccountId BlockNumber)
    (StorageMap Proof (AccountId × BlockNumber)) where
  view := Store.proofs
  set entries _ := { proofs := entries }

/-- `currentBlock` is what the system module reports as the block number. -/
def createClaim (currentBlock : BlockNumber) (origin : RawOrigin AccountId) (proof : Proof) :
    Pallet AccountId BlockNumber Unit := do
  let sender ← ensureSigned origin
  let claimed ← proofs.containsKey proof
  ensure (¬ claimed) .proofAlreadyClaimed
  proofs.insert proof (sender, currentBlock)
  depositEvent (.claimCreated sender proof)

variable [DecidableEq AccountId] [Inhabited AccountId] [Inhabited BlockNumber]

def revokeClaim (origin : RawOrigin AccountId) (proof : Proof) :
    Pallet AccountId BlockNumber Unit := do
  let sender ← ensureSigned origin
  let claimed ← proofs.containsKey proof
  ensure claimed .noSuchProof
  let (owner, _) ← proofs.getKey proof
  ensure (sender = owner) .notProofOwner
  proofs.remove proof
  depositEvent (.claimRevoked sender proof)

def dispatch : Execution AccountId BlockNumber → Pallet AccountId BlockNumber Unit
  | ⟨blockNumber, origin, .createClaim proof⟩ => createClaim blockNumber origin proof
  | ⟨_, origin, .revokeClaim proof⟩ => revokeClaim origin proof

def emptyChain : Chain AccountId BlockNumber where
  store := { proofs := ∅ }
  events := []

end SupraClient.ProofOfExistence
