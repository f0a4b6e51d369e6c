import SupraClient.Frame.Dispatch
import SupraClient.Scale.Codec

/-! # The oracle pallet

Accounts request a price with `update_ethereum_price`; the off-chain worker of
the block picks the request up, and reports back with an unsigned
`submit_ethereum_price`. Blocks and worker communicate through the off-chain
index: both calls write a record under one key derived from the block number,
and the worker decodes what it finds there.
-/

namespace SupraClient.Oracle

open Frame Scale

/-- The bytes of a byte string literal. -/
def bytesOf (text : String) : Bytes := text.toUTF8.data.toList

/-- Decode UTF-8, with the word `error` for invalid bytes. -/
def fromUtf8OrError (bytes : Bytes) : String := (String.fromUTF8? ⟨bytes.toArray⟩).getD "error"

/-! ## Indexed records -/

/-- What `submit_ethereum_price` writes to the off-chain index. -/
structure IndexingPriceData where
  name : ByteVec
  price : ByteVec
  deriving DecidableEq

/-- What `update_ethereum_price` writes to the off-chain index. -/
structure IndexingPriceFlag where
  name : ByteVec
  ethHost : ByteVec
  fromAddress : ByteVec
  toAddress : ByteVec
  deriving DecidableEq

def IndexingPriceData.codec : Codec IndexingPriceData :=
  (byteVec.pair byteVec).ofEquiv
    { toFun := fun data => (data.name, data.price)
      invFun := fun fields => ⟨fields.1, fields.2⟩ }

def IndexingPriceFlag.codec : Codec IndexingPriceFlag :=
  (byteVec.pair (byteVec.pair (byteVec.pair byteVec))).ofEquiv
    { toFun := fun flag => (flag.name, flag.ethHost, flag.fromAddress, flag.toAddress)
      invFun := fun fields => ⟨fields.1, fields.2.1, fields.2.2.1, fields.2.2.2⟩ }

def submitName : ByteVec := ⟨bytesOf "submit_ethereum_price", by decide⟩

def updateName : ByteVec := ⟨bytesOf "update_ethereum_price", by decide⟩

/-! ## State -/

/-- The number of the current block, and the off-chain index of the node. -/
structure Store where
  blockNumber : UInt32
  index : StorageMap Bytes Bytes

inductive Event (AccountId : Type) where
  /-- Event fetching etherium price done and transaction made to ethereum. -/
  | updateEthereumPrice (who : Option AccountId)
  /-- Event submit etherium price done. -/
  | submitEthereumPrice (who : Option AccountId) (price : ByteVec)
  deriving DecidableEq

inductive Error where
  | unknownOffchainMux
  | noLocalAcctForSigning
  | offchainSignedTxError
  | offchainUnsignedTxError
  | offchainUnsignedTxSignedPayloadError
  | httpFetchingError
  | httpNotParsedInStruct
  | parseFloatError
  | getParamError
  deriving DecidableEq

inductive Call where
  | submitEthereumPrice (ethereumPrice : ByteVec)
  | updateEthereumPrice (ethHost fromAddress toAddress : ByteVec)
  deriving DecidableEq

abbrev Extrinsic (AccountId : Type) := RawOrigin AccountId × Call

abbrev Chain (AccountId : Type) := Ledger Store (Event AccountId)

abbrev Pallet (AccountId : Type) := Dispatch (Chain AccountId) Error

def blockNumber : StorageItem Store UInt32 where
  view := Store.blockNumber
  set number store := { store with blockNumber := number }

def offchainIndex : StorageItem Store (StorageMap Bytes Bytes) where
  view := Store.index
  set entries store := { store with index := entries }

/-! ## Dispatchables -/

variable {AccountId : Type}

def onchainTxKey : Bytes := bytesOf "ocw-demo::storage::tx"

/-- The key of a block in the off-chain index. -/
def derivedKey (number : UInt32) : Bytes := onchainTxKey ++ bytesOf "/" ++ u32.encode number

def submitEthereumPrice (origin : RawOrigin AccountId) (ethereumPrice : ByteVec) :
    Pallet AccountId Unit := do
  Dispatch.ensureNone origin
  let key := derivedKey (← blockNumber.get)
  let data : IndexingPriceData := { name := submitName, price := ethereumPrice }
  offchainIndex.insert key (IndexingPriceData.codec.encode data)
  depositEvent (.submitEthereumPrice none ethereumPrice)

def updateEthereumPrice (origin : RawOrigin AccountId)
    (ethHost fromAddress toAddress : ByteVec) : Pallet AccountId Unit := do
  let who ← Dispatch.ensureSigned origin
  let key := derivedKey (← blockNumber.get)
  let data : IndexingPriceFlag := { name := updateName, ethHost, fromAddress, toAddress }
  offchainIndex.insert key (IndexingPriceFlag.codec.encode data)
  depositEvent (.updateEthereumPrice (some who))

def dispatch : Extrinsic AccountId → Pallet AccountId Unit
  | (origin, .submitEthereumPrice price) => submitEthereumPrice origin price
  | (origin, .updateEthereumPrice ethHost fromAddress toAddress) =>
      updateEthereumPrice origin ethHost fromAddress toAddress

/-! ## Off-chain worker -/

/-- The arguments of a call of `update_ethereum_price_worker`. -/
structure WorkerCall where
  ethHost : String
  fromAddress : String
  toAddress : String
  deriving DecidableEq

/-- A persistent value of the off-chain storage: absent, present but not
decodable, or decoded. -/
def getPersistent {Value : Type} (codec : Codec Value) (index : StorageMap Bytes Bytes)
    (key : Bytes) : Option (Option Value) :=
  (index.tryGet key).map codec.read

/-- The record the worker of a block acts on: what it decodes under the key of
the block, if that is named as an update. -/
def retrieveFlag (index : StorageMap Bytes Bytes) (number : UInt32) : Option IndexingPriceFlag :=
  match getPersistent IndexingPriceFlag.codec index (derivedKey number) with
  | some (some edata) =>
      if fromUtf8OrError edata.name.bytes = "update_ethereum_price" then some edata else none
  | _ => none

/-- The texts handed to `update_ethereum_price_worker` for a record. -/
def workerCall (edata : IndexingPriceFlag) : WorkerCall where
  ethHost := "0x" ++ fromUtf8OrError edata.ethHost.bytes
  fromAddress := "0x" ++ fromUtf8OrError edata.fromAddress.bytes
  toAddress := "0x" ++ fromUtf8OrError edata.toAddress.bytes

/-- The calls of `update_ethereum_price_worker` made by the worker of a block. -/
def offchainWorker (index : StorageMap Bytes Bytes) (number : UInt32) : List WorkerCall :=
  match retrieveFlag index number with
  | some edata => [workerCall edata]
  | none => []

/-! ## Blocks -/

structure Block (AccountId : Type) where
  number : UInt32
  extrinsics : List (Extrinsic AccountId)

def emptyChain : Chain AccountId where
  store := { blockNumber := 0, index := ∅ }
  events := []

/-- The chain at the beginning of a block. -/
def enterBlock (chain : Chain AccountId) (number : UInt32) : Chain AccountId :=
  { chain with store := { chain.store with blockNumber := number } }

def executeBlock (chain : Chain AccountId) (block : Block AccountId) : Chain AccountId :=
  Dispatch.run dispatch (enterBlock chain block.number) block.extrinsics

def executeBlocks (chain : Chain AccountId) (blocks : List (Block AccountId)) :
    Chain AccountId :=
  blocks.foldl executeBlock chain

end SupraClient.Oracle
