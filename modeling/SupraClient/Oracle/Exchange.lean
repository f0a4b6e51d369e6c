import SupraClient.Oracle.Calldata
import SupraClient.Oracle.JsonRpc
import SupraClient.Oracle.Worker

/-! # One run of the price worker

A run of `update_ethereum_price_worker` makes up to three HTTP exchanges: it
fetches a price, asks the Ethereum node for an estimate of the gas, and posts
the transaction. What the outside world answers is up to the environment, and so
is what the libraries that read JSON and numbers make of the answers. The world
keeps account of the stored price record, of all exchanges and of the calls
submitted to the chain.
-/

namespace SupraClient.Oracle

open Scale

/-! ## Reading answers -/

def byteVec? (bytes : Bytes) : Option ByteVec :=
  if hlength : bytes.length < 2 ^ 32 then some ⟨bytes, hlength⟩ else none

/-- `serde_json::from_str` for the price record. Vectors are shorter than the
memory they are in, so the bounds on their lengths reject nothing. -/
def LightClient.fromText (text : String) : Option LightClient := do
  let value ← Json.parse text.toList
  let [price, time] ← deserializeTexts ["price", "time"] value | none
  return { price := ← byteVec? price, time := ← byteVec? time }

structure EthResult where
  jsonrpc : Bytes
  id : UInt8
  result : Bytes
  deriving DecidableEq

def EthResult.fromText (text : String) : Option EthResult := do
  let value ← Json.parse text.toList
  let [jsonrpc, id, result] ← value.fields? ["jsonrpc", "id", "result"] | none
  return {
    jsonrpc := ← deStringToBytes jsonrpc
    id := ← readU8 id
    result := ← deStringToBytes result }

theorem isSome_fromUtf8_of_deStringToBytes {value : Json.Value} {bytes : Bytes}
    (hread : deStringToBytes value = some bytes) : (fromUtf8 bytes).isSome = true := by
  obtain ⟨text, -, rfl⟩ := Option.map_eq_some_iff.mp hread
  rw [fromUtf8_bytesOf]
  rfl

theorem EthResult.isSome_fromUtf8_result {text : String} {estimate : EthResult}
    (hread : EthResult.fromText text = some estimate) :
    (fromUtf8 estimate.result).isSome = true := by
  unfold EthResult.fromText at hread
  obtain ⟨value, -, hvalue⟩ := Option.bind_eq_some_iff.mp hread
  obtain ⟨fields, -, hfields⟩ := Option.bind_eq_some_iff.mp hvalue
  split at hfields
  next jsonrpc id result =>
    obtain ⟨_, -, htail⟩ := Option.bind_eq_some_iff.mp hfields
    obtain ⟨_, -, htail⟩ := Option.bind_eq_some_iff.mp htail
    obtain ⟨bytes, hbytes, hestimate⟩ := Option.bind_eq_some_iff.mp htail
    cases hestimate
    exact isSome_fromUtf8_of_deStringToBytes hbytes
  next => cases hfields

/-- The library functions by which the worker reads texts: `serde_json::from_str`
for its two structures, and `parse::<f32>`. Whatever they accept, the texts within
a structure are those of `de_string_to_bytes`, the bytes of strings. -/
structure Readers where
  lightClient : String → Option LightClient
  ethResult : String → Option EthResult
  f32 : List Char → Option (Binary.Value ℚ)
  isSome_fromUtf8_result : ∀ {text estimate}, ethResult text = some estimate →
    (fromUtf8 estimate.result).isSome = true

/-- The functions as they are documented. -/
def documentedReaders : Readers where
  lightClient := LightClient.fromText
  ethResult := EthResult.fromText
  f32 := parseF32
  isSome_fromUtf8_result := EthResult.isSome_fromUtf8_result

-- a negative zero is a number of 8 bits, and half a surrogate pair is no text
example :
    let negative := "\x7b\"jsonrpc\":\"2.0\",\"id\":-0,\"result\":\"0x52\"\x7d"
    let unpaired := "\x7b\"jsonrpc\":\"2.0\",\"id\":20,\"result\":\"0x52\",\"x\":\"\\ud800\"\x7d"
    (EthResult.fromText negative).isSome = true ∧ EthResult.fromText unpaired = none := by
  decide +kernel

/-! ## The outside world -/

inductive Purpose where
  | price
  | gas
  | transaction
  deriving DecidableEq

inductive Method where
  | get
  | post
  deriving DecidableEq

structure Request where
  method : Method
  url : String
  body : Bytes
  deriving DecidableEq

/-- What becomes of a request. -/
inductive Answer where
  /-- The request is not sent. -/
  | sendFailed
  /-- There is no response before the deadline. -/
  | timedOut
  /-- The connection breaks. -/
  | failed
  | response (code : UInt16) (body : Bytes)
  deriving DecidableEq

structure Exchange where
  purpose : Purpose
  request : Request
  answer : Answer
  deriving DecidableEq

/-- What a run of the worker does not decide itself: what the libraries read,
whether the lock is free, the answers to its requests, and whether the
transaction pool takes its call. -/
structure Environment where
  readers : Readers
  lockFree : Bool
  answer : Purpose → Answer
  poolAccepts : Bool

/-- The price record stored on the node, and everything a run has done so far. -/
structure World where
  info : Option Bytes
  exchanges : List Exchange
  submissions : List ByteVec
  deriving DecidableEq

namespace World

/-- The world at the beginning of a run. -/
def start (info : Option Bytes) : World where
  info := info
  exchanges := []
  submissions := []

def log (world : World) (exchange : Exchange) : World :=
  { world with exchanges := world.exchanges ++ [exchange] }

def setInfo (world : World) (data : LightClient) : World :=
  { world with info := some (LightClient.codec.encode data) }

def submit (world : World) (price : ByteVec) : World :=
  { world with submissions := world.submissions ++ [price] }

end World

/-- A part of a run: it changes the world and may end the run. -/
abbrev Run := ExceptT Exit (StateM World)

namespace Run

variable {Value Result : Type}

/-- The value or the end of the run, and the world left behind in either case. -/
def exec (program : Run Value) (world : World) : Except Exit Value × World :=
  (ExceptT.run program).run world

/-- `unwrap` of a result: every error becomes a panic. -/
def unwrapResult (program : Run Value) : Run Value :=
  ExceptT.mk ((fun result => result.mapError fun _ => .panic) <$> ExceptT.run program)

theorem exec_bind (first : Run Value) (next : Value → Run Result) (world : World) :
    exec (first >>= next) world =
      match exec first world with
      | (.ok value, middle) => exec (next value) middle
      | (.error exit, middle) => (.error exit, middle) := by
  change ExceptT.bindCont next (exec first world).1 (exec first world).2 = _
  rcases exec first world with ⟨_ | _, _⟩ <;> rfl

end Run

/-- Send a request and wait for the response, which has to have status 200. -/
def await (environment : Environment) (purpose : Purpose) (request : Request) : Run Bytes := do
  let answer := environment.answer purpose
  modify fun world => world.log { purpose, request, answer }
  match answer with
  | .sendFailed => throw (.error .httpFetchingError)
  | .timedOut => throw (.error .httpFetchingError)
  | .failed => throw (.error .httpFetchingError)
  | .response code body =>
      if code ≠ 200 then throw (.error .httpFetchingError) else pure body

/-! ## Fetching the price -/

def httpRemoteRequest : String := "https://api.pro.coinbase.com/products/ETH-USD/ticker"

def httpEthereumHost : String := "http://127.0.0.1:8080"

def fetchFromRemote (environment : Environment) : Run Bytes :=
  await environment .price { method := .get, url := httpRemoteRequest, body := [] }

-- the only error of `fetch_from_remote` is the one it is mapped to
def fetchNParse (environment : Environment) : Run LightClient := do
  let respBytes ← fetchFromRemote environment
  let respStr ← okOr .httpFetchingError (fromUtf8 respBytes)
  okOr .httpNotParsedInStruct (environment.readers.lightClient respStr)

/-! ## Posting the price -/

def estimateGasRequest (data fromAddress toAddress : String) : EstimateGasRequest where
  jsonrpc := bytesOf "2.0"
  id := 20
  method := bytesOf "eth_estimateGas"
  params :=
    [{ fromAddress := bytesOf fromAddress
       toAddress := bytesOf toAddress
       data := bytesOf data
       value := bytesOf "0x0" }]

def ethTransaction (data fromAddress toAddress : String) (gas : Bytes) : EthTransaction where
  jsonrpc := bytesOf "2.0"
  id := 2
  method := bytesOf "eth_sendTransaction"
  params :=
    [{ fromAddress := bytesOf fromAddress
       toAddress := bytesOf toAddress
       data := bytesOf data
       value := bytesOf "0x0"
       gas := gas
       gasPrice := bytesOf "0x1" }]

/-- Write a request as JSON and post it to a URL. -/
def postJson {Params : Type} (environment : Environment) (purpose : Purpose) (url : String)
    (record : TextRecord Params) (request : RpcRequest Params) : Run Bytes := do
  let jsonData := bytesOf (← request.toText record)
  let _bodyStr ← okOr .httpFetchingError (fromUtf8 jsonData)
  await environment purpose { method := .post, url, body := jsonData }

def getEstimatedGas (environment : Environment) (data fromAddress toAddress : String) :
    Run Bytes :=
  postJson environment .gas httpEthereumHost GasRequestParam.record
    (estimateGasRequest data fromAddress toAddress)

def submtPriceToEthereum (environment : Environment) (price : ByteVec)
    (ethHost fromAddress toAddress : String) : Run Bytes := do
  let data ← (submtPriceCalldataWith environment.readers.f32 price.bytes).mapError Exit.error
  -- the source marks the following three lines as to be fixed
  let gasResult ← Run.unwrapResult (getEstimatedGas environment data fromAddress toAddress)
  let gasResultStr ← unwrap (fromUtf8 gasResult)
  let gasResultStruct ← unwrap (environment.readers.ethResult gasResultStr)
  postJson environment .transaction ethHost EthParams.record
    (ethTransaction data fromAddress toAddress gasResultStruct.result)

/-! ## The worker -/

def submitUnsignedTransaction (environment : Environment) (price : ByteVec) : Run Unit := do
  modify fun world => world.submit price
  if environment.poolAccepts then pure () else throw (.error .offchainUnsignedTxError)

/-- The block guarded by the lock: fetch a price record and store it. A run that
does not get the lock skips it. -/
def refreshInfo (environment : Environment) : Run Unit :=
  if environment.lockFree then do
    let data ← fetchNParse environment
    modify fun world => world.setInfo data
  else pure ()

/-- The rest of the worker, with the price it has read. -/
def deliverPrice (environment : Environment) (call : WorkerCall) (price : ByteVec) :
    Run Unit := do
  let result ← submtPriceToEthereum environment price call.ethHost call.fromAddress call.toAddress
  let _respStr ← okOr .httpFetchingError (fromUtf8 result)
  submitUnsignedTransaction environment price

def updateEthereumPriceWorker (environment : Environment) (call : WorkerCall) : Run Unit := do
  refreshInfo environment
  deliverPrice environment call (finalPrice (← get).info)

end SupraClient.Oracle
