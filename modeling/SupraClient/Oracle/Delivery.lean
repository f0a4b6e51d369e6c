import SupraClient.Oracle.Exchange

/-! # How a run of the worker ends

A run ends in one of a few ways, and which one is decided by the answers of the
environment and the stored price record alone. It panics in one of them: when
the estimate of the gas cannot be used. In all others it returns, and it submits
a price to the chain only after it was posted to Ethereum and every exchange
went well.
-/

namespace SupraClient.Oracle

open Scale

/-! ## What the environment offers -/

/-- The body of a response with status 200. -/
def Answer.body? : Answer → Option Bytes
  | .response code body => if code = 200 then some body else none
  | _ => none

namespace Environment

variable (environment : Environment)

/-- The price record in the answer of the price service. -/
def fetched : Except Error LightClient :=
  match (environment.answer .price).body? with
  | none => .error .httpFetchingError
  | some body =>
      match fromUtf8 body with
      | none => .error .httpFetchingError
      | some text =>
          match environment.readers.lightClient text with
          | none => .error .httpNotParsedInStruct
          | some data => .ok data

/-- The estimate in the answer of the Ethereum node. -/
def gasEstimate : Option EthResult := do
  let body ← (environment.answer .gas).body?
  environment.readers.ethResult (← fromUtf8 body)

/-- The calldata a price is posted with, if it can be. -/
def calldataOf (price : ByteVec) : Except Error String :=
  submtPriceCalldataWith environment.readers.f32 price.bytes

/-- The price a run has to deliver: the fetched one if the lock is free, and the
stored one otherwise. -/
def offeredPrice (info : Option Bytes) : Option ByteVec :=
  if environment.lockFree then
    match environment.fetched with
    | .ok data => some data.price
    | .error _ => none
  else some (finalPrice info)

def priceExchange : Exchange where
  purpose := .price
  request := { method := .get, url := httpRemoteRequest, body := [] }
  answer := environment.answer .price

end Environment

/-- The text of a request of valid texts. -/
def RpcRequest.body {Params : Type} (record : TextRecord Params) (request : RpcRequest Params) :
    Bytes :=
  bytesOf (String.ofList (request.value record).render)

namespace Environment

variable (environment : Environment) (call : WorkerCall)

def gasExchange (data : String) : Exchange where
  purpose := .gas
  request :=
    { method := .post
      url := httpEthereumHost
      body := (estimateGasRequest data call.fromAddress call.toAddress).body
        GasRequestParam.record }
  answer := environment.answer .gas

def transactionExchange (data : String) (estimate : EthResult) : Exchange where
  purpose := .transaction
  request :=
    { method := .post
      url := call.ethHost
      body := (ethTransaction data call.fromAddress call.toAddress estimate.result).body
        EthParams.record }
  answer := environment.answer .transaction

end Environment

/-! ## Executing the parts of a run -/

namespace Run

variable {Value Result : Type}

@[simp] theorem exec_pure (value : Value) (world : World) :
    exec (pure value) world = (.ok value, world) :=
  rfl

@[simp] theorem exec_lift (result : Except Exit Value) (world : World) :
    exec (liftM result) world = (result, world) := by
  cases result <;> rfl

theorem exec_lift_bind (result : Except Exit Value) (next : Value → Run Result) (world : World) :
    exec (liftM result >>= next) world =
      match result with
      | .ok value => exec (next value) world
      | .error exit => (.error exit, world) := by
  cases result <;> rfl

@[simp] theorem exec_throw (exit : Exit) (world : World) :
    exec (throw exit : Run Value) world = (.error exit, world) :=
  rfl

@[simp] theorem exec_modify (change : World → World) (world : World) :
    exec (modify change) world = (.ok (), change world) :=
  rfl

@[simp] theorem exec_get_bind (next : World → Run Result) (world : World) :
    exec (get >>= next) world = exec (next world) world :=
  rfl

theorem exec_unwrapResult (program : Run Value) (world : World) :
    exec (unwrapResult program) world =
      ((exec program world).1.mapError fun _ => .panic, (exec program world).2) :=
  rfl

end Run

theorem exec_await (environment : Environment) (purpose : Purpose) (request : Request)
    (world : World) :
    Run.exec (await environment purpose request) world =
      (okOr .httpFetchingError (environment.answer purpose).body?,
        world.log { purpose, request, answer := environment.answer purpose }) := by
  unfold await
  rw [Run.exec_bind, Run.exec_modify]
  cases environment.answer purpose with
  | response code body =>
      by_cases hcode : code = 200 <;> simp [hcode, Answer.body?, okOr]
  | sendFailed => rfl
  | timedOut => rfl
  | failed => rfl

theorem exec_postJson {Params : Type} (environment : Environment) (purpose : Purpose)
    (url : String) (record : TextRecord Params) {request : RpcRequest Params}
    (hutf8 : request.isUtf8 record = true) (world : World) :
    Run.exec (postJson environment purpose url record request) world =
      (okOr .httpFetchingError (environment.answer purpose).body?,
        world.log
          { purpose
            request := { method := .post, url, body := request.body record }
            answer := environment.answer purpose }) := by
  unfold postJson
  rw [Run.exec_lift_bind, RpcRequest.toText_eq record hutf8]
  simp only [Run.exec_lift_bind, fromUtf8_bytesOf, okOr_some]
  exact exec_await environment purpose _ world

theorem exec_fetchNParse (environment : Environment) (world : World) :
    Run.exec (fetchNParse environment) world =
      (environment.fetched.mapError .error, world.log environment.priceExchange) := by
  unfold fetchNParse fetchFromRemote
  rw [Run.exec_bind, exec_await, Environment.fetched]
  cases (environment.answer .price).body? with
  | none => rfl
  | some body =>
      simp only [okOr_some]
      rw [Run.exec_lift_bind]
      cases fromUtf8 body with
      | none => rfl
      | some text =>
          simp only [okOr_some, Run.exec_lift]
          cases environment.readers.lightClient text <;> rfl

theorem exec_refreshInfo (environment : Environment) (world : World) :
    Run.exec (refreshInfo environment) world =
      if environment.lockFree then
        match environment.fetched with
        | .error error => (.error (.error error), world.log environment.priceExchange)
        | .ok data => (.ok (), (world.log environment.priceExchange).setInfo data)
      else (.ok (), world) := by
  unfold refreshInfo
  split
  next =>
    rw [Run.exec_bind, exec_fetchNParse]
    cases environment.fetched <;> rfl
  next => rfl

/-! ## Valid texts -/

theorem Environment.isSome_fromUtf8_gasEstimate (environment : Environment) {estimate : EthResult}
    (hestimate : environment.gasEstimate = some estimate) :
    (fromUtf8 estimate.result).isSome = true := by
  obtain ⟨body, -, hbody⟩ := Option.bind_eq_some_iff.mp hestimate
  obtain ⟨text, -, htext⟩ := Option.bind_eq_some_iff.mp hbody
  exact environment.readers.isSome_fromUtf8_result htext

theorem isUtf8_estimateGasRequest (data fromAddress toAddress : String) :
    (estimateGasRequest data fromAddress toAddress).isUtf8 GasRequestParam.record = true := by
  simp [estimateGasRequest, RpcRequest.isUtf8, TextRecord.isUtf8, GasRequestParam.record,
    fromUtf8_bytesOf]

theorem isUtf8_ethTransaction (data fromAddress toAddress : String) {gas : Bytes}
    (hgas : (fromUtf8 gas).isSome = true) :
    (ethTransaction data fromAddress toAddress gas).isUtf8 EthParams.record = true := by
  simp [ethTransaction, RpcRequest.isUtf8, TextRecord.isUtf8, EthParams.record,
    fromUtf8_bytesOf, hgas]

/-! ## All ways a run can end -/

/-- The estimate of the gas, with the three unwraps behind it. -/
theorem exec_estimate_bind {Value : Type} (environment : Environment) (call : WorkerCall)
    (data : String) (next : EthResult → Run Value) (world : World) :
    Run.exec (do
        let gasResult ← Run.unwrapResult
          (getEstimatedGas environment data call.fromAddress call.toAddress)
        let gasResultStr ← unwrap (fromUtf8 gasResult)
        let gasResultStruct ← unwrap (environment.readers.ethResult gasResultStr)
        next gasResultStruct) world =
      match environment.gasEstimate with
      | none => (.error .panic, world.log (environment.gasExchange call data))
      | some estimate =>
          Run.exec (next estimate) (world.log (environment.gasExchange call data)) := by
  rw [Run.exec_bind, Run.exec_unwrapResult, getEstimatedGas,
    exec_postJson _ _ _ _ (isUtf8_estimateGasRequest _ _ _), Environment.gasEstimate]
  cases (environment.answer .gas).body? with
  | none => rfl
  | some body =>
      simp only [okOr_some, Except.mapError, Option.bind_eq_bind, Option.bind_some]
      rw [Run.exec_lift_bind]
      cases fromUtf8 body with
      | none => rfl
      | some text =>
          simp only [unwrap_some, Option.bind_some]
          rw [Run.exec_lift_bind]
          cases environment.readers.ethResult text <;> rfl

theorem exec_submtPriceToEthereum (environment : Environment) (call : WorkerCall)
    (price : ByteVec) (world : World) :
    Run.exec (submtPriceToEthereum environment price call.ethHost call.fromAddress
        call.toAddress) world =
      match environment.calldataOf price with
      | .error error => (.error (.error error), world)
      | .ok data =>
          match environment.gasEstimate with
          | none => (.error .panic, world.log (environment.gasExchange call data))
          | some estimate =>
              (okOr .httpFetchingError (environment.answer .transaction).body?,
                (world.log (environment.gasExchange call data)).log
                  (environment.transactionExchange call data estimate)) := by
  unfold submtPriceToEthereum
  rw [Run.exec_lift_bind, ← Environment.calldataOf]
  cases environment.calldataOf price with
  | error error => rfl
  | ok data =>
      simp only [Except.mapError]
      rw [exec_estimate_bind]
      cases hestimate : environment.gasEstimate with
      | none => rfl
      | some estimate =>
          exact exec_postJson _ _ _ _ (isUtf8_ethTransaction _ _ _
            (environment.isSome_fromUtf8_gasEstimate hestimate)) _

/-- A run comes to the point where it has a price to deliver. -/
inductive Prepared (environment : Environment) (info : Option Bytes) : ByteVec → World → Prop
  | fetched {data} (hlock : environment.lockFree = true) (hdata : environment.fetched = .ok data) :
      Prepared environment info data.price
        (((World.start info).log environment.priceExchange).setInfo data)
  | stored (hlock : environment.lockFree = false) :
      Prepared environment info (finalPrice info) (World.start info)

/-- The ways a run of the worker ends, with the world it leaves behind. -/
inductive Ends (environment : Environment) (call : WorkerCall) (info : Option Bytes) :
    Except Exit Unit → World → Prop
  | fetchFailed {error} (hlock : environment.lockFree = true)
      (herror : environment.fetched = .error error) :
      Ends environment call info (.error (.error error))
        ((World.start info).log environment.priceExchange)
  | notNumeric {price world error} (hprepared : Prepared environment info price world)
      (herror : environment.calldataOf price = .error error) :
      Ends environment call info (.error (.error error)) world
  | panicked {price world data} (hprepared : Prepared environment info price world)
      (hdata : environment.calldataOf price = .ok data)
      (hestimate : environment.gasEstimate = none) :
      Ends environment call info (.error .panic) (world.log (environment.gasExchange call data))
  | notAnswered {price world data estimate} (hprepared : Prepared environment info price world)
      (hdata : environment.calldataOf price = .ok data)
      (hestimate : environment.gasEstimate = some estimate)
      (hanswer : (environment.answer .transaction).body?.bind fromUtf8 = none) :
      Ends environment call info (.error (.error .httpFetchingError))
        ((world.log (environment.gasExchange call data)).log
          (environment.transactionExchange call data estimate))
  | submitted {price world data estimate text} (hprepared : Prepared environment info price world)
      (hdata : environment.calldataOf price = .ok data)
      (hestimate : environment.gasEstimate = some estimate)
      (hanswer : (environment.answer .transaction).body?.bind fromUtf8 = some text) :
      Ends environment call info
        (if environment.poolAccepts then .ok () else .error (.error .offchainUnsignedTxError))
        (((world.log (environment.gasExchange call data)).log
          (environment.transactionExchange call data estimate)).submit price)

/-- The price to deliver is the one in the store by then. -/
theorem Prepared.finalPrice_info {environment : Environment} {info : Option Bytes}
    {price : ByteVec} {world : World} (hprepared : Prepared environment info price world) :
    finalPrice world.info = price := by
  cases hprepared with
  | stored => rfl
  | fetched =>
      rw [World.setInfo, finalPrice, Option.map_some, Codec.read_encode]

theorem exec_submitUnsignedTransaction (environment : Environment) (price : ByteVec)
    (world : World) :
    Run.exec (submitUnsignedTransaction environment price) world =
      (if environment.poolAccepts then .ok () else .error (.error .offchainUnsignedTxError),
        world.submit price) := by
  unfold submitUnsignedTransaction
  rw [Run.exec_bind, Run.exec_modify]
  cases environment.poolAccepts <;> rfl

theorem ends_deliverPrice {environment : Environment} (call : WorkerCall) {info : Option Bytes}
    {price : ByteVec} {world : World} (hprepared : Prepared environment info price world) :
    let outcome := Run.exec (deliverPrice environment call (finalPrice world.info)) world
    Ends environment call info outcome.1 outcome.2 := by
  rw [hprepared.finalPrice_info, deliverPrice, Run.exec_bind, exec_submtPriceToEthereum]
  cases hdata : environment.calldataOf price with
  | error error => exact .notNumeric hprepared hdata
  | ok data =>
      cases hestimate : environment.gasEstimate with
      | none => exact .panicked hprepared hdata hestimate
      | some estimate =>
          cases hbody : (environment.answer .transaction).body? with
          | none => exact .notAnswered hprepared hdata hestimate (by rw [hbody]; rfl)
          | some body =>
              simp only [okOr_some]
              rw [Run.exec_lift_bind]
              cases htext : fromUtf8 body with
              | none =>
                  exact .notAnswered hprepared hdata hestimate (by rw [hbody]; exact htext)
              | some text =>
                  simp only [okOr_some]
                  rw [exec_submitUnsignedTransaction]
                  exact .submitted hprepared hdata hestimate (by rw [hbody]; exact htext)

/-- Every run of the worker ends in one of these ways. -/
theorem ends_updateEthereumPriceWorker (environment : Environment) (call : WorkerCall)
    (info : Option Bytes) :
    let outcome := Run.exec (updateEthereumPriceWorker environment call) (World.start info)
    Ends environment call info outcome.1 outcome.2 := by
  rw [updateEthereumPriceWorker, Run.exec_bind, exec_refreshInfo]
  cases hlock : environment.lockFree with
  | false =>
      simp only [Bool.false_eq_true, if_false, Run.exec_get_bind]
      exact ends_deliverPrice call (.stored hlock)
  | true =>
      cases hfetched : environment.fetched with
      | error error => exact .fetchFailed hlock hfetched
      | ok data =>
          simp only [if_true, Run.exec_get_bind]
          exact ends_deliverPrice call (.fetched hlock hfetched)

end SupraClient.Oracle
