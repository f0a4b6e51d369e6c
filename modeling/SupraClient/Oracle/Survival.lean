import SupraClient.Oracle.Delivery

/-! # What the answers of the outside world can do to the worker

Whatever the outside world answers, a run of the worker submits at most one
price, only after all exchanges went well, and only the price it has posted. But
the run does not always return: it panics on every unusable answer to its
request for an estimate of the gas.
-/

namespace SupraClient.Oracle

open Scale

/-! ## Requirements on a run -/

/-- The request was answered with status 200 and with a body that can be read as
far as the worker reads it. -/
def Exchange.Understood (readers : Readers) (exchange : Exchange) : Prop :=
  ∃ body text, exchange.answer = .response 200 body ∧ fromUtf8 body = some text ∧
    match exchange.purpose with
    | .price => (readers.lightClient text).isSome = true
    | .gas => (readers.ethResult text).isSome = true
    | .transaction => True

/-- A request to Ethereum that was sent, whatever has come back. -/
def Exchange.isPosted (exchange : Exchange) : Bool :=
  exchange.purpose = .transaction && exchange.answer ≠ .sendFailed

/-- The transactions a run has posted: requests that could not be sent are none. -/
def World.transactions (world : World) : List Exchange := world.exchanges.filter Exchange.isPosted

/-- The request is a transaction with the given calldata. -/
def Exchange.PostsCalldata (exchange : Exchange) (data : String) : Prop :=
  ∃ transaction : EthTransaction, ∃ text params,
    transaction.toText EthParams.record = .ok text ∧ exchange.request.body = bytesOf text ∧
      transaction.params = [params] ∧ params.data = bytesOf data

/-- A run returns, and it submits at most one price, after all its exchanges went
well. That price is the one it had to deliver, byte by byte, and what it has
posted is the calldata of the same price. -/
structure Survives (environment : Environment) (info : Option Bytes)
    (outcome : Except Exit Unit × World) : Prop where
  returns : outcome.1 ≠ .error .panic
  submitsOnce : outcome.2.submissions.length ≤ 1
  understood : outcome.2.submissions ≠ [] →
    ∀ exchange ∈ outcome.2.exchanges, exchange.Understood environment.readers
  samePrice : ∀ price ∈ outcome.2.submissions, environment.offeredPrice info = some price ∧
    outcome.2.transactions ≠ [] ∧ ∃ data, environment.calldataOf price = .ok data ∧
      ∀ exchange ∈ outcome.2.transactions, exchange.PostsCalldata data

/-! ## Exchanges that go well -/

theorem Answer.eq_response_of_body? {answer : Answer} {body : Bytes}
    (hbody : answer.body? = some body) : answer = .response 200 body := by
  cases answer with
  | response code content =>
      rw [Answer.body?] at hbody
      split at hbody
      next hcode =>
        cases hbody
        rw [hcode]
      next => cases hbody
  | sendFailed => cases hbody
  | timedOut => cases hbody
  | failed => cases hbody

variable {environment : Environment} {call : WorkerCall} {info : Option Bytes}

theorem understood_priceExchange {data : LightClient} (hfetched : environment.fetched = .ok data) :
    environment.priceExchange.Understood environment.readers := by
  unfold Environment.fetched at hfetched
  cases hbody : (environment.answer .price).body? with
  | none => simp [hbody] at hfetched
  | some body =>
      cases htext : fromUtf8 body with
      | none => simp [hbody, htext] at hfetched
      | some text =>
          cases hdata : environment.readers.lightClient text with
          | none => simp [hbody, htext, hdata] at hfetched
          | some data =>
              exact ⟨body, text, Answer.eq_response_of_body? hbody, htext,
                Option.isSome_iff_exists.mpr ⟨data, hdata⟩⟩

theorem understood_gasExchange {estimate : EthResult}
    (hestimate : environment.gasEstimate = some estimate) (data : String) :
    (environment.gasExchange call data).Understood environment.readers := by
  obtain ⟨body, hbody, htail⟩ := Option.bind_eq_some_iff.mp hestimate
  obtain ⟨text, htext, hread⟩ := Option.bind_eq_some_iff.mp htail
  exact ⟨body, text, Answer.eq_response_of_body? hbody, htext,
    Option.isSome_iff_exists.mpr ⟨estimate, hread⟩⟩

theorem understood_transactionExchange {text : String}
    (hanswer : (environment.answer .transaction).body?.bind fromUtf8 = some text) (data : String)
    (estimate : EthResult) :
    (environment.transactionExchange call data estimate).Understood environment.readers := by
  obtain ⟨body, hbody, htext⟩ := Option.bind_eq_some_iff.mp hanswer
  exact ⟨body, text, Answer.eq_response_of_body? hbody, htext, trivial⟩

theorem postsCalldata_transactionExchange {estimate : EthResult}
    (hestimate : environment.gasEstimate = some estimate) (data : String) :
    (environment.transactionExchange call data estimate).PostsCalldata data := by
  have hutf8 := isUtf8_ethTransaction data call.fromAddress call.toAddress
    (environment.isSome_fromUtf8_gasEstimate hestimate)
  refine ⟨_, _, _, RpcRequest.toText_eq _ hutf8, ?_, rfl, rfl⟩
  rw [Environment.transactionExchange, RpcRequest.body]

/-! ## Runs -/

theorem Environment.offeredPrice_eq_none (environment : Environment) (info : Option Bytes)
    {error : Error} (hlock : environment.lockFree = true)
    (herror : environment.fetched = .error error) : environment.offeredPrice info = none := by
  rw [offeredPrice, hlock, if_pos rfl, herror]

theorem Prepared.offeredPrice {price : ByteVec} {world : World}
    (hprepared : Prepared environment info price world) :
    environment.offeredPrice info = some price := by
  cases hprepared with
  | fetched hlock hdata => rw [Environment.offeredPrice, hlock, if_pos rfl, hdata]
  | stored hlock => rw [Environment.offeredPrice, hlock]; rfl

theorem Prepared.submissions {price : ByteVec} {world : World}
    (hprepared : Prepared environment info price world) : world.submissions = [] := by
  cases hprepared <;> rfl

/-- Before the price is delivered only the price service is asked, and it has
answered. -/
theorem Prepared.understood {price : ByteVec} {world : World}
    (hprepared : Prepared environment info price world) {exchange : Exchange}
    (hmem : exchange ∈ world.exchanges) : exchange.Understood environment.readers := by
  cases hprepared with
  | stored => cases hmem
  | fetched _ hdata =>
      obtain rfl := List.mem_singleton.mp hmem
      exact understood_priceExchange hdata

theorem World.transactions_log (world : World) (exchange : Exchange) :
    (world.log exchange).transactions =
      world.transactions ++ [exchange].filter Exchange.isPosted := by
  rw [transactions, log, List.filter_append]
  rfl

theorem World.transactions_submit (world : World) (price : ByteVec) :
    (world.submit price).transactions = world.transactions :=
  rfl

theorem Prepared.transactions {price : ByteVec} {world : World}
    (hprepared : Prepared environment info price world) : world.transactions = [] := by
  cases hprepared <;> rfl

theorem Prepared.transactions_estimated {price : ByteVec} {world : World}
    (hprepared : Prepared environment info price world) (data : String) :
    (world.log (environment.gasExchange call data)).transactions = [] := by
  rw [World.transactions_log, hprepared.transactions]
  rfl

/-- The transaction is posted unless its request cannot be sent. -/
theorem Prepared.transactions_posted {price : ByteVec} {world : World}
    (hprepared : Prepared environment info price world) (data : String) (estimate : EthResult) :
    ((world.log (environment.gasExchange call data)).log
        (environment.transactionExchange call data estimate)).transactions =
      if environment.answer .transaction = .sendFailed then []
      else [environment.transactionExchange call data estimate] := by
  rw [World.transactions_log, hprepared.transactions_estimated]
  by_cases hsend : environment.answer .transaction = .sendFailed <;>
    simp [Exchange.isPosted, Environment.transactionExchange, hsend]

theorem Environment.answer_ne_sendFailed {text : String}
    (hanswer : (environment.answer .transaction).body?.bind fromUtf8 = some text) :
    environment.answer .transaction ≠ .sendFailed := by
  intro hsend
  rw [hsend] at hanswer
  cases hanswer

/-- A run panics exactly when it has a numeric price to deliver and gets no
usable estimate of the gas. -/
theorem panics_iff {result : Except Exit Unit} {world : World}
    (hends : Ends environment call info result world) :
    result = .error .panic ↔
      ∃ price data, environment.offeredPrice info = some price ∧
        environment.calldataOf price = .ok data ∧ environment.gasEstimate = none := by
  cases hends with
  | fetchFailed hlock herror =>
      simp [environment.offeredPrice_eq_none info hlock herror]
  | notNumeric hprepared herror => simp [hprepared.offeredPrice, herror]
  | panicked hprepared hdata hestimate => simp [hprepared.offeredPrice, hdata, hestimate]
  | notAnswered hprepared hdata hestimate hanswer => simp [hestimate]
  | submitted hprepared hdata hestimate hanswer =>
      cases environment.poolAccepts <;> simp [hestimate]

/-- A run submits nothing, or the one price it had to deliver, with everything in
order. -/
theorem submissions_of_ends {result : Except Exit Unit} {world : World}
    (hends : Ends environment call info result world) :
    world.submissions = [] ∨ ∃ price data estimate, world.submissions = [price] ∧
      (∀ exchange ∈ world.exchanges, exchange.Understood environment.readers) ∧
      environment.offeredPrice info = some price ∧ environment.calldataOf price = .ok data ∧
      environment.gasEstimate = some estimate ∧
      world.transactions = [environment.transactionExchange call data estimate] := by
  cases hends with
  | fetchFailed => exact Or.inl rfl
  | notNumeric hprepared => exact Or.inl hprepared.submissions
  | panicked hprepared => exact Or.inl hprepared.submissions
  | notAnswered hprepared => exact Or.inl hprepared.submissions
  | @submitted price before data estimate text hprepared hdata hestimate hanswer =>
      refine Or.inr ⟨price, data, estimate, ?_, ?_, hprepared.offeredPrice, hdata, hestimate, ?_⟩
      · simp [World.submit, World.log, hprepared.submissions]
      · intro exchange hmem
        simp only [World.submit, World.log, List.append_assoc, List.mem_append,
          List.mem_singleton] at hmem
        rcases hmem with hbefore | rfl | rfl
        · exact hprepared.understood hbefore
        · exact understood_gasExchange hestimate data
        · exact understood_transactionExchange hanswer data estimate
      · rw [World.transactions_submit, hprepared.transactions_posted,
          if_neg (Environment.answer_ne_sendFailed hanswer)]

/-- Everything required of a run holds unless it panics. -/
theorem survives_iff_of_ends {result : Except Exit Unit} {world : World}
    (hends : Ends environment call info result world) :
    Survives environment info (result, world) ↔ result ≠ .error .panic := by
  constructor
  · intro hsurvives
    exact hsurvives.returns
  · intro hreturns
    rcases submissions_of_ends hends with
      hnone | ⟨price, data, estimate, hone, hunderstood, hoffered, hdata, hestimate, hposted⟩
    · exact ⟨hreturns, by simp [hnone], by simp [hnone], by simp [hnone]⟩
    · refine ⟨hreturns, by simp [hone], fun _ => hunderstood, ?_⟩
      intro other hother
      obtain rfl := List.mem_singleton.mp (hone ▸ hother)
      refine ⟨hoffered, by simp [hposted], data, hdata, fun exchange hmem => ?_⟩
      obtain rfl := List.mem_singleton.mp (hposted ▸ hmem)
      exact postsCalldata_transactionExchange hestimate data

/-- A run of the worker survives exactly when it gets a usable estimate of the
gas for the price it has to deliver. The estimate is not asked for if there is
no price, because the price service failed while the lock was free, or if the
price is not numeric. This holds whatever the libraries accept. -/
theorem survives_iff (environment : Environment) (call : WorkerCall) (info : Option Bytes) :
    Survives environment info
        (Run.exec (updateEthereumPriceWorker environment call) (World.start info)) ↔
      ∀ price data, environment.offeredPrice info = some price →
        environment.calldataOf price = .ok data → environment.gasEstimate ≠ none := by
  have hends := ends_updateEthereumPriceWorker environment call info
  rw [survives_iff_of_ends hends, Ne, panics_iff hends]
  simp only [not_exists, not_and, Ne]

/-- The worker panics if the Ethereum node cannot be reached, here with the lock
held by another run and no price stored. It also panics if the node reports an
error in the usual form. -/
theorem worker_panics :
    let unreachable : Environment := ⟨documentedReaders, false, fun _ => .sendFailed, true⟩
    let price := "\x7b\"price\":\"2846.37\",\"time\":\"12:00\"\x7d"
    let error := "\x7b\"jsonrpc\":\"2.0\",\"id\":20,\"error\":\x7b\"code\":-32000\x7d\x7d"
    let rejecting : Environment :=
      { readers := documentedReaders
        lockFree := true
        answer purpose := .response 200 (bytesOf (if purpose = .price then price else error))
        poolAccepts := true }
    let call : WorkerCall := ⟨"http://127.0.0.1:8545", "0x52", "0x7f"⟩
    ∀ environment ∈ [unreachable, rejecting],
      let outcome := Run.exec (updateEthereumPriceWorker environment call) (World.start none)
      outcome.1 = .error .panic ∧ ¬ Survives environment none outcome := by
  intro unreachable price error rejecting call environment hmem outcome
  have hpanic : outcome.1 = .error .panic := by
    refine (panics_iff (ends_updateEthereumPriceWorker environment call none)).mpr ?_
    rcases List.mem_pair.mp hmem with rfl | rfl
    · exact ⟨zeroPrice, calldata 0, by decide +kernel, by decide +kernel, by decide +kernel⟩
    · exact ⟨⟨bytesOf "2846.37", by decide⟩, calldata 2846, by decide +kernel, by decide +kernel,
        by decide +kernel⟩
  exact ⟨hpanic, fun hsurvives => hsurvives.returns hpanic⟩

end SupraClient.Oracle
