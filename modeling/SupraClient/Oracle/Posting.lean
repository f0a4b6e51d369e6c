import SupraClient.Oracle.LostRequests
import SupraClient.Oracle.Survival

/-! # From a price request to the transaction posted for it

A request names the host of an Ethereum node and two addresses. They pass
through the index to the worker, which puts `0x` in front of all three and takes
the text `error` for bytes that are no text. The prefix belongs to the addresses.
It makes every host a wrong one, and bytes that are no text do not stop the
worker.
-/

namespace SupraClient.Oracle

open Scale

/-! ## Requirements on a run -/

/-- A member of the transaction in a request, as the receiver of the request
reads it. -/
def Request.transactionMember? (request : Request) (name : String) : Option Bytes := do
  let text ← fromUtf8 request.body
  let value ← Json.parse text.toList
  let [transaction] ← (← value.member? "params").elements? | none
  let member ← transaction.member? name
  return bytesOf (← member.text?)

/-- A transaction is posted to the host and between the addresses of a request. -/
structure Exchange.PostedAsMade (exchange : Exchange) (ethHost fromAddress toAddress : ByteVec) :
    Prop where
  host : bytesOf exchange.request.url = ethHost.bytes
  sender : exchange.request.transactionMember? "from" =
    some (bytesOf "0x" ++ fromAddress.bytes)
  receiver : exchange.request.transactionMember? "to" = some (bytesOf "0x" ++ toAddress.bytes)

/-- A run posts its transactions as they were requested, and none at all for
bytes that are no text. -/
structure World.ServesAsMade (world : World) (ethHost fromAddress toAddress : ByteVec) :
    Prop where
  asMade : ∀ exchange ∈ world.transactions, exchange.PostedAsMade ethHost fromAddress toAddress
  textOnly : (∃ vector ∈ [ethHost, fromAddress, toAddress], fromUtf8 vector.bytes = none) →
    world.transactions = []

/-- There is a numeric price to deliver and a usable estimate of the gas, and the
request with the transaction is sent. -/
def Environment.Delivers (environment : Environment) (info : Option Bytes) : Prop :=
  (∃ price data estimate, environment.offeredPrice info = some price ∧
    environment.calldataOf price = .ok data ∧ environment.gasEstimate = some estimate) ∧
  environment.answer .transaction ≠ .sendFailed

/-! ## Prefixed texts -/

theorem bytesOf_append (first second : String) :
    bytesOf (first ++ second) = bytesOf first ++ bytesOf second := by
  simp [bytesOf]

theorem fromUtf8OrError_eq (bytes : Bytes) :
    fromUtf8OrError bytes = (fromUtf8 bytes).getD "error" :=
  rfl

/-- The bytes of a text survive the way to the worker, and no others do. -/
theorem bytesOf_prefixed_eq_iff (bytes : Bytes) :
    bytesOf ("0x" ++ fromUtf8OrError bytes) = bytesOf "0x" ++ bytes ↔
      (fromUtf8 bytes).isSome = true := by
  rw [bytesOf_append, List.append_cancel_left_eq, fromUtf8OrError_eq]
  constructor
  · intro hbytes
    rw [← hbytes, fromUtf8_bytesOf]
    rfl
  · intro hsome
    obtain ⟨text, htext⟩ := Option.isSome_iff_exists.mp hsome
    rw [htext, Option.getD_some]
    exact (fromUtf8_eq_some_iff bytes text).mp htext

/-- No bytes are their own prefixed text. -/
theorem bytesOf_prefixed_ne (bytes : Bytes) : bytesOf ("0x" ++ fromUtf8OrError bytes) ≠ bytes := by
  intro hself
  have hsome : (fromUtf8 bytes).isSome = true := by
    rw [← hself, fromUtf8_bytesOf]
    rfl
  have hlength := congrArg List.length ((bytesOf_prefixed_eq_iff bytes).mpr hsome)
  rw [hself, List.length_append] at hlength
  have htwo : (bytesOf "0x").length = 2 := by decide
  omega

/-! ## Posted transactions -/

/-- The receiver of a transaction reads the fields it was made of. -/
theorem transactionMember?_body {transaction : EthTransaction} {params : EthParams}
    (hutf8 : transaction.isUtf8 EthParams.record = true) (hparams : transaction.params = [params])
    {name : String} {bytes : Bytes} (hfield : (name, bytes) ∈ EthParams.record.fields params)
    (url : String) :
    Request.transactionMember?
        { method := .post, url, body := transaction.body EthParams.record } name =
      some bytes := by
  have helements : (transaction.value EthParams.record).member? "params" =
      some (.array [EthParams.record.value params]) := by
    have hnames : ["jsonrpc", "id", "method", "params"].Nodup := by decide
    have hlast : ("params", .array [EthParams.record.value params]) ∈
        [("jsonrpc", textValue transaction.jsonrpc), ("id", .ofNat transaction.id.toNat),
          ("method", textValue transaction.method),
          ("params", .array [EthParams.record.value params])] := by simp
    rw [RpcRequest.value, hparams]
    refine Json.Value.member?_record ?_ hlast
    exact hnames
  have hmember : (EthParams.record.value params).member? name = some (textValue bytes) := by
    refine Json.Value.member?_record ?_ (List.mem_map_of_mem hfield)
    rw [EthParams.record.map_fst_value params]
    exact EthParams.record.names_nodup
  have htext : (textValue bytes).text?.map bytesOf = some bytes := by
    simp only [RpcRequest.isUtf8, hparams, List.all_cons, List.all_nil, Bool.and_true,
      Bool.and_eq_true] at hutf8
    exact text?_textValue (List.all_eq_true.mp hutf8.2 _ hfield)
  rw [Option.map_eq_bind] at htext
  simp only [Request.transactionMember?, RpcRequest.body, fromUtf8_bytesOf, String.toList_ofList,
    Json.parse_render, helements, Json.Value.elements?, hmember, Option.bind_eq_bind,
    Option.bind_some]
  exact htext

section Transactions

variable {environment : Environment} {call : WorkerCall} {info : Option Bytes}

theorem sender_transactionExchange {estimate : EthResult}
    (hestimate : environment.gasEstimate = some estimate) (data : String) :
    (environment.transactionExchange call data estimate).request.transactionMember? "from" =
      some (bytesOf call.fromAddress) :=
  transactionMember?_body (isUtf8_ethTransaction _ _ _
    (environment.isSome_fromUtf8_gasEstimate hestimate)) rfl (by simp [EthParams.record]) _

theorem receiver_transactionExchange {estimate : EthResult}
    (hestimate : environment.gasEstimate = some estimate) (data : String) :
    (environment.transactionExchange call data estimate).request.transactionMember? "to" =
      some (bytesOf call.toAddress) :=
  transactionMember?_body (isUtf8_ethTransaction _ _ _
    (environment.isSome_fromUtf8_gasEstimate hestimate)) rfl (by simp [EthParams.record]) _

/-- A run posts one transaction if the environment lets it deliver a price, and
none otherwise. -/
theorem transactions_of_ends {result : Except Exit Unit} {world : World}
    (hends : Ends environment call info result world) :
    (¬ environment.Delivers info ∧ world.transactions = []) ∨
      environment.Delivers info ∧ ∃ data estimate, environment.gasEstimate = some estimate ∧
        world.transactions = [environment.transactionExchange call data estimate] := by
  cases hends with
  | fetchFailed hlock herror =>
      have hnone := environment.offeredPrice_eq_none info hlock herror
      exact Or.inl ⟨by simp [Environment.Delivers, hnone], rfl⟩
  | notNumeric hprepared herror =>
      refine Or.inl ⟨?_, hprepared.transactions⟩
      simp [Environment.Delivers, hprepared.offeredPrice, herror]
  | panicked hprepared hdata hestimate =>
      exact Or.inl ⟨by simp [Environment.Delivers, hestimate], hprepared.transactions_estimated _⟩
  | @notAnswered price before data estimate hprepared hdata hestimate hanswer =>
      by_cases hsend : environment.answer .transaction = .sendFailed
      · refine Or.inl ⟨fun hdelivers => hdelivers.2 hsend, ?_⟩
        rw [hprepared.transactions_posted, if_pos hsend]
      · refine Or.inr ⟨⟨⟨price, data, estimate, hprepared.offeredPrice, hdata, hestimate⟩, hsend⟩,
          data, estimate, hestimate, ?_⟩
        rw [hprepared.transactions_posted, if_neg hsend]
  | @submitted price before data estimate text hprepared hdata hestimate hanswer =>
      have hsend := Environment.answer_ne_sendFailed hanswer
      refine Or.inr ⟨⟨⟨price, data, estimate, hprepared.offeredPrice, hdata, hestimate⟩, hsend⟩,
        data, estimate, hestimate, ?_⟩
      rw [World.transactions_submit, hprepared.transactions_posted, if_neg hsend]

/-- A run for a request posts what it posts to the prefixed host, and between the
requested addresses as far as these are texts. -/
theorem transactions_workerCall {flag : IndexingPriceFlag} {result : Except Exit Unit}
    {world : World} (hends : Ends environment (workerCall flag) info result world)
    {exchange : Exchange} (hmem : exchange ∈ world.transactions) :
    exchange.request.url = "0x" ++ fromUtf8OrError flag.ethHost.bytes ∧
      (exchange.request.transactionMember? "from" =
          some (bytesOf "0x" ++ flag.fromAddress.bytes) ↔
        (fromUtf8 flag.fromAddress.bytes).isSome = true) ∧
      (exchange.request.transactionMember? "to" = some (bytesOf "0x" ++ flag.toAddress.bytes) ↔
        (fromUtf8 flag.toAddress.bytes).isSome = true) := by
  rcases transactions_of_ends hends with ⟨-, hnone⟩ | ⟨-, data, estimate, hestimate, hone⟩
  · rw [hnone] at hmem
    cases hmem
  · obtain rfl := List.mem_singleton.mp (hone ▸ hmem)
    rw [sender_transactionExchange hestimate, receiver_transactionExchange hestimate,
      Option.some.injEq, Option.some.injEq]
    exact ⟨rfl, bytesOf_prefixed_eq_iff _, bytesOf_prefixed_eq_iff _⟩

theorem servesAsMade_iff {flag : IndexingPriceFlag} {result : Except Exit Unit} {world : World}
    (hends : Ends environment (workerCall flag) info result world) :
    world.ServesAsMade flag.ethHost flag.fromAddress flag.toAddress ↔
      ¬ environment.Delivers info := by
  rcases transactions_of_ends hends with ⟨hstops, hnone⟩ | ⟨hdelivers, data, estimate, -, hone⟩
  · refine iff_of_true ⟨?_, fun _ => hnone⟩ hstops
    rw [hnone]
    exact List.forall_mem_nil _
  · -- the transaction that is posted goes to a wrong host
    refine iff_of_false (fun hserves => ?_) (not_not_intro hdelivers)
    have hmem : environment.transactionExchange (workerCall flag) data estimate ∈
        world.transactions := by simp [hone]
    exact bytesOf_prefixed_ne flag.ethHost.bytes (hserves.asMade _ hmem).host

end Transactions

/-! ## Requests -/

variable {AccountId : Type}

theorem workerCalls_of_last {past : List (Block AccountId)} {block : Block AccountId}
    {origin : Frame.RawOrigin AccountId} {ethHost fromAddress toAddress : ByteVec}
    (hlast : (successfulCalls past block).getLast? =
      some (origin, .updateEthereumPrice ethHost fromAddress toAddress)) :
    workerCalls past block =
      [workerCall { name := updateName, ethHost, fromAddress, toAddress }] := by
  obtain ⟨before, hconcat⟩ := List.getLast?_eq_some_iff.mp hlast
  rw [workerCalls_of_concat hconcat]
  rfl

/-- The run that serves a request posts no transaction that differs from the
request exactly when it posts none at all: because the price could not be
fetched while the lock was free, or is not numeric, because there is no usable
estimate of the gas, or because the request is not sent. A posted transaction goes
to the host with `0x` in front of it, and the addresses in it are right if they are
texts. -/
theorem servesAsMade_last_iff (past : List (Block AccountId)) (block : Block AccountId)
    (who : AccountId) (ethHost fromAddress toAddress : ByteVec)
    (hlast : (successfulCalls past block).getLast? =
      some (.signed who, .updateEthereumPrice ethHost fromAddress toAddress))
    (environment : Environment) (info : Option Bytes) :
    ∃ call, workerCalls past block = [call] ∧
      let world := (Run.exec (updateEthereumPriceWorker environment call) (World.start info)).2
      (world.ServesAsMade ethHost fromAddress toAddress ↔ ¬ environment.Delivers info) ∧
      ∀ exchange ∈ world.transactions,
        exchange.request.url = "0x" ++ fromUtf8OrError ethHost.bytes ∧
        (exchange.request.transactionMember? "from" = some (bytesOf "0x" ++ fromAddress.bytes) ↔
          (fromUtf8 fromAddress.bytes).isSome = true) ∧
        (exchange.request.transactionMember? "to" = some (bytesOf "0x" ++ toAddress.bytes) ↔
          (fromUtf8 toAddress.bytes).isSome = true) := by
  have hends := ends_updateEthereumPriceWorker environment
    (workerCall { name := updateName, ethHost, fromAddress, toAddress }) info
  refine ⟨_, workerCalls_of_last hlast, servesAsMade_iff hends, ?_⟩
  intro exchange hmem
  exact transactions_workerCall hends hmem

/-- Nothing is posted if the price service cannot be reached. -/
theorem servesAsMade_unreachable :
    let host : ByteVec := ⟨bytesOf "http://127.0.0.1:8545", by decide⟩
    let address : ByteVec := ⟨bytesOf "52", by decide⟩
    let block : Block Nat := ⟨1, [(.signed 7, .updateEthereumPrice host address address)]⟩
    let environment : Environment := ⟨documentedReaders, true, fun _ => .sendFailed, true⟩
    ∃ call, workerCalls [] block = [call] ∧
      (Run.exec (updateEthereumPriceWorker environment call) (World.start none)).2.ServesAsMade
        host address address := by
  intro host address block environment
  have hlast : (successfulCalls [] block).getLast? =
      some (.signed 7, .updateEthereumPrice host address address) := by
    rw [successfulCalls_eq_filter]
    rfl
  have hstops : ¬ environment.Delivers none := by
    intro hdelivers
    obtain ⟨⟨price, -, -, hprice, -⟩, -⟩ := hdelivers
    cases hprice
  obtain ⟨call, hcall, hserves, -⟩ :=
    servesAsMade_last_iff [] block 7 host address address hlast environment none
  exact ⟨call, hcall, hserves.mpr hstops⟩

/-- With the lock held by another run, no price stored and a node that answers,
a request is posted to a host nobody has asked for. It is also posted if the
address of the sender is no text, and then from another address. -/
theorem posted_to_prefixed_host :
    let host : ByteVec := ⟨bytesOf "http://127.0.0.1:8545", by decide⟩
    let address : ByteVec := ⟨bytesOf "52", by decide⟩
    let noText : ByteVec := ⟨[0xff], by decide⟩
    let answer := "\x7b\"jsonrpc\":\"2.0\",\"id\":20,\"result\":\"0x5208\"\x7d"
    let environment : Environment :=
      ⟨documentedReaders, false, fun _ => .response 200 (bytesOf answer), true⟩
    ∀ request ∈ [(address, "0x52"), (noText, "0xerror")],
      let block : Block Nat := ⟨1, [(.signed 7, .updateEthereumPrice host request.1 address)]⟩
      ∃ call, workerCalls [] block = [call] ∧
        let world := (Run.exec (updateEthereumPriceWorker environment call) (World.start none)).2
        (∃ exchange, world.transactions = [exchange] ∧
          exchange.request.url = "0xhttp://127.0.0.1:8545" ∧
          exchange.request.transactionMember? "from" = some (bytesOf request.2)) ∧
        ¬ world.ServesAsMade host request.1 address := by
  intro host address noText answer environment request hrequest block
  have hlast : (successfulCalls [] block).getLast? =
      some (.signed 7, .updateEthereumPrice host request.1 address) := by
    rw [successfulCalls_eq_filter]
    rfl
  have hdelivers : environment.Delivers none :=
    ⟨⟨zeroPrice, calldata 0, ⟨bytesOf "2.0", 20, bytesOf "0x5208"⟩, rfl, by decide +kernel,
      by decide +kernel⟩, by decide⟩
  have hends := ends_updateEthereumPriceWorker environment
    (workerCall ⟨updateName, host, request.1, address⟩) none
  refine ⟨_, workerCalls_of_last hlast, ?_, fun hserves =>
    (servesAsMade_iff hends).mp hserves hdelivers⟩
  rcases transactions_of_ends hends with ⟨hstops, -⟩ | ⟨-, data, estimate, hestimate, hone⟩
  · exact absurd hdelivers hstops
  · refine ⟨_, hone, ?_, ?_⟩
    · change "0x" ++ fromUtf8OrError (bytesOf "http://127.0.0.1:8545") = _
      rw [fromUtf8OrError_eq, fromUtf8_bytesOf]
      rfl
    · rw [sender_transactionExchange hestimate]
      rcases List.mem_pair.mp hrequest with rfl | rfl
      · decide +kernel
      · decide +kernel

end SupraClient.Oracle
