import SupraClient.Oracle.Index

/-! # Price requests and the worker of their block

The worker of a block acts on a genuine request of its own block and on nothing
else. But the index has room for one record per block: of several requests
only the last one is served, and a submission behind a request hides it.
-/

namespace SupraClient.Oracle

open Frame Frame.Dispatch Scale

variable {AccountId : Type}

/-- The calls of a block that return `Ok`, in the order of execution. -/
def successfulCalls (past : List (Block AccountId)) (block : Block AccountId) :
    List (Extrinsic AccountId) :=
  succeeded dispatch (enterBlock (executeBlocks emptyChain past) block.number) block.extrinsics

/-- The calls of `update_ethereum_price_worker` made by the worker that runs for
a block right after its execution. -/
def workerCalls (past : List (Block AccountId)) (block : Block AccountId) : List WorkerCall :=
  offchainWorker (executeBlocks emptyChain (past ++ [block])).store.index block.number

def Call.isSubmission : Call → Bool
  | .submitEthereumPrice _ => true
  | .updateEthereumPrice _ _ _ => false

theorem requestOf_eq_none_iff (call : Call) : requestOf call = none ↔ call.isSubmission = true := by
  cases call <;> simp [requestOf, Call.isSubmission]

theorem requestOf_eq_some_iff (call : Call) (flag : IndexingPriceFlag) :
    requestOf call = some flag ↔
      call = .updateEthereumPrice flag.ethHost flag.fromAddress flag.toAddress ∧
        flag.name = updateName := by
  obtain ⟨name, ethHost, fromAddress, toAddress⟩ := flag
  cases call with
  | submitEthereumPrice price => simp [requestOf]
  | updateEthereumPrice host sender receiver =>
      simp only [requestOf, Option.some.injEq, IndexingPriceFlag.mk.injEq,
        Call.updateEthereumPrice.injEq]
      constructor
      · rintro ⟨rfl, rfl, rfl, rfl⟩
        exact ⟨⟨rfl, rfl, rfl⟩, rfl⟩
      · rintro ⟨⟨rfl, rfl, rfl⟩, rfl⟩
        exact ⟨rfl, rfl, rfl, rfl⟩

theorem successfulCalls_eq_filter (past : List (Block AccountId)) (block : Block AccountId) :
    successfulCalls past block = block.extrinsics.filter accepts :=
  succeeded_eq_filter _ _

/-- Successful requests are signed. -/
theorem exists_signed_of_accepts {origin : RawOrigin AccountId}
    {ethHost fromAddress toAddress : ByteVec}
    (h : accepts (origin, .updateEthereumPrice ethHost fromAddress toAddress) = true) :
    ∃ who, origin = .signed who := by
  cases origin with
  | signed who => exact ⟨who, rfl⟩
  | root => cases h
  | none => cases h

/-- Blocks with other numbers, before or after, do not matter to the worker. -/
theorem callsIn_of_distinct {past later : List (Block AccountId)} {block : Block AccountId}
    (hpast : ∀ other ∈ past, other.number ≠ block.number)
    (hlater : ∀ other ∈ later, other.number ≠ block.number) :
    callsIn (past ++ block :: later) block.number = successfulCalls past block := by
  rw [callsIn_append, callsIn_cons, callsIn_eq_nil hpast, callsIn_eq_nil hlater, if_pos rfl,
    successfulCalls_eq_filter, List.nil_append, List.append_nil]

theorem offchainWorker_eq (index : StorageMap Bytes Bytes) (number : UInt32) :
    offchainWorker index number = ((retrieveFlag index number).map workerCall).toList := by
  unfold offchainWorker
  split <;> rename_i h <;> rw [h] <;> rfl

theorem offchainWorker_ne_nil_iff (index : StorageMap Bytes Bytes) (number : UInt32) :
    offchainWorker index number ≠ [] ↔ ∃ flag, retrieveFlag index number = some flag := by
  rw [offchainWorker_eq]
  cases retrieveFlag index number with
  | none => simp
  | some flag => simp

/-- The request of the last successful call is that of a signed update. -/
theorem last_request_iff (past : List (Block AccountId)) (block : Block AccountId)
    (flag : IndexingPriceFlag) :
    ((successfulCalls past block).getLast?.bind fun extrinsic => requestOf extrinsic.2) =
        some flag ↔
      ∃ who, (successfulCalls past block).getLast? = some (.signed who,
        .updateEthereumPrice flag.ethHost flag.fromAddress flag.toAddress) ∧
          flag.name = updateName := by
  constructor
  · intro hbind
    obtain ⟨⟨origin, call⟩, hlast, hrequest⟩ := Option.bind_eq_some_iff.mp hbind
    obtain ⟨rfl, hname⟩ := (requestOf_eq_some_iff call flag).mp hrequest
    have hmem := List.mem_of_getLast? hlast
    rw [successfulCalls_eq_filter, List.mem_filter] at hmem
    obtain ⟨who, rfl⟩ := exists_signed_of_accepts hmem.2
    exact ⟨who, hlast, hname⟩
  · rintro ⟨who, hlast, hname⟩
    rw [hlast, Option.bind_some, requestOf_eq_some_iff]
    exact ⟨rfl, hname⟩

/-! ## The worker acts on genuine requests of its block -/

/-- Over blocks with different numbers, the worker of a block makes a call
exactly when the last successful call of the block was a signed request, and it
decodes the byte strings of that request. No submission is ever decoded as a
request, and blocks do not share keys. -/
theorem worker_acts_on_last_request (past later : List (Block AccountId)) (block : Block AccountId)
    (hnumbers : ((past ++ block :: later).map Block.number).Nodup) :
    let index := (executeBlocks emptyChain (past ++ block :: later)).store.index
    let last := (successfulCalls past block).getLast?
    (offchainWorker index block.number ≠ [] ↔
      ∃ who ethHost fromAddress toAddress,
        last = some (.signed who, .updateEthereumPrice ethHost fromAddress toAddress)) ∧
    (∀ who ethHost fromAddress toAddress,
      last = some (.signed who, .updateEthereumPrice ethHost fromAddress toAddress) →
      retrieveFlag index block.number =
        some { name := updateName, ethHost, fromAddress, toAddress }) ∧
    (∀ data : IndexingPriceData,
      IndexingPriceFlag.codec.read (IndexingPriceData.codec.encode data) = none) ∧
    Function.Injective derivedKey := by
  intro index last
  have hdistinct : ∀ other, other ∈ past ∨ other ∈ later → other.number ≠ block.number := by
    rw [List.map_append, List.map_cons, List.nodup_append, List.nodup_cons] at hnumbers
    rintro other (hpast | hlater) heq
    · exact hnumbers.2.2 _ (List.mem_map_of_mem hpast) _ (by simp [heq]) rfl
    · exact hnumbers.2.1.1 (heq ▸ List.mem_map_of_mem hlater)
  have hflag : ∀ flag, retrieveFlag index block.number = some flag ↔
      ∃ who, last = some (.signed who,
        .updateEthereumPrice flag.ethHost flag.fromAddress flag.toAddress) ∧
          flag.name = updateName := by
    intro flag
    rw [← last_request_iff, retrieveFlag_executeBlocks, callsIn_of_distinct
      (fun other hmem => hdistinct other (Or.inl hmem))
      (fun other hmem => hdistinct other (Or.inr hmem))]
  refine ⟨⟨fun hcalls => ?_, ?_⟩, ?_, flag_read_data, derivedKey_injective⟩
  · obtain ⟨flag, hretrieve⟩ := (offchainWorker_ne_nil_iff _ _).mp hcalls
    obtain ⟨who, hlast, -⟩ := (hflag flag).mp hretrieve
    exact ⟨who, _, _, _, hlast⟩
  · rintro ⟨who, ethHost, fromAddress, toAddress, hlast⟩
    refine (offchainWorker_ne_nil_iff _ _).mpr
      ⟨{ name := updateName, ethHost, fromAddress, toAddress }, ?_⟩
    exact (hflag _).mpr ⟨who, hlast, rfl⟩
  · intro who ethHost fromAddress toAddress hlast
    exact (hflag _).mpr ⟨who, hlast, rfl⟩

/-- Three blocks of one extrinsic each; the submission of the last one does not
disturb the request of the second. -/
theorem worker_serves_second_block :
    let host : ByteVec := ⟨bytesOf "localhost", by decide⟩
    let address : ByteVec := ⟨bytesOf "52", by decide⟩
    let past : List (Block Nat) := [⟨1, []⟩]
    let block : Block Nat := ⟨2, [(.signed 7, .updateEthereumPrice host address address)]⟩
    let later : List (Block Nat) := [⟨3, [(.none, .submitEthereumPrice address)]⟩]
    ((past ++ block :: later).map Block.number).Nodup ∧
      offchainWorker (executeBlocks emptyChain (past ++ block :: later)).store.index 2 ≠ [] := by
  intro host address past block later
  have hnumbers : ((past ++ block :: later).map Block.number).Nodup := by decide
  refine ⟨hnumbers, (worker_acts_on_last_request past later block hnumbers).1.mpr ?_⟩
  refine ⟨7, host, address, address, ?_⟩
  rw [successfulCalls_eq_filter]
  rfl

end SupraClient.Oracle
