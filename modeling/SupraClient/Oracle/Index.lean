import SupraClient.Oracle.Pallet

/-! # What the off-chain index holds

All successful calls of a block write under the key of the block, and calls of
other blocks write elsewhere. The index therefore holds, for every block, the
record of its last successful call, and the off-chain worker sees nothing else
of the block.
-/

namespace SupraClient.Oracle

open Frame Frame.Dispatch Scale

variable {AccountId : Type}

/-- Submissions are unsigned and requests are signed; there is no other check. -/
def accepts : Extrinsic AccountId → Bool
  | (.none, .submitEthereumPrice _) => true
  | (.signed _, .updateEthereumPrice _ _ _) => true
  | _ => false

/-- The bytes a successful call writes to the index. -/
def recordOf : Call → Bytes
  | .submitEthereumPrice price => IndexingPriceData.codec.encode { name := submitName, price }
  | .updateEthereumPrice ethHost fromAddress toAddress =>
      IndexingPriceFlag.codec.encode { name := updateName, ethHost, fromAddress, toAddress }

/-- The request of a call, as the worker is meant to see it. -/
def requestOf : Call → Option IndexingPriceFlag
  | .submitEthereumPrice _ => none
  | .updateEthereumPrice ethHost fromAddress toAddress =>
      some { name := updateName, ethHost, fromAddress, toAddress }

/-! ## Single calls -/

/-- A call succeeds or fails by its origin. -/
theorem exec_dispatch_fst (chain : Chain AccountId) (extrinsic : Extrinsic AccountId) :
    (exec (dispatch extrinsic) chain).1 =
      if accepts extrinsic then .ok () else .error .badOrigin := by
  obtain ⟨origin, call⟩ := extrinsic
  cases call with
  | submitEthereumPrice price => cases origin <;> simp [dispatch, submitEthereumPrice, accepts]
  | updateEthereumPrice ethHost fromAddress toAddress =>
      cases origin <;> simp [dispatch, updateEthereumPrice, accepts]

/-- A successful call writes its record under the key of the block. -/
theorem exec_dispatch_store (chain : Chain AccountId) (extrinsic : Extrinsic AccountId) :
    (exec (dispatch extrinsic) chain).2.store =
      if accepts extrinsic then
        { chain.store with
          index := chain.store.index.insert (derivedKey chain.store.blockNumber)
            (recordOf extrinsic.2) }
      else chain.store := by
  obtain ⟨origin, call⟩ := extrinsic
  cases call with
  | submitEthereumPrice price =>
      cases origin <;>
        simp [dispatch, submitEthereumPrice, accepts, recordOf, blockNumber, offchainIndex]
  | updateEthereumPrice ethHost fromAddress toAddress =>
      cases origin <;>
        simp [dispatch, updateEthereumPrice, accepts, recordOf, blockNumber, offchainIndex]

/-- The successful calls of a sequence are those with the right origin. -/
theorem succeeded_eq_filter (chain : Chain AccountId) (extrinsics : List (Extrinsic AccountId)) :
    succeeded dispatch chain extrinsics = extrinsics.filter accepts := by
  induction extrinsics generalizing chain with
  | nil => rfl
  | cons extrinsic rest ih =>
      have hresult := exec_dispatch_fst chain extrinsic
      rw [succeeded]
      split
      next heq =>
        rw [heq] at hresult
        by_cases haccepts : accepts extrinsic = true
        · rw [List.filter_cons_of_pos haccepts, ih]
        · rw [if_neg haccepts] at hresult
          cases hresult
      next heq =>
        rw [heq] at hresult
        by_cases haccepts : accepts extrinsic = true
        · rw [if_pos haccepts] at hresult
          cases hresult
        · rw [List.filter_cons_of_neg haccepts, ih]

/-! ## Blocks -/

theorem run_blockNumber (chain : Chain AccountId) (extrinsics : List (Extrinsic AccountId)) :
    (run dispatch chain extrinsics).store.blockNumber = chain.store.blockNumber := by
  refine run_invariant dispatch
    (fun current => current.store.blockNumber = chain.store.blockNumber) ?_ rfl extrinsics
  intro current extrinsic hcurrent
  rw [exec_dispatch_store]
  split <;> exact hcurrent

/-- The last successful call of a sequence decides what stands under the key of
the current block. -/
theorem run_index (chain : Chain AccountId) (extrinsics : List (Extrinsic AccountId))
    (key : Bytes) :
    (run dispatch chain extrinsics).store.index.tryGet key =
      if key = derivedKey chain.store.blockNumber then
        ((extrinsics.filter accepts).getLast?.map fun extrinsic => recordOf extrinsic.2).or
          (chain.store.index.tryGet key)
      else chain.store.index.tryGet key := by
  induction extrinsics using List.reverseRecOn with
  | nil => simp
  | append_singleton done extrinsic ih =>
      rw [run_concat, exec_dispatch_store, run_blockNumber, List.filter_append]
      by_cases haccepts : accepts extrinsic = true
      · rw [if_pos haccepts, StorageMap.tryGet_insert, ih]
        by_cases hkey : key = derivedKey chain.store.blockNumber
        · simp [hkey, haccepts]
        · simp [hkey]
      · rw [if_neg haccepts, ih]
        simp [haccepts]

theorem derivedKey_injective : Function.Injective derivedKey := by
  intro first second heq
  exact u32.encode_injective (List.append_cancel_left heq)

theorem executeBlock_index (chain : Chain AccountId) (block : Block AccountId) (number : UInt32) :
    (executeBlock chain block).store.index.tryGet (derivedKey number) =
      if block.number = number then
        ((block.extrinsics.filter accepts).getLast?.map fun extrinsic => recordOf extrinsic.2).or
          (chain.store.index.tryGet (derivedKey number))
      else chain.store.index.tryGet (derivedKey number) := by
  rw [executeBlock, run_index]
  simp only [enterBlock, derivedKey_injective.eq_iff, eq_comm]

/-- The successful calls of the blocks with a given number. -/
def callsIn (blocks : List (Block AccountId)) (number : UInt32) : List (Extrinsic AccountId) :=
  blocks.flatMap fun block =>
    if block.number = number then block.extrinsics.filter accepts else []

theorem callsIn_cons (block : Block AccountId) (rest : List (Block AccountId))
    (number : UInt32) :
    callsIn (block :: rest) number =
      (if block.number = number then block.extrinsics.filter accepts else []) ++
        callsIn rest number :=
  List.flatMap_cons

theorem callsIn_append (past later : List (Block AccountId)) (number : UInt32) :
    callsIn (past ++ later) number = callsIn past number ++ callsIn later number :=
  List.flatMap_append

theorem callsIn_eq_nil {blocks : List (Block AccountId)} {number : UInt32}
    (h : ∀ block ∈ blocks, block.number ≠ number) : callsIn blocks number = [] := by
  rw [callsIn, List.flatMap_eq_nil_iff]
  intro block hblock
  rw [if_neg (h block hblock)]

/-- After any sequence of blocks the index holds under the key of a block the
record of the last successful call made under that number. -/
theorem executeBlocks_index (chain : Chain AccountId) (blocks : List (Block AccountId))
    (number : UInt32) :
    (executeBlocks chain blocks).store.index.tryGet (derivedKey number) =
      ((callsIn blocks number).getLast?.map fun extrinsic => recordOf extrinsic.2).or
        (chain.store.index.tryGet (derivedKey number)) := by
  induction blocks generalizing chain with
  | nil => simp [executeBlocks, callsIn]
  | cons block rest ih =>
      change (executeBlocks (executeBlock chain block) rest).store.index.tryGet _ = _
      rw [ih, executeBlock_index, callsIn_cons, List.getLast?_append, Option.map_or,
        Option.or_assoc]
      split <;> simp

/-! ## What the worker retrieves -/

theorem fromUtf8OrError_updateName :
    fromUtf8OrError updateName.bytes = "update_ethereum_price" := by
  decide

/-- A record of two byte vectors is never read as one of four: the third vector
would have to start where the input ends. -/
theorem flag_read_data (data : IndexingPriceData) :
    IndexingPriceFlag.codec.read (IndexingPriceData.codec.encode data) = none := by
  have hname := byteVec.decode_encode data.name (byteVec.encode data.price)
  have hprice := byteVec.decode_encode data.price []
  rw [List.append_nil] at hprice
  simp [Codec.read, IndexingPriceFlag.codec, IndexingPriceData.codec, Codec.ofEquiv, Codec.pair,
    hname, hprice]

/-- Behind the record of a call the worker finds the request of the call. -/
theorem retrieveFlag_of_record {index : StorageMap Bytes Bytes} {number : UInt32} {call : Call}
    (h : index.tryGet (derivedKey number) = some (recordOf call)) :
    retrieveFlag index number = requestOf call := by
  cases call with
  | submitEthereumPrice price =>
      simp only [retrieveFlag, getPersistent, h, Option.map_some, recordOf, flag_read_data,
        requestOf]
  | updateEthereumPrice ethHost fromAddress toAddress =>
      simp only [retrieveFlag, getPersistent, h, Option.map_some, recordOf, Codec.read_encode,
        fromUtf8OrError_updateName, if_pos, requestOf]

theorem retrieveFlag_of_none {index : StorageMap Bytes Bytes} {number : UInt32}
    (h : index.tryGet (derivedKey number) = none) : retrieveFlag index number = none := by
  simp only [retrieveFlag, getPersistent, h, Option.map_none]

/-- From the empty chain on, the worker of a block acts on the last successful
call made under the number of the block, if that was a request. -/
theorem retrieveFlag_executeBlocks (blocks : List (Block AccountId)) (number : UInt32) :
    retrieveFlag (executeBlocks emptyChain blocks).store.index number =
      (callsIn blocks number).getLast?.bind fun extrinsic => requestOf extrinsic.2 := by
  have hindex := executeBlocks_index emptyChain blocks number
  have hempty : (emptyChain : Chain AccountId).store.index.tryGet (derivedKey number) = none :=
    StorageMap.tryGet_empty _
  rw [hempty, Option.or_none] at hindex
  cases hlast : (callsIn blocks number).getLast? with
  | none =>
      rw [hlast, Option.map_none] at hindex
      rw [retrieveFlag_of_none hindex, Option.bind_none]
  | some extrinsic =>
      rw [hlast, Option.map_some] at hindex
      rw [retrieveFlag_of_record hindex, Option.bind_some]

end SupraClient.Oracle
