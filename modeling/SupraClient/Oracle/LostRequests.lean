import SupraClient.Oracle.Requests

/-! # Requests that the worker never sees

The index keeps one record per block. All requests of a block are served
exactly when there is at most one and no submission follows it, and submissions
leave the worker of a block undisturbed exactly when they do not come last, or
have no request to hide.
-/

namespace SupraClient.Oracle

open Frame Scale

variable {AccountId : Type}

/-- The requests among successful calls. -/
def requestsOf (calls : List (Extrinsic AccountId)) : List IndexingPriceFlag :=
  calls.filterMap fun extrinsic => requestOf extrinsic.2

theorem requestsOf_eq_nil_iff (calls : List (Extrinsic AccountId)) :
    requestsOf calls = [] ↔ ∀ extrinsic ∈ calls, extrinsic.2.isSubmission = true := by
  simp only [requestsOf, List.filterMap_eq_nil_iff, requestOf_eq_none_iff]

/-- The worker serves the last successful call made under the number of its
block, if that is a request. -/
theorem workerCalls_eq (past : List (Block AccountId)) (block : Block AccountId) :
    workerCalls past block =
      ((callsIn (past ++ [block]) block.number).getLast?.bind fun extrinsic =>
        (requestOf extrinsic.2).map workerCall).toList := by
  rw [workerCalls, offchainWorker_eq, retrieveFlag_executeBlocks, Option.map_bind]
  rfl

theorem workerCalls_of_concat {past : List (Block AccountId)} {block : Block AccountId}
    {before : List (Extrinsic AccountId)} {last : Extrinsic AccountId}
    (h : successfulCalls past block = before ++ [last]) :
    workerCalls past block = ((requestOf last.2).map workerCall).toList := by
  have hcalls : callsIn (past ++ [block]) block.number =
      callsIn past block.number ++ before ++ [last] := by
    rw [callsIn_append, callsIn_cons, if_pos rfl, ← successfulCalls_eq_filter past block, h]
    simp [callsIn]
  rw [workerCalls_eq, hcalls, List.getLast?_concat, Option.bind_some]

theorem requestsOf_concat (before : List (Extrinsic AccountId)) (last : Extrinsic AccountId) :
    requestsOf (before ++ [last]) = requestsOf before ++ (requestOf last.2).toList := by
  rw [requestsOf, List.filterMap_append]
  cases hlast : requestOf last.2 with
  | none => simp [requestsOf, hlast]
  | some flag => simp [requestsOf, hlast]

/-! ## Requests of one block -/

/-- Every request of a block gets its worker call exactly when the block has no
request, or one that comes last. -/
theorem requests_served_iff (past : List (Block AccountId)) (block : Block AccountId) :
    ((requestsOf (successfulCalls past block)).map workerCall).Subperm (workerCalls past block) ↔
      (∀ extrinsic ∈ successfulCalls past block, extrinsic.2.isSubmission = true) ∨
        ∃ before last, successfulCalls past block = before ++ [last] ∧
          last.2.isSubmission = false ∧
          ∀ extrinsic ∈ before, extrinsic.2.isSubmission = true := by
  rcases List.eq_nil_or_concat' (successfulCalls past block) with hnil | ⟨before, last, hconcat⟩
  · simp [hnil, requestsOf]
  rw [workerCalls_of_concat hconcat, hconcat, requestsOf_concat]
  cases hlast : requestOf last.2 with
  | none =>
      -- The last call is a submission, and the worker makes no call at all.
      have hsubmission := (requestOf_eq_none_iff last.2).mp hlast
      simp only [Option.map_none, Option.toList_none, List.append_nil, List.subperm_nil,
        List.map_eq_nil_iff, requestsOf_eq_nil_iff, List.forall_mem_append,
        List.forall_mem_singleton, hsubmission, and_true]
      refine ⟨Or.inl, fun h => h.resolve_right ?_⟩
      rintro ⟨before', last', heq, hrequest, -⟩
      obtain ⟨-, rfl⟩ := List.append_singleton_inj.mp heq
      simp [hsubmission] at hrequest
  | some flag =>
      have hrequest : last.2.isSubmission = false := by
        rw [← Bool.not_eq_true, ← requestOf_eq_none_iff, hlast]
        simp
      simp only [Option.map_some, Option.toList_some, List.map_append, List.map_singleton]
      constructor
      · intro hserved
        have hlength := hserved.length_le
        rw [List.length_append, List.length_singleton] at hlength
        have hempty : (requestsOf before).map workerCall = [] :=
          List.length_eq_zero_iff.mp (by omega)
        have hnone : requestsOf before = [] := List.map_eq_nil_iff.mp hempty
        exact Or.inr ⟨before, last, rfl, hrequest, (requestsOf_eq_nil_iff before).mp hnone⟩
      · rintro (hall | ⟨before', last', heq, -, hbefore⟩)
        · have hcontra := hall last (by simp)
          simp [hrequest] at hcontra
        · obtain ⟨rfl, -⟩ := List.append_singleton_inj.mp heq
          rw [(requestsOf_eq_nil_iff before).mpr hbefore]
          exact List.Subperm.refl _

/-- Of two requests in one block the first is lost, although its event announces
the fetch and the transaction. -/
theorem first_of_two_requests_lost :
    let host : ByteVec := ⟨bytesOf "localhost", by decide⟩
    let first : ByteVec := ⟨bytesOf "51", by decide⟩
    let second : ByteVec := ⟨bytesOf "52", by decide⟩
    let block : Block Nat := ⟨1, [(.signed 7, .updateEthereumPrice host first first),
      (.signed 8, .updateEthereumPrice host second second)]⟩
    successfulCalls [] block = block.extrinsics ∧
      (executeBlocks emptyChain [block]).events =
        [.updateEthereumPrice (some 7), .updateEthereumPrice (some 8)] ∧
      workerCall ⟨updateName, host, first, first⟩ ∉ workerCalls [] block ∧
      ¬ ((requestsOf (successfulCalls [] block)).map workerCall).Subperm
        (workerCalls [] block) := by
  intro host first second block
  have hcalls : successfulCalls [] block = block.extrinsics := by
    rw [successfulCalls_eq_filter]
    rfl
  have hworker : workerCalls [] block = [workerCall ⟨updateName, host, second, second⟩] :=
    workerCalls_of_concat (hcalls.trans (List.singleton_append).symm)
  refine ⟨hcalls, rfl, ?_, fun hserved => ?_⟩
  · rw [hworker]
    decide
  · have hlength := hserved.length_le
    rw [hcalls, hworker] at hlength
    exact absurd hlength (by decide)

/-! ## Submissions and requests -/

/-- The block without its submissions. -/
def Block.withoutSubmissions (block : Block AccountId) : Block AccountId :=
  { block with extrinsics := block.extrinsics.filter fun extrinsic => !extrinsic.2.isSubmission }

theorem successfulCalls_withoutSubmissions (past : List (Block AccountId))
    (block : Block AccountId) :
    successfulCalls past block.withoutSubmissions =
      (successfulCalls past block).filter fun extrinsic => !extrinsic.2.isSubmission := by
  rw [successfulCalls_eq_filter, successfulCalls_eq_filter, Block.withoutSubmissions,
    List.filter_filter, List.filter_filter]
  exact List.filter_congr fun extrinsic _ => Bool.and_comm _ _

theorem workerCalls_of_nil {past : List (Block AccountId)} {block : Block AccountId}
    (hfresh : ∀ earlier ∈ past, earlier.number ≠ block.number)
    (h : successfulCalls past block = []) : workerCalls past block = [] := by
  rw [workerCalls_eq, callsIn_of_distinct hfresh (by simp), h]
  rfl

theorem workerCalls_ne_nil_of_concat {past : List (Block AccountId)} {block : Block AccountId}
    {before : List (Extrinsic AccountId)} {last : Extrinsic AccountId}
    (h : successfulCalls past block = before ++ [last]) (hlast : last.2.isSubmission = false) :
    workerCalls past block ≠ [] := by
  rw [workerCalls_of_concat h]
  cases hrequest : requestOf last.2 with
  | none => simp [(requestOf_eq_none_iff last.2).mp hrequest] at hlast
  | some flag => simp

/-- Without its submissions a block is left to the worker only if it has a
request. -/
theorem workerCalls_withoutSubmissions_eq_nil_iff {past : List (Block AccountId)}
    {block : Block AccountId} (hfresh : ∀ earlier ∈ past, earlier.number ≠ block.number) :
    workerCalls past block.withoutSubmissions = [] ↔
      ∀ extrinsic ∈ successfulCalls past block, extrinsic.2.isSubmission = true := by
  have hfresh' : ∀ earlier ∈ past, earlier.number ≠ block.withoutSubmissions.number := hfresh
  have hfilter := successfulCalls_withoutSubmissions past block
  rcases List.eq_nil_or_concat' (successfulCalls past block.withoutSubmissions) with
    hnil | ⟨before, request, hconcat⟩
  · refine iff_of_true (workerCalls_of_nil hfresh' hnil) fun extrinsic hmem => ?_
    rw [hnil, eq_comm, List.filter_eq_nil_iff] at hfilter
    simpa using hfilter extrinsic hmem
  · have hmem : request ∈ successfulCalls past block.withoutSubmissions := by simp [hconcat]
    rw [hfilter, List.mem_filter, Bool.not_eq_true'] at hmem
    refine iff_of_false (workerCalls_ne_nil_of_concat hconcat hmem.2) fun hall => ?_
    simp [hall request hmem.1] at hmem

/-- Deleting the submissions of a block leaves its worker calls as they are
exactly when the block has no request, or a request is its last successful
call. -/
theorem submissions_harmless_iff (past : List (Block AccountId)) (block : Block AccountId)
    (hfresh : ∀ earlier ∈ past, earlier.number ≠ block.number) :
    workerCalls past block = workerCalls past block.withoutSubmissions ↔
      (∀ extrinsic ∈ successfulCalls past block, extrinsic.2.isSubmission = true) ∨
        ∃ last, (successfulCalls past block).getLast? = some last ∧
          last.2.isSubmission = false := by
  rcases List.eq_nil_or_concat' (successfulCalls past block) with hnil | ⟨before, last, hconcat⟩
  · have hall : ∀ extrinsic ∈ successfulCalls past block, extrinsic.2.isSubmission = true := by
      simp [hnil]
    rw [workerCalls_of_nil hfresh hnil, (workerCalls_withoutSubmissions_eq_nil_iff hfresh).mpr hall]
    exact iff_of_true rfl (Or.inl hall)
  cases hlast : last.2.isSubmission with
  | false =>
      refine iff_of_true ?_ (Or.inr ⟨last, by rw [hconcat, List.getLast?_concat], hlast⟩)
      have hfilter := successfulCalls_withoutSubmissions past block
      rw [hconcat, List.filter_append, List.filter_cons_of_pos (by simp [hlast]),
        List.filter_nil] at hfilter
      rw [workerCalls_of_concat hconcat, workerCalls_of_concat hfilter]
  | true =>
      -- The worker makes no call, so all depends on a request being hidden.
      have hcalls : workerCalls past block = [] := by
        rw [workerCalls_of_concat hconcat, (requestOf_eq_none_iff last.2).mpr hlast]
        rfl
      rw [hcalls, eq_comm, workerCalls_withoutSubmissions_eq_nil_iff hfresh]
      refine ⟨Or.inl, fun h => h.resolve_right ?_⟩
      rintro ⟨other, hother, hrequest⟩
      rw [hconcat, List.getLast?_concat] at hother
      cases hother
      simp [hlast] at hrequest

/-- A request behind a submission, after an earlier block. -/
theorem submission_before_request_harmless :
    let host : ByteVec := ⟨bytesOf "localhost", by decide⟩
    let address : ByteVec := ⟨bytesOf "52", by decide⟩
    let past : List (Block Nat) := [⟨1, [(.none, .submitEthereumPrice address)]⟩]
    let block : Block Nat := ⟨2, [(.none, .submitEthereumPrice address),
      (.signed 7, .updateEthereumPrice host address address)]⟩
    (∀ earlier ∈ past, earlier.number ≠ block.number) ∧
      workerCalls past block = workerCalls past block.withoutSubmissions := by
  intro host address past block
  have hfresh : ∀ earlier ∈ past, earlier.number ≠ block.number := by
    intro earlier hmem
    rw [List.mem_singleton.mp hmem]
    decide
  refine ⟨hfresh, (submissions_harmless_iff past block hfresh).mpr (Or.inr ?_)⟩
  rw [successfulCalls_eq_filter]
  exact ⟨_, rfl, rfl⟩

/-- A single unsigned submission behind a request hides the request. -/
theorem submission_hides_request :
    let host : ByteVec := ⟨bytesOf "localhost", by decide⟩
    let address : ByteVec := ⟨bytesOf "52", by decide⟩
    let block : Block Nat := ⟨1, [(.signed 7, .updateEthereumPrice host address address),
      (.none, .submitEthereumPrice ⟨[], by decide⟩)]⟩
    successfulCalls [] block = block.extrinsics ∧ workerCalls [] block = [] ∧
      workerCalls [] block.withoutSubmissions =
        [workerCall ⟨updateName, host, address, address⟩] ∧
      workerCalls [] block ≠ workerCalls [] block.withoutSubmissions := by
  intro host address block
  have hcalls : successfulCalls [] block = block.extrinsics := by
    rw [successfulCalls_eq_filter]
    rfl
  have hrequest : successfulCalls [] block.withoutSubmissions =
      [] ++ [(.signed 7, .updateEthereumPrice host address address)] := by
    rw [successfulCalls_eq_filter]
    rfl
  have hhidden : workerCalls [] block = [] :=
    workerCalls_of_concat (hcalls.trans (List.singleton_append).symm)
  have hserved : workerCalls [] block.withoutSubmissions =
      [workerCall ⟨updateName, host, address, address⟩] :=
    workerCalls_of_concat hrequest
  refine ⟨hcalls, hhidden, hserved, ?_⟩
  rw [hhidden, hserved]
  exact (List.cons_ne_nil _ _).symm

end SupraClient.Oracle
