import SupraClient.ProofOfExistence.Pallet
import Mathlib.Data.List.Chain

/-! # Claim histories

The successful calls on one proof form a history of their own, whatever happens
to other proofs in between: creations and revocations alternate, and a claim is
revoked by nobody but its claimant. The entry of the proof is the last word of
that history.
-/

namespace SupraClient.ProofOfExistence

open Frame Frame.Dispatch

variable {AccountId BlockNumber : Type}

/-! ## One call -/

/-- The accepted calls on a proof, with the entry each of them finds and leaves
under the proof. -/
inductive Accepts : Execution AccountId BlockNumber →
    Option (AccountId × BlockNumber) → Option (AccountId × BlockNumber) → Prop
  | create {blockNumber who proof} :
      Accepts ⟨blockNumber, .signed who, .createClaim proof⟩ none (some (who, blockNumber))
  | revoke {blockNumber who proof since} :
      Accepts ⟨blockNumber, .signed who, .revokeClaim proof⟩ (some (who, since)) none

theorem exec_createClaim (blockNumber : BlockNumber) (origin : RawOrigin AccountId)
    (proof : Proof) (chain : Chain AccountId BlockNumber) :
    (createClaim blockNumber origin proof).exec chain =
      match origin, chain.store.proofs.tryGet proof with
      | .signed who, none =>
          (.ok (), { store := { proofs := chain.store.proofs.insert proof (who, blockNumber) }
                     events := chain.events ++ [.claimCreated who proof] })
      | .signed _, some _ => (.error (.module .proofAlreadyClaimed), chain)
      | _, _ => (.error .badOrigin, chain) := by
  cases origin with
  | root => rfl
  | none => rfl
  | signed who =>
      cases hentry : chain.store.proofs.tryGet proof with
      | none =>
          have hclaimed := (chain.store.proofs.containsKey_eq_false_iff proof).mpr hentry
          simp [createClaim, proofs, hclaimed]
      | some entry =>
          have hclaimed := (chain.store.proofs.containsKey_eq_true_iff proof).mpr ⟨entry, hentry⟩
          simp [createClaim, proofs, hclaimed]

variable [DecidableEq AccountId] [Inhabited AccountId] [Inhabited BlockNumber]

theorem exec_revokeClaim (origin : RawOrigin AccountId) (proof : Proof)
    (chain : Chain AccountId BlockNumber) :
    (revokeClaim origin proof).exec chain =
      match origin, chain.store.proofs.tryGet proof with
      | .signed who, some (owner, _) =>
          if who = owner then
            (.ok (), { store := { proofs := chain.store.proofs.remove proof }
                       events := chain.events ++ [.claimRevoked who proof] })
          else (.error (.module .notProofOwner), chain)
      | .signed _, none => (.error (.module .noSuchProof), chain)
      | _, _ => (.error .badOrigin, chain) := by
  cases origin with
  | root => rfl
  | none => rfl
  | signed who =>
      cases hentry : chain.store.proofs.tryGet proof with
      | none =>
          have hclaimed := (chain.store.proofs.containsKey_eq_false_iff proof).mpr hentry
          simp [revokeClaim, proofs, hclaimed]
      | some entry =>
          have hclaimed := (chain.store.proofs.containsKey_eq_true_iff proof).mpr ⟨entry, hentry⟩
          simp [revokeClaim, proofs, hclaimed, StorageMap.get_of_tryGet hentry]

/-- A call fails and changes nothing, or is accepted and edits the entry of its
own proof only. -/
theorem dispatch_cases (execution : Execution AccountId BlockNumber)
    (chain : Chain AccountId BlockNumber) :
    (∃ error, (dispatch execution).exec chain = (.error error, chain)) ∨
      ∃ next, (dispatch execution).exec chain = (.ok (), next) ∧
        Accepts execution (chain.store.proofs.tryGet execution.call.proof)
          (next.store.proofs.tryGet execution.call.proof) ∧
        ∀ other, other ≠ execution.call.proof →
          next.store.proofs.tryGet other = chain.store.proofs.tryGet other := by
  obtain ⟨blockNumber, origin, call⟩ := execution
  cases call with
  | createClaim proof =>
      rw [dispatch, exec_createClaim]
      split
      next who hentry =>
        refine Or.inr ⟨_, rfl, ?_, fun other hne => ?_⟩
        · simp only [Call.proof, hentry, StorageMap.tryGet_insert, if_true]
          exact .create
        · exact (StorageMap.tryGet_insert _ _ _ _).trans (if_neg hne)
      next => exact Or.inl ⟨_, rfl⟩
      next => exact Or.inl ⟨_, rfl⟩
  | revokeClaim proof =>
      rw [dispatch, exec_revokeClaim]
      split
      next who owner since hentry =>
        by_cases howner : who = owner
        · rw [if_pos howner]
          subst who
          refine Or.inr ⟨_, rfl, ?_, fun other hne => ?_⟩
          · simp only [Call.proof, hentry, StorageMap.tryGet_remove, if_true]
            exact .revoke
          · exact (StorageMap.tryGet_remove _ _ _).trans (if_neg hne)
        · rw [if_neg howner]
          exact Or.inl ⟨_, rfl⟩
      next => exact Or.inl ⟨_, rfl⟩
      next => exact Or.inl ⟨_, rfl⟩

/-! ## Whole runs -/

/-- The successful calls of a run that are on the given proof. -/
def history (executions : List (Execution AccountId BlockNumber)) (proof : Proof) :
    List (Execution AccountId BlockNumber) :=
  (succeeded dispatch emptyChain executions).filter fun execution => execution.call.proof = proof

section Alternation

omit [DecidableEq AccountId] [Inhabited AccountId] [Inhabited BlockNumber]

/-- What may come next on a proof: after a creation its revocation by the same
signer, after a revocation any creation. -/
def Follows (first second : Execution AccountId BlockNumber) : Prop :=
  match first.call, second.call with
  | .createClaim _, .revokeClaim _ =>
      ∃ who, first.origin = .signed who ∧ second.origin = .signed who
  | .revokeClaim _, .createClaim _ => True
  | _, _ => False

/-- A history that starts with a creation and goes on by turns. -/
structure Alternating (calls : List (Execution AccountId BlockNumber)) : Prop where
  signed : ∀ call ∈ calls, ∃ who, call.origin = .signed who
  first : ∀ call ∈ calls.head?, ∃ proof, call.call = .createClaim proof
  turns : calls.IsChain Follows

/-- The claim a history ends with, if its last call is a creation. -/
def lastClaim (calls : List (Execution AccountId BlockNumber)) :
    Option (AccountId × BlockNumber) :=
  match calls.getLast? with
  | some ⟨blockNumber, .signed who, .createClaim _⟩ => some (who, blockNumber)
  | _ => none

theorem lastClaim_concat {calls : List (Execution AccountId BlockNumber)}
    {call : Execution AccountId BlockNumber} {before after : Option (AccountId × BlockNumber)}
    (haccepts : Accepts call before after) : lastClaim (calls ++ [call]) = after := by
  rw [lastClaim, List.getLast?_concat]
  cases haccepts with
  | create => rfl
  | revoke => rfl

/-- An accepted call takes its turn. -/
theorem Alternating.concat {calls : List (Execution AccountId BlockNumber)}
    (hcalls : Alternating calls) {call : Execution AccountId BlockNumber}
    {after : Option (AccountId × BlockNumber)}
    (haccepts : Accepts call (lastClaim calls) after) : Alternating (calls ++ [call]) where
  signed := by
    intro other hother
    rcases List.mem_append.mp hother with hold | hnew
    · exact hcalls.signed other hold
    · obtain rfl := List.mem_singleton.mp hnew
      generalize lastClaim calls = before at haccepts
      cases haccepts with
      | create => exact ⟨_, rfl⟩
      | revoke => exact ⟨_, rfl⟩
  first := by
    cases calls with
    | nil =>
        rintro other ⟨⟩
        cases haccepts with
        | create => exact ⟨_, rfl⟩
    | cons head rest => exact hcalls.first
  turns := by
    -- only the link between the last call and the new one is left
    refine List.isChain_append.mpr ⟨hcalls.turns, List.isChain_singleton _, ?_⟩
    rintro ⟨blockNumber, origin, last⟩ hlast _ ⟨⟩
    obtain ⟨who, rfl⟩ := hcalls.signed _ (List.mem_of_getLast? hlast)
    rw [lastClaim, hlast] at haccepts
    cases last with
    | createClaim proof =>
        cases haccepts with
        | revoke => exact ⟨who, rfl, rfl⟩
    | revokeClaim proof =>
        cases haccepts with
        | create => trivial

/-- A history that ends with a creation ends with a claim, that of its signer. -/
theorem lastClaim_of_create {calls : List (Execution AccountId BlockNumber)}
    (hcalls : Alternating calls) {last : Execution AccountId BlockNumber}
    (hlast : calls.getLast? = some last) {proof : Proof}
    (hcreate : last.call = .createClaim proof) :
    ∃ who, last.origin = .signed who ∧ lastClaim calls = some (who, last.blockNumber) := by
  obtain ⟨who, hsigned⟩ := hcalls.signed last (List.mem_of_getLast? hlast)
  obtain ⟨blockNumber, origin, call⟩ := last
  cases hsigned
  cases hcreate
  exact ⟨who, rfl, by rw [lastClaim, hlast]⟩

theorem create_of_lastClaim {calls : List (Execution AccountId BlockNumber)}
    {claim : AccountId × BlockNumber} (hclaim : lastClaim calls = some claim) :
    ∃ last proof, calls.getLast? = some last ∧ last.call = .createClaim proof := by
  unfold lastClaim at hclaim
  split at hclaim
  next hlast => exact ⟨_, _, hlast, rfl⟩
  next => cases hclaim

end Alternation

/-- The history of a proof alternates, and the entry of the proof is the claim
it ends with. -/
theorem history_invariant (executions : List (Execution AccountId BlockNumber)) (proof : Proof) :
    Alternating (history executions proof) ∧
      (run dispatch emptyChain executions).store.proofs.tryGet proof =
        lastClaim (history executions proof) := by
  -- Histories grow at the right end, so the induction runs from the right.
  induction executions using List.reverseRecOn with
  | nil => exact ⟨⟨by simp [history, succeeded], by simp [history, succeeded],
      List.isChain_nil⟩, StorageMap.tryGet_empty proof⟩
  | append_singleton done execution ih =>
      obtain ⟨halternating, hentry⟩ := ih
      have hhistory : history (done ++ [execution]) proof = history done proof ++
          (succeeded dispatch (run dispatch emptyChain done) [execution]).filter
            fun execution => execution.call.proof = proof := by
        rw [history, succeeded_append, List.filter_append]
        rfl
      rw [hhistory, run_concat, succeeded]
      obtain ⟨error, hexec⟩ | ⟨next, hexec, haccepts, hother⟩ :=
        dispatch_cases execution (run dispatch emptyChain done)
      · rw [hexec]
        simpa [succeeded] using ⟨halternating, hentry⟩
      · rw [hexec]
        -- a call on another proof neither enters the history nor touches the entry
        by_cases hproof : execution.call.proof = proof
        · rw [hproof, hentry] at haccepts
          simp only [succeeded, List.filter_cons, hproof, decide_true, if_true, List.filter_nil]
          exact ⟨halternating.concat haccepts, (lastClaim_concat haccepts).symm⟩
        · simp only [succeeded, List.filter_cons, hproof, decide_false, List.filter_nil,
            Bool.false_eq_true, if_false, List.append_nil]
          exact ⟨halternating, (hother proof (Ne.symm hproof)).trans hentry⟩

theorem exec_of_error {execution : Execution AccountId BlockNumber}
    {chain : Chain AccountId BlockNumber} {error : DispatchError Error}
    (h : ((dispatch execution).exec chain).1 = .error error) :
    ((dispatch execution).exec chain).2 = chain := by
  obtain ⟨error, hexec⟩ | ⟨next, hexec, -⟩ := dispatch_cases execution chain
  · rw [hexec]
  · rw [hexec] at h
    cases h

/-- On every proof creations and revocations alternate, each revocation signed
by the signer of the creation before it. The proof has an entry exactly when
the last of them is a creation, and the entry is that creation's. A failing call
changes nothing. The numbers of the blocks play no role in this, so it holds
whether or not they increase. -/
theorem claim_history (executions : List (Execution AccountId BlockNumber)) (proof : Proof) :
    let entries := (run dispatch emptyChain executions).store.proofs
    Alternating (history executions proof) ∧
      (entries.containsKey proof = true ↔
        ∃ last, (history executions proof).getLast? = some last ∧
          last.call = .createClaim proof) ∧
      (∀ last, (history executions proof).getLast? = some last →
        last.call = .createClaim proof →
          ∃ who, last.origin = .signed who ∧
            entries.tryGet proof = some (who, last.blockNumber)) ∧
      ∀ (chain : Chain AccountId BlockNumber) execution error,
        ((dispatch execution).exec chain).1 = .error error →
          ((dispatch execution).exec chain).2 = chain := by
  obtain ⟨halternating, hentry⟩ := history_invariant executions proof
  refine ⟨halternating, ?_, ?_, fun _ _ _ => exec_of_error⟩
  · rw [StorageMap.containsKey_eq_true_iff, hentry]
    constructor
    · intro hpresent
      obtain ⟨claim, hclaim⟩ := hpresent
      obtain ⟨last, claimed, hlast, hcreate⟩ := create_of_lastClaim hclaim
      have hon := (List.mem_filter.mp (List.mem_of_getLast? hlast)).2
      rw [decide_eq_true_eq, hcreate] at hon
      exact ⟨last, hlast, hcreate.trans (congrArg Call.createClaim hon)⟩
    · intro hends
      obtain ⟨last, hlast, hcreate⟩ := hends
      obtain ⟨who, -, hclaim⟩ := lastClaim_of_create halternating hlast hcreate
      exact ⟨_, hclaim⟩
  · intro last hlast hcreate
    obtain ⟨who, hsigned, hclaim⟩ := lastClaim_of_create halternating hlast hcreate
    exact ⟨who, hsigned, hentry.trans hclaim⟩

end SupraClient.ProofOfExistence
