import SupraClient.Oracle.Index
import SupraClient.ProofOfExistence.History
import SupraClient.Runtime.Authority

/-! # Claims on the chain

The claim of a proof on the chain is the claim its signer made, in the block whose
number it carries, and nobody but the signer can take it away. This holds in every
valid chain of blocks, as long as the holder of the sudo key, who can act in the
name of anybody, stays out of it.
-/

namespace SupraClient.Runtime

open Frame Frame.Dispatch

variable {AccountId Other Storage : Type}

/-! ## Entries with an owner -/

/-- An entry is kept unless its owner signs something, and a new one was created. -/
structure Protects (created : AccountId → BlockNumber → Prop) (signs : AccountId → Prop)
    (before after : Option (AccountId × BlockNumber)) : Prop where
  keeps : ∀ who since, before = some (who, since) → ¬ signs who → after = some (who, since)
  source : ∀ who number, after = some (who, number) →
    before = some (who, number) ∨ created who number

theorem Protects.of_eq (created : AccountId → BlockNumber → Prop) (signs : AccountId → Prop)
    {before after : Option (AccountId × BlockNumber)} (heq : after = before) :
    Protects created signs before after :=
  ⟨fun _ _ hbefore _ => heq.trans hbefore, fun _ _ hafter => Or.inl (heq.symm.trans hafter)⟩

/-- If all steps of a run protect an entry, so does the run. What is created or
signed on the way is created or signed in one of the steps. -/
theorem foldlM_protects {Current Command : Type} {step : Current → Command → Option Current}
    (entry : Current → Option (AccountId × BlockNumber)) (kept : Current → Prop)
    (allowed : Command → Prop) {created : Command → AccountId → BlockNumber → Prop}
    {signs : Command → AccountId → Prop}
    (hstep : ∀ state command next, step state command = some next → allowed command →
      kept state → kept next ∧
        Protects (created command) (signs command) (entry state) (entry next))
    {state final : Current} {commands : List Command}
    (hallowed : ∀ command ∈ commands, allowed command) (hstate : kept state)
    (hrun : commands.foldlM step state = some final) :
    Protects (fun who number => ∃ command ∈ commands, created command who number)
      (fun who => ∃ command ∈ commands, signs command who) (entry state) (entry final) := by
  induction commands generalizing state with
  | nil =>
      cases hrun
      exact .of_eq _ _ rfl
  | cons command rest ih =>
      obtain ⟨next, hnext, hrest⟩ := foldlM_cons_eq_some_iff.mp hrun
      obtain ⟨hcommand, hothers⟩ := List.forall_mem_cons.mp hallowed
      obtain ⟨hkept, hfirst⟩ := hstep state command next hnext hcommand hstate
      have hlater := ih hothers hkept hrest
      refine ⟨fun who since hbefore hsigns => ?_, fun who number hafter => ?_⟩
      · refine hlater.keeps who since (hfirst.keeps who since hbefore fun hhead => ?_) ?_
        · exact hsigns ⟨command, List.mem_cons_self, hhead⟩
        · rintro ⟨other, hother, hsigned⟩
          exact hsigns ⟨other, List.mem_cons_of_mem _ hother, hsigned⟩
      · rcases hlater.source who number hafter with hmiddle | ⟨other, hother, hcreated⟩
        · exact (hfirst.source who number hmiddle).imp_right fun hcreated =>
            ⟨command, List.mem_cons_self, hcreated⟩
        · exact Or.inr ⟨other, List.mem_cons_of_mem _ hother, hcreated⟩

/-! ## Steps of the runtime -/

/-- The claim of a proof. -/
def State.claim (state : State AccountId Storage) (proof : ProofOfExistence.Proof) :
    Option (AccountId × BlockNumber) :=
  state.templateModule.store.proofs.tryGet proof

/-- The extrinsic of somebody who claims a proof. -/
def CheckedExtrinsic.Claims (extrinsic : CheckedExtrinsic AccountId Other)
    (proof : ProofOfExistence.Proof) (who : AccountId) : Prop :=
  extrinsic.origin = .signed who ∧
    extrinsic.function = .pallet (.templateModule (.createClaim proof))

variable [DecidableEq AccountId] [Inhabited AccountId]
  {framework : Framework AccountId Other Storage}

theorem blockNumber_executeExtrinsic {state next : State AccountId Storage}
    {extrinsic : CheckedExtrinsic AccountId Other}
    (hnext : executeExtrinsic framework state extrinsic = some next)
    (hkey : extrinsic.origin ≠ .signed state.key) : next.blockNumber = state.blockNumber := by
  have hview := lightClientComponent.view_executeExtrinsic hnext (not_disturbs_of_ne hkey)
  rw [State.blockNumber, State.blockNumber]
  exact (congrArg (fun chain => chain.store.blockNumber) hview).trans
    (Oracle.run_blockNumber state.lightClient _)

omit [DecidableEq AccountId] [Inhabited AccountId] in
theorem protects_of_accepts {execution : ProofOfExistence.Execution AccountId BlockNumber}
    {before after : Option (AccountId × BlockNumber)}
    (haccepts : ProofOfExistence.Accepts execution before after) :
    Protects
      (fun who number => execution = ⟨number, .signed who, .createClaim execution.call.proof⟩)
      (fun who => execution.origin = .signed who) before after := by
  cases haccepts with
  | create =>
      refine ⟨fun who since hbefore => (by cases hbefore), fun who number hafter => Or.inr ?_⟩
      cases hafter
      rfl
  | revoke =>
      refine ⟨fun who since hbefore hsigns => ?_, fun who number hafter => (by cases hafter)⟩
      cases hbefore
      exact absurd rfl hsigns

/-- A call of the pallet protects the claims of all proofs. -/
theorem protects_dispatch (execution : ProofOfExistence.Execution AccountId BlockNumber)
    (chain : ProofOfExistence.Chain AccountId BlockNumber) (proof : ProofOfExistence.Proof) :
    Protects
      (fun who number => execution = ⟨number, .signed who, .createClaim proof⟩)
      (fun who => execution.origin = .signed who)
      (chain.store.proofs.tryGet proof)
      (((ProofOfExistence.dispatch execution).exec chain).2.store.proofs.tryGet proof) := by
  obtain ⟨error, hexec⟩ | ⟨next, hexec, haccepts, hother⟩ :=
    ProofOfExistence.dispatch_cases execution chain
  · rw [hexec]
    exact .of_eq _ _ rfl
  · rw [hexec]
    by_cases hproof : proof = execution.call.proof
    · subst hproof
      exact protects_of_accepts haccepts
    · exact .of_eq _ _ (hother proof hproof)

/-- An extrinsic of anybody but the key holder protects the claims of all proofs. -/
theorem protects_executeExtrinsic {state next : State AccountId Storage}
    {extrinsic : CheckedExtrinsic AccountId Other}
    (hnext : executeExtrinsic framework state extrinsic = some next)
    (hkey : extrinsic.origin ≠ .signed state.key) (proof : ProofOfExistence.Proof) :
    Protects (fun who number => number = state.blockNumber ∧ extrinsic.Claims proof who)
      (fun who => extrinsic.origin = .signed who) (state.claim proof) (next.claim proof) := by
  have hview := templateModuleComponent.view_executeExtrinsic hnext (not_disturbs_of_ne hkey)
  have hnothing : templateModuleComponent.reached state extrinsic = [] →
      Protects (fun who number => number = state.blockNumber ∧ extrinsic.Claims proof who)
        (fun who => extrinsic.origin = .signed who) (state.claim proof) (next.claim proof) := by
    intro hreached
    rw [hreached] at hview
    refine .of_eq _ _ ?_
    rw [State.claim, State.claim]
    exact congrArg (fun chain => chain.store.proofs.tryGet proof) hview
  rw [Component.reached] at hview hnothing
  obtain ⟨inner, hinner, heffect⟩ | ⟨inner, heffect⟩ | heffect :=
    effect_of_ne hkey extrinsic.function
  · rw [heffect] at hview hnothing
    cases inner with
    | lightClient call => exact hnothing rfl
    | supraAuthorization call => exact hnothing rfl
    | templateModule call =>
        have hprotects := protects_dispatch ⟨state.blockNumber, extrinsic.origin, call⟩
          state.templateModule proof
        have hclaim : next.claim proof = ((ProofOfExistence.dispatch ⟨state.blockNumber,
            extrinsic.origin, call⟩).exec state.templateModule).2.store.proofs.tryGet proof :=
          congrArg (fun chain => chain.store.proofs.tryGet proof) hview
        rw [← hclaim] at hprotects
        refine ⟨hprotects.keeps, fun who number hafter => ?_⟩
        refine (hprotects.source who number hafter).imp_right fun hcreated => ?_
        obtain ⟨hnumber, horigin, rfl⟩ := ProofOfExistence.Execution.mk.inj hcreated
        exact ⟨hnumber.symm, horigin, hinner⟩
  · rw [heffect] at hnothing
    exact hnothing rfl
  · rw [heffect] at hnothing
    exact hnothing rfl

theorem protects_executeBlock {key : AccountId} {state next : State AccountId Storage}
    {block : Block AccountId Other} (hnext : executeBlock framework state block = some next)
    (hkey : ∀ extrinsic ∈ block.extrinsics, extrinsic.origin ≠ .signed key)
    (hstate : state.key = key) (proof : ProofOfExistence.Proof) :
    Protects
      (fun who number => ∃ extrinsic ∈ block.extrinsics,
        number = block.number ∧ extrinsic.Claims proof who)
      (fun who => ∃ extrinsic ∈ block.extrinsics, extrinsic.origin = .signed who)
      (state.claim proof) (next.claim proof) := by
  -- the number of the current block is that of the block all the way
  have hstep : ∀ (current : State AccountId Storage) extrinsic after,
      executeExtrinsic framework current extrinsic = some after →
      extrinsic.origin ≠ .signed key → current.key = key ∧ current.blockNumber = block.number →
      (after.key = key ∧ after.blockNumber = block.number) ∧
        Protects (fun who number => number = block.number ∧ extrinsic.Claims proof who)
          (fun who => extrinsic.origin = .signed who) (current.claim proof)
          (after.claim proof) := by
    rintro current extrinsic after hafter hne ⟨rfl, hnumber⟩
    refine ⟨⟨key_executeExtrinsic hafter hne,
      (blockNumber_executeExtrinsic hafter hne).trans hnumber⟩, ?_⟩
    rw [← hnumber]
    exact protects_executeExtrinsic hafter hne proof
  have hinitial : (initializeBlock framework state block.number).key = key ∧
      (initializeBlock framework state block.number).blockNumber = block.number := ⟨hstate, rfl⟩
  obtain ⟨last, hlast, rfl⟩ := foldlM_of_executeBlock hnext
  have hprotects := foldlM_protects (fun current => State.claim current proof) _ _ hstep hkey
    hinitial hlast
  exact hprotects

/-- As long as the holder of the sudo key signs nothing, nobody can take a claim
away from an account that signs nothing either. And every claim that was not there
before was made by an extrinsic of the account it names, in the block whose number
it carries. -/
theorem claims_without_key_holder (framework : Framework AccountId Other Storage)
    (state final : State AccountId Storage) (chain : List (Block AccountId Other))
    (hrun : executeBlocks framework state chain = some final)
    (hkey : AllExtrinsics (fun extrinsic => extrinsic.origin ≠ .signed state.key) chain)
    (proof : ProofOfExistence.Proof) :
    (∀ who since, state.claim proof = some (who, since) →
        AllExtrinsics (fun extrinsic => extrinsic.origin ≠ .signed who) chain →
        final.claim proof = some (who, since)) ∧
      ∀ who number, final.claim proof = some (who, number) →
        state.claim proof = some (who, number) ∨
          ∃ block ∈ chain, ∃ extrinsic ∈ block.extrinsics,
            number = block.number ∧ extrinsic.Claims proof who := by
  have hprotects := foldlM_protects (fun current => State.claim current proof)
    (fun current => current.key = state.key) _
    (fun current block next hnext hblock hcurrent =>
      ⟨key_executeBlock current block next hnext hblock hcurrent,
        protects_executeBlock hnext hblock hcurrent proof⟩) hkey rfl hrun
  refine ⟨fun who since hbefore hsigner => hprotects.keeps who since hbefore ?_, hprotects.source⟩
  rintro ⟨block, hblock, extrinsic, hextrinsic, hsigned⟩
  exact hsigner block hblock extrinsic hextrinsic hsigned

/-- A claim made in block 1 and a stranger who tries to revoke it and to make it
again in block 2. -/
theorem claims_without_key_holder_of_stranger :
    let framework := Framework.bare ℕ
    let revoke := Call.pallet (.templateModule (.revokeClaim [1]))
    let create := Call.pallet (.templateModule (.createClaim [1]))
    let first : Block ℕ Unit := ⟨1, [.ofSigner 3 0 create]⟩
    let second : Block ℕ Unit := ⟨2, [.ofSigner 5 0 revoke, .ofSigner 5 1 create]⟩
    ∃ state final, executeBlocks framework (genesis framework 7 []) [first] = some state ∧
      executeBlocks framework state [second] = some final ∧ final.claim [1] = some (3, 1) := by
  intro framework revoke create first second
  have hsome : (executeBlocks framework (genesis framework 7 []) [first]).isSome = true := rfl
  obtain ⟨state, hstate⟩ := Option.isSome_iff_exists.mp hsome
  have hclaim : state.claim [1] = some (3, 1) ∧ state.key = 7 ∧
      (executeBlocks framework state [second]).isSome = true := by
    cases hstate
    exact ⟨rfl, rfl, rfl⟩
  obtain ⟨hclaim, hkey, hsome'⟩ := hclaim
  obtain ⟨final, hfinal⟩ := Option.isSome_iff_exists.mp hsome'
  have hsigner : ∀ who, who ≠ 5 →
      AllExtrinsics (fun extrinsic => extrinsic.origin ≠ .signed who) [second] := by
    intro who hwho
    simp [AllExtrinsics, second, CheckedExtrinsic.ofSigner, CheckedExtrinsic.origin, hwho.symm]
  exact ⟨state, final, hstate, hfinal, (claims_without_key_holder framework state final [second]
    hfinal (hkey ▸ hsigner 7 (by decide)) [1]).1 3 1 hclaim (hsigner 3 (by decide))⟩

end SupraClient.Runtime
