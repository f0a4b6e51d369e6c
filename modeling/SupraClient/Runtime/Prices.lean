import SupraClient.Runtime.Projection

/-! # Prices on the chain

Unsigned extrinsics can submit prices, and every price event of the chain goes back
to one of them: no account, not even the holder of the sudo key, can submit a price
in any other way.
-/

namespace SupraClient.Runtime

open Frame Frame.Dispatch

variable {AccountId Other Storage : Type}

/-! ## Submissions -/

/-- The prices among the events of the oracle pallet. -/
def prices (chain : Oracle.Chain AccountId) : List Scale.ByteVec :=
  chain.events.filterMap fun event =>
    match event with
    | .submitEthereumPrice _ price => some price
    | .updateEthereumPrice _ => none

/-- The price in a call of the oracle pallet that submits one. -/
def submitted : Oracle.Extrinsic AccountId → List Scale.ByteVec
  | (.none, .submitEthereumPrice price) => [price]
  | _ => []

/-- The price in an unsigned submission. -/
def CheckedExtrinsic.submission (extrinsic : CheckedExtrinsic AccountId Other) :
    List Scale.ByteVec :=
  match extrinsic.signed, extrinsic.function with
  | none, .pallet (.lightClient (.submitEthereumPrice price)) => [price]
  | _, _ => []

/-- The prices in the unsigned submissions of a block, in their order. -/
def Block.submissions (block : Block AccountId Other) : List Scale.ByteVec :=
  block.extrinsics.flatMap CheckedExtrinsic.submission

def submissionsOf (chain : List (Block AccountId Other)) : List Scale.ByteVec :=
  chain.flatMap Block.submissions

theorem prices_dispatch (extrinsic : Oracle.Extrinsic AccountId)
    (chain : Oracle.Chain AccountId) :
    prices (exec (Oracle.dispatch extrinsic) chain).2 = prices chain ++ submitted extrinsic := by
  obtain ⟨origin, call⟩ := extrinsic
  cases call with
  | submitEthereumPrice price =>
      cases origin with
      | none => exact List.filterMap_append
      | root => exact (List.append_nil _).symm
      | signed who => exact (List.append_nil _).symm
  | updateEthereumPrice ethHost fromAddress toAddress =>
      cases origin with
      | signed who => exact List.filterMap_append
      | root => exact (List.append_nil _).symm
      | none => exact (List.append_nil _).symm

theorem prices_run (extrinsics : List (Oracle.Extrinsic AccountId))
    (chain : Oracle.Chain AccountId) :
    prices (Dispatch.run Oracle.dispatch chain extrinsics) =
      prices chain ++ extrinsics.flatMap submitted := by
  induction extrinsics generalizing chain with
  | nil => exact (List.append_nil _).symm
  | cons extrinsic rest ih =>
      rw [run_cons, ih, prices_dispatch, List.append_assoc, List.flatMap_cons]

/-! ## Events -/

variable [DecidableEq AccountId]

/-- A call that has an origin at first never reaches a pallet without one. -/
theorem effect_ne_pallet_none (key : AccountId) {origin : RawOrigin AccountId}
    (horigin : origin ≠ .none) (call : Call AccountId Other) (inner : PalletCall AccountId) :
    effect key origin call ≠ .pallet .none inner := by
  induction call generalizing origin with
  | pallet call =>
      intro heq
      cases heq
      exact horigin rfl
  | framework call => simp [effect]
  | setKey new =>
      rw [effect]
      split <;> simp
  | sudoCall call ih | sudoUncheckedWeight call weight ih | sudoAs who call ih =>
      rw [effect]
      split
      · exact ih (by simp)
      · simp

variable [Inhabited AccountId]

theorem submitted_of_ne_none {key : AccountId} {origin : RawOrigin AccountId}
    (horigin : origin ≠ .none) (number : BlockNumber) (call : Call AccountId Other) :
    (lightClientComponent.commands number (effect key origin call)).flatMap submitted = [] := by
  have hnone := effect_ne_pallet_none key horigin call
  cases heffect : effect key origin call with
  | framework reached inner => rfl
  | setKey new => rfl
  | nothing => rfl
  | pallet reached inner =>
      rw [heffect] at hnone
      cases reached with
      | none => exact absurd rfl (hnone inner)
      | root | signed who =>
          cases inner with
          | templateModule call => rfl
          | supraAuthorization call => rfl
          | lightClient call => cases call <;> rfl

/-- The calls through which an extrinsic reaches the oracle pallet submit exactly
what the extrinsic submits itself, without a signature and without sudo. -/
theorem submitted_reached (state : State AccountId Storage)
    (extrinsic : CheckedExtrinsic AccountId Other) :
    (lightClientComponent.reached state extrinsic).flatMap submitted = extrinsic.submission := by
  obtain ⟨signature, call⟩ := extrinsic
  cases signature with
  | some signed => exact submitted_of_ne_none (by simp [CheckedExtrinsic.origin]) _ _
  | none =>
      cases call with
      | pallet inner =>
          cases inner with
          | templateModule call => rfl
          | supraAuthorization call => rfl
          | lightClient call => cases call <;> rfl
      | framework call => rfl
      | sudoCall call => rfl
      | sudoUncheckedWeight call weight => rfl
      | setKey new => rfl
      | sudoAs who call => rfl

variable {framework : Framework AccountId Other Storage}

theorem prices_executeExtrinsic (state : State AccountId Storage)
    (extrinsic : CheckedExtrinsic AccountId Other) (next : State AccountId Storage)
    (hnext : executeExtrinsic framework state extrinsic = some next)
    (heffect : ¬ framework.Disturbs (effect state.key extrinsic.origin extrinsic.function)) :
    prices next.lightClient = prices state.lightClient ++ extrinsic.submission := by
  have hview := lightClientComponent.view_executeExtrinsic hnext heffect
  rw [← submitted_reached state]
  exact (congrArg prices hview).trans (prices_run _ _)

theorem prices_of_executeBlocks {state final : State AccountId Storage}
    {chain : List (Block AccountId Other)} (hrun : executeBlocks framework state chain = some final)
    (hundisturbed : Undisturbed framework state chain) :
    prices final.lightClient = prices state.lightClient ++ submissionsOf chain := by
  refine log_foldlM (fun current => prices current.lightClient) ?_ hundisturbed hrun
  intro current block next hnext hblock
  obtain ⟨last, hlast, rfl⟩ := foldlM_of_executeBlock hnext
  exact log_foldlM (fun current => prices current.lightClient) prices_executeExtrinsic hblock hlast

/-- The price events of a valid chain are those of its unsigned submissions, in
their order, and there are no others: a submission that is signed, dispatched as
root, or dispatched in the name of an account deposits nothing. The one exception
is a call of the framework that writes to any storage and takes effect as root. -/
theorem prices_eq_submissions (framework : Framework AccountId Other Storage)
    (state final : State AccountId Storage) (chain : List (Block AccountId Other))
    (hrun : executeBlocks framework state chain = some final)
    (hundisturbed : Undisturbed framework state chain) :
    prices final.lightClient = prices state.lightClient ++ submissionsOf chain :=
  prices_of_executeBlocks hrun hundisturbed

/-- Of four submissions, one signed, one unsigned and two through sudo, only the
unsigned one counts. -/
theorem prices_eq_submissions_of_four :
    let framework := Framework.bare ℕ
    let submit := Call.pallet (.lightClient (.submitEthereumPrice Oracle.submitName))
    let chain : List (Block ℕ Unit) := [⟨1, [⟨none, .framework ()⟩, .ofSigner 7 0 submit,
      ⟨none, submit⟩, .ofSigner 7 1 (.sudoCall submit),
      .ofSigner 7 2 (.sudoUncheckedWeight submit 0)]⟩]
    ∃ final, executeBlocks framework (genesis framework 7 []) chain = some final ∧
      prices final.lightClient = [Oracle.submitName] := by
  intro framework submit chain
  have hsome : (executeBlocks framework (genesis framework 7 []) chain).isSome = true := rfl
  obtain ⟨final, hfinal⟩ := Option.isSome_iff_exists.mp hsome
  exact ⟨final, hfinal,
    prices_eq_submissions framework _ _ _ hfinal (undisturbed_bare _ chain)⟩

end SupraClient.Runtime
