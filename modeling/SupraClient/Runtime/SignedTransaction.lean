import Mathlib.Data.UInt
import SupraClient.Mortality.Era

/-! # Signed transactions of off-chain workers

The runtime signs transactions on behalf of off-chain workers, with a mortal era
that begins at the parent of the current block. The signature covers the hash of
the block the era begins at, so a transaction can be checked only as long as the
system pallet has that hash. It keeps hashes for a fixed number of blocks, which
the runtime also asks for as the length of the era; but lengths of eras are
rounded up.
-/

namespace SupraClient.Runtime

open Mortality

abbrev BlockNumber := UInt32

abbrev Index := UInt32

def blockHashCount : BlockNumber := 2400

/-- The signed extensions that carry data: the era, the nonce and the tip. -/
structure SignedExtra where
  checkEra : Era
  checkNonce : Index
  chargeTransactionPayment : ℕ
  deriving DecidableEq

section Create

variable {Call AccountId Public Signature Additional : Type}
  (additionalSigned : SignedExtra → Option Additional)
  (sign : Call × SignedExtra × Additional → Public → Option Signature)

/-- `create_transaction` at a block number. It fails if the extensions have no
additional data to be signed, or if there is no key to sign with. -/
def createTransaction (blockNumber : BlockNumber) (call : Call) (signer : Public)
    (account : AccountId) (index : Index) :
    Option (Call × AccountId × Signature × SignedExtra) := do
  let period := blockHashCount.toNat
  let currentBlock := blockNumber.toNat - 1
  let tip := 0
  let extra : SignedExtra :=
    { checkEra := Era.mortal period currentBlock
      checkNonce := index
      chargeTransactionPayment := tip }
  let additional ← additionalSigned extra
  let signature ← sign (call, extra, additional) signer
  return (call, account, signature, extra)

theorem checkEra_of_createTransaction {blockNumber : BlockNumber} {call : Call} {signer : Public}
    {account : AccountId} {index : Index}
    {transaction : Call × AccountId × Signature × SignedExtra}
    (hcreate : createTransaction additionalSigned sign blockNumber call signer account index =
      some transaction) :
    transaction.2.2.2.checkEra = Era.mortal blockHashCount.toNat (blockNumber.toNat - 1) := by
  simp only [createTransaction, Option.bind_eq_bind, Option.bind_eq_some_iff] at hcreate
  obtain ⟨additional, -, signature, -, hreturn⟩ := hcreate
  cases hreturn
  rfl

end Create

/-! ## Block hashes -/

/-- The blocks whose hashes the system pallet has while a block is executed. It
inserts the hash of the parent when it initializes a block, and when it finalizes
one it removes the hash that is `blockHashCount` blocks older than the parent. -/
def keptHashes (block : ℕ) : Finset ℕ := knownHashes blockHashCount.toNat block

theorem roundPeriod_blockHashCount : roundPeriod blockHashCount.toNat = 4096 := by
  decide +kernel

theorem birth_createTransaction (currentBlock : ℕ) :
    (Era.mortal blockHashCount.toNat currentBlock).birth currentBlock = currentBlock :=
  Era.birth_mortal (by rw [roundPeriod_blockHashCount]; decide) currentBlock

/-- At a later block the era of a signed transaction is alive for 4096 blocks, but
the hash of its first block can be looked up only up to `blockHashCount + 1`
blocks after it, unless it is the first block of the chain. The extension that
looks it up computes the birth of the era anew, from the block it runs in, and
finds the one that was signed. -/
theorem birth_mem_keptHashes_iff {Call AccountId Public Signature Additional : Type}
    (additionalSigned : SignedExtra → Option Additional)
    (sign : Call × SignedExtra × Additional → Public → Option Signature)
    (blockNumber : BlockNumber) (call : Call) (signer : Public) (account : AccountId)
    (index : Index) (transaction : Call × AccountId × Signature × SignedExtra)
    (hcreate : createTransaction additionalSigned sign blockNumber call signer account index =
      some transaction)
    (block : ℕ) (hlater : blockNumber.toNat < block)
    (halive : transaction.2.2.2.checkEra.AliveAt (blockNumber.toNat - 1) block) :
    let era := transaction.2.2.2.checkEra
    era.birth block = era.birth (blockNumber.toNat - 1) ∧
      (era.birth block ∈ keptHashes block ↔ blockNumber.toNat - 1 = 0 ∨
        block ≤ (blockNumber.toNat - 1) + blockHashCount.toNat + 1) := by
  intro era
  have hera : era = Era.mortal blockHashCount.toNat (blockNumber.toNat - 1) :=
    checkEra_of_createTransaction additionalSigned sign hcreate
  have hsame : era.birth block = era.birth (blockNumber.toNat - 1) :=
    era.birth_eq_of_aliveAt halive
  have hbirth : era.birth (blockNumber.toNat - 1) = blockNumber.toNat - 1 := by
    rw [hera, birth_createTransaction]
  refine ⟨hsame, ?_⟩
  rw [hsame, hbirth, keptHashes, mem_knownHashes_iff]
  omega

/-- A transaction made at block 1000 and checked at block 1500. -/
theorem birth_mem_keptHashes_early :
    (Era.mortal blockHashCount.toNat 999).birth 1500 ∈ keptHashes 1500 := by
  have hcreate : createTransaction (fun _ => some ()) (fun _ _ => some ()) 1000 () () () 0 =
      some ((), (), (), ⟨Era.mortal blockHashCount.toNat 999, 0, 0⟩) := rfl
  have halive : (Era.mortal blockHashCount.toNat 999).AliveAt 999 1500 := by decide +kernel
  have hkept :=
    (birth_mem_keptHashes_iff _ _ 1000 () () () 0 _ hcreate 1500 (by decide) halive).2
  rw [hkept]
  exact Or.inr (by decide)

/-- A transaction made at block 1000 is alive until block 5094. The hash it was
signed with, that of block 999, is there up to block 3400 and not at block 5000. -/
theorem birth_not_mem_keptHashes_late :
    (createTransaction (fun _ => some ()) (fun _ _ => some ()) 1000 () () () 0 =
        some ((), (), (), ⟨Era.mortal blockHashCount.toNat 999, 0, 0⟩)) ∧
      (Era.mortal blockHashCount.toNat 999).AliveAt 999 5000 ∧
      (Era.mortal blockHashCount.toNat 999).birth 5000 = 999 ∧ 999 ∉ keptHashes 5000 := by
  refine ⟨rfl, by decide +kernel, by decide +kernel, ?_⟩
  rw [keptHashes, mem_knownHashes_iff]
  decide

end SupraClient.Runtime
