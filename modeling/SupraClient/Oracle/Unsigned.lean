import SupraClient.Frame.Validity
import SupraClient.Oracle.Pallet

/-! # Validation of unsigned calls

Workers have no account to sign with, so they submit prices in unsigned
transactions. The pallet validates those itself: submissions of a price are
valid, whatever the price, and all of them provide one and the same tag.
-/

namespace SupraClient.Oracle

open Frame Scale

def unsignedTxsPriority : UInt64 := 100

def tagPrefix : ByteVec := ⟨bytesOf "ocw-demo", by decide⟩

/-- The validity of a transaction that provides a tag. -/
def validTx (provide : ByteVec) : ValidTransaction :=
  (ValidTransactionBuilder.withTagPrefix tagPrefix)
    |>.priority unsignedTxsPriority
    |>.andProvides (byteVec.encode provide)
    |>.longevity 3
    |>.propagate true
    |>.build

def validateUnsigned : Call → Except TransactionValidityError ValidTransaction
  | .submitEthereumPrice _ => .ok (validTx submitName)
  | _ => .error (.invalid .call)

/-- The tag that every submission of a price provides. -/
def submissionTag : Tag := byteVec.encode tagPrefix ++ byteVec.encode submitName

end SupraClient.Oracle
