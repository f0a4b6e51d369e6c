import SupraClient.Scale.Codec

/-! # Validity of transactions

Before a transaction is dispatched it is validated. A valid transaction comes
with what the transaction pool has to know: its priority, the tags it needs and
the tags it provides, and for how many blocks it stays valid.
-/

namespace Frame

open Scale

inductive InvalidTransaction where
  /-- The call of the transaction is not expected. -/
  | call
  deriving DecidableEq

inductive TransactionValidityError where
  | invalid (reason : InvalidTransaction)
  deriving DecidableEq

/-- A tag is the encoding of whatever a transaction stands for. -/
abbrev Tag := Bytes

structure ValidTransaction where
  priority : UInt64
  requires : List Tag
  provides : List Tag
  /-- The number of blocks for which the transaction stays valid. -/
  longevity : UInt64
  propagate : Bool
  deriving DecidableEq

structure ValidTransactionBuilder where
  tagPrefix : Option ByteVec
  validity : ValidTransaction

namespace ValidTransactionBuilder

def withTagPrefix (tagPrefix : ByteVec) : ValidTransactionBuilder where
  tagPrefix := some tagPrefix
  validity :=
    { priority := 0
      requires := []
      provides := []
      longevity := UInt64.ofNat (2 ^ 64 - 1)
      propagate := true }

variable (builder : ValidTransactionBuilder)

def priority (priority : UInt64) : ValidTransactionBuilder :=
  { builder with validity := { builder.validity with priority } }

/-- Provide a tag, which is encoded behind the common one. -/
def andProvides (tag : Bytes) : ValidTransactionBuilder :=
  let encoded :=
    match builder.tagPrefix with
    | some tagPrefix => byteVec.encode tagPrefix ++ tag
    | none => tag
  { builder with
    validity := { builder.validity with provides := builder.validity.provides ++ [encoded] } }

def longevity (longevity : UInt64) : ValidTransactionBuilder :=
  { builder with validity := { builder.validity with longevity } }

def propagate (propagate : Bool) : ValidTransactionBuilder :=
  { builder with validity := { builder.validity with propagate } }

def build : ValidTransaction := builder.validity

end ValidTransactionBuilder

end Frame
