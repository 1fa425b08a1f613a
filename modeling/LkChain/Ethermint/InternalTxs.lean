import LkChain.Ethereum.State

/-!
# Internal transactions

`txmgr/types`: the calls and self-destructions inside a transaction, as they are recorded. The
interpreter fills in a record and puts it into a batch, which stamps it with a running index and the
number of the block.
-/

namespace LkChain.Ethermint.InternalTxs

open Ethereum.State (Address Bytes Hash)

inductive RecordType where
  | contractTx
  | suicideTx
deriving DecidableEq

/-- The constants `ContractTxType` and `SuicideTxType`. -/
def RecordType.text : RecordType → String
  | .contractTx => "ct"
  | .suicideTx => "st"

/-- `ContractTransaction`, without the fields that `Put` sets. -/
structure ContractTransaction where
  txHash : Hash
  sender : Address
  recipient : Address
  value : Option ℤ
deriving DecidableEq

/-- `SuicideTransaction`, without the fields that `Put` sets. -/
structure SuicideTransaction where
  txHash : Hash
  sender : Address
  recipient : Address
  target : Address
  value : Option ℤ
deriving DecidableEq

inductive Payload where
  | contractTx (ctx : ContractTransaction)
  | suicideTx (stx : SuicideTransaction)
deriving DecidableEq

def Payload.type : Payload → RecordType
  | .contractTx _ => .contractTx
  | .suicideTx _ => .suicideTx

def Payload.txHash : Payload → Hash
  | .contractTx ctx => ctx.txHash
  | .suicideTx stx => stx.txHash

/-- `LKTransaction` for the internal transactions, with the fields that `Put` sets. -/
structure LKTransaction where
  payload : Payload
  sign : String
  index : ℕ
  blockNum : Option ℤ
deriving DecidableEq

/-- `Hash`: it depends on the index, and not on the number of the block. -/
def LKTransaction.hash (jsonHash : Payload → ℕ → Bytes) (lkx : LKTransaction) : Bytes :=
  jsonHash lkx.payload lkx.index

end LkChain.Ethermint.InternalTxs
