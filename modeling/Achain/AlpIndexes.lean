import Achain.Primitives
import Achain.Lib.KeySet
import Mathlib.Order.Fin.Basic

/-!
# The ALP indexes

The deposits to ALP accounts, kept by account in `_alp_input_balance_entry`, as a set ordered by the block
number alone, and in `_alp_full_entry`, as the set of the transaction ids and a multimap by block number.
-/

namespace Achain

open Table ByKey

/-- A `uint32_t`. -/
abbrev BlockNum := Fin (2 ^ 32)

structure AlpTrxidBalance where
  alpAccount : Str
  blockNum : BlockNum
  trxId : TransactionIdType
  assetTrx : Asset
  fromAccount : Str
  createTime : TimePointSec
  deriving DecidableEq

@[ext] structure AlpBalanceEntry where
  alpTrxidSort : Finset TransactionIdType
  alpBlockSort : KeyMultiset AlpTrxidBalance.blockNum

namespace AlpBalanceEntry

def empty : AlpBalanceEntry := ⟨∅, .empty⟩

def insert (r : AlpTrxidBalance) (e : AlpBalanceEntry) : AlpBalanceEntry where
  alpTrxidSort := Insert.insert r.trxId e.alpTrxidSort
  alpBlockSort := e.alpBlockSort.insert r

/-- The loop stops at the first record of another block. -/
def erase (r : AlpTrxidBalance) (e : AlpBalanceEntry) : AlpBalanceEntry where
  alpTrxidSort := e.alpTrxidSort.erase r.trxId
  alpBlockSort := e.alpBlockSort.erase r.blockNum fun r' => r'.trxId == r.trxId

end AlpBalanceEntry

structure AlpIndexes where
  alpInputBalanceEntry : Map Str (KeySet AlpTrxidBalance.blockNum)
  alpFullEntry : Map Str AlpBalanceEntry

namespace AlpIndexes

variable (db : AlpIndexes) (alpAccount : Str) (r : AlpTrxidBalance)

def empty : AlpIndexes := ⟨∅, ∅⟩

/-- `transaction_insert_to_alp_balance`. -/
def transactionInsertToAlpBalance : AlpIndexes :=
  let ids := (db.alpInputBalanceEntry.lookup alpAccount).getD .empty
  { db with alpInputBalanceEntry := db.alpInputBalanceEntry.insert alpAccount (ids.insert r) }

/-- `transaction_erase_from_alp_balance`. -/
def transactionEraseFromAlpBalance : AlpIndexes :=
  match db.alpInputBalanceEntry.lookup alpAccount with
  | none => db
  | some ids =>
    let ids := ids.erase r.blockNum
    if ids.entries = [] then
      { db with alpInputBalanceEntry := db.alpInputBalanceEntry.erase alpAccount }
    else { db with alpInputBalanceEntry := db.alpInputBalanceEntry.insert alpAccount ids }

/-- `transaction_insert_to_alp_full_entry`. -/
def transactionInsertToAlpFullEntry : AlpIndexes :=
  let alpentrys := (db.alpFullEntry.lookup alpAccount).getD .empty
  if r.trxId ∈ alpentrys.alpTrxidSort then db
  else { db with alpFullEntry := db.alpFullEntry.insert alpAccount (alpentrys.insert r) }

/-- `transaction_erase_from_alp_full_entry`. -/
def transactionEraseFromAlpFullEntry : AlpIndexes :=
  match db.alpFullEntry.lookup alpAccount with
  | none => db
  | some alpentrys =>
    let alpentrys := alpentrys.erase r
    if alpentrys.alpBlockSort.entries = [] then
      { db with alpFullEntry := db.alpFullEntry.erase alpAccount }
    else { db with alpFullEntry := db.alpFullEntry.insert alpAccount alpentrys }

/-- `fetch_alp_input_balance`, from the block behind on. -/
def fetchAlpInputBalance (order : HashOrder) (blockNum : BlockNum) : List AlpTrxidBalance :=
  (order.order db.alpInputBalanceEntry.entries).flatMap fun e => e.2.lowerBound (blockNum + 1)

end AlpIndexes

/-- The calls that change the indexes. -/
inductive AlpCall where
  | insertToBalance (alpAccount : Str) (r : AlpTrxidBalance)
  | eraseFromBalance (alpAccount : Str) (r : AlpTrxidBalance)
  | insertToFullEntry (alpAccount : Str) (r : AlpTrxidBalance)
  | eraseFromFullEntry (alpAccount : Str) (r : AlpTrxidBalance)

namespace AlpIndexes

def step (db : AlpIndexes) : AlpCall → AlpIndexes
  | .insertToBalance alpAccount r => db.transactionInsertToAlpBalance alpAccount r
  | .eraseFromBalance alpAccount r => db.transactionEraseFromAlpBalance alpAccount r
  | .insertToFullEntry alpAccount r => db.transactionInsertToAlpFullEntry alpAccount r
  | .eraseFromFullEntry alpAccount r => db.transactionEraseFromAlpFullEntry alpAccount r

end AlpIndexes

end Achain
