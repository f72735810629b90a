import HuaDB.Engine

/-!
`transaction/transaction_manager.cpp`, without the lock manager.
-/

namespace HuaDB

namespace TransactionManager

/-- `TransactionManager::SetNextXid` only ever raises the counter. -/
def setNextXid (txn : TransactionManager) (nextXid : Nat) : TransactionManager :=
  if nextXid > txn.nextXid then { txn with nextXid := nextXid } else txn

/-- `TransactionManager::Begin`; `next_xid_++` on an `std::atomic<uint32_t>`. -/
def begin (txn : TransactionManager) : Nat × TransactionManager :=
  let xid := txn.nextXid
  (xid, { txn with
    nextXid := (xid + 1) % 2 ^ 32
    xid2activeSet := txn.xid2activeSet.insert xid txn.xid2cid.keys
    xid2cid := txn.xid2cid.insert xid firstCid })

/-- `TransactionManager::Commit` and `TransactionManager::Rollback`, which
differ in their messages only. -/
def finish (txn : TransactionManager) (xid : Nat) (caller : String) :
    Except DbError TransactionManager :=
  if (txn.xid2cid.find? xid).isNone then
    .error (.dbException s!"xid{xid}not found in xid2cid_ in {caller}")
  else if (txn.xid2activeSet.find? xid).isNone then
    .error (.dbException s!"xid{xid}not found in xid2active_set_ in {caller}")
  else
    .ok { txn with
      xid2cid := txn.xid2cid.erase xid
      xid2activeSet := txn.xid2activeSet.erase xid }

def commit (txn : TransactionManager) (xid : Nat) : Except DbError TransactionManager :=
  txn.finish xid "Commit"

def rollback (txn : TransactionManager) (xid : Nat) : Except DbError TransactionManager :=
  txn.finish xid "Rollback"

/-- `TransactionManager::GetActiveTransactions`. -/
def getActiveTransactions (txn : TransactionManager) : List Nat := txn.xid2cid.keys

/-- `TransactionManager::GetSnapshot`. -/
def getSnapshot (txn : TransactionManager) (xid : Nat) : Except DbError (List Nat) :=
  match txn.xid2activeSet.find? xid with
  | none => .error (.dbException s!"xid{xid}not found in xid2active_set_ in GetSnapshot")
  | some active => .ok active

end TransactionManager

end HuaDB
