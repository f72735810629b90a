import HuaDB.LockManager
import HuaDB.Table
import HuaDB.TransactionManager

/-!
What statements run on: `table/table.cpp`, `table/table_scan.cpp`, the log chains
and the undo of `log/`, the transaction manager and the lock manager, over a page
store that returns the last content written.

The buffer pool, the files and the LSNs are left out. Of the log, the state keeps
what `LogManager::Rollback` reads of it: the records of each transaction of `att_`,
in the order in which their `prev_lsn` links lead through them. The loops of the
source take a bound on their rounds.
-/

namespace HuaDB

/-- What the source throws: its own exception, or one of the standard library. -/
inductive Exception where
  | dbException (message : String)
  | stdException (what : String)
deriving DecidableEq, Repr

/-- What stops an operation. The last two are not signalled by the source: an
access outside what a page holds, and a loop with more rounds than its bound. -/
inductive SqlError where
  | thrown (e : Exception)
  | memoryFault
  | divergence
deriving DecidableEq, Repr

/-- What a history records of the statements that ran. -/
inductive Event where
  /-- A scan by `xid` returned the version at `rid`, inserted by `xmin`. -/
  | read (xid : Nat) (oid : Nat) (rid : Rid) (xmin : Nat)
  /-- `Table::DeleteRecord` by `xid`, of a DELETE or of an UPDATE. -/
  | deleted (xid : Nat) (oid : Nat) (rid : Rid)
  /-- A rollback came to the creation of a page. -/
  | undoneNewPage
  | committed (xid : Nat)
  | rolledBack (xid : Nat)
deriving DecidableEq, Repr

/-- The members of `DatabaseEngine`. A connection is a number. -/
structure Database where
  pages : TablePageid → Option TablePage := fun _ => none
  /-- `oid2table_`. -/
  tables : Assoc Nat Table := []
  /-- The log records of each active transaction, newest first. -/
  att : Assoc Nat (List LogBody) := []
  txn : TransactionManager
  locks : LockManager := {}
  /-- `xids_`: the transaction each connection is in. -/
  xids : Assoc Nat Nat := []
  /-- `auto_transaction_set_`. -/
  autoTransactionSet : List Nat := []
  isolationLevels : Assoc Nat IsolationLevel := []
  /-- History variable, newest first. No operation reads it. -/
  events : List Event := []

/-- Operations that may stop with an error, which keeps the state reached by then. -/
abbrev Sql := EStateM SqlError Database

namespace Sql

variable {α : Type}

def throwDb (message : String) : Sql α := throw (.thrown (.dbException message))

def ofExcept : Except DbError α → Sql α
  | .ok a => return a
  | .error (.dbException message) => throwDb message
  | .error .divergence => throw .divergence
  | .error _ => throw .memoryFault

/-- An expression of a statement: it has a value, or it throws. -/
def evaluate : Except Exception α → Sql α
  | .ok a => return a
  | .error e => throw (.thrown e)

def record (event : Event) : Sql Unit := modify fun σ => { σ with events := event :: σ.events }

/-! ## Pages -/

/-- `SystemCatalog::GetTable`. -/
def getTable (oid : Nat) : Sql Table := do
  match (← get).tables.find? oid with
  | none => throwDb s!"Table with oid {oid} does not exist"
  | some table => return table

/-- `BufferPool::GetPage`. -/
def getPage (oid pageId : Nat) : Sql TablePage := do
  let table ← getTable oid
  match (← get).pages ⟨oid, pageId⟩ with
  | none => throwDb s!"{table.dbOid}/{oid} read page {pageId} failed: read 0 bytes, expected {dbPageSize} bytes"
  | some page => return page

/-- Write to a page; also what is left of `BufferPool::NewPage` and the writes that
follow it. -/
def setPage (oid pageId : Nat) (page : TablePage) : Sql Unit :=
  modify fun σ => { σ with
    pages := fun key => if key = ⟨oid, pageId⟩ then some page else σ.pages key }

/-- Rewrite a record header; a slot that was never written is a fault. -/
def modifyPage (oid pageId : Nat) (f : TablePage → Option TablePage) : Sql Unit := do
  match f (← getPage oid pageId) with
  | none => throw .memoryFault
  | some page => setPage oid pageId page

/-! ## `LogManager` -/

namespace LogManager

/-- The `Append` functions, as far as the chain of the transaction goes. -/
def append (xid : Nat) (body : LogBody) (caller : String) : Sql Unit := do
  match (← get).att.find? xid with
  | none => throwDb s!"{xid} does not exist in att (in {caller})"
  | some chain => modify fun σ => { σ with att := σ.att.insert xid (body :: chain) }

/-- `LogManager::AppendBeginLog`. -/
def appendBeginLog (xid : Nat) : Sql Unit := do
  if ((← get).att.find? xid).isSome then
    throwDb s!"{xid} already exists in att"
  else
    modify fun σ => { σ with att := σ.att.insert xid [.begin] }

/-- `LogManager::AppendNewPageLog`. A record of `DDL_XID` joins no chain. -/
def appendNewPageLog (xid oid prevPageId pageId : Nat) : Sql Unit :=
  if xid = ddlXid then
    pure ()
  else
    append xid (.newPage oid prevPageId pageId) "AppendNewPageLog"

/-- `LogManager::AppendCommitLog` and `LogManager::AppendRollbackLog`. -/
def appendEndLog (xid : Nat) (caller : String) : Sql Unit := do
  match (← get).att.find? xid with
  | none => throwDb s!"{xid} does not exist in att (in {caller})"
  | some _ => modify fun σ => { σ with att := σ.att.erase xid }

/-- `Undo` of `InsertLog`, `DeleteLog` and `NewPageLog`. -/
def undo (xid : Nat) : LogBody → Sql Unit
  | .insert oid pageId slotId _ _ _ =>
      modifyPage oid pageId fun page => page.deleteRecord slotId xid
  | .delete oid pageId slotId =>
      modifyPage oid pageId fun page => page.undoDeleteRecord slotId
  | .newPage oid prevPageId pageId => do
      record .undoneNewPage
      let prevPage ← getPage oid prevPageId
      let page ← getPage oid pageId
      setPage oid prevPageId (prevPage.setNextPageId page.nextPageId)
  | _ => pure ()

/-- The loop of `LogManager::Rollback`. -/
def undoAll (xid : Nat) : List LogBody → Sql Unit
  | [] => pure ()
  | body :: chain => do
      undo xid body
      undoAll xid chain

/-- `LogManager::Rollback`. A transaction that `att_` does not have would enter it
at LSN zero, and what is read there is no record of it. -/
def rollback (xid : Nat) : Sql Unit := do
  match (← get).att.find? xid with
  | none => throw .memoryFault
  | some chain => undoAll xid chain

end LogManager

/-! ## `TransactionManager` and `LockManager` -/

namespace TransactionManager

/-- `TransactionManager::Begin`. -/
def begin : Sql Nat := do
  let (xid, txn) := (← get).txn.begin
  modify fun σ => { σ with txn := txn }
  return xid

/-- `TransactionManager::GetCidAndIncrement`; the counter has 32 bits. -/
def getCidAndIncrement (xid : Nat) : Sql Nat := do
  match (← get).txn.xid2cid.find? xid with
  | none => throwDb s!"xid{xid}not found in GetCidAndIncrement"
  | some cid =>
      modify fun σ => { σ with
        txn := { σ.txn with xid2cid := σ.txn.xid2cid.insert xid ((cid + 1) % 2 ^ 32) } }
      return cid

/-- `TransactionManager::Commit` and `TransactionManager::Rollback`. -/
def finish (xid : Nat) (caller : String) : Sql Unit := do
  let txn ← ofExcept ((← get).txn.finish xid caller)
  modify fun σ => { σ with txn := txn, locks := σ.locks.releaseLocks xid }

/-- The transactions a scan takes for active, by isolation level. -/
def activeXids (xid : Nat) : IsolationLevel → Sql (List Nat)
  | .repeatableRead => do ofExcept ((← get).txn.getSnapshot xid)
  | _ => do return (← get).txn.getActiveTransactions

end TransactionManager

namespace LockManager

/-- `LockManager::LockTable`. -/
def lockTable (xid : Nat) (lockType : LockType) (oid : Nat) : Sql Bool := do
  let (granted, locks) := (← get).locks.lockTable xid lockType oid
  modify fun σ => { σ with locks := locks }
  return granted

/-- `LockManager::LockRow`. -/
def lockRow (xid : Nat) (lockType : LockType) (oid : Nat) (rid : Rid) : Sql Bool := do
  let (granted, locks) := (← get).locks.lockRow xid lockType oid rid
  modify fun σ => { σ with locks := locks }
  return granted

end LockManager

/-- `if (!granted) throw DbException(message)`. -/
def orThrow (request : Sql Bool) (message : String) : Sql Unit := do
  if ← request then
    pure ()
  else
    throwDb message

/-! ## `Table` -/

namespace Table

/-- Place a record in a page and append its `InsertLog`. -/
def insertInto (oid pageId : Nat) (page : TablePage) (newRecord : Record) (xid cid : Nat) :
    Sql Rid := do
  let (slotId, stamped, page) := page.insertRecord newRecord xid cid
  setPage oid pageId page
  LogManager.append xid (.insert oid pageId slotId page.upper stamped.getSize stamped)
    "AppendInsertLog"
  return ⟨pageId, slotId⟩

/-- Create a page, place a record in it, and append the `NewPageLog` and the
`InsertLog`. -/
def insertIntoNewPage (oid prevPageId pageId : Nat) (newRecord : Record) (xid cid : Nat) :
    Sql Rid := do
  let (slotId, stamped, page) := TablePage.zero.init.insertRecord newRecord xid cid
  setPage oid pageId page
  LogManager.appendNewPageLog xid oid prevPageId pageId
  LogManager.append xid (.insert oid pageId slotId page.upper stamped.getSize stamped)
    "AppendInsertLog"
  return ⟨pageId, slotId⟩

/-- The loop of `Table::InsertRecord` over the pages after the first: a page with
room, or else the number of the last page, which is linked to its successor as soon
as it is found full. -/
def findRoom (oid size : Nat) : Nat → Nat → Nat → Sql (Option TablePage × Nat)
  | 0, _, _ => throw .divergence
  | fuel + 1, lastPageId, nextPageId => do
      if nextPageId = nullPageId then
        return (none, lastPageId)
      let page ← getPage oid nextPageId
      if size ≤ page.getFreeSpaceSize then
        return (some page, nextPageId)
      else
        if page.nextPageId = nullPageId then
          setPage oid nextPageId (page.setNextPageId (nextPageId + 1))
        findRoom oid size fuel nextPageId page.nextPageId

/-- `Table::InsertRecord` with `write_log`. A record of 64 KiB and more can pass
the size check, which sees 16 bits, and overruns the page. -/
def insertRecord (fuel oid : Nat) (newRecord : Record) (xid cid : Nat) : Sql Rid := do
  let table ← getTable oid
  let size := newRecord.getSize
  if size > maxRecordSize then
    throwDb s!"Record size too large: {size}"
  if size ≠ recordHeaderSize + newRecord.data.length then
    throw .memoryFault
  if table.firstPageId = nullPageId then
    modify fun σ => { σ with tables := σ.tables.insert oid { table with firstPageId := 0 } }
    insertIntoNewPage oid nullPageId 0 newRecord xid cid
  else
    let page ← getPage oid table.firstPageId
    if size ≤ page.getFreeSpaceSize then
      insertInto oid table.firstPageId page newRecord xid cid
    else
      match ← findRoom oid size fuel table.firstPageId page.nextPageId with
      | (some page, pageId) => insertInto oid pageId page newRecord xid cid
      | (none, pageId) =>
          if pageId = table.firstPageId then
            setPage oid table.firstPageId (page.setNextPageId (table.firstPageId + 1))
          insertIntoNewPage oid pageId (pageId + 1) newRecord xid cid

/-- `Table::DeleteRecord` with `write_log`. -/
def deleteRecord (oid : Nat) (rid : Rid) (xid : Nat) : Sql Unit := do
  modifyPage oid rid.pageId fun page => page.deleteRecord rid.slotId xid
  LogManager.append xid (.delete oid rid.pageId rid.slotId) "AppendDeleteLog"
  record (.deleted xid oid rid)

/-- `Table::UpdateRecord`. -/
def updateRecord (fuel oid : Nat) (rid : Rid) (xid cid : Nat) (newRecord : Record) : Sql Rid := do
  deleteRecord oid rid xid
  insertRecord fuel oid newRecord xid cid

end Table

/-! ## `TableScan` -/

/-- A record as executors hand it on, with the place it was read from. -/
structure Tuple where
  record : Record
  rid : Rid := ⟨0, 0⟩
deriving DecidableEq, Repr

namespace TableScan

/-- Where `rid_` goes after a record of a page. -/
def advance (page : TablePage) (rid : Rid) : Rid :=
  if rid.slotId + 1 < page.getRecordCount then
    { rid with slotId := rid.slotId + 1 }
  else
    ⟨page.nextPageId, 0⟩

/-- `TableScan::GetNextRecord`, with `rid_` before and after. The source keeps the
page it is on; fetching it again returns the same content. -/
def getNextRecord (oid : Nat) (skips : RecordHeader → Bool) : Nat → Rid → Sql (Option Tuple × Rid)
  | 0, _ => throw .divergence
  | fuel + 1, rid => do
      if rid.pageId = nullPageId then
        return (none, rid)
      let page ← getPage oid rid.pageId
      match page.getRecord rid.slotId with
      | none => throw .memoryFault
      | some found =>
          if skips found.header then
            getNextRecord oid skips fuel (advance page rid)
          else
            return (some ⟨found, rid⟩, advance page rid)

end TableScan

end Sql

end HuaDB
