import HuaDB.LogManager

/-!
`table/table.cpp` for user tables, whose operations always write log records,
and the visibility test of `table/table_scan.cpp`.
-/

namespace HuaDB

namespace Table

/-- Stamp and place a record in the page of a frame, append its `InsertLog` and
raise the page LSN: the steps every branch of `Table::InsertRecord` ends with. -/
def insertInto (oid : Nat) (pageId : Nat) (frame : Nat) (record : Record) (xid : Nat)
    (cid : Nat) : Db Rid := do
  let (slotId, stamped, page) := (← BufferPool.page frame).insertRecord record xid cid
  BufferPool.setPage frame page
  let lsn ← LogManager.appendInsertLog xid oid pageId slotId page.upper stamped.getSize stamped
  BufferPool.modifyPage frame fun p => p.setPageLsn lsn
  return ⟨pageId, slotId⟩

/-- Initialise the page of a frame, place the record, and append the
`NewPageLog` and the `InsertLog`. -/
def insertIntoNewPage (oid : Nat) (prevPageId pageId : Nat) (frame : Nat) (record : Record)
    (xid : Nat) (cid : Nat) : Db Rid := do
  let (slotId, stamped, page) := (← BufferPool.page frame).init.insertRecord record xid cid
  BufferPool.setPage frame page
  let lsnNew ← LogManager.appendNewPageLog xid oid prevPageId pageId
  BufferPool.modifyPage frame fun p => p.setPageLsn lsnNew
  let lsn ← LogManager.appendInsertLog xid oid pageId slotId page.upper stamped.getSize stamped
  BufferPool.modifyPage frame fun p => p.setPageLsn lsn
  return ⟨pageId, slotId⟩

/-- The `while` loop of `Table::InsertRecord` over the pages after the first.
Returns the frame and number of a page with room, or else the last page; the
last page is linked to its successor as soon as it is found full. A chain of
more than `2 ^ 32` pages revisits one, and the loop does not end. -/
def findRoom (dbOid oid : Nat) (size : Nat) : Nat → Nat → Nat → Db (Option Nat × Nat)
  | 0, _, _ => throw .divergence
  | fuel + 1, lastPageId, nextPageId => do
      if nextPageId = nullPageId then
        return (none, lastPageId)
      let frame ← BufferPool.getPage dbOid oid nextPageId
      let page ← BufferPool.page frame
      if size ≤ page.getFreeSpaceSize then
        return (some frame, nextPageId)
      else
        if page.nextPageId = nullPageId then
          BufferPool.modifyPage frame fun p => p.setNextPageId (nextPageId + 1)
        findRoom dbOid oid size fuel nextPageId page.nextPageId

/-- `Table::InsertRecord` with `write_log`. -/
def insertRecord (oid : Nat) (record : Record) (xid : Nat) (cid : Nat) : Db Rid := do
  let table ← Db.ofExcept ((← get).catalog.getTable oid)
  if record.getSize > maxRecordSize then
    throw (.dbException s!"Record size too large: {record.getSize}")
  if table.firstPageId = nullPageId then
    let frame ← BufferPool.newPage table.dbOid oid 0
    SystemCatalog.modifyCatalog fun c =>
      { c with oid2table := c.oid2table.insert oid { table with firstPageId := 0 } }
    insertIntoNewPage oid nullPageId 0 frame record xid cid
  else
    let first ← BufferPool.getPage table.dbOid oid table.firstPageId
    let page ← BufferPool.page first
    if record.getSize ≤ page.getFreeSpaceSize then
      insertInto oid table.firstPageId first record xid cid
    else
      let (frame?, pageId) ← findRoom table.dbOid oid record.getSize (2 ^ 32)
        table.firstPageId page.nextPageId
      match frame? with
      | some frame => insertInto oid pageId frame record xid cid
      | none =>
          if pageId = table.firstPageId then
            BufferPool.modifyPage first fun p => p.setNextPageId (table.firstPageId + 1)
          let frame ← BufferPool.newPage table.dbOid oid (pageId + 1)
          insertIntoNewPage oid pageId (pageId + 1) frame record xid cid

/-- `Table::DeleteRecord` with `write_log`. -/
def deleteRecord (oid : Nat) (rid : Rid) (xid : Nat) : Db Unit := do
  let table ← Db.ofExcept ((← get).catalog.getTable oid)
  let frame ← BufferPool.getPage table.dbOid oid rid.pageId
  BufferPool.modifyPage? frame fun p => p.deleteRecord rid.slotId xid
  let lsn ← LogManager.appendDeleteLog xid oid rid.pageId rid.slotId
  BufferPool.modifyPage frame fun p => p.setPageLsn lsn

end Table

/-! ## `TableScan` -/

inductive IsolationLevel where
  | readCommitted
  | repeatableRead
  | serializable
deriving DecidableEq, Repr

/-- `TableScan::CanGet`: whether the scan skips a record. -/
def canGet (header : RecordHeader) (xid : Nat) (cid : Nat) (level : IsolationLevel)
    (activeXids : List Nat) : Bool :=
  match level with
  | .readCommitted =>
      if header.cid = cid ∧ header.xmin = xid then
        true
      else if header.xmin ∈ activeXids ∧ header.xmin ≠ xid then
        true
      else if xid = header.xmax ∧ header.xmax ≠ nullXid then
        true
      else
        header.xmax ≠ nullXid ∧ header.xmax ∉ activeXids
  | .repeatableRead =>
      if header.cid = cid ∧ header.xmin = xid then
        true
      else if header.xmin ∈ activeXids ∧ header.xmin ≠ xid then
        true
      else if header.xmin ∈ activeXids ∧ header.xmin = xid then
        header.xmax = xid ∧ header.xmax ≠ nullXid
      else if header.xmin ≤ xid then
        if header.xmax = xid ∧ header.xmax ≠ nullXid then
          true
        else
          ¬ (header.xmax ∈ activeXids ∨ header.xmax > xid)
      else
        true
  | .serializable =>
      (header.xmin ≠ xid ∧ header.xmin ∈ activeXids) ∨
        (header.xmax = xid ∨ (header.cid = cid ∧ header.xmin = xid) ∨
          (header.xmax ≠ nullXid ∧ header.xmax ∉ activeXids))

end HuaDB
