import HuaDB.Catalog
import HuaDB.TransactionManager

/-!
`log/log_manager.cpp`: appending records, checkpoints, rolling one transaction
back, and the three passes of recovery, with the `Undo` and `Redo` of each
record type from `log/log_records/`.

The loops of `Rollback`, `Analyze` and `Redo` walk the log by LSN and take a
bound on their steps; running out of it stands for a loop that does not end.
-/

namespace HuaDB

namespace LogManager

/-- The log manager is a field of the engine. -/
def modifyLog (f : LogManager → LogManager) : Db Unit :=
  modify fun σ => { σ with log := f σ.log }

/-! ## Appending -/

/-- Hand out the next LSN and queue the record:
`next_lsn_.fetch_add(log->GetSize())`, `SetLSN`, `log_buffer_.push_back`. -/
def push (log : LogManager) (xid : Nat) (prevLsn : Nat) (body : LogBody) : Nat × LogManager :=
  let r : LogRecord := ⟨log.nextLsn, xid, prevLsn, body⟩
  (r.lsn, { log with nextLsn := r.endLsn, logBuffer := log.logBuffer ++ [r] })

/-- The record a transaction appends while active: chained to `att_[xid]`, which
then points at it. -/
def appendChained (log : LogManager) (xid : Nat) (prevLsn : Nat) (body : LogBody) :
    Nat × LogManager :=
  let (lsn, log) := log.push xid prevLsn body
  (lsn, { log with att := log.att.insert xid lsn })

/-- `dpt_[key] = lsn` where the page has no entry. -/
def setDirty (log : LogManager) (key : TablePageid) (lsn : Nat) : LogManager :=
  { log with dpt := log.dpt.insertNew key lsn }

def notInAtt (xid : Nat) (caller : String) : DbError :=
  .dbException s!"{xid} does not exist in att (in {caller})"

def appendInsertLog (xid : Nat) (oid : Nat) (pageId : Nat) (slotId : Nat)
    (offset size : Nat) (newRecord : Record) : Db Nat := do
  let log := (← get).log
  match log.att.find? xid with
  | none => throw (notInAtt xid "AppendInsertLog")
  | some prevLsn =>
      let (lsn, log) := log.appendChained xid prevLsn
        (.insert oid pageId slotId offset size newRecord)
      modifyLog fun _ => log.setDirty ⟨oid, pageId⟩ lsn
      return lsn

def appendDeleteLog (xid : Nat) (oid : Nat) (pageId : Nat) (slotId : Nat) : Db Nat := do
  let log := (← get).log
  match log.att.find? xid with
  | none => throw (notInAtt xid "AppendDeleteLog")
  | some prevLsn =>
      let (lsn, log) := log.appendChained xid prevLsn (.delete oid pageId slotId)
      modifyLog fun _ => log.setDirty ⟨oid, pageId⟩ lsn
      return lsn

/-- `LogManager::AppendNewPageLog`. The predecessor page is entered in the dirty
page table as well. The last LSN of the transaction passes through the 32-bit
`log_xid`. -/
def appendNewPageLog (xid : Nat) (oid : Nat) (prevPageId pageId : Nat) : Db Nat := do
  let log := (← get).log
  let body := LogBody.newPage oid prevPageId pageId
  let (lsn, log) ←
    if xid = ddlXid then
      pure (log.push xid nullXid body)
    else
      match log.att.find? xid with
      | none => throw (notInAtt xid "AppendNewPageLog")
      | some lastLsn => pure (log.appendChained xid (lastLsn % 2 ^ 32) body)
  let log := log.setDirty ⟨oid, pageId⟩ lsn
  modifyLog fun _ =>
    if prevPageId ≠ nullPageId then log.setDirty ⟨oid, prevPageId⟩ lsn else log
  return lsn

def appendBeginLog (xid : Nat) : Db Nat := do
  let log := (← get).log
  if (log.att.find? xid).isSome then
    throw (.dbException s!"{xid} already exists in att")
  let (lsn, log) := log.appendChained xid nullLsn .begin
  modifyLog fun _ => log
  return lsn

/-- `AppendCommitLog` and `AppendRollbackLog`: append, flush up to the record,
and forget the transaction. -/
def appendEndLog (xid : Nat) (body : LogBody) (caller : String) : Db Nat := do
  let log := (← get).log
  match log.att.find? xid with
  | none => throw (notInAtt xid caller)
  | some prevLsn =>
      let (lsn, log) := log.push xid prevLsn body
      modifyLog fun _ => log
      modify fun σ => σ.flushLog lsn
      modifyLog fun log => { log with att := log.att.erase xid }
      return lsn

def appendCommitLog (xid : Nat) : Db Nat := appendEndLog xid .commit "AppendCommitLog"

def appendRollbackLog (xid : Nat) : Db Nat := appendEndLog xid .rollback "AppendRollbackLog"

/-- The two records of `LogManager::Checkpoint`, flushed; returns their LSNs. -/
def checkpointLog : Db (Nat × Nat) := do
  let (beginLsn, log) := (← get).log.push nullXid nullLsn .beginCheckpoint
  let (endLsn, log) := log.push nullXid nullLsn (.endCheckpoint log.att log.dpt)
  modifyLog fun _ => log
  modify fun σ => σ.flushLog endLsn
  return (beginLsn, endLsn)

/-- `LogManager::Checkpoint`: the records, then the master record. -/
def checkpoint : Db Nat := do
  let (beginLsn, endLsn) ← checkpointLog
  modify fun σ => { σ with disk := { σ.disk with masterRecord := some beginLsn } }
  return endLsn

/-! ## Undo and redo of one record -/

/-- `LogRecord::Undo`, by record type. -/
def undoRecord (r : LogRecord) : Db Unit := do
  match r.body with
  | .insert oid pageId slotId _ _ _ =>
      let dbOid ← Db.ofExcept ((← get).catalog.getDatabaseOid oid)
      let page ← BufferPool.getPage dbOid oid pageId
      BufferPool.modifyPage? page fun p => p.deleteRecord slotId r.xid
  | .delete oid pageId slotId =>
      let dbOid ← Db.ofExcept ((← get).catalog.getDatabaseOid oid)
      let page ← BufferPool.getPage dbOid oid pageId
      BufferPool.modifyPage? page fun p => p.undoDeleteRecord slotId
  | .newPage oid prevPageId pageId =>
      let dbOid ← Db.ofExcept ((← get).catalog.getDatabaseOid oid)
      let prevPage ← BufferPool.getPage dbOid oid prevPageId
      let page ← BufferPool.getPage dbOid oid pageId
      let nextPageId := (← BufferPool.page page).nextPageId
      BufferPool.modifyPage prevPage fun p => p.setNextPageId nextPageId
  | _ => pure ()

/-- `LogRecord::Redo`, by record type. A table that no longer exists is skipped. -/
def redoRecord (r : LogRecord) : Db Unit := do
  match r.body with
  | .insert oid pageId slotId _ recordSize record =>
      if (← get).catalog.tableExists oid then
        let dbOid ← Db.ofExcept ((← get).catalog.getDatabaseOid oid)
        let page ← BufferPool.getPage dbOid oid pageId
        BufferPool.modifyPage? page fun p => p.redoInsertRecord slotId record recordSize
  | .delete oid pageId slotId =>
      if (← get).catalog.tableExists oid then
        let dbOid ← Db.ofExcept ((← get).catalog.getDatabaseOid oid)
        let page ← BufferPool.getPage dbOid oid pageId
        BufferPool.modifyPage? page fun p => p.deleteRecord slotId r.xid
  | .newPage oid prevPageId pageId =>
      if (← get).catalog.tableExists oid then
        let dbOid ← Db.ofExcept ((← get).catalog.getDatabaseOid oid)
        if prevPageId ≠ nullPageId then
          let prevPage ← BufferPool.getPage dbOid oid prevPageId
          let page ← BufferPool.newPage dbOid oid pageId
          BufferPool.modifyPage page TablePage.init
          let nextPageId := (← BufferPool.page prevPage).nextPageId
          BufferPool.modifyPage page fun p => p.setNextPageId nextPageId
          BufferPool.modifyPage prevPage fun p => p.setNextPageId pageId
        else
          let page ← BufferPool.getPage dbOid oid pageId
          BufferPool.modifyPage page fun p => p.init.setNextPageId nullPageId
  | _ => pure ()

/-! ## Reading the log -/

/-- Read the `MAX_LOG_SIZE` bytes at an LSN and decode the record there. -/
def readRecord (lsn : Nat) : Db LogRecord := do
  let bytes ← Db.ofExcept ((← get).disk.readLog lsn maxLogSize)
  Db.ofExcept (LogRecord.deserializeFrom lsn maxLogSize bytes)

/-! ## `LogManager::Rollback` -/

/-- The loop of `LogManager::Rollback`. A record that should still be buffered
but is not leaves `lsn_now` unchanged for ever. -/
def rollbackLoop : Nat → Nat → Db Unit
  | 0, lsn => if lsn = nullLsn then pure () else throw .divergence
  | fuel + 1, lsn => do
      if lsn = nullLsn then
        return
      if lsn > (← get).log.flushedLsn then
        match (← get).log.logBuffer.find? fun r => r.lsn = lsn with
        | none => throw .divergence
        | some r =>
            undoRecord r
            rollbackLoop fuel r.prevLsn
      else
        let r ← readRecord lsn
        undoRecord r
        rollbackLoop fuel r.prevLsn

/-- `LogManager::Rollback`; `att_[xid]` enters a missing transaction at zero.
Each record's `prev_lsn` is below its own LSN, so `lsn + 1` steps reach the
start of any chain. -/
def rollback (xid : Nat) : Db Unit := do
  modifyLog fun log => { log with att := log.att.insertNew xid 0 }
  let lastLsn := ((← get).log.att.find? xid).getD 0
  rollbackLoop (lastLsn + 1) lastLsn

/-! ## `LogManager::Analyze` -/

/-- What the scan of `LogManager::Analyze` accumulates. -/
structure AnalyzeState where
  att : Att
  dpt : Dpt
  xidMax : Nat
deriving DecidableEq, Repr

/-- One record of the scan. -/
def AnalyzeState.step (s : AnalyzeState) (r : LogRecord) : AnalyzeState where
  att :=
    if r.getType = .commit ∨ r.getType = .rollback then
      s.att.erase r.xid
    else
      s.att.insert r.xid r.lsn
  dpt :=
    match r.page? with
    | none => s.dpt
    | some key => s.dpt.insertNew key r.lsn
  xidMax := if r.xid > s.xidMax then r.xid else s.xidMax

/-- The `while` loop of `LogManager::Analyze`. -/
def analyzeLoop : Nat → Nat → AnalyzeState → Db AnalyzeState
  | 0, lsn, s => do if lsn < (← get).log.nextLsn then throw .divergence else return s
  | fuel + 1, lsn, s => do
      if lsn < (← get).log.nextLsn then
        let r ← readRecord lsn
        analyzeLoop fuel r.endLsn (s.step r)
      else
        return s

/-- `LogManager::Analyze`. The record at the checkpoint is decoded as a
`BeginLog` whatever it is, which takes the 13 bytes of a `BeginCheckpointLog`;
the record after it is decoded as an `EndCheckpointLog` from all the bytes up to
the end of the log. Where it is none, the two map sizes are arbitrary bytes. -/
def analyze : Db Unit := do
  let nextLsn := (← get).disk.nextLsnFile.getD firstLsn
  modifyLog fun log =>
    { log with
      nextLsn := nextLsn
      flushedLsn := if nextLsn = 0 then nullLsn else nextLsn - 1 }
  let checkpointLsn := (← get).disk.masterRecord.getD 0
  let _ ← Db.ofExcept ((← get).disk.readLog checkpointLsn (nextLsn - checkpointLsn))
  if nextLsn - checkpointLsn < LogRecord.headerSize then
    throw .decodeOverrun
  let checkpointLsn := checkpointLsn + LogRecord.headerSize
  let bytes ← Db.ofExcept ((← get).disk.readLog checkpointLsn (nextLsn - checkpointLsn))
  let r ← Db.ofExcept
    (LogRecord.deserializeFrom checkpointLsn ((nextLsn - checkpointLsn) % 2 ^ 32) bytes)
  match r.body with
  | .endCheckpoint att dpt =>
      let s ← analyzeLoop nextLsn r.endLsn ⟨att, dpt, 0⟩
      modify fun σ => { σ with
        txn := σ.txn.setNextXid ((s.xidMax + 1) % 2 ^ 32)
        log := { σ.log with att := s.att, dpt := s.dpt } }
  | _ => throw .decodeOverrun

/-! ## `LogManager::Redo` -/

/-- The body of the loop of `LogManager::Redo` for a record read from disk. -/
def redoFlushed (r : LogRecord) : Db Unit := do
  match r.page? with
  | none => pure ()
  | some key =>
      match (← get).log.dpt.find? key with
      | none => pure ()
      | some recLsn =>
          if r.lsn < recLsn then
            pure ()
          else if r.getType = .newPage then
            redoRecord r
          else
            let dbOid ← Db.ofExcept ((← get).catalog.getDatabaseOid key.tableOid)
            let page ← BufferPool.getPage dbOid key.tableOid key.pageId
            if r.lsn ≤ (← BufferPool.page page).pageLsn then
              pure ()
            else
              redoRecord r

/-- The body of the loop for a record still in the buffer. Its comparisons are
not those of `redoFlushed`, and for a `NewPageLog` it dereferences the null
pointer of a failed cast to `DeleteLog`. -/
def redoBuffered (r : LogRecord) : Db Unit := do
  match r.page? with
  | none => pure ()
  | some key =>
      if r.getType = .newPage then
        throw .memoryFault
      match (← get).log.dpt.find? key with
      | none => pure ()
      | some recLsn =>
          if r.lsn ≤ recLsn then
            pure ()
          else
            let dbOid ← Db.ofExcept ((← get).catalog.getDatabaseOid key.tableOid)
            let page ← BufferPool.getPage dbOid key.tableOid key.pageId
            if r.lsn < (← BufferPool.page page).pageLsn then
              pure ()
            else
              redoRecord r

/-- The `while` loop of `LogManager::Redo`. -/
def redoLoop : Nat → Nat → Db Unit
  | 0, lsn => do if lsn < (← get).log.nextLsn then throw .divergence else return
  | fuel + 1, lsn => do
      if lsn < (← get).log.nextLsn then
        if lsn > (← get).log.flushedLsn then
          match (← get).log.logBuffer.find? fun r => r.lsn = lsn with
          | none => throw .divergence
          | some r =>
              redoBuffered r
              redoLoop fuel r.endLsn
        else
          let r ← readRecord lsn
          redoFlushed r
          redoLoop fuel r.endLsn

/-- Where `LogManager::Redo` starts: the smallest LSN of the dirty page table,
or the checkpoint when no entry lies below `next_lsn_`. -/
def redoStart (log : LogManager) (checkpointLsn : Nat) : Nat :=
  let minLsn := log.dpt.foldl (fun m e => if e.2 < m then e.2 else m) log.nextLsn
  if minLsn = log.nextLsn then checkpointLsn else minLsn

/-- `LogManager::Redo`. -/
def redo : Db Unit := do
  let σ ← get
  redoLoop σ.log.nextLsn (σ.log.redoStart (σ.disk.masterRecord.getD 0))

/-! ## `LogManager::Undo` and `LogManager::Recover` -/

/-- The loop of `LogManager::Undo` over the active transactions. -/
def undoLoop : List Nat → Db Unit
  | [] => pure ()
  | xid :: xids => do
      rollback xid
      undoLoop xids

/-- `LogManager::Undo`. -/
def undo : Db Unit := do
  undoLoop (← get).log.att.keys

/-- `LogManager::Recover`. -/
def recover : Db Unit := do
  analyze
  redo
  undo

end LogManager

end HuaDB
