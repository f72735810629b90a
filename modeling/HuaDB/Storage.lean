import HuaDB.Engine

/-!
`storage/disk.cpp`, `storage/lru_buffer_strategy.cpp`, `storage/buffer_pool.cpp`
and, because writing a page back first flushes the log, `LogManager::Flush` and
`LogManager::FlushPage`.
-/

namespace HuaDB

/-! ## `Disk` -/

namespace Disk

/-- The `uint32_t offset` the log functions take for an LSN. -/
def logOffset (lsn : Nat) : Nat := lsn % 2 ^ 32

/-- `Disk::WriteLog`. A record longer than a segment makes the file longer than
its segments, and the next `resize_file` cuts it; the records cut off stay in
the list here. -/
def writeLog (disk : Disk) (r : LogRecord) : Disk :=
  let offset := logOffset r.lsn
  let disk :=
    if (offset + r.getSize) % 2 ^ 32 > disk.logSegments * logSegmentSize then
      { disk with
        logSegments := disk.logSegments + 1
        logFileSize := (disk.logSegments + 1) * logSegmentSize }
    else
      disk
  { disk with
    log := disk.log ++ [r]
    logFileSize := max disk.logFileSize (offset + r.getSize) }

/-- `Disk::ReadLog` of `count` bytes at an LSN: the record last written there,
`none` where the bytes do not start a record. Fails on a read past the end of
the file. -/
def readLog (disk : Disk) (lsn : Nat) (count : Nat) : Except DbError (Option LogRecord) :=
  let offset := logOffset lsn
  let count := count % 2 ^ 32
  if disk.logFileSize < offset + count then
    .error (.dbException s!"read log failed (offset: {offset}, count: {count}, read: {
      disk.logFileSize - offset})")
  else
    .ok (disk.log.reverse.find? fun r => logOffset r.lsn = offset)

/-- `Disk::ReadPage`. -/
def readPage (disk : Disk) (path : FilePath) (pageId : Nat) : Except DbError TablePage :=
  match disk.files path with
  | none => .error (.dbException s!"file {path.dbOid}/{path.tableOid} does not exist")
  | some file =>
      if pageId < file.pageCount then
        .ok (file.page pageId)
      else
        .error (.dbException s!"{path.dbOid}/{path.tableOid} read page {pageId} failed: read 0 bytes, expected {dbPageSize} bytes")

theorem readPage_eq_ok_iff {disk : Disk} {path : FilePath} {pageId : Nat} {page : TablePage} :
    disk.readPage path pageId = .ok page ↔
      ∃ file, disk.files path = some file ∧ pageId < file.pageCount ∧ page = file.page pageId := by
  unfold readPage
  cases hfile : disk.files path with
  | none => simp
  | some file =>
      by_cases hlt : pageId < file.pageCount
      · simp [hlt, eq_comm]
      · simp [hlt]

/-- `Disk::WritePage`: silent where the file is gone. -/
def writePage (disk : Disk) (path : FilePath) (pageId : Nat) (page : TablePage) : Disk :=
  match disk.files path with
  | none => disk
  | some file =>
      { disk with
        files := fun p =>
          if p = path then
            some {
              pageCount := max file.pageCount (pageId + 1)
              page := fun i => if i = pageId then page else file.page i }
          else
            disk.files p }

theorem writePage_of_none {disk : Disk} {path : FilePath} (h : disk.files path = none)
    (pageId : Nat) (page : TablePage) : disk.writePage path pageId page = disk := by
  simp only [writePage, h]

theorem writePage_of_some {disk : Disk} {path : FilePath} {file : DataFile}
    (h : disk.files path = some file) (pageId : Nat) (page : TablePage) :
    disk.writePage path pageId page =
      { disk with
        files := fun p =>
          if p = path then
            some {
              pageCount := max file.pageCount (pageId + 1)
              page := fun i => if i = pageId then page else file.page i }
          else
            disk.files p } := by
  simp only [writePage, h]

@[simp] theorem writePage_log (disk : Disk) (path : FilePath) (pageId : Nat) (page : TablePage) :
    (disk.writePage path pageId page).log = disk.log := by
  unfold writePage
  split <;> rfl

/-- A page write touches the table files only. -/
theorem writePage_eq (disk : Disk) (path : FilePath) (pageId : Nat) (page : TablePage) :
    ∃ files, disk.writePage path pageId page = { disk with files := files } := by
  unfold writePage
  split
  · exact ⟨disk.files, rfl⟩
  · exact ⟨_, rfl⟩

/-- `Disk::CreateFile` truncates a file that exists. -/
def createFile (disk : Disk) (path : FilePath) : Disk :=
  { disk with files := fun p => if p = path then some .empty else disk.files p }

def removeFile (disk : Disk) (path : FilePath) : Disk :=
  { disk with files := fun p => if p = path then none else disk.files p }

/-- `Disk::RemoveDirectory` of a database directory. -/
def removeDirectory (disk : Disk) (dbOid : Nat) : Disk :=
  { disk with files := fun p => if p.dbOid = dbOid then none else disk.files p }

/-- `Disk::EmptyFile`. -/
def emptyFile (disk : Disk) (path : FilePath) : Except DbError Bool :=
  match disk.files path with
  | none => .error (.dbException s!"file {path.dbOid}/{path.tableOid} does not exist")
  | some file => .ok (file.pageCount = 0)

end Disk

/-- `LogRecord::DeserializeFrom` on the first `count` bytes of what a read
returned: the record of that type, with the LSN it was asked for. -/
def LogRecord.deserializeFrom (lsn : Nat) (count : Nat) : Option LogRecord → Except DbError LogRecord
  | none => .error .decodeOverrun
  | some r => if r.getSize ≤ count then .ok { r with lsn := lsn } else .error .decodeOverrun

/-! ## `LogManager::Flush` -/

/-- The record of the largest LSN, as the loop of `LogManager::Flush` keeps it. -/
def maxRecord : Option LogRecord → LogRecord → Option LogRecord
  | none, r => some r
  | some m, r => if r.lsn > m.lsn then some r else some m

/-- Whether `LogManager::Flush(lsn)` writes a record. -/
def LogRecord.isDue (lsn : Nat) (r : LogRecord) : Bool := lsn = nullLsn ∨ r.lsn ≤ lsn

/-- `LogManager::Flush(lsn)`: write every buffered record up to `lsn` (all of
them for `NULL_LSN`), then advance `flushed_lsn_` and the file `next_lsn`. -/
def Engine.flushLog (σ : Engine) (lsn : Nat) : Engine :=
  let due := σ.log.logBuffer.filter (LogRecord.isDue lsn)
  let disk := due.foldl Disk.writeLog σ.disk
  let log := { σ.log with logBuffer := σ.log.logBuffer.filter fun r => !r.isDue lsn }
  match due.foldl maxRecord none with
  | none => { σ with disk := disk, log := log }
  | some m =>
      if log.flushedLsn = nullLsn ∨ m.lsn > log.flushedLsn then
        { σ with
          disk := { disk with
            nextLsnFile :=
              if m.endLsn > disk.nextLsnFile.getD firstLsn then
                some m.endLsn
              else
                disk.nextLsnFile }
          log := { log with flushedLsn := m.lsn } }
      else
        { σ with disk := disk, log := log }

/-- `LogManager::FlushPage`: flush the log up to the page's LSN, and the page is
no longer dirty. -/
def Engine.logFlushPage (σ : Engine) (key : TablePageid) (pageLsn : Nat) : Engine :=
  let σ := σ.flushLog pageLsn
  { σ with log := { σ.log with dpt := σ.log.dpt.erase key } }

/-! ## `LRUBufferStrategy` -/

/-- `LRUBufferStrategy::Access`: move the frame to the front. -/
def BufferPool.access (pool : BufferPool) (frame : Nat) : BufferPool :=
  { pool with bufferVec := frame :: pool.bufferVec.erase frame }

/-! ## `BufferPool` -/

/-- `BufferPool::FlushPage`. -/
def Engine.flushPage (σ : Engine) (frame : Nat) : Engine :=
  match σ.pool.buffers[frame]? with
  | none => σ
  | some entry =>
      let σ :=
        if entry.isDirty then
          let σ := σ.logFlushPage entry.key entry.page.pageLsn
          { σ with
            disk := σ.disk.writePage ⟨entry.dbOid, entry.tableOid⟩ entry.pageId entry.page
            pageWrites := ⟨entry.key, entry.page, σ.log.logBuffer⟩ :: σ.pageWrites }
        else
          σ
      { σ with
        pool := { σ.pool with
          hashmap := fun k => if k = entry.key then none else σ.pool.hashmap k } }

namespace BufferPool

/-- `hashmap_[key] = frame`. -/
def mapKey (pool : BufferPool) (key : TablePageid) (frame : Nat) : BufferPool :=
  { pool with hashmap := fun k => if k = key then some frame else pool.hashmap k }

end BufferPool

/-- The branch of `BufferPool::AddToBuffer` for a full pool: write the victim back
and put the entry in its frame. -/
def Engine.replaceFrame (σ : Engine) (victim : Nat) (entry : BufferPoolEntry) : Engine :=
  let σ := { σ with pool := { σ.pool with bufferVec := σ.pool.bufferVec.erase victim } }
  let σ := σ.flushPage victim
  let pool := σ.pool.access victim
  let pool := { pool with buffers := pool.buffers.set victim entry }
  { σ with pool := pool.mapKey entry.key victim }

/-- The branch of `BufferPool::AddToBuffer` for a pool with a free frame. -/
def Engine.addFrame (σ : Engine) (entry : BufferPoolEntry) : Engine :=
  let frame := σ.pool.buffers.length
  let pool := (σ.pool.access frame).mapKey entry.key frame
  { σ with pool := { pool with buffers := pool.buffers ++ [entry] } }

namespace BufferPool

/-- `BufferPool::AddToBuffer`; returns the frame. The victim is the last frame
of `buffer_vec`; on an empty `buffer_vec` the source reads out of range. -/
def addToBuffer (entry : BufferPoolEntry) : Db Nat := do
  let σ ← get
  if σ.pool.buffers.length = bufferSize then
    match σ.pool.bufferVec.getLast? with
    | none => throw .memoryFault
    | some victim =>
        set (σ.replaceFrame victim entry)
        return victim
  else
    set (σ.addFrame entry)
    return σ.pool.buffers.length

theorem addToBuffer_eq_ok_iff {entry : BufferPoolEntry} {σ σ' : Engine} {frame : Nat} :
    addToBuffer entry σ = .ok frame σ' ↔
      (σ.pool.buffers.length = bufferSize ∧ σ.pool.bufferVec.getLast? = some frame ∧
        σ' = σ.replaceFrame frame entry) ∨
      (σ.pool.buffers.length ≠ bufferSize ∧ frame = σ.pool.buffers.length ∧
        σ' = σ.addFrame entry) := by
  unfold addToBuffer
  rw [EStateM.bind_of_ok (EStateM.get_eq_ok_iff.mpr ⟨rfl, rfl⟩)]
  by_cases hfull : σ.pool.buffers.length = bufferSize
  · simp only [hfull, ↓reduceIte, true_and, ne_eq, not_true_eq_false, false_and, or_false]
    cases hlast : σ.pool.bufferVec.getLast? with
    | none =>
        constructor
        · intro run
          cases run
        · rintro ⟨hnone, -⟩
          cases hnone
    | some victim =>
        constructor
        · intro run
          cases run
          exact ⟨rfl, rfl⟩
        · rintro ⟨hvictim, rfl⟩
          cases hvictim
          rfl
  · simp only [hfull, ↓reduceIte, false_and, ne_eq, not_false_eq_true, true_and, false_or]
    constructor
    · intro run
      cases run
      exact ⟨rfl, rfl⟩
    · rintro ⟨rfl, rfl⟩
      rfl

/-- `BufferPool::GetPage`, for a table outside the system database. The page is
handed out as its frame: every caller is done with it before the frame can be
chosen as a victim. -/
def getPage (dbOid tableOid : Nat) (pageId : Nat) : Db Nat := do
  let σ ← get
  match σ.pool.hashmap ⟨tableOid, pageId⟩ with
  | none =>
      match σ.disk.readPage ⟨dbOid, tableOid⟩ pageId with
      | .error e => throw e
      | .ok page => addToBuffer ⟨dbOid, tableOid, pageId, page, false⟩
  | some frame =>
      set { σ with pool := σ.pool.access frame }
      return frame

/-- `BufferPool::NewPage`. The memory of a new page is not initialised by the
source; every caller initialises it. -/
def newPage (dbOid tableOid : Nat) (pageId : Nat) : Db Nat :=
  addToBuffer ⟨dbOid, tableOid, pageId, .zero, false⟩

/-- The page held by a frame. -/
def page (frame : Nat) : Db TablePage := do
  match (← get).pool.buffers[frame]? with
  | none => throw .memoryFault
  | some entry => return entry.page

/-- Store a page that was modified: every modifier of `TablePage` also sets the
dirty flag. -/
def setPage (frame : Nat) (page : TablePage) : Db Unit :=
  modify fun σ => { σ with
    pool := { σ.pool with
      buffers := σ.pool.buffers.modify frame fun entry =>
        { entry with page := page, isDirty := true } } }

/-- Modify the page held by a frame. -/
def modifyPage (frame : Nat) (f : TablePage → TablePage) : Db Unit := do
  setPage frame (f (← page frame))

/-- Modify the page held by a frame by an operation that may fault. -/
def modifyPage? (frame : Nat) (f : TablePage → Option TablePage) : Db Unit := do
  match f (← page frame) with
  | none => throw .memoryFault
  | some page => setPage frame page

theorem page_eq_ok_iff {frame : Nat} {σ σ' : Engine} {page' : TablePage} :
    page frame σ = .ok page' σ' ↔
      ∃ entry, σ.pool.buffers[frame]? = some entry ∧ page' = entry.page ∧ σ' = σ := by
  unfold page
  rw [EStateM.bind_of_ok (EStateM.get_eq_ok_iff.mpr ⟨rfl, rfl⟩)]
  cases hentry : σ.pool.buffers[frame]? with
  | none =>
      constructor
      · intro run
        cases run
      · rintro ⟨_, h, -⟩
        cases h
  | some entry =>
      constructor
      · intro run
        cases run
        exact ⟨entry, rfl, rfl, rfl⟩
      · rintro ⟨_, h, rfl, rfl⟩
        cases h
        rfl

/-- The pool with the page of a frame replaced, and the frame marked dirty. -/
def withPage (pool : BufferPool) (frame : Nat) (page : TablePage) : BufferPool :=
  { pool with
    buffers := pool.buffers.modify frame fun entry => { entry with page := page, isDirty := true } }

theorem setPage_eq (frame : Nat) (page : TablePage) (σ : Engine) :
    setPage frame page σ = .ok () { σ with pool := σ.pool.withPage frame page } := rfl

@[simp] theorem withPage_hashmap (pool : BufferPool) (frame : Nat) (page : TablePage) :
    (pool.withPage frame page).hashmap = pool.hashmap := rfl

@[simp] theorem withPage_bufferVec (pool : BufferPool) (frame : Nat) (page : TablePage) :
    (pool.withPage frame page).bufferVec = pool.bufferVec := rfl

@[simp] theorem withPage_buffers_length (pool : BufferPool) (frame : Nat) (page : TablePage) :
    (pool.withPage frame page).buffers.length = pool.buffers.length :=
  List.length_modify _ _ _

theorem withPage_withPage (pool : BufferPool) (frame : Nat) (page page' : TablePage) :
    (pool.withPage frame page).withPage frame page' = pool.withPage frame page' := by
  simp only [withPage, List.modify_modify_eq]
  rfl

theorem getElem?_withPage (pool : BufferPool) (frame i : Nat) (page : TablePage) :
    (pool.withPage frame page).buffers[i]? =
      if frame = i then
        pool.buffers[i]?.map fun entry => { entry with page := page, isDirty := true }
      else
        pool.buffers[i]? := by
  rw [withPage, List.getElem?_modify]
  split
  · rfl
  · simp

theorem getElem?_withPage_self {pool : BufferPool} {frame : Nat} {entry : BufferPoolEntry}
    (h : pool.buffers[frame]? = some entry) (page : TablePage) :
    (pool.withPage frame page).buffers[frame]? =
      some { entry with page := page, isDirty := true } := by
  rw [getElem?_withPage, if_pos rfl, h]
  rfl

/-- An entry of the pool with a page replaced is an old one, or the one replaced. -/
theorem mem_withPage {pool : BufferPool} {frame : Nat} {page : TablePage} {e : BufferPoolEntry}
    (h : e ∈ (pool.withPage frame page).buffers) :
    e ∈ pool.buffers ∨ ∃ entry, pool.buffers[frame]? = some entry ∧
      e = { entry with page := page, isDirty := true } := by
  obtain ⟨i, hi⟩ := List.mem_iff_getElem?.mp h
  rw [getElem?_withPage] at hi
  by_cases hframe : frame = i
  · subst hframe
    rw [if_pos rfl] at hi
    obtain ⟨entry, hentry, rfl⟩ := Option.map_eq_some_iff.mp hi
    exact .inr ⟨entry, hentry, rfl⟩
  · rw [if_neg hframe] at hi
    exact .inl (List.mem_of_getElem? hi)

/-- What `modifyPage` makes of the page in a frame. -/
theorem modifyPage_eq_ok {frame : Nat} {f : TablePage → TablePage} {σ σ' : Engine}
    (run : modifyPage frame f σ = .ok () σ') :
    ∃ entry, σ.pool.buffers[frame]? = some entry ∧
      σ' = { σ with pool := σ.pool.withPage frame (f entry.page) } := by
  obtain ⟨_, _, hpage, hset⟩ := EStateM.bind_eq_ok_iff.mp run
  obtain ⟨entry, hentry, rfl, rfl⟩ := page_eq_ok_iff.mp hpage
  rw [setPage_eq] at hset
  cases hset
  exact ⟨entry, hentry, rfl⟩

theorem modifyPage?_eq_ok {frame : Nat} {f : TablePage → Option TablePage} {σ σ' : Engine}
    (run : modifyPage? frame f σ = .ok () σ') :
    ∃ entry page, σ.pool.buffers[frame]? = some entry ∧ f entry.page = some page ∧
      σ' = { σ with pool := σ.pool.withPage frame page } := by
  obtain ⟨_, _, hpage, hset⟩ := EStateM.bind_eq_ok_iff.mp run
  obtain ⟨entry, hentry, rfl, rfl⟩ := page_eq_ok_iff.mp hpage
  cases hf : f entry.page with
  | none =>
      rw [hf] at hset
      cases hset
  | some page =>
      simp only [hf] at hset
      rw [setPage_eq] at hset
      cases hset
      exact ⟨entry, page, hentry, hf, rfl⟩

end BufferPool

/-- `BufferPool::Flush`: write back every frame and empty the pool; unless
`regularOnly`, also write the system tables. -/
def Engine.flushBuffers (σ : Engine) (regularOnly : Bool := false) : Engine :=
  let σ := (List.range σ.pool.buffers.length).foldl Engine.flushPage σ
  let σ := { σ with pool := { σ.pool with buffers := [] } }
  if regularOnly then
    σ
  else
    { σ with disk := { σ.disk with systemRows := σ.catalog.rows } }

end HuaDB
