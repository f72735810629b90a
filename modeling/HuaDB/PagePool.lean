import HuaDB.Lib.Recency
import HuaDB.Storage

/-!
`storage/buffer_pool.cpp` and `storage/lru_buffer_strategy.cpp` with every way a
call can fail: `Engine` (in `Storage`) follows the calls that succeed.

`Disk` keeps one stream open per table file. A read past the end of the file leaves
the failure bit of the stream set, nothing clears it, and every later access of the
file throws, also the one that writes a victim back.
-/

namespace HuaDB

/-! ## The files -/

/-- The table files, and the streams of `Disk::hashmap_` whose failure bit is set. -/
structure TableFiles where
  files : FilePath → Option DataFile
  failed : FilePath → Bool := fun _ => false

namespace TableFiles

def fail (disk : TableFiles) (path : FilePath) : TableFiles :=
  { disk with failed := fun p => p = path || disk.failed p }

/-- A page of a file is overwritten, or the file grows up to it. -/
def written (disk : TableFiles) (path : FilePath) (file : DataFile) (pageId : Nat)
    (page : TablePage) : TableFiles :=
  { disk with
    files := fun p =>
      if p = path then
        some {
          pageCount := max file.pageCount (pageId + 1)
          page := fun i => if i = pageId then page else file.page i }
      else
        disk.files p }

/-- `Disk::WritePage`: silent where the file is gone. -/
def writePage (disk : TableFiles) (path : FilePath) (pageId : Nat) (page : TablePage) :
    Except DbError TableFiles :=
  match disk.files path with
  | none => .ok disk
  | some file =>
      if disk.failed path then
        .error (.dbException "fstream failed in Disk::WritePage")
      else
        .ok (disk.written path file pageId page)

theorem writePage_cases {disk disk' : TableFiles} {path : FilePath} {pageId : Nat}
    {page : TablePage} (h : disk.writePage path pageId page = .ok disk') :
    (disk.files path = none ∧ disk' = disk) ∨
      ∃ file, disk.files path = some file ∧ disk' = disk.written path file pageId page := by
  unfold writePage at h
  cases hfile : disk.files path with
  | none =>
      rw [hfile] at h
      cases h
      exact .inl ⟨rfl, rfl⟩
  | some file =>
      rw [hfile] at h
      cases hstream : disk.failed path with
      | true =>
          simp only [hstream, ↓reduceIte] at h
          cases h
      | false =>
          simp only [hstream, Bool.false_eq_true, ↓reduceIte] at h
          cases h
          exact .inr ⟨file, rfl, rfl⟩

/-- The page a file holds, where it reaches that far. -/
def image? (disk : TableFiles) (path : FilePath) (pageId : Nat) : Option TablePage :=
  (disk.files path).bind fun file =>
    if pageId < file.pageCount then some (file.page pageId) else none

end TableFiles

/-! ## The pool -/

/-- `BufferPool` with the files below it. The pages of the system database have
frames of their own, which are never evicted. -/
structure PagePool where
  disk : TableFiles
  pool : BufferPool := {}
  systableBuffers : List BufferPoolEntry := []
  systableHashmap : TablePageid → Option Nat := fun _ => none

/-- `LogManager::FlushPage` as the pool sees it: it returns, or it throws. -/
abbrev FlushLog := TablePageid → Nat → Except DbError Unit

namespace PagePool

abbrev PoolM := EStateM DbError PagePool

/-- `Disk::ReadPage`. -/
def readPage (path : FilePath) (pageId : Nat) : PoolM TablePage := do
  let σ ← get
  if σ.disk.failed path then
    throw (.dbException "fstream failed in Disk::ReadPage")
  match σ.disk.files path with
  | none =>
      set { σ with disk := σ.disk.fail path }
      throw (.dbException s!"file {path.dbOid}/{path.tableOid} does not exist")
  | some file =>
      if pageId < file.pageCount then
        return file.page pageId
      else
        set { σ with disk := σ.disk.fail path }
        throw (.dbException s!"{path.dbOid}/{path.tableOid} read page {pageId} failed: read 0 bytes, expected {dbPageSize} bytes")

/-- Write an entry back where it is dirty. The pages of user tables are logged. -/
def writeBack (flushLog : FlushLog) (entry : BufferPoolEntry) (disk : TableFiles) :
    Except DbError TableFiles :=
  if entry.isDirty then do
    if entry.dbOid ≠ systemDatabaseOid then
      flushLog entry.key entry.page.pageLsn
    disk.writePage ⟨entry.dbOid, entry.tableOid⟩ entry.pageId entry.page
  else
    .ok disk

/-- `hashmap_.erase`. -/
def unmap (hashmap : TablePageid → Option Nat) (key : TablePageid) : TablePageid → Option Nat :=
  fun k => if k = key then none else hashmap k

/-- `BufferPool::FlushPage`. -/
def flushPage (flushLog : FlushLog) (frame : Nat) : PoolM Unit := do
  let σ ← get
  match σ.pool.buffers[frame]? with
  | none => throw .memoryFault
  | some entry =>
      match writeBack flushLog entry σ.disk with
      | .error e => throw e
      | .ok disk =>
          set { σ with
            disk := disk
            pool := { σ.pool with hashmap := unmap σ.pool.hashmap entry.key } }

/-- `BufferPool::FlushSysTablePage`. -/
def flushSysTablePage (frame : Nat) : PoolM Unit := do
  let σ ← get
  match σ.systableBuffers[frame]? with
  | none => throw .memoryFault
  | some entry =>
      match writeBack (fun _ _ => .ok ()) entry σ.disk with
      | .error e => throw e
      | .ok disk =>
          set { σ with
            disk := disk
            systableHashmap := unmap σ.systableHashmap entry.key }

/-- `LRUBufferStrategy::Evict`: the frame at the end of `buffer_vec` leaves it. On an
empty `buffer_vec` the source reads out of range. -/
def evict : PoolM Nat := do
  let σ ← get
  match σ.pool.bufferVec.getLast? with
  | none => throw .memoryFault
  | some victim =>
      set { σ with pool := { σ.pool with bufferVec := σ.pool.bufferVec.erase victim } }
      return victim

/-- `BufferPool::AddToBuffer`; returns the frame. -/
def addToBuffer (flushLog : FlushLog) (entry : BufferPoolEntry) : PoolM Nat := do
  let σ ← get
  if entry.dbOid = systemDatabaseOid then
    let frame := σ.systableBuffers.length
    set { σ with
      systableHashmap := fun k => if k = entry.key then some frame else σ.systableHashmap k
      systableBuffers := σ.systableBuffers ++ [entry] }
    return frame
  else if σ.pool.buffers.length = bufferSize then
    let victim ← evict
    flushPage flushLog victim
    modify fun σ =>
      let pool := σ.pool.access victim
      { σ with pool := { pool with buffers := pool.buffers.set victim entry }.mapKey entry.key victim }
    return victim
  else
    let frame := σ.pool.buffers.length
    let pool := (σ.pool.access frame).mapKey entry.key frame
    set { σ with pool := { pool with buffers := pool.buffers ++ [entry] } }
    return frame

/-- `BufferPool::GetPage`; the page is handed out as its frame. -/
def getPage (flushLog : FlushLog) (dbOid tableOid pageId : Nat) : PoolM Nat := do
  let σ ← get
  let hashmap := if dbOid = systemDatabaseOid then σ.systableHashmap else σ.pool.hashmap
  match hashmap ⟨tableOid, pageId⟩ with
  | none =>
      let page ← readPage ⟨dbOid, tableOid⟩ pageId
      addToBuffer flushLog ⟨dbOid, tableOid, pageId, page, false⟩
  | some frame =>
      if dbOid ≠ systemDatabaseOid then
        set { σ with pool := σ.pool.access frame }
      return frame

/-- `BufferPool::NewPage`. -/
def newPage (flushLog : FlushLog) (dbOid tableOid pageId : Nat) : PoolM Nat :=
  addToBuffer flushLog ⟨dbOid, tableOid, pageId, .zero, false⟩

/-- The frames of the pages of a database. -/
def frames (σ : PagePool) (dbOid : Nat) : List BufferPoolEntry :=
  if dbOid = systemDatabaseOid then σ.systableBuffers else σ.pool.buffers

/-- The map that leads to them. -/
def hashmap (σ : PagePool) (dbOid : Nat) : TablePageid → Option Nat :=
  if dbOid = systemDatabaseOid then σ.systableHashmap else σ.pool.hashmap

/-- The page in a frame. -/
def page (dbOid frame : Nat) : PoolM TablePage := do
  match ((← get).frames dbOid)[frame]? with
  | none => throw .memoryFault
  | some entry => return entry.page

/-- Write to the page in a frame; every write marks it dirty. -/
def modifyPage (dbOid frame : Nat) (f : TablePage → TablePage) : PoolM Unit :=
  modify fun σ =>
    let write (entry : BufferPoolEntry) : BufferPoolEntry :=
      { entry with page := f entry.page, isDirty := true }
    if dbOid = systemDatabaseOid then
      { σ with systableBuffers := σ.systableBuffers.modify frame write }
    else
      { σ with pool := { σ.pool with buffers := σ.pool.buffers.modify frame write } }

/-- Call `f` on each of the first `n` frames. -/
def forFrames (f : Nat → PoolM Unit) : Nat → PoolM Unit
  | 0 => return
  | n + 1 => do
      forFrames f n
      f n

/-- `BufferPool::Flush`. -/
def flush (flushLog : FlushLog) (regularOnly : Bool) : PoolM Unit := do
  forFrames (flushPage flushLog) (← get).pool.buffers.length
  modify fun σ => { σ with pool := { σ.pool with buffers := [] } }
  if !regularOnly then
    forFrames flushSysTablePage (← get).systableBuffers.length
    modify fun σ => { σ with systableBuffers := [] }

/-- `BufferPool::Clear`. -/
def clear : PoolM Unit :=
  modify fun σ => { σ with
    pool := { σ.pool with buffers := [], hashmap := fun _ => none }
    systableBuffers := []
    systableHashmap := fun _ => none }

/-! ## What each call does -/

/-- A page of the system database gets a new frame. -/
def addSystem (σ : PagePool) (entry : BufferPoolEntry) : PagePool :=
  { σ with
    systableHashmap := fun k =>
      if k = entry.key then some σ.systableBuffers.length else σ.systableHashmap k
    systableBuffers := σ.systableBuffers ++ [entry] }

/-- A page gets a free frame. -/
def addFrame (σ : PagePool) (entry : BufferPoolEntry) : PagePool :=
  let pool := (σ.pool.access σ.pool.buffers.length).mapKey entry.key σ.pool.buffers.length
  { σ with pool := { pool with buffers := pool.buffers ++ [entry] } }

/-- The victim has left `buffer_vec`, and nothing else happened. -/
def evicted (σ : PagePool) (victim : Nat) : PagePool :=
  { σ with pool := { σ.pool with bufferVec := σ.pool.bufferVec.erase victim } }

/-- The page of `old` was written back, leaving the files as `disk`, and `entry` has
its frame. -/
def replaced (σ : PagePool) (victim : Nat) (old entry : BufferPoolEntry) (disk : TableFiles) :
    PagePool :=
  { σ with
    disk := disk
    pool :=
      { buffers := σ.pool.buffers.set victim entry
        hashmap := fun k =>
          if k = entry.key then some victim else if k = old.key then none else σ.pool.hashmap k
        bufferVec := victim :: (σ.pool.bufferVec.erase victim).erase victim } }

variable {flushLog : FlushLog} {entry old : BufferPoolEntry} {σ : PagePool} {victim : Nat}

theorem get_bind {α : Type} (f : PagePool → PoolM α) (σ : PagePool) : (get >>= f) σ = f σ σ := rfl

theorem addToBuffer_system (hdb : entry.dbOid = systemDatabaseOid) :
    addToBuffer flushLog entry σ = .ok σ.systableBuffers.length (σ.addSystem entry) := by
  rw [addToBuffer, get_bind, if_pos hdb]
  rfl

theorem addToBuffer_free (hdb : entry.dbOid ≠ systemDatabaseOid)
    (hfree : σ.pool.buffers.length ≠ bufferSize) :
    addToBuffer flushLog entry σ = .ok σ.pool.buffers.length (σ.addFrame entry) := by
  rw [addToBuffer, get_bind, if_neg hdb, if_neg hfree]
  rfl

theorem addToBuffer_empty (hdb : entry.dbOid ≠ systemDatabaseOid)
    (hfull : σ.pool.buffers.length = bufferSize) (hvec : σ.pool.bufferVec.getLast? = none) :
    addToBuffer flushLog entry σ = .error .memoryFault σ := by
  rw [addToBuffer, get_bind, if_neg hdb, if_pos hfull]
  apply EStateM.bind_of_error
  rw [evict, get_bind, hvec]
  rfl

theorem evict_eq (hvec : σ.pool.bufferVec.getLast? = some victim) :
    evict σ = .ok victim (σ.evicted victim) := by
  rw [evict, get_bind, hvec]
  rfl

/-- A victim that cannot be written back stays in its frame, but no longer in
`buffer_vec`. -/
theorem addToBuffer_throws (hdb : entry.dbOid ≠ systemDatabaseOid)
    (hfull : σ.pool.buffers.length = bufferSize)
    (hvec : σ.pool.bufferVec.getLast? = some victim) (hold : σ.pool.buffers[victim]? = some old)
    {e : DbError} (hwrite : writeBack flushLog old σ.disk = .error e) :
    addToBuffer flushLog entry σ = .error e (σ.evicted victim) := by
  rw [addToBuffer, get_bind, if_neg hdb, if_pos hfull, EStateM.bind_of_ok (evict_eq hvec)]
  apply EStateM.bind_of_error
  rw [flushPage, get_bind]
  change (match σ.pool.buffers[victim]? with
    | none => _
    | some entry => _ : PoolM Unit) (σ.evicted victim) = _
  rw [hold]
  change (match writeBack flushLog old σ.disk with
    | .error e => _
    | .ok disk => _ : PoolM Unit) (σ.evicted victim) = _
  rw [hwrite]
  rfl

theorem addToBuffer_replaces (hdb : entry.dbOid ≠ systemDatabaseOid)
    (hfull : σ.pool.buffers.length = bufferSize)
    (hvec : σ.pool.bufferVec.getLast? = some victim) (hold : σ.pool.buffers[victim]? = some old)
    {disk : TableFiles} (hwrite : writeBack flushLog old σ.disk = .ok disk) :
    addToBuffer flushLog entry σ = .ok victim (σ.replaced victim old entry disk) := by
  have hflush : flushPage flushLog victim (σ.evicted victim) =
      .ok () { σ.evicted victim with
        disk := disk
        pool := { (σ.evicted victim).pool with hashmap := unmap σ.pool.hashmap old.key } } := by
    rw [flushPage, get_bind]
    change (match σ.pool.buffers[victim]? with
      | none => _
      | some entry => _ : PoolM Unit) (σ.evicted victim) = _
    rw [hold]
    change (match writeBack flushLog old σ.disk with
      | .error e => _
      | .ok disk => _ : PoolM Unit) (σ.evicted victim) = _
    rw [hwrite]
    rfl
  rw [addToBuffer, get_bind, if_neg hdb, if_pos hfull, EStateM.bind_of_ok (evict_eq hvec),
    EStateM.bind_of_ok hflush]
  rfl

/-- The ways `AddToBuffer` can end, where `buffer_vec` leads to frames. -/
theorem addToBuffer_cases (flushLog : FlushLog) (entry : BufferPoolEntry)
    (bound : ∀ i ∈ σ.pool.bufferVec, i < bufferSize) :
    (entry.dbOid = systemDatabaseOid ∧
      addToBuffer flushLog entry σ = .ok σ.systableBuffers.length (σ.addSystem entry)) ∨
    (entry.dbOid ≠ systemDatabaseOid ∧ σ.pool.buffers.length ≠ bufferSize ∧
      addToBuffer flushLog entry σ = .ok σ.pool.buffers.length (σ.addFrame entry)) ∨
    (entry.dbOid ≠ systemDatabaseOid ∧ σ.pool.buffers.length = bufferSize ∧
      σ.pool.bufferVec.getLast? = none ∧ addToBuffer flushLog entry σ = .error .memoryFault σ) ∨
    ∃ victim old, entry.dbOid ≠ systemDatabaseOid ∧ σ.pool.buffers.length = bufferSize ∧
      σ.pool.bufferVec.getLast? = some victim ∧ σ.pool.buffers[victim]? = some old ∧
      ((∃ e, writeBack flushLog old σ.disk = .error e ∧
          addToBuffer flushLog entry σ = .error e (σ.evicted victim)) ∨
        ∃ disk, writeBack flushLog old σ.disk = .ok disk ∧
          addToBuffer flushLog entry σ = .ok victim (σ.replaced victim old entry disk)) := by
  by_cases hdb : entry.dbOid = systemDatabaseOid
  · exact .inl ⟨hdb, addToBuffer_system hdb⟩
  by_cases hfull : σ.pool.buffers.length = bufferSize
  · cases hvec : σ.pool.bufferVec.getLast? with
    | none => exact .inr (.inr (.inl ⟨hdb, hfull, rfl, addToBuffer_empty hdb hfull hvec⟩))
    | some victim =>
        have hlt : victim < σ.pool.buffers.length := hfull ▸ bound victim (List.mem_of_getLast? hvec)
        have hold : σ.pool.buffers[victim]? = some σ.pool.buffers[victim] :=
          List.getElem?_eq_getElem hlt
        refine .inr (.inr (.inr ⟨victim, _, hdb, hfull, rfl, hold, ?_⟩))
        cases hwrite : writeBack flushLog σ.pool.buffers[victim] σ.disk with
        | error e => exact .inl ⟨e, rfl, addToBuffer_throws hdb hfull hvec hold hwrite⟩
        | ok disk => exact .inr ⟨disk, rfl, addToBuffer_replaces hdb hfull hvec hold hwrite⟩
  · exact .inr (.inl ⟨hdb, hfull, addToBuffer_free hdb hfull⟩)

/-- The frame `AddToBuffer` returns holds the entry. -/
theorem addToBuffer_installs {σ' : PagePool} {frame : Nat}
    (bound : ∀ i ∈ σ.pool.bufferVec, i < bufferSize)
    (run : addToBuffer flushLog entry σ = .ok frame σ') :
    (σ'.frames entry.dbOid)[frame]? = some entry := by
  rcases addToBuffer_cases flushLog entry bound with ⟨hdb, hrun⟩ | ⟨hdb, -, hrun⟩ |
    ⟨-, -, -, hrun⟩ | ⟨victim, old, hdb, -, -, hold, ⟨e, -, hrun⟩ | ⟨disk, -, hrun⟩⟩
  · cases hrun.symm.trans run
    rw [frames, if_pos hdb]
    exact List.getElem?_concat_length
  · cases hrun.symm.trans run
    rw [frames, if_neg hdb]
    exact List.getElem?_concat_length
  · cases hrun.symm.trans run
  · cases hrun.symm.trans run
  · cases hrun.symm.trans run
    rw [frames, if_neg hdb]
    exact List.getElem?_set_self (List.getElem?_eq_some_iff.mp hold).1

/-- A frame was used. -/
def touched (σ : PagePool) (dbOid frame : Nat) : PagePool :=
  if dbOid = systemDatabaseOid then σ else { σ with pool := σ.pool.access frame }

variable {dbOid tableOid pageId frame : Nat} {page : TablePage}

theorem getPage_hit (hmapped : σ.hashmap dbOid ⟨tableOid, pageId⟩ = some frame) :
    getPage flushLog dbOid tableOid pageId σ = .ok frame (σ.touched dbOid frame) := by
  rw [getPage, get_bind]
  change (match σ.hashmap dbOid ⟨tableOid, pageId⟩ with
    | none => _
    | some frame => _ : PoolM Nat) σ = _
  rw [hmapped]
  unfold touched
  by_cases hdb : dbOid = systemDatabaseOid
  · simp only [hdb, ne_eq, not_true_eq_false, ↓reduceIte]
    rfl
  · simp only [hdb, ne_eq, not_false_eq_true, ↓reduceIte]
    rfl

/-- The file can be read at that page. -/
def Readable (σ : PagePool) (path : FilePath) (pageId : Nat) (page : TablePage) : Prop :=
  σ.disk.failed path = false ∧ σ.disk.image? path pageId = some page

theorem readPage_eq {path : FilePath} (h : σ.Readable path pageId page) :
    readPage path pageId σ = .ok page σ := by
  obtain ⟨hstream, himage⟩ := h
  obtain ⟨file, hfile, hpage⟩ := Option.bind_eq_some_iff.mp himage
  rw [readPage, get_bind, hstream, hfile]
  by_cases hlt : pageId < file.pageCount
  · rw [if_pos hlt, Option.some.injEq] at hpage
    subst hpage
    simp only [Bool.false_eq_true, ↓reduceIte, hlt]
    rfl
  · rw [if_neg hlt] at hpage
    cases hpage

/-- A read that fails changes nothing but the state of the stream. -/
theorem readPage_fails {path : FilePath} (h : ∀ page, ¬ σ.Readable path pageId page) :
    ∃ e failed, readPage path pageId σ = .error e { σ with disk := { σ.disk with failed } } := by
  rw [readPage, get_bind]
  cases hstream : σ.disk.failed path with
  | true => exact ⟨_, σ.disk.failed, rfl⟩
  | false =>
      cases hfile : σ.disk.files path with
      | none => exact ⟨_, _, rfl⟩
      | some file =>
          by_cases hlt : pageId < file.pageCount
          · have himage : σ.disk.image? path pageId = some (file.page pageId) := by
              rw [TableFiles.image?, hfile, Option.bind_some, if_pos hlt]
            exact (h _ ⟨hstream, himage⟩).elim
          · simp only [hlt, ↓reduceIte]
            exact ⟨_, _, rfl⟩

theorem getPage_miss (hmapped : σ.hashmap dbOid ⟨tableOid, pageId⟩ = none)
    (hread : σ.Readable ⟨dbOid, tableOid⟩ pageId page) :
    getPage flushLog dbOid tableOid pageId σ =
      addToBuffer flushLog ⟨dbOid, tableOid, pageId, page, false⟩ σ := by
  rw [getPage, get_bind]
  change (match σ.hashmap dbOid ⟨tableOid, pageId⟩ with
    | none => _
    | some frame => _ : PoolM Nat) σ = _
  rw [hmapped]
  exact EStateM.bind_of_ok (readPage_eq hread)

theorem getPage_fails (flushLog : FlushLog) (hmapped : σ.hashmap dbOid ⟨tableOid, pageId⟩ = none)
    (hread : ∀ page, ¬ σ.Readable ⟨dbOid, tableOid⟩ pageId page) :
    ∃ e failed, getPage flushLog dbOid tableOid pageId σ =
      .error e { σ with disk := { σ.disk with failed } } := by
  obtain ⟨e, failed, hfails⟩ := readPage_fails hread
  refine ⟨e, failed, ?_⟩
  rw [getPage, get_bind]
  change (match σ.hashmap dbOid ⟨tableOid, pageId⟩ with
    | none => _
    | some frame => _ : PoolM Nat) σ = _
  rw [hmapped]
  exact EStateM.bind_of_error hfails

end PagePool

/-! ## Runs -/

/-- A call of the storage, rollback or recovery code. A page that `NewPage` hands out
is initialised right away, and a page is modified right after the `GetPage` that
hands it out. -/
inductive PoolOp where
  | getPage (key : TablePageid)
  | newPage (key : TablePageid) (content : TablePage)
  | modifyPage (key : TablePageid) (f : TablePage → TablePage)
  | flush (regularOnly : Bool)
  | clear

/-- The page a call leads to. -/
def PoolOp.key? : PoolOp → Option TablePageid
  | .getPage key => some key
  | .newPage key _ => some key
  | .modifyPage key _ => some key
  | .flush _ => none
  | .clear => none

open PagePool in
/-- A call, `dbOf` being the database that the catalog finds a table in. Returns what
the page holds at the end. -/
def PoolOp.run (dbOf : Nat → Nat) (flushLog : FlushLog) : PoolOp → PoolM (Option TablePage)
  | .getPage key => do
      let frame ← PagePool.getPage flushLog (dbOf key.tableOid) key.tableOid key.pageId
      return some (← page (dbOf key.tableOid) frame)
  | .newPage key content => do
      let frame ← PagePool.newPage flushLog (dbOf key.tableOid) key.tableOid key.pageId
      PagePool.modifyPage (dbOf key.tableOid) frame fun _ => content
      return some content
  | .modifyPage key f => do
      let frame ← PagePool.getPage flushLog (dbOf key.tableOid) key.tableOid key.pageId
      PagePool.modifyPage (dbOf key.tableOid) frame f
      return some (← page (dbOf key.tableOid) frame)
  | .flush regularOnly => do
      PagePool.flush flushLog regularOnly
      return none
  | .clear => do
      PagePool.clear
      return none

/-- The pool with what its callers did. -/
structure PoolHistory where
  σ : PagePool
  /-- The content last written to a page: that of the files to begin with, and after
  a `Clear`, which drops what was written since. -/
  latest : TablePageid → Option TablePage
  /-- The pages of user tables in order of their last access since the last `Flush`
  or `Clear`, the last one first. -/
  recent : List TablePageid

/-- The file of a page. -/
def TablePageid.path (dbOf : Nat → Nat) (key : TablePageid) : FilePath :=
  ⟨dbOf key.tableOid, key.tableOid⟩

/-- What the files hold of each page. -/
def TableFiles.images (disk : TableFiles) (dbOf : Nat → Nat) (key : TablePageid) :
    Option TablePage :=
  disk.image? (key.path dbOf) key.pageId

namespace PoolHistory

/-- A process starts with an empty pool. -/
def start (dbOf : Nat → Nat) (files : FilePath → Option DataFile) : PoolHistory where
  σ := { disk := { files := files } }
  latest := TableFiles.images { files := files } dbOf
  recent := []

/-- The content of the pages after a call that returned. -/
def latestAfter (dbOf : Nat → Nat) (h : PoolHistory) (σ' : PagePool) (result : Option TablePage) :
    PoolOp → TablePageid → Option TablePage
  | .newPage key _ => fun k => if k = key then result else h.latest k
  | .modifyPage key _ => fun k => if k = key then result else h.latest k
  | .clear => σ'.disk.images dbOf
  | .getPage _ => h.latest
  | .flush _ => h.latest

/-- A page was accessed. -/
def accessed (dbOf : Nat → Nat) (key : TablePageid) (recent : List TablePageid) :
    List TablePageid :=
  if dbOf key.tableOid = systemDatabaseOid then recent else Recency.access key recent

/-- The user pages accessed, after a call that returned. -/
def recentAfter (dbOf : Nat → Nat) (h : PoolHistory) (op : PoolOp) : List TablePageid :=
  match op.key? with
  | none => []
  | some key => accessed dbOf key h.recent

/-- A call. One that throws leaves what it had changed by then; the callers go on. -/
def step (dbOf : Nat → Nat) (flushLog : FlushLog) (op : PoolOp) (h : PoolHistory) : PoolHistory :=
  match op.run dbOf flushLog h.σ with
  | .ok result σ' =>
      { σ := σ', latest := h.latestAfter dbOf σ' result op, recent := h.recentAfter dbOf op }
  | .error _ σ' => { h with σ := σ' }

end PoolHistory

/-- The runs whose calls all meet a condition on the state before them. -/
inductive PoolRun (dbOf : Nat → Nat) (ok : FlushLog → PoolOp → PoolHistory → Prop) :
    PoolHistory → Prop
  | start (files : FilePath → Option DataFile) : PoolRun dbOf ok (.start dbOf files)
  | step {h : PoolHistory} (flushLog : FlushLog) (op : PoolOp) :
      PoolRun dbOf ok h → ok flushLog op h → PoolRun dbOf ok (h.step dbOf flushLog op)

namespace PoolHistory

/-- Calls one after the other, where the log can be written. -/
def calls (dbOf : Nat → Nat) (ops : List PoolOp) (h : PoolHistory) : PoolHistory :=
  ops.foldl (fun h op => h.step dbOf (fun _ _ => .ok ()) op) h

/-- Each of them meets a condition. -/
def CallsMeet (dbOf : Nat → Nat) (ok : FlushLog → PoolOp → PoolHistory → Prop) :
    List PoolOp → PoolHistory → Prop
  | [], _ => True
  | op :: ops, h =>
      ok (fun _ _ => .ok ()) op h ∧ CallsMeet dbOf ok ops (h.step dbOf (fun _ _ => .ok ()) op)

theorem CallsMeet.run {dbOf : Nat → Nat} {ok : FlushLog → PoolOp → PoolHistory → Prop}
    {ops : List PoolOp} {h : PoolHistory} (run : PoolRun dbOf ok h)
    (meet : CallsMeet dbOf ok ops h) : PoolRun dbOf ok (h.calls dbOf ops) := by
  induction ops generalizing h with
  | nil => exact run
  | cons op ops ih => exact ih (.step _ op run meet.1) meet.2

end PoolHistory

end HuaDB
