import HuaDB.CommittedRows
import HuaDB.CatalogRel
import HuaDB.Oids

/-!
A clean shutdown and the start after it.

`CloseDatabase` writes every frame back and empties the log buffer; the process after it
loads the table from its file (`restart_restarted`) and has no active transaction. So it
keeps the invariants of the table, and what holds in runs holds across restarts.
-/

namespace HuaDB

open EStateM (RunsFrom)

variable {dbOid oid xid : Nat} {pages pages' : List Nat} {σ₀ σ σ₁ σ' : Engine} {rid : Rid}
  {stored : StoredRecord}

/-! ## Loading the tables -/

/-- Nothing changes but the tables of the catalog and their names. -/
structure LoadsTables (σ σ' : Engine) : Prop where
  disk : σ'.disk = σ.disk
  log : σ'.log = σ.log
  pool : σ'.pool = σ.pool
  txn : σ'.txn = σ.txn
  database : σ'.catalog.currentDatabaseOid = σ.catalog.currentDatabaseOid
  rows : σ'.catalog.rows = σ.catalog.rows
  databases : ∀ name, σ'.catalog.oidManager.name2oid.find? (.database, name) =
    σ.catalog.oidManager.name2oid.find? (.database, name)

namespace LoadsTables

theorem refl (σ : Engine) : LoadsTables σ σ := ⟨rfl, rfl, rfl, rfl, rfl, rfl, fun _ => rfl⟩

theorem trans (σ₁ σ₂ σ₃ : Engine) (h : LoadsTables σ₁ σ₂) (h' : LoadsTables σ₂ σ₃) :
    LoadsTables σ₁ σ₃ where
  disk := h'.disk.trans h.disk
  log := h'.log.trans h.log
  pool := h'.pool.trans h.pool
  txn := h'.txn.trans h.txn
  database := h'.database.trans h.database
  rows := h'.rows.trans h.rows
  databases name := (h'.databases name).trans (h.databases name)

theorem setEntryOid (σ : Engine) (name : String) (oid : Nat) :
    LoadsTables σ { σ with catalog := { σ.catalog with
      oidManager := σ.catalog.oidManager.setEntryOid .table name oid } } :=
  ⟨rfl, rfl, rfl, rfl, rfl, rfl, fun name' => by
    simp [OidManager.setEntryOid, Assoc.find?_insert]⟩

theorem addTable (σ : Engine) (oid : Nat) (table : Table) :
    LoadsTables σ { σ with catalog := { σ.catalog with
      oid2table := σ.catalog.oid2table.insert oid table } } :=
  ⟨rfl, rfl, rfl, rfl, rfl, rfl, fun _ => rfl⟩

/-- A table that exists is only entered. -/
theorem createTable (tableName schema : String) {oid : Nat} (dbOid : Nat) (σ : Engine)
    (hoid : oid ≠ invalidOid) :
    RunsFrom LoadsTables σ (SystemCatalog.createTable tableName schema oid dbOid false) := by
  unfold SystemCatalog.createTable OidManager.entryFor
  refine .get_bind (Db.throwIf_bind fun _ => Db.throwIf_bind fun _ => ?_)
  simp only [if_neg hoid, Bool.false_eq_true, ↓reduceIte]
  refine .modify_bind trans (setEntryOid σ tableName oid) (Db.throwIf_bind fun _ => ?_)
  refine .modify_bind trans (refl _) (.get_bind (Db.ofExcept_bind fun _ _ => ?_))
  exact .modify_bind trans (addTable _ _ _) (.pure refl _)

theorem loadTableRow (row : TableMetaRow) (σ : Engine) :
    RunsFrom LoadsTables σ (SystemCatalog.loadTableRow row) := by
  unfold SystemCatalog.loadTableRow
  refine .modify_bind trans (setEntryOid σ row.tableName row.tableOid) (.get_bind ?_)
  refine Db.ofExcept_bind fun _ _ => .get_bind (Db.ofExcept_bind fun _ _ => ?_)
  exact .modify (addTable _ _ _)

end LoadsTables

/-- The system tables name the database that a process enters when it starts, and the
table as one of its tables. -/
structure SystemRows.Lists (dbOid oid : Nat) (rows : SystemRows) : Prop where
  valid : dbOid ≠ invalidOid
  user : dbOid ≠ systemDatabaseOid
  database : ∃ row ∈ rows.databases, row.dbName = defaultDatabaseName
  databases : ∀ row ∈ rows.databases, row.dbName = defaultDatabaseName → row.dbOid = dbOid
  table : ∃ row ∈ rows.tables, row.tableOid = oid
  tables : ∀ row ∈ rows.tables, row.tableOid = oid → row.dbOid = dbOid

/-- The first page of a table that is loaded from its file. -/
def DataFile.firstPageId (file : DataFile) : Nat := if file.pageCount = 0 then nullPageId else 0

/-- The row of the table makes it known. -/
theorem SystemCatalog.loadTableRow_eq_ok {row : TableMetaRow} {file : DataFile}
    (lists : σ.catalog.rows.Lists dbOid oid) (hdb : σ.catalog.currentDatabaseOid = dbOid)
    (hfile : σ.disk.files ⟨dbOid, oid⟩ = some file) (run : loadTableRow row σ = .ok () σ') :
    σ'.catalog.oid2table.find? oid =
      if row.tableOid = oid then some ⟨oid, dbOid, file.firstPageId⟩
      else σ.catalog.oid2table.find? oid := by
  obtain ⟨_, σ₁, hentry, run⟩ := EStateM.bind_eq_ok_iff.mp run
  cases EStateM.modify_eq_ok_iff.mp hentry
  rw [EStateM.bind_of_ok (EStateM.get_eq_ok_iff.mpr ⟨rfl, rfl⟩)] at run
  dsimp only at run
  rcases hget : SystemCatalog.getDatabaseOid _ row.tableOid with e | dbOid' <;> rw [hget] at run
  · cases run
  rw [Db.ofExcept_ok, pure_bind, EStateM.bind_of_ok (EStateM.get_eq_ok_iff.mpr ⟨rfl, rfl⟩)] at run
  rcases hempty : Disk.emptyFile _ ⟨dbOid', row.tableOid⟩ with e | isEmpty <;>
    rw [hempty] at run
  · cases run
  rw [Db.ofExcept_ok, pure_bind] at run
  cases EStateM.modify_eq_ok_iff.mp run
  dsimp only
  rw [Assoc.find?_insert]
  by_cases hoid : row.tableOid = oid
  · subst hoid
    -- its database is the current one, loaded or not
    have hdbOid : dbOid' = dbOid := by
      unfold SystemCatalog.getDatabaseOid at hget
      split at hget
      · cases hget
        exact hdb
      · split at hget
        · cases hget
        · split at hget
          · rename_i row' hfind
            cases hget
            have hrow' := List.find?_some hfind
            exact lists.tables row' (List.mem_of_find?_eq_some hfind) (of_decide_eq_true hrow')
          · cases hget
    subst hdbOid
    simp only [Disk.emptyFile, hfile] at hempty
    cases hempty
    rw [if_pos rfl, if_pos rfl]
    simp [hdb, DataFile.firstPageId]
  · rw [if_neg hoid, if_neg hoid]

theorem SystemCatalog.loadTableMeta_eq_ok {rows : List TableMetaRow} {file : DataFile}
    (run : loadTableMeta rows σ = .ok () σ') (lists : σ.catalog.rows.Lists dbOid oid)
    (hdb : σ.catalog.currentDatabaseOid = dbOid) (hfile : σ.disk.files ⟨dbOid, oid⟩ = some file)
    (hsub : ∀ row ∈ rows, row.tableOid = oid → row.dbOid = dbOid) :
    LoadsTables σ σ' ∧
      ((∃ row ∈ rows, row.tableOid = oid) ∨
          σ.catalog.oid2table.find? oid = some ⟨oid, dbOid, file.firstPageId⟩ →
        σ'.catalog.oid2table.find? oid = some ⟨oid, dbOid, file.firstPageId⟩) := by
  induction rows generalizing σ with
  | nil =>
      cases run
      refine ⟨.refl _, fun h => h.resolve_left ?_⟩
      rintro ⟨_, hmem, -⟩
      cases hmem
  | cons row rows ih =>
      have hsub' : ∀ row ∈ rows, row.tableOid = oid → row.dbOid = dbOid := fun row hrow =>
        hsub row (List.mem_cons_of_mem _ hrow)
      unfold loadTableMeta at run
      rw [EStateM.bind_of_ok (EStateM.get_eq_ok_iff.mpr ⟨rfl, rfl⟩)] at run
      split at run
      · obtain ⟨_, σ₁, hrow, hrest⟩ := EStateM.bind_eq_ok_iff.mp run
        have loads := LoadsTables.loadTableRow row σ σ₁ () hrow
        have hfind := loadTableRow_eq_ok lists hdb hfile hrow
        obtain ⟨loads', hfind'⟩ := ih hrest (loads.rows ▸ lists) (loads.database.trans hdb)
          (loads.disk ▸ hfile) hsub'
        refine ⟨loads.trans _ _ _ loads', fun h => hfind' ?_⟩
        rw [hfind]
        by_cases hoid : row.tableOid = oid
        · rw [if_pos hoid]
          exact .inr rfl
        · rw [if_neg hoid]
          refine h.imp_left fun hex => ?_
          obtain ⟨row', hmem, hrow'⟩ := hex
          exact ⟨row', (List.mem_cons.mp hmem).resolve_left fun heq => hoid (heq ▸ hrow'), hrow'⟩
      · rename_i hother
        obtain ⟨loads', hfind'⟩ := ih run lists hdb hfile hsub'
        refine ⟨loads', fun h => hfind' (h.imp_left fun hex => ?_)⟩
        obtain ⟨row', hmem, hrow'⟩ := hex
        refine ⟨row', (List.mem_cons.mp hmem).resolve_left fun heq => hother ?_, hrow'⟩
        rw [hdb, ← heq]
        exact hsub row' hmem hrow'

/-- The database of a name, after the rows of `huadb_database` have been entered. -/
theorem OidManager.find?_foldl_setEntryOid {rows : List DatabaseMetaRow} {name : String}
    (h : ∀ row ∈ rows, row.dbName = name → row.dbOid = dbOid) (manager : OidManager)
    (hentered : (∃ row ∈ rows, row.dbName = name) ∨
      manager.name2oid.find? (.database, name) = some dbOid) :
    (rows.foldl (fun manager row => manager.setEntryOid .database row.dbName row.dbOid)
      manager).name2oid.find? (.database, name) = some dbOid := by
  induction rows generalizing manager with
  | nil =>
      refine hentered.resolve_left ?_
      rintro ⟨_, hmem, -⟩
      cases hmem
  | cons row rows ih =>
      refine ih (fun row' hrow' => h row' (List.mem_cons_of_mem _ hrow')) _ ?_
      change _ ∨ (manager.name2oid.insert (.database, row.dbName) row.dbOid).find?
        (.database, name) = some dbOid
      rw [Assoc.find?_insert]
      by_cases hname : row.dbName = name
      · exact .inr (by rw [if_pos (by rw [hname]), h row List.mem_cons_self hname])
      · rw [if_neg fun heq => hname (congrArg Prod.snd heq)]
        refine hentered.imp_left fun hex => ?_
        obtain ⟨row', hmem, hrow'⟩ := hex
        exact ⟨row', (List.mem_cons.mp hmem).resolve_left fun heq => hname (heq ▸ hrow'), hrow'⟩

/-- A process that has loaded the table from its file. -/
structure Loaded (dbOid oid : Nat) (file : DataFile) (σ σ' : Engine) : Prop where
  disk : σ'.disk = σ.disk
  log : σ'.log = σ.log
  pool : σ'.pool = σ.pool
  txn : σ'.txn = σ.txn
  database : σ'.catalog.currentDatabaseOid = dbOid
  rows : σ'.catalog.rows = σ.disk.systemRows
  table : σ'.catalog.oid2table.find? oid = some ⟨oid, dbOid, file.firstPageId⟩

theorem SystemCatalog.requireTable_eq_ok {oid : Nat} (run : requireTable oid σ = .ok () σ') :
    σ' = σ := by
  have h : RunsFrom Eq σ (requireTable oid) :=
    .get_bind (Db.ofExcept_bind fun _ _ => .pure (fun _ => rfl) _)
  exact (h σ' () run).symm

theorem SystemCatalog.enterDatabase_eq_ok {file : DataFile}
    (run : enterDatabase dbOid σ = .ok () σ') (lists : σ.catalog.rows.Lists dbOid oid)
    (hdb : σ.catalog.currentDatabaseOid = invalidOid)
    (hfile : σ.disk.files ⟨dbOid, oid⟩ = some file) :
    σ'.disk = σ.disk ∧ σ'.log = σ.log ∧ σ'.pool = σ.pool ∧ σ'.txn = σ.txn ∧
      σ'.catalog.currentDatabaseOid = dbOid ∧ σ'.catalog.rows = σ.catalog.rows ∧
        σ'.catalog.oid2table.find? oid = some ⟨oid, dbOid, file.firstPageId⟩ := by
  unfold enterDatabase exitCurrentDatabase at run
  obtain ⟨_, σ₁, hexit, run⟩ := EStateM.bind_eq_ok_iff.mp run
  rw [EStateM.bind_of_ok (EStateM.get_eq_ok_iff.mpr ⟨rfl, rfl⟩), if_pos hdb] at hexit
  cases hexit
  obtain ⟨_, σ₂, hmodify, run⟩ := EStateM.bind_eq_ok_iff.mp run
  cases EStateM.modify_eq_ok_iff.mp hmodify
  rw [if_neg lists.user] at run
  obtain ⟨_, σ₃, hmeta, run⟩ := EStateM.bind_eq_ok_iff.mp run
  cases requireTable_eq_ok hmeta
  rw [EStateM.bind_of_ok (EStateM.get_eq_ok_iff.mpr ⟨rfl, rfl⟩)] at run
  obtain ⟨_, σ₄, hload, hstatistic⟩ := EStateM.bind_eq_ok_iff.mp run
  cases requireTable_eq_ok hstatistic
  obtain ⟨loads, hfind⟩ := loadTableMeta_eq_ok hload lists rfl hfile lists.tables
  exact ⟨loads.disk, loads.log, loads.pool, loads.txn, loads.database, loads.rows,
    hfind (.inl lists.table)⟩

/-- `LoadSystemTables` opens the default database with its tables. -/
theorem SystemCatalog.loadSystemTables_eq_ok {file : DataFile}
    (run : loadSystemTables σ = .ok () σ') (lists : σ.disk.systemRows.Lists dbOid oid)
    (hdb : σ.catalog.currentDatabaseOid = invalidOid)
    (hfile : σ.disk.files ⟨dbOid, oid⟩ = some file) :
    Loaded dbOid oid file σ σ' := by
  obtain ⟨_, σ₁, htable, run⟩ := EStateM.bind_eq_ok_iff.mp run
  obtain ⟨_, σ₂, hdatabase, run⟩ := EStateM.bind_eq_ok_iff.mp run
  obtain ⟨_, σ₃, hstatistic, run⟩ := EStateM.bind_eq_ok_iff.mp run
  have loads : LoadsTables σ σ₃ :=
    .trans _ _ _ (LoadsTables.createTable _ _ _ _ (by decide) _ _ htable)
      (.trans _ _ _ (LoadsTables.createTable _ _ _ _ (by decide) _ _ hdatabase)
        (LoadsTables.createTable _ _ _ _ (by decide) _ _ hstatistic))
  obtain ⟨_, σ₄, hmodify, run⟩ := EStateM.bind_eq_ok_iff.mp run
  cases EStateM.modify_eq_ok_iff.mp hmodify
  have hname := OidManager.find?_foldl_setEntryOid lists.databases σ₃.catalog.oidManager
    (.inl lists.database)
  unfold changeDatabase at run
  rw [EStateM.bind_of_ok (EStateM.get_eq_ok_iff.mpr ⟨rfl, rfl⟩)] at run
  obtain ⟨_, σ₄, hexists, run⟩ := EStateM.bind_eq_ok_iff.mp run
  unfold Db.throwIf at hexists
  split at hexists
  · cases hexists
  cases hexists
  have hget : OidManager.getEntryOid (σ₃.disk.systemRows.databases.foldl
      (fun manager row => manager.setEntryOid .database row.dbName row.dbOid)
      σ₃.catalog.oidManager) .database defaultDatabaseName = .ok dbOid := by
    rw [OidManager.getEntryOid, loads.disk, hname]
  dsimp only at run
  rw [hget, Db.ofExcept_ok, pure_bind, if_neg] at run
  · obtain ⟨hdisk, hlog, hpool, htxn, hcurrent, hrows, hfind⟩ :=
      enterDatabase_eq_ok run (loads.disk ▸ lists) (loads.database.trans hdb) (loads.disk ▸ hfile)
    exact ⟨hdisk.trans loads.disk, hlog.trans loads.log, hpool.trans loads.pool,
      htxn.trans loads.txn, hcurrent, hrows.trans (by rw [loads.disk]), hfind⟩
  · rw [loads.database, hdb]
    exact lists.valid

/-! ## Shutting down and starting again -/

/-- A checkpoint leaves nothing buffered. -/
theorem ChainOk.checkpointed_logBuffer (ok : ChainOk σ) :
    ((LogManager.checkpointLogged σ).flushLog
      (σ.log.nextLsn + LogRecord.headerSize)).log.logBuffer = [] := by
  obtain ⟨_, _, split⟩ := ok.split
  rw [Engine.flushLog_logBuffer, List.filter_eq_nil_iff]
  intro r hr
  have hle : r.lsn ≤ σ.log.nextLsn + LogRecord.headerSize := by
    simp only [LogManager.checkpointLogged, LogManager.appendedWith_logBuffer,
      LogManager.appendedWith_nextLsn, List.mem_append, List.mem_singleton] at hr
    rcases hr with (hr | rfl) | rfl
    · exact Nat.le_trans (Nat.le_of_lt (split.bufferTiles.pos_lt LogRecord.getSize_pos hr))
        (Nat.le_add_right _ _)
    · exact Nat.le_add_right _ _
    · exact Nat.le_refl _
  simp [LogRecord.isDue, hle]

/-- A log manager that takes over a log that was flushed. -/
theorem ChainOk.reopened (ok : ChainOk σ) (hbuffer : σ.log.logBuffer = [])
    (hlog : σ'.disk.log = σ.disk.log) (hfile : σ'.disk.nextLsnFile = σ.disk.nextLsnFile)
    (hnew : σ'.log = .new σ.log.nextLsn) : ChainOk σ' := by
  obtain ⟨start, mid, split⟩ := ok.split
  have hmid : mid = σ.log.nextLsn := by
    have htiles := split.bufferTiles
    rw [hbuffer] at htiles
    exact htiles
  subst hmid
  have happ : σ'.appended = σ.appended := by
    rw [Engine.appended, Engine.appended, hlog, hnew, hbuffer]
    rfl
  refine { split := ⟨start, σ.log.nextLsn, ?_⟩, range := ?_, chained := happ ▸ ok.chained,
           att := fun xid lsn hfind => ?_ }
  · refine .of_new (hlog ▸ split.doneTiles) (fun h => ?_) (fun h => ?_) hnew
    · rw [Disk.logEnd, hfile]
      exact split.end_le (hlog ▸ h)
    · exact hfile.trans (split.end_eq (hlog ▸ h))
  · rw [hnew]
    exact ok.range
  · rw [hnew] at hfind
    cases hfind

/-- A process that took over a table from one that was shut down. -/
structure Restarted (dbOid oid : Nat) (σ σ' : Engine) : Prop where
  log : ChainOk σ'
  att : σ'.log.att = []
  txn : σ'.txn = { nextXid := σ.txn.nextXid }
  pool : σ'.pool = {}
  shows' : Shows dbOid oid σ σ'
  database : σ'.catalog.currentDatabaseOid = dbOid
  rows : σ'.catalog.rows = σ.catalog.rows
  init : σ'.disk.init = true
  table : ∃ file, σ'.disk.files ⟨dbOid, oid⟩ = some file ∧
    σ'.catalog.oid2table.find? oid = some ⟨oid, dbOid, file.firstPageId⟩

/-- An engine that was closed, before the control file is written. -/
structure Closed (dbOid oid : Nat) (σ σ' : Engine) : Prop where
  log : ChainOk σ'
  logBuffer : σ'.log.logBuffer = []
  txn : σ'.txn = σ.txn
  file : (σ'.disk.files ⟨dbOid, oid⟩).isSome
  images : ∀ pageId page, σ.view dbOid ⟨oid, pageId⟩ = some page →
    σ'.disk.image? ⟨dbOid, oid⟩ pageId = some page

/-- After `BufferPool::Flush` every page is seen on disk. -/
theorem Cached.flushBuffers_unmapped (ok : Cached dbOid oid σ) (key : TablePageid) :
    (σ.flushBuffers false).pool.hashmap key = none := by
  obtain ⟨cached, -⟩ := ok.flushBuffers false
  cases hmap : (σ.flushBuffers false).pool.hashmap key with
  | none => rfl
  | some i =>
      obtain ⟨-, entry, hentry, -⟩ := cached.mapped key i hmap
      cases hentry

/-- The control file of an engine that was closed. -/
def Engine.closingControl (σ : Engine) : Control :=
  ⟨σ.txn.nextXid, σ.log.nextLsn, σ.catalog.oidManager.nextOid, true⟩

theorem DatabaseEngine.closeDatabase_eq_ok (run : closeDatabase σ = .ok () σ') :
    ∃ lsn σ₁, LogManager.checkpoint ((σ.flushBuffers false).flushLog nullLsn) = .ok lsn σ₁ ∧
      σ₁.disk.systemRows = σ.catalog.rows ∧ σ₁.disk.init = σ.disk.init ∧
        σ' = { σ₁ with disk := { σ₁.disk with control := some σ₁.closingControl } } := by
  obtain ⟨_, _, hflush, run⟩ := EStateM.bind_eq_ok_iff.mp run
  cases EStateM.modify_eq_ok_iff.mp hflush
  obtain ⟨_, _, hlog, run⟩ := EStateM.bind_eq_ok_iff.mp run
  cases EStateM.modify_eq_ok_iff.mp hlog
  obtain ⟨lsn, σ₁, hcheckpoint, run⟩ := EStateM.bind_eq_ok_iff.mp run
  cases EStateM.modify_eq_ok_iff.mp run
  have hflushed : SameObjects σ ((List.range σ.pool.buffers.length).foldl Engine.flushPage σ) :=
    SameObjects.foldl_flushPage _ σ
  have same : SameObjects (σ.flushBuffers false) σ₁ := .trans _ _ _ (.flushLog _ nullLsn)
    (SameObjects.checkpoint _ _ _ hcheckpoint)
  exact ⟨lsn, σ₁, hcheckpoint, same.systemRows.trans hflushed.rows, same.init.trans hflushed.init, rfl⟩

theorem Closed.of_run {lsn : Nat} (chain : ChainOk σ) (cached : Cached dbOid oid σ)
    (hcheckpoint : LogManager.checkpoint ((σ.flushBuffers false).flushLog nullLsn) = .ok lsn σ₁)
    (range : σ₁.log.nextLsn ≤ nullLsn) : Closed dbOid oid σ σ₁ := by
  obtain ⟨cached', shows'⟩ := cached.flushBuffers false
  have quiet : Quiet σ (σ.flushBuffers false) := Quiet.poolRel.flushBuffers
    (fun _ _ => .of_eq rfl rfl rfl rfl rfl rfl rfl rfl) σ false
  have chain' : ChainOk ((σ.flushBuffers false).flushLog nullLsn) := (quiet.log chain).1.flushLog _
  have saves := Saves.of_run chain' hcheckpoint range
  have hfiles : σ₁.disk.files = (σ.flushBuffers false).disk.files :=
    saves.files.trans (Engine.flushLog_files _ _)
  refine ⟨saves.log, ?_, ?_, ?_, fun pageId page hview => ?_⟩
  · rw [LogManager.checkpoint_eq] at hcheckpoint
    cases hcheckpoint
    exact chain'.checkpointed_logBuffer
  · rw [saves.txn, Engine.flushLog_txn, quiet.txn]
  · rw [hfiles]
    exact cached'.file
  · have hview' := shows' pageId page hview
    rw [Engine.view_of_none (cached.flushBuffers_unmapped _)] at hview'
    rw [Disk.image?_congr (congrFun hfiles _), hview']

/-- The catalog appends nothing to the log. -/
theorem CatalogRel.nextLsn : CatalogRel fun σ σ' => σ'.log.nextLsn = σ.log.nextLsn where
  refl _ := rfl
  trans _ _ _ h h' := h'.trans h
  catalog _ _ := rfl
  createFile _ _ := rfl
  removeFile _ _ := rfl
  removeDirectory _ _ := rfl
  flushBuffers σ regularOnly := (Quiet.poolRel.flushBuffers
    (fun _ _ => .of_eq rfl rfl rfl rfl rfl rfl rfl rfl) σ regularOnly).nextLsn

/-- The process after a shutdown, before it loads the system tables. -/
def Engine.reopening (σ : Engine) : Engine :=
  DatabaseEngine.restoreControl σ.closingControl
    (.ofDisk { σ.disk with control := some σ.closingControl })

/-- A clean shutdown and the start after it. -/
theorem restart_restarted (chain : ChainOk σ) (cached : Cached dbOid oid σ)
    (lists : σ.catalog.rows.Lists dbOid oid) (hinit : σ.disk.init = true)
    (run : Op.restart.exec σ = .ok () σ') (range : σ'.log.nextLsn ≤ nullLsn) :
    Restarted dbOid oid σ σ' := by
  obtain ⟨_, σ₂, hclose, hboot⟩ := EStateM.bind_eq_ok_iff.mp run
  obtain ⟨lsn, σ₁, hcheckpoint, hrows, hinit₁, rfl⟩ := DatabaseEngine.closeDatabase_eq_ok hclose
  have hboot : Op.boot { σ₁.disk with control := some σ₁.closingControl } = .ok () σ' := hboot
  obtain ⟨σ₃, hload, hrecover⟩ := Op.boot_eq_ok rfl (by exact hinit₁.trans hinit) hboot
  cases hrecover
  have hload : SystemCatalog.loadSystemTables σ₁.reopening = .ok () σ' := hload
  have hnext : σ'.log.nextLsn = σ₁.reopening.log.nextLsn :=
    CatalogRel.nextLsn.loadSystemTables _ _ _ hload
  have closed : Closed dbOid oid σ σ₁ := .of_run chain cached hcheckpoint (hnext ▸ range)
  obtain ⟨file, hfile⟩ := Option.isSome_iff_exists.mp closed.file
  have lists₁ : σ₁.disk.systemRows.Lists dbOid oid := hrows ▸ lists
  have loaded := SystemCatalog.loadSystemTables_eq_ok hload lists₁ rfl hfile
  refine ⟨closed.log.reopened closed.logBuffer (by rw [loaded.disk]; rfl) (by rw [loaded.disk]; rfl)
    loaded.log, by rw [loaded.log]; rfl, ?_, loaded.pool, fun pageId page hview => ?_,
    loaded.database, loaded.rows.trans hrows, ?_, file, ?_, loaded.table⟩
  · rw [loaded.txn, ← closed.txn]
    rfl
  · rw [Engine.view_of_none (by rw [loaded.pool]; rfl), loaded.disk]
    exact closed.images pageId page hview
  · rw [loaded.disk]
    exact hinit₁.trans hinit
  · rw [loaded.disk]
    exact hfile

/-! ## Runs with restarts -/

/-- The system tables stay, and no table changes but for its first page, which is page 0
then. -/
structure KeepsTables (σ σ' : Engine) : Prop where
  rows : σ'.catalog.rows = σ.catalog.rows
  init : σ'.disk.init = σ.disk.init
  tables : ∀ oid, σ'.catalog.oid2table.find? oid = σ.catalog.oid2table.find? oid ∨
    ∃ table, σ.catalog.oid2table.find? oid = some table ∧
      σ'.catalog.oid2table.find? oid = some { table with firstPageId := 0 }

namespace KeepsTables

theorem of_eq (h : σ'.catalog = σ.catalog) (hinit : σ'.disk.init = σ.disk.init) : KeepsTables σ σ' :=
  ⟨by rw [h], hinit, fun _ => .inl (by rw [h])⟩

theorem refl (σ : Engine) : KeepsTables σ σ := of_eq rfl rfl

theorem trans (σ₁ σ₂ σ₃ : Engine) (h : KeepsTables σ₁ σ₂) (h' : KeepsTables σ₂ σ₃) :
    KeepsTables σ₁ σ₃ := by
  refine ⟨h'.rows.trans h.rows, h'.init.trans h.init, fun oid => ?_⟩
  rcases h.tables oid with heq | ⟨table, hfind, heq⟩ <;>
    rcases h'.tables oid with heq' | ⟨table', hfind', heq'⟩
  · exact .inl (heq'.trans heq)
  · exact .inr ⟨table', heq.symm.trans hfind', heq'⟩
  · exact .inr ⟨table, hfind, heq'.trans heq⟩
  · cases heq.symm.trans hfind'
    exact .inr ⟨table, hfind, heq'⟩

theorem flushLog (σ : Engine) (lsn : Nat) : KeepsTables σ (σ.flushLog lsn) :=
  of_eq (σ.flushLog_catalog lsn) (σ.flushLog_init lsn)

theorem storageRel : StorageRel KeepsTables where
  refl := refl
  trans := trans
  pool _ _ := of_eq rfl rfl
  flushPage σ frame := of_eq (σ.flushPage_catalog frame) (SameObjects.storageRel.flushPage σ frame).init
  push _ _ _ _ := of_eq rfl rfl
  tables _ _ _ := of_eq rfl rfl
  flushLog := flushLog

theorem insertRecord (oid : Nat) (record : Record) (xid cid : Nat) (σ : Engine) :
    RunsFrom KeepsTables σ (Table.insertRecord oid record xid cid) := by
  refine storageRel.insertRecord (fun σ oid table hfind => ⟨rfl, rfl, fun oid' => ?_⟩) oid record
    xid cid σ
  dsimp only
  rw [Assoc.find?_insert]
  split
  · rename_i heq
    exact .inr ⟨table, heq ▸ hfind, rfl⟩
  · exact .inl rfl

/-- The steps of transactions. -/
theorem exec {op : Op} (regular : op.Regular dbOid oid σ) : RunsFrom KeepsTables σ op.exec := by
  cases op with
  | begin =>
      refine .bind trans (fun σ' xid run => ?_) fun _ _ => .pure refl _
      obtain ⟨-, -, rfl⟩ := DatabaseEngine.begin_eq_ok run
      exact of_eq rfl rfl
  | insert xid oid' cid data =>
      exact .bind trans (insertRecord _ _ _ _ σ) fun _ _ => .pure refl _
  | delete xid oid' rid => exact storageRel.deleteRecord _ _ _ σ
  | commit xid =>
      refine .bind trans (storageRel.appendEndLog _ _ _ σ) fun _ σ₁ => .get_bind ?_
      exact .bind trans (storageRel.ofExcept _ σ₁) fun _ _ => .modify (of_eq rfl rfl)
  | rollback xid =>
      refine .bind trans (storageRel.rollback xid σ) fun _ σ₁ => ?_
      refine .bind trans (storageRel.appendEndLog _ _ _ σ₁) fun _ σ₂ => .get_bind ?_
      exact .bind trans (storageRel.ofExcept _ σ₂) fun _ _ => .modify (of_eq rfl rfl)
  | checkpoint =>
      refine .bind trans (fun σ' lsn run => ?_) fun _ _ => .pure refl _
      rw [LogManager.checkpoint_eq] at run
      cases run
      exact of_eq (Engine.flushLog_catalog _ _) (Engine.flushLog_init _ _)
  | fetch oid' pageId =>
      refine .get_bind (Db.ofExcept_bind fun _ _ => ?_)
      exact .bind trans (storageRel.getPage _ _ _ σ) fun _ _ => .pure refl _
  | flush => exact .modify (storageRel.flushBuffers (fun _ _ => of_eq rfl rfl) σ false)
  | createTable | dropTable | createDatabase | dropDatabase | changeDatabase | restart | crash =>
      exact regular.elim

end KeepsTables

/-- The runs on a table in which the engine may also be closed and started again. -/
inductive RestartRun (dbOid oid : Nat) (σ₀ : Engine) : Engine → Prop
  | refl : RestartRun dbOid oid σ₀ σ₀
  | step {σ σ' : Engine} {op : Op} : RestartRun dbOid oid σ₀ σ → op.Regular dbOid oid σ →
      op.exec σ = .ok () σ' → σ'.log.nextLsn < 2 ^ 32 → RestartRun dbOid oid σ₀ σ'
  | restart {σ σ' : Engine} : RestartRun dbOid oid σ₀ σ → Op.restart.exec σ = .ok () σ' →
      σ'.log.nextLsn < 2 ^ 32 → RestartRun dbOid oid σ₀ σ'

/-- The invariant of such a run: the table has its first page, and the system tables
tell the next process of it. -/
structure Serves (dbOid oid : Nat) (pages : List Nat) (σ : Engine) : Prop
    extends Runs dbOid oid pages σ where
  first : ∃ table, σ.catalog.oid2table.find? oid = some table ∧ table.firstPageId = 0
  lists : σ.catalog.rows.Lists dbOid oid
  init : σ.disk.init = true

namespace Serves

theorem find?_zero (h : KeepsTables σ σ')
    (first : ∃ table, σ.catalog.oid2table.find? oid = some table ∧ table.firstPageId = 0) :
    ∃ table, σ'.catalog.oid2table.find? oid = some table ∧ table.firstPageId = 0 := by
  obtain ⟨table, hfind, hzero⟩ := first
  rcases h.tables oid with heq | ⟨table', -, heq⟩
  · exact ⟨table, heq.trans hfind, hzero⟩
  · exact ⟨_, heq, rfl⟩

theorem exec (ok : Serves dbOid oid pages σ) {op : Op} (regular : op.Regular dbOid oid σ)
    (run : op.exec σ = .ok () σ') (small : σ'.log.nextLsn < 2 ^ 32) :
    ∃ pages', Serves dbOid oid pages' σ' := by
  obtain ⟨pages', ok'⟩ := ok.toRuns.exec regular run small
  have keeps := KeepsTables.exec regular _ _ run
  exact ⟨pages', ok', find?_zero keeps ok.first, keeps.rows ▸ ok.lists, keeps.init.trans ok.init⟩

/-- The first page is linked. -/
theorem zero_mem (ok : Serves dbOid oid pages σ) : 0 ∈ pages := by
  obtain ⟨table, hfind, -, chain⟩ := ok.table.chain
  obtain ⟨table', hfind', hzero⟩ := ok.first
  cases hfind.symm.trans hfind'
  rw [← chain.linked.reached_iff, hzero]
  exact .start (by decide)

theorem cached_of_pool_eq (hpool : σ.pool = {}) (hfile : (σ.disk.files ⟨dbOid, oid⟩).isSome) :
    Cached dbOid oid σ := by
  refine ⟨⟨hfile, fun key i hmap => ?_, fun i entry _ hentry => ?_⟩, ?_⟩
  · rw [hpool] at hmap
    cases hmap
  · rw [hpool] at hentry
    cases hentry
  · rw [hpool]
    exact ⟨List.nodup_nil, fun _ h => absurd h List.not_mem_nil,
      fun i h => absurd h (Nat.not_lt_zero i), Nat.zero_le _⟩

/-- The next process has the pages and the rows of the table, and no active transaction. -/
theorem restarted (ok : Serves dbOid oid pages σ) (next : Restarted dbOid oid σ σ')
    (small : σ'.log.nextLsn < 2 ^ 32) :
    Serves dbOid oid pages σ' ∧ σ'.rows dbOid oid pages = σ.rows dbOid oid pages := by
  obtain ⟨file, hfile, hfind⟩ := next.table
  have hrows := next.shows'.rows_eq ok.table.seen
  have hzero : file.firstPageId = 0 := by
    obtain ⟨page, hview, -⟩ := ok.table.chain.exists_view ok.zero_mem
    have hview' := next.shows' _ _ hview
    rw [Engine.view_of_none (by rw [next.pool]), Disk.image?_eq_some_iff] at hview'
    obtain ⟨file', hfile', hlt, -⟩ := hview'
    cases hfile.symm.trans hfile'
    exact if_neg (Nat.ne_of_gt hlt)
  have chain : σ'.Pages dbOid oid pages := by
    obtain ⟨table, htable, -, chain⟩ := ok.table.chain
    obtain ⟨table', htable', hfirst⟩ := ok.first
    cases htable.symm.trans htable'
    exact ⟨_, hfind, rfl, hzero.trans hfirst.symm ▸ chain.of_shows next.shows'⟩
  have hnone (xid : Nat) : ¬ (σ'.log.att.find? xid).isSome := by
    rw [next.att]
    exact Bool.false_ne_true
  have hxids (xid : Nat) : ¬ (σ'.txn.xid2cid.find? xid).isSome := by
    rw [next.txn]
    exact Bool.false_ne_true
  have hnext : σ'.txn.nextXid = σ.txn.nextXid := by rw [next.txn]
  refine ⟨⟨⟨⟨next.log, small, fun xid h => absurd h (hxids xid),
    cached_of_pool_eq next.pool (by rw [hfile]; rfl), next.database, chain,
    fun xid h => absurd h (hnone xid), fun xid h => absurd h (hnone xid),
    fun xid _ _ h => absurd h (hnone xid)⟩, ⟨hnext ▸ ok.rows.first, fun xid h => absurd h (hnone xid),
    fun rid stored hrow => ?_, fun _ _ _ h => absurd h (hnone _), fun xid h => absurd h (hnone xid),
    fun _ _ _ h => absurd h (hnone _), fun xid _ _ h => absurd h (hnone xid)⟩⟩,
    ⟨_, hfind, hzero⟩, next.rows ▸ ok.lists, next.init⟩, hrows⟩
  rw [hrows] at hrow
  rw [hnext]
  exact ok.rows.born rid stored hrow

theorem restart (ok : Serves dbOid oid pages σ) (run : Op.restart.exec σ = .ok () σ')
    (small : σ'.log.nextLsn < 2 ^ 32) :
    Restarted dbOid oid σ σ' ∧ Serves dbOid oid pages σ' ∧
      σ'.rows dbOid oid pages = σ.rows dbOid oid pages := by
  have next := restart_restarted ok.table.log ok.table.cached ok.lists ok.init run
    (Nat.le_trans (Nat.le_of_lt small) (by decide))
  exact ⟨next, ok.restarted next small⟩

theorem of_run (ok : Serves dbOid oid pages σ) (run : RestartRun dbOid oid σ σ') :
    ∃ pages', Serves dbOid oid pages' σ' := by
  induction run with
  | refl => exact ⟨pages, ok⟩
  | step _ regular hexec small ih =>
      obtain ⟨pages, ok⟩ := ih
      exact ok.exec regular hexec small
  | restart _ hrestart small ih =>
      obtain ⟨pages, ok⟩ := ih
      exact ⟨pages, (ok.restart hrestart small).2.1⟩

end Serves

/-- A process that opened the table and has a page of it. -/
structure Serving (dbOid oid : Nat) (σ₀ σ : Engine) : Prop where
  opened : TableOpened dbOid oid σ₀
  init : σ₀.disk.init = true
  lists : σ₀.catalog.rows.Lists dbOid oid
  first : ∀ table, σ₀.catalog.oid2table.find? oid = some table →
    table.firstPageId = 0 ∨ table.firstPageId = nullPageId
  run : TableRun dbOid oid σ₀ σ
  page : ∃ p, σ.Linked dbOid oid p

theorem TableRun.keeps (run : TableRun dbOid oid σ₀ σ) : KeepsTables σ₀ σ := by
  induction run with
  | refl => exact .refl _
  | step _ regular hexec _ ih => exact ih.trans _ _ _ (.exec regular _ _ hexec)

theorem Serves.of_serving (serving : Serving dbOid oid σ₀ σ) : ∃ pages, Serves dbOid oid pages σ := by
  obtain ⟨pages, ok⟩ := Runs.of_run serving.opened serving.run
  have keeps := serving.run.keeps
  obtain ⟨table, hfind, -, chain⟩ := ok.table.chain
  refine ⟨pages, ok, ⟨table, hfind, ?_⟩, keeps.rows ▸ serving.lists, keeps.init.trans serving.init⟩
  have hfirst : table.firstPageId = 0 ∨ table.firstPageId = nullPageId := by
    rcases keeps.tables oid with heq | ⟨table', -, heq⟩
    · exact serving.first table (heq.symm.trans hfind)
    · cases heq.symm.trans hfind
      exact .inl rfl
  refine hfirst.resolve_right fun hnull => ?_
  -- a table without a first page has no page
  obtain ⟨p, hlinked⟩ := serving.page
  rw [ok.table.chain.linked_iff] at hlinked
  have hlinks := chain.linked
  rw [hnull] at hlinks
  cases pages with
  | nil => cases hlinked
  | cons q pages => exact hlinks.1 rfl

/-- The row of a transaction that is over, on its way through restarts. -/
theorem Serves.row_kept (ok : Serves dbOid oid pages σ) (later : RestartRun dbOid oid σ σ')
    (hrow : σ.HasRow dbOid oid rid stored) (ended : σ.Ended stored.record.header.xmin) :
    ∃ stored', σ'.HasRow dbOid oid rid stored' ∧ stored.SameVersion stored' ∧
      σ'.Ended stored.record.header.xmin := by
  induction later with
  | refl => exact ⟨stored, hrow, .refl stored, ended⟩
  | step later regular hexec small ih =>
      obtain ⟨pages₁, ok₁⟩ := ok.of_run later
      obtain ⟨stored₁, hrow₁, same₁, ended₁⟩ := ih
      obtain ⟨stored', hrow', same', -⟩ :=
        ok₁.exec_row regular hexec small hrow₁ (same₁.xmin ▸ ended₁)
      exact ⟨stored', hrow', same₁.trans same', ok₁.exec_ended regular hexec small ended₁⟩
  | restart later hrestart small ih =>
      obtain ⟨pages₁, ok₁⟩ := ok.of_run later
      obtain ⟨stored₁, hrow₁, same₁, ended₁⟩ := ih
      obtain ⟨next, ok', hrows⟩ := ok₁.restart hrestart small
      rw [ok₁.table.chain.hasRow_iff] at hrow₁
      refine ⟨stored₁, ok'.table.chain.hasRow_iff.mpr (hrows ▸ hrow₁), same₁, ?_, ?_⟩
      · rw [next.txn]
        exact ended₁.old
      · rw [next.att]
        exact Bool.false_ne_true

/-- A process with one empty table, in the database that the next process enters. -/
def Engine.listedTable : Engine :=
  let σ := Engine.oneTable 10000 10001 1 1
  { σ with
    disk := {
      init := true
      files := fun path =>
        if path = ⟨10000, 10001⟩ ∨ path.dbOid = systemDatabaseOid then some .empty else none }
    catalog := { σ.catalog with
      rows := { tables := [⟨10001, 10000, "t", ""⟩], databases := [⟨10000, defaultDatabaseName⟩] } } }

theorem opened_listedTable : TableOpened 10000 10001 .listedTable where
  log := ⟨rfl, Nat.zero_le _, rfl, by decide⟩
  small := by decide
  pool := rfl
  txn := rfl
  nextXid := Nat.le_refl _
  database := rfl
  file := rfl
  rows := by
    refine ⟨[], ⟨⟨10001, 10000, nullPageId⟩, rfl, rfl, rfl, .nil,
      fun _ h => absurd h List.not_mem_nil⟩, fun rid stored hrow => ?_⟩
    rw [Engine.rows_of_not_mem List.not_mem_nil] at hrow
    cases hrow

theorem lists_listedTable : Engine.listedTable.catalog.rows.Lists 10000 10001 where
  valid := by decide
  user := by decide
  database := ⟨_, List.mem_singleton_self _, rfl⟩
  databases row hrow _ := List.mem_singleton.mp hrow ▸ rfl
  table := ⟨_, List.mem_singleton_self _, rfl⟩
  tables row hrow _ := List.mem_singleton.mp hrow ▸ rfl

/-- What operations on that table lead to, where they leave a row on it. -/
theorem serving_listedTable (ops : List Op) (p : Engine → Bool)
    (h : (Op.serveChecked (Op.checkRegular 10000 10001 2) ops .listedTable).any (fun σ =>
      (σ.rowAt? 10000 10001 2 ⟨0, 0⟩).isSome ∧ p σ) = true) :
    ∃ σ stored, Serving 10000 10001 .listedTable σ ∧ σ.rowAt? 10000 10001 2 ⟨0, 0⟩ = some stored ∧
      p σ = true := by
  obtain ⟨σ, run, hcheck⟩ := TableRun.exists_of_serve opened_listedTable h
  obtain ⟨hrow, hp⟩ := of_decide_eq_true hcheck
  obtain ⟨stored, hrow⟩ := Option.isSome_iff_exists.mp hrow
  refine ⟨σ, stored, ⟨opened_listedTable, rfl, lists_listedTable, fun table hfind => ?_, run,
    _, (Engine.hasRow_of_rowAt? hrow).1⟩, hrow, hp⟩
  cases hfind
  exact .inr rfl

/-- The engine can be closed and started again, and the next transaction gets an id. -/
def canRestart (nextXid : Nat) (σ : Engine) : Bool :=
  (Op.restart.exec σ).okAnd fun _ σ' => σ'.log.nextLsn < 2 ^ 32 ∧ σ'.txn.nextXid = nextXid

/-- Transaction 1 puts a row into the table and is still active. -/
def insertsOpenly : List Op := [.begin, .insert 1 10001 1 (List.replicate 20 7)]

end HuaDB
