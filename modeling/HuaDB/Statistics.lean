import HuaDB.Catalog
import HuaDB.SchemaStrings

/-!
The statistics of `catalog/system_catalog.cpp`: the column `cardinality` of `huadb_table`, the
table `huadb_statistic`, the maps `table2cardinality_` and `col2distinct_`, and the operations
that write any of them.

The maps know a table by its bare name, the system tables by database and name. What `ANALYZE`
counts is a parameter here; a table object is its oid, a table file its path. Buffers are left
out: the system tables are read and written through one buffer pool.
-/

namespace HuaDB.Statistics

/-- `INVALID_CARDINALITY` and `INVALID_DISTINCT`. -/
def invalidCardinality : Nat := 2 ^ 32 - 1
def invalidDistinct : Nat := 2 ^ 32 - 1

/-! ## The state -/

/-- A row of `huadb_table`, with its statistics. -/
structure TableRow extends TableMetaRow where
  cardinality : Nat
deriving DecidableEq, Repr

/-- A row of the system table `huadb_statistic`. -/
structure StatisticRow where
  tableName : String
  dbOid : Nat
  columnName : String
  nDistinct : Nat
deriving DecidableEq, Repr

/-- What a history of statistics is made of: a table is created, or a value is stored for it. -/
inductive Event where
  | created (dbOid : Nat) (tableName : String)
  | cardinality (dbOid : Nat) (tableName : String) (cardinality : Nat)
  | distinct (dbOid : Nat) (tableName columnName : String) (distinct : Nat)
deriving DecidableEq, Repr

/-- The directories of the databases and the files in them. -/
structure Files where
  directories : List Nat := []
  paths : List FilePath := []
deriving DecidableEq, Repr

namespace Files

def createDirectory (files : Files) (dbOid : Nat) : Files :=
  { files with directories := files.directories.insert dbOid }

/-- `Disk::CreateFile`: the stream of a file in no directory fails, which nothing looks at. -/
def createFile (files : Files) (path : FilePath) : Files :=
  if path.dbOid ∈ files.directories then { files with paths := files.paths.insert path } else files

def removeFile (files : Files) (path : FilePath) : Files :=
  { files with paths := files.paths.filter (· ≠ path) }

/-- `Disk::EmptyFile`; its result tells a `Table` where to start, which is left out. -/
def emptyFile (files : Files) (path : FilePath) : Except DbError Unit :=
  if path ∈ files.paths then .ok ()
  else .error (.dbException s!"file {path.dbOid}/{path.tableOid} does not exist")

end Files

structure Catalog where
  files : Files := {}
  oidManager : OidManager := { nextOid := preservedOid }
  /-- The oids that have a `Table` object. -/
  oid2table : List Nat := []
  currentDatabaseOid : Nat := invalidOid
  tableMeta : List TableRow := []
  statistic : List StatisticRow := []
  table2cardinality : Assoc String Nat := []
  col2distinct : Assoc String Nat := []
  /-- History variable: what happened to tables and statistics, newest first. No operation
  reads it. -/
  events : List Event := []
deriving DecidableEq, Repr

/-- Operations of the catalog; an error keeps the state reached so far. -/
abbrev CatalogM := EStateM DbError Catalog

open EStateM (throwIf)

/-! ## Lookups -/

/-- The key of `col2distinct_`. -/
def columnKey (tableName columnName : String) : String := tableName ++ "." ++ columnName

/-- `SystemCatalog::GetCardinality`. -/
def Catalog.getCardinality (catalog : Catalog) (tableName : String) : Nat :=
  (catalog.table2cardinality.find? tableName).getD invalidCardinality

/-- `SystemCatalog::GetDistinct`. -/
def Catalog.getDistinct (catalog : Catalog) (tableName columnName : String) : Nat :=
  (catalog.col2distinct.find? (columnKey tableName columnName)).getD invalidDistinct

/-- `SystemCatalog::GetTable`. -/
def getTable (oid : Nat) : CatalogM Unit := do
  throwIf (oid ∉ (← get).oid2table) (.dbException s!"Table with oid {oid} does not exist")

/-- `SystemCatalog::GetTableOid`. -/
def getTableOid (tableName : String) : CatalogM Nat := do
  let manager := (← get).oidManager
  throwIf (!manager.entryExists .table tableName)
    (.dbException s!"Table \"{tableName}\" does not exist")
  ofExcept (manager.getEntryOid .table tableName)

/-- `SystemCatalog::GetDatabaseOid`. -/
def getDatabaseOid (tableOid : Nat) : CatalogM Nat := do
  let catalog ← get
  if tableOid ∈ catalog.oid2table then
    return catalog.currentDatabaseOid
  else
    getTable tableMetaOid
    match catalog.tableMeta.find? fun row => row.tableOid = tableOid with
    | some row => return row.dbOid
    | none => throw (.dbException s!"Table with oid {tableOid} does not exist")

/-! ## Tables -/

/-- The size check of `Table::InsertRecord`. -/
def checkRecordSize (size : Nat) : CatalogM Unit :=
  throwIf (size % 2 ^ 16 > maxRecordSize)
    (.dbException s!"Record size too large: {size % 2 ^ 16}")

/-- The row `SystemCatalog::CreateTable` inserts into `huadb_table`. -/
def insertTableRow (row : TableRow) : CatalogM Unit := do
  getTable tableMetaOid
  checkRecordSize (SystemCatalog.systemRecordSize 12 [row.tableName, row.schema])
  modify fun c => { c with
    tableMeta := c.tableMeta ++ [row]
    events := .created row.dbOid row.tableName :: c.events }

/-- `SystemCatalog::CreateTable`. -/
def createTable (tableName schema : String) (oid dbOid : Nat) (newTable : Bool) :
    CatalogM Unit := do
  let catalog ← get
  throwIf (dbOid = invalidOid ∧ catalog.currentDatabaseOid = invalidOid)
    (.dbException "Not using databases")
  let dbOid := if dbOid = invalidOid then catalog.currentDatabaseOid else dbOid
  throwIf (catalog.oidManager.entryExists .table tableName)
    (.dbException s!"Table \"{tableName}\" already exists")
  let entry := catalog.oidManager.entryFor .table tableName oid
  modify fun c => { c with oidManager := entry.2 }
  throwIf (entry.1 > preservedOid ∧ dbOid = systemDatabaseOid)
    (.dbException "Cannot create table in system database")
  modify fun c => if newTable then { c with files := c.files.createFile ⟨dbOid, entry.1⟩ } else c
  ofExcept ((← get).files.emptyFile ⟨dbOid, entry.1⟩)
  modify fun c => { c with oid2table := c.oid2table.insert entry.1 }
  if newTable then
    insertTableRow ⟨⟨entry.1, dbOid, tableName, schema⟩, invalidCardinality⟩

/-- `SystemCatalog::DropTable`. -/
def dropTable (tableName : String) : CatalogM Unit := do
  let catalog ← get
  throwIf (catalog.currentDatabaseOid = invalidOid) (.dbException "Not using databases")
  throwIf (!catalog.oidManager.entryExists .table tableName)
    (.dbException s!"Table \"{tableName}\" does not exist")
  let tableOid ← ofExcept (catalog.oidManager.getEntryOid .table tableName)
  modify fun c => { c with
    files := c.files.removeFile ⟨catalog.currentDatabaseOid, tableOid⟩
    oid2table := c.oid2table.filter (· ≠ tableOid) }
  let oidManager ← ofExcept (catalog.oidManager.dropEntry .table tableName)
  modify fun c => { c with oidManager := oidManager }
  getTable tableMetaOid
  throwIf (!catalog.tableMeta.any fun row => row.tableOid = tableOid)
    (.dbException s!"Table \"{tableName}\" does not exist in table_meta")
  modify fun c => { c with tableMeta := c.tableMeta.eraseP fun row => row.tableOid = tableOid }

/-! ## Setting statistics -/

/-- The scan of `SetCardinality` and of `SetDistinct`: rewrite a row in place and refuse a second
one. `store` puts the rows back and keeps the new value in memory. -/
def updateRows {α : Type} (here : α → Bool) (update : α → α) (store : List α → Catalog → Catalog)
    (message : String) : List α → List α → Bool → CatalogM Bool
  | _, [], found => return found
  | done, row :: rows, found => do
      if here row then
        throwIf found (.dbException message)
        modify (store (done ++ update row :: rows))
        updateRows here update store message (done ++ [update row]) rows true
      else
        updateRows here update store message (done ++ [row]) rows found

/-- The row is that of the table. -/
def TableRow.IsOf (dbOid : Nat) (tableName : String) (row : TableRow) : Prop :=
  row.dbOid = dbOid ∧ row.tableName = tableName

/-- The row is that of the column. -/
def StatisticRow.IsOf (dbOid : Nat) (tableName columnName : String) (row : StatisticRow) : Prop :=
  row.dbOid = dbOid ∧ row.tableName = tableName ∧ row.columnName = columnName

instance (dbOid : Nat) (tableName : String) (row : TableRow) :
    Decidable (row.IsOf dbOid tableName) :=
  inferInstanceAs (Decidable (_ ∧ _))

instance (dbOid : Nat) (tableName columnName : String) (row : StatisticRow) :
    Decidable (row.IsOf dbOid tableName columnName) :=
  inferInstanceAs (Decidable (_ ∧ _ ∧ _))

/-- `SystemCatalog::SetCardinality`. -/
def setCardinality (tableName : String) (cardinality : Nat) : CatalogM Unit := do
  getTable tableMetaOid
  let catalog ← get
  let found ← updateRows (fun row => row.IsOf catalog.currentDatabaseOid tableName)
    (fun row => { row with cardinality := cardinality })
    (fun rows c => { c with
      tableMeta := rows
      table2cardinality := c.table2cardinality.insert tableName cardinality })
    (tableName ++ " has more than one record in table_meta") [] catalog.tableMeta false
  throwIf (!found) (.dbException ("Table\"" ++ tableName ++ "\" does not exist in table_meta"))
  modify fun c => { c with
    events := .cardinality catalog.currentDatabaseOid tableName cardinality :: c.events }

/-- The row `SystemCatalog::SetDistinct` inserts into `huadb_statistic`. -/
def insertStatisticRow (row : StatisticRow) : CatalogM Unit := do
  checkRecordSize (SystemCatalog.systemRecordSize 8 [row.tableName, row.columnName])
  modify fun c => { c with
    statistic := c.statistic ++ [row]
    col2distinct := c.col2distinct.insert (columnKey row.tableName row.columnName) row.nDistinct }

/-- `SystemCatalog::SetDistinct`. -/
def setDistinct (tableName columnName : String) (distinct : Nat) : CatalogM Unit := do
  getTable statisticMetaOid
  let catalog ← get
  let found ← updateRows (fun row => row.IsOf catalog.currentDatabaseOid tableName columnName)
    (fun row => { row with nDistinct := distinct })
    (fun rows c => { c with
      statistic := rows
      col2distinct := c.col2distinct.insert (columnKey tableName columnName) distinct })
    (tableName ++ "." ++ columnName ++ " has more than one record in statistic_meta")
    [] catalog.statistic false
  if found then pure ()
  else insertStatisticRow ⟨tableName, catalog.currentDatabaseOid, columnName, distinct⟩
  modify fun c => { c with
    events := .distinct catalog.currentDatabaseOid tableName columnName distinct :: c.events }

/-- What `ANALYZE` counts in one table. -/
structure TableCounts where
  tableName : String
  recordCount : Nat
  valueSets : List (String × Nat)

/-- The second loop of `DatabaseEngine::Analyze` over the columns. -/
def setDistincts (tableName : String) : List (String × Nat) → CatalogM Unit
  | [] => pure ()
  | (columnName, distinct) :: columns => do
      setDistinct tableName columnName distinct
      setDistincts tableName columns

/-- `DatabaseEngine::Analyze`, table by table. -/
def analyze : List TableCounts → CatalogM Unit
  | [] => pure ()
  | counts :: rest => do
      let oid ← getTableOid counts.tableName
      getTable oid
      setCardinality counts.tableName counts.recordCount
      setDistincts counts.tableName counts.valueSets
      analyze rest

/-! ## Databases -/

/-- `SystemCatalog::CreateDatabase`. The row of `huadb_database`, which no operation here reads,
is its size check. -/
def createDatabase (databaseName : String) (existsOk : Bool) (dbOid : Nat) : CatalogM Unit := do
  let catalog ← get
  throwIf (!existsOk ∧ catalog.oidManager.entryExists .database databaseName)
    (.dbException s!"Database \"{databaseName}\" already exists")
  let entry := catalog.oidManager.entryFor .database databaseName dbOid
  modify fun c => { c with oidManager := entry.2 }
  getTable databaseMetaOid
  checkRecordSize (SystemCatalog.systemRecordSize 4 [databaseName])
  modify fun c => { c with files := c.files.createDirectory entry.1 }

/-- The loop of `SystemCatalog::ExitDatabase` over the tables to forget. -/
def forgetTables : List Nat → CatalogM Unit
  | [] => pure ()
  | oid :: oids => do
      let manager := (← get).oidManager
      let tableName ← ofExcept (manager.getEntryName oid)
      let manager ← ofExcept (manager.dropEntry .table tableName)
      modify fun c => { c with
        oidManager := manager
        oid2table := c.oid2table.filter (· ≠ oid) }
      forgetTables oids

/-- `SystemCatalog::ExitDatabase`, where a database is open. -/
def exitDatabase : CatalogM Unit := do
  let catalog ← get
  if catalog.currentDatabaseOid = invalidOid ∨ catalog.currentDatabaseOid = systemDatabaseOid then
    pure ()
  else
    forgetTables (catalog.oid2table.filter fun oid => oid > preservedOid)
    modify fun c => { c with currentDatabaseOid := invalidOid }

/-- `ColumnList::FromString` in the catalog. -/
def readSchema (schema : String) : CatalogM Unit :=
  match IndexedColumns.fromString schema with
  | .ok _ => pure ()
  | .error (.thrown (.dbException message)) => throw (.dbException message)
  | .error _ => throw .memoryFault

/-- One row of `SystemCatalog::LoadTableMeta`. -/
def loadTableRow (row : TableRow) : CatalogM Unit := do
  readSchema row.schema
  modify fun c => { c with
    oidManager := c.oidManager.setEntryOid .table row.tableName row.tableOid }
  let dbOid ← getDatabaseOid row.tableOid
  ofExcept ((← get).files.emptyFile ⟨dbOid, row.tableOid⟩)
  modify fun c => { c with
    oid2table := c.oid2table.insert row.tableOid
    table2cardinality := c.table2cardinality.insert row.tableName row.cardinality }

/-- The loop of `SystemCatalog::LoadTableMeta`. -/
def loadTableRows : List TableRow → CatalogM Unit
  | [] => pure ()
  | row :: rows => do
      if row.dbOid = (← get).currentDatabaseOid then
        loadTableRow row
        loadTableRows rows
      else
        loadTableRows rows

/-- The entries `SystemCatalog::LoadStatistics` makes. -/
def statisticEntries (dbOid : Nat) (rows : List StatisticRow) : Assoc String Nat :=
  (rows.filter fun row => row.dbOid = dbOid).map fun row =>
    (columnKey row.tableName row.columnName, row.nDistinct)

/-- `SystemCatalog::LoadStatistics`. -/
def loadStatistics : CatalogM Unit := do
  getTable statisticMetaOid
  modify fun c => { c with
    col2distinct := (statisticEntries c.currentDatabaseOid c.statistic).foldl
      (fun m e => m.insert e.1 e.2) c.col2distinct }

/-- `SystemCatalog::LoadTableMeta`, then `LoadStatistics`. -/
def loadDatabase : CatalogM Unit := do
  getTable tableMetaOid
  loadTableRows (← get).tableMeta
  loadStatistics

/-- `SystemCatalog::ChangeDatabase` to another database. -/
def enterDatabase (dbOid : Nat) : CatalogM Unit := do
  exitDatabase
  modify fun c => { c with currentDatabaseOid := dbOid }
  if dbOid = systemDatabaseOid then pure () else loadDatabase

/-- `SystemCatalog::ChangeDatabase`. -/
def changeDatabase (databaseName : String) : CatalogM Unit := do
  let catalog ← get
  throwIf (!catalog.oidManager.entryExists .database databaseName)
    (.dbException s!"Database \"{databaseName}\" does not exist")
  let dbOid ← ofExcept (catalog.oidManager.getEntryOid .database databaseName)
  if dbOid = catalog.currentDatabaseOid then pure () else enterDatabase dbOid

/-- `SystemCatalog::CreateSystemTables`. -/
def createSystemTables : CatalogM Unit := do
  modify fun c => { c with files := c.files.createDirectory systemDatabaseOid }
  createTable tableMetaName SystemCatalog.tableMetaSchema tableMetaOid systemDatabaseOid true
  createTable databaseMetaName SystemCatalog.databaseMetaSchema databaseMetaOid systemDatabaseOid
    true
  createTable statisticMetaName SystemCatalog.statisticSchema statisticMetaOid systemDatabaseOid
    true
  createDatabase systemDatabaseName false systemDatabaseOid
  createDatabase defaultDatabaseName false invalidOid
  changeDatabase defaultDatabaseName

end HuaDB.Statistics
