import HuaDB.Storage

/-!
`catalog/oid_manager.cpp` and the parts of `catalog/system_catalog.cpp` that
name, create, drop and load databases and tables.

The system tables are lists of rows. A row enters them through
`Table::InsertRecord`, whose size check is kept (`systemRecordSize`).
-/

namespace HuaDB

/-! ## `OidManager` -/

namespace OidManager

/-- `next_oid_++` on an `std::atomic<uint32_t>`. -/
def createEntry (manager : OidManager) (type : OidType) (name : String) : Nat × OidManager :=
  let oid := manager.nextOid
  (oid, { manager with
    nextOid := (oid + 1) % 2 ^ 32
    oid2name := manager.oid2name.insert oid name
    name2oid := manager.name2oid.insert (type, name) oid })

def setEntryOid (manager : OidManager) (type : OidType) (name : String) (oid : Nat) :
    OidManager :=
  { manager with
    oid2name := manager.oid2name.insert oid name
    name2oid := manager.name2oid.insert (type, name) oid }

def getEntryOid (manager : OidManager) (type : OidType) (name : String) : Except DbError Nat :=
  match manager.name2oid.find? (type, name) with
  | none => .error (.dbException s!"{name} not found in oid manager")
  | some oid => .ok oid

def dropEntry (manager : OidManager) (type : OidType) (name : String) :
    Except DbError OidManager :=
  match manager.getEntryOid type name with
  | .error e => .error e
  | .ok oid =>
      .ok { manager with
        oid2name := manager.oid2name.erase oid
        name2oid := manager.name2oid.erase (type, name) }

def getEntryName (manager : OidManager) (oid : Nat) : Except DbError String :=
  match manager.oid2name.find? oid with
  | none => .error (.dbException s!"Entry with oid {oid} does not exist.")
  | some name => .ok name

def entryExists (manager : OidManager) (type : OidType) (name : String) : Bool :=
  (manager.name2oid.find? (type, name)).isSome

def oidExists (manager : OidManager) (oid : Nat) : Bool :=
  (manager.oid2name.find? oid).isSome

/-- The choice at the head of `CreateTable` and `CreateDatabase`: a new oid, or the
one given. -/
def entryFor (manager : OidManager) (type : OidType) (name : String) (oid : Nat) :
    Nat × OidManager :=
  if oid = invalidOid then manager.createEntry type name
  else (oid, manager.setEntryOid type name oid)

end OidManager

/-- `if (condition) throw DbException(message)`. -/
def Db.throwIf (condition : Prop) [Decidable condition] (message : String) : Db Unit :=
  if condition then throw (.dbException message) else pure ()

/-- What follows a check runs from the same state, where the check passes. -/
theorem Db.throwIf_bind {α : Type} {R : Engine → Engine → Prop} {σ : Engine} {c : Prop}
    [Decidable c] {message : String} {f : Unit → Db α}
    (h : ¬ c → EStateM.RunsFrom R σ (f ())) :
    EStateM.RunsFrom R σ (Db.throwIf c message >>= f) := by
  unfold Db.throwIf
  split
  · exact .throw_bind _ _
  · rw [pure_bind]
    exact h ‹_›

/-- Run a fallible computation in the engine. -/
def Db.ofExcept {α : Type} : Except DbError α → Db α
  | .ok a => pure a
  | .error e => throw e

@[simp] theorem Db.ofExcept_ok {α : Type} (a : α) : Db.ofExcept (.ok a) = pure a := rfl

@[simp] theorem Db.ofExcept_error {α : Type} (e : DbError) :
    Db.ofExcept (.error e : Except DbError α) = throw e := rfl

theorem Db.ofExcept_bind {α β : Type} {R : Engine → Engine → Prop} {σ : Engine}
    {x : Except DbError α} {f : α → Db β}
    (h : ∀ a, x = .ok a → EStateM.RunsFrom R σ (f a)) :
    EStateM.RunsFrom R σ (Db.ofExcept x >>= f) := by
  cases x with
  | error e => exact .throw_bind _ _
  | ok a =>
      rw [Db.ofExcept_ok, pure_bind]
      exact h a rfl

/-! ## `SystemCatalog` -/

namespace SystemCatalog

/-- The catalog is a field of the engine. -/
def modifyCatalog (f : SystemCatalog → SystemCatalog) : Db Unit :=
  modify fun σ => { σ with catalog := f σ.catalog }

def tableExists (catalog : SystemCatalog) (oid : Nat) : Bool :=
  catalog.oidManager.oidExists oid

def databaseExists (catalog : SystemCatalog) (name : String) : Bool :=
  catalog.oidManager.entryExists .database name

def getTable (catalog : SystemCatalog) (oid : Nat) : Except DbError Table :=
  match catalog.oid2table.find? oid with
  | none => .error (.dbException s!"Table with oid {oid} does not exist")
  | some table => .ok table

/-- `SystemCatalog::GetDatabaseOid`: the current database for a loaded table,
else the database of the first row of `huadb_table` with that oid. -/
def getDatabaseOid (catalog : SystemCatalog) (tableOid : Nat) : Except DbError Nat :=
  if (catalog.oid2table.find? tableOid).isSome then
    .ok catalog.currentDatabaseOid
  else
    match catalog.getTable tableMetaOid with
    | .error e => .error e
    | .ok _ =>
      match catalog.rows.tables.find? fun row => row.tableOid = tableOid with
      | some row => .ok row.dbOid
      | none => .error (.dbException s!"Table with oid {tableOid} does not exist")

/-- `GetTable` of a system table, whose rows are those of `SystemRows`. -/
def requireTable (oid : Nat) : Db Unit := do
  let _ ← Db.ofExcept ((← get).catalog.getTable oid)

/-- What follows runs from the same state. -/
theorem requireTable_bind {α : Type} {R : Engine → Engine → Prop} {σ : Engine} {oid : Nat}
    {f : Unit → Db α} (h : EStateM.RunsFrom R σ (f ())) :
    EStateM.RunsFrom R σ (requireTable oid >>= f) := by
  rw [requireTable, bind_assoc]
  refine .get_bind ?_
  rw [bind_assoc]
  exact Db.ofExcept_bind fun _ _ => by rwa [pure_bind]

/-- The size of a record of a system table with the given fixed-width bytes
and strings: header, one byte of null bitmap, and two length bytes a string. -/
def systemRecordSize (fixedBytes : Nat) (strings : List String) : Nat :=
  recordHeaderSize + 1 + fixedBytes + (strings.map fun s => 2 + s.utf8ByteSize).sum

/-- The size check at the head of `Table::InsertRecord`. -/
def checkRecordSize (size : Nat) : Db Unit :=
  Db.throwIf (size % 2 ^ 16 > maxRecordSize) s!"Record size too large: {size % 2 ^ 16}"

/-- The row `SystemCatalog::CreateTable` inserts into `huadb_table`. -/
def insertTableRow (row : TableMetaRow) : Db Unit := do
  requireTable tableMetaOid
  checkRecordSize (systemRecordSize 12 [row.tableName, row.schema])
  modifyCatalog fun c => { c with rows := { c.rows with tables := c.rows.tables ++ [row] } }

/-- `SystemCatalog::CreateTable`. -/
def createTable (tableName schema : String) (oid dbOid : Nat) (newTable : Bool) : Db Unit := do
  let catalog := (← get).catalog
  Db.throwIf (dbOid = invalidOid ∧ catalog.currentDatabaseOid = invalidOid) "Not using databases"
  let dbOid := if dbOid = invalidOid then catalog.currentDatabaseOid else dbOid
  Db.throwIf (catalog.oidManager.entryExists .table tableName)
    s!"Table \"{tableName}\" already exists"
  let entry := catalog.oidManager.entryFor .table tableName oid
  modifyCatalog fun c => { c with oidManager := entry.2 }
  Db.throwIf (entry.1 > preservedOid ∧ dbOid = systemDatabaseOid)
    "Cannot create table in system database"
  modify fun σ =>
    if newTable then { σ with disk := σ.disk.createFile ⟨dbOid, entry.1⟩ } else σ
  let isEmpty ← Db.ofExcept ((← get).disk.emptyFile ⟨dbOid, entry.1⟩)
  let table : Table := ⟨entry.1, dbOid, if newTable ∨ isEmpty then nullPageId else 0⟩
  modifyCatalog fun c => { c with oid2table := c.oid2table.insert entry.1 table }
  if newTable then
    insertTableRow ⟨entry.1, dbOid, tableName, schema⟩

/-- Remove the first row that satisfies `p`. -/
def eraseRow {α : Type} (p : α → Bool) (rows : List α) : List α := rows.eraseP p

/-- `SystemCatalog::DropTable`. -/
def dropTable (tableName : String) : Db Unit := do
  let catalog := (← get).catalog
  Db.throwIf (catalog.currentDatabaseOid = invalidOid) "Not using databases"
  Db.throwIf (!catalog.oidManager.entryExists .table tableName)
    s!"Table \"{tableName}\" does not exist"
  let tableOid ← Db.ofExcept (catalog.oidManager.getEntryOid .table tableName)
  modify fun σ => { σ with disk := σ.disk.removeFile ⟨catalog.currentDatabaseOid, tableOid⟩ }
  modifyCatalog fun c => { c with oid2table := c.oid2table.erase tableOid }
  let oidManager ← Db.ofExcept (catalog.oidManager.dropEntry .table tableName)
  modifyCatalog fun c => { c with oidManager := oidManager }
  requireTable tableMetaOid
  Db.throwIf (!(catalog.rows.tables.any fun row => row.tableOid = tableOid))
    s!"Table \"{tableName}\" does not exist in table_meta"
  modifyCatalog fun c =>
    { c with rows := { c.rows with
      tables := eraseRow (fun row => row.tableOid = tableOid) c.rows.tables } }

/-- `SystemCatalog::CreateDatabase`. -/
def createDatabase (databaseName : String) (existsOk : Bool) (dbOid : Nat) : Db Unit := do
  let catalog := (← get).catalog
  Db.throwIf (!existsOk ∧ catalog.databaseExists databaseName)
    s!"Database \"{databaseName}\" already exists"
  let entry := catalog.oidManager.entryFor .database databaseName dbOid
  modifyCatalog fun c => { c with oidManager := entry.2 }
  requireTable databaseMetaOid
  checkRecordSize (systemRecordSize 4 [databaseName])
  modifyCatalog fun c =>
    { c with rows := { c.rows with databases := c.rows.databases ++ [⟨entry.1, databaseName⟩] } }

/-- The part of `SystemCatalog::DropDatabase` for a database that exists. -/
def dropExistingDatabase (databaseName : String) : Db Unit := do
  let catalog := (← get).catalog
  let dbOid ← Db.ofExcept (catalog.oidManager.getEntryOid .database databaseName)
  Db.throwIf (dbOid = catalog.currentDatabaseOid) "Cannot drop the currently open database"
  requireTable tableMetaOid
  modifyCatalog fun c =>
    { c with rows := { c.rows with
      tables := c.rows.tables.filter fun row => row.dbOid ≠ dbOid } }
  requireTable databaseMetaOid
  Db.throwIf (!(catalog.rows.databases.any fun row => row.dbOid = dbOid))
    s!"Database \"{databaseName}\" does not exist in Database Meta"
  modifyCatalog fun c =>
    { c with rows := { c.rows with
      databases := eraseRow (fun row => row.dbOid = dbOid) c.rows.databases } }
  let oidManager ← Db.ofExcept (catalog.oidManager.dropEntry .database databaseName)
  modifyCatalog fun c => { c with oidManager := oidManager }
  modify fun σ => { σ with disk := σ.disk.removeDirectory dbOid }

/-- `SystemCatalog::DropDatabase`. -/
def dropDatabase (databaseName : String) (missingOk : Bool) : Db Unit := do
  if (← get).catalog.databaseExists databaseName then
    dropExistingDatabase databaseName
  else
    Db.throwIf (!missingOk) s!"Database \"{databaseName}\" does not exist"

/-- The loop of `SystemCatalog::ExitDatabase` over the tables to forget. -/
def forgetTables : List Nat → Db Unit
  | [] => pure ()
  | oid :: oids => do
      let manager := (← get).catalog.oidManager
      let tableName ← Db.ofExcept (manager.getEntryName oid)
      let manager ← Db.ofExcept (manager.dropEntry .table tableName)
      modifyCatalog fun c => { c with oidManager := manager, oid2table := c.oid2table.erase oid }
      forgetTables oids

/-- `SystemCatalog::ExitDatabase`. -/
def exitDatabase : Db Unit := do
  if (← get).catalog.currentDatabaseOid = systemDatabaseOid then
    pure ()
  else
    modify fun σ => σ.flushBuffers true
    forgetTables ((← get).catalog.oid2table.keys.filter fun oid => oid > preservedOid)
    modifyCatalog fun c => { c with currentDatabaseOid := invalidOid }

/-- One row of `SystemCatalog::LoadTableMeta`. -/
def loadTableRow (row : TableMetaRow) : Db Unit := do
  modifyCatalog fun c =>
    { c with oidManager := c.oidManager.setEntryOid .table row.tableName row.tableOid }
  let dbOid ← Db.ofExcept ((← get).catalog.getDatabaseOid row.tableOid)
  let isEmpty ← Db.ofExcept ((← get).disk.emptyFile ⟨dbOid, row.tableOid⟩)
  modifyCatalog fun c =>
    let table : Table :=
      ⟨row.tableOid, c.currentDatabaseOid, if isEmpty then nullPageId else 0⟩
    { c with oid2table := c.oid2table.insert row.tableOid table }

/-- `SystemCatalog::LoadTableMeta`: the rows of the current database. -/
def loadTableMeta : List TableMetaRow → Db Unit
  | [] => pure ()
  | row :: rows => do
      if row.dbOid = (← get).catalog.currentDatabaseOid then
        loadTableRow row
        loadTableMeta rows
      else
        loadTableMeta rows

/-- Leave the current database, where there is one. -/
def exitCurrentDatabase : Db Unit := do
  if (← get).catalog.currentDatabaseOid = invalidOid then
    pure ()
  else
    exitDatabase

/-- `SystemCatalog::ChangeDatabase` to another database. `LoadStatistics` looks its system
table up; what it loads is left out. -/
def enterDatabase (dbOid : Nat) : Db Unit := do
  exitCurrentDatabase
  modifyCatalog fun c => { c with currentDatabaseOid := dbOid }
  if dbOid = systemDatabaseOid then
    pure ()
  else
    requireTable tableMetaOid
    loadTableMeta (← get).catalog.rows.tables
    requireTable statisticMetaOid

/-- `SystemCatalog::ChangeDatabase`. -/
def changeDatabase (databaseName : String) : Db Unit := do
  let catalog := (← get).catalog
  Db.throwIf (!catalog.databaseExists databaseName)
    s!"Database \"{databaseName}\" does not exist"
  let dbOid ← Db.ofExcept (catalog.oidManager.getEntryOid .database databaseName)
  if dbOid = catalog.currentDatabaseOid then
    pure ()
  else
    enterDatabase dbOid

/-- `ColumnList::ToString` of `table_meta_schema`, `database_meta_schema` and
`statistic_schema`. -/
def tableMetaSchema : String :=
  "5\ntable_oid uint 4\ndb_oid uint 4\ntable_name varchar 32\nschema varchar 1024\ncardinality uint 4\n"
def databaseMetaSchema : String := "2\ndb_oid uint 4\ndb_name varchar 32\n"
def statisticSchema : String :=
  "4\ntable_name varchar 32\ndb_oid uint 4\ncolumn_name varchar 32\nn_distinct uint 4\n"

/-- `SystemCatalog::CreateSystemTables`. -/
def createSystemTables : Db Unit := do
  createTable tableMetaName tableMetaSchema tableMetaOid systemDatabaseOid true
  createTable databaseMetaName databaseMetaSchema databaseMetaOid systemDatabaseOid true
  createTable statisticMetaName statisticSchema statisticMetaOid systemDatabaseOid true
  createDatabase systemDatabaseName false systemDatabaseOid
  createDatabase defaultDatabaseName false invalidOid
  changeDatabase defaultDatabaseName

/-- `SystemCatalog::LoadSystemTables`, reading the system tables from disk. -/
def loadSystemTables : Db Unit := do
  createTable tableMetaName tableMetaSchema tableMetaOid systemDatabaseOid false
  createTable databaseMetaName databaseMetaSchema databaseMetaOid systemDatabaseOid false
  createTable statisticMetaName statisticSchema statisticMetaOid systemDatabaseOid false
  modify fun σ => { σ with
    catalog := { σ.catalog with
      rows := σ.disk.systemRows
      oidManager := σ.disk.systemRows.databases.foldl
        (fun manager row => manager.setEntryOid .database row.dbName row.dbOid)
        σ.catalog.oidManager } }
  changeDatabase defaultDatabaseName

end SystemCatalog

end HuaDB
