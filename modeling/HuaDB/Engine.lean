import HuaDB.Lib.Exec
import HuaDB.LogRecord

/-!
The state of a running engine: the members of `Disk`, `LogManager`,
`BufferPool`, `TransactionManager` and `SystemCatalog`, which refer to each
other in the source and are kept in one record here.

`Disk` is what survives a crash; everything else is rebuilt from it.
-/

namespace HuaDB

/-- A table file: its length in pages, and the pages. A page below the length
that was never written reads as zero bytes. -/
structure DataFile where
  pageCount : Nat
  page : Nat → TablePage

/-- The file `Disk::CreateFile` leaves: no bytes. -/
def DataFile.empty : DataFile where
  pageCount := 0
  page := fun _ => .zero

/-- A row of the system table `huadb_table`. -/
structure TableMetaRow where
  tableOid : Nat
  dbOid : Nat
  tableName : String
  schema : String
deriving DecidableEq, Repr

/-- A row of the system table `huadb_database`. -/
structure DatabaseMetaRow where
  dbOid : Nat
  dbName : String
deriving DecidableEq, Repr

/-- The rows of the system tables that name objects. They are written without
logging, live in buffers of their own and reach the disk only by
`BufferPool::Flush`, all at once. -/
structure SystemRows where
  tables : List TableMetaRow := []
  databases : List DatabaseMetaRow := []
deriving DecidableEq, Repr

/-- The control file. -/
structure Control where
  nextXid : Nat
  nextLsn : Nat
  nextOid : Nat
  normalShutdown : Bool
deriving DecidableEq, Repr

/-- The path `<db_oid>/<table_oid>` of a table file. -/
structure FilePath where
  dbOid : Nat
  tableOid : Nat
deriving DecidableEq, Repr

/-- `Disk`, with the files it holds. The log file is the list of the records
written to it, in write order. -/
structure Disk where
  log : List LogRecord := []
  logSegments : Nat := 1
  logFileSize : Nat := logSegmentSize
  /-- The file `next_lsn`. -/
  nextLsnFile : Option Nat := none
  /-- The file `master_record`. -/
  masterRecord : Option Nat := none
  /-- The file `control`. -/
  control : Option Control := none
  /-- The file `init`. -/
  init : Bool := false
  files : FilePath → Option DataFile := fun _ => none
  /-- The system tables, as last flushed. -/
  systemRows : SystemRows := {}

structure LogManager where
  nextLsn : Nat
  flushedLsn : Nat
  att : Att := []
  dpt : Dpt := []
  logBuffer : List LogRecord := []
deriving DecidableEq, Repr

/-- `LogManager::LogManager`; `next_lsn - 1` wraps to `NULL_LSN` at zero. -/
def LogManager.new (nextLsn : Nat) : LogManager where
  nextLsn := nextLsn
  flushedLsn := if nextLsn = 0 then nullLsn else nextLsn - 1

structure BufferPoolEntry where
  dbOid : Nat
  tableOid : Nat
  pageId : Nat
  page : TablePage
  isDirty : Bool

/-- The `hashmap_` key of a frame. -/
def BufferPoolEntry.key (entry : BufferPoolEntry) : TablePageid :=
  ⟨entry.tableOid, entry.pageId⟩

structure BufferPool where
  buffers : List BufferPoolEntry := []
  hashmap : TablePageid → Option Nat := fun _ => none
  /-- `buffer_vec` of `LRUBufferStrategy`, most recently accessed frame first. -/
  bufferVec : List Nat := []

structure TransactionManager where
  nextXid : Nat
  xid2cid : Assoc Nat Nat := []
  xid2activeSet : Assoc Nat (List Nat) := []
deriving DecidableEq, Repr

inductive OidType where
  | database
  | table
deriving DecidableEq, Repr

structure OidManager where
  nextOid : Nat
  name2oid : Assoc (OidType × String) Nat := []
  oid2name : Assoc Nat String := []
deriving DecidableEq, Repr

/-- A `Table` object of the current database. -/
structure Table where
  oid : Nat
  dbOid : Nat
  firstPageId : Nat
deriving DecidableEq, Repr

structure SystemCatalog where
  oidManager : OidManager
  oid2table : Assoc Nat Table := []
  currentDatabaseOid : Nat := invalidOid
  /-- The system tables as buffered. -/
  rows : SystemRows := {}
deriving DecidableEq, Repr

/-- One call of `Disk::WritePage` by `BufferPool::FlushPage`: the image, and
the log records that were not on disk at that moment. -/
structure PageWrite where
  key : TablePageid
  page : TablePage
  unlogged : List LogRecord

structure Engine where
  disk : Disk
  log : LogManager
  pool : BufferPool
  txn : TransactionManager
  catalog : SystemCatalog
  /-- History variable: the page images written so far, newest first. No
  operation reads it. -/
  pageWrites : List PageWrite := []

/-- Engine operations: they may stop with a `DbError`, which keeps the state
reached so far. -/
abbrev Db := EStateM DbError Engine

/-- What a fresh process sees before its constructor runs. -/
def Engine.ofDisk (disk : Disk) : Engine where
  disk := disk
  log := .new firstLsn
  pool := {}
  txn := { nextXid := firstXid }
  catalog := { oidManager := { nextOid := preservedOid } }

/-- Every record appended and not lost: on disk, then in the buffer. -/
def Engine.appended (σ : Engine) : List LogRecord := σ.disk.log ++ σ.log.logBuffer

/-- The image of a page on disk, where its file reaches that far. -/
def Disk.image? (disk : Disk) (path : FilePath) (pageId : Nat) : Option TablePage :=
  (disk.files path).bind fun file =>
    if pageId < file.pageCount then some (file.page pageId) else none

end HuaDB
