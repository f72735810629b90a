import Mathlib.Algebra.Order.Ring.Int

/-!
The types of `common/types.h` and the constants of `common/constants.h`.

The fixed-width integers `lsn_t` (64 bits), `xid_t`, `cid_t`, `oid_t`, `pageid_t`
(32 bits), `slotid_t` and `db_size_t` (16 bits) are natural numbers; where the
source can wrap around, the operation that wraps reduces explicitly. An LSN is
the byte position of its record in the log; a log is taken not to reach 2^64
bytes, so LSNs do not wrap around.
-/

namespace HuaDB

/-- Where a record lives. -/
structure Rid where
  pageId : Nat
  slotId : Nat
deriving DecidableEq, Repr

/-- The key of the buffer pool and of the dirty page table. -/
structure TablePageid where
  tableOid : Nat
  pageId : Nat
deriving DecidableEq, Repr

/-- A slot of a page: where the record starts and how long it is. -/
structure Slot where
  offset : Nat
  size : Nat
deriving DecidableEq, Repr

def logSegmentSize : Nat := 2 ^ 20
def dbPageSize : Nat := 2 ^ 8
def maxRecordSize : Nat := 230
/-- `sizeof` of `enum_t`, `xid_t`, `lsn_t`, `oid_t`, `oid_t`, `pageid_t`,
`slotid_t`, `db_size_t`, `db_size_t`, then the record, then an `lsn_t`. -/
def maxLogSize : Nat := 1 + 4 + 8 + 4 + 4 + 4 + 2 + 2 + 2 + maxRecordSize + 8
def bufferSize : Nat := 5

def firstLsn : Nat := 0
def nullLsn : Nat := 2 ^ 64 - 1

def nullXid : Nat := 2 ^ 32 - 1
def nullCid : Nat := 2 ^ 32 - 1
def firstXid : Nat := 1
def firstCid : Nat := 1
def ddlXid : Nat := 0
def ddlCid : Nat := 0

def nullPageId : Nat := 0xFFFFFFFF

def invalidOid : Nat := 2 ^ 32 - 1
def preservedOid : Nat := 10000
def systemDatabaseOid : Nat := 1
def tableMetaOid : Nat := 501
def databaseMetaOid : Nat := 502
def statisticMetaOid : Nat := 503

def systemDatabaseName : String := "system"
def tableMetaName : String := "huadb_table"
def databaseMetaName : String := "huadb_database"
def statisticMetaName : String := "huadb_statistic"
def defaultDatabaseName : String := "huadb"

/-- What stops an operation.

`dbException` is the source's own exception with its message. The other three
are outcomes the source does not signal: bytes decoded that are not the record
the code takes them for (or lie beyond what was read), a page access outside
the page's records, and a loop that never ends. -/
inductive DbError where
  | dbException (message : String)
  | decodeOverrun
  | memoryFault
  | divergence
deriving DecidableEq, Repr

end HuaDB
