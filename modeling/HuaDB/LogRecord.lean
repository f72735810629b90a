import HuaDB.Lib.Assoc
import HuaDB.TablePage

/-!
`log/log_record.h` and `log/log_records/`: the eight record types, with the
fields each carries and the size it occupies in the log.
-/

namespace HuaDB

/-- The active transaction table: the last LSN of each active transaction. -/
abbrev Att := Assoc Nat Nat
/-- The dirty page table: the recovery LSN of each dirty page. -/
abbrev Dpt := Assoc TablePageid Nat

inductive LogType where
  | begin
  | commit
  | rollback
  | insert
  | delete
  | newPage
  | beginCheckpoint
  | endCheckpoint
deriving DecidableEq, Repr

/-- The fields of each record type, beyond those of `LogRecord` itself. -/
inductive LogBody where
  | begin
  | commit
  | rollback
  | insert (oid : Nat) (pageId : Nat) (slotId : Nat) (pageOffset recordSize : Nat)
      (record : Record)
  | delete (oid : Nat) (pageId : Nat) (slotId : Nat)
  | newPage (oid : Nat) (prevPageId pageId : Nat)
  | beginCheckpoint
  | endCheckpoint (att : Att) (dpt : Dpt)
deriving DecidableEq, Repr

def LogBody.getType : LogBody → LogType
  | .begin => .begin
  | .commit => .commit
  | .rollback => .rollback
  | .insert .. => .insert
  | .delete .. => .delete
  | .newPage .. => .newPage
  | .beginCheckpoint => .beginCheckpoint
  | .endCheckpoint .. => .endCheckpoint

/-- What a record type adds to the size of `LogRecord`. -/
def LogBody.extraSize : LogBody → Nat
  | .begin | .commit | .rollback | .beginCheckpoint => 0
  | .insert _ _ _ _ recordSize _ => 4 + 4 + 2 + 2 + 2 + recordSize
  | .delete .. => 4 + 4 + 2
  | .newPage .. => 4 + 4 + 4
  | .endCheckpoint att dpt => 8 + att.length * (4 + 8) + 8 + dpt.length * (8 + 8)

structure LogRecord where
  lsn : Nat
  xid : Nat
  prevLsn : Nat
  body : LogBody
deriving DecidableEq, Repr

namespace LogRecord

/-- `sizeof(type_) + sizeof(xid_) + sizeof(prev_lsn_)`. -/
def headerSize : Nat := 1 + 4 + 8

def getSize (r : LogRecord) : Nat := headerSize + r.body.extraSize

def getType (r : LogRecord) : LogType := r.body.getType

/-- The page an `InsertLog`, `DeleteLog` or `NewPageLog` names by `GetOid` and
`GetPageId`; for a `NewPageLog` that is the new page. -/
def page? (r : LogRecord) : Option TablePageid :=
  match r.body with
  | .insert oid pageId _ _ _ _ => some ⟨oid, pageId⟩
  | .delete oid pageId _ => some ⟨oid, pageId⟩
  | .newPage oid _ pageId => some ⟨oid, pageId⟩
  | _ => none

/-- Where the next record starts. -/
def endLsn (r : LogRecord) : Nat := r.lsn + r.getSize

theorem headerSize_le_getSize (r : LogRecord) : headerSize ≤ r.getSize :=
  Nat.le_add_right _ _

theorem getSize_pos (r : LogRecord) : 0 < r.getSize :=
  Nat.lt_of_lt_of_le (by decide) r.headerSize_le_getSize

theorem lsn_lt_endLsn (r : LogRecord) : r.lsn < r.endLsn :=
  Nat.lt_add_of_pos_right r.getSize_pos

end LogRecord

end HuaDB
