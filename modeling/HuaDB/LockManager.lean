import HuaDB.Constants
import HuaDB.Lib.Assoc

/-!
`transaction/lock_manager.cpp`: table and row locks, recorded per transaction.
-/

namespace HuaDB

inductive LockType where
  | is
  | ix
  | s
  | six
  | x
deriving DecidableEq, Repr

inductive LockGranularity where
  | table
  | row
deriving DecidableEq, Repr

structure Lock where
  lockGranularity : LockGranularity
  lockType : LockType
  oid : Nat
  rid : Rid
deriving DecidableEq, Repr

/-- What a lock is on. The `rid_` of a table lock is not initialised and never
read. -/
inductive LockObject where
  | table (oid : Nat)
  | row (oid : Nat) (rid : Rid)
deriving DecidableEq, Repr

namespace Lock

def object (lock : Lock) : LockObject :=
  match lock.lockGranularity with
  | .table => .table lock.oid
  | .row => .row lock.oid lock.rid

def ofTable (oid : Nat) (lockType : LockType) : Lock := ⟨.table, lockType, oid, ⟨0, 0⟩⟩

def ofRow (oid : Nat) (rid : Rid) (lockType : LockType) : Lock := ⟨.row, lockType, oid, rid⟩

end Lock

/-- `lock_map`: the locks recorded for each transaction. -/
structure LockManager where
  lockMap : Assoc Nat (List Lock) := []
deriving DecidableEq, Repr

namespace LockManager

/-- `LockManager::Compatible`. -/
def compatible : LockType → LockType → Bool
  | .s, b => b = .s ∨ b = .is
  | .x, _ => false
  | .is, b => b ≠ .x
  | .ix, b => b = .is ∨ b = .ix
  | .six, b => b = .is

/-- `LockManager::Upgrade`. -/
def upgrade : LockType → LockType → LockType
  | .s, .x => .x
  | .s, .ix => .six
  | .s, _ => .s
  | .x, _ => .x
  | .is, other => other
  | .ix, .s => .six
  | .ix, .x => .x
  | .ix, .six => .six
  | .ix, _ => .ix
  | .six, .x => .x
  | .six, _ => .six

/-- `lock_map[xid]`. -/
def locks (m : LockManager) (xid : Nat) : List Lock := (m.lockMap.find? xid).getD []

/-- Record one requested lock among the locks of a transaction: upgrade in place
the lock it has on the object, or append the new one. -/
def record (locks : List Lock) (new : Lock) : List Lock :=
  if locks.any fun it => it.object = new.object then
    locks.map fun it =>
      if it.object = new.object then
        { it with lockType := upgrade it.lockType new.lockType }
      else
        it
  else
    locks ++ [new]

/-- The mode the loop leaves in `table_lock_type_now` or `row_lock_type_now`: that
of the last lock recorded on the object. -/
def lockTypeNow (locks : List Lock) (object : LockObject) : Option LockType :=
  (locks.reverse.find? fun it => it.object = object).map Lock.lockType

/-- The check against the locks every other transaction has recorded on an
object. -/
def admits (m : LockManager) (xid : Nat) (object : LockObject) : Bool :=
  m.lockMap.all fun e => e.1 = xid ∨ e.2.all fun it =>
    it.object ≠ object ∨
      (lockTypeNow (m.locks xid) object).all fun typeNow => compatible it.lockType typeNow

/-- What `LockTable` and `LockRow` have in common: record the locks, then check
each of them. -/
def request (m : LockManager) (xid : Nat) (news : List Lock) : Bool × LockManager :=
  let m : LockManager := { lockMap := m.lockMap.insert xid (news.foldl record (m.locks xid)) }
  (news.all fun new => m.admits xid new.object, m)

/-- `LockManager::LockTable`. -/
def lockTable (m : LockManager) (xid : Nat) (lockType : LockType) (oid : Nat) :
    Bool × LockManager :=
  m.request xid [.ofTable oid lockType]

/-- The table lock that goes with a row lock. -/
def intention (lockType : LockType) : LockType := if lockType = .s then .is else .ix

/-- `LockManager::LockRow`. -/
def lockRow (m : LockManager) (xid : Nat) (lockType : LockType) (oid : Nat) (rid : Rid) :
    Bool × LockManager :=
  m.request xid [.ofRow oid rid lockType, .ofTable oid (intention lockType)]

/-- `LockManager::ReleaseLocks`. -/
def releaseLocks (m : LockManager) (xid : Nat) : LockManager where
  lockMap := m.lockMap.insert xid []

end LockManager

end HuaDB
