import HuaDB.Sql.Store

/-!
`executors/`: the operators that read, and the three that write.

A row is the null bitmap and the values of a record, as `Record::SerializeTo` puts
them after the header. Expressions are functions of the row they are evaluated on,
which have a value or throw. Joins, aggregates, sorting and limits are left out.
-/

namespace HuaDB

abbrev Row := List UInt8

abbrev Expression (α : Type) := Row → Except Exception α

/-- `ExecutorContext`. -/
structure ExecutorContext where
  xid : Nat
  isolationLevel : IsolationLevel
  cid : Nat
deriving DecidableEq, Repr

/-- The operators of a plan that reads. -/
inductive Plan where
  | values (rows : List (Except Exception Row))
  | seqScan (oid : Nat)
  | filter (predicate : Expression Bool) (child : Plan)
  | projection (exprs : Expression Row) (child : Plan)
  | lockRows (lockType : LockType) (oid : Nat) (child : Plan)

/-- The plans of the statements that read or write rows. The child of an UPDATE or a
DELETE is a filter over a scan of its table. -/
inductive Query where
  | select (plan : Plan)
  /-- `toRecord` takes the values of a row to their columns. -/
  | insert (oid : Nat) (toRecord : Expression Row) (child : Plan)
  | update (oid : Nat) (predicate : Expression Bool) (exprs : Expression Row)
  | delete (oid : Nat) (predicate : Expression Bool)

/-- What a statement returns: rows, or the `uint32_t` number of rows it wrote. -/
inductive QueryResult where
  | rows (rows : List Row)
  | count (count : Nat)
deriving DecidableEq, Repr

namespace Sql

/-! ## Executors that read -/

/-- What an executor keeps between two calls of `Next`: `cursor_`, `rid_` of the
`TableScan`, or the state of its child. -/
def Plan.State : Plan → Type
  | .values _ => List (Except Exception Row)
  | .seqScan _ => Rid
  | .filter _ child | .projection _ child | .lockRows _ _ child => Plan.State child

/-- `Init`. -/
def Plan.init : (plan : Plan) → Sql (Plan.State plan)
  | .values rows => return rows
  | .seqScan oid => do
      let table ← getTable oid
      return (⟨table.firstPageId, 0⟩ : Rid)
  | .filter _ child | .projection _ child | .lockRows _ _ child => Plan.init child

/-- The loop of `FilterExecutor::Next`. -/
def filterLoop {σ : Type} (predicate : Expression Bool) (next : σ → Sql (Option Tuple × σ)) :
    Nat → σ → Sql (Option Tuple × σ)
  | 0, _ => throw .divergence
  | fuel + 1, s => do
      match ← next s with
      | (none, s) => return (none, s)
      | (some tuple, s) =>
          if ← evaluate (predicate tuple.record.data) then
            return (some tuple, s)
          else
            filterLoop predicate next fuel s

/-- `SeqScanExecutor::Next`. -/
def seqScanNext (context : ExecutorContext) (fuel oid : Nat) (rid : Rid) :
    Sql (Option Tuple × Rid) := do
  let activeXids ← TransactionManager.activeXids context.xid context.isolationLevel
  orThrow (LockManager.lockTable context.xid .is oid) "seq scan failed"
  let (tuple?, rid) ← TableScan.getNextRecord oid
    (fun header => canGet header context.xid context.cid context.isolationLevel activeXids) fuel rid
  match tuple? with
  | none => return (none, rid)
  | some tuple =>
      record (.read context.xid oid tuple.rid tuple.record.header.xmin)
      return (some tuple, rid)

/-- `Next`. -/
def Plan.next (context : ExecutorContext) (fuel : Nat) :
    (plan : Plan) → Plan.State plan → Sql (Option Tuple × Plan.State plan)
  | .values _, [] => return (none, [])
  | .values _, row :: rest => do
      let data ← evaluate row
      return (some { record := { data := data } }, rest)
  | .seqScan oid, rid => seqScanNext context fuel oid rid
  | .filter predicate child, s => filterLoop predicate (Plan.next context fuel child) fuel s
  | .projection exprs child, s => do
      match ← Plan.next context fuel child s with
      | (none, s) => return (none, s)
      | (some tuple, s) =>
          let data ← evaluate (exprs tuple.record.data)
          return (some ⟨{ data := data }, tuple.rid⟩, s)
  | .lockRows lockType oid child, s => do
      match ← Plan.next context fuel child s with
      | (none, s) => return (none, s)
      | (some tuple, s) =>
          orThrow (LockManager.lockRow context.xid lockType oid tuple.rid) "lock row failed!"
          return (some tuple, s)

/-! ## Executors that write -/

/-- `while (auto record = executor->Next())`. -/
def drain {σ β : Type} (next : σ → Sql (Option Tuple × σ)) (body : β → Tuple → Sql β) :
    Nat → β → σ → Sql β
  | 0, _, _ => throw .divergence
  | fuel + 1, acc, s => do
      match ← next s with
      | (none, _) => return acc
      | (some tuple, s) =>
          let acc ← body acc tuple
          drain next body fuel acc s

/-- What `InsertExecutor::Next` does with a row. -/
def insertRow (context : ExecutorContext) (fuel oid : Nat) (toRecord : Expression Row)
    (tuple : Tuple) : Sql Unit := do
  let data ← evaluate (toRecord tuple.record.data)
  orThrow (LockManager.lockTable context.xid .ix oid) "insert table lock failed!"
  let rid ← Table.insertRecord fuel oid { data := data } context.xid context.cid
  orThrow (LockManager.lockRow context.xid .x oid rid) "insert lock failed!"

/-- What `UpdateExecutor::Next` does with a row. -/
def updateRow (context : ExecutorContext) (fuel oid : Nat) (exprs : Expression Row)
    (tuple : Tuple) : Sql Unit := do
  let data ← evaluate (exprs tuple.record.data)
  orThrow (LockManager.lockRow context.xid .x oid tuple.rid) "update lock failed!"
  let rid ← Table.updateRecord fuel oid tuple.rid context.xid context.cid { data := data }
  orThrow (LockManager.lockRow context.xid .x oid rid) "update lock failed!"

/-- What `DeleteExecutor::Next` does with a row. -/
def deleteRow (context : ExecutorContext) (oid : Nat) (tuple : Tuple) : Sql Unit := do
  orThrow (LockManager.lockRow context.xid .x oid tuple.rid) "delete lock failed!"
  Table.deleteRecord oid tuple.rid context.xid

/-- A write with `uint32_t count` counting the rows. -/
def counted (write : Tuple → Sql Unit) (count : Nat) (tuple : Tuple) : Sql Nat := do
  write tuple
  return (count + 1) % 2 ^ 32

/-- The executor of a query, run to its end. -/
def executeQuery (context : ExecutorContext) (fuel : Nat) : Query → Sql QueryResult
  | .select plan => do
      let s ← Plan.init plan
      let rows ← drain (Plan.next context fuel plan)
        (fun rows tuple => return rows ++ [tuple.record.data]) fuel [] s
      return .rows rows
  | .insert oid toRecord child => do
      let s ← Plan.init child
      let _ ← getTable oid
      let count ← drain (Plan.next context fuel child)
        (counted (insertRow context fuel oid toRecord)) fuel 0 s
      return .count count
  | .update oid predicate exprs => do
      let plan := Plan.filter predicate (.seqScan oid)
      let s ← Plan.init plan
      let count ← drain (Plan.next context fuel plan)
        (counted (updateRow context fuel oid exprs)) fuel 0 s
      return .count count
  | .delete oid predicate => do
      let plan := Plan.filter predicate (.seqScan oid)
      let s ← Plan.init plan
      let count ← drain (Plan.next context fuel plan) (counted (deleteRow context oid)) fuel 0 s
      return .count count

end Sql

end HuaDB
