import HuaDB.Lib.VolcanoLists
import HuaDB.Operators

/-!
`executors/`: the executor of every operator, as an iterator over the state of the
database.

What executors call below them (`TableScan`, `Table`, `LockManager`, `std::sort` and
`std::wregex`) is a parameter. The predicate of a filter is evaluated by a parameter as
well; `accepts` is the one of the source.
-/

namespace HuaDB

open Volcano

/-- A `Record` as executors see it. -/
structure ExecRecord where
  values : List Value
  rid : Rid := ⟨0, 0⟩
deriving Repr

/-- What stops an execution: the predicate of a filter, another expression, an operation
on the tables, or a loop with more rounds than its bound. -/
inductive Stop where
  | predicate (e : EvalError)
  | expression (e : EvalError)
  | storage (e : SqlError)
  | divergence
deriving DecidableEq, Repr

abbrev Exec (σ : Type) := EStateM Stop σ

/-- The code below the executors, over a state `σ`. -/
structure Storage (σ : Type) where
  regexMatch : RegexMatch
  /-- `std::sort`, with a comparison that may throw. -/
  sort : (ExecRecord → ExecRecord → Except EvalError Bool) → List ExecRecord →
    Except EvalError (List ExecRecord)
  /-- `TableScan`. -/
  Scan : Type
  getTable : Nat → Exec σ Unit
  getTableColumnList : Nat → Exec σ ColumnList
  openScan : Nat → Exec σ Scan
  /-- `SeqScanExecutor::Next`. -/
  getNextRecord : Nat → Scan → Exec σ (Option ExecRecord × Scan)
  lockRow : SelectLockType → Nat → Rid → Exec σ Unit
  /-- `InsertRecord`, `UpdateRecord` and `DeleteRecord`, each with its locks. -/
  insertRecord : Nat → List Value → Exec σ Unit
  updateRecord : Nat → Rid → List Value → Exec σ Unit
  deleteRecord : Nat → Rid → Exec σ Unit

/-- The expression has a value, or the execution stops. -/
def expression {σ α : Type} : Except EvalError α → Exec σ α
  | .ok a => return a
  | .error e => throw (.expression e)

theorem expression_bind_ok {σ α β : Type} {x : Except EvalError α} {a : α} (h : x = .ok a)
    (f : α → Exec σ β) (state : σ) : (expression x >>= f) state = f a state := by
  rw [h]
  rfl

theorem expression_bind_error {σ α β : Type} {x : Except EvalError α} {e : EvalError}
    (h : x = .error e) (f : α → Exec σ β) (state : σ) :
    (expression x >>= f) state = .error (.expression e) state := by
  rw [h]
  rfl

/-- `!value.IsNull() && value.GetValue<bool>()`. -/
def isTrue : Value → Except EvalError Bool
  | .null => .ok false
  | value => value.getBool

/-- The test of `FilterExecutor::Next`. -/
def accepts (regexMatch : RegexMatch) (predicate : OperatorExpression) (record : ExecRecord) :
    Except Stop Bool :=
  match predicate.evaluate regexMatch record.values >>= isTrue with
  | .ok accepted => .ok accepted
  | .error e => .error (.predicate e)

/-! ## Joins and sorting -/

section Fill

variable (regexMatch : RegexMatch)

/-- `Record::Append`. -/
def ExecRecord.append (l r : ExecRecord) : ExecRecord := { l with values := l.values ++ r.values }

/-- The two loops of `NestedLoopJoinExecutor::Next`. -/
def nestedLoop (joinCondition : OperatorExpression) (ls rs : List ExecRecord) :
    Except EvalError (List ExecRecord) := do
  let rows ← ls.mapM fun l => do
    let joined ← rs.filterMapM fun r => do
      let value ← joinCondition.evaluateJoin regexMatch l.values r.values
      return if ← value.getBool then some (l.append r) else none
    return joined
  return rows.flatten

/-- The innermost loop of `MergeJoinExecutor::Next`: the records `s_` on that join with `l`. -/
def mergeRun (equal : ExecRecord → ExecRecord → Except EvalError Bool) (l : ExecRecord) :
    List ExecRecord → Except EvalError (List ExecRecord × List ExecRecord)
  | [] => .ok ([], [])
  | r :: rs => do
      if ← equal l r then
        let (joined, rest) ← mergeRun equal l rs
        return (l.append r :: joined, rest)
      else
        return ([], r :: rs)

/-- The loop over the records `r` on that join with the first of `ss`; with it, where
`s_` was left, unless the loop had no round. -/
def mergeRuns (equal : ExecRecord → ExecRecord → Except EvalError Bool) (ss : List ExecRecord) :
    List ExecRecord →
      Except EvalError (List ExecRecord × List ExecRecord × Option (List ExecRecord))
  | [] => .ok ([], [], none)
  | l :: ls =>
      match ss with
      | [] => .ok ([], l :: ls, none)
      | s :: _ => do
          if ← equal l s then
            let (joined, rest) ← mergeRun equal l ss
            let (joined', ls, last) ← mergeRuns equal ss ls
            return (joined ++ joined', ls, some (last.getD rest))
          else
            return ([], l :: ls, none)

/-- A loop that advances an iterator while a test holds. -/
def dropWhileM (test : ExecRecord → Except EvalError Bool) :
    List ExecRecord → Except EvalError (List ExecRecord)
  | [] => .ok []
  | r :: rs => do if ← test r then dropWhileM test rs else return r :: rs

/-- The outer loop of `MergeJoinExecutor::Next`. Where the source reads an iterator at
its end, or one that was never set, the join stops. -/
def mergeLoop (less equal greater : ExecRecord → ExecRecord → Except EvalError Bool) :
    Nat → List ExecRecord → List ExecRecord → Except EvalError (List ExecRecord)
  | 0, _, _ => .ok []
  | fuel + 1, ls, rs =>
      match ls, rs with
      | [], _ | _, [] => .ok []
      | l :: _, _ => do
          match ← dropWhileM (fun s => greater l s) rs with
          | [] => .error .undefined
          | s :: ss => do
              let ls ← dropWhileM (fun r => less r s) ls
              let (joined, ls, last) ← mergeRuns equal (s :: ss) ls
              match ls, last with
              | [], _ => return joined
              | _, none => .error .undefined
              | ls, some rs => return joined ++ (← mergeLoop less equal greater fuel ls rs)

/-- `MergeJoinExecutor::Next`. -/
def mergeJoin (leftKey rightKey : OperatorExpression) (ls rs : List ExecRecord) :
    Except EvalError (List ExecRecord) :=
  let compare (test : Value → Value → Except EvalError Bool) (l r : ExecRecord) := do
    test (← leftKey.evaluate regexMatch l.values) (← rightKey.evaluate regexMatch r.values)
  mergeLoop (compare Value.less) (compare Value.equal) (compare Value.greater) (ls.length + 1) ls rs

/-- The sorts of `OrderByExecutor::Next`, by the last key first. -/
def sortBy (sort : (ExecRecord → ExecRecord → Except EvalError Bool) → List ExecRecord →
    Except EvalError (List ExecRecord)) (orderBys : List (OrderByType × OperatorExpression))
    (rows : List ExecRecord) : Except EvalError (List ExecRecord) :=
  orderBys.reverse.foldlM (fun rows (type, key) =>
    sort (fun a b => do
      let x ← key.evaluate regexMatch a.values
      let y ← key.evaluate regexMatch b.values
      if type = .desc then x.greater y else x.less y) rows) rows

end Fill

/-! ## The executors -/

/-- The values of an `INSERT`, put to their columns. -/
def placeValues (columns insertColumns : ColumnList) (values : List Value) :
    Except EvalError (List Value) :=
  (insertColumns.zipIdx).foldlM (fun row (column, i) => do
    match columns.findIdx? (·.name = column.name) with
    | none => .error (.db ("Column " ++ column.name ++ " not found in column list"))
    | some index => return row.set index (← getValue values i))
    (List.replicate columns.length .null)

/-- The record that a statement which writes returns: its `uint32_t count`. -/
def countRecord (count : Nat) : ExecRecord := { values := [.uint (.ofNat count)] }

section Executor

variable {σ : Type} (db : Storage σ)

/-- `ValuesExecutor`. Its expressions read no record. -/
def valuesIter (rows : List (List OperatorExpression)) : Iter Stop σ ExecRecord where
  State := List (List OperatorExpression)
  init := return rows
  next
    | _, [] => return (none, [])
    | _, exprs :: rows => do
        let values ← expression (OperatorExpression.evaluateAll db.regexMatch [] exprs)
        return (some { values := values }, rows)

/-- `SeqScanExecutor`. -/
def scanIter (oid : Nat) : Iter Stop σ ExecRecord where
  State := db.Scan
  init := db.openScan oid
  next _ scan := db.getNextRecord oid scan

/-- `ExecutorFactory::CreateExecutor`. `HashJoinExecutor` and `AggregateExecutor` give no
record, and the latter does not open its child. -/
def executor (test : OperatorExpression → ExecRecord → Except Stop Bool) :
    Operator → Iter Stop σ ExecRecord
  | .aggregate _ _ => .empty (S := Unit) (return ())
  | .delete _ child oid =>
      ((executor test child).sink .divergence (return ())
        (fun _ record => db.deleteRecord oid record.rid) countRecord).after (db.getTable oid)
  | .filter _ child predicate => (executor test child).filter .divergence (test predicate)
  | .hashJoin _ left right =>
      .empty (S := (executor test left).State × (executor test right).State) do
        let s ← (executor test left).init
        return (s, ← (executor test right).init)
  | .insert _ child insertColumns oid =>
      (executor test child).sink .divergence
        (do db.getTable oid; db.getTableColumnList oid)
        (fun columns record => do
          let values ← expression (placeValues columns insertColumns record.values)
          db.insertRecord oid values)
        countRecord
  | .limit _ child limitCount limitOffset =>
      (executor test child).limit limitCount (limitOffset.getD 0)
  | .lockRows _ child oid lockType =>
      (executor test child).map fun record => do
        db.lockRow lockType oid record.rid
        return record
  | .mergeJoin _ left right leftKey rightKey =>
      .blocking₂ .divergence (fun ls rs => do
        let rows ← expression (mergeJoin db.regexMatch leftKey rightKey ls rs)
        return if rows = [] then none else some rows) (executor test left) (executor test right)
  | .nestedLoopJoin _ left right joinCondition =>
      .blocking₂ .divergence (fun ls rs => do
        if ls = [] ∨ rs = [] then
          return none
        else
          return some (← expression (nestedLoop db.regexMatch joinCondition ls rs)))
        (executor test left) (executor test right)
  | .orderBy _ child orderBys =>
      (executor test child).blocking .divergence fun rows => do
        if rows = [] then
          return none
        else
          return some (← expression (sortBy db.regexMatch db.sort orderBys rows))
  | .projection _ child exprs =>
      (executor test child).map fun record => do
        let values ← expression (OperatorExpression.evaluateAll db.regexMatch record.values exprs)
        return { record with values := values }
  | .seqScan _ oid _ _ => scanIter db oid
  | .update _ child oid updateExprs =>
      (executor test child).sink .divergence (db.getTable oid)
        (fun _ record => do
          let values ← expression
            (OperatorExpression.evaluateAll db.regexMatch record.values updateExprs)
          db.updateRecord oid record.rid values)
        countRecord
  | .values _ rows => valuesIter db rows

/-- Executes a plan: `Init`, then `Next` until it returns no record. -/
def execute (plan : Operator) (fuel : Nat) (state : σ) : Run Stop σ ExecRecord :=
  (executor db (accepts db.regexMatch) plan).run .divergence fuel state

end Executor

/-- A read-only database that stays as it is: every scan gives the rows of its table. -/
def Storage.ofRows (regexMatch : RegexMatch)
    (sort : (ExecRecord → ExecRecord → Except EvalError Bool) → List ExecRecord →
      Except EvalError (List ExecRecord))
    (rows : Nat → List ExecRecord) : Storage Unit where
  regexMatch := regexMatch
  sort := sort
  Scan := List ExecRecord
  getTable _ := return
  getTableColumnList _ := return []
  openScan oid := return rows oid
  getNextRecord
    | _, [] => return (none, [])
    | _, row :: rest => return (some row, rest)
  lockRow _ _ _ := return
  insertRecord _ _ := throw (.storage .memoryFault)
  updateRecord _ _ _ := throw (.storage .memoryFault)
  deleteRecord _ _ := throw (.storage .memoryFault)

/-- A scan gives the rows of its table. -/
theorem Storage.gives_ofRows (regexMatch : RegexMatch)
    (sort : (ExecRecord → ExecRecord → Except EvalError Bool) → List ExecRecord →
      Except EvalError (List ExecRecord))
    (rows : Nat → List ExecRecord) (test : OperatorExpression → ExecRecord → Except Stop Bool)
    (columnList : ColumnList) (oid : Nat) (name : String) (tableAlias : Option String) (fuel : Nat) :
    (executor (Storage.ofRows regexMatch sort rows) test
      (.seqScan columnList oid name tableAlias)).Gives fuel () (rows oid) := by
  refine ⟨rows oid, rfl, ?_⟩
  generalize rows oid = scan
  induction scan with
  | nil => exact ⟨fun s => s = [], rfl, fun s hs => ⟨[], by rw [hs]; rfl, rfl⟩⟩
  | cons row scan ih => exact ⟨scan, rfl, ih⟩

/-! ## Tables of one column -/

/-- A table of one column. -/
def column (values : List Value) : List ExecRecord := values.map fun value => { values := [value] }

/-- Tables 1 and 2, of one column each. -/
def twoTables (ls rs : List Value) : Storage Unit :=
  .ofRows (fun _ _ => .ok false) (fun _ rows => .ok rows) fun oid =>
    if oid = 1 then column ls else column rs

def leftColumn : OperatorExpression := .columnValue 0 .int "l.id" 4 true

def rightColumn : OperatorExpression := .columnValue 0 .int "r.id" 4 false

end HuaDB
