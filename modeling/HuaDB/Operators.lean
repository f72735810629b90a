import HuaDB.Expressions

/-!
`operators/`: the operators of a plan, and `catalog/column_definition.h`.

An operator has its output columns, its children and the data its executor reads. What
only the printing of a plan reads is left out.
-/

namespace HuaDB

/-- `ColumnDefinition`. -/
structure ColumnDefinition where
  name : String
  type : ValueType
  maxSize : Nat
deriving DecidableEq, Repr

/-- `ColumnList::columns_`. -/
abbrev ColumnList := List ColumnDefinition

inductive OrderByType where
  | default | asc | desc
deriving DecidableEq, Repr

inductive SelectLockType where
  | noLock | share | update
deriving DecidableEq, Repr

inductive Operator where
  | aggregate (columnList : ColumnList) (child : Operator)
  | delete (columnList : ColumnList) (child : Operator) (oid : Nat)
  | filter (columnList : ColumnList) (child : Operator) (predicate : OperatorExpression)
  | hashJoin (columnList : ColumnList) (left right : Operator)
  | insert (columnList : ColumnList) (child : Operator) (insertColumns : ColumnList) (oid : Nat)
  | limit (columnList : ColumnList) (child : Operator) (limitCount limitOffset : Option Nat)
  | lockRows (columnList : ColumnList) (child : Operator) (oid : Nat) (lockType : SelectLockType)
  | mergeJoin (columnList : ColumnList) (left right : Operator)
      (leftKey rightKey : OperatorExpression)
  | nestedLoopJoin (columnList : ColumnList) (left right : Operator)
      (joinCondition : OperatorExpression)
  | orderBy (columnList : ColumnList) (child : Operator)
      (orderBys : List (OrderByType × OperatorExpression))
  | projection (columnList : ColumnList) (child : Operator) (exprs : List OperatorExpression)
  | seqScan (columnList : ColumnList) (tableOid : Nat) (tableName : String)
      (tableAlias : Option String)
  | update (columnList : ColumnList) (child : Operator) (oid : Nat)
      (updateExprs : List OperatorExpression)
  | values (columnList : ColumnList) (values : List (List OperatorExpression))
deriving Repr

namespace Operator

/-- `OutputColumns`. -/
def outputColumns : Operator → ColumnList
  | .aggregate columnList _ | .delete columnList _ _ | .filter columnList _ _
  | .hashJoin columnList _ _ | .insert columnList _ _ _ | .limit columnList _ _ _
  | .lockRows columnList _ _ _ | .mergeJoin columnList _ _ _ _
  | .nestedLoopJoin columnList _ _ _ | .orderBy columnList _ _ | .projection columnList _ _
  | .seqScan columnList _ _ _ | .update columnList _ _ _ | .values columnList _ => columnList

/-- `GetChildren`. -/
def children : Operator → List Operator
  | .aggregate _ child | .delete _ child _ | .filter _ child _ | .insert _ child _ _
  | .limit _ child _ _ | .lockRows _ child _ _ | .orderBy _ child _ | .projection _ child _
  | .update _ child _ _ => [child]
  | .hashJoin _ left right | .mergeJoin _ left right _ _ | .nestedLoopJoin _ left right _ =>
      [left, right]
  | .seqScan .. | .values .. => []

/-- The assignment `child = f(child)` for every child. -/
def mapChildren (f : Operator → Operator) : Operator → Operator
  | .aggregate columnList child => .aggregate columnList (f child)
  | .delete columnList child oid => .delete columnList (f child) oid
  | .filter columnList child predicate => .filter columnList (f child) predicate
  | .hashJoin columnList left right => .hashJoin columnList (f left) (f right)
  | .insert columnList child insertColumns oid => .insert columnList (f child) insertColumns oid
  | .limit columnList child limitCount limitOffset =>
      .limit columnList (f child) limitCount limitOffset
  | .lockRows columnList child oid lockType => .lockRows columnList (f child) oid lockType
  | .mergeJoin columnList left right leftKey rightKey =>
      .mergeJoin columnList (f left) (f right) leftKey rightKey
  | .nestedLoopJoin columnList left right joinCondition =>
      .nestedLoopJoin columnList (f left) (f right) joinCondition
  | .orderBy columnList child orderBys => .orderBy columnList (f child) orderBys
  | .projection columnList child exprs => .projection columnList (f child) exprs
  | .seqScan columnList tableOid tableName tableAlias =>
      .seqScan columnList tableOid tableName tableAlias
  | .update columnList child oid updateExprs => .update columnList (f child) oid updateExprs
  | .values columnList rows => .values columnList rows

/-- `GetTableNameOrAlias` of a scan. -/
def tableNameOrAlias (tableName : String) (tableAlias : Option String) : String :=
  tableAlias.getD tableName

/-- `GetType() == OperatorType::FILTER`. -/
def isFilter : Operator → Bool
  | .filter .. => true
  | _ => false

/-- `GetType() == OperatorType::NESTEDLOOP`. -/
def isNestedLoopJoin : Operator → Bool
  | .nestedLoopJoin .. => true
  | _ => false

end Operator

end HuaDB
