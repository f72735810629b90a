import HuaDB.Executors

/-!
The parts of `planner/planner.cpp` that plan what a statement writes: `PlanExpressionList`,
`PlanInsert` and `PlanUpdate`, with the types and sizes of expressions they look at.

The names of a column list are distinct here, as those of a table and of a join of tables
are: `GetColumnIndex` finds the one column of a name.
-/

namespace HuaDB

namespace OperatorExpression

/-- `GetValueType`, which the constructors set. -/
def getValueType : OperatorExpression → ValueType
  | .arithmetic .. => .int
  | .typeCast castType _ => castType
  | .columnValue _ colType _ _ _ => colType
  | .comparison .. | .logic .. | .logicNot _ | .nullTest .. => .bool
  | .const value => value.getType
  | .funcCall .lower _ | .funcCall .upper _ => .varchar
  | .funcCall .length _ => .int
  | .list _ => .list

/-- `GetSize`. -/
def getSize : OperatorExpression → Nat
  | .columnValue _ _ _ size _ => size
  | .const value => value.getSize
  | _ => 0

/-- The member `name_`. -/
def getName : OperatorExpression → String
  | .columnValue _ _ name _ _ => name
  | .funcCall functionName _ => functionName.toString
  | _ => "<no_name>"

end OperatorExpression

namespace Planner

/-- `TryGetColumnIndex`. -/
def tryGetColumnIndex (columns : ColumnList) (name : String) : Option Nat :=
  columns.findIdx? (·.name = name)

/-- `GetColumn(GetColumnIndex(name))`. -/
def getColumn (columns : ColumnList) (name : String) : Except EvalError ColumnDefinition :=
  match columns.find? (·.name = name) with
  | some column => .ok column
  | none => .error (.db ("Column " ++ name ++ " not found in column list"))

/-- The output column of an expression. -/
def inferColumn (name : String) (expr : OperatorExpression) : Except EvalError ColumnDefinition :=
  if TypeUtil.isString expr.getValueType then
    .ok ⟨name, expr.getValueType, expr.getSize % 2 ^ 16⟩
  else do
    let size ← TypeUtil.typeSize expr.getValueType
    return ⟨name, expr.getValueType, size⟩

/-- `InferColumnList`, and the column list of `PlanExpressionList`. -/
def inferColumnList (exprs : List OperatorExpression) : Except EvalError ColumnList :=
  exprs.zipIdx.mapM fun (expr, i) => inferColumn ("#" ++ toString (i + 1)) expr

/-- `PlanExpressionList`: the columns are those of the first row. -/
def planExpressionList (rows : List (List OperatorExpression)) : Except EvalError Operator :=
  match rows with
  | [] => .error .undefined
  | first :: _ => do return .values (← inferColumnList first) rows

/-- `PlanColumnRef` over one child. -/
def planColumnRef (columns : ColumnList) (name : String) : Except EvalError OperatorExpression :=
  match (columns.zipIdx).find? (·.1.name = name) with
  | some (column, i) => .ok (.columnValue i column.type name column.maxSize true)
  | none => .error (.db ("Column " ++ name ++ " not found in planner"))

/-- `PlanSelect` of a list of values: all of its columns, by name. -/
def planValues (rows : List (List OperatorExpression)) : Except EvalError Operator := do
  let child ← planExpressionList rows
  let exprs ← child.outputColumns.mapM fun column =>
    planColumnRef child.outputColumns column.name
  let columns ← inferColumnList exprs
  return .projection (List.zipWith (fun column expr => { column with name := expr.getName })
    columns exprs) child exprs

/-- The checks of `PlanInsert` on a column of the child and the column of the table. -/
def checkColumn (child table : ColumnDefinition) : Except EvalError Unit :=
  if child.type ≠ table.type ∧ child.type ≠ .nullType ∧
      ¬ (child.type = .varchar ∧ table.type = .char) then
    .error (.db "Insert column type does not match table column type")
  else if TypeUtil.isString child.type ∧ TypeUtil.isString table.type ∧
      table.maxSize < child.maxSize then
    .error (.db "Insert value too long")
  else
    .ok ()

/-- The columns that an INSERT names; without names they are all those of the table. -/
def insertColumns (columns : ColumnList) (names : List String) : Except EvalError ColumnList :=
  if names = [] then .ok columns else names.mapM (getColumn columns)

/-- `PlanInsert`, of a planned SELECT or list of values. -/
def planInsert (child : Operator) (columns : ColumnList) (names : List String) (oid : Nat) :
    Except EvalError Operator := do
  let tableColumns ← insertColumns columns names
  if child.outputColumns.length ≠ tableColumns.length then
    .error (.db "Insert column number does not match table column number")
  else do
    (child.outputColumns.zip tableColumns).forM fun (childColumn, tableColumn) =>
      checkColumn childColumn tableColumn
    return .insert [⟨"insert", .int, 4⟩] child tableColumns oid

/-- The column list of a scan. -/
def getColumnList (tableName : String) (columns : ColumnList) : ColumnList :=
  columns.map fun column => { column with name := tableName ++ "." ++ column.name }

/-- `PlanUpdate`, of the table's scan with the condition of the statement. The expressions
of the SET clause are planned; the other columns keep their values. -/
def planUpdate (oid : Nat) (tableName : String) (columns : ColumnList)
    (predicate : OperatorExpression) (sets : List (String × OperatorExpression)) :
    Except EvalError Operator := do
  let scanColumns := getColumnList tableName columns
  let filter := Operator.filter scanColumns (.seqScan scanColumns oid tableName none) predicate
  let kept := scanColumns.zipIdx.map fun (column, i) =>
    OperatorExpression.columnValue i column.type column.name column.maxSize true
  let updateExprs ← sets.foldlM (fun exprs (name, expr) =>
    match tryGetColumnIndex scanColumns (tableName ++ "." ++ name) with
    | some index => return exprs.set index expr
    | none => throw (.db ("Column " ++ tableName ++ "." ++ name ++ " not found in planner"))) kept
  return .update [⟨"update", .int, 4⟩] filter oid updateExprs

end Planner

end HuaDB
