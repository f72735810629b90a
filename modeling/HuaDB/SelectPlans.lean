import HuaDB.BindExpressions
import HuaDB.ColumnLists
import HuaDB.JoinPlans

/-!
`Planner::PlanSelect`, with the table references and the expressions that it plans.

Expressions are planned over the column lists of one operator or, for the condition of a join,
of two. What AS names is kept in `aliases_`. The object that it stands for is shared with the
plan when a later expression names it, and renamed in place when that is named in turn.
-/

namespace HuaDB

open IndexedColumns

namespace OperatorExpression

/-- `SetName`, as far as `ToString` shows it. -/
def setName (name : String) : OperatorExpression → OperatorExpression
  | .columnValue colIdx colType _ size isLeft => .columnValue colIdx colType name size isLeft
  | expr => expr

/-- `GetExprType() == OperatorExpressionType::LIST`. -/
def isList : OperatorExpression → Bool
  | .list _ => true
  | _ => false

end OperatorExpression

namespace Binder.Expression

mutual

/-- `HasAggregation`. -/
def hasAggregation : Binder.Expression → Bool
  | .aggregate .. => true
  | .aliasOf _ expr | .unaryOp _ expr => expr.hasAggregation
  | .binaryOp _ left right => left.hasAggregation || right.hasAggregation
  | .funcCall _ args => haveAggregation args
  | .typeCast .. | .columnRef _ | .const _ | .list _ | .nullTest .. | .star => false

def haveAggregation : List Binder.Expression → Bool
  | [] => false
  | arg :: args => arg.hasAggregation || haveAggregation args

end

/-- `type_ == ExpressionType::AGGREGATE`. -/
def isAggregate : Binder.Expression → Bool
  | .aggregate .. => true
  | _ => false

end Binder.Expression

namespace Planning

open Binder

/-- `TableRef`, as the planner reads it. -/
inductive TableRef where
  | baseTable (table : String) (tableAlias : Option String) (oid : Nat) (columnList : ColumnList)
  | crossJoin (left right : TableRef)
  | join (left right : TableRef) (condition : Binder.Expression)
  | expressionList (valuesList : List (List Binder.Expression))
  | empty

/-- `SelectStatement`. -/
structure SelectStatement where
  table : TableRef
  selectList : List Binder.Expression
  where_ : Option Binder.Expression := none
  groupBy : List Binder.Expression := []
  having : Option Binder.Expression := none
  orderBy : List (OrderByType × Binder.Expression) := []
  limitCount : Option Binder.Expression := none
  limitOffset : Option Binder.Expression := none
  lockType : SelectLockType := .noLock
  distinct : Bool := false

/-- A planned expression with its `name_`. If it is an object in `aliases_`, `shared` is its
place among these. -/
structure Planned where
  expr : OperatorExpression
  name : String
  shared : Option Nat := none

/-- The members of `Planner` besides `force_join_`. The objects in `aliases_` are apart, since
an object can be there under several names. -/
structure State where
  aggregates : List Binder.Expression := []
  aggregateExprs : List OperatorExpression := []
  nextAggregate : Nat := 0
  aliases : List (String × Nat) := []
  objects : List Planned := []
  alias2colname : Assoc String String := []

/-- A step of the planner. -/
abbrev Step := StateT State (Except EvalError)

/-! ## Columns and aliases -/

def Planned.of (expr : OperatorExpression) : Planned := ⟨expr, expr.getName, none⟩

def Planned.setName (name : String) (planned : Planned) : Planned :=
  { planned with expr := planned.expr.setName name, name := name }

/-- `PlanColumnRef`, of a name that is not one of the columns. -/
def planAlias (colName : String) : Step Planned := fun state =>
  match state.aliases.filter (·.1 = colName) with
  | [] => .error (.db ("Column " ++ colName ++ " not found in planner"))
  | [(_, place)] =>
      match state.objects[place]? with
      | none => .error .undefined
      | some object =>
          if object.expr.isColumnValue then .ok ({ object with shared := some place }, state)
          else .error (.db ("Column " ++ colName ++ " not found in planner"))
  | _ => .error (.db ("Column name " ++ colName ++ " is ambiguous in PlanColumnRef"))

/-- `PlanColumnRef`, over the column lists of the children. -/
def planColumnRef (colName : String) : List ColumnList → Step Planned
  | [] => throw (.db "No children in PlanColumnRef")
  | [columns] =>
      match (ofColumns columns).tryGetColumnIndex colName with
      | some i => do
          let column ← (ofColumns columns).getColumn i
          return .of (.columnValue i column.type colName column.maxSize true)
      | none => planAlias colName
  | [left, right] => do
      let expr ← Planner.planIndexedColumnRef (ofColumns left) (ofColumns right) colName
      return .of expr
  | _ => throw (.db "Too many children in PlanColumnRef")

/-- What `PlanExpression` does for AS with the expression that it names. -/
def addAlias (name : String) (planned : Planned) : Step Planned := fun state =>
  let renamed := planned.setName name
  if state.alias2colname.find? name = some planned.expr.toString then
    match planned.shared with
    | none => .ok (renamed, state)
    | some place => .ok (renamed, { state with objects := state.objects.set place renamed })
  else
    let alias2colname := state.alias2colname.insert name planned.name
    match planned.shared with
    | none =>
        .ok ({ renamed with shared := some state.objects.length },
          { state with
            aliases := state.aliases ++ [(name, state.objects.length)]
            objects := state.objects ++ [renamed], alias2colname := alias2colname })
    | some place =>
        .ok (renamed,
          { state with
            aliases := state.aliases ++ [(name, place)]
            objects := state.objects.set place renamed, alias2colname := alias2colname })

/-! ## Expressions -/

/-- `BinaryFactory`. -/
def binaryFactory (opName : String) (left right : OperatorExpression) :
    Except EvalError OperatorExpression :=
  if opName = "+" then .ok (.arithmetic .add left right)
  else if opName = "-" then .ok (.arithmetic .sub left right)
  else if opName = "*" then .ok (.arithmetic .mul left right)
  else if opName = "/" then .ok (.arithmetic .div left right)
  else if opName = "=" ∧ right.isList then .ok (.comparison .in left right)
  else if opName = "=" then .ok (.comparison .equal left right)
  else if (opName = "!=" ∨ opName = "<>") ∧ right.isList then .ok (.comparison .notIn left right)
  else if opName = "!=" ∨ opName = "<>" then .ok (.comparison .notEqual left right)
  else if opName = "<" then .ok (.comparison .less left right)
  else if opName = "<=" then .ok (.comparison .lessEqual left right)
  else if opName = ">" then .ok (.comparison .greater left right)
  else if opName = ">=" then .ok (.comparison .greaterEqual left right)
  else if opName = "BETWEEN" then .ok (.comparison .between left right)
  else if opName = "NOT BETWEEN" then .ok (.comparison .notBetween left right)
  else if opName = "~~" then .ok (.comparison .like left right)
  else if opName = "!~~" then .ok (.comparison .notLike left right)
  else if opName = "and" then .ok (.logic .and left right)
  else if opName = "or" then .ok (.logic .or left right)
  else .error (.db ("Unsupported binary operator in BinaryFactory: " ++ opName))

def functionName (name : String) : Option FunctionName :=
  if name = "lower" then some .lower
  else if name = "upper" then some .upper
  else if name = "length" then some .length
  else none

/-- The constructor of `FuncCall`. -/
def funcCall (name : String) (args : List OperatorExpression) :
    Except EvalError OperatorExpression :=
  match functionName name, args with
  | none, _ => .error (.thrown (.stdException ("Unknown function name " ++ name)))
  | some function, [arg] =>
      if TypeUtil.isString arg.getValueType then .ok (.funcCall function arg)
      else .error (.db ("Argument mismatch for function " ++ name))
  | some _, _ => .error (.db ("Argument mismatch for function " ++ name))

/-- The next of `aggregate_exprs_`. -/
def nextAggregate : Step Planned := fun state =>
  match state.aggregateExprs[state.nextAggregate]? with
  | none => .error (.db "Too many aggregate calls in PlanExpression")
  | some expr => .ok (.of expr, { state with nextAggregate := state.nextAggregate + 1 })

mutual

/-- `PlanExpression`, with `PlanConst`, `PlanUnaryOp` and `PlanBinaryOp`. -/
def planExpression (children : List ColumnList) : Binder.Expression → Step Planned
  | .const value => return .of (.const value)
  | .unaryOp opName arg => do
      let arg ← planExpression children arg
      if opName = "not" then return .of (.logicNot arg.expr)
      else throw (.db ("Unknown unary operator " ++ opName))
  | .binaryOp opName left right => do
      let left ← planExpression children left
      let right ← planExpression children right
      return .of (← binaryFactory opName left.expr right.expr)
  | .columnRef colName => planColumnRef (".".intercalate colName) children
  | .aliasOf name expr => do
      let bound ← planExpression children expr
      addAlias name bound
  | .aggregate .. => nextAggregate
  | .list exprs => do return .of (.list (← planExpressions children exprs))
  | .typeCast castType arg => do
      let arg ← planExpression children arg
      return .of (.typeCast castType arg.expr)
  | .nullTest isNull arg => do
      let arg ← planExpression children arg
      return .of (.nullTest isNull arg.expr)
  | .funcCall functionName args => do
      let args ← planExpressions children args
      return .of (← funcCall functionName args)
  | .star => throw (.db "Unsupported expression type in PlanExpression")

def planExpressions (children : List ColumnList) :
    List Binder.Expression → Step (List OperatorExpression)
  | [] => return []
  | expr :: exprs => do
      let planned ← planExpression children expr
      return planned.expr :: (← planExpressions children exprs)

end

/-! ## Table references -/

/-- `PlanExpressionList`. -/
def planExpressionList (valuesList : List (List Binder.Expression)) : Step Operator := do
  let rows ← valuesList.mapM (planExpressions [])
  Planner.planExpressionList rows

/-- `PlanTableRef`, with `PlanBaseTable`, `PlanCrossJoin` and `PlanJoin`. -/
def planTableRef (forceJoin : Planner.ForceJoin) : TableRef → Step Operator
  | .baseTable table tableAlias oid columnList =>
      return .seqScan (Planner.getColumnList (tableAlias.getD table) columnList) oid table tableAlias
  | .expressionList valuesList => planExpressionList valuesList
  | .crossJoin left right => do
      let left ← planTableRef forceJoin left
      let right ← planTableRef forceJoin right
      return .nestedLoopJoin (Planner.getJoinColumnList left right) left right (.const (.bool true))
  | .join left right condition => do
      let left ← planTableRef forceJoin left
      let right ← planTableRef forceJoin right
      let condition ← planExpression [left.outputColumns, right.outputColumns] condition
      return Planner.planJoin forceJoin left right condition.expr
  | .empty => throw (.db "TableRef type not supported in PlanTableRef")

/-! ## Aggregates -/

/-- `AddAggregateExpression`, with what it leaves of the expression: the arguments of an
aggregate are moved out of it. -/
def addAggregateExpression : Binder.Expression → Step Binder.Expression
  | .aggregate functionName isDistinct args => do
      modify fun state =>
        { state with aggregates := state.aggregates ++ [.aggregate functionName isDistinct args] }
      return .aggregate functionName isDistinct []
  | .binaryOp opName left right => do
      let left ← addAggregateExpression left
      let right ← addAggregateExpression right
      return .binaryOp opName left right
  | .aliasOf name expr => do return .aliasOf name (← addAggregateExpression expr)
  | .columnRef colName => return .columnRef colName
  | .const value => return .const value
  | _ => throw (.db "Unknown Binder.Expression type in agg")

/-- The argument that `GetAggregateType` finds, and the number 1 for COUNT(*). -/
def aggregateArgument (children : List ColumnList) (functionName : String) :
    List Binder.Expression → Step OperatorExpression
  | [] => return .const (.int 1)
  | [arg] => do
      let arg ← planExpression children arg
      if functionName ∈ ["avg", "count", "sum", "max", "min"] then return arg.expr
      else throw (.db ("Unknown function name " ++ functionName))
  | _ => throw (.db "Too many arguments in aggregate function")

/-- `CheckAggregate`. -/
def checkAggregate (groupByNames : List String) : Binder.Expression → Except EvalError Unit
  | .aggregate .. | .const _ => .ok ()
  | .columnRef colName =>
      if ".".intercalate colName ∈ groupByNames then .ok ()
      else .error (.db (".".intercalate colName ++
        " must appear in the GROUP BY clause or be used in an aggregate function"))
  | .binaryOp _ left right => do
      checkAggregate groupByNames left
      checkAggregate groupByNames right
  | .aliasOf name expr => do
      if expr.isAggregate then .ok ()
      else if (← expr.toString) ∈ groupByNames ∨ name ∈ groupByNames then .ok ()
      else .error (.db (name ++
        " must appear in the GROUP BY clause or be used in an aggregate function"))
  | _ => .error (.db "Unknown Binder.Expression type in CheckAggregate")

/-- The GROUP BY expressions, each with its `name_` and the name of its output column. -/
def planGroupBy (children : List ColumnList) :
    List Binder.Expression → Step (List (OperatorExpression × String × String))
  | [] => return []
  | item :: items => do
      let planned ← planExpression children item
      let state ← get
      let outputName :=
        if state.aliases.any (·.1 = planned.name) then
          (state.alias2colname.find? planned.name).getD ""
        else planned.name
      return (planned.expr, planned.name, outputName) :: (← planGroupBy children items)

/-- The arguments of `aggregates_`, which get their places behind the groups. -/
def planAggregates (children : List ColumnList) (place : Nat) :
    List Binder.Expression → Step (List (OperatorExpression × String))
  | [] => return []
  | .aggregate functionName _ args :: items => do
      let arg ← aggregateArgument children functionName args
      modify fun state => { state with
        aggregateExprs := state.aggregateExprs ++ [.columnValue place .int functionName 4 true] }
      return (arg, functionName) :: (← planAggregates children (place + 1) items)
  | _ :: _ => throw .undefined

/-- `PlanAggregate`, with what it leaves of the statement. -/
def planAggregate (stmt : SelectStatement) (child : Operator) :
    Step (Operator × SelectStatement) := do
  let groupBys ← planGroupBy [child.outputColumns] stmt.groupBy
  let having ← stmt.having.mapM addAggregateExpression
  let selectList ← stmt.selectList.mapM addAggregateExpression
  let orderBy ← stmt.orderBy.mapM fun (type, expr) => do
    return (type, ← addAggregateExpression expr)
  let aggregates ← planAggregates [child.outputColumns] groupBys.length (← get).aggregates
  selectList.forM fun item => checkAggregate (groupBys.map (·.2.1)) item
  let columnList ← (groupBys.map (fun groupBy => (groupBy.1, groupBy.2.2)) ++ aggregates).mapM
    fun (expr, name) => Planner.inferColumn name expr
  let plan := Operator.aggregate columnList child
  let stmt := { stmt with selectList := selectList, having := having, orderBy := orderBy }
  match having with
  | none => return (plan, stmt)
  | some having => do
      let expr ← planExpression [plan.outputColumns] having
      return (.filter plan.outputColumns plan expr.expr, stmt)

/-! ## `PlanSelect` -/

/-- The item is one that AS names, and no aggregate. -/
def namesExpression : Binder.Expression → Bool
  | .aliasOf _ expr => !expr.isAggregate
  | _ => false

/-- The loop that adds the aliases of the select list. -/
def addAliases (columns : ColumnList) (selectList : List Binder.Expression) : Step Unit :=
  selectList.forM fun item =>
    if namesExpression item then do
      let _ ← planExpression [columns] item
      return ()
    else return ()

/-- A number that LIMIT or OFFSET is given. -/
def planCount (columns : ColumnList) (regexMatch : RegexMatch) (message : String) :
    Option Binder.Expression → Step (Option Nat)
  | none => return none
  | some expr => do
      let planned ← planExpression [columns] expr
      let value ← planned.expr.evaluate regexMatch []
      let count ← value.getInt
      if count < 0 then throw (.db message) else return some count.toInt.toNat

/-- `PlanTableRef`, or one row without columns. -/
def planFrom (forceJoin : Planner.ForceJoin) : TableRef → Step Operator
  | .empty => return .values [] [[]]
  | table => planTableRef forceJoin table

def planWhere (plan : Operator) : Option Binder.Expression → Step Operator
  | none => return plan
  | some expr => do
      let planned ← planExpression [plan.outputColumns] expr
      return .filter plan.outputColumns plan planned.expr

/-- The expressions of the select list, each with its `name_`. -/
def planSelectList (columns : ColumnList) :
    List Binder.Expression → Step (List (OperatorExpression × String))
  | [] => return []
  | item :: items => do
      let planned ← planExpression [columns] item
      return (planned.expr, planned.name) :: (← planSelectList columns items)

def planOrderBy (plan : Operator) (orderBy : List (OrderByType × Binder.Expression)) :
    Step Operator := do
  if orderBy = [] then return plan
  else
    let orderBys ← orderBy.mapM fun (type, expr) => do
      let planned ← planExpression [plan.outputColumns] expr
      return (type, planned.expr)
    return .orderBy plan.outputColumns plan orderBys

def planLimit (regexMatch : RegexMatch) (plan : Operator)
    (limitCount limitOffset : Option Binder.Expression) : Step Operator := do
  if limitCount.isSome ∨ limitOffset.isSome then
    let count ← planCount plan.outputColumns regexMatch "LIMIT must not be negative" limitCount
    let offset ← planCount plan.outputColumns regexMatch "OFFSET must not be negative" limitOffset
    return .limit plan.outputColumns plan count offset
  else return plan

def planLock (plan : Operator) (table : TableRef) (lockType : SelectLockType) : Step Operator :=
  if lockType = .noLock then return plan
  else
    match table with
    | .baseTable _ _ oid _ => return .lockRows plan.outputColumns plan oid lockType
    | _ => throw (.db "Locking only supports for base table")

/-- `PlanSelect`. -/
def planSelect (forceJoin : Planner.ForceJoin) (regexMatch : RegexMatch)
    (stmt : SelectStatement) : Step Operator := do
  let plan ← planFrom forceJoin stmt.table
  let plan ← planWhere plan stmt.where_
  addAliases plan.outputColumns stmt.selectList
  let (plan, stmt) ←
    if stmt.selectList.any (·.hasAggregation) ∨ stmt.groupBy ≠ [] then planAggregate stmt plan
    else pure (plan, stmt)
  let exprs ← planSelectList plan.outputColumns stmt.selectList
  let plan ← planOrderBy plan stmt.orderBy
  let plan ← planLimit regexMatch plan stmt.limitCount stmt.limitOffset
  let plan ← planLock plan stmt.table stmt.lockType
  let inferred ← Planner.inferColumnList (exprs.map (·.1))
  let columnList :=
    List.zipWith (fun (column : ColumnDefinition) expr => { column with name := expr.2 }) inferred
      exprs
  let plan := Operator.projection columnList plan (exprs.map (·.1))
  if stmt.distinct then return .aggregate columnList plan else return plan

end Planning

end HuaDB
