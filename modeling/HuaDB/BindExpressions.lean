import HuaDB.SchemaStrings

/-!
`binder/`: the expressions of a parse tree, the columns that they name, and the select list.

A parse tree has of its nodes what `BindExpression` reads of them. Binding reads the table
reference `table_`, and keeps the names that `AS` gives with what they stand for.
-/

namespace HuaDB

namespace Binder

/-! ## The parse tree -/

/-- The value of a constant. -/
inductive PgValue where
  | integer (ival : Int)
  | float (str : String)
  | string (str : List UInt8)
  | null
  | other (tag : String)

/-- A field of a column reference. -/
inductive PgField where
  | string (str : String)
  | aStar
  | other (tag : String)

inductive PgAExprKind where
  | op | between | notBetween | in | like | other

inductive PgBoolExprType where
  | andExpr | orExpr | notExpr | other

inductive PgNullTestType where
  | isNull | isNotNull | other

/-- `PGNode`. -/
inductive PgNode where
  | aConst (val : PgValue)
  | resTarget (name : Option String) (val : PgNode)
  | columnRef (fields : List PgField)
  | aExpr (kind : PgAExprKind) (name : String) (lexpr rexpr : Option PgNode)
  | aStar
  | funcCall (funcname : String) (args : List PgNode) (aggDistinct : Bool)
  | boolExpr (boolop : PgBoolExprType) (args : List PgNode)
  | nullTest (arg : PgNode) (nulltesttype : PgNullTestType)
  | list (items : List PgNode)
  | typeCast (typeName : String) (arg : PgNode)
  | other (tag : String)

/-! ## Expressions and table references -/

/-- `Expression`. -/
inductive Expression where
  | aggregate (functionName : String) (isDistinct : Bool) (args : List Expression)
  | aliasOf (name : String) (expr : Expression)
  | binaryOp (opName : String) (left right : Expression)
  | typeCast (castType : ValueType) (arg : Expression)
  | columnRef (colName : List String)
  | const (value : Value)
  | funcCall (functionName : String) (args : List Expression)
  | list (exprs : List Expression)
  | nullTest (isNull : Bool) (arg : Expression)
  | star
  | unaryOp (opName : String) (arg : Expression)

namespace Expression

mutual

/-- `ToString`. -/
def toString : Expression → Except EvalError String
  | .aggregate functionName _ args | .funcCall functionName args => do
      return functionName ++ "(" ++ "[" ++ ", ".intercalate (← toStrings args) ++ "]" ++ ")"
  | .aliasOf name expr => do return (← expr.toString) ++ " as " ++ name
  | .binaryOp opName left right => do
      return (← left.toString) ++ " " ++ opName ++ " " ++ (← right.toString)
  | .typeCast castType arg => do
      return "Cast " ++ (← TypeUtil.type2String castType) ++ ": " ++ (← arg.toString)
  | .columnRef colName => .ok (".".intercalate colName)
  | .const value => .ok value.toString
  | .list exprs => do return "[" ++ ", ".intercalate (← toStrings exprs) ++ "]"
  | .nullTest _ arg => arg.toString
  | .star => .ok "*"
  | .unaryOp opName arg => do return opName ++ " " ++ (← arg.toString)

/-- The elements of a range. -/
def toStrings : List Expression → Except EvalError (List String)
  | [] => .ok []
  | expr :: exprs => do
      let str ← expr.toString
      return debugFormat str :: (← toStrings exprs)

end

/-- `type_ == ExpressionType::STAR`. -/
def isStar : Expression → Bool
  | .star => true
  | _ => false

end Expression

/-- `TableRef`. -/
inductive TableRef where
  | baseTable (table : String) (tableAlias : Option String) (columnList : IndexedColumns)
  | crossJoin (left right : TableRef)
  | join (left right : TableRef)
  | empty
  | expressionList

/-! ## Columns -/

/-- `ResolveColumnFromBaseTable`. -/
def resolveColumnFromBaseTable (tableName : String) (columnList : IndexedColumns) :
    List String → Except EvalError (Option (List String))
  | [] => .error (.db "Empty column name")
  | [name] =>
      .ok (if (columnList.tryGetColumnIndex name).isSome then some [tableName, name] else none)
  | table :: names => .ok (if table = tableName then some (table :: names) else none)

/-- What is found in two joined tables. -/
def resolveJoined (columnName : List String) (place : String) :
    Option (List String) → Option (List String) → Except EvalError (Option (List String))
  | some _, some _ =>
      .error (.db ("Column reference " ++ ".".intercalate columnName ++ " is ambiguous " ++ place))
  | some left, none => .ok (some left)
  | none, right => .ok right

/-- `ResolveColumnInternal`: the names of the column reference, if there is one. -/
def resolveColumnInternal (columnName : List String) :
    TableRef → Except EvalError (Option (List String))
  | .baseTable table tableAlias columnList =>
      resolveColumnFromBaseTable (tableAlias.getD table) columnList columnName
  | .crossJoin left right => do
      let left ← resolveColumnInternal columnName left
      let right ← resolveColumnInternal columnName right
      resolveJoined columnName "3" left right
  | .join left right => do
      let left ← resolveColumnInternal columnName left
      let right ← resolveColumnInternal columnName right
      resolveJoined columnName "4" left right
  | .empty | .expressionList => .error (.db "Unsupported table ref type in ResolveColumn")

/-- `GetAllColumns`. -/
def getAllColumns : TableRef → Except EvalError (List Expression)
  | .baseTable table tableAlias columnList =>
      .ok (columnList.columns.map fun column => .columnRef [tableAlias.getD table, column.name])
  | .crossJoin left right | .join left right => do
      let columns ← getAllColumns left
      let rightColumns ← getAllColumns right
      return columns ++ rightColumns
  | .empty | .expressionList => .error (.db "Unsupported table type in GetAllColumns")

/-- What binding an expression reads besides the parse tree: `std::stod`, the table reference
`table_`, and whether the select list is still being bound. -/
structure Scope where
  stod : String → Except EvalError Double
  table : TableRef
  addingAlias : Bool

/-- `aliases_`: names, each with the text of what it stands for. -/
abbrev Aliases := List (String × String)

/-- A step of the binder, over the aliases. -/
abbrev Binding := StateT Aliases (Except EvalError)

/-- `ResolveColumn`. -/
def resolveColumn (scope : Scope) (columnName : List String) :
    Binding Expression := fun aliases => do
  match ← resolveColumnInternal columnName scope.table, columnName with
  | some colName, [name] =>
      if !scope.addingAlias && aliases.any (·.1 = name) then
        .error (.db ("Column reference " ++ name ++ " is ambiguous 1"))
      else return (.columnRef colName, aliases)
  | some colName, _ => return (.columnRef colName, aliases)
  | none, [name] =>
      if aliases.all (·.1 ≠ name) then
        .error (.db ("Column " ++ name ++ " not found"))
      else if 1 < aliases.countP (·.1 = name) then
        .error (.db ("Column reference " ++ name ++ " is ambiguous 2"))
      else return (.columnRef [name], aliases)
  | none, _ => .error (.db ("Column " ++ ".".intercalate columnName ++ " not found"))

/-! ## `BindExpression` -/

/-- `BindConstExpression`. -/
def bindConstExpression (scope : Scope) : PgValue → Except EvalError Expression
  | .integer ival => .ok (.const (.int (Int32.ofInt ival)))
  | .float str => do return .const (.double (← scope.stod str))
  | .string str => .ok (.const (.varchar str))
  | .null => .ok (.const .null)
  | .other tag => .error (.db ("Unsupported constant type: " ++ tag))

/-- The strings that the fields of a column reference are taken for. -/
def fieldStrings : List PgField → Except EvalError (List String)
  | [] => .ok []
  | .string str :: fields => do return str :: (← fieldStrings fields)
  | _ :: _ => .error .undefined

/-- `BindColumnRefExpression`. -/
def bindColumnRefExpression (scope : Scope) : List PgField → Binding Expression
  | [] => throw .undefined
  | .string str :: fields => do
      let columnName ← fieldStrings fields
      resolveColumn scope (str :: columnName)
  | .aStar :: _ => return .star
  | .other tag :: _ => throw (.db ("Unsupported column ref type " ++ tag))

/-- The name that `AS` gives, kept with what it stands for. -/
def addAlias (name : String) (expr : Expression) : Binding Unit := fun aliases => do
  let text ← expr.toString
  return ((), if (name, text) ∈ aliases then aliases else aliases ++ [(name, text)])

/-- The expression of `BindFuncCallExpression`, from the bound arguments. -/
def funcCallExpression (functionName : String) (aggDistinct : Bool) (args : List Expression) :
    Except EvalError Expression :=
  if functionName ∈ ["avg", "count", "sum", "min", "max"] then
    .ok (.aggregate functionName aggDistinct args)
  else if functionName ∈ ["lower", "upper", "length"] then
    if aggDistinct then
      .error (.db ("DISTINCT specified, but " ++ functionName ++ " is not an aggregate function"))
    else .ok (.funcCall functionName args)
  else .error (.db ("Unsupported function call: " ++ functionName))

/-- The expression of `BindBoolExpression`, from the bound arguments. -/
def boolExpression (boolop : PgBoolExprType) (exprs : List Expression) :
    Except EvalError Expression :=
  match boolop, exprs with
  | .andExpr, first :: second :: rest =>
      .ok (rest.foldl (.binaryOp "and") (.binaryOp "and" first second))
  | .orExpr, first :: second :: rest =>
      .ok (rest.foldl (.binaryOp "or") (.binaryOp "or" first second))
  | .andExpr, _ | .orExpr, _ => .error (.db "Too few arguments in BindBoolExpression")
  | .notExpr, [expr] => .ok (.unaryOp "not" expr)
  | .notExpr, _ => .error (.db "Not Expr should have only one argument")
  | .other, _ => .error (.db "Unsupported PGBoolExpr expression type in BindBoolExpression")

mutual

/-- `BindExpression`. -/
def bindExpression (scope : Scope) : PgNode → Binding Expression
  | .aConst val => bindConstExpression scope val
  | .resTarget none val => bindExpression scope val
  | .resTarget (some name) val => do
      let expr ← bindExpression scope val
      addAlias name expr
      return .aliasOf name expr
  | .columnRef fields => bindColumnRefExpression scope fields
  | .aExpr .other name _ _ =>
      throw (.db ("Unsupported PGAExpr expression type in BindExprExpression: " ++ name))
  | .aExpr _ name lexpr rexpr => do
      let left ← bindOptional scope lexpr
      let right ← bindOptional scope rexpr
      match left, right with
      | some left, some right => return .binaryOp name left right
      | _, _ => throw (.db "Unreachable code in BindExprExpression")
  | .aStar => return .star
  | .funcCall funcname args aggDistinct => do
      let args ← bindExpressionList scope args
      funcCallExpression funcname.toLower aggDistinct args
  | .boolExpr .other _ => boolExpression .other []
  | .boolExpr boolop args => do
      let exprs ← bindExpressionList scope args
      boolExpression boolop exprs
  | .nullTest arg nulltesttype => do
      let arg ← bindExpression scope arg
      match nulltesttype with
      | .isNull => return .nullTest true arg
      | .isNotNull => return .nullTest false arg
      | .other => throw (.db "Unsupported null test type")
  | .list items => do return .list (← bindExpressionList scope items)
  | .typeCast typeName arg => do
      let arg ← bindExpression scope arg
      return .typeCast (← TypeUtil.string2Type typeName) arg
  | .other tag => throw (.db ("Unsupported expression type: " ++ tag))

/-- A node that may be missing. -/
def bindOptional (scope : Scope) : Option PgNode → Binding (Option Expression)
  | none => return none
  | some node => do return some (← bindExpression scope node)

/-- `BindExpressionList`. -/
def bindExpressionList (scope : Scope) : List PgNode → Binding (List Expression)
  | [] => return []
  | node :: nodes => do
      let expr ← bindExpression scope node
      let exprs ← bindExpressionList scope nodes
      return expr :: exprs

end

/-- The loop of `BindSelectList`, with the expressions so far. -/
def bindSelectItems (scope : Scope) (exprs : List Expression) :
    List PgNode → Binding (List Expression)
  | [] => return exprs
  | node :: nodes => do
      let boundExpr ← bindExpression scope node
      if boundExpr.isStar then
        bindSelectItems scope (← getAllColumns scope.table) nodes
      else
        bindSelectItems scope (exprs ++ [boundExpr]) nodes

/-- `BindSelectList`. The parser gives a null pointer for no items. -/
def bindSelectList (scope : Scope) : List PgNode → Binding (List Expression)
  | [] => throw (.db "Select list is empty")
  | list => bindSelectItems scope [] list

end Binder

end HuaDB
