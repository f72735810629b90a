import HuaDB.OrderBy
import HuaDB.SelectPlans

/-!
What a SELECT statement is for: its rows, by the names of its columns.

An expression has a value in an environment, which gives the columns of a row by their names and
what AS names (`Binder.Expression.value`). The rows of a FROM clause are those of its tables,
side by side (`TableRef.Rows`); WHERE keeps some of them (`SelectStatement.Selects`), ORDER BY
puts them in order, LIMIT and OFFSET cut a part out, and the select list makes a row of each
(`SelectStatement.Answers`). There are no positions, operators or executors here.
-/

namespace HuaDB

open Volcano Sorting

namespace Planning

open Binder

/-! ## Expressions -/

/-- What an operator of two operands does with their values. -/
inductive BinaryOperator where
  | arithmetic (type : ArithmeticType)
  | comparison (type : ComparisonType)
  | logic (type : LogicType)

def BinaryOperator.compute (regexMatch : RegexMatch) (lhs rhs : Value) :
    BinaryOperator → Except EvalError Value
  | .arithmetic type => Arithmetic.compute type lhs rhs
  | .comparison type => Comparison.compute regexMatch type lhs rhs
  | .logic type => Logic.compute type lhs rhs

/-- An operator by its name; an equality with a list is one with an element of it. -/
def binaryOperator (isList : Bool) : String → Option BinaryOperator
  | "+" => some (.arithmetic .add)
  | "-" => some (.arithmetic .sub)
  | "*" => some (.arithmetic .mul)
  | "/" => some (.arithmetic .div)
  | "=" => some (.comparison (if isList then .in else .equal))
  | "!=" | "<>" => some (.comparison (if isList then .notIn else .notEqual))
  | "<" => some (.comparison .less)
  | "<=" => some (.comparison .lessEqual)
  | ">" => some (.comparison .greater)
  | ">=" => some (.comparison .greaterEqual)
  | "BETWEEN" => some (.comparison .between)
  | "NOT BETWEEN" => some (.comparison .notBetween)
  | "~~" => some (.comparison .like)
  | "!~~" => some (.comparison .notLike)
  | "and" => some (.logic .and)
  | "or" => some (.logic .or)
  | _ => none

/-- The columns of a row by their names, and the names that AS gives, each with what it stands
for. -/
structure Env where
  columns : Assoc String Value := []
  aliases : Assoc String (Except EvalError Value) := []

/-- A name is that of a column before it is that of an alias. -/
def Env.find (env : Env) (name : String) : Except EvalError Value :=
  match env.columns.find? name with
  | some value => .ok value
  | none => (env.aliases.find? name).getD (.error (.db ("Column " ++ name ++ " not found")))

end Planning

namespace Binder.Expression

open Planning

/-- The expression is a list. -/
def isList : Binder.Expression → Bool
  | .list _ => true
  | _ => false

section

variable (regexMatch : RegexMatch) (env : Env)

mutual

/-- The value of an expression without aggregates. -/
def value : Binder.Expression → Except EvalError Value
  | .const value => .ok value
  | .columnRef colName => env.find (".".intercalate colName)
  | .aliasOf _ expr => expr.value
  | .unaryOp opName arg => do
      if opName = "not" then (← arg.value).not
      else .error (.db ("Unknown unary operator " ++ opName))
  | .binaryOp opName left right => do
      let lhs ← left.value
      let rhs ← right.value
      match binaryOperator right.isList opName with
      | some operator => operator.compute regexMatch lhs rhs
      | none => .error (.db ("Unknown binary operator " ++ opName))
  | .list exprs => do return .list (← values exprs)
  | .typeCast castType arg => do TypeCast.compute castType (← arg.value)
  | .nullTest isNull arg => do return NullTest.compute isNull (← arg.value)
  | .funcCall name args => do
      match functionName name, ← values args with
      | some function, [arg] => FuncCall.compute function arg
      | _, _ => .error (.db ("Argument mismatch for function " ++ name))
  | .aggregate .. | .star => .error (.db "No value")

def values : List Binder.Expression → Except EvalError (List Value)
  | [] => .ok []
  | expr :: exprs => do
      let value ← expr.value
      let rest ← values exprs
      return value :: rest

end

end

mutual

/-- No AS and no aggregate. -/
def isPlain : Binder.Expression → Bool
  | .aggregate .. | .aliasOf .. => false
  | .binaryOp _ left right => left.isPlain && right.isPlain
  | .typeCast _ arg | .nullTest _ arg | .unaryOp _ arg => arg.isPlain
  | .funcCall _ args | .list args => arePlain args
  | .columnRef _ | .const _ | .star => true

def arePlain : List Binder.Expression → Bool
  | [] => true
  | expr :: exprs => expr.isPlain && arePlain exprs

end

/-- An item of a select list: AS stands outside if anywhere. -/
def isItem : Binder.Expression → Bool
  | .aliasOf _ expr => expr.isPlain
  | expr => expr.isPlain

mutual

/-- The columns that are named. -/
def names : Binder.Expression → List String
  | .columnRef colName => [".".intercalate colName]
  | .binaryOp _ left right => left.names ++ right.names
  | .aliasOf _ arg | .typeCast _ arg | .nullTest _ arg | .unaryOp _ arg => arg.names
  | .aggregate _ _ args | .funcCall _ args | .list args => namesAll args
  | .const _ | .star => []

def namesAll : List Binder.Expression → List String
  | [] => []
  | expr :: exprs => expr.names ++ namesAll exprs

end

mutual

/-- The columns that are named below NOT, null tests, casts and lists, where a join condition
is evaluated on the left record alone. -/
def namesBelow : Binder.Expression → List String
  | .binaryOp _ left right => left.namesBelow ++ right.namesBelow
  | .aliasOf _ arg => arg.namesBelow
  | .funcCall _ args => namesBelowAll args
  | .typeCast _ arg | .nullTest _ arg | .unaryOp _ arg => arg.names
  | .list args => namesAll args
  | .columnRef _ | .aggregate .. | .const _ | .star => []

def namesBelowAll : List Binder.Expression → List String
  | [] => []
  | expr :: exprs => expr.namesBelow ++ namesBelowAll exprs

end

end Binder.Expression

namespace Planning

open Binder
open Binder.Expression (values arePlain)

/-! ## FROM -/

/-- The rows of two tables side by side, by the rows of the left one. -/
def product (ls rs : List (List Value)) : List (List Value) :=
  ls.flatMap fun l => rs.map fun r => l ++ r

namespace TableRef

/-- The columns of a table reference. -/
def names : TableRef → List String
  | .baseTable table tableAlias _ columnList =>
      columnList.map fun column => tableAlias.getD table ++ "." ++ column.name
  | .crossJoin left right | .join left right _ => left.names ++ right.names
  | .expressionList valuesList =>
      (valuesList.headD []).zipIdx.map fun (_, i) => "#" ++ toString (i + 1)
  | .empty => []

/-- The rows of a table reference, whose conditions and values are known. Each join condition is
TRUE or FALSE on each pair of rows. -/
inductive Rows (regexMatch : RegexMatch) (tables : Nat → List (List Value)) :
    TableRef → List (List Value) → Prop
  | baseTable {table : String} {tableAlias : Option String} {oid : Nat} {columnList : ColumnList} :
      Rows regexMatch tables (.baseTable table tableAlias oid columnList) (tables oid)
  | crossJoin {left right : TableRef} {ls rs : List (List Value)}
      (inLeft : Rows regexMatch tables left ls) (inRight : Rows regexMatch tables right rs) :
      Rows regexMatch tables (.crossJoin left right) (product ls rs)
  | join {left right : TableRef} {condition : Binder.Expression} {ls rs : List (List Value)}
      (inLeft : Rows regexMatch tables left ls) (inRight : Rows regexMatch tables right rs)
      (joins : List Value → Bool)
      (evaluated : ∀ row ∈ product ls rs,
        condition.value regexMatch { columns := (left.names ++ right.names).zip row } =
          .ok (.bool (joins row))) :
      Rows regexMatch tables (.join left right condition) ((product ls rs).filter joins)
  | expressionList {valuesList : List (List Binder.Expression)} {rows : List (List Value)}
      (evaluated : List.Forall₂ (fun exprs row => values regexMatch {} exprs = .ok row)
        valuesList rows) :
      Rows regexMatch tables (.expressionList valuesList) rows
  | empty : Rows regexMatch tables .empty [[]]

/-- The expressions of a table reference have no AS and no aggregate, and below NOT, null tests,
casts and lists a join condition names columns of the left side only. -/
def Simple : TableRef → Prop
  | .baseTable .. | .empty => True
  | .crossJoin left right => left.Simple ∧ right.Simple
  | .join left right condition => left.Simple ∧ right.Simple ∧ condition.isPlain = true ∧
      ∀ name ∈ condition.namesBelow, name ∈ left.names
  | .expressionList valuesList => ∀ exprs ∈ valuesList, arePlain exprs = true

/-- Each row of a table has a value for each column. -/
def Conforms (tables : Nat → List (List Value)) : TableRef → Prop
  | .baseTable _ _ oid columnList => ∀ row ∈ tables oid, row.length = columnList.length
  | .crossJoin left right | .join left right _ => left.Conforms tables ∧ right.Conforms tables
  | .expressionList valuesList => ∀ exprs ∈ valuesList, exprs.length = (valuesList.headD []).length
  | .empty => True

end TableRef

/-! ## SELECT -/

/-- The name that AS gives to an item, with what it stands for. -/
def Env.addAlias (regexMatch : RegexMatch) (env : Env) : Binder.Expression → Env
  | .aliasOf name expr =>
      { env with aliases := env.aliases ++ [(name, expr.value regexMatch env)] }
  | _ => env

namespace SelectStatement

variable (regexMatch : RegexMatch) (tables : Nat → List (List Value)) (stmt : SelectStatement)

/-- The row without the names that AS gives. -/
def rowEnv (row : List Value) : Env := { columns := stmt.table.names.zip row }

/-- The row, with these names. -/
def env (row : List Value) : Env :=
  stmt.selectList.foldl (Env.addAlias regexMatch) (stmt.rowEnv row)

/-- The rows that FROM and WHERE select. -/
def Selects (selected : List (List Value)) : Prop :=
  ∃ rows, stmt.table.Rows regexMatch tables rows ∧
    match stmt.where_ with
    | none => selected = rows
    | some condition => ∃ holds : List Value → Bool,
        (∀ row ∈ rows, (condition.value regexMatch (stmt.rowEnv row) >>= isTrue) =
          .ok (holds row)) ∧
        selected = rows.filter holds

/-- A number that LIMIT or OFFSET is given. -/
def IsCount (expr : Option Binder.Expression) (count : Option Nat) : Prop :=
  match expr, count with
  | none, none => True
  | some expr, some count =>
      ∃ n : Int32, expr.value regexMatch {} = .ok (.int n) ∧ n.toInt = count
  | _, _ => False

/-- The key of a row by a term of ORDER BY. -/
def key (term : OrderByType × Binder.Expression) (row : List Value) : Except EvalError Value :=
  term.2.value regexMatch (stmt.env regexMatch row)

/-- One row comes before another by a term. -/
def before (term : OrderByType × Binder.Expression) (a b : List Value) : Bool :=
  match (do
    let x ← stmt.key regexMatch term a
    let y ← stmt.key regexMatch term b
    if term.1 = .desc then x.greater y else x.less y : Except EvalError Bool) with
  | .ok result => result
  | .error _ => false

/-- The rows have keys of one type that is ordered: an INT, a string or a DOUBLE, as long as
these are numbers. -/
def HasKeys (rows : List (List Value)) (term : OrderByType × Binder.Expression) : Prop :=
  ∃ T, (∀ row ∈ rows, ∃ value, stmt.key regexMatch term row = .ok value ∧ value.getType = T) ∧
    (Value.IsKeyType T ∨ T = .double ∧ StrictWeakOn (stmt.before regexMatch term) rows)

/-- Rows that agree in the first key agree in all. -/
def KeysAgree (rows : List (List Value)) : List (OrderByType × Binder.Expression) → Prop
  | [] => True
  | first :: rest =>
      ∀ a ∈ rows, ∀ b ∈ rows, Equivalent (stmt.before regexMatch first) a b →
        ∀ term ∈ rest, Equivalent (stmt.before regexMatch term) a b

/-- The expressions of a statement have values: `selected` are the rows that FROM and WHERE
select, and `f` makes the row of the select list. -/
structure Evaluates (selected : List (List Value)) (f : List Value → List Value)
    (limit offset : Option Nat) : Prop where
  selects : stmt.Selects regexMatch tables selected
  items : ∀ row ∈ selected,
    values regexMatch (stmt.env regexMatch row) stmt.selectList = .ok (f row)
  keys : ∀ term ∈ stmt.orderBy, stmt.HasKeys regexMatch selected term
  agree : stmt.KeysAgree regexMatch selected stmt.orderBy
  limit : IsCount regexMatch stmt.limitCount limit
  offset : IsCount regexMatch stmt.limitOffset offset

/-- A result of the statement: the selected rows in order, of which a part is cut out, and the
row of the select list for each. -/
def Answers (selected : List (List Value)) (f : List Value → List Value) (limit offset : Option Nat)
    (result : List (List Value)) : Prop :=
  ∃ sorted : List (List Value), sorted.Perm selected ∧
    Sorted (lexicographic (stmt.orderBy.map (stmt.before regexMatch))) sorted ∧
    result = (Iter.takeUpTo limit (sorted.drop (offset.getD 0))).map f

/-- A statement without aggregates, with AS around items of the select list only. -/
structure Simple : Prop where
  table : stmt.table.Simple
  items : ∀ item ∈ stmt.selectList, item.isItem = true
  condition : ∀ expr ∈ stmt.where_, expr.isPlain = true
  keys : ∀ term ∈ stmt.orderBy, term.2.isPlain = true
  limit : ∀ expr ∈ stmt.limitCount, expr.isPlain = true
  offset : ∀ expr ∈ stmt.limitOffset, expr.isPlain = true
  groupBy : stmt.groupBy = []
  distinct : stmt.distinct = false

end SelectStatement

end Planning

end HuaDB
