import HuaDB.Value

/-!
`operators/expressions/`: the expressions of a plan and their evaluation on a record,
or on the two records of a join.

The classes with a vector `children_` of fixed length have that many arguments here.
`std::wregex`, which LIKE hands its translated pattern to, is a parameter.
-/

namespace HuaDB

inductive ArithmeticType where
  | add | sub | mul | div
deriving DecidableEq, Repr

inductive ComparisonType where
  | equal | notEqual | less | lessEqual | greater | greaterEqual
  | between | notBetween | in | notIn | like | notLike
deriving DecidableEq, Repr

/-- `LogicType` of the two-place connectives. -/
inductive LogicType where
  | and | or
deriving DecidableEq, Repr

/-- The function names that the constructor of `FuncCall` lets pass. -/
inductive FunctionName where
  | lower | upper | length
deriving DecidableEq, Repr

inductive OperatorExpression where
  | arithmetic (type : ArithmeticType) (left right : OperatorExpression)
  | typeCast (castType : ValueType) (arg : OperatorExpression)
  | columnValue (colIdx : Nat) (colType : ValueType) (name : String) (size : Nat) (isLeft : Bool)
  | comparison (type : ComparisonType) (left right : OperatorExpression)
  | const (value : Value)
  | funcCall (functionName : FunctionName) (arg : OperatorExpression)
  | list (exprs : List OperatorExpression)
  | logic (type : LogicType) (left right : OperatorExpression)
  /-- `Logic` of type NOT. -/
  | logicNot (arg : OperatorExpression)
  | nullTest (isNull : Bool) (arg : OperatorExpression)
deriving Repr

/-- `std::regex_match(text, std::wregex(pattern))`, which may throw. -/
abbrev RegexMatch := (text pattern : List UInt8) → Except EvalError Bool

/-! ## The operations -/

namespace Arithmetic

/-- `DoOperation<int32_t>`. The processor refuses the quotients it cannot represent. -/
def doOperationInt (type : ArithmeticType) (lhs rhs : Int32) : Except EvalError Value :=
  match type with
  | .add => .ok (.int (lhs + rhs))
  | .sub => .ok (.int (lhs - rhs))
  | .mul => .ok (.int (lhs * rhs))
  | .div =>
      if rhs = 0 ∨ (lhs = Int32.minValue ∧ rhs = -1) then .error .undefined
      else .ok (.int (lhs / rhs))

/-- `DoOperation<double>`. -/
def doOperationDouble (type : ArithmeticType) (lhs rhs : Double) : Value :=
  .double <| .ofFloat <|
    match type with
    | .add => lhs.toFloat + rhs.toFloat
    | .sub => lhs.toFloat - rhs.toFloat
    | .mul => lhs.toFloat * rhs.toFloat
    | .div => lhs.toFloat / rhs.toFloat

def compute (type : ArithmeticType) (lhs rhs : Value) : Except EvalError Value :=
  if lhs.isNull ∨ rhs.isNull then
    .ok .null
  else
    match lhs with
    | .int n => do doOperationInt type n (← rhs.getInt)
    | .double d => do return doOperationDouble type d (← rhs.getDouble)
    | _ => .error (.db "Type unsupported for arithmetic operation")

end Arithmetic

namespace Comparison

/-- `DoOperation`. -/
def doOperation {α : Type} [BEq α] [LT α] [LE α] [DecidableLT α] [DecidableLE α]
    (type : ComparisonType) (lhs rhs : α) : Except EvalError Value :=
  match type with
  | .equal => .ok (.bool (lhs == rhs))
  | .notEqual => .ok (.bool (lhs != rhs))
  | .less => .ok (.bool (lhs < rhs))
  | .lessEqual => .ok (.bool (lhs ≤ rhs))
  | .greater => .ok (.bool (rhs < lhs))
  | .greaterEqual => .ok (.bool (rhs ≤ lhs))
  | _ => .error (.db "Unknown comparison type")

/-- Whether the left operand lies between the two values of the right one. The upper
bound is looked at only from the lower bound on. -/
def isBetween (lhs rhs : Value) : Except EvalError Bool :=
  match lhs, rhs.getValues with
  | .int n, lower :: rest => do
      if (← lower.getInt) ≤ n then
        match rest with
        | upper :: _ => return n ≤ (← upper.getInt)
        | [] => .error .undefined
      else
        return false
  | .double d, lower :: rest => do
      if (← lower.getDouble).toFloat ≤ d.toFloat then
        match rest with
        | upper :: _ => return d.toFloat ≤ (← upper.getDouble).toFloat
        | [] => .error .undefined
      else
        return false
  | .int _, [] | .double _, [] => .error .undefined
  | _, _ => .error (.db "Type unsupported for comparison operation (between)")

/-- Whether the left operand is in the list, which is read up to the first match. -/
def isIn (lhs : Value) : List Value → Except EvalError Bool
  | [] => .ok false
  | value :: values => do
      let found ← match lhs with
        | .int n => do pure (n == (← value.getInt))
        | .double d => do pure (d.toFloat == (← value.getDouble).toFloat)
        | .char str | .varchar str => do pure (str == (← value.getString))
        | _ => .error (.db "Type unsupported for comparison operation (in)")
      if found then return true else isIn lhs values

/-- The two `std::regex_replace` of LIKE: `%` and `_` in the syntax of `std::wregex`. -/
def patternOf (pattern : List UInt8) : List UInt8 :=
  (pattern.flatMap fun b => if b = '%'.toUInt8 then ['.'.toUInt8, '*'.toUInt8] else [b]).map
    fun b => if b = '_'.toUInt8 then '.'.toUInt8 else b

def isLike (regexMatch : RegexMatch) (lhs rhs : Value) : Except EvalError Bool :=
  match lhs.getString, rhs.getString with
  | .ok text, .ok pattern => regexMatch text (patternOf pattern)
  | _, _ => .error (.db "LIKE operator only supports CHAR and VARCHAR types")

def unsupported : EvalError := .db "Type unsupported for comparison operation"

def compute (regexMatch : RegexMatch) (type : ComparisonType) (lhs rhs : Value) :
    Except EvalError Value :=
  if lhs.isNull ∨ rhs.isNull then
    .ok .null
  else
    match type with
    | .between => do return .bool (← isBetween lhs rhs)
    | .notBetween => do return .bool !(← isBetween lhs rhs)
    | .in => do return .bool (← isIn lhs rhs.getValues)
    | .notIn => do return .bool !(← isIn lhs rhs.getValues)
    | .like => do return .bool (← isLike regexMatch lhs rhs)
    | .notLike => do return .bool !(← isLike regexMatch lhs rhs)
    | type =>
        match lhs, rhs with
        | .int n, .int m => doOperation type n m
        | .int n, .double d => doOperation type n.toFloat d.toFloat
        | .double d, .int m => doOperation type d.toFloat m.toFloat
        | .double d, .double d' => doOperation type d.toFloat d'.toFloat
        | .char str, rhs | .varchar str, rhs => do doOperation type str (← rhs.getString)
        | _, _ => .error unsupported

end Comparison

namespace Logic

def doOperation : LogicType → Bool → Bool → Bool
  | .and, lhs, rhs => lhs && rhs
  | .or, lhs, rhs => lhs || rhs

def compute (type : LogicType) (lhs rhs : Value) : Except EvalError Value :=
  if lhs.isNull ∨ rhs.isNull then
    .ok .null
  else
    match lhs with
    | .bool b => do return .bool (doOperation type b (← rhs.getBool))
    | _ => .error (.db "Type unsupported for logic operation")

end Logic

/-- `StringUtil::Lower` and `StringUtil::Upper`, in the C locale. -/
def FunctionName.mapCase (base target : UInt8) (b : UInt8) : UInt8 :=
  if base ≤ b ∧ b < base + 26 then b - base + target else b

namespace FuncCall

def compute (functionName : FunctionName) (arg : Value) : Except EvalError Value := do
  let str ← arg.getString
  match functionName with
  | .lower => return .varchar (str.map (FunctionName.mapCase 'A'.toUInt8 'a'.toUInt8))
  | .upper => return .varchar (str.map (FunctionName.mapCase 'a'.toUInt8 'A'.toUInt8))
  | .length => return .uint (.ofNat str.length)

end FuncCall

namespace TypeCast

def compute (castType : ValueType) (arg : Value) : Except EvalError Value :=
  if castType = .bool then arg.castAsBool
  else .error (.db "Type unsupported for cast operation")

end TypeCast

namespace NullTest

def compute (isNull : Bool) (arg : Value) : Value := .bool (arg.isNull == isNull)

end NullTest

/-! ## Evaluation -/

/-- `Record::GetValue`. -/
def getValue (values : List Value) (colIdx : Nat) : Except EvalError Value :=
  match values[colIdx]? with
  | some value => .ok value
  | none => .error (.db "Column index out of range")

namespace OperatorExpression

variable (regexMatch : RegexMatch)

mutual

/-- `Evaluate`, on the values of a record. -/
def evaluate (record : List Value) : OperatorExpression → Except EvalError Value
  | .arithmetic type left right => do
      let lhs ← left.evaluate record
      let rhs ← right.evaluate record
      Arithmetic.compute type lhs rhs
  | .typeCast castType arg => do TypeCast.compute castType (← arg.evaluate record)
  | .columnValue colIdx _ _ _ _ => getValue record colIdx
  | .comparison type left right => do
      let lhs ← left.evaluate record
      let rhs ← right.evaluate record
      Comparison.compute regexMatch type lhs rhs
  | .const value => .ok value
  | .funcCall functionName arg => do FuncCall.compute functionName (← arg.evaluate record)
  | .list exprs => do return .list (← evaluateAll record exprs)
  | .logic type left right => do
      let lhs ← left.evaluate record
      let rhs ← right.evaluate record
      Logic.compute type lhs rhs
  | .logicNot arg => do (← arg.evaluate record).not
  | .nullTest isNull arg => do return NullTest.compute isNull (← arg.evaluate record)

def evaluateAll (record : List Value) : List OperatorExpression → Except EvalError (List Value)
  | [] => .ok []
  | expr :: exprs => do
      let value ← expr.evaluate record
      let values ← evaluateAll record exprs
      return value :: values

end

/-- `EvaluateJoin`. NOT, null tests, casts and lists evaluate their arguments on the
left record alone. -/
def evaluateJoin (left right : List Value) : OperatorExpression → Except EvalError Value
  | .arithmetic type l r => do
      let lhs ← l.evaluateJoin left right
      let rhs ← r.evaluateJoin left right
      Arithmetic.compute type lhs rhs
  | .typeCast castType arg => do TypeCast.compute castType (← arg.evaluate regexMatch left)
  | .columnValue colIdx _ _ _ isLeft => getValue (if isLeft then left else right) colIdx
  | .comparison type l r => do
      let lhs ← l.evaluateJoin left right
      let rhs ← r.evaluateJoin left right
      Comparison.compute regexMatch type lhs rhs
  | .const value => .ok value
  | .funcCall functionName arg => do
      FuncCall.compute functionName (← arg.evaluateJoin left right)
  | .list exprs => do return .list (← evaluateAll regexMatch left exprs)
  | .logic type l r => do
      let lhs ← l.evaluateJoin left right
      let rhs ← r.evaluateJoin left right
      Logic.compute type lhs rhs
  | .logicNot arg => do (← arg.evaluate regexMatch left).not
  | .nullTest isNull arg => do return NullTest.compute isNull (← arg.evaluate regexMatch left)

end OperatorExpression

/-! ## Printing -/

def ArithmeticType.toString : ArithmeticType → String
  | .add => "+"
  | .sub => "-"
  | .mul => "*"
  | .div => "/"

def ComparisonType.toString : ComparisonType → String
  | .equal => "="
  | .notEqual => "!="
  | .less => "<"
  | .lessEqual => "<="
  | .greater => ">"
  | .greaterEqual => ">="
  | .between => "between"
  | .notBetween => "not between"
  | .in => "in"
  | .notIn => "not_in"
  | .like => "~~"
  | .notLike => "!~~"

def LogicType.toString : LogicType → String
  | .and => "and"
  | .or => "or"

def FunctionName.toString : FunctionName → String
  | .lower => "lower"
  | .upper => "upper"
  | .length => "length"

/-- An element of a range, as `fmt` prints it: quoted and escaped. -/
def debugFormat (s : String) : String :=
  "\"" ++ s.toList.foldl (fun out c => out ++
    if c = '"' then "\\\"" else if c = '\\' then "\\\\" else if c = '\n' then "\\n"
    else if c = '\r' then "\\r" else if c = '\t' then "\\t" else c.toString) "" ++ "\""

namespace OperatorExpression

mutual

def toString : OperatorExpression → String
  | .arithmetic type left right => left.toString ++ " " ++ type.toString ++ " " ++ right.toString
  | .typeCast _ arg => arg.toString
  | .columnValue _ _ name _ _ => name
  | .comparison type left right => left.toString ++ " " ++ type.toString ++ " " ++ right.toString
  | .const value => value.toString
  | .funcCall functionName arg => functionName.toString ++ "([" ++ debugFormat arg.toString ++ "])"
  | .list exprs => "[" ++ ", ".intercalate (toStrings exprs) ++ "]"
  | .logic type left right => left.toString ++ " " ++ type.toString ++ " " ++ right.toString
  | .logicNot arg => "not " ++ arg.toString
  | .nullTest _ arg => arg.toString

def toStrings : List OperatorExpression → List String
  | [] => []
  | expr :: exprs => debugFormat expr.toString :: toStrings exprs

end

/-- `GetExprType() == OperatorExpressionType::COLUMN_VALUE`. -/
def isColumnValue : OperatorExpression → Bool
  | .columnValue .. => true
  | _ => false

end OperatorExpression

end HuaDB
