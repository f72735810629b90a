import HuaDB.Sql.Store
import Mathlib.Data.Nat.Log

/-!
`common/types.h`, `common/type_util.cpp` and `common/value.cpp`.

A `std::string` inside a value is the list of its bytes; printed, every byte is a
character. A `double` is its bit pattern. The member `is_null_` of a value is set
by nothing that reaches an expression or a record other than the default
constructor, whose type is `NULL_TYPE`: the two make the one value `null`.
-/

namespace HuaDB

/-- `enum class Type`. -/
inductive ValueType where
  | bool
  | int
  | uint
  | double
  | char
  | varchar
  | nullType
  | list
deriving DecidableEq, Repr

/-- What stops the evaluation of an expression: an exception of the source, or a
step that C++ leaves undefined (an index outside a vector, a division by zero). -/
inductive EvalError where
  | thrown (e : Exception)
  | undefined
deriving DecidableEq, Repr

namespace EvalError

def db (message : String) : EvalError := .thrown (.dbException message)

end EvalError

/-! ## `TypeUtil` -/

namespace TypeUtil

def isString : ValueType → Bool
  | .char | .varchar => true
  | _ => false

def typeSize : ValueType → Except EvalError Nat
  | .nullType => .ok 0
  | .bool => .ok 1
  | .int | .uint => .ok 4
  | .double => .ok 8
  | .char | .varchar => .error (.db "Size must be specified for CHAR and VARCHAR types")
  | .list => .error (.db "Unknown type in TypeSize")

end TypeUtil

/-! ## `double` -/

structure Double where
  bits : UInt64
deriving DecidableEq, Repr

namespace Double

def toFloat (d : Double) : Float := .ofBits d.bits

def ofFloat (f : Float) : Double := ⟨f.toBits⟩

/-- The six significant digits of `num / den` when its first digit has weight `10 ^ x`,
rounded to the nearest, ties to even. -/
def digits (num den : Nat) (x : Int) : Nat :=
  let shift := 5 - x
  let n := num * 10 ^ shift.toNat
  let d := den * 10 ^ (-shift).toNat
  let q := n / d
  let r := n % d
  if d < 2 * r ∨ (d = 2 * r ∧ q % 2 = 1) then q + 1 else q

/-- A decimal fraction without the zeros at its end. -/
def fraction (digits : String) : String :=
  let kept := (digits.toList.reverse.dropWhile (· = '0')).reverse
  if kept = [] then "" else "." ++ String.ofList kept

/-- A natural number on at least `width` places. -/
def padded (n width : Nat) : String :=
  let s := toString n
  String.ofList (List.replicate (width - s.length) '0') ++ s

/-- `std::ostringstream << val`: six significant digits, in the style of `%g`. -/
def toString (d : Double) : String :=
  let bits := d.bits.toNat
  let sign := if bits / 2 ^ 63 = 1 then "-" else ""
  let e := bits / 2 ^ 52 % 2 ^ 11
  let m := bits % 2 ^ 52
  if e = 2 ^ 11 - 1 then
    sign ++ if m = 0 then "inf" else "nan"
  else if e = 0 ∧ m = 0 then
    sign ++ "0"
  else
    let m := if e = 0 then m else m + 2 ^ 52
    let e := max e 1
    let num := m * 2 ^ (e - 1075)
    let den := 2 ^ (1075 - e)
    let x₀ : Int := Nat.log 10 num - Nat.log 10 den
    let x := if num * 10 ^ (-x₀).toNat < den * 10 ^ x₀.toNat then x₀ - 1 else x₀
    let (x, n) := if digits num den x = 10 ^ 6 then (x + 1, 10 ^ 5) else (x, digits num den x)
    if x < -4 ∨ 6 ≤ x then
      let exponent := (if x < 0 then "e-" else "e+") ++ padded x.natAbs 2
      sign ++ ToString.toString (n / 10 ^ 5) ++ fraction (padded (n % 10 ^ 5) 5) ++ exponent
    else
      let places := (5 - x).toNat
      sign ++ ToString.toString (n / 10 ^ places)
        ++ fraction (padded (n % 10 ^ places) places)

end Double

/-! ## `Value` -/

inductive Value where
  | null
  | bool (val : Bool)
  | int (val : Int32)
  | uint (val : UInt32)
  | double (val : Double)
  | char (str : List UInt8)
  | varchar (str : List UInt8)
  | list (values : List Value)
deriving Repr

namespace Value

def getType : Value → ValueType
  | .null => .nullType
  | .bool _ => .bool
  | .int _ => .int
  | .uint _ => .uint
  | .double _ => .double
  | .char _ => .char
  | .varchar _ => .varchar
  | .list _ => .list

def isNull (value : Value) : Bool := value.getType = .nullType

/-- `GetSize`, a `db_size_t`. The source leaves the size of a list unset. -/
def getSize : Value → Nat
  | .null | .list _ => 0
  | .bool _ => 1
  | .int _ | .uint _ => 4
  | .double _ => 8
  | .char str | .varchar str => str.length % 2 ^ 16

/-- `GetValues`. -/
def getValues : Value → List Value
  | .list values => values
  | _ => []

/-- Bytes, printed. -/
def printBytes (str : List UInt8) : String := String.ofList (str.map fun b => Char.ofNat b.toNat)

/-- `ToString`. Printing a list throws; no constant is one. -/
def toString : Value → String
  | .null => "NULL"
  | .bool val => if val then "true" else "false"
  | .int val => ToString.toString val.toInt
  | .uint val => ToString.toString val.toNat
  | .double val => val.toString
  | .char str | .varchar str => printBytes str
  | .list _ => ""

/-! ### `GetValue<T>` -/

def getBool : Value → Except EvalError Bool
  | .bool val => .ok val
  | _ => .error (.db "Type mismatch (expected bool)")

def getInt : Value → Except EvalError Int32
  | .int val => .ok val
  | _ => .error (.db "Type mismatch (expected int)")

def getDouble : Value → Except EvalError Double
  | .double val => .ok val
  | _ => .error (.db "Type mismatch (expected double)")

def getString : Value → Except EvalError (List UInt8)
  | .char str | .varchar str => .ok str
  | _ => .error (.db "Type mismatch (expected char/varchar)")

/-! ### Comparisons -/

/-- `Less`, `Equal` and `Greater`: a comparison of two values of one type. -/
def compareWith (name : String) (bool : Option (Bool → Bool → Bool)) (int : Int32 → Int32 → Bool)
    (double : Float → Float → Bool) (str : List UInt8 → List UInt8 → Bool) (a b : Value) :
    Except EvalError Bool :=
  if a.getType ≠ b.getType then
    .error (.db s!"Type mismatch (in {name})")
  else
    match a, b, bool with
    | .bool a, .bool b, some bool => .ok (bool a b)
    | .int a, .int b, _ => .ok (int a b)
    | .double a, .double b, _ => .ok (double a.toFloat b.toFloat)
    | .char a, .char b, _ | .varchar a, .varchar b, _ => .ok (str a b)
    | _, _, _ => .error (.db s!"Type unsupported for {name} operation")

def less : Value → Value → Except EvalError Bool :=
  compareWith "Less" none (· < ·) (· < ·) (· < ·)

def equal : Value → Value → Except EvalError Bool :=
  compareWith "Equal" (some (· == ·)) (· == ·) (· == ·) (· == ·)

def greater : Value → Value → Except EvalError Bool :=
  compareWith "Greater" none (· > ·) (· > ·) (· > ·)

/-! ### Conversions -/

def not : Value → Except EvalError Value
  | .bool val => .ok (.bool !val)
  | _ => .error (.db "Type unsupported for Not operation")

def castAsBool : Value → Except EvalError Value
  | .bool val => .ok (.bool val)
  | .char str | .varchar str =>
      if str = "t".toUTF8.toList then .ok (.bool true)
      else if str = "f".toUTF8.toList then .ok (.bool false)
      else .error (.db ("Unknown str in CastAsBool: " ++ printBytes str))
  | _ => .error (.db "Type unsupported for CastAsBool operation")

end Value

end HuaDB
