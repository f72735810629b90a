import HuaDB.Lib.Exec
import HuaDB.Expressions
import Mathlib.Data.Option.NAry

/-!
Arithmetic over INT constants and columns, in 32 bits and exactly.

C++ defines an operation on two `int32_t` when its exact result is one (`Defined`), which
`Arithmetic` does not look at. `Fits` says of the numbers alone when all operations of an
evaluation are defined.
-/

namespace HuaDB

/-! ## Operations -/

/-- The operation on integers, without a bound. A quotient is rounded towards zero. -/
def ArithmeticType.exact (type : ArithmeticType) (m n : Int) : Int :=
  match type with
  | .add => m + n
  | .sub => m - n
  | .mul => m * n
  | .div => m.tdiv n

/-- The operation has a result, which is an `int32_t`. -/
def ArithmeticType.Fits (type : ArithmeticType) (m n : Int) : Prop :=
  (type = .div → n ≠ 0) ∧ -2 ^ 31 ≤ type.exact m n ∧ type.exact m n < 2 ^ 31

instance (type : ArithmeticType) (m n : Int) : Decidable (type.Fits m n) :=
  inferInstanceAs (Decidable (_ ∧ _ ∧ _))

/-- A call of `DoOperation<int32_t>`. -/
structure IntOperation where
  type : ArithmeticType
  lhs : Int32
  rhs : Int32
deriving DecidableEq, Repr

/-- C++ defines the result of the call: nothing is divided by zero, and nothing overflows. -/
def IntOperation.Defined (op : IntOperation) : Prop := op.type.Fits op.lhs.toInt op.rhs.toInt

/-- An operation that is defined gives the exact result. -/
theorem doOperationInt_of_defined {op : IntOperation} (h : op.Defined) :
    ∃ n, Arithmetic.doOperationInt op.type op.lhs op.rhs = .ok (.int n) ∧
      n.toInt = op.type.exact op.lhs.toInt op.rhs.toInt := by
  rcases op with ⟨type, lhs, rhs⟩
  obtain ⟨hzero, hlow, hhigh⟩ := h
  have hbmod : (type.exact lhs.toInt rhs.toInt).bmod (2 ^ 32) = type.exact lhs.toInt rhs.toInt :=
    Int.bmod_eq_of_le hlow hhigh
  cases type with
  | add => exact ⟨lhs + rhs, rfl, (Int32.toInt_add lhs rhs).trans hbmod⟩
  | sub => exact ⟨lhs - rhs, rfl, (Int32.toInt_sub lhs rhs).trans hbmod⟩
  | mul => exact ⟨lhs * rhs, rfl, (Int32.toInt_mul lhs rhs).trans hbmod⟩
  | div =>
      refine ⟨lhs / rhs, if_neg ?_, (Int32.toInt_div lhs rhs).trans hbmod⟩
      rintro (rfl | ⟨rfl, rfl⟩)
      · exact hzero rfl rfl
      · exact absurd hhigh (by decide)

namespace OperatorExpression

/-! ## Evaluation -/

/-- The integer that a value holds. -/
def toInt? : Value → Option Int
  | .int n => some n.toInt
  | _ => none

/-- The value of an expression in integers, without a bound. NULL is `none`. -/
def exactValue (record : List Value) : OperatorExpression → Except EvalError (Option Int)
  | .arithmetic type left right => do
      let m ← left.exactValue record
      let n ← right.exactValue record
      return Option.map₂ type.exact m n
  | .columnValue colIdx _ _ _ _ => do return toInt? (← getValue record colIdx)
  | .const value => .ok (toInt? value)
  | _ => .error (.db "Type unsupported for arithmetic operation")

/-- An expression of arithmetic, constants and columns of type INT. In the record these
columns hold INTs and NULLs. -/
def IsIntTree (record : List Value) : OperatorExpression → Prop
  | .arithmetic _ left right => left.IsIntTree record ∧ right.IsIntTree record
  | .columnValue colIdx colType _ _ _ =>
      colType = .int ∧ ∀ value, record[colIdx]? = some value →
        value.getType = .int ∨ value.getType = .nullType
  | .const value => value.getType = .int
  | _ => False

/-- In every operation with two numbers that the evaluation comes to, the exact result is
an `int32_t`. -/
def Fits (record : List Value) : OperatorExpression → Prop
  | .arithmetic type left right =>
      left.Fits record ∧ ∀ i, left.exactValue record = .ok i → right.Fits record ∧
        ∀ m n, i = some m → right.exactValue record = .ok (some n) → type.Fits m n
  | _ => True

variable (regexMatch : RegexMatch)

/-- The call that `Compute` makes, once the right operand is evaluated. -/
def called (type : ArithmeticType) (lhs : Value) (rhs : Except EvalError Value) :
    List IntOperation :=
  match lhs, rhs with
  | .int m, .ok (.int n) => [⟨type, m, n⟩]
  | _, _ => []

/-- The calls of `DoOperation<int32_t>` that `Evaluate` comes to, in their order. -/
def operations (record : List Value) : OperatorExpression → List IntOperation
  | .arithmetic type left right =>
      left.operations record ++
        match left.evaluate regexMatch record with
        | .error _ => []
        | .ok lhs =>
            right.operations record ++ called type lhs (right.evaluate regexMatch record)
  | _ => []

/-- A result is the exact value, or both have failed, the evaluation with a `DbException`. -/
inductive ReturnsExact : Except EvalError Value → Except EvalError (Option Int) → Prop
  | null : ReturnsExact (.ok .null) (.ok none)
  | int (n : Int32) : ReturnsExact (.ok (.int n)) (.ok (some n.toInt))
  | thrown (message : String) (e : EvalError) : ReturnsExact (.error (.db message)) (.error e)

/-- The evaluation returns the exact result or throws a `DbException`, and performs no
operation that C++ leaves undefined. -/
structure IsSafe (record : List Value) (expr : OperatorExpression) : Prop where
  defined : ∀ op ∈ expr.operations regexMatch record, op.Defined
  exact : ReturnsExact (expr.evaluate regexMatch record) (expr.exactValue record)

variable {regexMatch} {record : List Value}

theorem returnsExact_of_getType {value : Value}
    (h : value.getType = .int ∨ value.getType = .nullType) :
    ReturnsExact (.ok value) (.ok (toInt? value)) := by
  cases value <;> first | exact .null | exact .int _ | (rcases h with h | h <;> cases h)

theorem mem_operations_left {type : ArithmeticType} {left right : OperatorExpression}
    {op : IntOperation} (h : op ∈ left.operations regexMatch record) :
    op ∈ (arithmetic type left right).operations regexMatch record := by
  rw [operations]
  exact List.mem_append_left _ h

theorem operations_of_ok {type : ArithmeticType} {left right : OperatorExpression} {lhs : Value}
    (h : left.evaluate regexMatch record = .ok lhs) :
    (arithmetic type left right).operations regexMatch record =
      left.operations regexMatch record ++ (right.operations regexMatch record ++
        called type lhs (right.evaluate regexMatch record)) := by
  rw [operations, h]

/-- The last step: the operands are exact, and the call that they make is defined. -/
theorem returnsExact_compute (type : ArithmeticType) {lhs rhs : Except EvalError Value}
    {m n : Except EvalError (Option Int)} (hlhs : ReturnsExact lhs m) (hrhs : ReturnsExact rhs n)
    (hcalled : ∀ value, lhs = .ok value → ∀ op ∈ called type value rhs, op.Defined) :
    ReturnsExact
        (do
          let lhs ← lhs
          let rhs ← rhs
          Arithmetic.compute type lhs rhs)
        (do
          let m ← m
          let n ← n
          return Option.map₂ type.exact m n) ∧
      ∀ i, m = .ok i → ∀ k l, i = some k → n = .ok (some l) → type.Fits k l := by
  cases hlhs with
  | thrown message e => exact ⟨.thrown message e, fun i hi => by cases hi⟩
  | null =>
      refine ⟨?_, fun i hi k l hk => by cases hi; cases hk⟩
      cases hrhs with
      | thrown message e => exact .thrown message e
      | null => exact .null
      | int n => exact .null
  | int m =>
      cases hrhs with
      | thrown message e => exact ⟨.thrown message e, fun i _ k l _ hl => by cases hl⟩
      | null => exact ⟨.null, fun i _ k l _ hl => by cases hl⟩
      | int n =>
          have hdefined := hcalled _ rfl _ (List.mem_singleton_self _)
          obtain ⟨r, hr, hexact⟩ := doOperationInt_of_defined hdefined
          refine ⟨?_, fun i hi k l hk hl => by cases hi; cases hk; cases hl; exact hdefined⟩
          have hcompute : Arithmetic.compute type (.int m) (.int n) = .ok (.int r) := hr
          have hsame : Option.map₂ type.exact (some m.toInt) (some n.toInt) = some r.toInt :=
            congrArg some hexact.symm
          have h := ReturnsExact.int r
          rw [← hcompute, ← hsame] at h
          exact h

theorem defined_of_mem_called {type : ArithmeticType} {lhs : Value} {rhs : Except EvalError Value}
    {m n : Except EvalError (Option Int)} (hlhs : ReturnsExact (.ok lhs) m)
    (hrhs : ReturnsExact rhs n)
    (hfits : ∀ i, m = .ok i → ∀ k l, i = some k → n = .ok (some l) → type.Fits k l) :
    ∀ op ∈ called type lhs rhs, op.Defined := by
  intro op hop
  cases hlhs with
  | null => cases hop
  | int m =>
      cases hrhs with
      | thrown message e => cases hop
      | null => cases hop
      | int n =>
          rcases List.mem_singleton.mp hop with rfl
          exact hfits _ rfl _ _ rfl rfl

/-- When the operations are defined, the result is exact, and the exact numbers fit. -/
theorem isExact_of_defined : ∀ expr : OperatorExpression, expr.IsIntTree record →
    (∀ op ∈ expr.operations regexMatch record, op.Defined) →
      ReturnsExact (expr.evaluate regexMatch record) (expr.exactValue record) ∧ expr.Fits record
  | .const value, htree, _ => ⟨returnsExact_of_getType (.inl htree), trivial⟩
  | .columnValue colIdx colType name size isLeft, htree, _ => by
      refine ⟨?_, trivial⟩
      rw [evaluate, exactValue, getValue]
      cases hvalue : record[colIdx]? with
      | none => exact .thrown _ _
      | some value => exact returnsExact_of_getType (htree.2 value hvalue)
  | .arithmetic type left right, htree, hdefined => by
      obtain ⟨hleft, hfitsLeft⟩ := isExact_of_defined left htree.1 fun op hop =>
        hdefined op (mem_operations_left hop)
      have hevaluated : ∀ lhs, left.evaluate regexMatch record = .ok lhs →
          (∀ op ∈ right.operations regexMatch record, op.Defined) ∧
            ∀ op ∈ called type lhs (right.evaluate regexMatch record), op.Defined := by
        intro lhs hlhs
        rw [operations_of_ok hlhs, List.forall_mem_append, List.forall_mem_append] at hdefined
        exact hdefined.2
      rw [evaluate, exactValue, Fits]
      cases hlhs : left.evaluate regexMatch record with
      | error e =>
          rw [hlhs] at hleft
          generalize left.exactValue record = m at hleft ⊢
          cases hleft
          exact ⟨.thrown _ _, hfitsLeft, fun i hi => by cases hi⟩
      | ok lhs =>
          obtain ⟨hright, hfitsRight⟩ := isExact_of_defined right htree.2 (hevaluated lhs hlhs).1
          obtain ⟨hexact, hfits⟩ := returnsExact_compute type hleft hright
            fun value hvalue => (hevaluated value hvalue).2
          rw [hlhs] at hexact
          exact ⟨hexact, hfitsLeft, fun i hi => ⟨hfitsRight, hfits i hi⟩⟩
  | .typeCast .., htree, _ | .comparison .., htree, _ | .funcCall .., htree, _
  | .list .., htree, _ | .logic .., htree, _ | .logicNot .., htree, _ | .nullTest .., htree, _ =>
      htree.elim

/-- When the exact numbers fit, the operations are defined. -/
theorem defined_of_fits : ∀ expr : OperatorExpression, expr.IsIntTree record → expr.Fits record →
    ∀ op ∈ expr.operations regexMatch record, op.Defined
  | .arithmetic type left right, htree, hfits => by
      have hleft := defined_of_fits left htree.1 hfits.1
      have hexact := (isExact_of_defined left htree.1 hleft).1
      cases hlhs : left.evaluate regexMatch record with
      | error e =>
          rw [operations, hlhs, List.append_nil]
          exact hleft
      | ok lhs =>
          rw [hlhs] at hexact
          have hm : ∃ i, left.exactValue record = .ok i := by
            generalize left.exactValue record = m at hexact
            cases hexact <;> exact ⟨_, rfl⟩
          rcases hm with ⟨i, hi⟩
          have hright := defined_of_fits right htree.2 (hfits.2 i hi).1
          have hexactRight := (isExact_of_defined right htree.2 hright).1
          rw [operations_of_ok hlhs, List.forall_mem_append, List.forall_mem_append]
          exact ⟨hleft, hright,
            defined_of_mem_called hexact hexactRight fun i hi => (hfits.2 i hi).2⟩
  | .const _, _, _ | .columnValue .., _, _ => fun op hop => by cases hop
  | .typeCast .., htree, _ | .comparison .., htree, _ | .funcCall .., htree, _
  | .list .., htree, _ | .logic .., htree, _ | .logicNot .., htree, _ | .nullTest .., htree, _ =>
      htree.elim

/-- `Arithmetic::Evaluate` is safe if and only if the exact numbers fit. -/
theorem isSafe_iff_fits {expr : OperatorExpression} (htree : expr.IsIntTree record) :
    expr.IsSafe regexMatch record ↔ expr.Fits record := by
  constructor
  · exact fun h => (isExact_of_defined expr htree h.defined).2
  · intro hfits
    have hdefined : ∀ op ∈ expr.operations regexMatch record, op.Defined :=
      defined_of_fits expr htree hfits
    exact ⟨hdefined, (isExact_of_defined expr htree hdefined).1⟩

/-! ## Quotients -/

/-- `t.a / t.b`. -/
def quotient : OperatorExpression :=
  .arithmetic .div (.columnValue 0 .int "t.a" 4 true) (.columnValue 1 .int "t.b" 4 true)

theorem isIntTree_quotient (a b : Int32) : quotient.IsIntTree [.int a, .int b] :=
  ⟨⟨rfl, by rintro value ⟨⟩; exact .inl rfl⟩, ⟨rfl, by rintro value ⟨⟩; exact .inl rfl⟩⟩

theorem isSafe_quotient : quotient.IsSafe (fun _ _ => .ok false) [.int (-7), .int 2] := by
  refine (isSafe_iff_fits (isIntTree_quotient (-7) 2)).mpr ⟨trivial, fun i hi => ⟨trivial, ?_⟩⟩
  rintro m n rfl hn
  cases hi
  cases hn
  decide

/-- Rows with a zero in a column are ordinary. -/
theorem not_isSafe_quotient : ¬ quotient.IsSafe (fun _ _ => .ok false) [.int 1, .int 0] := by
  intro h
  have hzero : (⟨.div, 1, 0⟩ : IntOperation).Defined := h.defined _ (List.mem_singleton_self _)
  exact hzero.1 rfl rfl

end OperatorExpression

end HuaDB
