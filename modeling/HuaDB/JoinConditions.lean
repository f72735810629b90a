import HuaDB.Optimizer.ColumnRefs
import HuaDB.Planner

/-!
Join conditions on two records, and on the records side by side.

`EvaluateJoin` passes both records on to the operands of comparisons, connectives and
arithmetic, but NOT, null tests, casts and lists evaluate their arguments on the left record
alone. A column of the right side below one of these is read from the left record, at the
position it has in the right one.
-/

namespace HuaDB

namespace Planner

/-- `PlanColumnRef` over the two children of a join. The size of a column of the right child is
taken from the column list of the left one. -/
def planJoinColumnRef (leftColumns rightColumns : ColumnList) (name : String) :
    Except EvalError OperatorExpression :=
  match tryGetColumnIndex leftColumns name, tryGetColumnIndex rightColumns name with
  | some _, some _ => .error (.db ("Ambiguous column name " ++ name ++ " in PlanColumnRef"))
  | some i, none => do
      let column ← getColumn leftColumns name
      return .columnValue i column.type name column.maxSize true
  | none, some i => do
      let column ← getColumn rightColumns name
      match leftColumns[i]? with
      | some left => return .columnValue i column.type name left.maxSize false
      | none => .error .undefined
  | none, none => .error (.db (name ++ " not found in PlanColumnRef"))

end Planner

/-! ## References by side -/

/-- The reference on the records side by side. -/
def ColumnRef.shift (n : Nat) (ref : ColumnRef) : Nat :=
  if ref.isLeft then ref.colIdx else n + ref.colIdx

namespace OperatorExpression

mutual

/-- The references of an expression, each with the side its column is of. -/
def sideRefs : OperatorExpression → List ColumnRef
  | .columnValue colIdx _ name _ isLeft => [⟨colIdx, name, isLeft⟩]
  | .arithmetic _ left right | .comparison _ left right | .logic _ left right =>
      left.sideRefs ++ right.sideRefs
  | .funcCall _ arg | .typeCast _ arg | .logicNot arg | .nullTest _ arg => arg.sideRefs
  | .list exprs => sideRefsAll exprs
  | .const _ => []

def sideRefsAll : List OperatorExpression → List ColumnRef
  | [] => []
  | expr :: exprs => expr.sideRefs ++ sideRefsAll exprs

end

/-- The columns of the right side below NOT, null tests, casts and lists. -/
def misreadRefs : OperatorExpression → List ColumnRef
  | .arithmetic _ left right | .comparison _ left right | .logic _ left right =>
      left.misreadRefs ++ right.misreadRefs
  | .funcCall _ arg => arg.misreadRefs
  | .typeCast _ arg | .logicNot arg | .nullTest _ arg => arg.sideRefs.filter (! ·.isLeft)
  | .list exprs => (sideRefsAll exprs).filter (! ·.isLeft)
  | .columnValue .. | .const _ => []

mutual

/-- The expression on the records side by side, the left one of `n` columns. -/
def shift (n : Nat) : OperatorExpression → OperatorExpression
  | .arithmetic type left right => .arithmetic type (left.shift n) (right.shift n)
  | .typeCast castType arg => .typeCast castType (arg.shift n)
  | .columnValue colIdx colType name size isLeft =>
      .columnValue (if isLeft then colIdx else n + colIdx) colType name size isLeft
  | .comparison type left right => .comparison type (left.shift n) (right.shift n)
  | .const value => .const value
  | .funcCall functionName arg => .funcCall functionName (arg.shift n)
  | .list exprs => .list (shiftAll n exprs)
  | .logic type left right => .logic type (left.shift n) (right.shift n)
  | .logicNot arg => .logicNot (arg.shift n)
  | .nullTest isNull arg => .nullTest isNull (arg.shift n)

def shiftAll (n : Nat) : List OperatorExpression → List OperatorExpression
  | [] => []
  | expr :: exprs => expr.shift n :: shiftAll n exprs

end

/-- Every reference is to a column of its side. -/
def Bound (leftColumns rightColumns : ColumnList) (expr : OperatorExpression) : Prop :=
  ∀ ref ∈ expr.sideRefs,
    ref.colIdx < (if ref.isLeft then leftColumns else rightColumns).length

instance (leftColumns rightColumns : ColumnList) (expr : OperatorExpression) :
    Decidable (expr.Bound leftColumns rightColumns) :=
  inferInstanceAs (Decidable (∀ ref ∈ expr.sideRefs,
    ref.colIdx < (if ref.isLeft then leftColumns else rightColumns).length))

end OperatorExpression

/-- The planner binds a name to a column of one side. -/
theorem Planner.bound_of_planJoinColumnRef {leftColumns rightColumns : ColumnList} {name : String}
    {expr : OperatorExpression}
    (h : planJoinColumnRef leftColumns rightColumns name = .ok expr) :
    expr.Bound leftColumns rightColumns := by
  rw [planJoinColumnRef] at h
  split at h
  · cases h
  · rename_i i hi _
    rcases Except.bind_eq_ok_iff.mp h with ⟨column, -, heq⟩
    cases heq
    exact List.forall_mem_singleton.mpr (List.findIdx?_eq_some_iff_getElem.mp hi).1
  · rename_i i _ hi
    rcases Except.bind_eq_ok_iff.mp h with ⟨column, -, h⟩
    split at h
    · cases h
      exact List.forall_mem_singleton.mpr (List.findIdx?_eq_some_iff_getElem.mp hi).1
    · cases h
  · cases h

namespace OperatorExpression

variable {regexMatch : RegexMatch} {record left right : List Value} {n : Nat}

mutual

/-- An expression that reads the same values on the records side by side. -/
theorem evaluate_shift : ∀ expr : OperatorExpression,
    (∀ ref ∈ expr.sideRefs, getValue left ref.colIdx = getValue record (ref.shift n)) →
      (expr.shift n).evaluate regexMatch record = expr.evaluate regexMatch left
  | .columnValue .., h => (h _ (List.mem_singleton_self _)).symm
  | .arithmetic _ l r, h | .comparison _ l r, h | .logic _ l r, h => by
      rw [sideRefs, List.forall_mem_append] at h
      rw [shift, evaluate, evaluate, evaluate_shift l h.1, evaluate_shift r h.2]
  | .funcCall _ arg, h | .typeCast _ arg, h | .logicNot arg, h | .nullTest _ arg, h => by
      rw [sideRefs] at h
      rw [shift, evaluate, evaluate, evaluate_shift arg h]
  | .list exprs, h => by
      rw [sideRefs] at h
      rw [shift, evaluate, evaluate, evaluateAll_shift exprs h]
  | .const _, _ => rfl

theorem evaluateAll_shift : ∀ exprs : List OperatorExpression,
    (∀ ref ∈ sideRefsAll exprs, getValue left ref.colIdx = getValue record (ref.shift n)) →
      evaluateAll regexMatch record (shiftAll n exprs) = evaluateAll regexMatch left exprs
  | [], _ => rfl
  | expr :: exprs, h => by
      rw [sideRefsAll, List.forall_mem_append] at h
      rw [shiftAll, evaluateAll, evaluateAll, evaluate_shift expr h.1,
        evaluateAll_shift exprs h.2]

end

theorem getValue_append_left {colIdx : Nat} (h : colIdx < left.length) :
    getValue (left ++ right) colIdx = getValue left colIdx := by
  rw [getValue, getValue, List.getElem?_append_left h]

theorem getValue_append_right (colIdx : Nat) :
    getValue (left ++ right) (left.length + colIdx) = getValue right colIdx := by
  rw [getValue, getValue, List.getElem?_append_right (Nat.le_add_right ..), Nat.add_sub_cancel_left]

/-- A reference has its column in the records side by side. -/
theorem read_eq_shift {ref : ColumnRef} (h : ref.isLeft = true → ref.colIdx < left.length) :
    ref.read left right = getValue (left ++ right) (ref.shift left.length) := by
  rw [ColumnRef.read, ColumnRef.shift]
  cases hside : ref.isLeft with
  | true =>
      rw [if_pos rfl, if_pos rfl]
      exact (getValue_append_left (h hside)).symm
  | false =>
      rw [if_neg Bool.false_ne_true, if_neg Bool.false_ne_true]
      exact (getValue_append_right ref.colIdx).symm

/-- What is read from the left record alone. -/
theorem getValue_left_eq_shift {refs : List ColumnRef}
    (hleft : ∀ ref ∈ refs, ref.isLeft = true → ref.colIdx < left.length)
    (hsame : ∀ ref ∈ refs.filter (! ·.isLeft),
      getValue left ref.colIdx = getValue right ref.colIdx) :
    ∀ ref ∈ refs, getValue left ref.colIdx = getValue (left ++ right) (ref.shift left.length) := by
  intro ref href
  rw [← read_eq_shift (hleft ref href), ColumnRef.read]
  cases hside : ref.isLeft with
  | true => rw [if_pos rfl]
  | false =>
      rw [if_neg Bool.false_ne_true]
      exact hsame ref (List.mem_filter.mpr ⟨href, by rw [hside]; rfl⟩)

theorem evaluateJoin_eq_evaluate_shift : ∀ expr : OperatorExpression,
    (∀ ref ∈ expr.sideRefs, ref.isLeft = true → ref.colIdx < left.length) →
      (∀ ref ∈ expr.misreadRefs, getValue left ref.colIdx = getValue right ref.colIdx) →
        expr.evaluateJoin regexMatch left right =
          (expr.shift left.length).evaluate regexMatch (left ++ right)
  | .columnValue .., hleft, _ => read_eq_shift (hleft _ (List.mem_singleton_self _))
  | .arithmetic _ l r, hleft, hsame | .comparison _ l r, hleft, hsame
  | .logic _ l r, hleft, hsame => by
      rw [sideRefs, List.forall_mem_append] at hleft
      rw [misreadRefs, List.forall_mem_append] at hsame
      rw [shift, evaluateJoin, evaluate, evaluateJoin_eq_evaluate_shift l hleft.1 hsame.1,
        evaluateJoin_eq_evaluate_shift r hleft.2 hsame.2]
  | .funcCall _ arg, hleft, hsame => by
      rw [sideRefs] at hleft
      rw [misreadRefs] at hsame
      rw [shift, evaluateJoin, evaluate, evaluateJoin_eq_evaluate_shift arg hleft hsame]
  | .typeCast _ arg, hleft, hsame | .logicNot arg, hleft, hsame
  | .nullTest _ arg, hleft, hsame => by
      rw [sideRefs] at hleft
      rw [misreadRefs] at hsame
      rw [shift, evaluateJoin, evaluate, evaluate_shift arg (getValue_left_eq_shift hleft hsame)]
  | .list exprs, hleft, hsame => by
      rw [sideRefs] at hleft
      rw [misreadRefs] at hsame
      rw [shift, evaluateJoin, evaluate,
        evaluateAll_shift exprs (getValue_left_eq_shift hleft hsame)]
  | .const _, _, _ => rfl

/-- `NOT l.a IS NULL AND r.a = l.a`. -/
def sameColumnNotNull : OperatorExpression :=
  .logic .and (.logicNot (.nullTest true (.columnValue 0 .int "l.a" 4 true)))
    (.comparison .equal (.columnValue 0 .int "r.a" 4 false) (.columnValue 0 .int "l.a" 4 true))

/-- `r.a IS NULL`. -/
def rightColumnNull : OperatorExpression := .nullTest true (.columnValue 0 .int "r.a" 4 false)

end OperatorExpression

end HuaDB
