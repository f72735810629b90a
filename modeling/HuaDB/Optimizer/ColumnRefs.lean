import HuaDB.Lib.ExceptLists
import HuaDB.Lib.Layout
import HuaDB.Executors

/-!
What the column references of an expression read.

A reference has a position in one of the two records of a join, or in the one record of a
filter.  The record of a plan of joins is the rows of its base tables side by side, so the
order of the tables is what a position depends on.
-/

namespace HuaDB

open Layout

/-! ## References -/

/-- A reference to a column, and the side of a join that its value is taken from. -/
structure ColumnRef where
  colIdx : Nat
  name : String
  isLeft : Bool
deriving DecidableEq, Repr

namespace ColumnRef

def onLeft (ref : ColumnRef) : ColumnRef := { ref with isLeft := true }

/-- The value that `EvaluateJoin` reads. -/
def read (left right : List Value) (ref : ColumnRef) : Except EvalError Value :=
  getValue (if ref.isLeft then left else right) ref.colIdx

end ColumnRef

namespace OperatorExpression

mutual

/-- The references of an expression as `EvaluateJoin` reads them. -/
def columnRefs : OperatorExpression → List ColumnRef
  | .columnValue colIdx _ name _ isLeft => [⟨colIdx, name, isLeft⟩]
  | .arithmetic _ left right | .comparison _ left right | .logic _ left right =>
      left.columnRefs ++ right.columnRefs
  | .funcCall _ arg => arg.columnRefs
  | .typeCast _ arg | .logicNot arg | .nullTest _ arg => arg.columnRefs.map ColumnRef.onLeft
  | .list exprs => columnRefsAll exprs
  | .const _ => []

def columnRefsAll : List OperatorExpression → List ColumnRef
  | [] => []
  | expr :: exprs => expr.columnRefs.map ColumnRef.onLeft ++ columnRefsAll exprs

end

end OperatorExpression

/-- Two records have the same values at the positions of the references. -/
def SameAt (record record' : List Value) (refs : List ColumnRef) : Prop :=
  ∀ ref ∈ refs, getValue record ref.colIdx = getValue record' ref.colIdx

section

variable {regexMatch : RegexMatch} {record record' left right : List Value}
  {refs refs' : List ColumnRef}

theorem sameAt_append : SameAt record record' (refs ++ refs') ↔
    SameAt record record' refs ∧ SameAt record record' refs' :=
  List.forall_mem_append

theorem sameAt_onLeft :
    SameAt record record' (refs.map ColumnRef.onLeft) ↔ SameAt record record' refs :=
  List.forall_mem_map

namespace OperatorExpression

theorem isLeft_of_mem_columnRefsAll {exprs : List OperatorExpression} {ref : ColumnRef}
    (h : ref ∈ columnRefsAll exprs) : ref.isLeft = true := by
  induction exprs with
  | nil => cases h
  | cons expr exprs ih =>
      rcases List.mem_append.mp h with h | h
      · obtain ⟨ref, -, rfl⟩ := List.mem_map.mp h
        rfl
      · exact ih h

mutual

/-- The value of an expression is that of its references. -/
theorem evaluate_congr : ∀ expr : OperatorExpression, SameAt record record' expr.columnRefs →
    expr.evaluate regexMatch record = expr.evaluate regexMatch record'
  | .columnValue .., h => h _ (List.mem_singleton_self _)
  | .arithmetic _ l r, h | .comparison _ l r, h | .logic _ l r, h => by
      rw [columnRefs, sameAt_append] at h
      rw [evaluate, evaluate, evaluate_congr l h.1, evaluate_congr r h.2]
  | .funcCall _ arg, h => by
      rw [columnRefs] at h
      rw [evaluate, evaluate, evaluate_congr arg h]
  | .typeCast _ arg, h | .logicNot arg, h | .nullTest _ arg, h => by
      rw [columnRefs, sameAt_onLeft] at h
      rw [evaluate, evaluate, evaluate_congr arg h]
  | .list exprs, h => by
      rw [columnRefs] at h
      rw [evaluate, evaluate, evaluateAll_congr exprs h]
  | .const _, _ => rfl

theorem evaluateAll_congr : ∀ exprs : List OperatorExpression,
    SameAt record record' (columnRefsAll exprs) →
      evaluateAll regexMatch record exprs = evaluateAll regexMatch record' exprs
  | [], _ => rfl
  | expr :: exprs, h => by
      rw [columnRefsAll, sameAt_append, sameAt_onLeft] at h
      rw [evaluateAll, evaluateAll, evaluate_congr expr h.1, evaluateAll_congr exprs h.2]

end

/-- A reference that is read from the left record has its position there. -/
theorem sameAt_of_read_onLeft
    (h : ∀ ref ∈ refs.map ColumnRef.onLeft, ref.read left right = getValue record ref.colIdx) :
    SameAt left record refs := by
  intro ref href
  exact h ref.onLeft (List.mem_map_of_mem href)

/-- A condition on two records has the value it has on a third one, if its references read the
values that they have there. -/
theorem evaluateJoin_eq : ∀ expr : OperatorExpression,
    (∀ ref ∈ expr.columnRefs, ref.read left right = getValue record ref.colIdx) →
      expr.evaluateJoin regexMatch left right = expr.evaluate regexMatch record
  | .columnValue .., h => h _ (List.mem_singleton_self _)
  | .arithmetic _ l r, h | .comparison _ l r, h | .logic _ l r, h => by
      rw [columnRefs, List.forall_mem_append] at h
      rw [evaluateJoin, evaluate, evaluateJoin_eq l h.1, evaluateJoin_eq r h.2]
  | .funcCall _ arg, h => by
      rw [columnRefs] at h
      rw [evaluateJoin, evaluate, evaluateJoin_eq arg h]
  | .typeCast _ arg, h | .logicNot arg, h | .nullTest _ arg, h => by
      rw [columnRefs] at h
      rw [evaluateJoin, evaluate, evaluate_congr arg (sameAt_of_read_onLeft h)]
  | .list exprs, h => by
      rw [columnRefs] at h
      rw [evaluateJoin, evaluate]
      have hall : SameAt left record (columnRefsAll exprs) := by
        intro ref href
        rw [← h ref href, ColumnRef.read, if_pos (isLeft_of_mem_columnRefsAll href)]
      rw [evaluateAll_congr exprs hall]
  | .const _, _ => rfl

end OperatorExpression

end

/-! ## Records of joins -/

/-- The leaves of the joins of a plan: the operators whose records a join lays side by side. -/
def Operator.baseTables : Operator → List Operator
  | .filter _ child _ | .limit _ child _ _ | .lockRows _ child _ _ | .orderBy _ child _ =>
      child.baseTables
  | .hashJoin _ left right | .mergeJoin _ left right _ _ | .nestedLoopJoin _ left right _ =>
      left.baseTables ++ right.baseTables
  | plan => [plan]

/-- The number of columns of a base table. -/
def rowWidth (table : Operator) : Nat := table.outputColumns.length

/-- A row of every base table. -/
abbrev TableRows := Rows rowWidth Value

instance : Nontrivial Value := ⟨.null, .bool true, fun h => (by cases h)⟩

section

variable {regexMatch : RegexMatch} {joinCondition : OperatorExpression}
  {ls rs records : List ExecRecord} {record : ExecRecord}

/-- A record of a join is one of the left child and one of the right child on which the
condition is true. -/
theorem exists_of_mem_nestedLoop (h : nestedLoop regexMatch joinCondition ls rs = .ok records)
    (hrecord : record ∈ records) :
    ∃ l ∈ ls, ∃ r ∈ rs, record = l.append r ∧
      joinCondition.evaluateJoin regexMatch l.values r.values = .ok (.bool true) := by
  rw [nestedLoop] at h
  obtain ⟨rows, hrows, h⟩ := Except.bind_eq_ok_iff.mp h
  cases h
  obtain ⟨joined, hjoined, hrecord⟩ := List.mem_flatten.mp hrecord
  obtain ⟨l, hl, hfilter⟩ := Except.exists_of_mem_mapM hrows joined hjoined
  obtain ⟨r, hr, htest⟩ := Except.exists_of_mem_filterMapM hfilter record hrecord
  obtain ⟨value, hvalue, htest⟩ := Except.bind_eq_ok_iff.mp htest
  obtain ⟨accepted, haccepted, htest⟩ := Except.bind_eq_ok_iff.mp htest
  cases accepted with
  | false => cases htest
  | true =>
      cases htest
      refine ⟨l, hl, r, hr, rfl, ?_⟩
      cases value <;> cases haccepted
      exact hvalue

/-- When the children give rows of their tables side by side, so does the join. -/
theorem exists_rows_of_mem_nestedLoop {left right : Operator}
    (hdisjoint : left.baseTables.Disjoint right.baseTables)
    (hleft : ∀ l ∈ ls, ∃ rows : TableRows, l.values = rows.concat left.baseTables)
    (hright : ∀ r ∈ rs, ∃ rows : TableRows, r.values = rows.concat right.baseTables)
    (h : nestedLoop regexMatch joinCondition ls rs = .ok records) (hrecord : record ∈ records)
    (columnList : ColumnList) :
    ∃ rows : TableRows, record.values =
      rows.concat (Operator.nestedLoopJoin columnList left right joinCondition).baseTables := by
  obtain ⟨l, hl, r, hr, rfl, -⟩ := exists_of_mem_nestedLoop h hrecord
  obtain ⟨rowsL, hrowsL⟩ := hleft l hl
  obtain ⟨rowsR, hrowsR⟩ := hright r hr
  obtain ⟨rows, hboth, hboth'⟩ := rowsL.exists_concat_eq rowsR hdisjoint
  refine ⟨rows, ?_⟩
  rw [Operator.baseTables, Rows.concat_append, hboth, hboth', ← hrowsL, ← hrowsR]
  rfl

end

end HuaDB
