import HuaDB.JoinConditions

/-!
`Planner::PlanJoin`, and the joins it plans for an equality of two columns.

Under `force_join = merge` the operands of the equality become the keys of the two inputs in
the order in which they are written. A key is evaluated on its input whatever side its column
is of, and keys are compared by `Value::Equal`, which wants two values of one type, in place of
the comparison of the condition.
-/

namespace HuaDB

/-! ## `PlanJoin` -/

namespace Planner

inductive ForceJoin where
  | none | merge | hash
deriving DecidableEq, Repr

/-- `GetJoinColumnList`. -/
def getJoinColumnList (left right : Operator) : ColumnList :=
  left.outputColumns ++ right.outputColumns

/-- The operands of a condition that is an equality of two columns. -/
def columnOperands : OperatorExpression → Option (OperatorExpression × OperatorExpression)
  | .comparison .equal left right =>
      if left.isColumnValue ∧ right.isColumnValue then some (left, right) else none
  | _ => none

/-- `PlanJoin`, of planned children and their planned condition. -/
def planJoin (forceJoin : ForceJoin) (left right : Operator) (joinCondition : OperatorExpression) :
    Operator :=
  let columnList := getJoinColumnList left right
  match forceJoin, columnOperands joinCondition with
  | .merge, some (leftKey, rightKey) =>
      let leftOrder := .orderBy left.outputColumns left [(.asc, leftKey)]
      let rightOrder := .orderBy right.outputColumns right [(.asc, rightKey)]
      .mergeJoin columnList leftOrder rightOrder leftKey rightKey
  | .hash, some _ => .hashJoin columnList left right
  | _, _ => .nestedLoopJoin columnList left right joinCondition

end Planner

/-! ## What a join pairs -/

/-- A join pairs two records: their keys are equal, or its condition is TRUE on them. -/
def Operator.Pairs (regexMatch : RegexMatch) (plan : Operator) (l r : ExecRecord) : Prop :=
  match plan with
  | .mergeJoin _ _ _ leftKey rightKey =>
      ∃ a b, leftKey.evaluate regexMatch l.values = .ok a ∧
        rightKey.evaluate regexMatch r.values = .ok b ∧ a.equal b = .ok true
  | .nestedLoopJoin _ _ _ joinCondition =>
      joinCondition.evaluateJoin regexMatch l.values r.values = .ok (.bool true)
  | _ => False

/-- On the records of its input, a key reads columns that the condition names on that side. -/
def OperatorExpression.ReadsOwn (key joinCondition : OperatorExpression) (isLeft : Bool) : Prop :=
  ∀ ref ∈ key.sideRefs,
    ∃ ref' ∈ joinCondition.sideRefs, ref'.isLeft = isLeft ∧ ref'.colIdx = ref.colIdx

/-- A join sorts its inputs by the keys it compares, and each key reads columns that the
condition names of its input. -/
def Operator.SortsOwn (plan : Operator) (joinCondition : OperatorExpression) : Prop :=
  match plan with
  | .mergeJoin _ (.orderBy _ _ leftOrder) (.orderBy _ _ rightOrder) leftKey rightKey =>
      leftOrder = [(.asc, leftKey)] ∧ rightOrder = [(.asc, rightKey)] ∧
        leftKey.ReadsOwn joinCondition true ∧ rightKey.ReadsOwn joinCondition false
  | _ => False

/-! ## Equality of values -/

namespace Value

/-- Two values that are equal for one of `Value::Equal` and `Comparison` only: BOOLs, and values
of different types. -/
def EqualForOne : Value → Value → Prop
  | .bool b, .bool c => b = c
  | .int n, .double d => (n.toFloat == d.toFloat) = true
  | .double d, .int n => (d.toFloat == n.toFloat) = true
  | .char s, .varchar t | .varchar s, .char t => s = t
  | _, _ => False

/-- The equality of two doubles does not depend on their order; in IEEE arithmetic none does. -/
def EqualsCommute (a b : Value) : Prop :=
  ∀ d e, a = .double d → b = .double e → (d.toFloat == e.toFloat) = (e.toFloat == d.toFloat)

theorem equal_iff_compute (regexMatch : RegexMatch) (a b : Value) :
    (a.equal b = .ok true ↔ Comparison.compute regexMatch .equal a b = .ok (.bool true)) ↔
      ¬ EqualForOne a b := by
  cases a <;> cases b <;>
    simp [equal, compareWith, Comparison.compute, Comparison.doOperation, EqualForOne, isNull,
      getType, getString, Comparison.unsupported, bind, Except.bind]

/-- With the operands in the other order. -/
theorem equal_iff_compute_flip (regexMatch : RegexMatch) (a b : Value) :
    (a.equal b = .ok true ↔ Comparison.compute regexMatch .equal b a = .ok (.bool true)) ↔
      ¬ EqualForOne b a ∧ EqualsCommute a b := by
  cases a <;> cases b <;>
    simp [equal, compareWith, Comparison.compute, Comparison.doOperation, EqualForOne, isNull,
      getType, getString, Comparison.unsupported, bind, Except.bind, EqualsCommute]
  · exact not_congr eq_comm
  · exact eq_comm
  · exact eq_comm
  · exact eq_comm

end Value

/-! ## Joins on two columns -/

namespace ColumnRef

def column (ref : ColumnRef) (type : ValueType) (size : Nat) : OperatorExpression :=
  .columnValue ref.colIdx type ref.name size ref.isLeft

/-- The column of the left side is written first. -/
def InOrder (c d : ColumnRef) : Prop := c.isLeft = true ∧ d.isLeft = false

/-- The column of the right side is written first, and has the position of the other one. -/
def Swapped (c d : ColumnRef) : Prop :=
  c.isLeft = false ∧ d.isLeft = true ∧ c.colIdx = d.colIdx

end ColumnRef

/-- `c = d`. -/
def equality (c d : ColumnRef) (type type' : ValueType) (size size' : Nat) : OperatorExpression :=
  .comparison .equal (c.column type size) (d.column type' size')

section TwoColumns

variable {regexMatch : RegexMatch} {left right : Operator} {c d : ColumnRef}
  {type type' : ValueType} {size size' : Nat} {l r : ExecRecord}

open Planner

theorem readsOwn_column_iff {ref : ColumnRef} {type₀ : ValueType} {size₀ : Nat} {isLeft : Bool} :
    (ref.column type₀ size₀).ReadsOwn (equality c d type type' size size') isLeft ↔
      c.isLeft = isLeft ∧ c.colIdx = ref.colIdx ∨ d.isLeft = isLeft ∧ d.colIdx = ref.colIdx := by
  refine List.forall_mem_singleton.trans ?_
  change (∃ ref' ∈ [c, d], ref'.isLeft = isLeft ∧ ref'.colIdx = ref.colIdx) ↔ _
  simp only [List.mem_cons, List.not_mem_nil, or_false, exists_eq_or_imp, exists_eq_left]

/-- The keys read columns of their own sides in two of the orders. -/
theorem sortsOwn_iff :
    (planJoin .merge left right (equality c d type type' size size')).SortsOwn
        (equality c d type type' size size') ↔
      c.InOrder d ∨ c.Swapped d := by
  have hkeys : (planJoin .merge left right (equality c d type type' size size')).SortsOwn
        (equality c d type type' size size') ↔
      (c.column type size).ReadsOwn (equality c d type type' size size') true ∧
        (d.column type' size').ReadsOwn (equality c d type type' size size') false :=
    ⟨fun h => h.2.2, fun h => ⟨rfl, rfl, h⟩⟩
  rw [hkeys, readsOwn_column_iff, readsOwn_column_iff, ColumnRef.InOrder, ColumnRef.Swapped]
  cases c.isLeft <;> cases d.isLeft <;> simp [eq_comm]

/-- Two tests of the values at two places. -/
theorem exists_values_iff {x y : Except EvalError Value} {P Q : Value → Value → Prop} :
    ((∃ a b, x = .ok a ∧ y = .ok b ∧ P a b) ↔ (∃ a b, x = .ok a ∧ y = .ok b ∧ Q a b)) ↔
      ∀ a b, x = .ok a → y = .ok b → (P a b ↔ Q a b) := by
  cases x with
  | error e => simp
  | ok a =>
      cases y with
      | error e => simp
      | ok b => simp

/-- The condition on two records. -/
theorem pairs_nestedLoop_iff :
    (planJoin .none left right (equality c d type type' size size')).Pairs regexMatch l r ↔
      ∃ x y, c.read l.values r.values = .ok x ∧ d.read l.values r.values = .ok y ∧
        Comparison.compute regexMatch .equal x y = .ok (.bool true) := by
  refine Except.bind_eq_ok_iff.trans ?_
  constructor
  · rintro ⟨x, hx, h⟩
    rcases Except.bind_eq_ok_iff.mp h with ⟨y, hy, h⟩
    exact ⟨x, y, hx, hy, h⟩
  · rintro ⟨x, y, hx, hy, h⟩
    exact ⟨x, hx, Except.bind_eq_ok_iff.mpr ⟨y, hy, h⟩⟩

/-- Both joins pair two records, or none does, with the operands in order. -/
theorem pairs_iff_of_inOrder (h : c.InOrder d) :
    ((planJoin .merge left right (equality c d type type' size size')).Pairs regexMatch l r ↔
        (planJoin .none left right (equality c d type type' size size')).Pairs regexMatch l r) ↔
      ∀ a b, getValue l.values c.colIdx = .ok a → getValue r.values d.colIdx = .ok b →
        ¬ a.EqualForOne b := by
  rw [pairs_nestedLoop_iff, ColumnRef.read, ColumnRef.read, if_pos h.1,
    if_neg (ne_true_of_eq_false h.2)]
  refine exists_values_iff.trans ?_
  simp only [Value.equal_iff_compute]
  rfl

/-- Both joins pair two records, or none does, with the operands of one position swapped. -/
theorem pairs_iff_of_swapped (h : c.Swapped d) :
    ((planJoin .merge left right (equality c d type type' size size')).Pairs regexMatch l r ↔
        (planJoin .none left right (equality c d type type' size size')).Pairs regexMatch l r) ↔
      ∀ a b, getValue l.values c.colIdx = .ok a → getValue r.values d.colIdx = .ok b →
        ¬ b.EqualForOne a ∧ a.EqualsCommute b := by
  have hflip : (planJoin .none left right (equality c d type type' size size')).Pairs
      regexMatch l r ↔
      ∃ a b, getValue l.values c.colIdx = .ok a ∧ getValue r.values d.colIdx = .ok b ∧
        Comparison.compute regexMatch .equal b a = .ok (.bool true) := by
    rw [pairs_nestedLoop_iff, ColumnRef.read, ColumnRef.read,
      if_neg (ne_true_of_eq_false h.1), if_pos h.2.1, h.2.2]
    constructor
    · rintro ⟨x, y, hx, hy, htrue⟩
      exact ⟨y, x, hy, hx, htrue⟩
    · rintro ⟨a, b, ha, hb, htrue⟩
      exact ⟨b, a, hb, ha, htrue⟩
  rw [hflip]
  refine exists_values_iff.trans ?_
  simp only [Value.equal_iff_compute_flip]
  rfl

/-- Under `force_join = merge` the join sorts and compares each input by its own column of an
equality, and pairs the records that are paired under `force_join = none`, if and only if the
columns are of the two sides, the left one first or both at one position, and no two records
have keys that are equal for one of the joins only. -/
theorem planJoin_merge_iff (regexMatch : RegexMatch) (left right : Operator) (c d : ColumnRef)
    (type type' : ValueType) (size size' : Nat) (ls rs : List ExecRecord) :
    ((planJoin .merge left right (equality c d type type' size size')).SortsOwn
          (equality c d type type' size size') ∧
        ∀ l ∈ ls, ∀ r ∈ rs,
          ((planJoin .merge left right (equality c d type type' size size')).Pairs regexMatch l r ↔
            (planJoin .none left right (equality c d type type' size size')).Pairs
              regexMatch l r)) ↔
      (c.InOrder d ∧ ∀ l ∈ ls, ∀ r ∈ rs, ∀ a b, getValue l.values c.colIdx = .ok a →
          getValue r.values d.colIdx = .ok b → ¬ a.EqualForOne b) ∨
        (c.Swapped d ∧ ∀ l ∈ ls, ∀ r ∈ rs, ∀ a b, getValue l.values c.colIdx = .ok a →
          getValue r.values d.colIdx = .ok b → ¬ b.EqualForOne a ∧ a.EqualsCommute b) := by
  rw [sortsOwn_iff, or_and_right]
  apply or_congr
  · apply and_congr_right
    intro h
    simp only [pairs_iff_of_inOrder h]
  · apply and_congr_right
    intro h
    simp only [pairs_iff_of_swapped h]

end TwoColumns

/-- Tables `l(id, a)` and `r(b, id)`. -/
def leftTable : Operator := .seqScan [⟨"l.id", .int, 4⟩, ⟨"l.a", .int, 4⟩] 1 "l" none

def rightTable : Operator := .seqScan [⟨"r.b", .int, 4⟩, ⟨"r.id", .int, 4⟩] 2 "r" none

/-- `r.id = l.id`. -/
def swappedIds : OperatorExpression :=
  equality ⟨1, "r.id", false⟩ ⟨0, "l.id", true⟩ .int .int 4 4

example : Planner.planJoinColumnRef leftTable.outputColumns rightTable.outputColumns "r.id" =
    .ok (.columnValue 1 .int "r.id" 4 false) := by rfl

/-- The merge join compares `l.a` and `r.b`. -/
theorem planJoin_merge_swapped :
    (Planner.planJoin .none leftTable rightTable swappedIds).Pairs (fun _ _ => .ok false)
        { values := [.int 1, .int 5] } { values := [.int 7, .int 1] } ∧
      ¬ (Planner.planJoin .merge leftTable rightTable swappedIds).Pairs (fun _ _ => .ok false)
        { values := [.int 1, .int 5] } { values := [.int 7, .int 1] } := by
  refine ⟨rfl, ?_⟩
  rintro ⟨a, b, ha, hb, hequal⟩
  cases ha
  cases hb
  cases hequal

end HuaDB
