import HuaDB.Executors

/-!
`Optimizer::SplitPredicates` of `optimizer/optimizer.cpp`: a filter on a conjunction
becomes two filters, the left conjunct below the right one.

The executor of the result refines the executor of the plan (`splitPredicates_refines`),
for executions in which no predicate throws and no AND that is taken apart has a left
operand of another type than boolean next to a NULL.
-/

namespace HuaDB

open Volcano

/-! ## The rewrite -/

namespace OperatorExpression

/-- A `Logic` of type AND. -/
def isAnd : OperatorExpression → Bool
  | .logic .and _ _ => true
  | _ => false

theorem isAnd_eq_false {p : OperatorExpression} (h : ∀ left right, p = .logic .and left right → False) :
    p.isAnd = false := by
  fun_cases isAnd p with
  | case1 left right => exact (h left right rfl).elim
  | case2 => rfl

/-- The number of operands of nested ANDs. -/
def andSize : OperatorExpression → Nat
  | .logic .and left right => left.andSize + right.andSize
  | _ => 1

theorem andSize_pos (p : OperatorExpression) : 0 < p.andSize := by
  fun_induction andSize p with
  | case1 left right ihl _ => omega
  | case2 => omega

end OperatorExpression

namespace Operator

/-- The size of a plan that the recursion of `split` goes down. -/
def weight : Operator → Nat
  | .filter _ child predicate => child.weight + predicate.andSize
  | .aggregate _ child | .delete _ child _ | .insert _ child _ _ | .limit _ child _ _
  | .lockRows _ child _ _ | .orderBy _ child _ | .projection _ child _ | .update _ child _ _ =>
      child.weight + 1
  | .hashJoin _ left right | .mergeJoin _ left right _ _ | .nestedLoopJoin _ left right _ =>
      left.weight + right.weight + 1
  | .seqScan .. | .values .. => 1

/-- The predicates of the filters of a plan. -/
def filters : Operator → List OperatorExpression
  | .filter _ child predicate => predicate :: child.filters
  | .aggregate _ child | .delete _ child _ | .insert _ child _ _ | .limit _ child _ _
  | .lockRows _ child _ _ | .orderBy _ child _ | .projection _ child _ | .update _ child _ _ =>
      child.filters
  | .hashJoin _ left right | .mergeJoin _ left right _ _ | .nestedLoopJoin _ left right _ =>
      left.filters ++ right.filters
  | .seqScan .. | .values .. => []

end Operator

namespace Optimizer

/-- What `split` makes of a child before it goes on into the children of the result. -/
def splitFilter : Operator → Operator
  | .filter columnList child (.logic .and left right) =>
      .filter columnList (.filter columnList child left) right
  | child => child

theorem weight_splitFilter (op : Operator) : (splitFilter op).weight = op.weight := by
  fun_cases splitFilter op with
  | case1 columnList child left right =>
      simp only [Operator.weight, OperatorExpression.andSize]
      omega
  | case2 => rfl

def split : Operator → Operator
  | .aggregate columnList child => .aggregate columnList (split (splitFilter child))
  | .delete columnList child oid => .delete columnList (split (splitFilter child)) oid
  | .filter columnList child predicate =>
      .filter columnList (split (splitFilter child)) predicate
  | .hashJoin columnList left right =>
      .hashJoin columnList (split (splitFilter left)) (split (splitFilter right))
  | .insert columnList child insertColumns oid =>
      .insert columnList (split (splitFilter child)) insertColumns oid
  | .limit columnList child limitCount limitOffset =>
      .limit columnList (split (splitFilter child)) limitCount limitOffset
  | .lockRows columnList child oid lockType =>
      .lockRows columnList (split (splitFilter child)) oid lockType
  | .mergeJoin columnList left right leftKey rightKey =>
      .mergeJoin columnList (split (splitFilter left)) (split (splitFilter right)) leftKey rightKey
  | .nestedLoopJoin columnList left right joinCondition =>
      .nestedLoopJoin columnList (split (splitFilter left)) (split (splitFilter right))
        joinCondition
  | .orderBy columnList child orderBys =>
      .orderBy columnList (split (splitFilter child)) orderBys
  | .projection columnList child exprs =>
      .projection columnList (split (splitFilter child)) exprs
  | .seqScan columnList tableOid tableName tableAlias =>
      .seqScan columnList tableOid tableName tableAlias
  | .update columnList child oid updateExprs =>
      .update columnList (split (splitFilter child)) oid updateExprs
  | .values columnList values => .values columnList values
termination_by op => op.weight
decreasing_by
  all_goals simp only [weight_splitFilter, Operator.weight]
  all_goals first | omega | exact Nat.lt_add_of_pos_right (OperatorExpression.andSize_pos _)

def splitPredicates (plan : Operator) : Operator := split plan

/-! ## What becomes of a child -/

/-- What `split` puts in the place of a child. -/
def splitChild (child : Operator) : Operator := split (splitFilter child)

theorem splitChild_and (columnList : ColumnList) (child : Operator)
    (left right : OperatorExpression) :
    splitChild (.filter columnList child (.logic .and left right))
      = .filter columnList (splitChild (.filter columnList child left)) right := by
  rw [splitChild, splitFilter, split, splitChild]

theorem splitChild_filter (columnList : ColumnList) (child : Operator)
    {predicate : OperatorExpression} (h : predicate.isAnd = false) :
    splitChild (.filter columnList child predicate)
      = .filter columnList (splitChild child) predicate := by
  have hsame : splitFilter (.filter columnList child predicate)
      = .filter columnList child predicate := by
    cases predicate with
    | logic type left right =>
        cases type with
        | and => simp [OperatorExpression.isAnd] at h
        | or => rfl
    | _ => rfl
  rw [splitChild, hsame, split, splitChild]

theorem splitChild_of_not_filter {child : Operator} (h : child.isFilter = false) :
    splitChild child = split child := by
  rw [splitChild]
  fun_cases splitFilter child with
  | case1 => simp [Operator.isFilter] at h
  | case2 => rfl

theorem split_splitFilter (child : Operator) : split (splitFilter child) = splitChild child := rfl

/-! ## Which conjunctions are left -/

end Optimizer

/-- No right operand of an AND is an AND, down the left operands. -/
def OperatorExpression.leftNested : OperatorExpression → Bool
  | .logic .and left right => !right.isAnd && left.leftNested
  | _ => true

namespace Optimizer

/-- The right conjunct becomes the predicate of a filter that `split` has passed by
already: what is left of it is an AND if it was one. -/
theorem splitChild_complete_iff (op : Operator) :
    (∀ p ∈ (splitChild op).filters, p.isAnd = false) ↔ ∀ p ∈ op.filters, p.leftNested = true := by
  induction op with
  | filter columnList child predicate ih =>
      fun_induction OperatorExpression.leftNested predicate with
      | case1 left right ihl =>
          rw [splitChild_and]
          simp only [Operator.filters, List.forall_mem_cons, OperatorExpression.leftNested,
            Bool.and_eq_true, Bool.not_eq_true'] at ihl ⊢
          rw [ihl, and_assoc]
      | case2 predicate h =>
          have hand := OperatorExpression.isAnd_eq_false h
          rw [splitChild_filter columnList child hand]
          simp only [Operator.filters, List.forall_mem_cons, hand, ih]
          simp [OperatorExpression.leftNested]
  | hashJoin | mergeJoin | nestedLoopJoin =>
      rename_i ihl ihr
      rw [splitChild_of_not_filter rfl, split]
      simp only [Operator.filters, List.forall_mem_append, split_splitFilter, ihl, ihr]
  | seqScan | values =>
      rw [splitChild_of_not_filter rfl, split]
      simp [Operator.filters]
  | aggregate _ _ ih | delete _ _ _ ih | insert _ _ _ _ ih | limit _ _ _ _ ih
  | lockRows _ _ _ _ ih | orderBy _ _ _ ih | projection _ _ _ ih | update _ _ _ _ ih =>
      rw [splitChild_of_not_filter rfl, split]
      exact ih

/-- `SplitPredicates` leaves no filter on a conjunction exactly if every filter of the
plan has its conjunctions nested to the left. -/
theorem splitPredicates_complete_iff (plan : Operator) (hroot : plan.isFilter = false) :
    (∀ p ∈ (splitPredicates plan).filters, p.isAnd = false) ↔
      ∀ p ∈ plan.filters, p.leftNested = true := by
  rw [← splitChild_complete_iff, splitChild_of_not_filter hroot]
  rfl

/-- `select t.a from t where ...`, for a table `t(a int, b int, c int)`. -/
def selectWhere (predicate : OperatorExpression) : Operator :=
  let columns := [⟨"t.a", .int, 4⟩, ⟨"t.b", .int, 4⟩, ⟨"t.c", .int, 4⟩]
  .projection [⟨"t.a", .int, 4⟩] (.filter columns (.seqScan columns 10001 "t" none) predicate)
    [.columnValue 0 .int "t.a" 4 true]

/-- The column of a table `t` with the given index and name. -/
def columnOfT (colIdx : Nat) (name : String) : OperatorExpression :=
  .columnValue colIdx .int name 4 true

theorem splitPredicates_selectWhere (left right : OperatorExpression) :
    (splitPredicates (selectWhere (.logic .and left right))).filters =
      right :: (splitChild (.filter [⟨"t.a", .int, 4⟩, ⟨"t.b", .int, 4⟩, ⟨"t.c", .int, 4⟩]
        (.seqScan [⟨"t.a", .int, 4⟩, ⟨"t.b", .int, 4⟩, ⟨"t.c", .int, 4⟩] 10001 "t" none)
        left)).filters := by
  rw [splitPredicates, selectWhere, split, split_splitFilter, splitChild_and]
  rfl

/-- `where t.a = 1 and (t.b = 2 and t.c = 3)` keeps the inner conjunction. -/
theorem splitPredicates_rightNested :
    ∃ p ∈ (splitPredicates (selectWhere (.logic .and
      (.comparison .equal (columnOfT 0 "t.a") (.const (.int 1)))
      (.logic .and (.comparison .equal (columnOfT 1 "t.b") (.const (.int 2)))
        (.comparison .equal (columnOfT 2 "t.c") (.const (.int 3))))))).filters,
      p.isAnd = true := by
  rw [splitPredicates_selectWhere]
  exact ⟨_, List.mem_cons_self, rfl⟩

/-- `where t.a = 1 and t.b = 2 and t.c = 3` is split up. -/
theorem splitPredicates_complete_selectWhere :
    (selectWhere (.logic .and (.logic .and
      (.comparison .equal (columnOfT 0 "t.a") (.const (.int 1)))
      (.comparison .equal (columnOfT 1 "t.b") (.const (.int 2))))
      (.comparison .equal (columnOfT 2 "t.c") (.const (.int 3))))).isFilter = false ∧
    ∀ p ∈ (splitPredicates (selectWhere (.logic .and (.logic .and
      (.comparison .equal (columnOfT 0 "t.a") (.const (.int 1)))
      (.comparison .equal (columnOfT 1 "t.b") (.const (.int 2))))
      (.comparison .equal (columnOfT 2 "t.c") (.const (.int 3)))))).filters, p.isAnd = false :=
  ⟨rfl, (splitPredicates_complete_iff _ rfl).mpr (by decide)⟩

/-! ## The records are the same -/

end Optimizer

/-- Every AND that splitting takes apart has, next to a NULL on its right, a boolean or
NULL on its left. -/
def OperatorExpression.conjunctsTyped (regexMatch : RegexMatch) (values : List Value) :
    OperatorExpression → Bool
  | .logic .and left right =>
      (match left.evaluate regexMatch values, right.evaluate regexMatch values with
        | .ok lhs, .ok .null => lhs.isNull || lhs.getType = .bool
        | _, _ => true) && left.conjunctsTyped regexMatch values
  | _ => true

/-- The test of `FilterExecutor::Next`, which refuses the operands that are not of the
type of an AND. -/
def acceptsTyped (regexMatch : RegexMatch) (predicate : OperatorExpression)
    (record : ExecRecord) : Except Stop Bool :=
  if predicate.conjunctsTyped regexMatch record.values then accepts regexMatch predicate record
  else .error (.predicate .undefined)

/-- An error from outside the predicates of the filters. -/
def Stop.Outside : Stop → Prop
  | .predicate _ | .divergence => False
  | .expression _ | .storage _ => True

section Refinement

variable {regexMatch : RegexMatch} {record : ExecRecord}

theorem accepts_eq (predicate : OperatorExpression) :
    accepts regexMatch predicate record = match predicate.evaluate regexMatch record.values with
      | .ok .null => .ok false
      | .ok (.bool b) => .ok b
      | .ok _ => .error (.predicate (.db "Type mismatch (expected bool)"))
      | .error e => .error (.predicate e) := by
  rw [accepts]
  cases predicate.evaluate regexMatch record.values with
  | error e => rfl
  | ok value => cases value <;> rfl

theorem acceptsTyped_decides (predicate : OperatorExpression) :
    Decides Stop.Outside (acceptsTyped regexMatch predicate) (accepts regexMatch predicate) := by
  intro record
  rw [acceptsTyped]
  cases predicate.conjunctsTyped regexMatch record.values with
  | true =>
      rw [if_pos rfl]
      exact Decides.refl _ _ record
  | false =>
      rw [if_neg Bool.false_ne_true]
      exact False.elim

theorem evaluate_and (left right : OperatorExpression) (values : List Value) :
    OperatorExpression.evaluate regexMatch values (.logic .and left right)
      = match left.evaluate regexMatch values, right.evaluate regexMatch values with
        | .ok lhs, .ok rhs => Logic.compute .and lhs rhs
        | .ok _, .error e => .error e
        | .error e, _ => .error e := by
  rw [OperatorExpression.evaluate]
  cases left.evaluate regexMatch values with
  | error e => rfl
  | ok lhs => cases right.evaluate regexMatch values <;> rfl

/-- Three-valued AND against two filters, one above the other. -/
theorem acceptsTyped_splits (left right : OperatorExpression) :
    Iter.Refines.Splits Stop.Outside (acceptsTyped regexMatch (.logic .and left right))
      (acceptsTyped regexMatch left) (accepts regexMatch right) := by
  intro record
  cases htyped : OperatorExpression.conjunctsTyped regexMatch record.values
      (.logic .and left right) with
  | false =>
      rw [acceptsTyped, htyped]
      exact id
  | true =>
      rw [acceptsTyped, acceptsTyped, htyped, if_pos rfl, accepts_eq, evaluate_and]
      rw [OperatorExpression.conjunctsTyped, Bool.and_eq_true] at htyped
      rcases htyped with ⟨hoperand, hleft⟩
      rw [hleft, if_pos rfl, accepts_eq left, accepts_eq right]
      cases hl : left.evaluate regexMatch record.values with
      | error e => exact id
      | ok lhs =>
          cases hr : right.evaluate regexMatch record.values with
          | error e => exact id
          | ok rhs =>
              rw [hl, hr] at hoperand
              cases lhs with
              | null => exact .inl ⟨rfl, rfl⟩
              | bool b =>
                  cases rhs with
                  | null =>
                      cases b with
                      | false => exact .inl ⟨rfl, rfl⟩
                      | true => exact .inr ⟨rfl, rfl⟩
                  | bool c =>
                      cases b with
                      | false => exact .inl ⟨rfl, rfl⟩
                      | true => exact .inr ⟨rfl, rfl⟩
                  | _ => exact id
              | _ =>
                  -- A value that is not boolean: next to a NULL it is not typed, and
                  -- next to anything else the AND throws.
                  cases rhs with
                  | null => simp [Value.isNull, Value.getType] at hoperand
                  | _ => exact id

end Refinement

namespace Optimizer

variable {σ : Type} (db : Storage σ)

/-- The plan, executed with the typed test. -/
def executeTyped (plan : Operator) (fuel : Nat) (state : σ) : Run Stop σ ExecRecord :=
  (executor db (acceptsTyped db.regexMatch) plan).run .divergence fuel state

theorem not_outside_divergence : ¬ Stop.Outside .divergence := id

/-- A test that decides more gives an executor that refines. -/
theorem executor_decides {test test' : OperatorExpression → ExecRecord → Except Stop Bool}
    (h : ∀ predicate, Decides Stop.Outside (test predicate) (test' predicate)) (op : Operator) :
    Iter.Refines Stop.Outside (executor db test op) (executor db test' op) := by
  induction op with
  | aggregate | seqScan | values => exact .refl _
  | delete _ _ _ ih => exact (ih.sink not_outside_divergence _ _ _).after _
  | filter _ _ predicate ih => exact ih.filter not_outside_divergence (h predicate)
  | hashJoin _ _ _ ihl ihr =>
      apply Iter.Refines.empty (R := fun _ _ => True)
      exact ihl.init_matches.bind fun _ _ _ => ihr.init_matches.bind fun _ _ _ => .pure trivial
  | insert _ _ _ _ ih | update _ _ _ _ ih => exact ih.sink not_outside_divergence _ _ _
  | limit _ _ _ _ ih => exact ih.limit _ _
  | lockRows _ _ _ _ ih | projection _ _ _ ih => exact ih.map _
  | mergeJoin _ _ _ _ _ ihl ihr | nestedLoopJoin _ _ _ _ ihl ihr =>
      exact ihl.blocking₂ not_outside_divergence _ ihr
  | orderBy _ _ _ ih => exact ih.blocking not_outside_divergence _

theorem executor_splitChild (op : Operator) :
    Iter.Refines Stop.Outside (executor db (acceptsTyped db.regexMatch) op)
      (executor db (accepts db.regexMatch) (splitChild op)) := by
  induction op with
  | filter columnList child predicate ih =>
      fun_induction OperatorExpression.leftNested predicate with
      | case1 left right ihl =>
          rw [splitChild_and]
          exact (Iter.Refines.filter_filter not_outside_divergence
            (acceptsTyped_splits left right) _).trans (ihl.filter not_outside_divergence (.refl _ _))
      | case2 predicate h =>
          have hand := OperatorExpression.isAnd_eq_false h
          rw [splitChild_filter columnList child hand]
          exact ih.filter not_outside_divergence (acceptsTyped_decides predicate)
  | aggregate | seqScan | values =>
      rw [splitChild_of_not_filter rfl, split]
      exact .refl _
  | delete _ _ _ ih =>
      rw [splitChild_of_not_filter rfl, split]
      exact (ih.sink not_outside_divergence _ _ _).after _
  | hashJoin _ _ _ ihl ihr =>
      rw [splitChild_of_not_filter rfl, split]
      apply Iter.Refines.empty (R := fun _ _ => True)
      exact ihl.init_matches.bind fun _ _ _ => ihr.init_matches.bind fun _ _ _ => .pure trivial
  | insert _ _ _ _ ih | update _ _ _ _ ih =>
      rw [splitChild_of_not_filter rfl, split]
      exact ih.sink not_outside_divergence _ _ _
  | limit _ _ _ _ ih =>
      rw [splitChild_of_not_filter rfl, split]
      exact ih.limit _ _
  | lockRows _ _ _ _ ih | projection _ _ _ ih =>
      rw [splitChild_of_not_filter rfl, split]
      exact ih.map _
  | mergeJoin _ _ _ _ _ ihl ihr | nestedLoopJoin _ _ _ _ ihl ihr =>
      rw [splitChild_of_not_filter rfl, split]
      exact ihl.blocking₂ not_outside_divergence _ ihr
  | orderBy _ _ _ ih =>
      rw [splitChild_of_not_filter rfl, split]
      exact ih.blocking not_outside_divergence _

/-- The root keeps its predicate, if it has one. -/
theorem splitPredicates_refines (plan : Operator) :
    Iter.Refines Stop.Outside (executor db (acceptsTyped db.regexMatch) plan)
      (executor db (accepts db.regexMatch) (splitPredicates plan)) := by
  cases hroot : plan.isFilter with
  | false =>
      rw [splitPredicates, ← splitChild_of_not_filter hroot]
      exact executor_splitChild db plan
  | true =>
      cases plan with
      | filter columnList child predicate =>
          rw [splitPredicates, split]
          exact (executor_splitChild db child).filter not_outside_divergence
            (acceptsTyped_decides predicate)
      | _ => cases hroot

/-- As long as no predicate throws and no AND that splitting takes apart has a left
operand that is not boolean next to a NULL, the plan with its conjunctions split gives
the same records, ends in the same way and leaves the same database. -/
theorem execute_splitPredicates (plan : Operator) (fuel : Nat) (state : σ)
    (h : ∀ e, (executeTyped db plan fuel state).error = some e → e.Outside) :
    execute db (splitPredicates plan) fuel state = execute db plan fuel state := by
  have hplan : execute db plan fuel state = executeTyped db plan fuel state :=
    (executor_decides db (fun predicate => acceptsTyped_decides predicate) plan).run_eq h
  rw [hplan]
  exact (splitPredicates_refines db plan).run_eq h

/-- A table `t` with the one row `(1, NULL, 0)`. -/
def oneRowDb : Storage Unit :=
  .ofRows (fun _ _ => .ok false) (fun _ rows => .ok rows) fun _ =>
    [{ values := [.int 1, .null, .int 0] }]

/-- `where t.b > 0 and t.a > 0`, which is NULL on the row: nothing is found, split or not. -/
theorem execute_splitPredicates_null :
    (∀ e, (executeTyped oneRowDb (selectWhere (.logic .and
      (.comparison .greater (columnOfT 1 "t.b") (.const (.int 0)))
      (.comparison .greater (columnOfT 0 "t.a") (.const (.int 0))))) 2 ()).error = some e →
      e.Outside) ∧
    execute oneRowDb (splitPredicates (selectWhere (.logic .and
      (.comparison .greater (columnOfT 1 "t.b") (.const (.int 0)))
      (.comparison .greater (columnOfT 0 "t.a") (.const (.int 0)))))) 2 () =
    execute oneRowDb (selectWhere (.logic .and
      (.comparison .greater (columnOfT 1 "t.b") (.const (.int 0)))
      (.comparison .greater (columnOfT 0 "t.a") (.const (.int 0))))) 2 () := by
  have h : ∀ e, (executeTyped oneRowDb (selectWhere (.logic .and
      (.comparison .greater (columnOfT 1 "t.b") (.const (.int 0)))
      (.comparison .greater (columnOfT 0 "t.a") (.const (.int 0))))) 2 ()).error = some e →
      e.Outside := fun e he => by cases he
  exact ⟨h, execute_splitPredicates oneRowDb _ 2 () h⟩

/-- `where t.a and t.b` on the row `(1, NULL, 0)`: the conjunction is NULL, but alone
`t.a` is refused by the filter. -/
theorem execute_splitPredicates_untyped :
    execute oneRowDb (selectWhere (.logic .and (columnOfT 0 "t.a") (columnOfT 1 "t.b"))) 2 ()
      = ⟨[], none, ()⟩ ∧
    execute oneRowDb (splitPredicates
      (selectWhere (.logic .and (columnOfT 0 "t.a") (columnOfT 1 "t.b")))) 2 ()
      = ⟨[], some (.predicate (.db "Type mismatch (expected bool)")), ()⟩ := by
  constructor
  · rfl
  · rw [splitPredicates, selectWhere, split, split_splitFilter, splitChild_and,
      splitChild_filter _ _ rfl, splitChild_of_not_filter rfl, split]
    rfl

end Optimizer

end HuaDB
