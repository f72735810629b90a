import HuaDB.NestedLoopJoin

/-!
Plans of values, filters, projections, limits and joins as operations on lists.

`Denotes` gives such a plan its list of records, as long as its expressions have values and its
join conditions are TRUE or FALSE. The executors keep counters, cursors and buffers between
their calls; `Denotes.gives` says that what they give, call by call, is that list, and that
past its end they give no record however often they are called.
-/

namespace HuaDB

open Volcano

/-- The records of a plan. The filter `holds`, the projection `f` and the pairs that `joins` are
what the expressions of the plan come to on the records of its children. Limits are
`int32_t`s that are not negative, as the planner computes them. -/
inductive Denotes (regexMatch : RegexMatch) : Operator → List ExecRecord → Prop
  | values {columnList : ColumnList} {exprs : List (List OperatorExpression)}
      {rows : List (List Value)}
      (evaluated : List.Forall₂ (fun exprs row =>
        OperatorExpression.evaluateAll regexMatch [] exprs = .ok row) exprs rows) :
      Denotes regexMatch (.values columnList exprs) (rows.map fun row => { values := row })
  | filter {columnList : ColumnList} {child : Operator} {predicate : OperatorExpression}
      {rows : List ExecRecord} (input : Denotes regexMatch child rows) (holds : ExecRecord → Bool)
      (evaluated : ∀ r ∈ rows,
        (predicate.evaluate regexMatch r.values >>= isTrue) = .ok (holds r)) :
      Denotes regexMatch (.filter columnList child predicate) (rows.filter holds)
  | projection {columnList : ColumnList} {child : Operator} {exprs : List OperatorExpression}
      {rows : List ExecRecord} (input : Denotes regexMatch child rows) (f : ExecRecord → List Value)
      (evaluated : ∀ r ∈ rows,
        OperatorExpression.evaluateAll regexMatch r.values exprs = .ok (f r)) :
      Denotes regexMatch (.projection columnList child exprs)
        (rows.map fun r => { r with values := f r })
  | limit {columnList : ColumnList} {child : Operator} {limitCount limitOffset : Option Nat}
      {rows : List ExecRecord} (input : Denotes regexMatch child rows)
      (fits : limitCount.getD 0 < 2 ^ 31 ∧ limitOffset.getD 0 < 2 ^ 31) :
      Denotes regexMatch (.limit columnList child limitCount limitOffset)
        (Iter.takeUpTo limitCount (rows.drop (limitOffset.getD 0)))
  | nestedLoopJoin {columnList : ColumnList} {left right : Operator}
      {joinCondition : OperatorExpression} {ls rs : List ExecRecord}
      (inputLeft : Denotes regexMatch left ls) (inputRight : Denotes regexMatch right rs)
      (joins : ExecRecord → ExecRecord → Bool)
      (evaluated : ∀ l ∈ ls, ∀ r ∈ rs,
        joinCondition.evaluateJoin regexMatch l.values r.values = .ok (.bool (joins l r))) :
      Denotes regexMatch (.nestedLoopJoin columnList left right joinCondition)
        (ls.flatMap fun l => (rs.filter (joins l)).map l.append)

section

variable {σ : Type} (db : Storage σ) {fuel : Nat} {state : σ}

/-- `ValuesExecutor` from a row on. -/
theorem serves_valuesIter {all exprs : List (List OperatorExpression)} {rows : List (List Value)}
    (evaluated : List.Forall₂ (fun exprs row =>
      OperatorExpression.evaluateAll db.regexMatch [] exprs = .ok row) exprs rows) :
    (valuesIter db all).Serves fuel state exprs (rows.map fun row => { values := row }) := by
  induction evaluated with
  | nil => exact ⟨fun s => s = [], rfl, fun s hs => ⟨[], by rw [hs]; rfl, rfl⟩⟩
  | cons hrow _ ih => exact ⟨_, expression_bind_ok hrow _ _, ih⟩

theorem accepts_eq_ok {regexMatch : RegexMatch} {predicate : OperatorExpression}
    {record : ExecRecord} {b : Bool}
    (h : (predicate.evaluate regexMatch record.values >>= isTrue) = .ok b) :
    accepts regexMatch predicate record = .ok b := by
  rw [accepts, h]

/-- The pairs of a join, for a condition that is known on them. -/
theorem matchingPairs_eq {regexMatch : RegexMatch} {joinCondition : OperatorExpression}
    {ls rs : List ExecRecord} {joined : ExecRecord → ExecRecord → Bool}
    (evaluated : ∀ l ∈ ls, ∀ r ∈ rs,
      joinCondition.evaluateJoin regexMatch l.values r.values = .ok (.bool (joined l r))) :
    matchingPairs regexMatch joinCondition ls rs =
      ls.flatMap fun l => (rs.filter (joined l)).map l.append := by
  refine List.flatMap_congr fun l hl => ?_
  refine congrArg (List.map l.append) (List.filter_congr fun r hr => ?_)
  rw [joins, evaluated l hl r hr]

/-- The executor of a plan gives the list of the plan, with enough rounds for its loops. -/
theorem Denotes.gives {plan : Operator} {rows : List ExecRecord}
    (h : Denotes db.regexMatch plan rows) :
    ∃ bound, ∀ fuel, bound < fuel → ∀ state,
      rows.length < fuel ∧ (executor db (accepts db.regexMatch) plan).Gives fuel state rows := by
  induction h with
  | @values columnList exprs rows evaluated =>
      refine ⟨rows.length, fun fuel hfuel state => ⟨?_, exprs, rfl, serves_valuesIter db evaluated⟩⟩
      rwa [List.length_map]
  | filter input holds evaluated ih =>
      obtain ⟨bound, ih⟩ := ih
      refine ⟨bound, fun fuel hfuel state => ?_⟩
      obtain ⟨hlength, hgives⟩ := ih fuel hfuel state
      refine ⟨Nat.lt_of_le_of_lt (List.length_filter_le _ _) hlength, ?_⟩
      exact hgives.filter (fun r hr => accepts_eq_ok (evaluated r hr)) hlength
  | projection input f evaluated ih =>
      obtain ⟨bound, ih⟩ := ih
      refine ⟨bound, fun fuel hfuel state => ?_⟩
      obtain ⟨hlength, hgives⟩ := ih fuel hfuel state
      refine ⟨by rwa [List.length_map], hgives.map fun r hr => ?_⟩
      exact expression_bind_ok (evaluated r hr) _ _
  | @limit columnList child limitCount limitOffset rows input fits ih =>
      obtain ⟨bound, ih⟩ := ih
      refine ⟨bound, fun fuel hfuel state => ?_⟩
      obtain ⟨hlength, hgives⟩ := ih fuel hfuel state
      refine ⟨Nat.lt_of_le_of_lt ?_ hlength, hgives.limit _ _⟩
      exact (Iter.takeUpTo_sublist _ _).length_le.trans (List.drop_sublist _ _).length_le
  | @nestedLoopJoin columnList left right joinCondition ls rs _ _ joins evaluated ihl ihr =>
      obtain ⟨boundLeft, ihl⟩ := ihl
      obtain ⟨boundRight, ihr⟩ := ihr
      let rows := ls.flatMap fun l => (rs.filter (joins l)).map l.append
      refine ⟨max (max boundLeft boundRight) rows.length, fun fuel hfuel state => ?_⟩
      obtain ⟨hbounds, hrows⟩ := Nat.max_lt.mp hfuel
      obtain ⟨hboundLeft, hboundRight⟩ := Nat.max_lt.mp hbounds
      obtain ⟨hls, hleft⟩ := ihl fuel hboundLeft state
      obtain ⟨hrs, hright⟩ := ihr fuel hboundRight state
      refine ⟨hrows, ?_⟩
      rw [← matchingPairs_eq evaluated]
      exact gives_nestedLoopJoin db columnList hleft hright ⟨hls, hrs⟩ fun l hl r hr =>
        ⟨joins l r, evaluated l hl r hr⟩

end

end HuaDB
