import HuaDB.ListSemantics
import HuaDB.SelectNames

/-!
The plan of a SELECT statement gives the rows that the statement means.

`PlanSelect` turns names into positions and the clauses into operators; the executors run these on
records. For statements without aggregates, on tables that stay as they are, what the executors
give is an answer of the statement (`execute_planSelect`): a sorted arrangement of the rows that
FROM and WHERE select, the part of it that LIMIT and OFFSET leave, and for each row the values of
the select list.
-/

namespace HuaDB

open Volcano Sorting

/-! ## What executors produce -/

section Produces

variable (db : Storage Unit)

/-- The executor of a plan gives the records, with enough rounds for its loops. -/
def Produces (plan : Operator) (records : List ExecRecord) : Prop :=
  ∃ bound, ∀ fuel, bound < fuel → records.length < fuel ∧
    (executor db (accepts db.regexMatch) plan).Gives fuel () records

variable {db} {plan left right : Operator} {records ls rs : List ExecRecord}

theorem Produces.execute_eq (h : Produces db plan records) :
    ∃ bound, ∀ fuel, bound < fuel → execute db plan fuel () = ⟨records, none, ()⟩ := by
  obtain ⟨bound, h⟩ := h
  refine ⟨bound, fun fuel hfuel => ?_⟩
  obtain ⟨hlength, hgives⟩ := h fuel hfuel
  exact hgives.run hlength

theorem produces_values (columnList : ColumnList) {exprs : List (List OperatorExpression)}
    {rows : List (List Value)} (evaluated : List.Forall₂ (fun exprs row =>
      OperatorExpression.evaluateAll db.regexMatch [] exprs = .ok row) exprs rows) :
    Produces db (.values columnList exprs) (rows.map fun row => { values := row }) :=
  ⟨rows.length, fun fuel hfuel =>
    ⟨by rwa [List.length_map], exprs, rfl, serves_valuesIter db evaluated⟩⟩

theorem Produces.filter (h : Produces db plan records) (columnList : ColumnList)
    {predicate : OperatorExpression} {holds : List Value → Bool}
    (evaluated : ∀ r ∈ records,
      (predicate.evaluate db.regexMatch r.values >>= isTrue) = .ok (holds r.values)) :
    Produces db (.filter columnList plan predicate) (records.filter fun r => holds r.values) := by
  obtain ⟨bound, h⟩ := h
  refine ⟨bound, fun fuel hfuel => ?_⟩
  obtain ⟨hlength, hgives⟩ := h fuel hfuel
  refine ⟨Nat.lt_of_le_of_lt (List.length_filter_le _ _) hlength, ?_⟩
  exact hgives.filter (fun r hr => accepts_eq_ok (evaluated r hr)) hlength

theorem Produces.projection (h : Produces db plan records) (columnList : ColumnList)
    {exprs : List OperatorExpression} {f : List Value → List Value}
    (evaluated : ∀ r ∈ records,
      OperatorExpression.evaluateAll db.regexMatch r.values exprs = .ok (f r.values)) :
    Produces db (.projection columnList plan exprs)
      (records.map fun r => { r with values := f r.values }) := by
  obtain ⟨bound, h⟩ := h
  refine ⟨bound, fun fuel hfuel => ?_⟩
  obtain ⟨hlength, hgives⟩ := h fuel hfuel
  refine ⟨by rwa [List.length_map], hgives.map fun r hr => ?_⟩
  exact expression_bind_ok (evaluated r hr) _ _

theorem Produces.limit (h : Produces db plan records) (columnList : ColumnList)
    (limitCount limitOffset : Option Nat) :
    Produces db (.limit columnList plan limitCount limitOffset)
      (Iter.takeUpTo limitCount (records.drop (limitOffset.getD 0))) := by
  obtain ⟨bound, h⟩ := h
  refine ⟨bound, fun fuel hfuel => ?_⟩
  obtain ⟨hlength, hgives⟩ := h fuel hfuel
  refine ⟨Nat.lt_of_le_of_lt ?_ hlength, hgives.limit _ _⟩
  exact (Iter.takeUpTo_sublist _ _).length_le.trans (List.drop_sublist _ _).length_le

theorem Produces.lockRows (h : Produces db plan records) (columnList : ColumnList) (oid : Nat)
    (lockType : SelectLockType) (granted : ∀ rid, db.lockRow lockType oid rid = return ()) :
    Produces db (.lockRows columnList plan oid lockType) records := by
  obtain ⟨bound, h⟩ := h
  refine ⟨bound, fun fuel hfuel => ?_⟩
  obtain ⟨hlength, hgives⟩ := h fuel hfuel
  have hmap := hgives.map (f := fun record => do
    db.lockRow lockType oid record.rid
    return record) (g := id) fun r _ => by
      rw [granted]
      rfl
  rw [List.map_id] at hmap
  exact ⟨hlength, hmap⟩

/-- The sorts give one list, however many rounds there are, and it is in order if ties agree. -/
theorem Produces.orderBy (h : Produces db plan records) (columnList : ColumnList)
    {orderBys : List (OrderByType × OperatorExpression)} (hsort : IsSort db.sort)
    (hterms : ∀ term ∈ orderBys, Comparable db.regexMatch term records)
    (hties : TiesAgree db.regexMatch orderBys records) :
    ∃ sorted, Produces db (.orderBy columnList plan orderBys) sorted ∧ sorted.Perm records ∧
      InOrder db.regexMatch orderBys sorted := by
  obtain ⟨bound, h⟩ := h
  obtain ⟨sorted, hsorted, hperm⟩ := exists_sortBy hsort hterms
  have hgives : ∀ fuel, bound < fuel → (executor db (accepts db.regexMatch)
      (.orderBy columnList plan orderBys)).Gives fuel () sorted := fun fuel hfuel =>
    orderBy_gives columnList (h fuel hfuel).2 (h fuel hfuel).1 hsorted hperm
  refine ⟨sorted, ⟨bound, fun fuel hfuel => ?_⟩, hperm, ?_⟩
  · rw [hperm.length_eq]
    exact ⟨(h fuel hfuel).1, hgives fuel hfuel⟩
  · obtain ⟨hlength, hchild⟩ := h (bound + 1) (Nat.lt_succ_self bound)
    obtain ⟨inOrder, hgives', -, horder⟩ := givesInOrder_of_tiesAgree hterms hties Unit db
      (accepts db.regexMatch) plan columnList (bound + 1) () rfl hsort hchild hlength
    rwa [(hgives (bound + 1) (Nat.lt_succ_self bound)).unique hgives']

end Produces

namespace Planning

open Binder

/-- The values of joined records are the rows side by side. -/
theorem map_values_flatMap (joins : List Value → Bool) (ls rs : List ExecRecord) :
    (ls.flatMap fun l => (rs.filter fun r => joins (l.values ++ r.values)).map l.append).map
        (·.values) =
      (product (ls.map (·.values)) (rs.map (·.values))).filter joins := by
  rw [product, List.map_flatMap, List.flatMap_map, List.filter_flatMap]
  refine List.flatMap_congr fun l _ => ?_
  rw [List.map_map, List.map_map, List.filter_map]
  rfl

theorem produces_nestedLoopJoin {db : Storage Unit} {left right : Operator}
    {ls rs : List ExecRecord} (hleft : Produces db left ls) (hright : Produces db right rs)
    (columnList : ColumnList) {condition : OperatorExpression} (joins : List Value → Bool)
    (evaluated : ∀ l ∈ ls, ∀ r ∈ rs, condition.evaluateJoin db.regexMatch l.values r.values =
      .ok (.bool (joins (l.values ++ r.values)))) :
    ∃ records, records.map (·.values) =
        (product (ls.map (·.values)) (rs.map (·.values))).filter joins ∧
      Produces db (.nestedLoopJoin columnList left right condition) records := by
  obtain ⟨boundLeft, hleft⟩ := hleft
  obtain ⟨boundRight, hright⟩ := hright
  let records := ls.flatMap fun l => (rs.filter fun r => joins (l.values ++ r.values)).map l.append
  refine ⟨records, map_values_flatMap joins ls rs, max (max boundLeft boundRight) records.length,
    fun fuel hfuel => ?_⟩
  obtain ⟨hbounds, hrows⟩ := Nat.max_lt.mp hfuel
  obtain ⟨hboundLeft, hboundRight⟩ := Nat.max_lt.mp hbounds
  obtain ⟨hls, hleft⟩ := hleft fuel hboundLeft
  obtain ⟨hrs, hright⟩ := hright fuel hboundRight
  refine ⟨hrows, ?_⟩
  have hpairs : records = matchingPairs db.regexMatch condition ls rs :=
    (matchingPairs_eq evaluated).symm
  rw [hpairs]
  exact gives_nestedLoopJoin db columnList hleft hright ⟨hls, hrs⟩ fun l hl r hr =>
    ⟨joins (l.values ++ r.values), evaluated l hl r hr⟩

/-! ## FROM and WHERE -/

/-- The rows of the tables. -/
def tablesOf (rowsOf : Nat → List ExecRecord) (oid : Nat) : List (List Value) :=
  (rowsOf oid).map (·.values)

section From

variable {regexMatch : RegexMatch}

theorem length_values {env : Env} : ∀ {exprs : List Binder.Expression} {row : List Value},
    Expression.values regexMatch env exprs = .ok row → row.length = exprs.length
  | [], _, h => by
      cases h
      rfl
  | expr :: exprs, _, h => by
      rw [Expression.values] at h
      obtain ⟨value, -, h⟩ := Except.bind_eq_ok_iff.mp h
      obtain ⟨rest, hrest, h⟩ := Except.bind_eq_ok_iff.mp h
      cases h
      rw [List.length_cons, List.length_cons, length_values hrest]

theorem PlansAll.length_eq {resolve : String → OperatorExpression → Prop} :
    ∀ {args : List Binder.Expression} {exprs : List OperatorExpression},
      PlansAll resolve args exprs → exprs.length = args.length
  | _, _, .nil => rfl
  | _, _, .cons _ tail => by rw [List.length_cons, List.length_cons, tail.length_eq]

/-- Each row has a value for each column. -/
theorem TableRef.Rows.length_eq {tables : Nat → List (List Value)} {table : TableRef}
    {rows : List (List Value)} (h : table.Rows regexMatch tables rows)
    (conforms : table.Conforms tables) : ∀ row ∈ rows, row.length = table.names.length := by
  have inProduct : ∀ {left right : TableRef} {ls rs : List (List Value)},
      (∀ row ∈ ls, row.length = left.names.length) → (∀ row ∈ rs, row.length = right.names.length) →
        ∀ row ∈ product ls rs, row.length = (left.names ++ right.names).length := by
    intro left right ls rs hls hrs row hrow
    obtain ⟨l, hl, hrow⟩ := List.mem_flatMap.mp hrow
    obtain ⟨r, hr, rfl⟩ := List.mem_map.mp hrow
    rw [List.length_append, List.length_append, hls l hl, hrs r hr]
  induction h with
  | baseTable =>
      intro row hrow
      rw [TableRef.names, List.length_map]
      exact conforms row hrow
  | crossJoin _ _ ihl ihr => exact inProduct (ihl conforms.1) (ihr conforms.2)
  | join _ _ _ _ ihl ihr =>
      intro row hrow
      exact inProduct (ihl conforms.1) (ihr conforms.2) row (List.mem_filter.mp hrow).1
  | @expressionList valuesList rows evaluated =>
      intro row hrow
      obtain ⟨exprs, hexprs, hrow⟩ := evaluated.exists_of_mem_right hrow
      rw [TableRef.names, List.length_map, List.length_zipIdx, length_values hrow]
      exact conforms exprs hexprs
  | empty =>
      intro row hrow
      rw [List.mem_singleton.mp hrow]
      rfl

theorem map_zipIdx_number {α : Type} (as : List α) :
    (as.zipIdx.map fun item => "#" ++ toString (item.2 + 1)) =
      (List.range as.length).map fun i => "#" ++ toString (i + 1) := by
  rw [List.range_eq_range', ← List.zipIdx_map_snd, List.map_map]
  rfl

/-- The columns of a list of values are numbered. -/
theorem columnNames_inferColumnList {exprs : List OperatorExpression} {columns : ColumnList}
    (h : Planner.inferColumnList exprs = .ok columns) :
    columnNames columns = (List.range exprs.length).map fun i => "#" ++ toString (i + 1) := by
  have hname : ∀ item ∈ exprs.zipIdx, ∀ column : ColumnDefinition,
      Planner.inferColumn ("#" ++ toString (item.2 + 1)) item.1 = .ok column →
        column.name = "#" ++ toString (item.2 + 1) := by
    intro item _ column hcolumn
    rw [Planner.inferColumn] at hcolumn
    split at hcolumn
    · cases hcolumn
      rfl
    · obtain ⟨size, -, hcolumn⟩ := Except.bind_eq_ok_iff.mp hcolumn
      cases hcolumn
      rfl
  have hmap : (columns.map fun column => column.name) =
      exprs.zipIdx.map fun item => "#" ++ toString (item.2 + 1) :=
    Except.map_eq_of_mapM h hname
  rw [columnNames, hmap, map_zipIdx_number]

theorem names_expressionList (valuesList : List (List Binder.Expression)) :
    (TableRef.expressionList valuesList).names =
      (List.range (valuesList.headD []).length).map fun i => "#" ++ toString (i + 1) :=
  map_zipIdx_number (valuesList.headD [])

theorem columnNames_getJoinColumnList (left right : Operator) :
    columnNames (Planner.getJoinColumnList left right) =
      columnNames left.outputColumns ++ columnNames right.outputColumns :=
  List.map_append

/-- Values name no columns. -/
theorem forall₂_evaluateAll {resolve : String → OperatorExpression → Prop}
    {valuesList : List (List Binder.Expression)} {exprsList : List (List OperatorExpression)}
    {rows : List (List Value)}
    (evaluated : List.Forall₂ (fun exprs row => Expression.values regexMatch {} exprs = .ok row)
      valuesList rows)
    (planned : List.Forall₂ (PlansAll resolve) valuesList exprsList) :
    List.Forall₂ (fun exprs row => OperatorExpression.evaluateAll regexMatch [] exprs = .ok row)
      exprsList rows := by
  induction evaluated generalizing exprsList with
  | nil =>
      cases planned
      exact .nil
  | cons hrow _ ih =>
      cases planned with
      | cons hfirst hrest => exact .cons (evaluateAll_of_plans _ hfirst reads_empty hrow) (ih hrest)

/-- The plan of a list of values produces its rows. -/
theorem produces_planExpressionList (db : Storage Unit) {valuesList : List (List Binder.Expression)}
    {rows : List (List Value)} {plan : Operator} {state state' : State}
    (simple : ∀ exprs ∈ valuesList, Expression.arePlain exprs = true)
    (evaluated : List.Forall₂ (fun exprs row => Expression.values db.regexMatch {} exprs = .ok row)
      valuesList rows)
    (hrun : planExpressionList valuesList state = .ok (plan, state')) :
    state' = state ∧ columnNames plan.outputColumns = (TableRef.expressionList valuesList).names ∧
      Produces db plan (rows.map fun row => { values := row }) := by
  rw [planExpressionList, StateT.bind_eq_ok_iff] at hrun
  obtain ⟨exprsList, s, hexprs, hrun⟩ := hrun
  obtain ⟨hs, hplans⟩ := StateT.forall₂_of_mapM
    (fun exprs hmem _ _ => plansAll_of_planExpressions exprs (simple exprs hmem)) hexprs
  subst s
  obtain ⟨hplan, hstate⟩ := StateT.lift_eq_ok_iff.mp hrun
  obtain _ | ⟨first, rest⟩ := exprsList
  · cases hplan
  obtain ⟨columns, hcolumns, hplan⟩ := Except.bind_eq_ok_iff.mp hplan
  cases hplan
  refine ⟨hstate, ?_, produces_values columns ?_⟩
  · obtain ⟨exprs, valuesList, hfirst, -, rfl⟩ := List.forall₂_cons_right_iff.mp hplans
    rw [Operator.outputColumns, columnNames_inferColumnList hcolumns, hfirst.length_eq,
      names_expressionList]
    rfl
  · exact forall₂_evaluateAll evaluated hplans

variable (sort : RecordTest → List ExecRecord → Except EvalError (List ExecRecord))
  (rowsOf : Nat → List ExecRecord)

/-- The plan of a table reference produces its rows. -/
theorem produces_planTableRef {table : TableRef} {rows : List (List Value)}
    (h : table.Rows regexMatch (tablesOf rowsOf) rows) :
    ∀ {plan : Operator} {state state' : State}, table.Simple → table.names.Nodup →
      table.Conforms (tablesOf rowsOf) →
      planTableRef .none table state = .ok (plan, state') →
      state' = state ∧ columnNames plan.outputColumns = table.names ∧
        ∃ records, records.map (·.values) = rows ∧
          Produces (.ofRows regexMatch sort rowsOf) plan records := by
  induction h with
  | @baseTable name tableAlias oid columnList =>
      intro plan state state' simple hnodup conforms hrun
      rw [planTableRef] at hrun
      cases hrun
      refine ⟨rfl, ?_, rowsOf oid, rfl, (rowsOf oid).length, fun fuel hfuel => ⟨hfuel, ?_⟩⟩
      · rw [columnNames, Operator.outputColumns, Planner.getColumnList, List.map_map]
        rfl
      · exact Storage.gives_ofRows ..
  | @crossJoin left right ls rs inLeft inRight ihl ihr =>
      intro plan state state' simple hnodup conforms hrun
      obtain ⟨hleftNames, hrightNames, -⟩ := List.nodup_append.mp hnodup
      rw [planTableRef, StateT.bind_eq_ok_iff] at hrun
      obtain ⟨leftPlan, s, hleft, hrun⟩ := hrun
      obtain ⟨hs, hleftColumns, leftRecords, rfl, hleftProduces⟩ :=
        ihl simple.1 hleftNames conforms.1 hleft
      subst s
      rw [StateT.bind_eq_ok_iff] at hrun
      obtain ⟨rightPlan, s, hright, hrun⟩ := hrun
      obtain ⟨hs, hrightColumns, rightRecords, rfl, hrightProduces⟩ :=
        ihr simple.2 hrightNames conforms.2 hright
      subst s
      cases hrun
      refine ⟨rfl, ?_, ?_⟩
      · rw [Operator.outputColumns, columnNames_getJoinColumnList, hleftColumns, hrightColumns]
        rfl
      · rw [← List.filter_true (l := product _ _)]
        exact produces_nestedLoopJoin hleftProduces hrightProduces _ (fun _ => true)
          fun _ _ _ _ => rfl
  | @join left right condition ls rs inLeft inRight joins evaluated ihl ihr =>
      intro plan state state' simple hnodup conforms hrun
      obtain ⟨hleftNames, hrightNames, -⟩ := List.nodup_append.mp hnodup
      have hleftLength := inLeft.length_eq conforms.1
      have hrightLength := inRight.length_eq conforms.2
      rw [planTableRef, StateT.bind_eq_ok_iff] at hrun
      obtain ⟨leftPlan, s, hleft, hrun⟩ := hrun
      obtain ⟨hs, hleftColumns, leftRecords, rfl, hleftProduces⟩ :=
        ihl simple.1 hleftNames conforms.1 hleft
      subst s
      rw [StateT.bind_eq_ok_iff] at hrun
      obtain ⟨rightPlan, s, hright, hrun⟩ := hrun
      obtain ⟨hs, hrightColumns, rightRecords, rfl, hrightProduces⟩ :=
        ihr simple.2.1 hrightNames conforms.2 hright
      subst s
      rw [StateT.bind_eq_ok_iff] at hrun
      obtain ⟨planned, s, hplanned, hrun⟩ := hrun
      obtain ⟨hs, hplans, -⟩ := plans_of_planExpression condition simple.2.2.1 hplanned
      subst s
      cases hrun
      refine ⟨rfl, ?_, ?_⟩
      · exact (columnNames_getJoinColumnList leftPlan rightPlan).trans
          (congrArg₂ _ hleftColumns hrightColumns)
      · refine produces_nestedLoopJoin hleftProduces hrightProduces _ joins fun l hl r hr => ?_
        have hlValues := List.mem_map_of_mem (f := fun record : ExecRecord => record.values) hl
        have hrValues := List.mem_map_of_mem (f := fun record : ExecRecord => record.values) hr
        have hlLength : l.values.length = leftPlan.outputColumns.length := by
          rw [hleftLength _ hlValues, ← hleftColumns, columnNames, List.length_map]
        have hrLength : r.values.length = rightPlan.outputColumns.length := by
          rw [hrightLength _ hrValues, ← hrightColumns, columnNames, List.length_map]
        rw [← hleftColumns] at hleftNames
        rw [← hrightColumns] at hrightNames
        have hvalue := evaluated (l.values ++ r.values)
          (List.mem_flatMap.mpr ⟨_, hlValues, List.mem_map_of_mem hrValues⟩)
        rw [← hleftColumns, ← hrightColumns] at hvalue
        refine evaluateJoin_of_plans condition hplans
          (readsJoin_two hleftNames hrightNames hlLength hrLength _)
          (reads_left hleftNames hlLength fun name hname => ?_) hvalue
        rw [hleftColumns]
        exact simple.2.2.2 name hname
  | @expressionList valuesList rows evaluated =>
      intro plan state state' simple hnodup conforms hrun
      rw [planTableRef] at hrun
      obtain ⟨hstate, hcolumns, hproduces⟩ :=
        produces_planExpressionList (.ofRows regexMatch sort rowsOf) simple evaluated hrun
      refine ⟨hstate, hcolumns, _, ?_, hproduces⟩
      rw [List.map_map]
      exact List.map_id _
  | empty =>
      intro plan state state' _ _ _ hrun
      cases hrun

variable {rowsOf} {stmt : SelectStatement}

theorem produces_planFrom {table : TableRef} {rows : List (List Value)} {plan : Operator}
    {state state' : State} (h : table.Rows regexMatch (tablesOf rowsOf) rows)
    (simple : table.Simple) (hnodup : table.names.Nodup)
    (conforms : table.Conforms (tablesOf rowsOf))
    (hrun : planFrom .none table state = .ok (plan, state')) :
    state' = state ∧ columnNames plan.outputColumns = table.names ∧
      ∃ records, records.map (·.values) = rows ∧
        Produces (.ofRows regexMatch sort rowsOf) plan records := by
  cases table with
  | empty =>
      cases h
      cases hrun
      have evaluated : List.Forall₂ (fun exprs row =>
          OperatorExpression.evaluateAll regexMatch [] exprs = .ok row) [[]] [[]] := .cons rfl .nil
      exact ⟨rfl, rfl, _, rfl, produces_values [] evaluated⟩
  | _ => exact produces_planTableRef sort rowsOf h simple hnodup conforms hrun

/-- The plan of FROM and WHERE produces the rows that they select. -/
theorem produces_planWhere {selected : List (List Value)} {plan filtered : Operator}
    {state₁ state₂ : State} (hselects : stmt.Selects regexMatch (tablesOf rowsOf) selected)
    (simple : stmt.Simple) (hnodup : stmt.table.names.Nodup)
    (conforms : stmt.table.Conforms (tablesOf rowsOf))
    (hfrom : planFrom .none stmt.table {} = .ok (plan, state₁))
    (hwhere : planWhere plan stmt.where_ state₁ = .ok (filtered, state₂)) :
    state₂ = {} ∧ columnNames filtered.outputColumns = stmt.table.names ∧
      ∃ records, records.map (·.values) = selected ∧
        Produces (.ofRows regexMatch sort rowsOf) filtered records := by
  obtain ⟨rows, hrows, hselected⟩ := hselects
  obtain ⟨hstate, hcolumns, records, rfl, hproduces⟩ :=
    produces_planFrom sort hrows simple.table hnodup conforms hfrom
  subst hstate
  cases hcondition : stmt.where_ with
  | none =>
      rw [hcondition] at hwhere hselected
      cases hwhere
      cases hselected
      exact ⟨rfl, hcolumns, records, rfl, hproduces⟩
  | some condition =>
      rw [hcondition] at hwhere hselected
      obtain ⟨holds, hholds, rfl⟩ := hselected
      rw [planWhere, StateT.bind_eq_ok_iff] at hwhere
      obtain ⟨planned, s, hplanned, hwhere⟩ := hwhere
      obtain ⟨hs, hplans, -⟩ :=
        plans_of_planExpression condition (simple.condition condition hcondition) hplanned
      subst s
      cases hwhere
      refine ⟨rfl, hcolumns, _, List.filter_map.symm, hproduces.filter _ fun r hr => ?_⟩
      have hrow := List.mem_map_of_mem (f := fun record : ExecRecord => record.values) hr
      have hlength : r.values.length = plan.outputColumns.length := by
        rw [hrows.length_eq conforms _ hrow, ← hcolumns, columnNames, List.length_map]
      obtain ⟨value, hvalue, htrue⟩ := Except.bind_eq_ok_iff.mp (hholds r.values hrow)
      have hagrees : Agrees regexMatch r.values {} (stmt.rowEnv r.values) := agrees_empty _
      have hrowEnv : (stmt.rowEnv r.values).columns =
          (columnNames plan.outputColumns).zip r.values := by
        rw [hcolumns]
        rfl
      have hreads := hagrees.reads (hcolumns ▸ hnodup) hlength hrowEnv condition.names
      exact Except.bind_eq_ok_iff.mpr
        ⟨value, evaluate_of_plans condition hplans hreads hvalue, htrue⟩

end From

/-! ## ORDER BY -/

section Order

variable {regexMatch : RegexMatch} {stmt : SelectStatement} {records : List ExecRecord}
  {term : OrderByType × Binder.Expression} {orderBy : OrderByType × OperatorExpression}

/-- The key of a record is that of its row. -/
def SameKeys (regexMatch : RegexMatch) (stmt : SelectStatement) (records : List ExecRecord)
    (term : OrderByType × Binder.Expression) (orderBy : OrderByType × OperatorExpression) : Prop :=
  orderBy.1 = term.1 ∧ ∀ r ∈ records, ∀ value, stmt.key regexMatch term r.values = .ok value →
    orderBy.2.evaluate regexMatch r.values = .ok value

theorem SameKeys.comesBefore_eq (h : SameKeys regexMatch stmt records term orderBy)
    (hkeys : stmt.HasKeys regexMatch (records.map (·.values)) term) {a b : ExecRecord}
    (ha : a ∈ records) (hb : b ∈ records) :
    comesBefore regexMatch orderBy a b = stmt.before regexMatch term a.values b.values := by
  obtain ⟨T, hvalues, -⟩ := hkeys
  obtain ⟨x, hx, -⟩ := hvalues a.values (List.mem_map_of_mem ha)
  obtain ⟨y, hy, -⟩ := hvalues b.values (List.mem_map_of_mem hb)
  rw [comesBefore, termTest_of_evaluate (h.2 a ha x hx) (h.2 b hb y hy), SelectStatement.before, hx,
    hy, h.1]
  rfl

theorem SameKeys.comparable (h : SameKeys regexMatch stmt records term orderBy)
    (hkeys : stmt.HasKeys regexMatch (records.map (·.values)) term) :
    Comparable regexMatch orderBy records := by
  obtain ⟨T, hvalues, htype⟩ := id hkeys
  refine ⟨T, fun r hr => ?_, htype.imp_right fun hdouble => ⟨hdouble.1, ?_⟩⟩
  · obtain ⟨value, hvalue, htype⟩ := hvalues r.values (List.mem_map_of_mem hr)
    exact ⟨value, h.2 r hr value hvalue, htype⟩
  · exact hdouble.2.comap.congr fun a ha b hb => (h.comesBefore_eq hkeys ha hb).symm

variable {terms : List (OrderByType × Binder.Expression)}
  {orderBys : List (OrderByType × OperatorExpression)}

theorem forall_comparable (h : List.Forall₂ (SameKeys regexMatch stmt records) terms orderBys)
    (hkeys : ∀ term ∈ terms, stmt.HasKeys regexMatch (records.map (·.values)) term) :
    ∀ orderBy ∈ orderBys, Comparable regexMatch orderBy records := by
  intro orderBy horderBy
  obtain ⟨term, hterm, hsame⟩ := h.exists_of_mem_right horderBy
  exact hsame.comparable (hkeys term hterm)

/-- Where rows agree in all keys, so do the records. -/
theorem tiesAgree_of_keysAgree
    (h : List.Forall₂ (SameKeys regexMatch stmt records) terms orderBys)
    (hkeys : ∀ term ∈ terms, stmt.HasKeys regexMatch (records.map (·.values)) term)
    (hagree : stmt.KeysAgree regexMatch (records.map (·.values)) terms) :
    TiesAgree regexMatch orderBys records := by
  cases h with
  | nil => trivial
  | @cons first orderBy rest orderBys hfirst hrest =>
      obtain ⟨hfirstKeys, hrestKeys⟩ := List.forall_mem_cons.mp hkeys
      intro a ha b hb htie later hlater
      obtain ⟨term, hterm, hsame⟩ := hrest.exists_of_mem_right hlater
      rw [Equivalent, hfirst.comesBefore_eq hfirstKeys ha hb,
        hfirst.comesBefore_eq hfirstKeys hb ha] at htie
      rw [Equivalent, hsame.comesBefore_eq (hrestKeys term hterm) ha hb,
        hsame.comesBefore_eq (hrestKeys term hterm) hb ha]
      exact hagree a.values (List.mem_map_of_mem ha) b.values (List.mem_map_of_mem hb) htie term
        hterm

/-- Records in order are rows in order. -/
theorem sorted_of_inOrder (h : List.Forall₂ (SameKeys regexMatch stmt records) terms orderBys)
    (hkeys : ∀ term ∈ terms, stmt.HasKeys regexMatch (records.map (·.values)) term)
    {sorted : List ExecRecord} (hperm : sorted.Perm records)
    (horder : InOrder regexMatch orderBys sorted) :
    Sorted (lexicographic (terms.map (stmt.before regexMatch))) (sorted.map (·.values)) := by
  apply List.pairwise_map.mpr
  refine horder.imp_of_mem fun {a b} ha hb hba => ?_
  have ha := hperm.subset ha
  have hb := hperm.subset hb
  rw [← hba]
  refine (lexicographic_comap (f := fun record : ExecRecord => record.values) ?_).symm
  rw [List.forall₂_map_left_iff, List.forall₂_map_right_iff]
  clear horder hba
  induction h with
  | nil => exact .nil
  | cons hsame _ ih =>
      obtain ⟨hhead, htail⟩ := List.forall_mem_cons.mp hkeys
      exact .cons ⟨hsame.comesBefore_eq hhead hb ha, hsame.comesBefore_eq hhead ha hb⟩ (ih htail)

end Order

/-! ## LIMIT and locks -/

section Limit

variable {regexMatch : RegexMatch} {columns : ColumnList} {state state' : State}

/-- A planned number is the number that is given. -/
theorem planCount_eq_ok {message : String} {expr : Option Binder.Expression}
    {count given : Option Nat}
    (hplain : ∀ e ∈ expr, e.isPlain = true)
    (hgiven : SelectStatement.IsCount regexMatch expr given)
    (hrun : planCount columns regexMatch message expr state = .ok (count, state')) :
    state' = state ∧ count = given := by
  cases expr with
  | none =>
      cases given with
      | none =>
          cases hrun
          exact ⟨rfl, rfl⟩
      | some n => cases hgiven
  | some expr =>
      cases given with
      | none => cases hgiven
      | some n =>
          obtain ⟨m, hvalue, hn⟩ := hgiven
          rw [planCount, StateT.bind_eq_ok_iff] at hrun
          obtain ⟨planned, s, hplanned, hrun⟩ := hrun
          obtain ⟨hs, hplans, -⟩ := plans_of_planExpression expr (hplain expr rfl) hplanned
          subst s
          rw [StateT.lift_bind_eq_ok_iff] at hrun
          obtain ⟨value, hevaluate, hrun⟩ := hrun
          cases hevaluate.symm.trans (evaluate_of_plans expr hplans reads_empty hvalue)
          rw [StateT.lift_bind_eq_ok_iff] at hrun
          obtain ⟨i, hi, hrun⟩ := hrun
          cases hi
          have hnonneg : ¬ m < 0 := by
            rw [Int32.lt_iff_toInt_lt, hn]
            simp
          rw [if_neg hnonneg] at hrun
          cases hrun
          exact ⟨rfl, by rw [hn, Int.toNat_natCast]⟩

variable {db : Storage Unit} {stmt : SelectStatement} {plan plan' : Operator}
  {records : List ExecRecord} {limit offset : Option Nat}

/-- LIMIT and OFFSET cut a part out. -/
theorem produces_planLimit (simple : stmt.Simple)
    (hlimit : SelectStatement.IsCount regexMatch stmt.limitCount limit)
    (hoffset : SelectStatement.IsCount regexMatch stmt.limitOffset offset)
    (hproduces : Produces db plan records)
    (hrun : planLimit regexMatch plan stmt.limitCount stmt.limitOffset state =
      .ok (plan', state')) :
    Produces db plan' (Iter.takeUpTo limit (records.drop (offset.getD 0))) := by
  unfold planLimit at hrun
  split at hrun
  · rw [StateT.bind_eq_ok_iff] at hrun
    obtain ⟨count, s, hcount, hrun⟩ := hrun
    obtain ⟨hs, rfl⟩ := planCount_eq_ok simple.limit hlimit hcount
    subst s
    rw [StateT.bind_eq_ok_iff] at hrun
    obtain ⟨count', s, hcount', hrun⟩ := hrun
    obtain ⟨hs, rfl⟩ := planCount_eq_ok simple.offset hoffset hcount'
    subst s
    cases hrun
    exact hproduces.limit _ _ _
  · rename_i hnone
    cases hrun
    cases hcount : stmt.limitCount with
    | some expr => exact absurd (.inl (by rw [hcount]; rfl)) hnone
    | none =>
        cases hoffset' : stmt.limitOffset with
        | some expr => exact absurd (.inr (by rw [hoffset']; rfl)) hnone
        | none =>
            rw [hcount] at hlimit
            rw [hoffset'] at hoffset
            cases limit with
            | some n => cases hlimit
            | none =>
                cases offset with
                | some n => cases hoffset
                | none => exact hproduces

/-- Locking gives the records that it locks. -/
theorem produces_planLock {table : TableRef} {lockType : SelectLockType}
    (granted : ∀ lockType oid rid, db.lockRow lockType oid rid = return ())
    (hproduces : Produces db plan records)
    (hrun : planLock plan table lockType state = .ok (plan', state')) :
    Produces db plan' records := by
  unfold planLock at hrun
  split at hrun
  · cases hrun
    exact hproduces
  · cases table with
    | baseTable name tableAlias oid columnList =>
        cases hrun
        exact hproduces.lockRows _ _ _ fun rid => granted _ _ rid
    | _ => cases hrun

end Limit

/-! ## `PlanSelect` -/

section Select

variable {regexMatch : RegexMatch} {columns : ColumnList} {state state' : State}
  {sort : RecordTest → List ExecRecord → Except EvalError (List ExecRecord)}
  {rowsOf : Nat → List ExecRecord} {stmt : SelectStatement} {records : List ExecRecord}

/-- The terms of ORDER BY are planned with the keys that they mean. -/
theorem sameKeys_of_planOrderBy {orderBys : List (OrderByType × OperatorExpression)}
    (hplain : ∀ term ∈ stmt.orderBy, term.2.isPlain = true) (hnodup : (columnNames columns).Nodup)
    (hcolumns : columnNames columns = stmt.table.names)
    (hlength : ∀ r ∈ records, r.values.length = columns.length)
    (hagrees : ∀ r ∈ records, Agrees regexMatch r.values state (stmt.env regexMatch r.values))
    (hrun : (stmt.orderBy.mapM fun term => do
      let planned ← planExpression [columns] term.2
      return (term.1, planned.expr) : Step _) state = .ok (orderBys, state')) :
    List.Forall₂ (SameKeys regexMatch stmt records) stmt.orderBy orderBys := by
  refine (StateT.forall₂_of_mapM (fun term hterm orderBy s hterm' => ?_) hrun).2
  rw [StateT.bind_eq_ok_iff] at hterm'
  obtain ⟨planned, s', hplanned, hpure⟩ := hterm'
  obtain ⟨hs, hplans, -⟩ := plans_of_planExpression term.2 (hplain term hterm) hplanned
  subst s'
  cases hpure
  refine ⟨rfl, rfl, fun r hr value hvalue => ?_⟩
  have henv : (stmt.env regexMatch r.values).columns = (columnNames columns).zip r.values := by
    rw [SelectStatement.env, columns_foldl_addAlias, hcolumns]
    rfl
  exact evaluate_of_plans term.2 hplans
    ((hagrees r hr).reads hnodup (hlength r hr) henv _) hvalue

/-- ORDER BY puts the records in order. -/
theorem produces_planOrderBy {plan plan' : Operator} {selected : List (List Value)}
    (simple : stmt.Simple) (hnodup : stmt.table.names.Nodup) (hsort : IsSort sort)
    (hrecords : records.map (·.values) = selected)
    (hcolumns : columnNames plan.outputColumns = stmt.table.names)
    (hlength : ∀ r ∈ records, r.values.length = plan.outputColumns.length)
    (hagrees : ∀ r ∈ records, Agrees regexMatch r.values state (stmt.env regexMatch r.values))
    (hkeys : ∀ term ∈ stmt.orderBy, stmt.HasKeys regexMatch selected term)
    (hagree : stmt.KeysAgree regexMatch selected stmt.orderBy)
    (hproduces : Produces (.ofRows regexMatch sort rowsOf) plan records)
    (hrun : planOrderBy plan stmt.orderBy state = .ok (plan', state')) :
    ∃ sorted, sorted.Perm records ∧ Produces (.ofRows regexMatch sort rowsOf) plan' sorted ∧
      Sorted (lexicographic (stmt.orderBy.map (stmt.before regexMatch)))
        (sorted.map (·.values)) := by
  subst hrecords
  unfold planOrderBy at hrun
  split at hrun
  · rename_i hnone
    cases hrun
    refine ⟨records, List.Perm.refl _, hproduces, ?_⟩
    rw [hnone]
    exact List.pairwise_of_forall fun _ _ => rfl
  · rw [StateT.bind_eq_ok_iff] at hrun
    obtain ⟨orderBys, s, horderBys, hrun⟩ := hrun
    cases hrun
    have hsame := sameKeys_of_planOrderBy simple.keys (hcolumns ▸ hnodup) hcolumns hlength hagrees
      horderBys
    obtain ⟨sorted, hsorted, hperm, horder⟩ := hproduces.orderBy plan.outputColumns hsort
      (forall_comparable hsame hkeys) (tiesAgree_of_keysAgree hsame hkeys hagree)
    exact ⟨sorted, hperm, hsorted, sorted_of_inOrder hsame hkeys hperm horder⟩

theorem SelectStatement.Simple.not_aggregates (simple : stmt.Simple) :
    ¬ (stmt.selectList.any (·.hasAggregation) = true ∨ stmt.groupBy ≠ []) := by
  intro h
  rcases h with hany | hgroupBy
  · obtain ⟨item, hitem, haggregation⟩ := List.any_eq_true.mp hany
    rw [hasAggregation_item_eq_false (simple.items item hitem)] at haggregation
    cases haggregation
  · exact hgroupBy simple.groupBy

/-- Each selected row has a value for each column. -/
theorem SelectStatement.Selects.length_eq {tables : Nat → List (List Value)}
    {selected : List (List Value)} (h : stmt.Selects regexMatch tables selected)
    (conforms : stmt.table.Conforms tables) :
    ∀ row ∈ selected, row.length = stmt.table.names.length := by
  obtain ⟨rows, hrows, hselected⟩ := h
  have hlength := hrows.length_eq conforms
  cases hcondition : stmt.where_ with
  | none =>
      rw [hcondition] at hselected
      cases hselected
      exact hlength
  | some condition =>
      rw [hcondition] at hselected
      obtain ⟨holds, -, rfl⟩ := hselected
      exact fun row hrow => hlength row (List.mem_filter.mp hrow).1

/-- The two loops over the select list plan its values. -/
theorem SelectStatement.Simple.planSelectList {record : List Value}
    {exprs : List (OperatorExpression × String)} {mid : State} (simple : stmt.Simple)
    (hnodup : (columnNames columns).Nodup) (hcolumns : columnNames columns = stmt.table.names)
    (hlength : record.length = columns.length)
    (haliases : addAliases columns stmt.selectList {} = .ok ((), mid))
    (hexprs : Planning.planSelectList columns stmt.selectList mid = .ok (exprs, state)) :
    Agrees regexMatch record state (stmt.env regexMatch record) ∧
      ∀ values, Expression.values regexMatch (stmt.env regexMatch record) stmt.selectList =
          .ok values →
        OperatorExpression.evaluateAll regexMatch record (exprs.map (·.1)) = .ok values := by
  have hrow : (stmt.rowEnv record).columns = (columnNames columns).zip record := by
    rw [hcolumns]
    rfl
  have henv : (stmt.env regexMatch record).columns = (columnNames columns).zip record := by
    rw [SelectStatement.env, columns_foldl_addAlias, hrow]
  have hempty : Agrees regexMatch record {} (stmt.rowEnv record) := agrees_empty _
  have hagrees := hempty.addAliases hnodup hlength hrow simple.items haliases
  exact hagrees.planSelectList hnodup hlength henv simple.items
    (fun name expr hmem => isSome_find?_foldl_addAlias hmem) hexprs

theorem map_takeUpTo {α β : Type} (g : α → β) (count : Option Nat) (rows : List α) :
    Iter.takeUpTo count (rows.map g) = (Iter.takeUpTo count rows).map g := by
  cases count with
  | none => rfl
  | some n => exact List.map_take.symm

end Select

/-! ## A join in order -/

/-- Tables `t(a)` and `u(a, b)`. -/
def twoColumnTables (oid : Nat) : List ExecRecord :=
  if oid = 1 then [{ values := [.int 1] }, { values := [.int 2] }]
  else [{ values := [.int 1, .int 4] }, { values := [.int 2, .int 5] },
    { values := [.int 2, .int 1] }]

/-- `SELECT t.a AS x, u.b FROM t JOIN u ON t.a = u.a WHERE u.b > 1 ORDER BY x DESC LIMIT 1`. -/
def orderedJoin : SelectStatement where
  table := .join (.baseTable "t" none 1 [⟨"a", .int, 4⟩])
    (.baseTable "u" none 2 [⟨"a", .int, 4⟩, ⟨"b", .int, 4⟩])
    (.binaryOp "=" (.columnRef ["t", "a"]) (.columnRef ["u", "a"]))
  selectList := [.aliasOf "x" (.columnRef ["t", "a"]), .columnRef ["u", "b"]]
  where_ := some (.binaryOp ">" (.columnRef ["u", "b"]) (.const (.int 1)))
  orderBy := [(.desc, .columnRef ["x"])]
  limitCount := some (.const (.int 1))

/-- `t.a = u.a`. -/
def sameA : List Value → Bool
  | [.int a, .int b, _] => a = b
  | _ => false

/-- `u.b > 1`. -/
def largeB : List Value → Bool
  | [_, _, .int b] => 1 < b
  | _ => false

theorem evaluates_orderedJoin :
    orderedJoin.Evaluates (fun _ _ => .ok false) (tablesOf twoColumnTables)
      [[.int 1, .int 1, .int 4], [.int 2, .int 2, .int 5]]
      (fun row => [row.getD 0 .null, row.getD 2 .null]) (some 1) none where
  selects := by
    refine ⟨_, .join .baseTable .baseTable sameA ?_, largeB, ?_, rfl⟩
    · iterate 6 refine List.forall_mem_cons.mpr ⟨rfl, ?_⟩
      exact List.forall_mem_nil _
    · iterate 3 refine List.forall_mem_cons.mpr ⟨rfl, ?_⟩
      exact List.forall_mem_nil _
  items := List.forall_mem_cons.mpr ⟨rfl, List.forall_mem_singleton.mpr rfl⟩
  keys := by
    refine List.forall_mem_singleton.mpr ⟨.int, ?_, .inl trivial⟩
    exact List.forall_mem_cons.mpr
      ⟨⟨.int 1, rfl, rfl⟩, List.forall_mem_singleton.mpr ⟨.int 2, rfl, rfl⟩⟩
  agree := fun _ _ _ _ _ _ hterm => by cases hterm
  limit := ⟨1, rfl, rfl⟩
  offset := trivial

end Planning

end HuaDB
