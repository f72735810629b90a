import HuaDB.Optimizer.ColumnRefs
import HuaDB.Optimizer.JoinTrees
import HuaDB.Planner

/-!
What a predicate of the WHERE clause reads where the optimizer moves it.

A column reference of the WHERE clause is a position in the record of the whole FROM
clause.  At a scan the same position is looked for in the record of the scan, and at a join
in the record of its left child.  So a predicate keeps its meaning exactly if the tables
that it refers to start there where they start in the record of FROM
(`Place.keeps_iff`).

`places` are the places of the predicates in a plan that `PushDown` returns, and
`JoinTree.places` those in a tree of `ReorderJoin`.
-/

namespace HuaDB

open Layout

/-! ## Plans of the FROM clause -/

/-- `PlanTableRef`: base tables and lists of values, and the joins of `PlanCrossJoin` and
`PlanJoin`. -/
inductive JoinPlan : Operator → Prop
  | baseTable (columnList : ColumnList) (oid : Nat) (tableName : String)
      (tableAlias : Option String) : JoinPlan (.seqScan columnList oid tableName tableAlias)
  | expressionList (columnList : ColumnList) (rows : List (List OperatorExpression)) :
      JoinPlan (.values columnList rows)
  | nestedLoop {left right : Operator} (hleft : JoinPlan left) (hright : JoinPlan right)
      (joinCondition : OperatorExpression) :
      JoinPlan (.nestedLoopJoin (left.outputColumns ++ right.outputColumns) left right
        joinCondition)
  | merge {left right : Operator} (hleft : JoinPlan left) (hright : JoinPlan right)
      (leftKey rightKey : OperatorExpression) :
      JoinPlan (.mergeJoin (left.outputColumns ++ right.outputColumns)
        (.orderBy left.outputColumns left [(.asc, leftKey)])
        (.orderBy right.outputColumns right [(.asc, rightKey)]) leftKey rightKey)
  | hash {left right : Operator} (hleft : JoinPlan left) (hright : JoinPlan right) :
      JoinPlan (.hashJoin (left.outputColumns ++ right.outputColumns) left right)

/-- The references of a predicate are planned over one child. -/
def PlannedOver (columns : ColumnList) (predicate : OperatorExpression) : Prop :=
  ∀ ref ∈ predicate.columnRefs, ref.isLeft = true ∧
    ∃ type size, Planner.planColumnRef columns ref.name =
      .ok (.columnValue ref.colIdx type ref.name size true)

theorem JoinPlan.total_eq {base : Operator} (h : JoinPlan base) :
    total rowWidth base.baseTables = base.outputColumns.length := by
  induction h with
  | baseTable | expressionList => exact Nat.add_zero _
  | nestedLoop _ _ _ ihl ihr | merge _ _ _ _ ihl ihr | hash _ _ ihl ihr =>
      rw [total, Operator.baseTables, List.map_append, List.sum_append, Operator.outputColumns,
        List.length_append]
      exact congrArg₂ _ ihl ihr

theorem JoinPlan.isFilter_eq {base : Operator} (h : JoinPlan base) : base.isFilter = false := by
  cases h <;> rfl

theorem PlannedOver.colIdx_lt {columns : ColumnList} {predicate : OperatorExpression}
    (h : PlannedOver columns predicate) :
    ∀ ref ∈ predicate.columnRefs, ref.colIdx < columns.length := by
  intro ref href
  obtain ⟨-, type, size, hplan⟩ := h ref href
  rw [Planner.planColumnRef] at hplan
  split at hplan
  · rename_i column i hfind
    cases hplan
    have hmem := List.mem_of_find?_eq_some hfind
    rw [List.mem_zipIdx_iff_getElem?] at hmem
    exact (List.getElem?_eq_some_iff.mp hmem).1
  · cases hplan

/-- The conjuncts of a predicate refer to what it refers to. -/
theorem PlannedOver.conjuncts {columns : ColumnList} {predicate : OperatorExpression}
    (h : PlannedOver columns predicate) : ∀ conjunct ∈ predicate.conjuncts,
      PlannedOver columns conjunct := by
  fun_induction OperatorExpression.conjuncts predicate with
  | case1 left right ih =>
      obtain ⟨hleft, hright⟩ := List.forall_mem_append.mp h
      exact List.forall_mem_cons.mpr ⟨hright, ih hleft⟩
  | case2 predicate _ => exact List.forall_mem_singleton.mpr h

/-! ## Places -/

/-- Where a predicate stands: the base tables of the two records that it is evaluated on.
For a filter both are the record of its child.  There is none where a child is a null
pointer. -/
structure Place where
  predicate : OperatorExpression
  left : Option (List Operator)
  right : Option (List Operator)

namespace Place

variable (base : List Operator) (place : Place)

/-- Each reference reads at the place what it reads in the record of the tables `base`,
whatever the rows are, and the table it refers to is there. -/
def Keeps : Prop :=
  ∃ left right, place.left = some left ∧ place.right = some right ∧
    ∀ ref ∈ place.predicate.columnRefs,
      (∃ table column, locate rowWidth base ref.colIdx = some (table, column) ∧
        table ∈ left ++ right) ∧
      ∀ rows : TableRows, ref.read (rows.concat left) (rows.concat right) =
        getValue (rows.concat base) ref.colIdx

/-- Each table of `base` that a reference points into starts at the same position in the left
record. -/
def StartsAlike : Prop :=
  ∃ left right, place.left = some left ∧ place.right = some right ∧
    ∀ ref ∈ place.predicate.columnRefs, ∀ table start, Layout.StartsAt rowWidth base table start →
      start ≤ ref.colIdx → ref.colIdx < start + rowWidth table →
      Layout.StartsAt rowWidth left table start

variable {base place}

theorem getValue_eq_iff {values values' : List Value} {i : Nat} :
    getValue values i = getValue values' i ↔ values[i]? = values'[i]? := by
  rw [getValue, getValue]
  cases values[i]? <;> cases values'[i]? <;> simp

/-- Both say of a reference that its position is in the row of the same table, at the same
place of the row. -/
theorem keeps_iff (hplanned : ∀ ref ∈ place.predicate.columnRefs,
    ref.isLeft = true ∧ ref.colIdx < total rowWidth base) :
    place.Keeps base ↔ place.StartsAlike base := by
  apply exists_congr
  intro left
  apply exists_congr
  intro right
  apply and_congr_right
  intro _
  apply and_congr_right
  intro _
  apply forall₂_congr
  intro ref href
  obtain ⟨hleft, hlt⟩ := hplanned ref href
  obtain ⟨table, column, hlocate⟩ := exists_locate hlt
  obtain ⟨hcolumn, start, hstart, hidx⟩ := locate_eq_some_iff.mp hlocate
  have hread : (∀ rows : TableRows, ref.read (rows.concat left) (rows.concat right) =
      getValue (rows.concat base) ref.colIdx) ↔ Layout.StartsAt rowWidth left table start := by
    rw [← locate_eq_iff_startsAt hcolumn, ← hidx, ← getElem?_concat_eq_iff (α := Value) hlocate]
    apply forall_congr'
    intro rows
    rw [ColumnRef.read, if_pos hleft, getValue_eq_iff]
  rw [hread]
  constructor
  · rintro ⟨-, hthere⟩ table' start' hstart' hle hlt'
    have hlocate' : locate rowWidth base ref.colIdx = some (table', ref.colIdx - start') :=
      locate_eq_some_iff.mpr ⟨by omega, start', hstart', by omega⟩
    cases hlocate.symm.trans hlocate'
    obtain rfl : start = start' := by omega
    exact hthere
  · intro h
    have hthere := h table start hstart (by omega) (by omega)
    exact ⟨⟨table, column, hlocate, List.mem_append_left _ hthere.mem⟩, hthere⟩

/-- Where the predicate has the record of all tables it reads what it read. -/
theorem startsAlike_base (predicate : OperatorExpression) (base : List Operator) :
    StartsAlike base ⟨predicate, some base, some base⟩ :=
  ⟨base, base, rfl, rfl, fun _ _ _ _ hstart _ _ => hstart⟩

/-- A predicate that refers to a table that the left record does not have, as each that
relates the two children of a join does, does not keep its meaning. -/
theorem not_startsAlike {ref : ColumnRef} {left : List Operator} {table : Operator} {column : Nat}
    (href : ref ∈ place.predicate.columnRefs) (hleft : place.left = some left)
    (hlocate : locate rowWidth base ref.colIdx = some (table, column)) (htable : table ∉ left) :
    ¬ place.StartsAlike base := by
  rintro ⟨left', right, hleft', -, hrefs⟩
  cases hleft.symm.trans hleft'
  obtain ⟨hcolumn, start, hstart, hidx⟩ := locate_eq_some_iff.mp hlocate
  exact htable (hrefs ref href table start hstart (by omega) (by omega)).mem

/-- A predicate that keeps its meaning has the value that it had. -/
theorem Keeps.evaluateJoin_eq (regexMatch : RegexMatch) (h : place.Keeps base) (rows : TableRows) :
    ∃ left right, place.left = some left ∧ place.right = some right ∧
      place.predicate.evaluateJoin regexMatch (rows.concat left) (rows.concat right) =
        place.predicate.evaluate regexMatch (rows.concat base) := by
  obtain ⟨left, right, hleft, hright, hrefs⟩ := h
  refine ⟨left, right, hleft, hright, OperatorExpression.evaluateJoin_eq _ ?_⟩
  intro ref href
  exact (hrefs ref href).2 rows

end Place

namespace Optimizer

/-! ## PushDown -/

/-- The places of the predicates of filters and nested loop joins. -/
def places : Operator → List Place
  | .filter _ child predicate =>
      ⟨predicate, some child.baseTables, some child.baseTables⟩ :: places child
  | .nestedLoopJoin _ left right joinCondition =>
      ⟨joinCondition, some left.baseTables, some right.baseTables⟩ :: (places left ++ places right)
  | .hashJoin _ left right | .mergeJoin _ left right _ _ => places left ++ places right
  | .aggregate _ child | .delete _ child _ | .insert _ child _ _ | .limit _ child _ _
  | .lockRows _ child _ _ | .orderBy _ child _ | .projection _ child _ | .update _ child _ _ =>
      places child
  | .seqScan .. | .values .. => []

/-- What the scans and joins below the filters take: a scan the first entry of its table that is
not flagged, a join the first flagged entry whose columns it has, in the place of its own
condition. -/
def takenPlaces (entries : List (OperatorExpression × Bool)) : Operator → List Place
  | .seqScan columnList oid tableName tableAlias =>
      let scan := Operator.seqScan columnList oid tableName tableAlias
      match entries.find? (pushesToScan (Operator.tableNameOrAlias tableName tableAlias)) with
      | none => []
      | some (predicate, _) => [⟨predicate, some [scan], some [scan]⟩]
  | .nestedLoopJoin columnList left right joinCondition =>
      let taken := (entries.find? (pushesToJoin columnList)).map Prod.fst
      ⟨taken.getD joinCondition, some left.baseTables, some right.baseTables⟩ ::
        (takenPlaces entries left ++ takenPlaces entries right)
  | plan => places plan

theorem pushDownJoin_apply (columnList : ColumnList) (left right : StateM PushDownState Operator)
    (joinCondition : OperatorExpression) (s : PushDownState) :
    ∃ success, pushDownJoin columnList left right joinCondition s =
      let taken := ((s.filterPredicate.zip s.isConnected).find? (pushesToJoin columnList)).map
        Prod.fst
      let outL := left { s with success := success }
      let outR := right outL.2
      (.nestedLoopJoin columnList outL.1 outR.1 (taken.getD joinCondition), outR.2) := by
  change ∃ success, (match (s.filterPredicate.zip s.isConnected).find? (pushesToJoin columnList) with
    | none => do
        let joinCondition ← pure joinCondition
        return Operator.nestedLoopJoin columnList (← left) (← right) joinCondition
    | some (predicate, _) => do
        set { s with success := true }
        let joinCondition ← pure predicate
        return Operator.nestedLoopJoin columnList (← left) (← right) joinCondition :
      StateM PushDownState Operator) s = _
  cases (s.filterPredicate.zip s.isConnected).find? (pushesToJoin columnList) with
  | none => exact ⟨s.success, rfl⟩
  | some entry => exact ⟨true, rfl⟩

/-- There is nothing to split in a plan of the FROM clause. -/
theorem split_joinPlan {base : Operator} (h : JoinPlan base) : split base = base := by
  induction h with
  | baseTable | expressionList => rw [split]
  | nestedLoop hleft hright _ ihl ihr | hash hleft hright ihl ihr =>
      rw [split, split_splitFilter, split_splitFilter, splitChild_of_not_filter hleft.isFilter_eq,
        splitChild_of_not_filter hright.isFilter_eq, ihl, ihr]
  | merge hleft hright _ _ ihl ihr =>
      rw [split, split_splitFilter, split_splitFilter, splitChild_of_not_filter rfl,
        splitChild_of_not_filter rfl, split, split, split_splitFilter, split_splitFilter,
        splitChild_of_not_filter hleft.isFilter_eq, splitChild_of_not_filter hright.isFilter_eq,
        ihl, ihr]

theorem split_orderBy {child : Operator} (h : JoinPlan child) (columnList : ColumnList)
    (orderBys : List (OrderByType × OperatorExpression)) :
    split (.orderBy columnList child orderBys) = .orderBy columnList child orderBys := by
  rw [split, split_splitFilter, splitChild_of_not_filter h.isFilter_eq, split_joinPlan h]

/-- What `PushDown` makes of a plan of the FROM clause. -/
structure PushedInto (base : Operator) (s : PushDownState) (out : Operator × PushDownState) :
    Prop where
  baseTables_eq : out.1.baseTables = base.baseTables
  places_eq : places out.1 = takenPlaces (s.filterPredicate.zip s.isConnected) base
  filterPredicate_eq : out.2.filterPredicate = s.filterPredicate
  isConnected_eq : out.2.isConnected = s.isConnected

theorem pushDownFrom_joinPlan {base : Operator} (h : JoinPlan base) (s : PushDownState) :
    PushedInto base s (pushDownFrom base s) := by
  induction h generalizing s with
  | baseTable columnList oid tableName tableAlias =>
      rw [pushDownFrom, pushDownSeqScan_apply]
      cases hfind : (s.filterPredicate.zip s.isConnected).find?
          (pushesToScan (Operator.tableNameOrAlias tableName tableAlias)) with
      | none =>
          refine ⟨rfl, ?_, rfl, rfl⟩
          rw [takenPlaces, hfind]
          rfl
      | some entry =>
          refine ⟨rfl, ?_, rfl, rfl⟩
          rw [takenPlaces, hfind]
          rfl
  | expressionList columnList rows => exact ⟨rfl, rfl, rfl, rfl⟩
  | @nestedLoop left right hleft hright joinCondition ihl ihr =>
      obtain ⟨success, hout⟩ := pushDownJoin_apply (left.outputColumns ++ right.outputColumns)
        (pushDownFrom left) (pushDownFrom right) joinCondition s
      rw [pushDownFrom, hout]
      have hl := ihl { s with success := success }
      have hr := ihr (pushDownFrom left { s with success := success }).2
      have hplaces := hr.places_eq
      rw [hl.filterPredicate_eq, hl.isConnected_eq] at hplaces
      constructor
      · exact congrArg₂ _ hl.baseTables_eq hr.baseTables_eq
      · rw [takenPlaces, ← hplaces, ← hl.baseTables_eq, ← hr.baseTables_eq]
        exact congrArg (List.cons _) (congrArg (· ++ _) hl.places_eq)
      · exact hr.filterPredicate_eq.trans hl.filterPredicate_eq
      · exact hr.isConnected_eq.trans hl.isConnected_eq
  | @hash left right hleft hright =>
      have hout : pushDownFrom (.hashJoin (left.outputColumns ++ right.outputColumns) left right) s =
          (.hashJoin (left.outputColumns ++ right.outputColumns) (split left) (split right), s) :=
        rfl
      rw [hout, split_joinPlan hleft, split_joinPlan hright]
      exact ⟨rfl, rfl, rfl, rfl⟩
  | @merge left right hleft hright leftKey rightKey =>
      have hout : pushDownFrom (.mergeJoin (left.outputColumns ++ right.outputColumns)
          (.orderBy left.outputColumns left [(.asc, leftKey)])
          (.orderBy right.outputColumns right [(.asc, rightKey)]) leftKey rightKey) s =
          (.mergeJoin (left.outputColumns ++ right.outputColumns)
            (split (.orderBy left.outputColumns left [(.asc, leftKey)]))
            (split (.orderBy right.outputColumns right [(.asc, rightKey)])) leftKey rightKey, s) :=
        rfl
      rw [hout, split_orderBy hleft, split_orderBy hright]
      exact ⟨rfl, rfl, rfl, rfl⟩

/-- The filters that are left over a plan of the FROM clause stand where they stood. -/
theorem pushDownFrom_filters {base : Operator} (h : JoinPlan base)
    (filters : List (ColumnList × OperatorExpression)) :
    ∀ s, (pushDownFrom (filterStack base filters) s).1.baseTables = base.baseTables ∧
      ∃ kept : List OperatorExpression, places (pushDownFrom (filterStack base filters) s).1 =
        kept.map (fun predicate => ⟨predicate, some base.baseTables, some base.baseTables⟩) ++
          takenPlaces ((enterFilters (filters.map Prod.snd) s).filterPredicate.zip
            (enterFilters (filters.map Prod.snd) s).isConnected) base := by
  induction filters with
  | nil =>
      intro s
      have hpushed := pushDownFrom_joinPlan h s
      exact ⟨hpushed.baseTables_eq, [], hpushed.places_eq⟩
  | cons filter filters ih =>
      intro s
      rcases filter with ⟨columns, predicate⟩
      obtain ⟨htables, kept, hplaces⟩ := ih (enterFilter predicate s)
      rw [filterStack, pushDownFrom, pushDownFilter_apply, List.map_cons, enterFilters_cons]
      dsimp only
      split
      · exact ⟨htables, kept, hplaces⟩
      · refine ⟨htables, predicate :: kept, ?_⟩
        rw [places, hplaces, htables]
        rfl

/-- The places of the predicates of a SELECT once `SplitPredicates` and `PushDown` are through. -/
theorem places_pushDown {base : Operator} (h : JoinPlan base)
    (filters : List (ColumnList × OperatorExpression)) (columns : ColumnList)
    (exprs : List OperatorExpression) :
    ∃ kept : List OperatorExpression,
      places (pushDown (splitPredicates (.projection columns (filterStack base filters) exprs))) =
        kept.map (fun predicate => ⟨predicate, some base.baseTables, some base.baseTables⟩) ++
          takenPlaces (entries ((splitFilters filters).map Prod.snd)) base := by
  have hsplit : splitPredicates (.projection columns (filterStack base filters) exprs) =
      .projection columns (filterStack base (splitFilters filters)) exprs := by
    rw [splitPredicates, split, split_splitFilter, splitChild_filterStack h.isFilter_eq,
      split_joinPlan h]
  have hpush : pushDown (.projection columns (filterStack base (splitFilters filters)) exprs) =
      .projection columns (pushDownFrom (filterStack base (splitFilters filters)) {}).1 exprs := rfl
  obtain ⟨-, kept, hplaces⟩ := pushDownFrom_filters h (splitFilters filters) {}
  refine ⟨kept, ?_⟩
  rw [hsplit, hpush, places, hplaces, enterFilters_filterPredicate, enterFilters_isConnected]
  rfl

/-! ## ReorderJoin -/

/-- The tables of two records side by side. -/
def beside (left right : Option (List Operator)) : Option (List Operator) := do
  return (← left) ++ (← right)

namespace JoinTree

/-- The base tables of a tree without null pointers. -/
def tables : JoinTree → Option (List Operator)
  | .null => none
  | .leaf plan => some plan.baseTables
  | .join _ left right _ => beside left.tables right.tables

/-- The places of the conditions of the joins of a tree. -/
def places : JoinTree → List Place
  | .null | .leaf _ => []
  | .join _ left right joinCondition =>
      left.places ++ right.places ++ [⟨joinCondition, left.tables, right.tables⟩]

end JoinTree

/-- Joins hung one above the other, the first of them above the tables `left`, and all with the
tables `right` on their right. -/
def hungPlaces (left right : Option (List Operator)) : List OperatorExpression → List Place
  | [] => []
  | condition :: conditions =>
      ⟨condition, left, right⟩ :: hungPlaces (beside left right) right conditions

section

variable {stats : Statistics} {graph : JoinGraph} {plan : Operator} {right tree tree' : JoinTree}
  {conditions : List OperatorExpression} {next : String} {s s' t : GreedyState} {place : Place}

theorem JoinGraph.places_node (graph : JoinGraph) (name : String) :
    (graph.node name).places = [] := by
  rw [node]
  cases graph.nodes.find? name <;> rfl

theorem Hung.places_eq (hright : right.places = []) (h : Hung right conditions tree tree') :
    tree'.places = tree.places ++ hungPlaces tree.tables right.tables conditions := by
  induction h with
  | nil => exact (List.append_nil _).symm
  | cons columnList _ ih =>
      rw [ih, JoinTree.places, hright, List.append_nil, List.append_assoc]
      rfl

theorem Chooses.places_eq (h : Chooses stats graph next s s') :
    s'.child0.places = s.child0.places ++
      hungPlaces s.child0.tables (graph.node next).tables (graph.completed s.rNow next) :=
  h.hung.places_eq (graph.places_node next)

/-- A round places the conditions that the table chosen completes. -/
def PlacedBy (stats : Statistics) (graph : JoinGraph) (plan : Operator) (place : Place) : Prop :=
  ∃ s next, Reached stats graph plan s ∧ s.pending ≠ [] ∧ nextTable stats s.rNow = .ok next ∧
    place ∈ hungPlaces s.child0.tables (graph.node next).tables (graph.completed s.rNow next)

theorem Reached.placedBy (h : Reached stats graph plan s) :
    ∀ place ∈ s.child0.places, PlacedBy stats graph plan place := by
  induction h with
  | refl =>
      intro place hplace
      rw [greedyStart, graph.places_node] at hplace
      cases hplace
  | tail hs hround ih =>
      intro place hplace
      obtain ⟨next, hchooses⟩ := greedyRound_eq_ok hround.step_eq
      rw [hchooses.places_eq] at hplace
      rcases List.mem_append.mp hplace with hplace | hplace
      · exact ih place hplace
      · have hpending := hround.not_done
        rw [List.isEmpty_eq_false_iff] at hpending
        exact ⟨_, next, hs, hpending, hchooses.next_eq, hplace⟩

theorem Reaches.places_subset
    (h : BoundedLoop.Reaches (·.pending.isEmpty) (greedyRound stats graph) s t) :
    s.child0.places ⊆ t.child0.places := by
  induction h with
  | refl => exact List.Subset.refl _
  | tail _ hround ih =>
      obtain ⟨next, hchooses⟩ := greedyRound_eq_ok hround.step_eq
      rw [hchooses.places_eq]
      exact fun place hplace => List.mem_append_left _ (ih hplace)

/-- The conditions in the tree returned were placed by the rounds. -/
theorem mem_places_iff (ht : Reached stats graph plan t) (hdone : t.pending = []) :
    place ∈ t.child0.places ↔ PlacedBy stats graph plan place := by
  constructor
  · exact ht.placedBy place
  · rintro ⟨s, next, hs, hpending, hnext, hplace⟩
    have hrest := hs.of_done ht (List.isEmpty_iff.mpr hdone)
    rcases hrest.cases_head with rfl | ⟨s', hround, hrest⟩
    · exact absurd hdone hpending
    · obtain ⟨next', hchooses⟩ := greedyRound_eq_ok hround.step_eq
      cases hnext.symm.trans hchooses.next_eq
      apply Reaches.places_subset hrest
      rw [hchooses.places_eq]
      exact List.mem_append_right _ hplace

end

/-! ## Moved predicates -/

section

variable {base : Operator} {filters : List (ColumnList × OperatorExpression)}

theorem PlannedOver.splitFilters {columns : ColumnList}
    (h : ∀ filter ∈ filters, PlannedOver columns filter.2) :
    ∀ predicate ∈ (splitFilters filters).map Prod.snd, PlannedOver columns predicate := by
  intro predicate hpredicate
  obtain ⟨entry, hentry, rfl⟩ := List.mem_map.mp hpredicate
  obtain ⟨filter, hfilter, hentry⟩ := List.mem_flatMap.mp hentry
  obtain ⟨conjunct, hconjunct, rfl⟩ := List.mem_map.mp hentry
  exact (h filter hfilter).conjuncts conjunct hconjunct

/-- Predicates of the WHERE clause keep their meaning where `PushDown` puts them exactly if the
tables they refer to start, in the record of the scan or of the left child of the join that
takes them, where they start in the record of FROM; and in the tree of `ReorderJoin`
exactly if they start there in the record of the tables joined before the round that places
them. -/
theorem movedPredicates_keep_iff (hbase : JoinPlan base)
    (hwhere : ∀ filter ∈ filters, PlannedOver base.outputColumns filter.2) (columns : ColumnList)
    (exprs : List OperatorExpression) :
    let plan := pushDown (splitPredicates (.projection columns (filterStack base filters) exprs))
    let predicates := (splitFilters filters).map Prod.snd
    ((∀ place ∈ places plan, place.predicate ∈ predicates → place.Keeps base.baseTables) ↔
      ∀ place ∈ takenPlaces (entries predicates) base,
        place.predicate ∈ predicates → place.StartsAlike base.baseTables) ∧
      ∀ (stats : Statistics) (graph : JoinGraph) (rounds : Nat) (tree : JoinTree),
        joinGraph (nestedLoopJoins plan) = .ok graph →
        reorderJoin stats plan rounds = .ok (some tree) →
          ((∀ place ∈ tree.places, place.predicate ∈ predicates →
              place.Keeps base.baseTables) ↔
            ∀ place, PlacedBy stats graph plan place → place.predicate ∈ predicates →
              place.StartsAlike base.baseTables) := by
  intro plan predicates
  have hkeeps : ∀ place : Place, place.predicate ∈ predicates →
      (place.Keeps base.baseTables ↔ place.StartsAlike base.baseTables) := by
    intro place hpredicate
    have hplanned := PlannedOver.splitFilters hwhere place.predicate hpredicate
    apply Place.keeps_iff
    intro ref href
    refine ⟨(hplanned ref href).1, ?_⟩
    rw [hbase.total_eq]
    exact hplanned.colIdx_lt ref href
  constructor
  · obtain ⟨kept, hplaces⟩ := places_pushDown hbase filters columns exprs
    rw [hplaces, List.forall_mem_append]
    constructor
    · rintro ⟨-, h⟩ place hplace hpredicate
      exact (hkeeps place hpredicate).mp (h place hplace hpredicate)
    · intro h
      constructor
      · intro place hplace hpredicate
        obtain ⟨predicate, -, rfl⟩ := List.mem_map.mp hplace
        exact (hkeeps _ hpredicate).mpr (Place.startsAlike_base predicate _)
      · intro place hplace hpredicate
        exact (hkeeps place hpredicate).mpr (h place hplace hpredicate)
  · intro stats graph rounds tree hg hrun
    obtain ⟨t, ht, hdone, rfl⟩ := reorderJoin_eq_some hg hrun
    apply forall_congr'
    intro place
    rw [mem_places_iff ht hdone]
    apply forall₂_congr
    intro _ hpredicate
    exact hkeeps place hpredicate

end

/-! ### SELECT from two tables -/

/-- The scans of two tables `r(a int)` and `s(b int)`. -/
def scanR : Operator := .seqScan [⟨"r.a", .int, 4⟩] 10001 "r" none
def scanS : Operator := .seqScan [⟨"s.b", .int, 4⟩] 10002 "s" none

def crossJoin : Operator :=
  .nestedLoopJoin [⟨"r.a", .int, 4⟩, ⟨"s.b", .int, 4⟩] scanR scanS (.const (.bool true))

/-- The plan of `select r.a from r, s where ...`. -/
def selectCross (predicate : OperatorExpression) : Operator :=
  .projection [⟨"r.a", .int, 4⟩]
    (filterStack crossJoin [(crossJoin.outputColumns, predicate)])
    [.columnValue 0 .int "r.a" 4 true]

theorem joinPlan_crossJoin : JoinPlan crossJoin :=
  .nestedLoop (.baseTable [⟨"r.a", .int, 4⟩] 10001 "r" none)
    (.baseTable [⟨"s.b", .int, 4⟩] 10002 "s" none) (.const (.bool true))

theorem splitPredicates_selectCross {predicate : OperatorExpression}
    (h : predicate.conjuncts = [predicate]) :
    splitPredicates (selectCross predicate) = selectCross predicate := by
  rw [splitPredicates, selectCross, split, split_splitFilter, splitChild_filterStack rfl,
    split_joinPlan joinPlan_crossJoin, splitFilters, List.flatMap_singleton, h]
  rfl

/-- `r.a = 1` -/
def firstIsOne : OperatorExpression :=
  .comparison .equal (.columnValue 0 .int "r.a" 4 true) (.const (.int 1))

/-- `r.a = s.b` -/
def tablesEqual : OperatorExpression :=
  .comparison .equal (.columnValue 0 .int "r.a" 4 true) (.columnValue 1 .int "s.b" 4 true)

/-- `where r.a = 1` is moved to the scan of the first table. -/
theorem movedPredicates_keep_firstTable :
    pushDown (splitPredicates (selectCross firstIsOne)) =
        .projection [⟨"r.a", .int, 4⟩]
          (.nestedLoopJoin crossJoin.outputColumns (.filter [⟨"r.a", .int, 4⟩] scanR firstIsOne)
            scanS (.const (.bool true)))
          [.columnValue 0 .int "r.a" 4 true] ∧
      ∀ place ∈ places (pushDown (splitPredicates (selectCross firstIsOne))),
        place.predicate ∈ [firstIsOne] → place.Keeps crossJoin.baseTables := by
  have hwhere : ∀ filter ∈ [(crossJoin.outputColumns, firstIsOne)],
      PlannedOver crossJoin.outputColumns filter.2 := by
    rw [List.forall_mem_singleton]
    intro ref href
    obtain rfl := List.mem_singleton.mp href
    exact ⟨rfl, .int, 4, rfl⟩
  have hsplit := @splitPredicates_selectCross firstIsOne rfl
  refine ⟨by rw [hsplit]; rfl, (movedPredicates_keep_iff joinPlan_crossJoin hwhere
    [⟨"r.a", .int, 4⟩] [.columnValue 0 .int "r.a" 4 true]).1.mpr ?_⟩
  have htaken : takenPlaces (entries ((splitFilters [(crossJoin.outputColumns, firstIsOne)]).map
      Prod.snd)) crossJoin = [⟨.const (.bool true), some [scanR], some [scanS]⟩,
        ⟨firstIsOne, some [scanR], some [scanR]⟩] := rfl
  rw [htaken, List.forall_mem_cons, List.forall_mem_singleton]
  constructor
  · intro hpredicate
    cases List.mem_singleton.mp hpredicate
  · intro _
    refine ⟨[scanR], [scanR], rfl, rfl, ?_⟩
    intro ref href table start hstart hle hlt
    obtain rfl := List.mem_singleton.mp href
    obtain rfl : start = 0 := Nat.le_zero.mp hle
    rw [Nat.zero_add] at hlt
    have hlocate : locate rowWidth crossJoin.baseTables 0 = some (table, 0) :=
      locate_eq_some_iff.mpr ⟨hlt, 0, hstart, rfl⟩
    cases hlocate
    exact ⟨[], [], rfl, rfl⟩

/-- The rows of `r` and `s`: one row each, with the value 1. -/
def twoTablesDb : Storage Unit :=
  .ofRows (fun _ _ => .ok false) (fun _ rows => .ok rows) fun _ => [{ values := [.int 1] }]

/-- `where r.a = s.b` becomes the condition of the join, and looks for `s.b` in the rows of
`r`. -/
theorem movedPredicates_equalTables :
    (∃ place ∈ places (pushDown (splitPredicates (selectCross tablesEqual))),
      place.predicate = tablesEqual ∧ ¬ place.Keeps crossJoin.baseTables) ∧
    execute twoTablesDb (selectCross tablesEqual) 2 () = ⟨[{ values := [.int 1] }], none, ()⟩ ∧
    execute twoTablesDb (pushDown (splitPredicates (selectCross tablesEqual))) 2 () =
      ⟨[], some (.expression (.db "Column index out of range")), ()⟩ := by
  have hplan : pushDown (splitPredicates (selectCross tablesEqual)) =
      .projection [⟨"r.a", .int, 4⟩]
        (.nestedLoopJoin [⟨"r.a", .int, 4⟩, ⟨"s.b", .int, 4⟩] scanR scanS tablesEqual)
        [.columnValue 0 .int "r.a" 4 true] := by
    rw [splitPredicates_selectCross rfl]
    rfl
  rw [hplan]
  refine ⟨⟨⟨tablesEqual, some [scanR], some [scanS]⟩, List.mem_cons_self, rfl, ?_⟩, rfl, rfl⟩
  rintro ⟨left, right, hleft, -, hrefs⟩
  cases hleft
  have hread := (hrefs ⟨1, "s.b", true⟩ (List.mem_cons_of_mem _ (List.mem_singleton_self _))).2
    ⟨fun table => List.replicate (rowWidth table) .null, fun table => List.length_replicate⟩
  cases hread

end Optimizer

end HuaDB
