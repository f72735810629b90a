import HuaDB.Optimizer.SplitPredicates

/-!
`Optimizer::PushDown` of `optimizer/optimizer.cpp`: predicates of filters are moved to
joins and scans.

The members `filter_predicate`, `is_connected` and `success` are the state of the pass.
The first has one entry for every comparison met, the second one for every filter, so
the two are not aligned once a filter is not a comparison; a loop over the first with
the entries of the second at the same places is a loop over their zip.
-/

namespace HuaDB

open Volcano

namespace OperatorExpression

/-- `GetExprType() == OperatorExpressionType::COMPARISON`. -/
def isComparison : OperatorExpression → Bool
  | .comparison .. => true
  | _ => false

/-- A comparison of two columns. -/
def connects : OperatorExpression → Bool
  | .comparison _ left right => left.isColumnValue && right.isColumnValue
  | _ => false

/-- `children_[0]->ToString()` and `children_[1]->ToString()` of a comparison. -/
def names : OperatorExpression → String × String
  | .comparison _ left right => (left.toString, right.toString)
  | _ => ("", "")

end OperatorExpression

/-- What stands before the first dot of a name, if there is one. -/
def tableOf? (name : String) : Option String :=
  if '.' ∈ name.toList then some (String.ofList (name.toList.takeWhile (· ≠ '.'))) else none

namespace Optimizer

/-- The members of `Optimizer` that `PushDown` uses. -/
structure PushDownState where
  filterPredicate : List OperatorExpression := []
  isConnected : List Bool := []
  success : Bool := false
deriving Repr

/-- Without a dot, the name of the table stays empty. -/
def pushesToScan (scanName : String) (entry : OperatorExpression × Bool) : Bool :=
  !entry.2 && (tableOf? entry.1.names.1).getD "" = scanName

def pushDownSeqScan (columnList : ColumnList) (oid : Nat) (tableName : String)
    (tableAlias : Option String) : StateM PushDownState Operator := do
  let s ← get
  let scan := Operator.seqScan columnList oid tableName tableAlias
  match (s.filterPredicate.zip s.isConnected).find?
      (pushesToScan (Operator.tableNameOrAlias tableName tableAlias)) with
  | none => return scan
  | some (predicate, _) =>
      set { s with success := true }
      return .filter columnList scan predicate

def pushesToJoin (columnList : ColumnList) (entry : OperatorExpression × Bool) : Bool :=
  entry.2 && (columnList.map ColumnDefinition.name).contains entry.1.names.1
    && (columnList.map ColumnDefinition.name).contains entry.1.names.2

def pushDownJoin (columnList : ColumnList) (left right : StateM PushDownState Operator)
    (joinCondition : OperatorExpression) : StateM PushDownState Operator := do
  let s ← get
  let joinCondition ←
    match (s.filterPredicate.zip s.isConnected).find? (pushesToJoin columnList) with
    | none => pure joinCondition
    | some (predicate, _) => do
        set { s with success := true }
        pure predicate
  let left ← left
  let right ← right
  return .nestedLoopJoin columnList left right joinCondition

/-- The members as `PushDownFilter` leaves them for its child. -/
def enterFilter (predicate : OperatorExpression) (s : PushDownState) : PushDownState where
  filterPredicate :=
    if predicate.isComparison then s.filterPredicate ++ [predicate] else s.filterPredicate
  isConnected := s.isConnected ++ [predicate.connects]
  success := false

def pushDownFilter (columnList : ColumnList) (child : StateM PushDownState Operator)
    (predicate : OperatorExpression) : StateM PushDownState Operator := do
  modify (enterFilter predicate)
  let child ← child
  if (← get).success then return child else return .filter columnList child predicate

def pushDownProjection (columnList : ColumnList) (child : StateM PushDownState Operator)
    (exprs : List OperatorExpression) : StateM PushDownState Operator := do
  return .projection columnList (← child) exprs

def pushDownFrom : Operator → StateM PushDownState Operator
  | .filter columnList child predicate =>
      pushDownFilter columnList (pushDownFrom child) predicate
  | .projection columnList child exprs => pushDownProjection columnList (pushDownFrom child) exprs
  | .nestedLoopJoin columnList left right joinCondition =>
      pushDownJoin columnList (pushDownFrom left) (pushDownFrom right) joinCondition
  | .seqScan columnList oid tableName tableAlias =>
      pushDownSeqScan columnList oid tableName tableAlias
  | plan => return plan.mapChildren splitPredicates

theorem pushDownSeqScan_apply (columnList : ColumnList) (oid : Nat) (tableName : String)
    (tableAlias : Option String) (s : PushDownState) :
    pushDownSeqScan columnList oid tableName tableAlias s =
      match (s.filterPredicate.zip s.isConnected).find?
          (pushesToScan (Operator.tableNameOrAlias tableName tableAlias)) with
      | none => (.seqScan columnList oid tableName tableAlias, s)
      | some (predicate, _) =>
          (.filter columnList (.seqScan columnList oid tableName tableAlias) predicate,
            { s with success := true }) := by
  change (match (s.filterPredicate.zip s.isConnected).find?
      (pushesToScan (Operator.tableNameOrAlias tableName tableAlias)) with
    | none => pure (.seqScan columnList oid tableName tableAlias)
    | some (predicate, _) => do
        set { s with success := true }
        pure (.filter columnList (.seqScan columnList oid tableName tableAlias) predicate) :
      StateM PushDownState Operator) s = _
  cases (s.filterPredicate.zip s.isConnected).find?
      (pushesToScan (Operator.tableNameOrAlias tableName tableAlias)) <;> rfl

theorem pushDownFilter_apply (columnList : ColumnList) (child : StateM PushDownState Operator)
    (predicate : OperatorExpression) (s : PushDownState) :
    pushDownFilter columnList child predicate s =
      let out := child (enterFilter predicate s)
      if out.2.success then out else (.filter columnList out.1 predicate, out.2) := by
  change (let out := child (enterFilter predicate s)
    (if out.2.success then pure out.1 else pure (.filter columnList out.1 predicate) :
      StateM PushDownState Operator) out.2) = _
  dsimp only
  split <;> rfl

/-- `PushDown`, by the optimizer of one statement. -/
def pushDown (plan : Operator) : Operator := (pushDownFrom plan {}).1

/-! ## Filters over a scan -/

end Optimizer

/-- The conjuncts that splitting makes filters of, from the top filter down. -/
def OperatorExpression.conjuncts : OperatorExpression → List OperatorExpression
  | .logic .and left right => right :: left.conjuncts
  | predicate => [predicate]

/-- A stack of filters, from the top one down. -/
def filterStack (base : Operator) : List (ColumnList × OperatorExpression) → Operator
  | [] => base
  | (columnList, predicate) :: filters => .filter columnList (filterStack base filters) predicate

/-- The filters of a stack, their conjunctions split. -/
def splitFilters (filters : List (ColumnList × OperatorExpression)) :
    List (ColumnList × OperatorExpression) :=
  filters.flatMap fun filter => filter.2.conjuncts.map (filter.1, ·)

namespace Optimizer

theorem splitChild_filterStack {base : Operator} (hbase : base.isFilter = false)
    (filters : List (ColumnList × OperatorExpression)) :
    splitChild (filterStack base filters) = filterStack (split base) (splitFilters filters) := by
  induction filters with
  | nil => exact splitChild_of_not_filter hbase
  | cons filter filters ih =>
      rcases filter with ⟨columnList, predicate⟩
      have hsplit : splitFilters ((columnList, predicate) :: filters)
          = predicate.conjuncts.map (columnList, ·) ++ splitFilters filters := rfl
      rw [hsplit]
      clear hsplit
      fun_induction OperatorExpression.conjuncts predicate with
      | case1 left right ihl =>
          rw [filterStack, splitChild_and]
          rw [filterStack] at ihl
          rw [ihl]
          rfl
      | case2 predicate h =>
          have hand := OperatorExpression.isAnd_eq_false h
          rw [filterStack, splitChild_filter _ _ hand, ih]
          rfl

/-- The members after the filters of a stack. -/
def enterFilters (predicates : List OperatorExpression) (s : PushDownState) : PushDownState :=
  predicates.foldl (fun s predicate => enterFilter predicate s) s

theorem enterFilters_cons (predicate : OperatorExpression) (predicates : List OperatorExpression)
    (s : PushDownState) :
    enterFilters (predicate :: predicates) s = enterFilters predicates (enterFilter predicate s) :=
  rfl

theorem enterFilters_success (predicates : List OperatorExpression) :
    ∀ {s : PushDownState}, s.success = false → (enterFilters predicates s).success = false := by
  induction predicates with
  | nil => exact id
  | cons predicate predicates ih => exact fun _ => ih rfl

theorem enterFilters_filterPredicate (predicates : List OperatorExpression) (s : PushDownState) :
    (enterFilters predicates s).filterPredicate
      = s.filterPredicate ++ predicates.filter OperatorExpression.isComparison := by
  induction predicates generalizing s with
  | nil => exact (List.append_nil _).symm
  | cons predicate predicates ih =>
      rw [enterFilters_cons, ih, enterFilter, List.filter_cons]
      split <;> simp

theorem enterFilters_isConnected (predicates : List OperatorExpression) (s : PushDownState) :
    (enterFilters predicates s).isConnected
      = s.isConnected ++ predicates.map OperatorExpression.connects := by
  induction predicates generalizing s with
  | nil => exact (List.append_nil _).symm
  | cons predicate predicates ih =>
      rw [enterFilters_cons, ih, enterFilter]
      simp

/-- The entries of the two vectors after the filters of a stack. -/
def entries (predicates : List OperatorExpression) : List (OperatorExpression × Bool) :=
  (predicates.filter OperatorExpression.isComparison).zip
    (predicates.map OperatorExpression.connects)

/-- The comparison that a scan below the filters of a stack takes. -/
def pushedToScan (scanName : String) (predicates : List OperatorExpression) :
    Option OperatorExpression :=
  ((entries predicates).find? (pushesToScan scanName)).map Prod.fst

section Scan

variable (columnList : ColumnList) (oid : Nat) (tableName : String) (tableAlias : Option String)

/-- A scan that takes a predicate takes the place of all the filters above it. -/
theorem pushDownFrom_filterStack (filters : List (ColumnList × OperatorExpression)) :
    ∀ s, pushDownFrom (filterStack (.seqScan columnList oid tableName tableAlias) filters) s =
      let s' := enterFilters (filters.map Prod.snd) s
      match (s'.filterPredicate.zip s'.isConnected).find?
          (pushesToScan (Operator.tableNameOrAlias tableName tableAlias)) with
      | none => (filterStack (.seqScan columnList oid tableName tableAlias) filters, s')
      | some (predicate, _) =>
          (.filter columnList (.seqScan columnList oid tableName tableAlias) predicate,
            { s' with success := true }) := by
  induction filters with
  | nil =>
      intro s
      exact pushDownSeqScan_apply columnList oid tableName tableAlias s
  | cons filter filters ih =>
      intro s
      rcases filter with ⟨columns, predicate⟩
      rw [filterStack, pushDownFrom, pushDownFilter_apply, ih, List.map_cons, enterFilters_cons]
      have hsuccess := @enterFilters_success (filters.map Prod.snd) (enterFilter predicate s) rfl
      dsimp only
      cases hfind : ((enterFilters (filters.map Prod.snd)
          (enterFilter predicate s)).filterPredicate.zip (enterFilters (filters.map Prod.snd)
          (enterFilter predicate s)).isConnected).find?
          (pushesToScan (Operator.tableNameOrAlias tableName tableAlias)) with
      | none =>
          dsimp only
          rw [hsuccess]
          rfl
      | some entry => rfl

end Scan

/-! ## The rows of a stack of filters -/

section Rows

variable (regexMatch : RegexMatch)

/-- The tests of a stack of filters on a row, from the lowest filter up. -/
def acceptsAll : List OperatorExpression → ExecRecord → Except Stop Bool
  | [], _ => .ok true
  | predicate :: predicates, row =>
      match acceptsAll predicates row with
      | .ok true => accepts regexMatch predicate row
      | other => other

/-- The row passes every predicate. -/
def Passes (predicates : List OperatorExpression) (row : ExecRecord) : Prop :=
  ∀ predicate ∈ predicates, accepts regexMatch predicate row = .ok true

instance (row : ExecRecord) (predicates : List OperatorExpression) :
    Decidable (Passes regexMatch predicates row) :=
  inferInstanceAs (Decidable (∀ _ ∈ _, _))

variable {regexMatch}

theorem acceptsAll_eq_true_iff (predicates : List OperatorExpression) (row : ExecRecord) :
    acceptsAll regexMatch predicates row = .ok true ↔ Passes regexMatch predicates row := by
  induction predicates with
  | nil => simp [acceptsAll, Passes]
  | cons predicate predicates ih =>
      rw [Passes, List.forall_mem_cons, acceptsAll]
      cases hrest : acceptsAll regexMatch predicates row with
      | error e =>
          have hfalse : ¬ Passes regexMatch predicates row := fun h => by
            rw [← ih, hrest] at h
            cases h
          exact iff_of_false (by simp) fun h => hfalse h.2
      | ok b =>
          cases b with
          | false =>
              have hfalse : ¬ Passes regexMatch predicates row := fun h => by
                rw [← ih, hrest] at h
                cases h
              exact iff_of_false (by simp) fun h => hfalse h.2
          | true => exact ⟨fun h => ⟨h, ih.mp hrest⟩, And.left⟩

/-- On a row on which the tests do not throw, they decide whether it passes. -/
theorem acceptsAll_eq_decide {predicates : List OperatorExpression} {row : ExecRecord}
    (h : ∃ b, acceptsAll regexMatch predicates row = .ok b) :
    acceptsAll regexMatch predicates row = .ok (decide (Passes regexMatch predicates row)) := by
  rcases h with ⟨b, hb⟩
  have hiff := @acceptsAll_eq_true_iff regexMatch predicates row
  rw [hb] at hiff ⊢
  cases b with
  | true => rw [decide_eq_true (hiff.mp rfl)]
  | false => rw [decide_eq_false fun h => by cases hiff.mpr h]

theorem accepts_and (left right : OperatorExpression) (row : ExecRecord) :
    accepts regexMatch (.logic .and left right) row = .ok true ↔
      accepts regexMatch left row = .ok true ∧ accepts regexMatch right row = .ok true := by
  rw [accepts_eq, accepts_eq left, accepts_eq right, evaluate_and]
  cases left.evaluate regexMatch row.values with
  | error e => simp
  | ok lhs =>
      cases right.evaluate regexMatch row.values with
      | error e => simp
      | ok rhs =>
          cases lhs with
          | bool b => cases rhs <;> cases b <;> simp [Logic.compute, Value.isNull, Value.getType,
              Value.getBool, Logic.doOperation, bind, Except.bind, pure, Except.pure]
          | _ => cases rhs <;> simp [Logic.compute, Value.isNull, Value.getType]

theorem passes_conjuncts (predicate : OperatorExpression) (row : ExecRecord) :
    Passes regexMatch predicate.conjuncts row ↔ accepts regexMatch predicate row = .ok true := by
  fun_induction OperatorExpression.conjuncts predicate with
  | case1 left right ih =>
      rw [accepts_and, Passes, List.forall_mem_cons]
      exact and_comm.trans (and_congr_left fun _ => ih)
  | case2 predicate _ => simp [Passes]

theorem passes_splitFilters (filters : List (ColumnList × OperatorExpression)) (row : ExecRecord) :
    Passes regexMatch ((splitFilters filters).map Prod.snd) row ↔
      Passes regexMatch (filters.map Prod.snd) row := by
  induction filters with
  | nil => rfl
  | cons filter filters ih =>
      have hsplit : (splitFilters (filter :: filters)).map Prod.snd
          = filter.2.conjuncts ++ (splitFilters filters).map Prod.snd := by
        simp [splitFilters, Function.comp_def]
      rw [hsplit, Passes, List.forall_mem_append, List.map_cons, Passes, List.forall_mem_cons]
      exact and_congr (passes_conjuncts filter.2 row) ih

/-! ### Their executor -/

variable (regexMatch)
variable (sort : (ExecRecord → ExecRecord → Except EvalError Bool) → List ExecRecord →
  Except EvalError (List ExecRecord)) (table : Nat → List ExecRecord)
  (columnList : ColumnList) (oid : Nat) (tableName : String) (tableAlias : Option String)

theorem scanIter_yields (fuel : Nat) (rows : List ExecRecord) :
    (scanIter (.ofRows regexMatch sort table) oid).Yields fuel () rows rows := by
  induction rows with
  | nil => exact ⟨[], rfl⟩
  | cons row rows ih => exact ⟨rows, rfl, ih⟩

/-- Filters over a scan give the rows that pass them. -/
theorem executor_filterStack_yields {fuel : Nat} (hfuel : (table oid).length < fuel)
    (filters : List (ColumnList × OperatorExpression)) :
    (∀ row ∈ table oid, ∃ b, acceptsAll regexMatch (filters.map Prod.snd) row = .ok b) →
    ∃ s, (executor (.ofRows regexMatch sort table) (accepts regexMatch)
        (filterStack (.seqScan columnList oid tableName tableAlias) filters)).init () = .ok s () ∧
      (executor (.ofRows regexMatch sort table) (accepts regexMatch)
        (filterStack (.seqScan columnList oid tableName tableAlias) filters)).Yields fuel () s
        ((table oid).filter (Passes regexMatch (filters.map Prod.snd))) := by
  induction filters with
  | nil =>
      intro _
      refine ⟨table oid, rfl, ?_⟩
      rw [List.filter_eq_self.mpr fun _ _ => by simp [Passes]]
      exact scanIter_yields regexMatch sort table oid fuel (table oid)
  | cons filter filters ih =>
      intro hquiet
      have hbelow : ∀ row ∈ table oid,
          ∃ b, acceptsAll regexMatch (filters.map Prod.snd) row = .ok b := by
        intro row hrow
        rcases hquiet row hrow with ⟨b, hb⟩
        rw [List.map_cons, acceptsAll] at hb
        split at hb
        · exact ⟨true, ‹_›⟩
        · exact ⟨b, hb⟩
      rcases ih hbelow with ⟨s, hinit, hyields⟩
      refine ⟨s, hinit, ?_⟩
      have hdecide : ∀ row ∈ (table oid).filter (Passes regexMatch (filters.map Prod.snd)),
          accepts regexMatch filter.2 row
            = .ok (decide (Passes regexMatch ((filter :: filters).map Prod.snd) row)) := by
        intro row hrow
        rw [List.mem_filter, decide_eq_true_iff] at hrow
        rw [← acceptsAll_eq_decide (hquiet row hrow.1), List.map_cons, acceptsAll,
          (acceptsAll_eq_true_iff _ row).mpr hrow.2]
      have hlength := (List.length_filter_le
        (fun row => decide (Passes regexMatch (filters.map Prod.snd) row)) (table oid))
      have hfilter := hyields.filter .divergence hdecide (by omega)
      rw [List.filter_filter] at hfilter
      have hpasses : (table oid).filter (fun row =>
          decide (Passes regexMatch ((filter :: filters).map Prod.snd) row) &&
            decide (Passes regexMatch (filters.map Prod.snd) row))
          = (table oid).filter (Passes regexMatch ((filter :: filters).map Prod.snd)) := by
        apply List.filter_congr
        intro row _
        rw [← Bool.decide_and, decide_eq_decide]
        exact ⟨And.left, fun h => ⟨h, fun p hp => h p (List.mem_cons_of_mem _ hp)⟩⟩
      rw [hpasses] at hfilter
      exact hfilter

/-- The values of a projection on a row. -/
def project (exprs : List OperatorExpression) (row : ExecRecord) : Except Stop ExecRecord :=
  match OperatorExpression.evaluateAll regexMatch row.values exprs with
  | .ok values => .ok { row with values := values }
  | .error e => .error (.expression e)

/-- The run of a SELECT from one table. -/
theorem execute_select {fuel : Nat} (hfuel : (table oid).length < fuel)
    (filters : List (ColumnList × OperatorExpression)) (columns : ColumnList)
    (exprs : List OperatorExpression)
    (hquiet : ∀ row ∈ table oid, ∃ b, acceptsAll regexMatch (filters.map Prod.snd) row = .ok b) :
    execute (.ofRows regexMatch sort table) (.projection columns
        (filterStack (.seqScan columnList oid tableName tableAlias) filters) exprs) fuel ()
      = let out := Iter.untilError (project regexMatch exprs)
          ((table oid).filter (Passes regexMatch (filters.map Prod.snd)))
        ⟨out.1, out.2, ()⟩ := by
  rcases executor_filterStack_yields regexMatch sort table columnList oid tableName tableAlias
    hfuel filters hquiet with ⟨s, hinit, hyields⟩
  have hlength := (List.length_filter_le
    (fun row => decide (Passes regexMatch (filters.map Prod.snd) row)) (table oid))
  have hopen : (executor (.ofRows regexMatch sort table) (accepts regexMatch)
      (.projection columns (filterStack (.seqScan columnList oid tableName tableAlias) filters)
        exprs)).init () = .ok s () := hinit
  refine (Iter.run_of_init hopen).trans
    (hyields.pull_map (fun row => ?_) (Nat.lt_of_le_of_lt hlength hfuel))
  simp only [project, Storage.ofRows]
  cases OperatorExpression.evaluateAll regexMatch row.values exprs <;> rfl

/-! ## SELECT from one table -/

/-- What the filters over a scan become: the one predicate that the scan takes, or all of
them with their conjunctions split. -/
def pushedFilters (filters : List (ColumnList × OperatorExpression)) :
    List (ColumnList × OperatorExpression) :=
  match pushedToScan (Operator.tableNameOrAlias tableName tableAlias)
      ((splitFilters filters).map Prod.snd) with
  | some predicate => [(columnList, predicate)]
  | none => splitFilters filters

theorem pushDown_select (filters : List (ColumnList × OperatorExpression)) (columns : ColumnList)
    (exprs : List OperatorExpression) :
    pushDown (splitPredicates (.projection columns
        (filterStack (.seqScan columnList oid tableName tableAlias) filters) exprs))
      = .projection columns (filterStack (.seqScan columnList oid tableName tableAlias)
          (pushedFilters columnList tableName tableAlias filters)) exprs := by
  have hsplit : splitPredicates (.projection columns
      (filterStack (.seqScan columnList oid tableName tableAlias) filters) exprs)
      = .projection columns (filterStack (.seqScan columnList oid tableName tableAlias)
          (splitFilters filters)) exprs := by
    rw [splitPredicates, split, split_splitFilter, splitChild_filterStack rfl, split]
  rw [hsplit, pushDown, pushDownFrom]
  change Operator.projection columns (pushDownFrom (filterStack
    (.seqScan columnList oid tableName tableAlias) (splitFilters filters)) {}).1 exprs = _
  rw [pushDownFrom_filterStack, pushedFilters, pushedToScan, entries]
  simp only [enterFilters_filterPredicate, enterFilters_isConnected, List.nil_append]
  cases (((splitFilters filters).map Prod.snd).filter OperatorExpression.isComparison |>.zip
      (((splitFilters filters).map Prod.snd).map OperatorExpression.connects)).find?
      (pushesToScan (Operator.tableNameOrAlias tableName tableAlias)) with
  | none => rfl
  | some entry => rfl

variable {regexMatch sort table columnList oid tableName tableAlias}

/-- Every row on which the predicate taken by the scan is true passes all filters. -/
def LosesNothing (regexMatch : RegexMatch) (scanName : String) (rows : List ExecRecord)
    (filters : List (ColumnList × OperatorExpression)) : Prop :=
  ∀ predicate, pushedToScan scanName ((splitFilters filters).map Prod.snd) = some predicate →
    ∀ row ∈ rows, accepts regexMatch predicate row = .ok true →
      Passes regexMatch (filters.map Prod.snd) row

theorem pushedToScan_mem {scanName : String} {predicates : List OperatorExpression}
    {predicate : OperatorExpression} (h : pushedToScan scanName predicates = some predicate) :
    predicate ∈ predicates := by
  rw [pushedToScan, Option.map_eq_some_iff] at h
  rcases h with ⟨entry, hfind, rfl⟩
  exact List.mem_of_mem_filter (List.of_mem_zip (List.mem_of_find?_eq_some hfind)).1

/-- What passes the filters passes what they become, and the converse is what it takes to
lose nothing. -/
theorem passes_pushedFilters {filters : List (ColumnList × OperatorExpression)} {row : ExecRecord}
    (h : Passes regexMatch (filters.map Prod.snd) row) :
    Passes regexMatch ((pushedFilters columnList tableName tableAlias filters).map Prod.snd) row := by
  rw [pushedFilters]
  split
  · rename_i predicate hpushed
    rw [List.map_singleton, Passes, List.forall_mem_singleton]
    exact (passes_splitFilters filters row).mpr h _ (pushedToScan_mem hpushed)
  · exact (passes_splitFilters filters row).mpr h

theorem losesNothing_iff {rows : List ExecRecord}
    {filters : List (ColumnList × OperatorExpression)} :
    LosesNothing regexMatch (Operator.tableNameOrAlias tableName tableAlias) rows filters ↔
      ∀ row ∈ rows, Passes regexMatch
        ((pushedFilters columnList tableName tableAlias filters).map Prod.snd) row →
        Passes regexMatch (filters.map Prod.snd) row := by
  rw [LosesNothing, pushedFilters]
  split
  · rename_i predicate hpushed
    rw [hpushed]
    simp [Passes]
  · rename_i hpushed
    rw [hpushed]
    refine iff_of_true (fun _ h => by cases h) fun row _ h => (passes_splitFilters filters row).mp h

/-- A longer filter of a list that is no longer keeps the same elements. -/
theorem filter_eq_of_length_eq {α : Type} {p q : α → Bool} {l : List α}
    (hpq : ∀ a ∈ l, p a → q a) (h : (l.filter p).length = (l.filter q).length) :
    ∀ a ∈ l, q a → p a := by
  have hsub : l.filter p = (l.filter q).filter p := by
    rw [List.filter_filter]
    apply List.filter_congr
    intro a ha
    cases hp : p a with
    | false => rfl
    | true => exact (hpq a ha hp).symm
  rw [hsub, List.length_filter_eq_length_iff] at h
  exact fun a ha hq => h a (List.mem_filter.mpr ⟨ha, hq⟩)

/-- Push-down returns the rows of a SELECT from one table exactly if the rows on which the
predicate that the scan takes is true pass all filters, on every table content on which
the tests of neither plan throw. The converse is for projections that do not throw. -/
theorem execute_pushDown_iff {fuel : Nat} (filters : List (ColumnList × OperatorExpression))
    (columns : ColumnList) (exprs : List OperatorExpression)
    (hfuel : (table oid).length < fuel)
    (hplan : ∀ row ∈ table oid, ∃ b, acceptsAll regexMatch (filters.map Prod.snd) row = .ok b)
    (hpushed : ∀ row ∈ table oid, ∃ b, acceptsAll regexMatch
      ((pushedFilters columnList tableName tableAlias filters).map Prod.snd) row = .ok b) :
    let plan := .projection columns
      (filterStack (.seqScan columnList oid tableName tableAlias) filters) exprs
    let db := Storage.ofRows regexMatch sort table
    let keeps := LosesNothing regexMatch (Operator.tableNameOrAlias tableName tableAlias)
      (table oid) filters
    (keeps → execute db (pushDown (splitPredicates plan)) fuel () = execute db plan fuel ()) ∧
      ((∀ row ∈ table oid,
          ∃ values, OperatorExpression.evaluateAll regexMatch row.values exprs = .ok values) →
        execute db (pushDown (splitPredicates plan)) fuel () = execute db plan fuel () →
        keeps) := by
  intro plan db keeps
  rw [pushDown_select, execute_select regexMatch sort table columnList oid tableName tableAlias
    hfuel filters columns exprs hplan, execute_select regexMatch sort table columnList oid
    tableName tableAlias hfuel _ columns exprs hpushed]
  constructor
  · intro hkeeps
    have hrows : (table oid).filter (Passes regexMatch
        ((pushedFilters columnList tableName tableAlias filters).map Prod.snd))
        = (table oid).filter (Passes regexMatch (filters.map Prod.snd)) := by
      apply List.filter_congr
      intro row hrow
      rw [decide_eq_decide]
      exact ⟨losesNothing_iff.mp hkeeps row hrow, passes_pushedFilters⟩
    rw [hrows]
  · intro hexprs heq
    have hproject : ∀ row ∈ table oid, project regexMatch exprs row
        = .ok { row with
            values := ((OperatorExpression.evaluateAll regexMatch row.values exprs).toOption).getD [] } := by
      intro row hrow
      rcases hexprs row hrow with ⟨values, hvalues⟩
      rw [project, hvalues]
      rfl
    rw [Iter.untilError_of_ok fun row hrow => hproject row (List.mem_of_mem_filter hrow),
      Iter.untilError_of_ok fun row hrow => hproject row (List.mem_of_mem_filter hrow)] at heq
    have hlength := congrArg (fun run : Run Stop Unit ExecRecord => run.records.length) heq
    simp only [List.length_map] at hlength
    apply losesNothing_iff.mpr
    intro row hrow hpasses
    have := filter_eq_of_length_eq (fun row _ h => by
      rw [decide_eq_true_iff] at h ⊢
      exact passes_pushedFilters h) hlength.symm row hrow (decide_eq_true hpasses)
    exact of_decide_eq_true this

end Rows

/-- `where t.a > 0`, on the row `(1, NULL, 0)`: the one filter is moved to the scan. -/
theorem execute_pushDown_onePredicate :
    execute oneRowDb (pushDown (splitPredicates (selectWhere
        (.comparison .greater (columnOfT 0 "t.a") (.const (.int 0)))))) 2 ()
      = execute oneRowDb (selectWhere
        (.comparison .greater (columnOfT 0 "t.a") (.const (.int 0)))) 2 () :=
  (execute_pushDown_iff [([⟨"t.a", .int, 4⟩, ⟨"t.b", .int, 4⟩, ⟨"t.c", .int, 4⟩],
      .comparison .greater (columnOfT 0 "t.a") (.const (.int 0)))]
    [⟨"t.a", .int, 4⟩] [columnOfT 0 "t.a"] (by decide)
    (List.forall_mem_singleton.mpr ⟨true, rfl⟩) (List.forall_mem_singleton.mpr ⟨true, rfl⟩)).1
    fun predicate hpredicate => by
      cases hpredicate
      exact List.forall_mem_singleton.mpr fun _ => List.forall_mem_singleton.mpr rfl

/-- `where t.b > 0 and t.a > 0` on the row `(1, NULL, 0)`: no row is to be found, but only
`t.a > 0` is left of the conjunction. -/
theorem execute_pushDown_twoPredicates :
    execute oneRowDb (selectWhere (.logic .and
        (.comparison .greater (columnOfT 1 "t.b") (.const (.int 0)))
        (.comparison .greater (columnOfT 0 "t.a") (.const (.int 0))))) 2 ()
      = ⟨[], none, ()⟩ ∧
    execute oneRowDb (pushDown (splitPredicates (selectWhere (.logic .and
        (.comparison .greater (columnOfT 1 "t.b") (.const (.int 0)))
        (.comparison .greater (columnOfT 0 "t.a") (.const (.int 0))))))) 2 ()
      = ⟨[{ values := [.int 1] }], none, ()⟩ := by
  constructor
  · rfl
  · rw [splitPredicates, selectWhere, split, split_splitFilter, splitChild_and,
      splitChild_filter _ _ rfl, splitChild_of_not_filter rfl, split]
    rfl

end Optimizer

end HuaDB
