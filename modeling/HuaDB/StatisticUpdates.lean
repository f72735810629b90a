import HuaDB.Statistics

/-!
What `SetCardinality` and `SetDistinct` do to the system tables and to the maps.

A scan that finds its row at most once rewrites that row (`updateRows_eq`), so that the two run as
`Catalog.putCardinality` and `Catalog.putDistinct` say, or fail without a change.
-/

namespace HuaDB.Statistics

/-! ## How lookups of the system tables end -/

theorem getTable_ends {β : Type} {σ : Catalog} {ok : β → Catalog → Prop}
    {error : DbError → Catalog → Prop} {oid : Nat} {f : Unit → CatalogM β}
    (herror : ∀ e, oid ∉ σ.oid2table → error e σ)
    (hok : oid ∈ σ.oid2table → EStateM.Ends σ (f ()) ok error) :
    EStateM.Ends σ (getTable oid >>= f) ok error := by
  unfold getTable
  rw [bind_assoc]
  exact .get_bind (.throwIf_bind (fun h => herror _ h) fun h => hok (not_not.mp h))

theorem checkRecordSize_ends {β : Type} {σ : Catalog} {ok : β → Catalog → Prop}
    {error : DbError → Catalog → Prop} {size : Nat} {f : Unit → CatalogM β}
    (herror : ∀ e, error e σ) (hok : EStateM.Ends σ (f ()) ok error) :
    EStateM.Ends σ (checkRecordSize size >>= f) ok error :=
  .throwIf_bind (fun _ => herror _) fun _ => hok

/-! ## The keys of the rows -/

/-- The cardinality of a table in `huadb_table`. -/
def storedCardinality (dbOid : Nat) (tableName : String) (rows : List TableRow) : Option Nat :=
  (rows.find? fun row => row.IsOf dbOid tableName).map (·.cardinality)

/-- The value of a column in `huadb_statistic`. -/
def storedDistinct (dbOid : Nat) (tableName columnName : String) (rows : List StatisticRow) :
    Option Nat :=
  (rows.find? fun row => row.IsOf dbOid tableName columnName).map (·.nDistinct)

def TableRow.key (row : TableRow) : Nat × String := (row.dbOid, row.tableName)

def StatisticRow.key (row : StatisticRow) : Nat × String × String :=
  (row.dbOid, row.tableName, row.columnName)

/-- The rows of one key are found once. -/
theorem pairwise_of_nodup_key {α κ : Type} {key : α → κ} {rows : List α}
    (nd : (rows.map key).Nodup) (here : α → Bool) (k : κ)
    (h : ∀ row, here row = true → key row = k) :
    rows.Pairwise fun a b => ¬ (here a = true ∧ here b = true) :=
  (List.pairwise_map.mp nd).imp fun hne hboth => hne ((h _ hboth.1).trans (h _ hboth.2).symm)

theorem columnKey_inj {columnName' : String} (h : columnKey tableName columnName =
    columnKey tableName columnName') : columnName = columnName' := by
  simpa [columnKey, String.append_assoc] using h

/-! ## The scan of the setters -/

section Update

variable {α : Type} {here : α → Bool} {update : α → α} {store : List α → Catalog → Catalog}
  {message : String}

/-- Where no row, or no second row, is the one looked for, the scan rewrites it or leaves
everything as it is. -/
theorem updateRows_eq {rows : List α}
    (hunique : rows.Pairwise fun a b => ¬ (here a = true ∧ here b = true)) (done : List α)
    (found : Bool) (σ : Catalog) (hfound : found = true → ∀ row ∈ rows, here row = false) :
    updateRows here update store message done rows found σ =
      .ok (found || rows.any here) (if rows.any here then
        store (done ++ rows.map fun row => if here row then update row else row) σ else σ) := by
  induction rows generalizing done found σ with
  | nil => rw [updateRows, List.any_nil, Bool.or_false]; rfl
  | cons row rows ih =>
      obtain ⟨hhead, htail⟩ := List.pairwise_cons.mp hunique
      rw [updateRows]
      by_cases hrow : here row = true
      · -- the only row: nothing is found after it
        have hnot : found = false := by
          rw [← Bool.not_eq_true]
          exact fun h => Bool.false_ne_true ((hfound h row List.mem_cons_self).symm.trans hrow)
        have hrest (other : α) (hother : other ∈ rows) : here other = false :=
          Bool.eq_false_iff.mpr fun h => hhead other hother ⟨hrow, h⟩
        have hany : rows.any here = false := by
          rw [List.any_eq_false]
          exact fun other hother => Bool.not_eq_true _ ▸ hrest other hother
        have hmap : (rows.map fun row => if here row then update row else row) = rows := by
          refine (List.map_congr_left fun other hother => ?_).trans (List.map_id _)
          rw [hrest other hother]
          rfl
        have hrun := ih htail (done ++ [update row]) true (store (done ++ update row :: rows) σ)
          fun _ => hrest
        rw [hany] at hrun
        rw [if_pos hrow, hnot]
        refine hrun.trans ?_
        rw [List.any_cons, hrow, Bool.true_or, List.map_cons, if_pos hrow, hmap]
        rfl
      · have hrun := ih htail (done ++ [row]) found σ fun h other hother =>
          hfound h other (List.mem_cons_of_mem _ hother)
        rw [if_neg hrow, hrun, List.any_cons, Bool.eq_false_iff.mpr hrow, Bool.false_or,
          List.map_cons, if_neg hrow, List.append_assoc]
        rfl

end Update

/-! ## What the updated rows say -/

namespace TableRow

variable (dbOid : Nat) (tableName : String) (n : Nat) (row : TableRow)

/-- The cardinality of the table is rewritten. -/
def put : TableRow := if row.IsOf dbOid tableName then { row with cardinality := n } else row

@[simp] theorem put_dbOid : (row.put dbOid tableName n).dbOid = row.dbOid := by
  unfold put
  split <;> rfl

@[simp] theorem put_tableName : (row.put dbOid tableName n).tableName = row.tableName := by
  unfold put
  split <;> rfl

theorem put_cardinality : (row.put dbOid tableName n).cardinality =
    if row.IsOf dbOid tableName then n else row.cardinality := by
  unfold put
  split <;> rfl

theorem key_comp_put : key ∘ put dbOid tableName n = key := by
  funext row
  exact congrArg₂ Prod.mk (put_dbOid ..) (put_tableName ..)

end TableRow

namespace StatisticRow

variable (dbOid : Nat) (tableName columnName : String) (n : Nat) (row : StatisticRow)

/-- The number of distinct values of the column is rewritten. -/
def put : StatisticRow :=
  if row.IsOf dbOid tableName columnName then { row with nDistinct := n } else row

theorem key_put : (row.put dbOid tableName columnName n).key = row.key := by
  unfold put
  split <;> rfl

theorem isOf_iff_key : row.IsOf dbOid tableName columnName ↔
    row.key = (dbOid, tableName, columnName) := by
  simp only [IsOf, key, Prod.mk.injEq]

theorem isOf_put_iff (dbOid' : Nat) (tableName' columnName' : String) :
    (row.put dbOid tableName columnName n).IsOf dbOid' tableName' columnName' ↔
      row.IsOf dbOid' tableName' columnName' := by
  rw [isOf_iff_key, key_put, ← isOf_iff_key]

end StatisticRow

section PutDistinct

variable {dbOid dbOid' : Nat} {tableName tableName' columnName columnName' : String} {n : Nat}
  {rows : List StatisticRow}

/-- The rows of `huadb_statistic` after `SetDistinct`. -/
def putDistinct (dbOid : Nat) (tableName columnName : String) (n : Nat)
    (rows : List StatisticRow) : List StatisticRow :=
  if rows.any fun row => row.IsOf dbOid tableName columnName then
    rows.map (StatisticRow.put dbOid tableName columnName n)
  else
    rows ++ [⟨tableName, dbOid, columnName, n⟩]

theorem nodup_key_putDistinct (nd : (rows.map StatisticRow.key).Nodup) :
    ((putDistinct dbOid tableName columnName n rows).map StatisticRow.key).Nodup := by
  unfold putDistinct
  split
  · rw [List.map_map]
    have hkey : StatisticRow.key ∘ StatisticRow.put dbOid tableName columnName n =
        StatisticRow.key := funext (StatisticRow.key_put dbOid tableName columnName n)
    rwa [hkey]
  · rename_i hany
    rw [List.map_append]
    refine nd.append (List.nodup_singleton _) (List.disjoint_singleton.mpr fun hmem => hany ?_)
    obtain ⟨row, hrow, hkey⟩ := List.mem_map.mp hmem
    exact List.any_eq_true.mpr ⟨row, hrow, decide_eq_true (row.isOf_iff_key .. |>.mpr hkey)⟩

theorem storedDistinct_map_put :
    storedDistinct dbOid' tableName' columnName'
        (rows.map (StatisticRow.put dbOid tableName columnName n)) =
      (rows.find? fun row => row.IsOf dbOid' tableName' columnName').map fun row =>
        (row.put dbOid tableName columnName n).nDistinct := by
  unfold storedDistinct
  rw [List.find?_map, Option.map_map]
  refine congrArg (Option.map _) (congrArg (List.find? · rows) (funext fun row => ?_))
  exact decide_eq_decide.mpr (row.isOf_put_iff ..)

/-- The new value is found at its column. -/
theorem storedDistinct_putDistinct_self :
    storedDistinct dbOid tableName columnName (putDistinct dbOid tableName columnName n rows) =
      some n := by
  unfold putDistinct
  split
  · rename_i hany
    obtain ⟨row, hfind⟩ := Option.isSome_iff_exists.mp (List.find?_isSome.mpr
      (List.any_eq_true.mp hany))
    have hof : row.IsOf dbOid tableName columnName := by simpa using List.find?_some hfind
    rw [storedDistinct_map_put, hfind, Option.map_some, StatisticRow.put, if_pos hof]
  · rename_i hany
    have hnone : (rows.find? fun row => row.IsOf dbOid tableName columnName) = none := by
      rw [List.find?_eq_none]
      exact List.any_eq_false.mp (Bool.eq_false_iff.mpr hany)
    rw [storedDistinct, List.find?_append, hnone, Option.none_or, List.find?_cons_of_pos]
    · rfl
    · exact decide_eq_true ⟨rfl, rfl, rfl⟩

/-- The other columns keep theirs. -/
theorem storedDistinct_putDistinct_of_ne
    (h : (dbOid, tableName, columnName) ≠ (dbOid', tableName', columnName')) :
    storedDistinct dbOid' tableName' columnName' (putDistinct dbOid tableName columnName n rows) =
      storedDistinct dbOid' tableName' columnName' rows := by
  unfold putDistinct
  split
  · rw [storedDistinct_map_put, storedDistinct]
    rcases hfind : rows.find? fun row => row.IsOf dbOid' tableName' columnName' with _ | row
    · rw [hfind]
      rfl
    · have hof : row.IsOf dbOid' tableName' columnName' := by simpa using List.find?_some hfind
      have hother : ¬ row.IsOf dbOid tableName columnName := fun hof' =>
        h (((row.isOf_iff_key ..).mp hof').symm.trans ((row.isOf_iff_key ..).mp hof))
      rw [hfind, Option.map_some, Option.map_some, StatisticRow.put, if_neg hother]
  · rw [storedDistinct, storedDistinct, List.find?_append, List.find?_cons_of_neg, List.find?_nil,
      Option.or_none]
    intro hof
    exact h ((StatisticRow.isOf_iff_key ..).mp (of_decide_eq_true hof))

end PutDistinct

/-! ## The runs of the setters -/

/-- `huadb_table` after `SetCardinality`, and the map. -/
def Catalog.putCardinality (σ : Catalog) (tableName : String) (n : Nat) : Catalog :=
  { σ with
    tableMeta := σ.tableMeta.map (TableRow.put σ.currentDatabaseOid tableName n)
    table2cardinality := σ.table2cardinality.insert tableName n
    events := .cardinality σ.currentDatabaseOid tableName n :: σ.events }

/-- `huadb_statistic` after `SetDistinct`, and the map. -/
def Catalog.putDistinct (σ : Catalog) (tableName columnName : String) (n : Nat) : Catalog :=
  { σ with
    statistic := Statistics.putDistinct σ.currentDatabaseOid tableName columnName n σ.statistic
    col2distinct := σ.col2distinct.insert (columnKey tableName columnName) n
    events := .distinct σ.currentDatabaseOid tableName columnName n :: σ.events }

/-- The same for some columns, one after the other. -/
def Catalog.putDistincts (σ : Catalog) (tableName : String) (columns : List (String × Nat)) :
    Catalog :=
  columns.foldl (fun σ column => σ.putDistinct tableName column.1 column.2) σ

/-- `huadb_table` has a row of the table in the current database. -/
def Catalog.HasTable (σ : Catalog) (tableName : String) : Prop :=
  σ.tableMeta.any (fun row => row.IsOf σ.currentDatabaseOid tableName) = true

/-- `huadb_statistic` has a row of the column, or room for one. -/
def Catalog.HasRoom (σ : Catalog) (tableName columnName : String) : Prop :=
  σ.statistic.any (fun row => row.IsOf σ.currentDatabaseOid tableName columnName) = true ∨
    SystemCatalog.systemRecordSize 8 [tableName, columnName] % 2 ^ 16 ≤ maxRecordSize

/-- The cardinality of the table in `huadb_table` and in the map. -/
structure Catalog.HoldsCardinality (σ : Catalog) (tableName : String) (n : Nat) : Prop where
  tableMeta : storedCardinality σ.currentDatabaseOid tableName σ.tableMeta = some n
  map : σ.getCardinality tableName = n

/-- The number of distinct values of the column in `huadb_statistic` and in the map. -/
structure Catalog.HoldsDistinct (σ : Catalog) (tableName columnName : String) (n : Nat) : Prop where
  statistic : storedDistinct σ.currentDatabaseOid tableName columnName σ.statistic = some n
  map : σ.getDistinct tableName columnName = n

section Holds

variable {σ : Catalog} {tableName columnName : String} {n : Nat}

theorem holdsCardinality_putCardinality (h : σ.HasTable tableName) :
    (σ.putCardinality tableName n).HoldsCardinality tableName n where
  tableMeta := by
    obtain ⟨row, hfind⟩ :=
      Option.isSome_iff_exists.mp (List.find?_isSome.mpr (List.any_eq_true.mp h))
    have hof : row.IsOf σ.currentDatabaseOid tableName := by simpa using List.find?_some hfind
    have hput : ((fun row : TableRow => decide (row.IsOf σ.currentDatabaseOid tableName)) ∘
        TableRow.put σ.currentDatabaseOid tableName n) =
          fun row => decide (row.IsOf σ.currentDatabaseOid tableName) := by
      refine funext fun row => decide_eq_decide.mpr ?_
      rw [TableRow.IsOf, TableRow.put_dbOid, TableRow.put_tableName, ← TableRow.IsOf]
    change storedCardinality σ.currentDatabaseOid tableName
      (σ.tableMeta.map (TableRow.put σ.currentDatabaseOid tableName n)) = some n
    rw [storedCardinality, List.find?_map, hput, hfind, Option.map_some, Option.map_some,
      TableRow.put_cardinality, if_pos hof]
  map := by
    rw [Catalog.getCardinality, Catalog.putCardinality, Assoc.find?_insert_self]
    rfl

theorem holdsDistinct_putDistinct :
    (σ.putDistinct tableName columnName n).HoldsDistinct tableName columnName n where
  statistic := storedDistinct_putDistinct_self
  map := by
    rw [Catalog.getDistinct, Catalog.putDistinct, Assoc.find?_insert_self]
    rfl

/-- Storing keeps what is stored for the other columns. -/
theorem Catalog.HoldsDistinct.putDistinct (h : σ.HoldsDistinct tableName columnName n)
    {column : String × Nat} (hsame : column.1 = columnName → column.2 = n) :
    (σ.putDistinct tableName column.1 column.2).HoldsDistinct tableName columnName n := by
  by_cases hname : column.1 = columnName
  · rw [← hsame hname, ← hname]
    exact holdsDistinct_putDistinct
  · have hkey : columnKey tableName column.1 ≠ columnKey tableName columnName :=
      fun hkey => hname (columnKey_inj hkey)
    refine ⟨?_, ?_⟩
    · refine (storedDistinct_putDistinct_of_ne fun heq => hname ?_).trans h.statistic
      exact (Prod.mk.inj (Prod.mk.inj heq).2).2
    · rw [Catalog.getDistinct, Catalog.putDistinct, Assoc.find?_insert_ne hkey]
      exact h.map

theorem Catalog.HoldsDistinct.putDistincts (h : σ.HoldsDistinct tableName columnName n)
    {columns : List (String × Nat)}
    (hsame : ∀ column ∈ columns, column.1 = columnName → column.2 = n) :
    (σ.putDistincts tableName columns).HoldsDistinct tableName columnName n := by
  induction columns generalizing σ with
  | nil => exact h
  | cons column columns ih =>
      obtain ⟨hhead, htail⟩ := List.forall_mem_cons.mp hsame
      exact ih (h.putDistinct hhead) htail

/-- A column holds its value after all are stored. -/
theorem holdsDistinct_putDistincts {columns : List (String × Nat)} {column : String × Nat}
    (hmem : column ∈ columns)
    (hsame : ∀ other ∈ columns, other.1 = column.1 → other.2 = column.2) :
    (σ.putDistincts tableName columns).HoldsDistinct tableName column.1 column.2 := by
  obtain ⟨before, after, rfl⟩ := List.append_of_mem hmem
  rw [Catalog.putDistincts, List.foldl_append, List.foldl_cons]
  refine holdsDistinct_putDistinct.putDistincts fun other hother => hsame other ?_
  exact List.mem_append_right _ (List.mem_cons_of_mem _ hother)

/-- Storing leaves the tables and their cardinalities alone. -/
theorem Catalog.HoldsCardinality.putDistincts (h : σ.HoldsCardinality tableName n)
    (columns : List (String × Nat)) :
    (σ.putDistincts tableName columns).HoldsCardinality tableName n := by
  induction columns generalizing σ with
  | nil => exact h
  | cons column columns ih => exact ih ⟨h.tableMeta, h.map⟩

end Holds

section Runs

variable {σ : Catalog} {tableName columnName : String} {n : Nat}

/-- `SetCardinality` succeeds for a table that `huadb_table` names. -/
theorem setCardinality_ends (nd : (σ.tableMeta.map TableRow.key).Nodup) :
    EStateM.Ends σ (setCardinality tableName n)
      (fun _ σ' => (tableMetaOid ∈ σ.oid2table ∧ σ.HasTable tableName) ∧
        σ' = σ.putCardinality tableName n)
      fun _ σ' => ¬ (tableMetaOid ∈ σ.oid2table ∧ σ.HasTable tableName) ∧ σ' = σ := by
  unfold setCardinality
  refine getTable_ends (fun _ hmeta => ⟨fun h => hmeta h.1, rfl⟩) fun hmeta => .get_bind ?_
  have hunique := pairwise_of_nodup_key nd
    (fun row => row.IsOf σ.currentDatabaseOid tableName) (σ.currentDatabaseOid, tableName)
    fun row h => Prod.ext (of_decide_eq_true h).1 (of_decide_eq_true h).2
  refine .bind_of_ok (updateRows_eq hunique [] false σ fun h => by cases h) ?_
  rw [Bool.false_or]
  rcases hany : σ.tableMeta.any fun row => row.IsOf σ.currentDatabaseOid tableName with _ | _
  · refine .throwIf_bind (fun _ => ⟨fun h => ?_, rfl⟩) fun h => (h rfl).elim
    exact Bool.false_ne_true (hany.symm.trans h.2)
  · refine .throwIf_bind (fun h => by cases h) fun _ => .modify ⟨⟨hmeta, hany⟩, ?_⟩
    have hput : (fun row : TableRow => if decide (row.IsOf σ.currentDatabaseOid tableName) = true
        then { row with cardinality := n } else row) =
          TableRow.put σ.currentDatabaseOid tableName n := by
      simp only [decide_eq_true_eq]
      rfl
    rw [if_pos rfl, hput]
    rfl

/-- `SetDistinct` succeeds where there is a row of the column or room for one. -/
theorem setDistinct_ends (nd : (σ.statistic.map StatisticRow.key).Nodup) :
    EStateM.Ends σ (setDistinct tableName columnName n)
      (fun _ σ' => (statisticMetaOid ∈ σ.oid2table ∧ σ.HasRoom tableName columnName) ∧
        σ' = σ.putDistinct tableName columnName n)
      fun _ σ' => ¬ (statisticMetaOid ∈ σ.oid2table ∧ σ.HasRoom tableName columnName) ∧ σ' = σ := by
  unfold setDistinct Catalog.putDistinct Statistics.putDistinct
  refine getTable_ends (fun _ hmeta => ⟨fun h => hmeta h.1, rfl⟩) fun hmeta => .get_bind ?_
  have hunique := pairwise_of_nodup_key nd
    (fun row => row.IsOf σ.currentDatabaseOid tableName columnName)
    (σ.currentDatabaseOid, tableName, columnName)
    fun row h => (row.isOf_iff_key ..).mp (of_decide_eq_true h)
  refine .bind_of_ok (updateRows_eq hunique [] false σ fun h => by cases h) ?_
  rw [Bool.false_or]
  rcases hany : σ.statistic.any fun row => row.IsOf σ.currentDatabaseOid tableName columnName
    with _ | _
  · -- no row of the column: a new one, where it fits
    rw [if_neg Bool.false_ne_true, if_neg Bool.false_ne_true, if_neg Bool.false_ne_true,
      insertStatisticRow, bind_assoc]
    refine .throwIf_bind (fun hsize => ⟨fun h => ?_, rfl⟩) fun hsize => .modify_bind (.modify ?_)
    · rcases h.2 with hrow | hle
      · exact Bool.false_ne_true (hany.symm.trans hrow)
      · exact absurd hsize (Nat.not_lt.mpr hle)
    · exact ⟨⟨hmeta, .inr (Nat.not_lt.mp hsize)⟩, rfl⟩
  · have hput : (fun row : StatisticRow =>
        if decide (row.IsOf σ.currentDatabaseOid tableName columnName) = true
        then { row with nDistinct := n } else row) =
          StatisticRow.put σ.currentDatabaseOid tableName columnName n := by
      simp only [decide_eq_true_eq]
      rfl
    rw [if_pos rfl, if_pos rfl, if_pos rfl, hput]
    exact .modify ⟨⟨hmeta, .inl hany⟩, rfl⟩

/-- A column has a row where a value is stored for it. -/
theorem any_isOf_iff (dbOid : Nat) (tableName columnName : String) (rows : List StatisticRow) :
    rows.any (fun row => row.IsOf dbOid tableName columnName) = true ↔
      (storedDistinct dbOid tableName columnName rows).isSome = true := by
  rw [storedDistinct, Option.isSome_map, List.find?_isSome, List.any_eq_true]

/-- Storing a value takes the room of no other column. -/
theorem hasRoom_putDistinct_iff {other : String} (hroom : σ.HasRoom tableName columnName) :
    (σ.putDistinct tableName columnName n).HasRoom tableName other ↔
      σ.HasRoom tableName other := by
  unfold Catalog.HasRoom
  rw [any_isOf_iff, any_isOf_iff]
  by_cases hname : columnName = other
  · subst hname
    rw [Catalog.putDistinct, storedDistinct_putDistinct_self]
    rw [Catalog.HasRoom, any_isOf_iff] at hroom
    exact ⟨fun _ => hroom, fun _ => .inl rfl⟩
  · rw [Catalog.putDistinct, storedDistinct_putDistinct_of_ne fun h => hname (by simpa using h)]

/-- The second loop of `ANALYZE` succeeds where every column has room. -/
theorem setDistincts_ends {columns : List (String × Nat)}
    (nd : (σ.statistic.map StatisticRow.key).Nodup) (hstatistic : statisticMetaOid ∈ σ.oid2table) :
    EStateM.Ends σ (setDistincts tableName columns)
      (fun _ σ' => (∀ column ∈ columns, σ.HasRoom tableName column.1) ∧
        σ' = σ.putDistincts tableName columns)
      fun _ _ => ¬ ∀ column ∈ columns, σ.HasRoom tableName column.1 := by
  induction columns generalizing σ with
  | nil => exact .pure ⟨fun _ h => (List.not_mem_nil h).elim, rfl⟩
  | cons column columns ih =>
      rw [setDistincts]
      refine .bind ((setDistinct_ends nd).mono (fun _ _ h => h) fun _ _ h hall => ?_)
        fun _ σ' h => ?_
      · exact h.1 ⟨hstatistic, hall column List.mem_cons_self⟩
      obtain ⟨⟨-, hroom⟩, rfl⟩ := h
      have hrest := ih (σ := σ.putDistinct tableName column.1 column.2) (nodup_key_putDistinct nd)
        hstatistic
      refine hrest.mono (fun _ _ h => ?_) fun _ _ h hall => ?_
      · refine ⟨List.forall_mem_cons.mpr ⟨hroom, fun other hother => ?_⟩, h.2⟩
        exact (hasRoom_putDistinct_iff hroom).mp (h.1 other hother)
      · refine h fun other hother => (hasRoom_putDistinct_iff hroom).mpr ?_
        exact hall other (List.mem_cons_of_mem _ hother)

end Runs

end HuaDB.Statistics
