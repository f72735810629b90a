import HuaDB.StatisticUpdates

/-!
Statistics and the tables they are about, over whole runs of the catalog.

What was last stored for a table is in its row of `huadb_table` and in the rows of
`huadb_statistic` with its name (`Recorded`), and the maps of the current database tell the same
(`Remembers`). Dropping a table clears neither the rows of `huadb_statistic` nor the maps, and
changing the database overwrites the maps only where a row says something: `Op.Clean` names what
must not be left for `CREATE TABLE`, for `ANALYZE` and for a change of the database.
-/

namespace HuaDB.Statistics

/-! ## What was last stored -/

/-- The cardinality last stored for the table since it was created. -/
def lastCardinality (dbOid : Nat) (tableName : String) : List Event → Option Nat
  | [] => none
  | .created db name :: events =>
      if db = dbOid ∧ name = tableName then none else lastCardinality dbOid tableName events
  | .cardinality db name n :: events =>
      if db = dbOid ∧ name = tableName then some n else lastCardinality dbOid tableName events
  | .distinct _ _ _ _ :: events => lastCardinality dbOid tableName events

/-- The number of distinct values last stored for the column since its table was created. -/
def lastDistinct (dbOid : Nat) (tableName columnName : String) : List Event → Option Nat
  | [] => none
  | .created db name :: events =>
      if db = dbOid ∧ name = tableName then none
      else lastDistinct dbOid tableName columnName events
  | .cardinality _ _ _ :: events => lastDistinct dbOid tableName columnName events
  | .distinct db name column n :: events =>
      if db = dbOid ∧ name = tableName ∧ column = columnName then some n
      else lastDistinct dbOid tableName columnName events

/-- The lookups tell, for every table of the current database, what was last stored for it. -/
def Catalog.Live (σ : Catalog) : Prop :=
  ∀ row ∈ σ.tableMeta, row.dbOid = σ.currentDatabaseOid →
    σ.getCardinality row.tableName =
        (lastCardinality row.dbOid row.tableName σ.events).getD invalidCardinality ∧
      ∀ columnName, σ.getDistinct row.tableName columnName =
        (lastDistinct row.dbOid row.tableName columnName σ.events).getD invalidDistinct

/-! ## The system tables and the maps -/

/-- The system tables name each table and each column once and hold what was last stored. -/
structure Catalog.Recorded (σ : Catalog) : Prop where
  tables : (σ.tableMeta.map TableRow.key).Nodup
  columns : (σ.statistic.map StatisticRow.key).Nodup
  valid : ∀ row ∈ σ.tableMeta, row.dbOid ≠ invalidOid
  cardinality : ∀ row ∈ σ.tableMeta, row.cardinality =
    (lastCardinality row.dbOid row.tableName σ.events).getD invalidCardinality
  distinct : ∀ row ∈ σ.tableMeta, ∀ columnName,
    (storedDistinct row.dbOid row.tableName columnName σ.statistic).getD invalidDistinct =
      (lastDistinct row.dbOid row.tableName columnName σ.events).getD invalidDistinct

/-- The maps tell what the system tables hold for the tables of a database. -/
def Catalog.Remembers (σ : Catalog) (dbOid : Nat) : Prop :=
  ∀ row ∈ σ.tableMeta, row.dbOid = dbOid →
    σ.getCardinality row.tableName = row.cardinality ∧
      ∀ columnName, σ.getDistinct row.tableName columnName =
        (storedDistinct row.dbOid row.tableName columnName σ.statistic).getD invalidDistinct

/-- The invariant of guarded runs. -/
structure Catalog.Ok (σ : Catalog) : Prop extends σ.Recorded where
  remembers : σ.Remembers σ.currentDatabaseOid

theorem Catalog.Ok.live {σ : Catalog} (ok : σ.Ok) : σ.Live := by
  intro row hrow hcurrent
  obtain ⟨hcardinality, hdistinct⟩ := ok.remembers row hrow hcurrent
  refine ⟨hcardinality.trans (ok.cardinality row hrow), fun columnName => ?_⟩
  exact (hdistinct columnName).trans (ok.distinct row hrow columnName)

/-- The system tables, the maps and the history are the same. -/
structure SameStatistics (σ σ' : Catalog) : Prop where
  tableMeta : σ'.tableMeta = σ.tableMeta
  statistic : σ'.statistic = σ.statistic
  table2cardinality : σ'.table2cardinality = σ.table2cardinality
  col2distinct : σ'.col2distinct = σ.col2distinct
  events : σ'.events = σ.events

namespace SameStatistics

variable {σ σ' σ'' : Catalog}

theorem refl (σ : Catalog) : SameStatistics σ σ := ⟨rfl, rfl, rfl, rfl, rfl⟩

theorem trans (h : SameStatistics σ σ') (h' : SameStatistics σ' σ'') : SameStatistics σ σ'' :=
  ⟨h'.tableMeta.trans h.tableMeta, h'.statistic.trans h.statistic,
    h'.table2cardinality.trans h.table2cardinality, h'.col2distinct.trans h.col2distinct,
    h'.events.trans h.events⟩

theorem recorded (h : SameStatistics σ σ') (recorded : σ.Recorded) : σ'.Recorded := by
  refine ⟨?_, ?_, ?_, ?_, ?_⟩
  · rw [h.tableMeta]
    exact recorded.tables
  · rw [h.statistic]
    exact recorded.columns
  · rw [h.tableMeta]
    exact recorded.valid
  · rw [h.tableMeta, h.events]
    exact recorded.cardinality
  · rw [h.tableMeta, h.statistic, h.events]
    exact recorded.distinct

theorem remembers (h : SameStatistics σ σ') {dbOid : Nat} (remembers : σ.Remembers dbOid) :
    σ'.Remembers dbOid := by
  unfold Catalog.Remembers Catalog.getCardinality Catalog.getDistinct
  rw [h.tableMeta, h.statistic, h.table2cardinality, h.col2distinct]
  exact remembers

theorem ok (h : SameStatistics σ σ') (ok : σ.Ok)
    (hcurrent : σ'.currentDatabaseOid = σ.currentDatabaseOid) : σ'.Ok :=
  ⟨h.recorded ok.toRecorded, hcurrent ▸ h.remembers ok.remembers⟩

end SameStatistics

/-! ## Creating and dropping tables -/

/-- Nothing is left of an earlier table of that name. -/
structure Catalog.Fresh (σ : Catalog) (dbOid : Nat) (tableName : String) : Prop where
  tables : ∀ row ∈ σ.tableMeta, ¬ row.IsOf dbOid tableName
  cardinality : σ.getCardinality tableName = invalidCardinality
  distinct : ∀ columnName, σ.getDistinct tableName columnName = invalidDistinct
  columns : ∀ row ∈ σ.statistic, row.dbOid = dbOid → row.tableName = tableName →
    row.nDistinct = invalidDistinct

section Tables

variable {σ : Catalog} {dbOid : Nat} {tableName : String}

theorem Catalog.Fresh.storedDistinct (fresh : σ.Fresh dbOid tableName) (columnName : String) :
    (storedDistinct dbOid tableName columnName σ.statistic).getD invalidDistinct =
      invalidDistinct := by
  unfold Statistics.storedDistinct
  rcases hfind : σ.statistic.find? fun row => row.IsOf dbOid tableName columnName with _ | row
  · rw [hfind]
    rfl
  · have hof : row.IsOf dbOid tableName columnName := by simpa using List.find?_some hfind
    rw [hfind]
    exact fresh.columns row (List.mem_of_find?_eq_some hfind) hof.1 hof.2.1

/-- A new row of a name of which nothing is left. -/
theorem Catalog.Ok.create {row : TableRow} (ok : σ.Ok) (fresh : σ.Fresh row.dbOid row.tableName)
    (hcardinality : row.cardinality = invalidCardinality) (hvalid : row.dbOid ≠ invalidOid) :
    Catalog.Ok { σ with
      tableMeta := σ.tableMeta ++ [row]
      events := .created row.dbOid row.tableName :: σ.events } := by
  have hnew : row.key ∉ σ.tableMeta.map TableRow.key := by
    intro hmem
    obtain ⟨other, hother, hkey⟩ := List.mem_map.mp hmem
    obtain ⟨hdb, hname⟩ := Prod.mk.inj hkey
    exact fresh.tables other hother ⟨hdb, hname⟩
  have hold (other : TableRow) (hother : other ∈ σ.tableMeta) :
      ¬ (row.dbOid = other.dbOid ∧ row.tableName = other.tableName) :=
    fun h => fresh.tables other hother ⟨h.1.symm, h.2.symm⟩
  refine { tables := ?_, columns := ok.columns, valid := ?_, cardinality := ?_, distinct := ?_,
           remembers := ?_ }
  · rw [List.map_append]
    exact ok.tables.append (List.nodup_singleton _) (List.disjoint_singleton.mpr hnew)
  · exact List.forall_mem_append.mpr ⟨ok.valid, List.forall_mem_singleton.mpr hvalid⟩
  · refine List.forall_mem_append.mpr ⟨fun other hother => ?_, List.forall_mem_singleton.mpr ?_⟩
    · rw [lastCardinality, if_neg (hold other hother)]
      exact ok.cardinality other hother
    · rw [lastCardinality, if_pos ⟨rfl, rfl⟩]
      exact hcardinality
  · refine List.forall_mem_append.mpr ⟨fun other hother columnName => ?_,
      List.forall_mem_singleton.mpr fun columnName => ?_⟩
    · rw [lastDistinct, if_neg (hold other hother)]
      exact ok.distinct other hother columnName
    · rw [lastDistinct, if_pos ⟨rfl, rfl⟩]
      exact fresh.storedDistinct columnName
  · refine List.forall_mem_append.mpr ⟨ok.remembers, List.forall_mem_singleton.mpr fun _ => ?_⟩
    refine ⟨fresh.cardinality.trans hcardinality.symm, fun columnName => ?_⟩
    exact (fresh.distinct columnName).trans (fresh.storedDistinct columnName).symm

/-- `CREATE TABLE` of a name that is not entered needs the name to be fresh. -/
theorem createTable_ends {schema : String} (ok : σ.Ok)
    (fresh : σ.oidManager.entryExists .table tableName = false →
      σ.Fresh σ.currentDatabaseOid tableName) :
    EStateM.Ends σ (createTable tableName schema invalidOid invalidOid true) (fun _ σ' => σ'.Ok)
      fun _ σ' => σ'.Ok := by
  have same {σ' : Catalog} (h : SameStatistics σ σ')
      (hcurrent : σ'.currentDatabaseOid = σ.currentDatabaseOid) : σ'.Ok := h.ok ok hcurrent
  unfold createTable
  refine .get_bind (.throwIf_bind (fun _ => ok) fun husing => ?_)
  have hcurrent : σ.currentDatabaseOid ≠ invalidOid := fun h => husing ⟨rfl, h⟩
  refine .throwIf_bind (fun _ => ok) fun hname => ?_
  have fresh := fresh (Bool.not_eq_true _ ▸ hname)
  refine .modify_bind (.throwIf_bind (fun _ => same ⟨rfl, rfl, rfl, rfl, rfl⟩ rfl) fun _ => ?_)
  refine .modify_bind (.get_bind (.ofExcept_bind (fun _ _ => ?_) fun _ _ => ?_))
  · exact same ⟨rfl, rfl, rfl, rfl, rfl⟩ rfl
  refine .modify_bind ?_
  refine getTable_ends (fun _ _ => same ⟨rfl, rfl, rfl, rfl, rfl⟩ rfl) fun _ => ?_
  refine checkRecordSize_ends (fun _ => same ⟨rfl, rfl, rfl, rfl, rfl⟩ rfl) (.modify ?_)
  refine SameStatistics.ok (σ := { σ with
    tableMeta := σ.tableMeta ++ [⟨⟨_, σ.currentDatabaseOid, tableName, schema⟩, invalidCardinality⟩]
    events := .created σ.currentDatabaseOid tableName :: σ.events }) ⟨rfl, rfl, rfl, rfl, rfl⟩
    (ok.create fresh rfl hcurrent) rfl

/-- Fewer tables are fewer to keep. -/
theorem Catalog.Ok.sublist {rows : List TableRow} (ok : σ.Ok) (h : rows.Sublist σ.tableMeta) :
    Catalog.Ok { σ with tableMeta := rows } where
  tables := ok.tables.sublist (h.map _)
  columns := ok.columns
  valid row hrow := ok.valid row (h.subset hrow)
  cardinality row hrow := ok.cardinality row (h.subset hrow)
  distinct row hrow := ok.distinct row (h.subset hrow)
  remembers row hrow := ok.remembers row (h.subset hrow)

theorem dropTable_ends (ok : σ.Ok) :
    EStateM.Ends σ (dropTable tableName) (fun _ σ' => σ'.Ok) fun _ σ' => σ'.Ok := by
  have same {σ' : Catalog} (h : SameStatistics σ σ')
      (hcurrent : σ'.currentDatabaseOid = σ.currentDatabaseOid) : σ'.Ok := h.ok ok hcurrent
  unfold dropTable
  refine .get_bind (.throwIf_bind (fun _ => ok) fun _ => .throwIf_bind (fun _ => ok) fun _ => ?_)
  refine .ofExcept_bind (fun _ _ => ok) fun tableOid _ => .modify_bind ?_
  refine .ofExcept_bind (fun _ _ => same ⟨rfl, rfl, rfl, rfl, rfl⟩ rfl) fun manager _ => ?_
  refine .modify_bind (getTable_ends (fun _ _ => same ⟨rfl, rfl, rfl, rfl, rfl⟩ rfl) fun _ => ?_)
  refine .throwIf_bind (fun _ => same ⟨rfl, rfl, rfl, rfl, rfl⟩ rfl) fun _ => .modify ?_
  exact SameStatistics.ok (σ := { σ with
    tableMeta := σ.tableMeta.eraseP fun row => row.tableOid = tableOid })
    ⟨rfl, rfl, rfl, rfl, rfl⟩ (ok.sublist List.eraseP_sublist) rfl

end Tables

section Setting

variable {σ : Catalog} {tableName columnName : String} {n : Nat}

theorem Catalog.Ok.putCardinality (ok : σ.Ok) (tableName : String) (n : Nat) :
    (σ.putCardinality tableName n).Ok := by
  unfold Catalog.putCardinality
  refine { tables := ?_, columns := ok.columns, valid := ?_, cardinality := ?_, distinct := ?_,
           remembers := ?_ }
  · rw [List.map_map, TableRow.key_comp_put]
    exact ok.tables
  · refine List.forall_mem_map.mpr fun row hrow => ?_
    rw [TableRow.put_dbOid]
    exact ok.valid row hrow
  · refine List.forall_mem_map.mpr fun row hrow => ?_
    rw [TableRow.put_dbOid, TableRow.put_tableName, TableRow.put_cardinality, lastCardinality]
    by_cases hof : row.IsOf σ.currentDatabaseOid tableName
    · rw [if_pos hof, if_pos ⟨hof.1.symm, hof.2.symm⟩, Option.getD_some]
    · rw [if_neg hof, if_neg fun h => hof ⟨h.1.symm, h.2.symm⟩]
      exact ok.cardinality row hrow
  · refine List.forall_mem_map.mpr fun row hrow => ?_
    rw [TableRow.put_dbOid, TableRow.put_tableName]
    exact ok.distinct row hrow
  · refine List.forall_mem_map.mpr fun row hrow hcurrent => ?_
    rw [TableRow.put_dbOid] at hcurrent
    obtain ⟨hcardinality, hdistinct⟩ := ok.remembers row hrow hcurrent
    rw [TableRow.put_dbOid, TableRow.put_tableName, TableRow.put_cardinality]
    refine ⟨?_, hdistinct⟩
    rw [Catalog.getCardinality, Assoc.find?_insert]
    by_cases hname : row.tableName = tableName
    · rw [if_pos hname.symm, if_pos ⟨hcurrent, hname⟩, Option.getD_some]
    · rw [if_neg (Ne.symm hname), if_neg fun hof => hname hof.2]
      exact hcardinality

theorem keys_putCardinality (σ : Catalog) (tableName : String) (n : Nat) :
    (σ.putCardinality tableName n).tableMeta.map TableRow.key = σ.tableMeta.map TableRow.key := by
  change (σ.tableMeta.map _).map TableRow.key = _
  rw [List.map_map, TableRow.key_comp_put]

/-- The key of the column is that of no column of another table of the database. -/
def Catalog.Apart (σ : Catalog) (tableName columnName : String) : Prop :=
  ∀ row ∈ σ.tableMeta, row.dbOid = σ.currentDatabaseOid → row.tableName ≠ tableName →
    ∀ other, columnKey row.tableName other ≠ columnKey tableName columnName

theorem Catalog.Ok.putDistinct (ok : σ.Ok) (apart : σ.Apart tableName columnName) (n : Nat) :
    (σ.putDistinct tableName columnName n).Ok := by
  unfold Catalog.putDistinct
  refine { tables := ok.tables, columns := nodup_key_putDistinct ok.columns, valid := ok.valid,
           cardinality := ok.cardinality, distinct := fun row hrow other => ?_,
           remembers := fun row hrow hcurrent => ?_ }
  · rw [lastDistinct]
    by_cases hsame : σ.currentDatabaseOid = row.dbOid ∧ tableName = row.tableName ∧
        columnName = other
    · obtain ⟨hdb, rfl, rfl⟩ := hsame
      rw [if_pos ⟨hdb, rfl, rfl⟩, hdb, storedDistinct_putDistinct_self]
    · rw [if_neg hsame, storedDistinct_putDistinct_of_ne fun h => hsame (by simpa using h)]
      exact ok.distinct row hrow other
  · obtain ⟨hcardinality, hdistinct⟩ := ok.remembers row hrow hcurrent
    refine ⟨hcardinality, fun other => ?_⟩
    rw [Catalog.getDistinct, Assoc.find?_insert]
    by_cases hsame : tableName = row.tableName ∧ columnName = other
    · obtain ⟨rfl, rfl⟩ := hsame
      rw [if_pos rfl, hcurrent, storedDistinct_putDistinct_self]
    · have hkey : columnKey tableName columnName ≠ columnKey row.tableName other := by
        intro hkey
        by_cases hname : row.tableName = tableName
        · rw [hname] at hkey
          exact hsame ⟨hname.symm, columnKey_inj hkey⟩
        · exact apart row hrow hcurrent hname other hkey.symm
      rw [if_neg hkey, storedDistinct_putDistinct_of_ne fun h =>
        hsame (by simpa using (Prod.mk.inj h).2)]
      exact hdistinct other

/-- The names of the tables and the current database decide. -/
theorem Catalog.Apart.congr {σ' : Catalog} (apart : σ.Apart tableName columnName)
    (hkeys : σ'.tableMeta.map TableRow.key = σ.tableMeta.map TableRow.key)
    (hcurrent : σ'.currentDatabaseOid = σ.currentDatabaseOid) :
    σ'.Apart tableName columnName := by
  intro row hrow hdb hname
  have hmem : row.key ∈ σ.tableMeta.map TableRow.key := hkeys ▸ List.mem_map_of_mem hrow
  obtain ⟨row', hrow', hkey⟩ := List.mem_map.mp hmem
  obtain ⟨hdb', hname'⟩ := Prod.mk.inj hkey
  rw [← hname'] at hname ⊢
  exact apart row' hrow' (hdb'.trans (hdb.trans hcurrent)) hname

theorem Catalog.Ok.setDistincts_ends {columns : List (String × Nat)} (ok : σ.Ok)
    (apart : ∀ column ∈ columns, σ.Apart tableName column.1) :
    EStateM.Ends σ (setDistincts tableName columns)
      (fun _ σ' => σ'.Ok ∧ σ'.tableMeta.map TableRow.key = σ.tableMeta.map TableRow.key ∧
        σ'.currentDatabaseOid = σ.currentDatabaseOid)
      fun _ σ' => σ'.Ok := by
  induction columns generalizing σ with
  | nil => exact .pure ⟨ok, rfl, rfl⟩
  | cons column columns ih =>
      obtain ⟨hhead, htail⟩ := List.forall_mem_cons.mp apart
      rw [setDistincts]
      refine .bind ((setDistinct_ends ok.columns).mono (fun _ _ h => h) fun _ σ' h => ?_)
        fun _ σ' h => ?_
      · rw [h.2]
        exact ok
      · rw [h.2]
        exact ih (ok.putDistinct hhead column.2) fun column hcolumn =>
          (htail column hcolumn).congr rfl rfl

theorem analyze_ends {tables : List TableCounts} (ok : σ.Ok)
    (apart : ∀ counts ∈ tables, ∀ column ∈ counts.valueSets, σ.Apart counts.tableName column.1) :
    EStateM.Ends σ (analyze tables) (fun _ σ' => σ'.Ok) fun _ σ' => σ'.Ok := by
  induction tables generalizing σ with
  | nil => exact .pure ok
  | cons counts tables ih =>
      obtain ⟨hhead, htail⟩ := List.forall_mem_cons.mp apart
      rw [analyze, getTableOid, bind_assoc]
      refine .get_bind ?_
      rw [bind_assoc]
      refine .throwIf_bind (fun _ => ok) fun _ => .ofExcept_bind (fun _ _ => ok) fun oid _ => ?_
      refine getTable_ends (fun _ _ => ok) fun _ => ?_
      refine .bind ((setCardinality_ends ok.tables).mono (fun _ _ h => h) fun _ σ' h => ?_)
        fun _ σ₁ h => ?_
      · rw [h.2]
        exact ok
      obtain ⟨-, rfl⟩ := h
      have hkeys := keys_putCardinality σ counts.tableName counts.recordCount
      have ok₁ := ok.putCardinality counts.tableName counts.recordCount
      refine .bind (ok₁.setDistincts_ends fun column hcolumn =>
        (hhead column hcolumn).congr hkeys rfl) fun _ σ₂ h => ?_
      obtain ⟨ok₂, hkeys₂, hcurrent₂⟩ := h
      exact ih ok₂ fun counts hcounts column hcolumn => (htail counts hcounts column hcolumn).congr
        (hkeys₂.trans hkeys) hcurrent₂

end Setting

/-! ## Changing the database -/

/-- `LoadTableMeta` gets through the row: its schema is read, and its file is there, under the
database of the row and under the one `GetDatabaseOid` finds. -/
def Catalog.CanLoad (σ : Catalog) (row : TableRow) : Prop :=
  (∃ columns, IndexedColumns.fromString row.schema = .ok columns) ∧
    ⟨row.dbOid, row.tableOid⟩ ∈ σ.files.paths ∧
    ∃ first, (σ.tableMeta.find? fun other => other.tableOid = row.tableOid) = some first ∧
      ⟨first.dbOid, row.tableOid⟩ ∈ σ.files.paths

/-- A change to the database loads all of its tables. -/
def Catalog.Loads (σ : Catalog) (dbOid : Nat) : Prop :=
  dbOid ≠ systemDatabaseOid ∧ tableMetaOid ∈ σ.oid2table ∧
    ∀ row ∈ σ.tableMeta, row.dbOid = dbOid → σ.CanLoad row

/-- What the maps say of the tables of the database is right wherever the change to it loads
nothing, and no key is loaded for two tables. -/
structure Catalog.CanEnter (σ : Catalog) (dbOid : Nat) : Prop where
  cardinality : ¬ σ.Loads dbOid → ∀ row ∈ σ.tableMeta, row.dbOid = dbOid →
    σ.getCardinality row.tableName = row.cardinality
  distinct : ∀ row ∈ σ.tableMeta, row.dbOid = dbOid → ∀ columnName,
    (σ.Loads dbOid → statisticMetaOid ∈ σ.oid2table →
      storedDistinct dbOid row.tableName columnName σ.statistic = none) →
    σ.getDistinct row.tableName columnName =
      (storedDistinct dbOid row.tableName columnName σ.statistic).getD invalidDistinct
  keys : ∀ row ∈ σ.tableMeta, row.dbOid = dbOid → ∀ other ∈ σ.statistic, other.dbOid = dbOid →
    ∀ columnName, columnKey other.tableName other.columnName =
      columnKey row.tableName columnName → other.tableName = row.tableName

/-- Tables were forgotten, nothing else. -/
structure Exited (σ σ' : Catalog) : Prop extends SameStatistics σ σ' where
  files : σ'.files = σ.files
  systemTables : ∀ oid ≤ preservedOid, oid ∈ σ'.oid2table ↔ oid ∈ σ.oid2table

theorem Exited.refl (σ : Catalog) : Exited σ σ := ⟨.refl σ, rfl, fun _ _ => .rfl⟩

theorem Exited.trans {σ σ' σ'' : Catalog} (h : Exited σ σ') (h' : Exited σ' σ'') : Exited σ σ'' :=
  ⟨h.toSameStatistics.trans h'.toSameStatistics, h'.files.trans h.files,
    fun oid hle => (h'.systemTables oid hle).trans (h.systemTables oid hle)⟩

section Exit

variable {σ σ' : Catalog} {dbOid : Nat}

theorem Exited.loads_iff (h : Exited σ σ') : σ'.Loads dbOid ↔ σ.Loads dbOid := by
  unfold Catalog.Loads Catalog.CanLoad
  rw [h.tableMeta, h.files, h.systemTables tableMetaOid (by decide)]

theorem Exited.canEnter (h : Exited σ σ') (can : σ.CanEnter dbOid) : σ'.CanEnter dbOid := by
  refine ⟨?_, ?_, ?_⟩
  · rw [h.loads_iff, h.tableMeta]
    unfold Catalog.getCardinality
    rw [h.table2cardinality]
    exact can.cardinality
  · rw [h.loads_iff, h.tableMeta, h.statistic, h.systemTables statisticMetaOid (by decide)]
    unfold Catalog.getDistinct
    rw [h.col2distinct]
    exact can.distinct
  · rw [h.tableMeta, h.statistic]
    exact can.keys

theorem forgetTables_ends {oids : List Nat} (huser : ∀ oid ∈ oids, preservedOid < oid) :
    EStateM.Ends σ (forgetTables oids)
      (fun _ σ' => Exited σ σ' ∧ σ'.currentDatabaseOid = σ.currentDatabaseOid)
      fun _ σ' => Exited σ σ' ∧ σ'.currentDatabaseOid = σ.currentDatabaseOid := by
  induction oids generalizing σ with
  | nil => exact .pure ⟨.refl σ, rfl⟩
  | cons oid oids ih =>
      obtain ⟨hhead, htail⟩ := List.forall_mem_cons.mp huser
      rw [forgetTables]
      refine .get_bind (.ofExcept_bind (fun _ _ => ⟨.refl σ, rfl⟩) fun name _ => ?_)
      refine .ofExcept_bind (fun _ _ => ⟨.refl σ, rfl⟩) fun manager _ => .modify_bind ?_
      have hforget : Exited σ { σ with
          oidManager := manager
          oid2table := σ.oid2table.filter (· ≠ oid) } := by
        refine ⟨⟨rfl, rfl, rfl, rfl, rfl⟩, rfl, fun other hle => ?_⟩
        have hne : other ≠ oid := fun h => absurd hhead (by omega)
        exact List.mem_filter.trans (and_iff_left (decide_eq_true hne))
      exact (ih htail).mono (fun _ _ h => ⟨hforget.trans h.1, h.2⟩)
        fun _ _ h => ⟨hforget.trans h.1, h.2⟩

theorem exitDatabase_ends :
    EStateM.Ends σ exitDatabase (fun _ σ' => Exited σ σ')
      fun _ σ' => Exited σ σ' ∧ σ'.currentDatabaseOid = σ.currentDatabaseOid := by
  unfold exitDatabase
  refine .get_bind ?_
  split
  · exact .pure (.refl σ)
  · refine .bind (forgetTables_ends fun oid hoid => ?_) fun _ σ' h => .modify ?_
    · exact of_decide_eq_true (List.mem_filter.mp hoid).2
    · exact h.1.trans ⟨⟨rfl, rfl, rfl, rfl, rfl⟩, rfl, fun _ _ => .rfl⟩

end Exit

/-- The rows were loaded, nothing else happened to the statistics. -/
structure Loaded (rows : List TableRow) (σ σ' : Catalog) : Prop where
  files : σ'.files = σ.files
  tableMeta : σ'.tableMeta = σ.tableMeta
  statistic : σ'.statistic = σ.statistic
  currentDatabaseOid : σ'.currentDatabaseOid = σ.currentDatabaseOid
  col2distinct : σ'.col2distinct = σ.col2distinct
  events : σ'.events = σ.events
  oid2table : ∀ oid ∈ σ.oid2table, oid ∈ σ'.oid2table
  table2cardinality : σ'.table2cardinality =
    (rows.map fun row => (row.tableName, row.cardinality)).foldl (fun m e => m.insert e.1 e.2)
      σ.table2cardinality

section Load

variable {σ σ' σ'' : Catalog} {dbOid : Nat} {row : TableRow} {rows rows' : List TableRow}

theorem Loaded.append (h : Loaded rows σ σ') (h' : Loaded rows' σ' σ'') :
    Loaded (rows ++ rows') σ σ'' where
  files := h'.files.trans h.files
  tableMeta := h'.tableMeta.trans h.tableMeta
  statistic := h'.statistic.trans h.statistic
  currentDatabaseOid := h'.currentDatabaseOid.trans h.currentDatabaseOid
  col2distinct := h'.col2distinct.trans h.col2distinct
  events := h'.events.trans h.events
  oid2table oid hoid := h'.oid2table oid (h.oid2table oid hoid)
  table2cardinality := by
    rw [List.map_append, List.foldl_append, ← h.table2cardinality]
    exact h'.table2cardinality

theorem Loaded.canLoad_iff (h : Loaded rows σ σ') : σ'.CanLoad row ↔ σ.CanLoad row := by
  unfold Catalog.CanLoad
  rw [h.tableMeta, h.files]

theorem Loaded.recorded (h : Loaded rows σ σ') (recorded : σ.Recorded) : σ'.Recorded := by
  have same : SameStatistics { σ with table2cardinality := σ'.table2cardinality } σ' :=
    ⟨h.tableMeta, h.statistic, rfl, h.col2distinct, h.events⟩
  exact same.recorded ⟨recorded.tables, recorded.columns, recorded.valid, recorded.cardinality,
    recorded.distinct⟩

theorem readSchema_ends {β : Type} {ok : β → Catalog → Prop} {error : DbError → Catalog → Prop}
    {schema : String} {f : Unit → CatalogM β}
    (herror : ∀ e, (¬ ∃ columns, IndexedColumns.fromString schema = .ok columns) → error e σ)
    (hok : EStateM.Ends σ (f ()) ok error) : EStateM.Ends σ (readSchema schema >>= f) ok error := by
  unfold readSchema
  rcases hread : IndexedColumns.fromString schema with e | columns
  · have hfails : ¬ ∃ columns, IndexedColumns.fromString schema = .ok columns := by
      rw [hread]
      exact fun h => h.elim fun _ h => by cases h
    rcases e with (message | _) | _ <;> exact .bind_of_error rfl (herror _ hfails)
  · exact .bind_of_ok rfl hok

theorem getDatabaseOid_ends {β : Type} {ok : β → Catalog → Prop}
    {error : DbError → Catalog → Prop} {tableOid : Nat} {f : Nat → CatalogM β}
    (herror : ∀ e, ¬ (tableMetaOid ∈ σ.oid2table ∧
      ∃ first, (σ.tableMeta.find? fun row => row.tableOid = tableOid) = some first) → error e σ)
    (hcurrent : EStateM.Ends σ (f σ.currentDatabaseOid) ok error)
    (hfirst : ∀ first, (σ.tableMeta.find? fun row => row.tableOid = tableOid) = some first →
      EStateM.Ends σ (f first.dbOid) ok error) :
    EStateM.Ends σ (getDatabaseOid tableOid >>= f) ok error := by
  unfold getDatabaseOid
  rw [bind_assoc]
  refine .get_bind ?_
  split
  · exact .bind_of_ok rfl hcurrent
  · rw [bind_assoc]
    refine getTable_ends (fun e h => herror e fun hall => h hall.1) fun _ => ?_
    rcases hfind : σ.tableMeta.find? fun row => row.tableOid = tableOid with _ | first
    · rw [hfind]
      exact .bind_of_error rfl (herror _ fun hall => by simp [hfind] at hall)
    · rw [hfind]
      exact .bind_of_ok rfl (hfirst first hfind)

/-- One row of the current database. -/
theorem loadTableRow_ends (hcurrent : row.dbOid = σ.currentDatabaseOid) :
    EStateM.Ends σ (loadTableRow row) (fun _ σ' => Loaded [row] σ σ') fun _ σ' =>
      Loaded [] σ σ' ∧ ¬ (tableMetaOid ∈ σ.oid2table ∧ σ.CanLoad row) := by
  have unchanged : Loaded [] σ σ := ⟨rfl, rfl, rfl, rfl, rfl, rfl, fun _ h => h, rfl⟩
  have entered : Loaded [] σ { σ with
      oidManager := σ.oidManager.setEntryOid .table row.tableName row.tableOid } :=
    ⟨rfl, rfl, rfl, rfl, rfl, rfl, fun _ h => h, rfl⟩
  -- the file, under the database it is looked for
  have file (dbOid : Nat) (hpath : σ.CanLoad row → ⟨dbOid, row.tableOid⟩ ∈ σ.files.paths) :
      EStateM.Ends
        { σ with oidManager := σ.oidManager.setEntryOid .table row.tableName row.tableOid }
        (do
          ofExcept ((← get).files.emptyFile ⟨dbOid, row.tableOid⟩)
          modify fun c => { c with
            oid2table := c.oid2table.insert row.tableOid
            table2cardinality := c.table2cardinality.insert row.tableName row.cardinality }
          : CatalogM Unit)
        (fun _ σ' => Loaded [row] σ σ') fun _ σ' =>
          Loaded [] σ σ' ∧ ¬ (tableMetaOid ∈ σ.oid2table ∧ σ.CanLoad row) := by
    refine .get_bind (.ofExcept_bind (fun e he => ⟨entered, fun hall => ?_⟩) fun _ _ => .modify ?_)
    · rw [Files.emptyFile, if_pos (hpath hall.2)] at he
      cases he
    · exact ⟨rfl, rfl, rfl, rfl, rfl, rfl, fun _ h => List.mem_insert_of_mem h, rfl⟩
  rw [loadTableRow]
  refine readSchema_ends (fun _ hfails => ⟨unchanged, fun hall => hfails hall.2.1⟩) ?_
  refine .modify_bind (getDatabaseOid_ends (fun _ hfails => ⟨entered, fun hall => hfails ?_⟩)
    (file _ fun can => hcurrent ▸ can.2.1) fun first hfind => file _ fun can => ?_)
  · obtain ⟨-, first, hfind, -⟩ := hall.2.2
    exact ⟨hall.1, first, hfind⟩
  · obtain ⟨-, other, hfind', hpath⟩ := can.2
    cases hfind.symm.trans hfind'
    exact hpath

/-- The rows of the current database are loaded, or the first of them up to one that fails. -/
theorem loadTableRows_ends :
    EStateM.Ends σ (loadTableRows rows)
      (fun _ σ' => Loaded (rows.filter fun row => row.dbOid = σ.currentDatabaseOid) σ σ')
      fun _ σ' => (∃ loaded, loaded ⊆ rows.filter (fun row => row.dbOid = σ.currentDatabaseOid) ∧
        Loaded loaded σ σ') ∧
        ¬ (tableMetaOid ∈ σ.oid2table ∧
          ∀ row ∈ rows, row.dbOid = σ.currentDatabaseOid → σ.CanLoad row) := by
  induction rows generalizing σ with
  | nil => exact .pure ⟨rfl, rfl, rfl, rfl, rfl, rfl, fun _ h => h, rfl⟩
  | cons row rows ih =>
      rw [loadTableRows]
      refine .get_bind ?_
      by_cases hcurrent : row.dbOid = σ.currentDatabaseOid
      · rw [if_pos hcurrent, List.filter_cons_of_pos (by simpa using hcurrent)]
        refine .bind ((loadTableRow_ends hcurrent).mono (fun _ _ h => h) fun _ _ h =>
          ⟨⟨[], List.nil_subset _, h.1⟩, fun hall => h.2 ⟨hall.1, hall.2 row List.mem_cons_self
            hcurrent⟩⟩) fun _ σ₁ hload => ?_
        have hrest := ih (σ := σ₁)
        rw [hload.currentDatabaseOid] at hrest
        refine hrest.mono (fun _ _ h => hload.append h) fun _ _ h => ?_
        obtain ⟨⟨loaded, hsub, hloaded⟩, hfails⟩ := h
        refine ⟨⟨row :: loaded, List.cons_subset_cons row hsub, hload.append hloaded⟩,
          fun hall => hfails ⟨hload.oid2table _ hall.1, fun other hother hdb => ?_⟩⟩
        exact hload.canLoad_iff.mpr (hall.2 other (List.mem_cons_of_mem _ hother) hdb)
      · rw [if_neg hcurrent, List.filter_cons_of_neg (by simpa using hcurrent)]
        refine ih.mono (fun _ _ h => h) fun _ _ h => ⟨h.1, fun hall => h.2 ⟨hall.1, ?_⟩⟩
        exact fun other hother => hall.2 other (List.mem_cons_of_mem _ hother)

theorem Catalog.Recorded.eq_of_key_eq {other : TableRow} (recorded : σ.Recorded)
    (hrow : row ∈ σ.tableMeta) (hother : other ∈ σ.tableMeta) (hkey : other.key = row.key) :
    other = row :=
  List.inj_on_of_nodup_map recorded.tables hother hrow hkey

/-- A loaded row gives its cardinality, and the others leave what is there. -/
theorem Loaded.getCardinality (h : Loaded rows σ σ') (recorded : σ.Recorded)
    (hrows : ∀ other ∈ rows, other ∈ σ.tableMeta ∧ other.dbOid = dbOid) (hrow : row ∈ σ.tableMeta)
    (hdb : row.dbOid = dbOid)
    (hright : row ∈ rows ∨ σ.getCardinality row.tableName = row.cardinality) :
    σ'.getCardinality row.tableName = row.cardinality := by
  rw [Catalog.getCardinality, h.table2cardinality]
  by_cases hmem : row.tableName ∈ Assoc.keys (rows.map fun row => (row.tableName, row.cardinality))
  · rw [Assoc.find?_foldl_insert_of_mem hmem, Option.getD_some]
    refine List.forall_mem_map.mpr fun other hother hname => ?_
    obtain ⟨hmeta, hdb'⟩ := hrows other hother
    have hkey : other.key = row.key := Prod.ext (hdb'.trans hdb.symm) hname
    rw [recorded.eq_of_key_eq hrow hmeta hkey]
  · rw [Assoc.find?_foldl_insert_of_not_mem hmem]
    refine hright.resolve_left fun hloaded => hmem ?_
    rw [Assoc.keys, List.map_map]
    exact List.mem_map_of_mem hloaded

/-- A row of `huadb_statistic` gives its column its value, and the others leave what is there. -/
theorem getDistinct_of_entries {rows : List StatisticRow} {col2distinct : Assoc String Nat}
    {tableName columnName : String} (nd : (rows.map StatisticRow.key).Nodup)
    (hkeys : ∀ other ∈ rows, other.dbOid = dbOid →
      columnKey other.tableName other.columnName = columnKey tableName columnName →
      other.tableName = tableName)
    (hright : storedDistinct dbOid tableName columnName rows = none →
      (col2distinct.find? (columnKey tableName columnName)).getD invalidDistinct =
        invalidDistinct) :
    (((statisticEntries dbOid rows).foldl (fun m e => m.insert e.1 e.2) col2distinct).find?
        (columnKey tableName columnName)).getD invalidDistinct =
      (storedDistinct dbOid tableName columnName rows).getD invalidDistinct := by
  -- an entry of the key is the row of the column
  have hentry (other : StatisticRow) (hother : other ∈ rows) (hdb : other.dbOid = dbOid)
      (hkey : columnKey other.tableName other.columnName = columnKey tableName columnName) :
      other.IsOf dbOid tableName columnName := by
    have hname := hkeys other hother hdb hkey
    rw [hname] at hkey
    exact ⟨hdb, hname, columnKey_inj hkey⟩
  rcases hfind : rows.find? fun row => row.IsOf dbOid tableName columnName with _ | row
  · have hnone : storedDistinct dbOid tableName columnName rows = none := by
      rw [storedDistinct, hfind]
      rfl
    rw [Assoc.find?_foldl_insert_of_not_mem, hright hnone, hnone]
    · rfl
    · intro hmem
      rw [Assoc.keys, statisticEntries, List.map_map] at hmem
      obtain ⟨other, hother, hkey⟩ := List.mem_map.mp hmem
      obtain ⟨hother, hdb⟩ := List.mem_filter.mp hother
      refine List.find?_eq_none.mp hfind other hother (decide_eq_true ?_)
      exact hentry other hother (of_decide_eq_true hdb) hkey
  · have hof : row.IsOf dbOid tableName columnName := by simpa using List.find?_some hfind
    have hrow := List.mem_of_find?_eq_some hfind
    rw [Assoc.find?_foldl_insert_of_mem (v := row.nDistinct), storedDistinct, hfind]
    · rfl
    · rw [Assoc.keys, statisticEntries, List.map_map]
      refine List.mem_map.mpr ⟨row, List.mem_filter.mpr ⟨hrow, decide_eq_true hof.1⟩, ?_⟩
      exact congrArg₂ columnKey hof.2.1 hof.2.2
    · refine List.forall_mem_map.mpr fun other hother hkey => ?_
      obtain ⟨hother, hdb⟩ := List.mem_filter.mp hother
      have hof' := hentry other hother (of_decide_eq_true hdb) hkey
      have hsame : other.key = row.key :=
        ((other.isOf_iff_key ..).mp hof').trans ((row.isOf_iff_key ..).mp hof).symm
      rw [List.inj_on_of_nodup_map nd hother hrow hsame]

end Load

section Enter

variable {σ σ' : Catalog} {dbOid : Nat} {rows : List TableRow}

theorem Loaded.getDistinct (h : Loaded rows σ σ') (tableName columnName : String) :
    σ'.getDistinct tableName columnName = σ.getDistinct tableName columnName := by
  rw [Catalog.getDistinct, Catalog.getDistinct, h.col2distinct]

/-- Rows were loaded, and what they leave was right. -/
theorem Loaded.ok (h : Loaded rows σ σ') (recorded : σ.Recorded)
    (hrows : ∀ row ∈ rows, row ∈ σ.tableMeta ∧ row.dbOid = σ.currentDatabaseOid)
    (hcardinality : ∀ row ∈ σ.tableMeta, row.dbOid = σ.currentDatabaseOid →
      row ∈ rows ∨ σ.getCardinality row.tableName = row.cardinality)
    (hdistinct : ∀ row ∈ σ.tableMeta, row.dbOid = σ.currentDatabaseOid → ∀ columnName,
      σ'.getDistinct row.tableName columnName =
        (storedDistinct row.dbOid row.tableName columnName σ.statistic).getD invalidDistinct) :
    σ'.Ok := by
  refine ⟨h.recorded recorded, fun row hrow hdb => ?_⟩
  rw [h.tableMeta] at hrow
  rw [h.currentDatabaseOid] at hdb
  rw [h.statistic]
  exact ⟨h.getCardinality recorded hrows hrow hdb (hcardinality row hrow hdb),
    hdistinct row hrow hdb⟩

theorem Catalog.CanEnter.remembers (can : σ.CanEnter dbOid) (h : ¬ σ.Loads dbOid) :
    σ.Remembers dbOid := by
  refine fun row hrow hdb => ⟨can.cardinality h row hrow hdb, fun columnName => ?_⟩
  rw [hdb]
  exact can.distinct row hrow hdb columnName fun hloads => absurd hloads h

theorem loadDatabase_ends (recorded : σ.Recorded) (can : σ.CanEnter σ.currentDatabaseOid) :
    EStateM.Ends σ loadDatabase (fun _ σ' => σ'.Ok) fun _ σ' => σ'.Ok := by
  unfold loadDatabase
  refine getTable_ends (fun _ hmeta => ⟨recorded, can.remembers fun h => hmeta h.2.1⟩)
    fun hmeta => .get_bind ?_
  have hcurrent (row : TableRow) (hrow : row ∈ σ.tableMeta.filter fun row =>
      row.dbOid = σ.currentDatabaseOid) :
      row ∈ σ.tableMeta ∧ row.dbOid = σ.currentDatabaseOid := by simpa using hrow
  refine .bind (loadTableRows_ends.mono (fun _ _ h => h) fun _ σ₁ h => ?_) fun _ σ₁ hload => ?_
  · obtain ⟨⟨loaded, hsub, hload⟩, hfails⟩ := h
    have hloads : ¬ σ.Loads σ.currentDatabaseOid := fun h => hfails ⟨h.2.1, h.2.2⟩
    refine hload.ok recorded (fun row hrow => hcurrent row (hsub hrow))
      (fun row hrow hdb => .inr (can.cardinality hloads row hrow hdb))
      fun row hrow hdb columnName => ?_
    rw [hload.getDistinct]
    exact (can.remembers hloads row hrow hdb).2 columnName
  · have hloaded (row : TableRow) (hrow : row ∈ σ.tableMeta)
        (hdb : row.dbOid = σ.currentDatabaseOid) :
        row ∈ (σ.tableMeta.filter fun row => row.dbOid = σ.currentDatabaseOid) ∨
          σ.getCardinality row.tableName = row.cardinality := .inl (by simpa using ⟨hrow, hdb⟩)
    unfold loadStatistics
    refine getTable_ends (fun _ hstatistic => ?_) fun _ => .modify ?_
    · refine hload.ok recorded hcurrent hloaded fun row hrow hdb columnName => ?_
      rw [hload.getDistinct, hdb]
      exact can.distinct row hrow hdb columnName fun _ h =>
        absurd (hload.oid2table _ h) hstatistic
    · have hentries (distincts : Assoc String Nat) :
          Loaded (σ.tableMeta.filter fun row => row.dbOid = σ.currentDatabaseOid)
            { σ with col2distinct := distincts } { σ₁ with col2distinct := distincts } :=
        { hload with col2distinct := rfl }
      refine (hentries _).ok ⟨recorded.tables, recorded.columns, recorded.valid,
        recorded.cardinality, recorded.distinct⟩ hcurrent hloaded fun row hrow hdb columnName => ?_
      change ((Assoc.find? _ _).getD _) = _
      rw [hload.currentDatabaseOid, hload.statistic, hload.col2distinct, hdb]
      refine getDistinct_of_entries recorded.columns (fun other hother hdb' =>
        can.keys row hrow hdb other hother hdb' columnName) fun hnone => ?_
      have hright := can.distinct row hrow hdb columnName fun _ _ => hnone
      rwa [hnone] at hright

/-- `ChangeDatabase`, to a database the maps and the system tables allow. -/
theorem changeDatabase_ends {databaseName : String} (ok : σ.Ok)
    (can : ∀ dbOid, σ.oidManager.getEntryOid .database databaseName = .ok dbOid →
      dbOid ≠ σ.currentDatabaseOid → σ.CanEnter dbOid) :
    EStateM.Ends σ (changeDatabase databaseName) (fun _ σ' => σ'.Ok) fun _ σ' => σ'.Ok := by
  unfold changeDatabase
  refine .get_bind (.throwIf_bind (fun _ => ok) fun _ => ?_)
  refine .ofExcept_bind (fun _ _ => ok) fun dbOid hentry => ?_
  split
  · exact .pure ok
  · rename_i hne
    refine .bind (exitDatabase_ends.mono (fun _ _ h => h) fun _ σ₁ h => ?_) fun _ σ₁ hexit => ?_
    · exact h.1.ok ok h.2
    have hentered : Exited σ { σ₁ with currentDatabaseOid := dbOid } :=
      hexit.trans ⟨⟨rfl, rfl, rfl, rfl, rfl⟩, rfl, fun _ _ => .rfl⟩
    have recorded := hentered.recorded ok.toRecorded
    have can := hentered.canEnter (can dbOid hentry hne)
    refine .modify_bind ?_
    split
    · exact .pure ⟨recorded, can.remembers fun h => h.1 ‹_›⟩
    · exact loadDatabase_ends recorded can

theorem createDatabase_ends {databaseName : String} {existsOk : Bool} (ok : σ.Ok) :
    EStateM.Ends σ (createDatabase databaseName existsOk dbOid) (fun _ σ' => σ'.Ok)
      fun _ σ' => σ'.Ok := by
  have same {σ' : Catalog} (h : SameStatistics σ σ')
      (hcurrent : σ'.currentDatabaseOid = σ.currentDatabaseOid) : σ'.Ok := h.ok ok hcurrent
  unfold createDatabase
  refine .get_bind (.throwIf_bind (fun _ => ok) fun _ => .modify_bind ?_)
  refine getTable_ends (fun _ _ => same ⟨rfl, rfl, rfl, rfl, rfl⟩ rfl) fun _ => ?_
  refine checkRecordSize_ends (fun _ => same ⟨rfl, rfl, rfl, rfl, rfl⟩ rfl) (.modify ?_)
  exact same ⟨rfl, rfl, rfl, rfl, rfl⟩ rfl

end Enter

/-! ## Runs -/

/-- One statement. -/
inductive Op where
  | createTable (tableName schema : String)
  | dropTable (tableName : String)
  | analyze (tables : List TableCounts)
  | createDatabase (databaseName : String) (existsOk : Bool)
  | changeDatabase (databaseName : String)

namespace Op

def exec : Op → CatalogM Unit
  | createTable tableName schema =>
      Statistics.createTable tableName schema invalidOid invalidOid true
  | dropTable tableName => Statistics.dropTable tableName
  | analyze tables => Statistics.analyze tables
  | createDatabase databaseName existsOk =>
      Statistics.createDatabase databaseName existsOk invalidOid
  | changeDatabase databaseName => Statistics.changeDatabase databaseName

/-- The state after a statement, whether it returns or throws. -/
def after (op : Op) (σ : Catalog) : Catalog :=
  match op.exec σ with
  | .ok _ σ' => σ'
  | .error _ σ' => σ'

/-- Nothing stale is left that the statement makes visible. -/
def Clean (σ : Catalog) : Op → Prop
  | createTable tableName _ => σ.oidManager.entryExists .table tableName = false →
      σ.Fresh σ.currentDatabaseOid tableName
  | dropTable _ => True
  | analyze tables => ∀ counts ∈ tables, ∀ column ∈ counts.valueSets,
      σ.Apart counts.tableName column.1
  | createDatabase _ _ => True
  | changeDatabase databaseName => ∀ dbOid,
      σ.oidManager.getEntryOid .database databaseName = .ok dbOid →
      dbOid ≠ σ.currentDatabaseOid → σ.CanEnter dbOid

end Op

/-- The state `CreateSystemTables` leaves in an empty data directory. -/
def initial : Catalog :=
  match createSystemTables {} with
  | .ok _ σ => σ
  | .error _ σ => σ

/-- The states of runs whose statements all meet `guard`. -/
inductive Reaches (guard : Catalog → Op → Prop) : Catalog → Prop
  | initial : Reaches guard initial
  | step {σ : Catalog} {op : Op} : Reaches guard σ → guard σ op → Reaches guard (op.after σ)

/-- The state after a list of statements. -/
def run (ops : List Op) : Catalog := ops.foldl (fun σ op => op.after σ) initial

theorem Reaches.foldl {guard : Catalog → Op → Prop} (hguard : ∀ σ op, guard σ op) {σ : Catalog}
    (reaches : Reaches guard σ) (ops : List Op) :
    Reaches guard (ops.foldl (fun σ op => op.after σ) σ) := by
  induction ops generalizing σ with
  | nil => exact reaches
  | cons op ops ih => exact ih (reaches.step (hguard σ op))

theorem Reaches.run_concat {guard : Catalog → Op → Prop} (ops : List Op) (op : Op)
    (reaches : Reaches guard (run ops)) (hop : guard (run ops) op) :
    Reaches guard (run (ops ++ [op])) := by
  rw [run, List.foldl_concat]
  exact reaches.step hop

theorem reaches_run (ops : List Op) : Reaches (fun _ _ => True) (run ops) :=
  Reaches.initial.foldl (fun _ _ => True.intro) ops

theorem Op.ok_after {op : Op} {σ : Catalog} (ok : σ.Ok) (clean : op.Clean σ) :
    (op.after σ).Ok := by
  have hends : EStateM.Ends σ op.exec (fun _ σ' => σ'.Ok) fun _ σ' => σ'.Ok := by
    cases op with
    | createTable tableName schema => exact createTable_ends ok clean
    | dropTable tableName => exact dropTable_ends ok
    | analyze tables => exact analyze_ends ok clean
    | createDatabase databaseName existsOk => exact createDatabase_ends ok
    | changeDatabase databaseName => exact changeDatabase_ends ok clean
  unfold Op.after
  cases hrun : op.exec σ with
  | ok u σ' => exact hends.ok_of hrun
  | error e σ' => exact hends.error_of hrun

theorem initial_eqs : initial.statistic = [] ∧
    initial.events = [.created systemDatabaseOid statisticMetaName,
      .created systemDatabaseOid databaseMetaName, .created systemDatabaseOid tableMetaName] ∧
    (initial.tableMeta.map TableRow.key).Nodup ∧
    ∀ row ∈ initial.tableMeta, row.dbOid ≠ invalidOid ∧ row.dbOid ≠ initial.currentDatabaseOid ∧
      row.cardinality =
        (lastCardinality row.dbOid row.tableName initial.events).getD invalidCardinality := by
  decide +kernel

theorem initial_ok : initial.Ok := by
  obtain ⟨hstatistic, hevents, tables, hrows⟩ := initial_eqs
  refine ⟨⟨tables, ?_, fun row hrow => (hrows row hrow).1, fun row hrow => (hrows row hrow).2.2, ?_⟩,
    fun row hrow hdb => absurd hdb (hrows row hrow).2.1⟩
  · rw [hstatistic]
    exact List.nodup_nil
  · intro row _ columnName
    rw [hstatistic, hevents]
    simp [storedDistinct, lastDistinct]

/-- The invariant holds along every run that makes nothing stale visible. -/
theorem Reaches.ok {σ : Catalog} (reaches : Reaches (fun σ op => op.Clean σ) σ) : σ.Ok := by
  induction reaches with
  | initial => exact initial_ok
  | step _ clean ih => exact Op.ok_after ih clean

end HuaDB.Statistics
