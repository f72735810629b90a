import HuaDB.Lib.DistinctCount
import HuaDB.Lib.ExceptLists
import HuaDB.RecordCodec
import HuaDB.Sql.TableScans
import HuaDB.StatisticUpdates

/-!
`DatabaseEngine::Analyze` on a table, and what of it is committed.

The scan takes the parameters that `GetNextRecord` has by default: no transaction, and no other
transaction is active. It sees every row that nobody deleted, committed or not, and no row that an
active transaction deleted. A value is hashed before it goes into a set, and NULL has no hash.

What the loop counts is what `DistinctCount.count` counts (`length_keep`), and the rows of the scan
and the committed ones differ by `early` and `missed`: `countsCommitted_iff` says when that does not
show in the numbers stored.
-/

namespace HuaDB

open Sql (Tuple tableScan)
open Statistics (Catalog CatalogM getTableOid getTable setCardinality setDistincts)

/-- The values of a record, as `Record::DeserializeFrom` reads them after the header. -/
def Record.values? (columns : ColumnList) (record : Record) : Option (List Value) :=
  ((do
    let bits ← takeBytes (Bitmap.ofSize columns.length).bits.length
    DataRecord.deserializeValues bits 0 columns : Decoder (List Value)) record.data).map Prod.fst

namespace AnalyzeTable

/-! ## `std::unordered_set<Value>` -/

section Sets

variable (stdHash : Value → Nat)

/-- `std::hash<Value>`, by the hash functions of the standard library. -/
def hash : Value → Except EvalError Nat
  | .null | .list _ => .error (.db "Unknown value type in hash")
  | value => .ok (stdHash value)

/-- Whether a set has an equal value: those of its hash code are compared. -/
def contains (value : Value) : List Value → Except EvalError Bool
  | [] => .ok false
  | other :: set =>
      if stdHash other = stdHash value then do
        if ← value.equal other then return true else contains value set
      else contains value set

/-- `insert`. -/
def insert (set : List Value) (value : Value) : Except EvalError (List Value) := do
  let _ ← hash stdHash value
  if ← contains stdHash value set then return set else return set ++ [value]

end Sets

/-! ## `DatabaseEngine::Analyze` -/

/-- A column that is analyzed, with the values found in it. -/
structure ValueSet where
  columnIndex : Nat
  columnName : String
  values : List Value := []

structure Tally where
  recordCount : Nat := 0
  valueSets : List ValueSet

/-- `Record::GetValue`. -/
def getValue (values : List Value) (columnIndex : Nat) : Except EvalError Value :=
  match values[columnIndex]? with
  | none => .error (.db "Column index out of range")
  | some value => .ok value

section Run

variable (stdHash : Value → Nat)

/-- The loop over the columns, for one record. -/
def countRecord (tally : Tally) (values : List Value) : Except EvalError Tally := do
  let valueSets ← tally.valueSets.mapM fun column => do
    let value ← getValue values column.columnIndex
    return { column with values := ← insert stdHash column.values value }
  return ⟨(tally.recordCount + 1) % 2 ^ 32, valueSets⟩

def toSqlError : EvalError → SqlError
  | .thrown e => .thrown e
  | .undefined => .memoryFault

/-- A record of the scan is read and counted. -/
def countTuple (columns : ColumnList) (tally : Tally) (tuple : Tuple) : Except SqlError Tally :=
  match tuple.record.values? columns with
  | none => .error .memoryFault
  | some values => (countRecord stdHash tally values).mapError toSqlError

/-- `CanGet` with the default arguments of `GetNextRecord`. -/
def skips (header : RecordHeader) : Bool := canGet header nullXid nullCid .readCommitted []

/-- The loop over the records. -/
def countTable (fuel oid : Nat) (columns : ColumnList) (valueSets : List ValueSet) : Sql Tally := do
  let scan := tableScan oid skips
  let rid ← scan.init
  let (tally, _) ← Volcano.foldLoop .divergence (scan.next fuel)
    (fun tally tuple => MonadExcept.ofExcept (countTuple stdHash columns tally tuple)) fuel
    { valueSets } rid
  return tally

/-- Run on the tables, which stay as they are. -/
def runSql {α : Type} (database : Database) (x : Sql α) : CatalogM α :=
  match x database with
  | .ok a _ => pure a
  | .error (.thrown (.dbException message)) _ => throw (.dbException message)
  | .error .divergence _ => throw .divergence
  | .error _ _ => throw .memoryFault

/-- `DatabaseEngine::Analyze` for one table and columns of it, with their numbers. -/
def analyze (fuel : Nat) (database : Database) (columns : ColumnList)
    (analyzed : List (Nat × ColumnDefinition)) (tableName : String) : CatalogM Unit := do
  let oid ← getTableOid tableName
  getTable oid
  let valueSets := analyzed.map fun column => { columnIndex := column.1, columnName := column.2.name }
  let tally ← runSql database (countTable stdHash fuel oid columns valueSets)
  setCardinality tableName tally.recordCount
  setDistincts tableName
    (tally.valueSets.map fun column => (column.columnName, column.values.length % 2 ^ 32))

end Run

/-! ## What is committed -/

/-- The row is of a transaction that is over, and no transaction that is over deleted it. -/
def committed (active : List Nat) (header : RecordHeader) : Bool :=
  header.xmin ∉ active ∧ (header.xmax = nullXid ∨ header.xmax ∈ active)

/-- Two values are equal, or both NULL. -/
def same (a b : Value) : Prop := a.equal b = .ok true ∨ (a.isNull = true ∧ b.isNull = true)

instance : DecidableRel same := fun a b => by
  unfold same
  cases a.equal b with
  | ok equal => exact decidable_of_iff (equal = true ∨ (a.isNull = true ∧ b.isNull = true)) (by simp)
  | error e => exact decidable_of_iff (a.isNull = true ∧ b.isNull = true) (by simp)

/-- The number of distinct values. -/
def distinctCount (values : List Value) : Nat := DistinctCount.count same [] values

/-- The value of a column in a row. -/
def cell (columns : ColumnList) (columnIndex : Nat) (tuple : Tuple) : Value :=
  (((tuple.record.values? columns).getD [])[columnIndex]?).getD .null

/-! ## Values of one type -/

/-- A type that a column of a table can have. -/
def UserType : ValueType → Prop
  | .int | .double | .char | .varchar => True
  | _ => False

section Values

variable {stdHash : Value → Nat} {value other : Value} {set values : List Value}

theorem exists_equal_eq_ok (huser : UserType value.getType)
    (htype : other.getType = value.getType) : ∃ equal, value.equal other = .ok equal := by
  cases value <;> cases other <;> cases htype <;> first | exact huser.elim | exact ⟨_, rfl⟩

theorem isNull_of_userType (huser : UserType value.getType) : value.isNull = false := by
  cases value <;> first | exact huser.elim | rfl

theorem same_iff (huser : UserType value.getType) :
    same value other ↔ value.equal other = .ok true := by
  rw [same, isNull_of_userType huser]
  simp

/-- Of values of one type the set has those that are the same as one of its own. -/
theorem contains_eq (hhash : ∀ a b : Value, a.equal b = .ok true → stdHash a = stdHash b)
    (huser : UserType value.getType) (hset : ∀ other ∈ set, other.getType = value.getType) :
    contains stdHash value set = .ok (decide (∃ other ∈ set, same value other)) := by
  induction set with
  | nil => simp [contains]
  | cons other set ih =>
      obtain ⟨hother, hset⟩ := List.forall_mem_cons.mp hset
      obtain ⟨equal, hequal⟩ := exists_equal_eq_ok huser hother
      have hsame : same value other ↔ equal = true := by
        rw [same_iff huser, hequal]
        simp
      rw [contains, ih hset, hequal]
      simp only [List.exists_mem_cons_iff, hsame]
      by_cases hcode : stdHash other = stdHash value
      · rw [if_pos hcode]
        cases equal <;> simp [bind, Except.bind, pure, Except.pure]
      · -- no equal value has another code
        have hdiffers : equal = false := by
          rw [Bool.eq_false_iff]
          exact fun htrue => hcode (hhash value other (htrue ▸ hequal)).symm
        rw [if_neg hcode, hdiffers]
        simp

/-- The set with a value, as `insert` leaves it. -/
def put (set : List Value) (value : Value) : List Value :=
  if ∃ other ∈ set, same value other then set else set ++ [value]

theorem insert_eq (hhash : ∀ a b : Value, a.equal b = .ok true → stdHash a = stdHash b)
    (huser : UserType value.getType) (hset : ∀ other ∈ set, other.getType = value.getType) :
    insert stdHash set value = .ok (put set value) := by
  have hash_eq : hash stdHash value = .ok (stdHash value) := by
    cases value <;> first | exact huser.elim | rfl
  rw [insert, hash_eq, contains_eq hhash huser hset, put]
  by_cases hsame : ∃ other ∈ set, same value other <;>
    simp [hsame, bind, Except.bind, pure, Except.pure]

/-- The distinct ones of some values. -/
def keep (values : List Value) : List Value := values.foldl put []

theorem length_foldl_put (set values : List Value) :
    (values.foldl put set).length = set.length + DistinctCount.count same set values := by
  induction values generalizing set with
  | nil => rfl
  | cons value values ih =>
      rw [List.foldl_cons, ih, DistinctCount.count, put]
      split
      · rfl
      · have hcover : DistinctCount.count same (set ++ [value]) values =
            DistinctCount.count same (value :: set) values :=
          DistinctCount.count_congr fun other _ => by simp [or_comm]
        rw [hcover, List.length_append, List.length_singleton]
        omega

theorem length_keep (values : List Value) : (keep values).length = distinctCount values := by
  rw [keep, length_foldl_put, List.length_nil, Nat.zero_add, distinctCount]

theorem mem_of_mem_foldl_put (h : other ∈ values.foldl put set) : other ∈ set ∨ other ∈ values := by
  induction values generalizing set with
  | nil => exact .inl h
  | cons value values ih =>
      rcases ih h with hset | hvalues
      · rw [put] at hset
        split at hset
        · exact .inl hset
        · rcases List.mem_append.mp hset with hset | hvalue
          · exact .inl hset
          · exact .inr (List.mem_cons.mpr (.inl (List.mem_singleton.mp hvalue)))
      · exact .inr (List.mem_cons_of_mem _ hvalues)

theorem mem_of_mem_keep (h : other ∈ keep values) : other ∈ values :=
  (mem_of_mem_foldl_put h).resolve_left List.not_mem_nil

end Values

/-! ## Values of a column -/

/-- NULL, or a value of the type. -/
def IsTyped (column : ColumnDefinition) (value : Value) : Prop :=
  value = .null ∨ value.getType = column.type

theorem isTyped_deserializeFrom {column : ColumnDefinition} {s rest : List UInt8} {value : Value}
    (h : column.deserializeFrom s = some (value, rest)) : value.getType = column.type := by
  rw [ColumnDefinition.deserializeFrom] at h
  cases htype : column.type with
  | nullType | list =>
      rw [htype] at h
      cases h
  | bool | int | uint | double =>
      rw [htype] at h
      dsimp only at h
      split at h
      · obtain ⟨n, s', -, h⟩ := Decoder.bind_eq_some_iff.mp h
        cases h
        rfl
      · cases h
  | char | varchar =>
      rw [htype] at h
      obtain ⟨size, s', -, h⟩ := Decoder.bind_eq_some_iff.mp h
      obtain ⟨str, s'', -, h⟩ := Decoder.bind_eq_some_iff.mp h
      cases h
      rfl

theorem isTyped_deserializeValues {columns : ColumnList} {bits s rest : List UInt8} {i : Nat}
    {values : List Value}
    (h : DataRecord.deserializeValues bits i columns s = some (values, rest)) :
    List.Forall₂ IsTyped columns values := by
  induction columns generalizing i s values with
  | nil =>
      cases h
      exact .nil
  | cons column columns ih =>
      rw [DataRecord.deserializeValues] at h
      split at h
      · cases h
      · dsimp only at h
        cases hbit : bitAt bits (i % 2 ^ 16) with
        | true =>
            rw [hbit, if_pos rfl] at h
            obtain ⟨value, s', hvalue, h⟩ := Decoder.bind_eq_some_iff.mp h
            obtain ⟨values', s'', hvalues, h⟩ := Decoder.bind_eq_some_iff.mp h
            cases h
            cases hvalue
            exact .cons (.inl rfl) (ih hvalues)
        | false =>
            rw [hbit, if_neg Bool.false_ne_true] at h
            obtain ⟨value, s', hvalue, h⟩ := Decoder.bind_eq_some_iff.mp h
            obtain ⟨values', s'', hvalues, h⟩ := Decoder.bind_eq_some_iff.mp h
            cases h
            exact .cons (.inr (isTyped_deserializeFrom hvalue)) (ih hvalues)

section Rows

variable {stdHash : Value → Nat} {columns : ColumnList} {tuple : Tuple} {values : List Value}
  {analyzed : List (Nat × ColumnDefinition)} {column : Nat × ColumnDefinition}

theorem isTyped_values? (h : tuple.record.values? columns = some values) :
    List.Forall₂ IsTyped columns values := by
  obtain ⟨⟨values', rest⟩, hread, rfl⟩ := Option.map_eq_some_iff.mp h
  obtain ⟨bits, s', -, hvalues⟩ := Decoder.bind_eq_some_iff.mp hread
  exact isTyped_deserializeValues hvalues

/-- The record can be read. -/
def Readable (columns : ColumnList) (tuple : Tuple) : Prop :=
  (tuple.record.values? columns).isSome = true

instance (columns : ColumnList) (tuple : Tuple) : Decidable (Readable columns tuple) :=
  inferInstanceAs (Decidable (_ = true))

/-- `GetValue` of a column that the table has. -/
theorem getValue_eq (h : tuple.record.values? columns = some values)
    (hcolumn : columns[column.1]? = some column.2) :
    getValue values column.1 = .ok (cell columns column.1 tuple) ∧
      IsTyped column.2 (cell columns column.1 tuple) := by
  obtain ⟨value, hvalue, htyped⟩ : ∃ value, values[column.1]? = some value ∧
      IsTyped column.2 value := by
    have htyped := isTyped_values? h
    obtain ⟨hlt, hget⟩ := List.getElem?_eq_some_iff.mp hcolumn
    have hlt' : column.1 < values.length := htyped.length_eq ▸ hlt
    refine ⟨values[column.1], List.getElem?_eq_getElem hlt', ?_⟩
    rw [← hget]
    exact htyped.get hlt hlt'
  rw [cell, h, getValue, Option.getD_some, hvalue]
  exact ⟨rfl, htyped⟩

/-- The columns are columns of the table, under their numbers. -/
def Columns (columns : ColumnList) (analyzed : List (Nat × ColumnDefinition)) : Prop :=
  ∀ column ∈ analyzed, columns[column.1]? = some column.2 ∧ UserType column.2.type

/-- No value of a row in a column is NULL. -/
def NoNull (columns : ColumnList) (analyzed : List (Nat × ColumnDefinition)) (tuple : Tuple) :
    Prop :=
  ∀ column ∈ analyzed, cell columns column.1 tuple ≠ .null

/-- What was counted in some rows. -/
def tallyOf (columns : ColumnList) (analyzed : List (Nat × ColumnDefinition))
    (rows : List Tuple) : Tally where
  recordCount := rows.length % 2 ^ 32
  valueSets := analyzed.map fun column =>
    ⟨column.1, column.2.name, keep (rows.map (cell columns column.1))⟩

theorem getType_cell (hread : Readable columns tuple) (hcolumns : Columns columns analyzed)
    (hcolumn : column ∈ analyzed) (hnull : cell columns column.1 tuple ≠ .null) :
    (cell columns column.1 tuple).getType = column.2.type := by
  obtain ⟨values, hvalues⟩ := Option.isSome_iff_exists.mp hread
  exact (getValue_eq hvalues (hcolumns column hcolumn).1).2.resolve_left hnull

/-- A row without NULL is counted. -/
theorem countTuple_eq_ok (hhash : ∀ a b : Value, a.equal b = .ok true → stdHash a = stdHash b)
    (hcolumns : Columns columns analyzed) {rows : List Tuple}
    (hrows : ∀ row ∈ rows, Readable columns row ∧ NoNull columns analyzed row)
    (hread : Readable columns tuple) (hnull : NoNull columns analyzed tuple) :
    countTuple stdHash columns (tallyOf columns analyzed rows) tuple =
      .ok (tallyOf columns analyzed (rows ++ [tuple])) := by
  obtain ⟨values, hvalues⟩ := Option.isSome_iff_exists.mp hread
  -- each set gets the value of its column
  have hset : ∀ set ∈ (tallyOf columns analyzed rows).valueSets, (do
      let value ← getValue values set.columnIndex
      return { set with values := ← insert stdHash set.values value }) =
        .ok { set with values := put set.values (cell columns set.columnIndex tuple) } := by
    refine List.forall_mem_map.mpr fun column hcolumn => ?_
    have htype := getType_cell hread hcolumns hcolumn (hnull column hcolumn)
    have hinsert : insert stdHash (keep (rows.map (cell columns column.1)))
        (cell columns column.1 tuple) = .ok (put (keep (rows.map (cell columns column.1)))
          (cell columns column.1 tuple)) := by
      refine insert_eq hhash (htype ▸ (hcolumns column hcolumn).2) fun other hother => ?_
      obtain ⟨row, hrow, rfl⟩ := List.mem_map.mp (mem_of_mem_keep hother)
      obtain ⟨hread', hnull'⟩ := hrows row hrow
      rw [getType_cell hread' hcolumns hcolumn (hnull' column hcolumn), htype]
    simp only [(getValue_eq hvalues (hcolumns column hcolumn).1).1, hinsert, bind, Except.bind,
      pure, Except.pure]
  have hcount : countRecord stdHash (tallyOf columns analyzed rows) values =
      .ok (tallyOf columns analyzed (rows ++ [tuple])) := by
    have hcounted : (rows.length % 2 ^ 32 + 1) % 2 ^ 32 = (rows ++ [tuple]).length % 2 ^ 32 := by
      rw [List.length_append, List.length_singleton, Nat.mod_add_mod]
    have hkept (column : Nat × ColumnDefinition) :
        put (keep (rows.map (cell columns column.1))) (cell columns column.1 tuple) =
          keep ((rows ++ [tuple]).map (cell columns column.1)) := by
      rw [List.map_append, keep, keep, List.foldl_append]
      rfl
    rw [countRecord, Except.mapM_eq_ok hset]
    unfold tallyOf
    rw [List.map_map, ← hcounted]
    simp only [← hkept]
    rfl
  rw [countTuple, hvalues]
  dsimp only
  rw [hcount]
  rfl

variable (stdHash) in
/-- A row with a NULL in one of the columns is not. -/
theorem exists_countTuple_eq_error (hcolumns : Columns columns analyzed) {tally : Tally}
    (hsets : tally.valueSets.map ValueSet.columnIndex = analyzed.map Prod.fst)
    (hread : Readable columns tuple) (hnull : ¬ NoNull columns analyzed tuple) :
    ∃ e, countTuple stdHash columns tally tuple = .error e := by
  obtain ⟨values, hvalues⟩ := Option.isSome_iff_exists.mp hread
  simp only [NoNull, not_forall, not_not] at hnull
  obtain ⟨column, hcolumn, hcell⟩ := hnull
  have hindex : column.1 ∈ tally.valueSets.map ValueSet.columnIndex :=
    hsets ▸ List.mem_map_of_mem hcolumn
  obtain ⟨set, hset, hcolumnIndex⟩ := List.mem_map.mp hindex
  rw [countTuple, hvalues]
  rcases hcount : countRecord stdHash tally values with e | tally'
  · refine ⟨toSqlError e, ?_⟩
    dsimp only
    rw [hcount]
    rfl
  · -- the set of the column has no place for NULL
    rw [countRecord] at hcount
    obtain ⟨sets, hsets, -⟩ := Except.bind_eq_ok_iff.mp hcount
    obtain ⟨set', hinsert⟩ := Except.exists_ok_of_mapM hsets set hset
    rw [hcolumnIndex, (getValue_eq hvalues (hcolumns column hcolumn).1).1, hcell] at hinsert
    cases hinsert

/-- The loop over rows that all can be counted. -/
theorem foldlM_countTuple_eq_ok
    (hhash : ∀ a b : Value, a.equal b = .ok true → stdHash a = stdHash b)
    (hcolumns : Columns columns analyzed) {done rows : List Tuple}
    (hdone : ∀ row ∈ done, Readable columns row ∧ NoNull columns analyzed row)
    (hrows : ∀ row ∈ rows, Readable columns row ∧ NoNull columns analyzed row) :
    rows.foldlM (countTuple stdHash columns) (tallyOf columns analyzed done) =
      .ok (tallyOf columns analyzed (done ++ rows)) := by
  induction rows generalizing done with
  | nil => rw [List.append_nil]; rfl
  | cons row rows ih =>
      obtain ⟨hrow, hrows⟩ := List.forall_mem_cons.mp hrows
      have hrest := ih (List.forall_mem_append.mpr ⟨hdone, List.forall_mem_singleton.mpr hrow⟩) hrows
      rw [List.append_assoc] at hrest
      rw [List.foldlM_cons, countTuple_eq_ok hhash hcolumns hdone hrow.1 hrow.2]
      exact hrest

theorem columnIndex_of_countTuple {tally tally' : Tally}
    (h : countTuple stdHash columns tally tuple = .ok tally') :
    tally'.valueSets.map ValueSet.columnIndex = tally.valueSets.map ValueSet.columnIndex := by
  rw [countTuple] at h
  split at h
  · cases h
  · rename_i values _
    rcases hcount : countRecord stdHash tally values with e | counted
    · rw [hcount] at h
      cases h
    · rw [hcount] at h
      cases h
      rw [countRecord] at hcount
      obtain ⟨sets, hsets, hpure⟩ := Except.bind_eq_ok_iff.mp hcount
      cases hpure
      refine Except.map_eq_of_mapM hsets fun set _ set' hset => ?_
      obtain ⟨value, -, hset⟩ := Except.bind_eq_ok_iff.mp hset
      obtain ⟨kept, -, hset⟩ := Except.bind_eq_ok_iff.mp hset
      cases hset
      rfl

variable (stdHash) in
/-- The loop stops at the first row that cannot be counted. -/
theorem exists_foldlM_countTuple_eq_error (hcolumns : Columns columns analyzed) {tally : Tally}
    (hsets : tally.valueSets.map ValueSet.columnIndex = analyzed.map Prod.fst)
    {rows : List Tuple} (hread : ∀ row ∈ rows, Readable columns row)
    (hnull : ¬ ∀ row ∈ rows, NoNull columns analyzed row) :
    ∃ e, rows.foldlM (countTuple stdHash columns) tally = .error e := by
  induction rows generalizing tally with
  | nil => exact absurd (fun _ h => (List.not_mem_nil h).elim) hnull
  | cons row rows ih =>
      obtain ⟨hrow, hread⟩ := List.forall_mem_cons.mp hread
      rw [List.foldlM_cons]
      rcases hcount : countTuple stdHash columns tally row with e | tally'
      · exact ⟨e, rfl⟩
      · have hnull' : ¬ ∀ row ∈ rows, NoNull columns analyzed row := by
          intro hrest
          refine hnull (List.forall_mem_cons.mpr ⟨?_, hrest⟩)
          by_contra hnot
          obtain ⟨e, herror⟩ := exists_countTuple_eq_error stdHash hcolumns hsets hrow hnot
          cases hcount.symm.trans herror
        exact ih ((columnIndex_of_countTuple hcount).trans hsets) hread hnull'

end Rows

/-! ## The scan and the catalog -/

/-- A table whose records can be read, on a chain of pages; the bound on the loops is enough. -/
structure Stored (database : Database) (fuel oid : Nat) (columns : ColumnList) (firstPageId : Nat)
    (l : List Nat) : Prop where
  table : ∃ table, database.tables.find? oid = some table ∧ table.firstPageId = firstPageId
  chain : (database.heap oid).ChainFrom firstPageId l
  readable : ∀ tuple ∈ (database.heap oid).chainRows l, Readable columns tuple
  fuel : ((database.heap oid).chainRows l).length < fuel

/-- The rows that are counted. -/
def scanned (rows : List Tuple) : List Tuple := rows.filter fun tuple => !skips tuple.record.header

section Scan

variable {stdHash : Value → Nat} {database : Database} {fuel oid firstPageId : Nat}
  {columns : ColumnList} {l : List Nat} {analyzed : List (Nat × ColumnDefinition)}

/-- The scan is a loop over the rows that are not skipped. -/
theorem countTable_eq (stored : Stored database fuel oid columns firstPageId l)
    (analyzed : List (Nat × ColumnDefinition)) :
    countTable stdHash fuel oid columns (tallyOf columns analyzed []).valueSets database =
      match (scanned ((database.heap oid).chainRows l)).foldlM (countTuple stdHash columns)
        (tallyOf columns analyzed []) with
      | .ok tally => .ok tally database
      | .error e => .error e database := by
  obtain ⟨table, htable, rfl⟩ := stored.table
  have hinit : (tableScan oid skips).init database = .ok ⟨table.firstPageId, 0⟩ database := by
    change (Sql.getTable oid >>= _) database = _
    rw [EStateM.bind_apply, Sql.getTable_eq htable]
    rfl
  have hserves : (tableScan oid skips).Serves fuel database ⟨table.firstPageId, 0⟩
      (scanned ((database.heap oid).chainRows l)) :=
    Sql.serves_of_left htable stored.chain.left stored.fuel
  have hfuel : (scanned ((database.heap oid).chainRows l)).length < fuel :=
    (List.length_filter_le _ _).trans_lt stored.fuel
  have hloop := hserves.foldLoop_eq .divergence hfuel
    (fun tally tuple => MonadExcept.ofExcept (countTuple stdHash columns tally tuple))
    (countTuple stdHash columns) (fun tally tuple => by
      cases countTuple stdHash columns tally tuple <;> rfl) (tallyOf columns analyzed [])
  rw [countTable, EStateM.bind_of_ok hinit]
  rcases hfold : (scanned ((database.heap oid).chainRows l)).foldlM (countTuple stdHash columns)
    (tallyOf columns analyzed []) with e | tally
  · rw [hfold] at hloop
    exact EStateM.bind_of_error hloop
  · rw [hfold] at hloop
    obtain ⟨rid, hloop⟩ := hloop
    exact EStateM.bind_of_ok hloop

/-- The scan of rows that all can be counted. -/
theorem countTable_eq_ok (hhash : ∀ a b : Value, a.equal b = .ok true → stdHash a = stdHash b)
    (hcolumns : Columns columns analyzed)
    (stored : Stored database fuel oid columns firstPageId l)
    (hnull : ∀ row ∈ scanned ((database.heap oid).chainRows l), NoNull columns analyzed row) :
    countTable stdHash fuel oid columns (tallyOf columns analyzed []).valueSets database =
      .ok (tallyOf columns analyzed (scanned ((database.heap oid).chainRows l))) database := by
  have hrows (row : Tuple) (hrow : row ∈ scanned ((database.heap oid).chainRows l)) :
      Readable columns row ∧ NoNull columns analyzed row :=
    ⟨stored.readable row (List.mem_filter.mp hrow).1, hnull row hrow⟩
  have hfold := foldlM_countTuple_eq_ok hhash hcolumns
    (fun _ (h : _ ∈ []) => (List.not_mem_nil h).elim) hrows
  rw [countTable_eq stored, hfold]
  rfl

variable (stdHash) in
theorem exists_countTable_eq_error (hcolumns : Columns columns analyzed)
    (stored : Stored database fuel oid columns firstPageId l)
    (hnull : ¬ ∀ row ∈ scanned ((database.heap oid).chainRows l), NoNull columns analyzed row) :
    ∃ e, countTable stdHash fuel oid columns (tallyOf columns analyzed []).valueSets database =
      .error e database := by
  have hread (row : Tuple) (hrow : row ∈ scanned ((database.heap oid).chainRows l)) :
      Readable columns row := stored.readable row (List.mem_filter.mp hrow).1
  have hindices : (tallyOf columns analyzed []).valueSets.map ValueSet.columnIndex =
      analyzed.map Prod.fst := by
    rw [tallyOf, List.map_map]
    rfl
  obtain ⟨e, hfold⟩ :=
    exists_foldlM_countTuple_eq_error stdHash hcolumns hindices hread hnull
  refine ⟨e, ?_⟩
  rw [countTable_eq stored, hfold]

end Scan

/-- The catalog has the table and the tables with the statistics, and names each of their rows
once. -/
structure Known (σ : Catalog) (tableName : String) (oid : Nat) : Prop where
  entry : σ.oidManager.getEntryOid .table tableName = .ok oid
  loaded : oid ∈ σ.oid2table
  tableMeta : tableMetaOid ∈ σ.oid2table
  statistic : statisticMetaOid ∈ σ.oid2table
  tables : (σ.tableMeta.map Statistics.TableRow.key).Nodup
  columns : (σ.statistic.map Statistics.StatisticRow.key).Nodup
  row : σ.HasTable tableName

section Analyze

variable {stdHash : Value → Nat} {database : Database} {fuel oid firstPageId : Nat}
  {columns : ColumnList} {l : List Nat} {analyzed : List (Nat × ColumnDefinition)} {σ : Catalog}
  {tableName : String} {rows : List Tuple}

/-- Columns of a table with distinct names are told apart by their names. -/
theorem eq_of_name_eq (hnames : (columns.map ColumnDefinition.name).Nodup)
    (hcolumns : Columns columns analyzed) {column other : Nat × ColumnDefinition}
    (hcolumn : column ∈ analyzed) (hother : other ∈ analyzed)
    (hname : column.2.name = other.2.name) : column = other := by
  have hget := (hcolumns column hcolumn).1
  have hget' := (hcolumns other hother).1
  have hlt : column.1 < (columns.map ColumnDefinition.name).length := by
    rw [List.length_map]
    exact (List.getElem?_eq_some_iff.mp hget).1
  have hindex : column.1 = other.1 := by
    rw [← List.getElem?_inj hlt hnames, List.getElem?_map, List.getElem?_map, hget, hget',
      Option.map_some, Option.map_some, hname]
  rw [hindex] at hget
  exact Prod.ext hindex (Option.some.inj (hget.symm.trans hget'))

/-- What `analyze` stores, and when it completes. -/
theorem analyze_ends (hhash : ∀ a b : Value, a.equal b = .ok true → stdHash a = stdHash b)
    (hnames : (columns.map ColumnDefinition.name).Nodup) (hcolumns : Columns columns analyzed)
    (stored : Stored database fuel oid columns firstPageId l) (known : Known σ tableName oid)
    (hrows : rows = scanned ((database.heap oid).chainRows l)) :
    EStateM.Ends σ (analyze stdHash fuel database columns analyzed tableName)
      (fun _ σ' => ((∀ row ∈ rows, NoNull columns analyzed row) ∧
          ∀ column ∈ analyzed, σ.HasRoom tableName column.2.name) ∧
        σ'.HoldsCardinality tableName (rows.length % 2 ^ 32) ∧
        ∀ column ∈ analyzed, σ'.HoldsDistinct tableName column.2.name
          (distinctCount (rows.map (cell columns column.1)) % 2 ^ 32))
      fun _ _ => ¬ ((∀ row ∈ rows, NoNull columns analyzed row) ∧
        ∀ column ∈ analyzed, σ.HasRoom tableName column.2.name) := by
  subst hrows
  generalize hrows : scanned ((database.heap oid).chainRows l) = rows
  have hread : ∀ row ∈ rows, Readable columns row := by
    rw [← hrows]
    exact fun row hrow => stored.readable row (List.mem_filter.mp hrow).1
  have hentry : σ.oidManager.entryExists .table tableName = true := by
    have hentry := known.entry
    rw [OidManager.getEntryOid] at hentry
    rw [OidManager.entryExists]
    split at hentry
    · cases hentry
    · rename_i hfind
      rw [hfind]
      rfl
  unfold analyze
  rw [getTableOid, bind_assoc]
  refine .get_bind ?_
  rw [bind_assoc]
  refine .throwIf_bind (fun h => ?_) fun _ => ?_
  · rw [hentry] at h
    cases h
  refine .ofExcept_bind (fun e he => by cases he.symm.trans known.entry) fun oid' he => ?_
  cases he.symm.trans known.entry
  refine Statistics.getTable_ends (fun _ h => absurd known.loaded h) fun _ => ?_
  by_cases hnull : ∀ row ∈ rows, NoNull columns analyzed row
  · have hcount := countTable_eq_ok hhash hcolumns stored (by rwa [hrows])
    rw [hrows] at hcount
    have hrun : runSql database (countTable stdHash fuel oid columns
        (tallyOf columns analyzed []).valueSets) σ = .ok (tallyOf columns analyzed rows) σ := by
      rw [runSql, hcount]
      rfl
    refine .bind_of_ok hrun (.bind ((Statistics.setCardinality_ends known.tables).mono
      (fun _ _ h => h) fun _ _ h => absurd ⟨known.tableMeta, known.row⟩ h.1) fun _ σ' h => ?_)
    obtain ⟨-, rfl⟩ := h
    have hsets : ((tallyOf columns analyzed rows).valueSets.map fun column =>
        (column.columnName, column.values.length % 2 ^ 32)) = analyzed.map fun column =>
          (column.2.name, distinctCount (rows.map (cell columns column.1)) % 2 ^ 32) := by
      rw [tallyOf, List.map_map]
      refine List.map_congr_left fun column _ => ?_
      rw [Function.comp_apply, length_keep]
    rw [hsets]
    refine EStateM.Ends.mono (Statistics.setDistincts_ends
      (σ := σ.putCardinality tableName (tallyOf columns analyzed rows).recordCount)
      known.columns known.statistic) (fun _ σ'' h => ?_) fun _ _ h hall =>
        h (List.forall_mem_map.mpr hall.2)
    obtain ⟨hroom, rfl⟩ := h
    refine ⟨⟨hnull, fun column hcolumn => hroom _ (List.mem_map_of_mem hcolumn)⟩, ?_,
      fun column hcolumn => ?_⟩
    · exact (Statistics.holdsCardinality_putCardinality known.row).putDistincts _
    · refine Statistics.holdsDistinct_putDistincts (List.mem_map_of_mem hcolumn) ?_
      refine List.forall_mem_map.mpr fun other hother hname => ?_
      rw [eq_of_name_eq hnames hcolumns hother hcolumn hname]
  · obtain ⟨e, hcount⟩ := exists_countTable_eq_error stdHash hcolumns stored
      (by rwa [hrows])
    obtain ⟨e', hrun⟩ : ∃ e', runSql database (countTable stdHash fuel oid columns
        (tallyOf columns analyzed []).valueSets) σ = .error e' σ := by
      rw [runSql, hcount]
      rcases e with (message | what) | _ | _ <;> exact ⟨_, rfl⟩
    exact .bind_of_error hrun fun h => hnull h.1

end Analyze

/-! ## What is counted and what is committed -/

section Committed

variable (active : List Nat) (rows : List Tuple)

/-- The rows that are committed. -/
def committedRows : List Tuple := rows.filter fun tuple => committed active tuple.record.header

/-- Committed rows that are counted. -/
def counted : List Tuple :=
  (scanned rows).filter fun tuple => committed active tuple.record.header

/-- Rows that are counted and not committed. -/
def early : List Tuple :=
  (scanned rows).filter fun tuple => !committed active tuple.record.header

/-- Committed rows that are not counted. -/
def missed : List Tuple :=
  (committedRows active rows).filter fun tuple => skips tuple.record.header

theorem scanned_perm : (scanned rows).Perm (counted active rows ++ early active rows) :=
  (List.filter_append_perm _ _).symm

theorem committedRows_perm :
    (committedRows active rows).Perm (counted active rows ++ missed active rows) := by
  have hsplit := (List.filter_append_perm (fun tuple => !skips tuple.record.header)
    (committedRows active rows)).symm
  have hcounted : (committedRows active rows).filter (fun tuple => !skips tuple.record.header) =
      counted active rows := by
    rw [committedRows, counted, scanned, List.filter_filter, List.filter_filter]
    exact List.filter_congr fun _ _ => Bool.and_comm ..
  simp only [hcounted, Bool.not_not] at hsplit
  exact hsplit

end Committed

/-- The values of a column in some rows that are new after other rows. -/
def newValues (columns : ColumnList) (columnIndex : Nat) (seen rows : List Tuple) : Nat :=
  DistinctCount.count same (seen.map (cell columns columnIndex)) (rows.map (cell columns columnIndex))

/-- When `ANALYZE` completes with the numbers of what is committed. -/
structure Countable (σ : Catalog) (tableName : String) (columns : ColumnList)
    (analyzed : List (Nat × ColumnDefinition)) (active : List Nat) (rows : List Tuple) : Prop where
  noNull : ∀ row ∈ scanned rows, NoNull columns analyzed row
  hasRoom : ∀ column ∈ analyzed, σ.HasRoom tableName column.2.name
  size : (committedRows active rows).length < 2 ^ 32
  count : (early active rows).length % 2 ^ 32 = (missed active rows).length % 2 ^ 32
  values : ∀ column ∈ analyzed,
    newValues columns column.1 (counted active rows) (early active rows) % 2 ^ 32 =
      newValues columns column.1 (counted active rows) (missed active rows) % 2 ^ 32

/-- `ANALYZE` completes, and stores how many rows are committed and how many distinct values each
column has in them. -/
def CountsCommitted (stdHash : Value → Nat) (fuel : Nat) (database : Database)
    (columns : ColumnList) (analyzed : List (Nat × ColumnDefinition)) (tableName : String)
    (σ : Catalog) (rows : List Tuple) : Prop :=
  ∃ σ', analyze stdHash fuel database columns analyzed tableName σ = .ok () σ' ∧
    σ'.HoldsCardinality tableName (committedRows database.txn.getActiveTransactions rows).length ∧
    ∀ column ∈ analyzed, σ'.HoldsDistinct tableName column.2.name (distinctCount
      ((committedRows database.txn.getActiveTransactions rows).map (cell columns column.1)))

/-- The numbers in the DOUBLE columns. -/
def Doubles (columns : ColumnList) (analyzed : List (Nat × ColumnDefinition)) (rows : List Tuple)
    (x : Float) : Prop :=
  ∃ column ∈ analyzed, ∃ row ∈ rows, ∃ val, cell columns column.1 row = .double val ∧
    val.toFloat = x

section Counts

variable {stdHash : Value → Nat} {database : Database} {fuel oid firstPageId : Nat}
  {columns : ColumnList} {l : List Nat} {analyzed : List (Nat × ColumnDefinition)} {σ : Catalog}
  {tableName : String} {rows : List Tuple}

/-- NULL is the same as NULL only. -/
theorem not_same_null {value : Value} (huser : UserType value.getType) :
    ¬ same .null value ∧ ¬ same value .null := by
  cases value with
  | int | double | char | varchar =>
      simp [same, Value.equal, Value.compareWith, Value.getType, Value.isNull]
  | _ => exact huser.elim

theorem same_double_iff {a b : Double} :
    same (.double a) (.double b) ↔ a.toFloat == b.toFloat := by
  have huser : UserType (Value.double a).getType := True.intro
  rw [same_iff huser]
  simp [Value.equal, Value.compareWith, Value.getType]

/-- Values of one type that is not DOUBLE are the same where they are equal. -/
theorem same_iff_eq {a b : Value} (huser : UserType a.getType) (hdouble : a.getType ≠ .double)
    (htype : b.getType = a.getType) : same a b ↔ a = b := by
  rw [same_iff huser]
  cases a with
  | int | char | varchar =>
      cases b <;> cases htype
      simp [Value.equal, Value.compareWith, Value.getType]
  | double => exact absurd rfl hdouble
  | _ => exact huser.elim

theorem same_iff_eq_of_isTyped {column : ColumnDefinition} {a b : Value}
    (huser : UserType column.type) (hdouble : column.type ≠ .double) (ha : IsTyped column a)
    (hb : IsTyped column b) : same a b ↔ a = b := by
  rcases ha with rfl | ha
  · rcases hb with rfl | hb
    · exact iff_of_true (.inr ⟨rfl, rfl⟩) rfl
    · rw [← hb] at huser
      refine iff_of_false (not_same_null huser).1 ?_
      rintro rfl
      exact huser
  · rw [← ha] at huser hdouble
    rcases hb with rfl | hb
    · refine iff_of_false (not_same_null huser).2 ?_
      rintro rfl
      exact huser
    · exact same_iff_eq huser hdouble (hb.trans ha.symm)

/-- Distinct values are the elements of a set where `Equal` is equality. -/
theorem distinctCount_map {β : Type} [DecidableEq β] {f : β → Value}
    (h : ∀ a b, same (f a) (f b) ↔ a = b) (l : List β) :
    distinctCount (l.map f) = l.toFinset.card := by
  have hmap : DistinctCount.count same (([] : List β).map f) (l.map f) =
      DistinctCount.count (· = ·) [] l := DistinctCount.count_map h
  rw [distinctCount]
  refine hmap.trans ((DistinctCount.count_eq_card [] l).trans ?_)
  rw [List.toFinset_nil, Finset.sdiff_empty]

theorem distinctCount_int (vals : List Int32) :
    distinctCount (vals.map .int) = vals.toFinset.card := by
  refine distinctCount_map (fun a b => ?_) vals
  have hsame : same (.int a) (.int b) ↔ Value.int a = .int b := same_iff_eq True.intro nofun rfl
  rw [hsame, Value.int.injEq]

theorem distinctCount_varchar (strs : List (List UInt8)) :
    distinctCount (strs.map .varchar) = strs.toFinset.card := by
  refine distinctCount_map (fun a b => ?_) strs
  have hsame : same (.varchar a) (.varchar b) ↔ Value.varchar a = .varchar b :=
    same_iff_eq True.intro nofun rfl
  rw [hsame, Value.varchar.injEq]

/-- Values of a column, NULL among them, are told apart as those of `double` are. -/
theorem perOn_cells (hcolumns : Columns columns analyzed)
    (hread : ∀ row ∈ rows, Readable columns row)
    (hdouble : DistinctCount.PerOn (fun x y : Float => x == y) (Doubles columns analyzed rows))
    {column : Nat × ColumnDefinition} (hcolumn : column ∈ analyzed) :
    DistinctCount.PerOn same fun value => ∃ row ∈ rows, cell columns column.1 row = value := by
  have huser := (hcolumns column hcolumn).2
  have htyped {value : Value} (h : ∃ row ∈ rows, cell columns column.1 row = value) :
      IsTyped column.2 value := by
    obtain ⟨row, hrow, rfl⟩ := h
    obtain ⟨values, hvalues⟩ := Option.isSome_iff_exists.mp (hread row hrow)
    exact (getValue_eq hvalues (hcolumns column hcolumn).1).2
  by_cases htype : column.2.type = .double
  · have hshape {value : Value} (h : ∃ row ∈ rows, cell columns column.1 row = value) :
        value = .null ∨ ∃ x : Double, value = .double x ∧
          Doubles columns analyzed rows x.toFloat := by
      refine (htyped h).imp_right fun hvalue => ?_
      obtain ⟨row, hrow, hcell⟩ := h
      cases value with
      | double x => exact ⟨x, rfl, column, hcolumn, row, hrow, x, hcell, rfl⟩
      | _ => cases hvalue.trans htype
    have hnull (x : Double) : ¬ same .null (.double x) ∧ ¬ same (.double x) .null :=
      not_same_null True.intro
    refine ⟨fun {a b} ha hb h => ?_, fun {a b c} ha hb hc h h' => ?_⟩
    · rcases hshape ha with rfl | ⟨x, rfl, hx⟩
      · rcases hshape hb with rfl | ⟨y, rfl, hy⟩
        · exact h
        · exact absurd h (hnull y).1
      · rcases hshape hb with rfl | ⟨y, rfl, hy⟩
        · exact absurd h (hnull x).2
        · exact same_double_iff.mpr (hdouble.symm hx hy (same_double_iff.mp h))
    · rcases hshape ha with rfl | ⟨x, rfl, hx⟩
      · rcases hshape hb with rfl | ⟨y, rfl, hy⟩
        · exact h'
        · exact absurd h (hnull y).1
      · rcases hshape hb with rfl | ⟨y, rfl, hy⟩
        · exact absurd h (hnull x).2
        · rcases hshape hc with rfl | ⟨z, rfl, hz⟩
          · exact absurd h' (hnull y).2
          · exact same_double_iff.mpr
              (hdouble.trans hx hy hz (same_double_iff.mp h) (same_double_iff.mp h'))
  · have heq {a b : Value} (ha : ∃ row ∈ rows, cell columns column.1 row = a)
        (hb : ∃ row ∈ rows, cell columns column.1 row = b) : same a b ↔ a = b :=
      same_iff_eq_of_isTyped huser htype (htyped ha) (htyped hb)
    refine ⟨fun ha hb h => ?_, fun ha hb hc h h' => ?_⟩
    · exact (heq hb ha).mpr ((heq ha hb).mp h).symm
    · exact (heq ha hc).mpr (((heq ha hb).mp h).trans ((heq hb hc).mp h'))

/-- What is counted of rows in two parts. -/
theorem distinctCount_of_perm {columnIndex : Nat} {all some more : List Tuple}
    (per : DistinctCount.PerOn same fun value => ∃ row ∈ rows, cell columns columnIndex row = value)
    (hperm : all.Perm (some ++ more)) (hall : ∀ row ∈ all, row ∈ rows) :
    distinctCount (all.map (cell columns columnIndex)) =
      distinctCount (some.map (cell columns columnIndex)) +
        newValues columns columnIndex some more := by
  have hin {l : List Tuple} (hl : ∀ row ∈ l, row ∈ rows) :
      ∀ value ∈ l.map (cell columns columnIndex),
        ∃ row ∈ rows, cell columns columnIndex row = value :=
    List.forall_mem_map.mpr fun row hrow => ⟨row, hl row hrow, rfl⟩
  have hboth (row : Tuple) (hrow : row ∈ some ++ more) : row ∈ rows :=
    hall row (hperm.mem_iff.mpr hrow)
  obtain ⟨hsome, hmore⟩ := List.forall_mem_append.mp hboth
  rw [distinctCount, DistinctCount.count_perm per (hperm.map _) (hin hall), List.map_append,
    DistinctCount.count_append per (hin hsome) (hin hmore) fun _ h => (List.not_mem_nil h).elim,
    List.append_nil]
  rfl

end Counts

/-! ## Tables of one page -/

/-- The records of table 10001 on page 4, while transaction 8 is active. -/
def onePage (records : List Record) : Database where
  pages key := if key = ⟨10001, 4⟩ then some (Sql.pageOf nullPageId records) else none
  tables := [(10001, ⟨10001, 10000, 4⟩)]
  txn := { nextXid := 9, xid2cid := [(8, 1)] }

/-- A catalog that has this table as `t`. -/
def catalogOfT : Catalog where
  oidManager := { nextOid := 10002, name2oid := [((.table, "t"), 10001)] }
  oid2table := [10001, statisticMetaOid, tableMetaOid]
  currentDatabaseOid := 10000
  tableMeta := [⟨⟨10001, 10000, "t", "1\na int 4\n"⟩, Statistics.invalidCardinality⟩]

def columnA : ColumnDefinition := ⟨"a", .int, 4⟩

/-- `std::hash<int32_t>`. -/
def hashInt : Value → Nat
  | .int val => val.toUInt32.toNat
  | _ => 0

/-- `ANALYZE t` counts what is committed of some records. -/
def CountsOnePage (records : List Record) : Prop :=
  CountsCommitted hashInt 5 (onePage records) [columnA] [(0, columnA)] "t" catalogOfT
    (((onePage records).heap 10001).chainRows [4])

/-- Transaction 8 replaces a row of value 5 by an equal one. -/
def replaced : List Record :=
  [⟨⟨false, 2, nullXid, 0⟩, [0, 5, 0, 0, 0]⟩, ⟨⟨true, 2, 8, 0⟩, [0, 5, 0, 0, 0]⟩,
    ⟨⟨false, 8, nullXid, 0⟩, [0, 5, 0, 0, 0]⟩]

theorem hashInt_eq {a b : Value} (h : a.equal b = .ok true) : hashInt a = hashInt b := by
  cases a with
  | int x =>
      cases b with
      | int y =>
          have hval : x = y := by simpa [Value.equal, Value.compareWith, Value.getType] using h
          rw [hval]
      | _ => cases h
  | _ =>
      cases b with
      | int y => cases h
      | _ => rfl

theorem known_catalogOfT : Known catalogOfT "t" 10001 where
  entry := rfl
  loaded := by decide
  tableMeta := by decide
  statistic := by decide
  tables := by decide
  columns := by decide
  row := rfl

theorem stored_replaced : Stored (onePage replaced) 5 10001 [columnA] 4 [4] where
  table := ⟨⟨10001, 10000, 4⟩, rfl, rfl⟩
  chain := by
    refine ⟨⟨by decide, rfl, nullPageId, rfl, rfl⟩, List.forall_mem_singleton.mpr ?_⟩
    rintro _ ⟨⟩
    exact Sql.pageOf_filled (List.cons_ne_nil _ _) (by decide)
  readable := by decide +kernel
  fuel := by decide +kernel

end AnalyzeTable

end HuaDB
