import HuaDB.Lib.ExceptLists
import HuaDB.Planner
import HuaDB.TableLayout

/-!
What `InsertExecutor` and `UpdateExecutor` store, and whether it conforms to the columns of
the table.

The planner compares types and sizes that it infers from expressions: for a list of values
from its first row, for an UPDATE not at all.  The executors hand on whatever values the
rows have, and the bytes of a record have no types.

A run of the two executors is one `writeRow` for every record that the child gives.  Locks
that are refused end the statement with an exception, as every other error does.
-/

namespace HuaDB

/-! ## The executors -/

namespace ColumnDefinition

/-- The value is NULL or of the type of the column, and a string is no longer than its
maximum. -/
def Admits (column : ColumnDefinition) (value : Value) : Prop :=
  value.hasType column.type = true ∧
    ∀ str, value = .char str ∨ value = .varchar str → str.length ≤ column.maxSize

theorem admits_null (column : ColumnDefinition) : column.Admits .null := by
  refine ⟨rfl, ?_⟩
  rintro str (h | h) <;> cases h

end ColumnDefinition

/-- What stops a statement that writes. -/
inductive WriteError where
  | expression (e : EvalError)
  | storage (e : DbError)
deriving DecidableEq, Repr

/-- What the two operations of a row on the table depend on besides the table. -/
structure WriteEnv where
  insert : InsertEnv
  deleteLsn : Option Nat

/-- A record that was stored, and the table right after. -/
structure StoredRow where
  rid : Rid
  values : List Value
  table : TableData

section

variable (regexMatch : RegexMatch) (columns : ColumnList) (plan : Operator)

/-- The values that the executor of a plan makes of a record of its child. -/
def newValues (record : ExecRecord) : Except EvalError (List Value) :=
  match plan with
  | .insert _ _ insertColumns _ => placeValues columns insertColumns record.values
  | .update _ _ _ updateExprs =>
      OperatorExpression.evaluateAll regexMatch record.values updateExprs
  | _ => .error .undefined

def Operator.isUpdate : Operator → Bool
  | .update .. => true
  | _ => false

/-- The first half of `UpdateRecord`: the record that is updated is deleted. -/
def clearRow (xid : Nat) (table : TableData) (record : ExecRecord) (deleteLsn : Option Nat) :
    Except WriteError TableData :=
  if plan.isUpdate then (table.deleteRecord record.rid xid deleteLsn).mapError .storage
  else .ok table

/-- A round of the loop of `InsertExecutor::Next`, or of `UpdateExecutor::Next`, whose
`UpdateRecord` is a deletion and an insertion. -/
def writeRow (xid cid : Nat) (table : TableData) (record : ExecRecord) (env : WriteEnv) :
    Except WriteError StoredRow := do
  let values ← (newValues regexMatch columns plan record).mapError .expression
  let newRecord ← (DataRecord.ofValues values).mapError .expression
  let table ← clearRow plan xid table record env.deleteLsn
  let (rid, table) ← (table.insertRecord newRecord xid cid env.insert).mapError .storage
  return ⟨rid, values, table⟩

/-- The loop over the records of the child. One that is updated is in the table. -/
inductive WriteRun (xid cid : Nat) : TableData → List ExecRecord → List StoredRow → Prop
  | nil (table : TableData) : WriteRun xid cid table [] []
  | cons {table : TableData} {record : ExecRecord} {records : List ExecRecord} {env : WriteEnv}
      {stored : StoredRow} {rows : List StoredRow}
      (hrid : plan.isUpdate → ∀ n, table.Chained n → table.HasSlot n record.rid)
      (hrun : writeRow regexMatch columns plan xid cid table record env = .ok stored)
      (hrest : WriteRun xid cid stored.table records rows) :
      WriteRun xid cid table (record :: records) (stored :: rows)

/-- A record of the child gives every column that it sets NULL or a value of its type, and
no string beyond its maximum. Of columns that an INSERT names twice the last counts. -/
def Supplies (record : ExecRecord) : Prop :=
  match plan with
  | .insert _ _ insertColumns _ =>
      ∀ (i : Nat) (column : ColumnDefinition), insertColumns[i]? = some column →
        (∀ (j : Nat) (column' : ColumnDefinition), i < j → insertColumns[j]? = some column' →
          column'.name ≠ column.name) →
        ∀ value, record.values[i]? = some value → column.Admits value
  | .update _ _ _ updateExprs =>
      List.Forall₂ (fun column expr => ∀ value,
        OperatorExpression.evaluate regexMatch record.values expr = .ok value →
          ColumnDefinition.Admits column value) columns updateExprs
  | _ => True

/-- The planner accepts a statement that writes to the table. -/
inductive Planned : Prop
  | insert {child : Operator} {names : List String} {oid : Nat}
      (h : Planner.planInsert child columns names oid = .ok plan)
  | update {oid : Nat} {tableName : String} {predicate : OperatorExpression}
      {sets : List (String × OperatorExpression)}
      (h : Planner.planUpdate oid tableName columns predicate sets = .ok plan)

end

/-! ## The values of a row -/

open DataRecord (OfValues written payload readBack inColumns)

section

variable {columns : ColumnList}

/-- A column is found by its name. -/
theorem findIdx?_name (hnames : (columns.map ColumnDefinition.name).Nodup)
    {column : ColumnDefinition} (h : column ∈ columns) :
    ∃ place, columns.findIdx? (·.name = column.name) = some place ∧
      columns[place]? = some column := by
  obtain ⟨place, hplace⟩ : ∃ place, columns.findIdx? (·.name = column.name) = some place := by
    rw [← Option.isSome_iff_exists, List.findIdx?_isSome, List.any_eq_true]
    exact ⟨column, h, decide_eq_true rfl⟩
  refine ⟨place, hplace, ?_⟩
  obtain ⟨hlt, hname, -⟩ := List.findIdx?_eq_some_iff_getElem.mp hplace
  rw [List.getElem?_eq_getElem hlt]
  have heq := List.inj_on_of_nodup_map hnames (List.getElem_mem hlt) h (of_decide_eq_true hname)
  rw [heq]

theorem name_ne_of_ne (hnames : (columns.map ColumnDefinition.name).Nodup)
    {column column' : ColumnDefinition} {i j : Nat} (hi : columns[i]? = some column)
    (hj : columns[j]? = some column') (hne : i ≠ j) : column.name ≠ column'.name := by
  intro heq
  have hi' : (columns.map ColumnDefinition.name)[i]? = some column.name := by
    rw [List.getElem?_map, hi]
    rfl
  have hj' : (columns.map ColumnDefinition.name)[j]? = some column.name := by
    rw [List.getElem?_map, hj, heq]
    rfl
  obtain ⟨hlt, -⟩ := List.getElem?_eq_some_iff.mp hi'
  exact hne ((List.getElem?_inj hlt hnames).mp (hi'.trans hj'.symm))

/-- A round of the loop of `placeValues`. -/
def placeValue (columns : ColumnList) (values row : List Value) (entry : ColumnDefinition × Nat) :
    Except EvalError (List Value) :=
  match columns.findIdx? (·.name = entry.1.name) with
  | none => .error (.db ("Column " ++ entry.1.name ++ " not found in column list"))
  | some index => do return row.set index (← getValue values entry.2)

/-- The column counts among those that a list names. -/
def Named (insertColumns : ColumnList) (column : ColumnDefinition) : Prop :=
  ∃ column' ∈ insertColumns, column'.name = column.name

theorem getValue_eq_ok {values : List Value} {i : Nat} {value : Value} :
    getValue values i = .ok value ↔ values[i]? = some value := by
  rw [getValue]
  split
  · rename_i value' hvalue
    rw [hvalue, Except.ok.injEq, Option.some.injEq]
  · rename_i hvalue
    rw [hvalue]
    simp

theorem forall₂_admits_iff {row : List Value} (hlength : row.length = columns.length) :
    List.Forall₂ ColumnDefinition.Admits columns row ↔
      ∀ (place : Nat) (column : ColumnDefinition) (value : Value), columns[place]? = some column →
        row[place]? = some value → column.Admits value := by
  rw [List.forall₂_iff_get]
  constructor
  · rintro ⟨-, h⟩ place column value hcolumn hvalue
    obtain ⟨hlt, rfl⟩ := List.getElem?_eq_some_iff.mp hcolumn
    obtain ⟨hlt', rfl⟩ := List.getElem?_eq_some_iff.mp hvalue
    exact h place hlt hlt'
  · intro h
    refine ⟨hlength.symm, ?_⟩
    intro place hlt hlt'
    exact h place _ _ (List.getElem?_eq_getElem hlt) (List.getElem?_eq_getElem hlt')

/-- Whether the columns admit a row after the columns of a list were placed in it: the
columns not named have what the row had, the others the value of the last place that names
them. -/
theorem admits_placeValue_iff (hnames : (columns.map ColumnDefinition.name).Nodup)
    {insertColumns : ColumnList} (hsub : ∀ column ∈ insertColumns, column ∈ columns)
    {values row row' : List Value} {k : Nat} (hlength : row.length = columns.length)
    (h : (insertColumns.zipIdx k).foldlM (placeValue columns values) row = .ok row') :
    List.Forall₂ ColumnDefinition.Admits columns row' ↔
      (∀ (place : Nat) (column : ColumnDefinition) (value : Value), columns[place]? = some column →
        row[place]? = some value → ¬ Named insertColumns column → column.Admits value) ∧
      ∀ (i : Nat) (column : ColumnDefinition), insertColumns[i]? = some column →
        (∀ (j : Nat) (column' : ColumnDefinition), i < j → insertColumns[j]? = some column' →
          column'.name ≠ column.name) →
        ∀ value, values[k + i]? = some value → column.Admits value := by
  induction insertColumns generalizing row k with
  | nil =>
      cases h
      rw [forall₂_admits_iff hlength]
      constructor
      · intro hrow
        refine ⟨fun place column value hcolumn hvalue _ => hrow place column value hcolumn hvalue, ?_⟩
        intro i column hcolumn
        cases hcolumn
      · rintro ⟨hrow, -⟩ place column value hcolumn hvalue
        apply hrow place column value hcolumn hvalue
        rintro ⟨column', hmem, -⟩
        cases hmem
  | cons column insertColumns ih =>
      rw [List.zipIdx_cons, List.foldlM_cons] at h
      obtain ⟨placed, hplace, h⟩ := Except.bind_eq_ok_iff.mp h
      obtain ⟨place, hfind, hcolumn⟩ := findIdx?_name hnames (hsub column List.mem_cons_self)
      rw [placeValue, hfind] at hplace
      obtain ⟨value, hvalue, hplaced⟩ := Except.bind_eq_ok_iff.mp hplace
      cases hplaced
      rw [getValue_eq_ok] at hvalue
      have hlength' : (row.set place value).length = columns.length := by
        rw [List.length_set, hlength]
      have hplaced : (row.set place value)[place]? = some value := by
        obtain ⟨hlt, -⟩ := List.getElem?_eq_some_iff.mp hcolumn
        rw [List.getElem?_set_self (by omega)]
      rw [ih (fun column hmem => hsub column (List.mem_cons_of_mem _ hmem)) hlength' h]
      constructor
      · rintro ⟨hothers, hplaces⟩
        refine ⟨?_, ?_⟩
        · intro place' column' value' hcolumn' hvalue' hnamed
          have hne : place ≠ place' := by
            rintro rfl
            cases hcolumn.symm.trans hcolumn'
            exact hnamed ⟨column, List.mem_cons_self, rfl⟩
          apply hothers place' column' value' hcolumn'
          · rwa [List.getElem?_set_ne hne]
          · rintro ⟨named, hmem, hname⟩
            exact hnamed ⟨named, List.mem_cons_of_mem _ hmem, hname⟩
        · intro i column' hcolumn' hlast value' hvalue'
          cases i with
          | zero =>
              cases hcolumn'
              cases hvalue.symm.trans hvalue'
              apply hothers place column value hcolumn hplaced
              rintro ⟨named, hmem, hname⟩
              obtain ⟨j, hj⟩ := List.mem_iff_getElem?.mp hmem
              exact hlast (j + 1) named (Nat.succ_pos j) hj hname
          | succ i =>
              apply hplaces i column' hcolumn' _ value'
              · rwa [Nat.add_assoc, Nat.add_comm 1 i]
              · intro j named hlt hj
                exact hlast (j + 1) named (Nat.succ_lt_succ hlt) hj
      · rintro ⟨hothers, hplaces⟩
        refine ⟨?_, ?_⟩
        · intro place' column' value' hcolumn' hvalue' hnamed
          by_cases hne : place = place'
          · subst hne
            cases hcolumn.symm.trans hcolumn'
            cases hplaced.symm.trans hvalue'
            apply hplaces 0 column rfl _ value hvalue
            intro j named hlt hj hname
            obtain ⟨j, rfl⟩ := Nat.exists_eq_succ_of_ne_zero (Nat.ne_of_gt hlt)
            exact hnamed ⟨named, List.mem_of_getElem? hj, hname⟩
          · rw [List.getElem?_set_ne hne] at hvalue'
            apply hothers place' column' value' hcolumn' hvalue'
            rintro ⟨named, hmem, hname⟩
            rcases List.mem_cons.mp hmem with rfl | hmem
            · exact name_ne_of_ne hnames hcolumn hcolumn' hne hname
            · exact hnamed ⟨named, hmem, hname⟩
        · intro i column' hcolumn' hlast value' hvalue'
          apply hplaces (i + 1) column' hcolumn' _ value'
          · rwa [Nat.add_comm i 1, ← Nat.add_assoc]
          · intro j named hlt hj
            obtain ⟨j, rfl⟩ := Nat.exists_eq_succ_of_ne_zero (Nat.ne_of_gt (Nat.zero_lt_of_lt hlt))
            exact hlast j named (Nat.lt_of_succ_lt_succ hlt) hj

theorem getColumn_mem {name : String} {column : ColumnDefinition}
    (h : Planner.getColumn columns name = .ok column) : column ∈ columns := by
  rw [Planner.getColumn] at h
  split at h
  · rename_i column' hfind
    cases h
    exact List.mem_of_find?_eq_some hfind
  · cases h

theorem mapM_getColumn_mem {names : List String} {insertColumns : ColumnList}
    (h : names.mapM (Planner.getColumn columns) = .ok insertColumns) :
    ∀ column ∈ insertColumns, column ∈ columns := by
  intro column hmem
  obtain ⟨name, -, hcolumn⟩ := Except.exists_of_mem_mapM h column hmem
  exact getColumn_mem hcolumn

/-- An INSERT that the planner accepts names columns of the table. -/
theorem planInsert_eq_ok {child plan : Operator} {names : List String} {oid : Nat}
    (h : Planner.planInsert child columns names oid = .ok plan) :
    ∃ insertColumns, plan = .insert [⟨"insert", .int, 4⟩] child insertColumns oid ∧
      ∀ column ∈ insertColumns, column ∈ columns := by
  rw [Planner.planInsert] at h
  obtain ⟨insertColumns, hcolumns, h⟩ := Except.bind_eq_ok_iff.mp h
  have hplan : plan = .insert [⟨"insert", .int, 4⟩] child insertColumns oid := by
    split at h
    · cases h
    · obtain ⟨-, -, h⟩ := Except.bind_eq_ok_iff.mp h
      cases h
      rfl
  refine ⟨insertColumns, hplan, ?_⟩
  rw [Planner.insertColumns] at hcolumns
  split at hcolumns
  · cases hcolumns
    exact fun column hmem => hmem
  · exact mapM_getColumn_mem hcolumns

theorem planUpdate_eq_ok {plan : Operator} {oid : Nat} {tableName : String}
    {predicate : OperatorExpression} {sets : List (String × OperatorExpression)}
    (h : Planner.planUpdate oid tableName columns predicate sets = .ok plan) :
    ∃ columnList child updateExprs, plan = .update columnList child oid updateExprs := by
  rw [Planner.planUpdate] at h
  obtain ⟨updateExprs, -, h⟩ := Except.bind_eq_ok_iff.mp h
  cases h
  exact ⟨_, _, _, rfl⟩

variable {regexMatch : RegexMatch} {plan : Operator} {record : ExecRecord} {values : List Value}

theorem admits_evaluateAll_iff {record : List Value} {exprs : List OperatorExpression}
    (h : OperatorExpression.evaluateAll regexMatch record exprs = .ok values) :
    List.Forall₂ ColumnDefinition.Admits columns values ↔
      List.Forall₂ (fun column expr => ∀ value,
        OperatorExpression.evaluate regexMatch record expr = .ok value →
          ColumnDefinition.Admits column value) columns exprs := by
  induction exprs generalizing columns values with
  | nil =>
      cases h
      cases columns with
      | nil => exact ⟨fun _ => .nil, fun _ => .nil⟩
      | cons column columns => exact ⟨fun h => (by cases h), fun h => (by cases h)⟩
  | cons expr exprs ih =>
      rw [OperatorExpression.evaluateAll] at h
      obtain ⟨value, hvalue, h⟩ := Except.bind_eq_ok_iff.mp h
      obtain ⟨rest, hrest, h⟩ := Except.bind_eq_ok_iff.mp h
      cases h
      cases columns with
      | nil => exact ⟨fun h => (by cases h), fun h => (by cases h)⟩
      | cons column columns =>
          rw [List.forall₂_cons, List.forall₂_cons, ih hrest]
          apply and_congr_left
          intro _
          constructor
          · intro hadmits value' hvalue'
            cases hvalue.symm.trans hvalue'
            exact hadmits
          · intro hadmits
            exact hadmits value hvalue

/-- The columns of the table admit the values of a row exactly if the record that the row is
made from supplies them. -/
theorem admits_newValues_iff (hnames : (columns.map ColumnDefinition.name).Nodup)
    (hplan : Planned columns plan)
    (h : newValues regexMatch columns plan record = .ok values) :
    List.Forall₂ ColumnDefinition.Admits columns values ↔
      Supplies regexMatch columns plan record := by
  cases hplan with
  | insert hplan =>
      obtain ⟨insertColumns, rfl, hsub⟩ := planInsert_eq_ok hplan
      have hplace := admits_placeValue_iff (k := 0) hnames hsub List.length_replicate h
      simp only [Nat.zero_add] at hplace
      rw [hplace, Supplies]
      apply and_iff_right
      intro place column value _ hvalue _
      rw [List.getElem?_replicate] at hvalue
      split at hvalue
      · cases hvalue
        exact column.admits_null
      · cases hvalue
  | update hplan =>
      obtain ⟨columnList, child, updateExprs, rfl⟩ := planUpdate_eq_ok hplan
      exact admits_evaluateAll_iff h

end

/-! ## The rows that are stored -/

/-- A column list as CREATE TABLE makes it. -/
structure TableColumns (columns : ColumnList) : Prop where
  names : (columns.map ColumnDefinition.name).Nodup
  sized : ∀ column ∈ columns, column.Sized
  maxSize_lt : ∀ column ∈ columns, column.maxSize < 2 ^ 16

section

variable {regexMatch : RegexMatch} {columns : ColumnList} {plan : Operator} {xid cid n : Nat}
  {table : TableData} {record : ExecRecord} {env : WriteEnv} {stored : StoredRow}
  {values : List Value} {records : List ExecRecord} {rows : List StoredRow}

/-- The columns can be read, and the values are of their types. -/
theorem TableColumns.matches (hcolumns : TableColumns columns)
    (h : List.Forall₂ ColumnDefinition.Admits columns values) :
    List.Forall₂ DataRecord.Matches columns values := by
  have hsized := hcolumns.sized
  clear hcolumns
  induction h with
  | nil => exact .nil
  | @cons column value columns values hadmits _ ih =>
      obtain ⟨hsized, hrest⟩ := List.forall_mem_cons.mp hsized
      exact .cons ⟨hsized, hadmits.1⟩ (ih hrest)

/-- Strings no longer than the maximum of their columns are not cut. -/
theorem TableColumns.truncate_eq (hcolumns : TableColumns columns)
    (h : List.Forall₂ ColumnDefinition.Admits columns values) :
    ∀ value ∈ values, value.truncate = value := by
  have hmax := hcolumns.maxSize_lt
  clear hcolumns
  induction h with
  | nil =>
      intro value hvalue
      cases hvalue
  | @cons column value columns values hadmits _ ih =>
      obtain ⟨hlt, hrest⟩ := List.forall_mem_cons.mp hmax
      refine List.forall_mem_cons.mpr ⟨?_, ih hrest⟩
      rw [Value.truncate_eq_iff]
      intro str hstr
      exact Nat.lt_of_le_of_lt (hadmits.2 str hstr) hlt

theorem mapError_eq_ok_iff {ε ε' α : Type} {f : ε → ε'} {x : Except ε α} {a : α} :
    x.mapError f = .ok a ↔ x = .ok a := by
  cases x with
  | ok b =>
      change Except.ok b = Except.ok a ↔ _
      rw [Except.ok.injEq, Except.ok.injEq]
  | error e =>
      constructor
      · intro h
        cases h
      · intro h
        cases h

/-- The steps of a round that ends. -/
theorem writeRow_eq_ok
    (h : writeRow regexMatch columns plan xid cid table record env = .ok stored) :
    ∃ newRecord cleared, newValues regexMatch columns plan record = .ok stored.values ∧
      DataRecord.ofValues stored.values = .ok newRecord ∧
      clearRow plan xid table record env.deleteLsn = .ok cleared ∧
      cleared.insertRecord newRecord xid cid env.insert = .ok (stored.rid, stored.table) := by
  rw [writeRow] at h
  obtain ⟨values, hvalues, h⟩ := Except.bind_eq_ok_iff.mp h
  obtain ⟨newRecord, hrecord, h⟩ := Except.bind_eq_ok_iff.mp h
  obtain ⟨cleared, hclear, h⟩ := Except.bind_eq_ok_iff.mp h
  obtain ⟨⟨rid, table'⟩, hinsert, h⟩ := Except.bind_eq_ok_iff.mp h
  cases h
  rw [mapError_eq_ok_iff] at hvalues hrecord hinsert
  exact ⟨newRecord, cleared, hvalues, hrecord, hclear, hinsert⟩

/-- A row that its columns admit is read back right after it is stored. -/
theorem writeRow_stored (hcolumns : TableColumns columns) (h : TableData.Chained table n)
    (hrid : plan.isUpdate → ∀ n, table.Chained n → table.HasSlot n record.rid)
    (hxid : xid < 2 ^ 32) (hcid : cid < 2 ^ 32)
    (hrun : writeRow regexMatch columns plan xid cid table record env = .ok stored)
    (hadmits : List.Forall₂ ColumnDefinition.Admits columns stored.values) :
    (∃ n', stored.table.Chained n') ∧
      stored.table.getRecord stored.rid columns =
        .ok (⟨false, xid, nullXid, cid⟩, inColumns columns stored.values) := by
  obtain ⟨newRecord, cleared, -, hrecord, hclear, hinsert⟩ := writeRow_eq_ok hrun
  have hcleared : cleared.Chained n := by
    rw [clearRow] at hclear
    split at hclear
    · rename_i hupdate
      obtain ⟨table', hdelete, hchained, -⟩ := h.delete (hrid hupdate n h) xid env.deleteLsn
      rw [mapError_eq_ok_iff] at hclear
      cases hclear.symm.trans hdelete
      exact hchained
    · cases hclear
      exact h
  have hheader := DataRecord.ofValues_header hrecord
  have hxmax : newRecord.header.xmax < 2 ^ 32 := by
    rw [hheader]
    decide
  obtain ⟨hchained, hread⟩ :=
    hcleared.stored (DataRecord.ofValues_eq_ok hrecord) hxid hcid hxmax hinsert
  refine ⟨hchained, ?_⟩
  rw [hread columns (hcolumns.matches hadmits) (hcolumns.truncate_eq hadmits), DataRecord.stamp,
    hheader]

theorem WriteRun.readBack (hcolumns : TableColumns columns) (h : TableData.Chained table n)
    (hxid : xid < 2 ^ 32) (hcid : cid < 2 ^ 32)
    (hrun : WriteRun regexMatch columns plan xid cid table records rows)
    (hadmits : ∀ row ∈ rows, List.Forall₂ ColumnDefinition.Admits columns row.values) :
    ∀ row ∈ rows, row.table.getRecord row.rid columns =
      .ok (⟨false, xid, nullXid, cid⟩, inColumns columns row.values) := by
  induction hrun generalizing n with
  | nil =>
      intro row hrow
      cases hrow
  | cons hrid hrow _ ih =>
      obtain ⟨hfirst, hrest⟩ := List.forall_mem_cons.mp hadmits
      obtain ⟨⟨n', hchained⟩, hread⟩ :=
        writeRow_stored hcolumns h hrid hxid hcid hrow hfirst
      exact List.forall_mem_cons.mpr ⟨hread, ih hchained hrest⟩

theorem WriteRun.admits_iff (hnames : (columns.map ColumnDefinition.name).Nodup)
    (hplan : Planned columns plan)
    (hrun : WriteRun regexMatch columns plan xid cid table records rows) :
    (∀ row ∈ rows, List.Forall₂ ColumnDefinition.Admits columns row.values) ↔
      ∀ record ∈ records, Supplies regexMatch columns plan record := by
  induction hrun with
  | nil => exact ⟨fun _ record h => (by cases h), fun _ row h => (by cases h)⟩
  | cons _ hrow _ ih =>
      obtain ⟨_, _, hvalues, -⟩ := writeRow_eq_ok hrow
      rw [List.forall_mem_cons, List.forall_mem_cons, ih, admits_newValues_iff hnames hplan hvalues]

/-- A round that places one value in a table with room for a page. -/
theorem exists_writeRow {value : Value} {bytes : List UInt8} {result : Nat} (xid cid : Nat)
    (h : TableData.Chained table n) (hn : n < nullPageId) (hplan : plan.isUpdate = false)
    (hvalues : newValues regexMatch columns plan record = .ok [value])
    (hserialize : value.serializeTo = .ok (bytes, result))
    (hsize : recordHeaderSize + 1 + value.exactSize ≤ maxRecordSize) :
    ∃ stored n', writeRow regexMatch columns plan xid cid table record ⟨TableData.zeroEnv, none⟩ =
        .ok stored ∧ stored.values = [value] ∧ stored.table.Chained n' ∧ n' ≤ n + 1 := by
  have hstorable := TableData.storable_oneValue hserialize hsize
  have hroom : TableData.RoomFor table (TableData.oneValue value) := ⟨n, h.chain, .inl hn⟩
  obtain ⟨n', rid, table', hinsert, hplaced, -⟩ :=
    h.insert hstorable hroom xid cid TableData.zeroEnv
  refine ⟨⟨rid, [value], table'⟩, n', ?_, rfl, hplaced.chained, ?_⟩
  · have hrecord := TableData.ofValues_oneValue (Value.serializeTo_eq_ok hserialize).1
    have hclear : clearRow plan xid table record none = .ok table := by
      rw [clearRow, hplan]
      rfl
    rw [writeRow, hvalues]
    change ((DataRecord.ofValues [value]).mapError WriteError.expression >>= _) = _
    rw [hrecord]
    change (clearRow plan xid table record none >>= _) = _
    rw [hclear]
    change ((table.insertRecord (TableData.oneValue value) xid cid
      TableData.zeroEnv).mapError WriteError.storage >>= _) = _
    rw [hinsert]
    rfl
  · rcases hplaced.pages with rfl | rfl
    · exact Nat.le_succ _
    · exact Nat.le_refl _

end

/-! ### INSERT of two rows -/

/-- The plan of `INSERT INTO t VALUES (v), (w)` for a table with a column `a int`. -/
def insertTwo (v w : Value) : Operator :=
  .insert [⟨"insert", .int, 4⟩]
    (.projection [⟨"#1", .int, 4⟩] (.values [⟨"#1", .int, 4⟩] [[.const v], [.const w]])
      [.columnValue 0 .int "#1" 4 true]) [⟨"a", .int, 4⟩] 10001

/-- LIKE is not used here. -/
def noMatch : RegexMatch := fun _ _ => .ok false

/-- The statement runs to its end, whatever the type of the values. -/
theorem exists_writeRun_insertTwo {v w : Value} {bytes bytes' : List UInt8} {result result' : Nat}
    (hv : v.serializeTo = .ok (bytes, result)) (hw : w.serializeTo = .ok (bytes', result'))
    (hsizeV : recordHeaderSize + 1 + v.exactSize ≤ maxRecordSize)
    (hsizeW : recordHeaderSize + 1 + w.exactSize ≤ maxRecordSize) :
    ∃ rows, WriteRun noMatch [⟨"a", .int, 4⟩] (insertTwo v w) 1 1 TableData.empty
        [⟨[v], ⟨0, 0⟩⟩, ⟨[w], ⟨0, 0⟩⟩] rows ∧ rows.map StoredRow.values = [[v], [w]] := by
  have hvalues (x : Value) : newValues noMatch [⟨"a", .int, 4⟩] (insertTwo v w) ⟨[x], ⟨0, 0⟩⟩ =
      .ok [x] := rfl
  obtain ⟨first, n, hfirst, hv', hchained, hn⟩ := exists_writeRow 1 1
    TableData.chained_empty (by decide) rfl (hvalues v) hv hsizeV
  obtain ⟨second, _, hsecond, hw', -⟩ := exists_writeRow 1 1
    hchained (Nat.lt_of_le_of_lt hn (by decide)) rfl (hvalues w) hw hsizeW
  refine ⟨[first, second], .cons ?_ hfirst (.cons ?_ hsecond (.nil _)), ?_⟩
  · intro hupdate
    cases hupdate
  · intro hupdate
    cases hupdate
  · rw [List.map_cons, List.map_cons, List.map_nil, hv', hw']

/-- An integer or NULL is what the column takes. -/
theorem supplies_insertTwo {v w x : Value} (h : x.hasType .int = true) :
    Supplies noMatch [⟨"a", .int, 4⟩] (insertTwo v w) ⟨[x], ⟨0, 0⟩⟩ := by
  intro i column hcolumn _ value hvalue
  have hi : i = 0 := by
    obtain ⟨hlt, -⟩ := List.getElem?_eq_some_iff.mp hcolumn
    exact Nat.lt_one_iff.mp hlt
  subst hi
  cases hcolumn
  cases hvalue
  refine ⟨h, ?_⟩
  rintro str (rfl | rfl) <;> cases h

end HuaDB
