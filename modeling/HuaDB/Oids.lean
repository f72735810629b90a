import HuaDB.DatabaseEngine
import HuaDB.StorageRel

/-!
Object ids over whole histories: when `OidManager::CreateEntry` can hand out an
id that the flushed system tables still use.

The invariant (`OidsOk`) bounds every recorded id by the counter. Statements and
clean restarts keep it; a crash falls back to the counter of the control file,
which is written at start-up and at a clean shutdown only, so it keeps the
invariant exactly when no id above that counter has been flushed.
-/

namespace HuaDB

open EStateM (RunsFrom)

/-- The ids a pair of system tables records. -/
def SystemRows.oids (rows : SystemRows) : List Nat :=
  rows.tables.map TableMetaRow.tableOid ++ rows.databases.map DatabaseMetaRow.dbOid

/-- Every recorded id is below the counter, in memory and on disk. -/
structure OidsOk (σ : Engine) : Prop where
  rows : ∀ oid ∈ σ.catalog.rows.oids, oid < σ.catalog.oidManager.nextOid
  flushed : ∀ oid ∈ σ.disk.systemRows.oids, oid < σ.catalog.oidManager.nextOid
  preserved : preservedOid ≤ σ.catalog.oidManager.nextOid
  control : ∃ control, σ.disk.control = some control ∧ preservedOid ≤ control.nextOid
  init : σ.disk.init = true

instance (σ : Engine) : Decidable (OidsOk σ) :=
  decidable_of_iff
    ((∀ oid ∈ σ.catalog.rows.oids, oid < σ.catalog.oidManager.nextOid) ∧
      (∀ oid ∈ σ.disk.systemRows.oids, oid < σ.catalog.oidManager.nextOid) ∧
      preservedOid ≤ σ.catalog.oidManager.nextOid ∧
      (∃ control ∈ σ.disk.control, preservedOid ≤ control.nextOid) ∧ σ.disk.init = true)
    ⟨fun ⟨h₁, h₂, h₃, h₄, h₅⟩ => ⟨h₁, h₂, h₃, h₄, h₅⟩,
      fun ⟨h₁, h₂, h₃, h₄, h₅⟩ => ⟨h₁, h₂, h₃, h₄, h₅⟩⟩

/-! ## What leaves the objects alone -/

/-- Nothing that names objects changes. -/
structure SameObjects (σ σ' : Engine) : Prop where
  rows : σ'.catalog.rows = σ.catalog.rows
  oidManager : σ'.catalog.oidManager = σ.catalog.oidManager
  systemRows : σ'.disk.systemRows = σ.disk.systemRows
  control : σ'.disk.control = σ.disk.control
  init : σ'.disk.init = σ.disk.init

namespace SameObjects

theorem refl (σ : Engine) : SameObjects σ σ := ⟨rfl, rfl, rfl, rfl, rfl⟩

theorem trans (σ₁ σ₂ σ₃ : Engine) (h : SameObjects σ₁ σ₂) (h' : SameObjects σ₂ σ₃) :
    SameObjects σ₁ σ₃ :=
  ⟨h'.rows.trans h.rows, h'.oidManager.trans h.oidManager, h'.systemRows.trans h.systemRows,
    h'.control.trans h.control, h'.init.trans h.init⟩

theorem flushLog (σ : Engine) (lsn : Nat) : SameObjects σ (σ.flushLog lsn) :=
  ⟨by simp, by simp, by simp, by simp, by simp⟩

theorem storageRel : StorageRel SameObjects where
  toPoolRel := .of_effects refl trans (fun _ _ => ⟨rfl, rfl, rfl, rfl, rfl⟩) flushLog
    (fun _ _ => ⟨rfl, rfl, rfl, rfl, rfl⟩) fun σ path pageId page _ => by
      obtain ⟨files, heq⟩ := σ.disk.writePage_eq path pageId page
      rw [heq]
      exact ⟨rfl, rfl, rfl, rfl, rfl⟩
  push _ _ _ _ := ⟨rfl, rfl, rfl, rfl, rfl⟩
  tables _ _ _ := ⟨rfl, rfl, rfl, rfl, rfl⟩
  flushLog := flushLog

theorem modify {f : Engine → Engine} {σ : Engine} (h : SameObjects σ (f σ)) :
    RunsFrom SameObjects σ (modify f : Db Unit) :=
  .modify h

theorem ofExcept {α : Type} (x : Except DbError α) (σ : Engine) :
    RunsFrom SameObjects σ (Db.ofExcept x) :=
  storageRel.ofExcept x σ

theorem analyzeLoop (fuel lsn : Nat) (s : LogManager.AnalyzeState) (σ : Engine) :
    RunsFrom SameObjects σ (LogManager.analyzeLoop fuel lsn s) := by
  induction fuel generalizing lsn s σ with
  | zero =>
      unfold LogManager.analyzeLoop
      refine .get_bind ?_
      split
      · exact .throw _
      · exact .pure refl _
  | succ fuel ih =>
      unfold LogManager.analyzeLoop
      refine .get_bind ?_
      split
      · exact .bind trans (storageRel.readRecord _ _) fun _ _ => ih _ _ _
      · exact .pure refl _

theorem analyze (σ : Engine) : RunsFrom SameObjects σ LogManager.analyze := by
  unfold LogManager.analyze
  refine .get_bind ?_
  refine .bind trans (.modify ⟨rfl, rfl, rfl, rfl, rfl⟩) fun _ _ => .get_bind (.get_bind ?_)
  refine .bind trans (ofExcept _ _) fun _ _ => ?_
  split
  · exact .throw_bind _ _
  · refine .get_bind (.bind trans (ofExcept _ _) fun _ _ => ?_)
    refine .bind trans (ofExcept _ _) fun _ _ => ?_
    split
    · refine .bind trans (analyzeLoop _ _ _ _) fun _ _ => ?_
      exact .modify ⟨rfl, rfl, rfl, rfl, rfl⟩
    · exact .throw _

theorem recover (σ : Engine) : RunsFrom SameObjects σ LogManager.recover :=
  .bind trans (analyze σ) fun _ _ =>
    .bind trans (storageRel.redo _) fun _ _ => storageRel.undo _

theorem checkpointLog (σ : Engine) : RunsFrom SameObjects σ LogManager.checkpointLog := by
  intro σ' lsns run
  rw [LogManager.checkpointLog_eq] at run
  cases run
  exact trans σ (LogManager.checkpointLogged σ) _ ⟨rfl, rfl, rfl, rfl, rfl⟩ (flushLog _ _)

theorem checkpoint (σ : Engine) : RunsFrom SameObjects σ LogManager.checkpoint :=
  .bind trans (checkpointLog σ) fun _ _ =>
    .bind trans (.modify ⟨rfl, rfl, rfl, rfl, rfl⟩) fun _ _ => .pure refl _

theorem begin (σ : Engine) : RunsFrom SameObjects σ DatabaseEngine.begin := by
  unfold DatabaseEngine.begin
  refine .get_bind (.bind trans (.modify ⟨rfl, rfl, rfl, rfl, rfl⟩) fun _ σ' => ?_)
  refine .bind trans ?_ fun _ _ => .pure refl _
  intro σ'' lsn run
  obtain ⟨-, -, rfl⟩ := LogManager.appendBeginLog_eq_ok_iff.mp run
  exact ⟨rfl, rfl, rfl, rfl, rfl⟩

theorem commit (xid : Nat) (σ : Engine) : RunsFrom SameObjects σ (DatabaseEngine.commit xid) := by
  unfold DatabaseEngine.commit
  refine .bind trans (storageRel.appendEndLog _ _ _ _) fun _ _ => .get_bind ?_
  exact .bind trans (ofExcept _ _) fun _ _ => .modify ⟨rfl, rfl, rfl, rfl, rfl⟩

theorem rollback (xid : Nat) (σ : Engine) :
    RunsFrom SameObjects σ (DatabaseEngine.rollback xid) := by
  unfold DatabaseEngine.rollback
  refine .bind trans (storageRel.rollback _ _) fun _ _ => ?_
  refine .bind trans (storageRel.appendEndLog _ _ _ _) fun _ _ => .get_bind ?_
  exact .bind trans (ofExcept _ _) fun _ _ => .modify ⟨rfl, rfl, rfl, rfl, rfl⟩

theorem insertRecord (oid : Nat) (record : Record) (xid cid : Nat) (σ : Engine) :
    RunsFrom SameObjects σ (Table.insertRecord oid record xid cid) :=
  storageRel.insertRecord (fun _ _ _ _ => ⟨rfl, rfl, rfl, rfl, rfl⟩) oid record xid cid σ

theorem stop (torn : Bool) (σ : Engine) : RunsFrom SameObjects σ (Op.stop torn) := by
  unfold Op.stop
  split
  · exact .bind trans (checkpointLog σ) fun _ _ => .pure refl _
  · exact .pure refl _

theorem foldl_flushPage (frames : List Nat) (σ : Engine) :
    SameObjects σ (frames.foldl Engine.flushPage σ) := by
  induction frames generalizing σ with
  | nil => exact refl σ
  | cons frame frames ih => exact trans _ _ _ (storageRel.flushPage σ frame) (ih _)

end SameObjects

theorem SameObjects.oidsOk {σ σ' : Engine} (same : SameObjects σ σ') (ok : OidsOk σ) :
    OidsOk σ' where
  rows := by rw [same.rows, same.oidManager]; exact ok.rows
  flushed := by rw [same.systemRows, same.oidManager]; exact ok.flushed
  preserved := by rw [same.oidManager]; exact ok.preserved
  control := by rw [same.control]; exact ok.control
  init := by rw [same.init]; exact ok.init

theorem SystemRows.oids_subset {rows rows' : SystemRows} (htables : rows'.tables ⊆ rows.tables)
    (hdatabases : rows'.databases ⊆ rows.databases) {oid : Nat} (h : oid ∈ rows'.oids) :
    oid ∈ rows.oids := by
  simp only [oids, List.mem_append, List.mem_map] at h ⊢
  rcases h with ⟨row, hrow, rfl⟩ | ⟨row, hrow, rfl⟩
  · exact .inl ⟨row, htables hrow, rfl⟩
  · exact .inr ⟨row, hdatabases hrow, rfl⟩

/-! ## What keeps the invariant -/

/-- The counter does not go back, and the invariant is kept. -/
def OidStep (σ σ' : Engine) : Prop :=
  σ.catalog.oidManager.nextOid ≤ σ'.catalog.oidManager.nextOid ∧ (OidsOk σ → OidsOk σ')

namespace OidStep

theorem refl (σ : Engine) : OidStep σ σ := ⟨Nat.le_refl _, id⟩

theorem trans (σ₁ σ₂ σ₃ : Engine) (h : OidStep σ₁ σ₂) (h' : OidStep σ₂ σ₃) : OidStep σ₁ σ₃ :=
  ⟨Nat.le_trans h.1 h'.1, h'.2 ∘ h.2⟩

theorem of_same {σ σ' : Engine} (same : SameObjects σ σ') : OidStep σ σ' :=
  ⟨Nat.le_of_eq (by rw [same.oidManager]), same.oidsOk⟩

theorem of_runsFrom {α : Type} {x : Db α} {σ : Engine} (h : RunsFrom SameObjects σ x) :
    RunsFrom OidStep σ x :=
  fun σ' a run => of_same (h σ' a run)

theorem ofExcept {α : Type} (x : Except DbError α) (σ : Engine) :
    RunsFrom OidStep σ (Db.ofExcept x) :=
  of_runsFrom (SameObjects.ofExcept x σ)

/-- Names, table objects and the current database do not matter. -/
theorem catalog {σ : Engine} {catalog : SystemCatalog}
    (hrows : ∀ oid ∈ catalog.rows.oids, oid ∈ σ.catalog.rows.oids ∨
      oid < σ.catalog.oidManager.nextOid)
    (hoid : catalog.oidManager.nextOid = σ.catalog.oidManager.nextOid) :
    OidStep σ { σ with catalog := catalog } := by
  refine ⟨Nat.le_of_eq hoid.symm, fun ok => ?_⟩
  refine ⟨fun oid hmem => ?_, fun oid hmem => ?_, ?_, ok.control, ok.init⟩ <;>
    dsimp only <;> rw [hoid]
  · rcases hrows oid hmem with hold | hlt
    · exact ok.rows oid hold
    · exact hlt
  · exact ok.flushed oid hmem
  · exact ok.preserved

/-- Rows may go. -/
theorem fewerRows {σ : Engine} {catalog : SystemCatalog}
    (htables : catalog.rows.tables ⊆ σ.catalog.rows.tables)
    (hdatabases : catalog.rows.databases ⊆ σ.catalog.rows.databases)
    (hoid : catalog.oidManager.nextOid = σ.catalog.oidManager.nextOid) :
    OidStep σ { σ with catalog := catalog } :=
  OidStep.catalog (fun _ hmem => .inl (SystemRows.oids_subset htables hdatabases hmem)) hoid

/-- `CreateEntry`, as long as the counter does not wrap around. -/
theorem createEntry {σ : Engine} (type : OidType) (name : String)
    (hwrap : σ.catalog.oidManager.nextOid + 1 < 2 ^ 32) :
    OidStep σ { σ with catalog := { σ.catalog with
      oidManager := (σ.catalog.oidManager.createEntry type name).2 } } := by
  have hnext : (σ.catalog.oidManager.createEntry type name).2.nextOid =
      σ.catalog.oidManager.nextOid + 1 := Nat.mod_eq_of_lt hwrap
  refine ⟨?_, fun ok => ?_⟩
  · dsimp only
    omega
  · refine ⟨fun oid hmem => ?_, fun oid hmem => ?_, ?_, ok.control, ok.init⟩
    · exact hnext ▸ Nat.lt_succ_of_lt (ok.rows oid hmem)
    · exact hnext ▸ Nat.lt_succ_of_lt (ok.flushed oid hmem)
    · exact hnext ▸ Nat.le_succ_of_le ok.preserved

end OidStep

theorem SystemRows.mem_oids_addTable {rows : SystemRows} {row : TableMetaRow} {oid : Nat}
    (h : oid ∈ SystemRows.oids { rows with tables := rows.tables ++ [row] }) :
    oid ∈ rows.oids ∨ oid = row.tableOid := by
  simp only [oids, List.map_append, List.map_cons, List.map_nil, List.mem_append,
    List.mem_singleton] at h ⊢
  rcases h with (h | h) | h
  · exact .inl (.inl h)
  · exact .inr h
  · exact .inl (.inr h)

theorem SystemRows.mem_oids_addDatabase {rows : SystemRows} {row : DatabaseMetaRow} {oid : Nat}
    (h : oid ∈ SystemRows.oids { rows with databases := rows.databases ++ [row] }) :
    oid ∈ rows.oids ∨ oid = row.dbOid := by
  simp only [oids, List.map_append, List.map_cons, List.map_nil, List.mem_append,
    List.mem_singleton] at h ⊢
  rcases h with h | h | h
  · exact .inl (.inl h)
  · exact .inl (.inr h)
  · exact .inr h

namespace OidStep

theorem requireTable (oid : Nat) (σ : Engine) :
    RunsFrom OidStep σ (SystemCatalog.requireTable oid) :=
  .get_bind (Db.ofExcept_bind fun _ _ => .pure refl _)

/-- A row with a used id enters `huadb_table`. -/
theorem insertTableRow {row : TableMetaRow} {σ : Engine}
    (hlt : row.tableOid < σ.catalog.oidManager.nextOid) :
    RunsFrom OidStep σ (SystemCatalog.insertTableRow row) := by
  unfold SystemCatalog.insertTableRow SystemCatalog.checkRecordSize
  refine SystemCatalog.requireTable_bind (Db.throwIf_bind fun _ => ?_)
  refine .modify (catalog (fun oid hmem => ?_) rfl)
  rcases SystemRows.mem_oids_addTable hmem with hold | rfl
  · exact .inl hold
  · exact .inr hlt

theorem createTable_new (tableName schema : String) (σ : Engine)
    (hwrap : σ.catalog.oidManager.nextOid + 1 < 2 ^ 32) :
    RunsFrom OidStep σ
      (SystemCatalog.createTable tableName schema invalidOid invalidOid true) := by
  have hnext : (σ.catalog.oidManager.createEntry .table tableName).2.nextOid =
      σ.catalog.oidManager.nextOid + 1 := Nat.mod_eq_of_lt hwrap
  unfold SystemCatalog.createTable OidManager.entryFor
  refine .get_bind (Db.throwIf_bind fun _ => Db.throwIf_bind fun _ => ?_)
  simp only [↓reduceIte]
  refine .modify_bind trans (createEntry .table tableName hwrap) (Db.throwIf_bind fun _ => ?_)
  refine .modify_bind trans (of_same ⟨rfl, rfl, rfl, rfl, rfl⟩) (.get_bind ?_)
  refine .bind_rel trans (ofExcept _ _) fun _ σ' _ hle => ?_
  -- the new id lies below the counter ever since `CreateEntry`
  have hlt : σ.catalog.oidManager.nextOid < σ'.catalog.oidManager.nextOid :=
    Nat.lt_of_lt_of_le (hnext ▸ Nat.lt_succ_self _) hle.1
  refine .modify_bind trans (catalog (fun _ hmem => .inl hmem) rfl) ?_
  exact insertTableRow hlt

theorem createDatabase_new (databaseName : String) (σ : Engine)
    (hwrap : σ.catalog.oidManager.nextOid + 1 < 2 ^ 32) :
    RunsFrom OidStep σ (SystemCatalog.createDatabase databaseName false invalidOid) := by
  have hnext : (σ.catalog.oidManager.createEntry .database databaseName).2.nextOid =
      σ.catalog.oidManager.nextOid + 1 := Nat.mod_eq_of_lt hwrap
  unfold SystemCatalog.createDatabase OidManager.entryFor SystemCatalog.checkRecordSize
  refine .get_bind (Db.throwIf_bind fun _ => ?_)
  simp only [↓reduceIte]
  refine .modify_bind trans (createEntry .database databaseName hwrap) ?_
  refine SystemCatalog.requireTable_bind (Db.throwIf_bind fun _ => ?_)
  refine .modify (catalog (fun oid hmem => ?_) rfl)
  rcases SystemRows.mem_oids_addDatabase hmem with hold | rfl
  · exact .inl hold
  · exact .inr (hnext ▸ Nat.lt_succ_self _)

theorem dropEntry_nextOid {manager manager' : OidManager} {type : OidType} {name : String}
    (h : manager.dropEntry type name = .ok manager') : manager'.nextOid = manager.nextOid := by
  unfold OidManager.dropEntry at h
  split at h
  · cases h
  · cases h
    rfl

theorem dropTable (tableName : String) (σ : Engine) :
    RunsFrom OidStep σ (SystemCatalog.dropTable tableName) := by
  unfold SystemCatalog.dropTable
  refine .get_bind (Db.throwIf_bind fun _ => Db.throwIf_bind fun _ => ?_)
  refine Db.ofExcept_bind fun tableOid _ => ?_
  refine .modify_bind trans (of_same ⟨rfl, rfl, rfl, rfl, rfl⟩) ?_
  refine .modify_bind trans (of_same ⟨rfl, rfl, rfl, rfl, rfl⟩) ?_
  refine Db.ofExcept_bind fun manager hdrop => ?_
  refine .modify_bind trans (catalog (fun _ hmem => .inl hmem) (dropEntry_nextOid hdrop)) ?_
  refine SystemCatalog.requireTable_bind (Db.throwIf_bind fun _ => ?_)
  exact .modify (fewerRows List.eraseP_subset (List.Subset.refl _) rfl)

theorem dropDatabase (databaseName : String) (missingOk : Bool) (σ : Engine) :
    RunsFrom OidStep σ (SystemCatalog.dropDatabase databaseName missingOk) := by
  unfold SystemCatalog.dropDatabase SystemCatalog.dropExistingDatabase
  refine .get_bind ?_
  split
  · refine .get_bind (Db.ofExcept_bind fun dbOid _ => Db.throwIf_bind fun _ => ?_)
    refine SystemCatalog.requireTable_bind (.modify_bind trans
      (fewerRows (List.filter_subset_self _) (List.Subset.refl _) rfl) ?_)
    refine SystemCatalog.requireTable_bind (Db.throwIf_bind fun _ => ?_)
    refine .modify_bind trans (fewerRows (List.Subset.refl _) List.eraseP_subset rfl) ?_
    refine Db.ofExcept_bind fun manager hdrop => ?_
    refine .modify_bind trans (catalog (fun _ hmem => .inl hmem) (dropEntry_nextOid hdrop)) ?_
    exact .modify (of_same ⟨rfl, rfl, rfl, rfl, rfl⟩)
  · exact of_runsFrom fun σ' u run => by
      unfold Db.throwIf at run
      split at run
      · cases run
      · cases run
        exact SameObjects.refl _

theorem forgetTables (oids : List Nat) (σ : Engine) :
    RunsFrom OidStep σ (SystemCatalog.forgetTables oids) := by
  induction oids generalizing σ with
  | nil => exact .pure refl _
  | cons oid oids ih =>
      unfold SystemCatalog.forgetTables
      refine .get_bind (Db.ofExcept_bind fun tableName _ => Db.ofExcept_bind fun _ hdrop => ?_)
      exact .modify_bind trans (catalog (fun _ hmem => .inl hmem) (dropEntry_nextOid hdrop)) (ih _)

theorem flushRegular (σ : Engine) : SameObjects σ (σ.flushBuffers true) :=
  SameObjects.trans _ _ _ (SameObjects.foldl_flushPage _ σ) ⟨rfl, rfl, rfl, rfl, rfl⟩

/-- `BufferPool::Flush` also records the rows on disk. -/
theorem flushBuffers (σ : Engine) : OidStep σ σ.flushBuffers := by
  refine trans σ (σ.flushBuffers true) _ (of_same (flushRegular σ)) ⟨Nat.le_refl _, fun ok => ?_⟩
  exact ⟨ok.rows, ok.rows, ok.preserved, ok.control, ok.init⟩

theorem exitDatabase (σ : Engine) : RunsFrom OidStep σ SystemCatalog.exitDatabase := by
  unfold SystemCatalog.exitDatabase
  refine .get_bind ?_
  split
  · exact .pure refl _
  · refine .modify_bind trans (of_same (flushRegular σ)) (.get_bind ?_)
    refine .bind trans (forgetTables _ _) fun _ _ => ?_
    exact .modify (catalog (fun _ hmem => .inl hmem) rfl)

theorem loadTableMeta (rows : List TableMetaRow) (σ : Engine) :
    RunsFrom OidStep σ (SystemCatalog.loadTableMeta rows) := by
  induction rows generalizing σ with
  | nil => exact .pure refl _
  | cons row rows ih =>
      unfold SystemCatalog.loadTableMeta SystemCatalog.loadTableRow
      refine .get_bind ?_
      split
      · refine .bind trans ?_ fun _ _ => ih _
        refine .modify_bind trans (catalog (fun _ hmem => .inl hmem) rfl) (.get_bind ?_)
        refine Db.ofExcept_bind fun _ _ => .get_bind (Db.ofExcept_bind fun _ _ => ?_)
        exact .modify (catalog (fun _ hmem => .inl hmem) rfl)
      · exact ih _

theorem exitCurrentDatabase (σ : Engine) :
    RunsFrom OidStep σ SystemCatalog.exitCurrentDatabase := by
  unfold SystemCatalog.exitCurrentDatabase
  refine .get_bind ?_
  split
  · exact .pure refl _
  · exact exitDatabase _

theorem changeDatabase (databaseName : String) (σ : Engine) :
    RunsFrom OidStep σ (SystemCatalog.changeDatabase databaseName) := by
  unfold SystemCatalog.changeDatabase SystemCatalog.enterDatabase
  refine .get_bind (Db.throwIf_bind fun _ => Db.ofExcept_bind fun dbOid _ => ?_)
  split
  · exact .pure refl _
  · refine .bind trans (exitCurrentDatabase _) fun _ _ => ?_
    refine .modify_bind trans (catalog (fun _ hmem => .inl hmem) rfl) ?_
    split
    · exact .pure refl _
    · refine SystemCatalog.requireTable_bind (.get_bind ?_)
      exact .bind trans (loadTableMeta _ _) fun _ _ => requireTable _ _

theorem createTable_old (tableName schema : String) {oid : Nat} (dbOid : Nat) (σ : Engine)
    (hoid : oid ≠ invalidOid) :
    RunsFrom OidStep σ (SystemCatalog.createTable tableName schema oid dbOid false) := by
  unfold SystemCatalog.createTable OidManager.entryFor
  refine .get_bind (Db.throwIf_bind fun _ => Db.throwIf_bind fun _ => ?_)
  simp only [if_neg hoid, Bool.false_eq_true, ↓reduceIte]
  refine .modify_bind trans (catalog (fun _ hmem => .inl hmem) rfl) (Db.throwIf_bind fun _ => ?_)
  refine .modify_bind trans (refl _) (.get_bind (Db.ofExcept_bind fun _ _ => ?_))
  exact .modify_bind trans (catalog (fun _ hmem => .inl hmem) rfl) (.pure refl _)

theorem nextOid_foldl_setEntryOid (rows : List DatabaseMetaRow) (manager : OidManager) :
    (rows.foldl (fun manager row => manager.setEntryOid .database row.dbName row.dbOid)
      manager).nextOid = manager.nextOid := by
  induction rows generalizing manager with
  | nil => rfl
  | cons row rows ih => exact ih _

theorem loadSystemTables (σ : Engine) : RunsFrom OidStep σ SystemCatalog.loadSystemTables := by
  unfold SystemCatalog.loadSystemTables
  refine .bind trans (createTable_old _ _ _ _ (by decide)) fun _ _ => ?_
  refine .bind trans (createTable_old _ _ _ _ (by decide)) fun _ _ => ?_
  refine .bind trans (createTable_old _ _ _ _ (by decide)) fun _ σ' => ?_
  refine .modify_bind trans ?_ (changeDatabase _ _)
  have hnext := nextOid_foldl_setEntryOid σ'.disk.systemRows.databases σ'.catalog.oidManager
  refine ⟨Nat.le_of_eq hnext.symm, fun ok => ?_⟩
  refine ⟨fun oid hmem => ?_, fun oid hmem => ?_, ?_, ok.control, ok.init⟩ <;>
    dsimp only <;> rw [hnext]
  · exact ok.flushed oid hmem
  · exact ok.flushed oid hmem
  · exact ok.preserved

end OidStep

/-- Starting on a disk whose control file bounds the flushed ids. -/
theorem OidsOk.boot (disk : Disk) {control : Control} {σ : Engine}
    (hcontrol : disk.control = some control) (hpreserved : preservedOid ≤ control.nextOid)
    (hinit : disk.init = true) (hflushed : ∀ oid ∈ disk.systemRows.oids, oid < control.nextOid)
    (run : Op.boot disk = .ok () σ) : OidsOk σ := by
  obtain ⟨σ₁, hload, hrecover⟩ := Op.boot_eq_ok hcontrol hinit run
  have hstart : OidsOk (DatabaseEngine.restoreControl control (.ofDisk disk)) :=
    { rows := fun oid hmem => absurd hmem List.not_mem_nil
      flushed := hflushed
      preserved := hpreserved
      control := ⟨_, rfl, hpreserved⟩
      init := hinit }
  have hloaded : OidsOk σ₁ := (OidStep.loadSystemTables _ _ _ hload).2 hstart
  cases hnormal : control.normalShutdown with
  | true =>
      rw [hnormal] at hrecover
      cases hrecover
      exact hloaded
  | false =>
      rw [hnormal] at hrecover
      exact (SameObjects.recover _ _ _ hrecover).oidsOk hloaded

/-! ## Histories -/

/-- What a step must not do: let the counter wrap around, or crash while an id at
or above the counter of the control file is recorded in the flushed system
tables. -/
def OidGuard (σ : Engine) : Op → Prop
  | .createTable _ _ | .createDatabase _ => σ.catalog.oidManager.nextOid + 1 < 2 ^ 32
  | .crash _ => ∀ oid ∈ σ.disk.systemRows.oids, oid < (σ.disk.control.getD DatabaseEngine.firstControl).nextOid
  | _ => True

instance (σ : Engine) (op : Op) : Decidable (OidGuard σ op) := by
  cases op <;> unfold OidGuard <;> infer_instance

namespace OidStep

/-- Every statement keeps the invariant. -/
theorem exec {op : Op} {σ : Engine} (guard : OidGuard σ op)
    (hrestart : op ≠ .restart) (hcrash : ∀ torn, op ≠ .crash torn) :
    RunsFrom OidStep σ op.exec := by
  cases op with
  | begin => exact of_runsFrom (.bind SameObjects.trans (SameObjects.begin σ) fun _ _ =>
      .pure SameObjects.refl _)
  | insert xid oid cid data =>
      exact of_runsFrom (.bind SameObjects.trans (SameObjects.insertRecord _ _ _ _ σ) fun _ _ =>
        .pure SameObjects.refl _)
  | delete xid oid rid => exact of_runsFrom (SameObjects.storageRel.deleteRecord _ _ _ σ)
  | commit xid => exact of_runsFrom (SameObjects.commit xid σ)
  | rollback xid => exact of_runsFrom (SameObjects.rollback xid σ)
  | checkpoint =>
      exact of_runsFrom (.bind SameObjects.trans (SameObjects.checkpoint σ) fun _ _ =>
        .pure SameObjects.refl _)
  | fetch oid pageId =>
      refine of_runsFrom (.get_bind (Db.ofExcept_bind fun table _ => ?_))
      exact .bind SameObjects.trans (SameObjects.storageRel.getPage _ _ _ σ) fun _ _ =>
        .pure SameObjects.refl _
  | flush => exact .modify (flushBuffers σ)
  | createTable tableName schema => exact createTable_new tableName schema σ guard
  | dropTable tableName => exact dropTable tableName σ
  | createDatabase databaseName => exact createDatabase_new databaseName σ guard
  | dropDatabase databaseName missingOk => exact dropDatabase databaseName missingOk σ
  | changeDatabase databaseName => exact changeDatabase databaseName σ
  | restart => exact absurd rfl hrestart
  | crash torn => exact absurd rfl (hcrash torn)

end OidStep

/-- A clean shutdown writes the counter into the control file. -/
theorem OidsOk.closeDatabase {σ σ' : Engine} (ok : OidsOk σ)
    (run : DatabaseEngine.closeDatabase σ = .ok () σ') :
    OidsOk σ' ∧ ∃ control, σ'.disk.control = some control ∧
      control.nextOid = σ'.catalog.oidManager.nextOid := by
  obtain ⟨_, σ₁, hflush, run⟩ := EStateM.bind_eq_ok_iff.mp run
  cases EStateM.modify_eq_ok_iff.mp hflush
  obtain ⟨_, σ₂, hlog, run⟩ := EStateM.bind_eq_ok_iff.mp run
  cases EStateM.modify_eq_ok_iff.mp hlog
  obtain ⟨_, σ₃, hcheckpoint, run⟩ := EStateM.bind_eq_ok_iff.mp run
  cases EStateM.modify_eq_ok_iff.mp run
  have hclosed : OidsOk σ₃ :=
    (SameObjects.checkpoint _ _ _ hcheckpoint).oidsOk
      ((SameObjects.flushLog _ _).oidsOk ((OidStep.flushBuffers σ).2 ok))
  exact ⟨⟨hclosed.rows, hclosed.flushed, hclosed.preserved, ⟨_, rfl, hclosed.preserved⟩,
    hclosed.init⟩, _, rfl, rfl⟩

/-- Every step of a history that meets the guard keeps the invariant. -/
theorem OidsOk.step {σ σ' : Engine} {op : Op} (ok : OidsOk σ) (guard : OidGuard σ op)
    (run : op.exec σ = .ok () σ') : OidsOk σ' := by
  by_cases hrestart : op = .restart
  · subst hrestart
    obtain ⟨_, σ₁, hclose, run⟩ := EStateM.bind_eq_ok_iff.mp run
    obtain ⟨hclosed, control, hcontrol, hnext⟩ := ok.closeDatabase hclose
    exact OidsOk.boot σ₁.disk hcontrol (hnext ▸ hclosed.preserved) hclosed.init
      (fun oid hmem => hnext ▸ hclosed.flushed oid hmem) run
  · by_cases hcrash : ∃ torn, op = .crash torn
    · obtain ⟨torn, rfl⟩ := hcrash
      obtain ⟨_, σ₁, hstop, run⟩ := EStateM.bind_eq_ok_iff.mp run
      have same : SameObjects σ σ₁ := SameObjects.stop torn σ σ₁ _ hstop
      obtain ⟨control, hcontrol, hpreserved⟩ := ok.control
      refine OidsOk.boot σ₁.disk (same.control.trans hcontrol) hpreserved (same.init.trans ok.init)
        (fun oid hmem => ?_) run
      have hguard := guard oid (same.systemRows ▸ hmem)
      rwa [hcontrol] at hguard
    · exact (OidStep.exec guard hrestart (fun torn htorn => hcrash ⟨torn, htorn⟩) _ _ run).2 ok

theorem OidsOk.of_reaches {σ : Engine} (run : Op.Reaches OidGuard σ) : OidsOk σ := by
  induction run with
  | boot hboot =>
      have hfirst : (Op.boot freshDisk).okAnd (fun _ σ => decide (OidsOk σ)) = true := by
        decide +kernel
      rw [hboot] at hfirst
      exact of_decide_eq_true hfirst
  | step _ guard exec ih => exact ih.step guard exec

/-! ## Freshness -/

/-- `CreateTable` leaves every file alone but that of the id it hands out. -/
theorem createTable_files (tableName schema : String) (σ : Engine) {path : FilePath}
    (hne : path.tableOid ≠ σ.catalog.oidManager.nextOid) :
    RunsFrom (fun σ σ' => σ'.disk.files path = σ.disk.files path) σ
      (SystemCatalog.createTable tableName schema invalidOid invalidOid true) := by
  have trans (σ₁ σ₂ σ₃ : Engine) (h : σ₂.disk.files path = σ₁.disk.files path)
      (h' : σ₃.disk.files path = σ₂.disk.files path) :
      σ₃.disk.files path = σ₁.disk.files path := h'.trans h
  unfold SystemCatalog.createTable OidManager.entryFor
  refine .get_bind (Db.throwIf_bind fun _ => Db.throwIf_bind fun _ => ?_)
  simp only [↓reduceIte]
  refine .modify_bind trans rfl (Db.throwIf_bind fun _ => ?_)
  refine .modify_bind trans (if_neg fun heq : path = _ => hne (heq ▸ rfl)) (.get_bind ?_)
  refine Db.ofExcept_bind fun _ _ => .modify_bind trans rfl ?_
  unfold SystemCatalog.insertTableRow SystemCatalog.checkRecordSize
  exact SystemCatalog.requireTable_bind (Db.throwIf_bind fun _ => .modify rfl)

/-- **Object ids over whole histories.** In every history whose steps meet
`OidGuard`, the next id `CreateEntry` hands out belongs to no table and no
database of the flushed system tables, and `CREATE TABLE` leaves the files of
those tables as they are. -/
theorem createEntry_fresh {σ : Engine} (run : Op.Reaches OidGuard σ) :
    (∀ type name, (σ.catalog.oidManager.createEntry type name).1 ∉ σ.disk.systemRows.oids) ∧
      ∀ tableName schema σ', (Op.createTable tableName schema).exec σ = .ok () σ' →
        ∀ row ∈ σ.disk.systemRows.tables,
          σ'.disk.files ⟨row.dbOid, row.tableOid⟩ = σ.disk.files ⟨row.dbOid, row.tableOid⟩ := by
  have fresh : σ.catalog.oidManager.nextOid ∉ σ.disk.systemRows.oids := fun hmem =>
    Nat.lt_irrefl _ ((OidsOk.of_reaches run).flushed _ hmem)
  refine ⟨fun _ _ => fresh, fun tableName schema σ' hcreate row hrow => ?_⟩
  refine createTable_files tableName schema σ (fun heq => fresh ?_) σ' () hcreate
  rw [← heq]
  exact List.mem_append_left _ (List.mem_map_of_mem hrow)

/-- A table that outlives a clean restart and then a crash. -/
def tableThenCrash : List Op := [.createTable "t" "", .restart, .crash false]

theorem createEntry_fresh_tableThenCrash :
    ∃ σ, Op.history OidGuard tableThenCrash = some σ ∧ 10001 ∈ σ.disk.systemRows.oids ∧
      ∀ type name,
        (σ.catalog.oidManager.createEntry type name).1 ∉ σ.disk.systemRows.oids := by
  obtain ⟨σ, hσ, hmem⟩ := Op.exists_history OidGuard tableThenCrash
    (fun σ => decide (10001 ∈ σ.disk.systemRows.oids)) (by decide +kernel)
  exact ⟨σ, hσ, of_decide_eq_true hmem, (createEntry_fresh (.history hσ)).1⟩

/-- A table with one page, flushed, and a crash before any clean shutdown; then
one more table. -/
def tableBeforeFirstShutdown : List Op :=
  [.createTable "t" "", .begin, .insert 1 10001 1 [], .commit 1, .checkpoint, .flush, .crash false,
    .createTable "u" ""]

/-- The next `CREATE TABLE` reuses the id of the first table and empties its file. -/
theorem createEntry_reuses_tableBeforeFirstShutdown :
    ∃ σ, Op.history Op.unguarded tableBeforeFirstShutdown = some σ ∧
      (σ.catalog.oidManager.createEntry .table "v").1 ∈ σ.disk.systemRows.oids ∧
      (σ.disk.files ⟨10000, 10001⟩).map DataFile.pageCount = some 1 ∧
      ∃ σ', (Op.createTable "v" "").exec σ = .ok () σ' ∧
        (σ'.disk.files ⟨10000, 10001⟩).map DataFile.pageCount = some 0 := by
  obtain ⟨σ, hσ, hcheck⟩ := Op.exists_history Op.unguarded tableBeforeFirstShutdown
    (fun σ =>
      (σ.catalog.oidManager.createEntry .table "v").1 ∈ σ.disk.systemRows.oids &&
        (σ.disk.files ⟨10000, 10001⟩).map DataFile.pageCount = some 1 &&
        ((Op.createTable "v" "").exec σ).okAnd fun _ σ' =>
          (σ'.disk.files ⟨10000, 10001⟩).map DataFile.pageCount = some 0)
    (by decide +kernel)
  simp only [Bool.and_eq_true, decide_eq_true_eq] at hcheck
  obtain ⟨⟨hmem, hpage⟩, hcreate⟩ := hcheck
  obtain ⟨u, σ', hexec, hempty⟩ := EStateM.Result.okAnd_iff.mp hcreate
  exact ⟨σ, hσ, hmem, hpage, σ', hexec, of_decide_eq_true hempty⟩

end HuaDB
