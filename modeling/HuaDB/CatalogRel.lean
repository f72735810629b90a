import HuaDB.Catalog

/-!
What the catalog operations can do to the engine, as relations between states.

A relation that contains the changes of the catalog in memory, of the set of
table files and of a flushed pool (`CatalogRel`) contains every successful run
of `SystemCatalog`. The catalog logs nothing and modifies no page.
-/

namespace HuaDB

open EStateM (RunsFrom)

structure CatalogRel (R : Engine → Engine → Prop) : Prop where
  refl : ∀ σ, R σ σ
  trans : ∀ σ₁ σ₂ σ₃, R σ₁ σ₂ → R σ₂ σ₃ → R σ₁ σ₃
  catalog : ∀ (σ : Engine) catalog, R σ { σ with catalog := catalog }
  createFile : ∀ (σ : Engine) path, R σ { σ with disk := σ.disk.createFile path }
  removeFile : ∀ (σ : Engine) path, R σ { σ with disk := σ.disk.removeFile path }
  removeDirectory : ∀ (σ : Engine) dbOid, R σ { σ with disk := σ.disk.removeDirectory dbOid }
  flushBuffers : ∀ (σ : Engine) regularOnly, R σ (σ.flushBuffers regularOnly)

namespace CatalogRel

variable {R : Engine → Engine → Prop} (rel : CatalogRel R)
include rel

theorem modifyCatalog (f : SystemCatalog → SystemCatalog) (σ : Engine) :
    RunsFrom R σ (SystemCatalog.modifyCatalog f) :=
  .modify (rel.catalog σ _)

theorem checkRecordSize (size : Nat) (σ : Engine) :
    RunsFrom R σ (SystemCatalog.checkRecordSize size) := by
  unfold SystemCatalog.checkRecordSize Db.throwIf
  split
  · exact .throw _
  · exact .pure rel.refl _

theorem requireTable (oid : Nat) (σ : Engine) : RunsFrom R σ (SystemCatalog.requireTable oid) :=
  .get_bind (Db.ofExcept_bind fun _ _ => .pure rel.refl _)

theorem insertTableRow (row : TableMetaRow) (σ : Engine) :
    RunsFrom R σ (SystemCatalog.insertTableRow row) :=
  SystemCatalog.requireTable_bind
    (.bind rel.trans (rel.checkRecordSize _ _) fun _ _ => rel.modifyCatalog _ _)

theorem createTable (tableName schema : String) (oid dbOid : Nat) (newTable : Bool) (σ : Engine) :
    RunsFrom R σ (SystemCatalog.createTable tableName schema oid dbOid newTable) := by
  unfold SystemCatalog.createTable
  refine .get_bind (Db.throwIf_bind fun _ => Db.throwIf_bind fun _ => ?_)
  refine .bind rel.trans (rel.modifyCatalog _ _) fun _ σ' => Db.throwIf_bind fun _ => ?_
  refine .bind rel.trans (.modify ?_) fun _ _ => .get_bind (Db.ofExcept_bind fun _ _ => ?_)
  · cases newTable with
    | true => exact rel.createFile σ' _
    | false => exact rel.refl σ'
  · refine .bind rel.trans (rel.modifyCatalog _ _) fun _ _ => ?_
    split
    · exact rel.insertTableRow _ _
    · exact .pure rel.refl _

theorem dropTable (tableName : String) (σ : Engine) :
    RunsFrom R σ (SystemCatalog.dropTable tableName) := by
  unfold SystemCatalog.dropTable
  refine .get_bind (Db.throwIf_bind fun _ => Db.throwIf_bind fun _ => ?_)
  refine Db.ofExcept_bind fun tableOid _ => ?_
  refine .modify_bind rel.trans (rel.removeFile σ _) ?_
  refine .bind rel.trans (rel.modifyCatalog _ _) fun _ _ => Db.ofExcept_bind fun _ _ => ?_
  refine .bind rel.trans (rel.modifyCatalog _ _) fun _ _ => ?_
  refine SystemCatalog.requireTable_bind (Db.throwIf_bind fun _ => ?_)
  exact rel.modifyCatalog _ _

theorem createDatabase (databaseName : String) (existsOk : Bool) (dbOid : Nat) (σ : Engine) :
    RunsFrom R σ (SystemCatalog.createDatabase databaseName existsOk dbOid) := by
  unfold SystemCatalog.createDatabase
  refine .get_bind (Db.throwIf_bind fun _ => ?_)
  refine .bind rel.trans (rel.modifyCatalog _ _) fun _ _ => SystemCatalog.requireTable_bind ?_
  exact .bind rel.trans (rel.checkRecordSize _ _) fun _ _ => rel.modifyCatalog _ _

theorem dropDatabase (databaseName : String) (missingOk : Bool) (σ : Engine) :
    RunsFrom R σ (SystemCatalog.dropDatabase databaseName missingOk) := by
  unfold SystemCatalog.dropDatabase SystemCatalog.dropExistingDatabase
  refine .get_bind ?_
  split
  · refine .get_bind (Db.ofExcept_bind fun dbOid _ => Db.throwIf_bind fun _ => ?_)
    refine SystemCatalog.requireTable_bind (.bind rel.trans (rel.modifyCatalog _ _) fun _ _ => ?_)
    refine SystemCatalog.requireTable_bind (Db.throwIf_bind fun _ => ?_)
    refine .bind rel.trans (rel.modifyCatalog _ _) fun _ _ => Db.ofExcept_bind fun _ _ => ?_
    refine .bind rel.trans (rel.modifyCatalog _ _) fun _ σ' => ?_
    exact .modify (rel.removeDirectory σ' _)
  · unfold Db.throwIf
    split
    · exact .throw _
    · exact .pure rel.refl _

theorem forgetTables (oids : List Nat) (σ : Engine) :
    RunsFrom R σ (SystemCatalog.forgetTables oids) := by
  induction oids generalizing σ with
  | nil => exact .pure rel.refl _
  | cons oid oids ih =>
      unfold SystemCatalog.forgetTables
      refine .get_bind (Db.ofExcept_bind fun _ _ => Db.ofExcept_bind fun _ _ => ?_)
      exact .bind rel.trans (rel.modifyCatalog _ _) fun _ _ => ih _

theorem exitDatabase (σ : Engine) : RunsFrom R σ SystemCatalog.exitDatabase := by
  unfold SystemCatalog.exitDatabase
  refine .get_bind ?_
  split
  · exact .pure rel.refl _
  · refine .modify_bind rel.trans (rel.flushBuffers σ true) (.get_bind ?_)
    exact .bind rel.trans (rel.forgetTables _ _) fun _ _ => rel.modifyCatalog _ _

theorem loadTableMeta (rows : List TableMetaRow) (σ : Engine) :
    RunsFrom R σ (SystemCatalog.loadTableMeta rows) := by
  induction rows generalizing σ with
  | nil => exact .pure rel.refl _
  | cons row rows ih =>
      unfold SystemCatalog.loadTableMeta SystemCatalog.loadTableRow
      refine .get_bind ?_
      split
      · refine .bind rel.trans ?_ fun _ _ => ih _
        refine .bind rel.trans (rel.modifyCatalog _ _) fun _ _ => .get_bind ?_
        refine Db.ofExcept_bind fun _ _ => .get_bind (Db.ofExcept_bind fun _ _ => ?_)
        exact rel.modifyCatalog _ _
      · exact ih _

theorem changeDatabase (databaseName : String) (σ : Engine) :
    RunsFrom R σ (SystemCatalog.changeDatabase databaseName) := by
  unfold SystemCatalog.changeDatabase SystemCatalog.enterDatabase
    SystemCatalog.exitCurrentDatabase
  refine .get_bind (Db.throwIf_bind fun _ => Db.ofExcept_bind fun dbOid _ => ?_)
  split
  · exact .pure rel.refl _
  · refine .bind rel.trans (.get_bind ?_) fun _ _ => ?_
    · split
      · exact .pure rel.refl _
      · exact rel.exitDatabase _
    · refine .bind rel.trans (rel.modifyCatalog _ _) fun _ _ => ?_
      split
      · exact .pure rel.refl _
      · refine SystemCatalog.requireTable_bind (.get_bind ?_)
        exact .bind rel.trans (rel.loadTableMeta _ _) fun _ _ => rel.requireTable _ _

theorem loadSystemTables (σ : Engine) : RunsFrom R σ SystemCatalog.loadSystemTables := by
  unfold SystemCatalog.loadSystemTables
  refine .bind rel.trans (rel.createTable _ _ _ _ _ _) fun _ _ => ?_
  refine .bind rel.trans (rel.createTable _ _ _ _ _ _) fun _ _ => ?_
  refine .bind rel.trans (rel.createTable _ _ _ _ _ _) fun _ _ => ?_
  exact .modify_bind rel.trans (rel.catalog _ _) (rel.changeDatabase _ _)

theorem createSystemTables (σ : Engine) : RunsFrom R σ SystemCatalog.createSystemTables := by
  unfold SystemCatalog.createSystemTables
  refine .bind rel.trans (rel.createTable _ _ _ _ _ _) fun _ _ => ?_
  refine .bind rel.trans (rel.createTable _ _ _ _ _ _) fun _ _ => ?_
  refine .bind rel.trans (rel.createTable _ _ _ _ _ _) fun _ _ => ?_
  refine .bind rel.trans (rel.createDatabase _ _ _ _) fun _ _ => ?_
  exact .bind rel.trans (rel.createDatabase _ _ _ _) fun _ _ => rel.changeDatabase _ _

end CatalogRel

end HuaDB
