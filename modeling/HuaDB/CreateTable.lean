import HuaDB.DatabaseEngine

/-!
What `SystemCatalog::CreateTable` leaves behind when it throws.

The checks of its first step come before anything is changed. Whatever throws after it finds the
name entered at the oid manager already: the check for the system database, a file that is not
there, and the insertion of the row into `huadb_table`.
-/

namespace HuaDB

open EStateM (Ends)

/-! ## How checks end -/

namespace Db

variable {α β : Type} {σ : Engine} {ok : β → Engine → Prop} {error : DbError → Engine → Prop}

theorem throwIf_ends {c : Prop} [Decidable c] {message : String} {f : Unit → Db β}
    (herror : c → error (.dbException message) σ) (hok : ¬ c → Ends σ (f ()) ok error) :
    Ends σ (throwIf c message >>= f) ok error := by
  unfold throwIf
  split
  · rename_i h
    exact .bind_of_error rfl (herror h)
  · rename_i h
    exact .bind_of_ok rfl (hok h)

theorem ofExcept_ends {x : Except DbError α} {f : α → Db β}
    (herror : ∀ e, x = .error e → error e σ) (hok : ∀ a, x = .ok a → Ends σ (f a) ok error) :
    Ends σ (ofExcept x >>= f) ok error := by
  rcases x with e | a
  · exact .bind_of_error rfl (herror e rfl)
  · exact .bind_of_ok rfl (hok a rfl)

end Db

namespace SystemCatalog

/-- The lookup of a system table fails or changes nothing. -/
theorem requireTable_ends {β : Type} {σ : Engine} {ok : β → Engine → Prop}
    {error : DbError → Engine → Prop} {oid : Nat} {f : Unit → Db β}
    (herror : ∀ e, σ.catalog.oid2table.find? oid = none → error e σ)
    (hok : (σ.catalog.oid2table.find? oid).isSome → Ends σ (f ()) ok error) :
    Ends σ (requireTable oid >>= f) ok error := by
  rcases hfind : σ.catalog.oid2table.find? oid with _ | table
  · have hget : requireTable oid σ = .error (.dbException s!"Table with oid {oid} does not exist") σ := by
      simp only [requireTable, getTable, EStateM.bind_apply, EStateM.get_apply, hfind]
      rfl
    exact .bind_of_error hget (herror _ hfind)
  · have hget : requireTable oid σ = .ok () σ := by
      simp only [requireTable, getTable, EStateM.bind_apply, EStateM.get_apply, hfind]
      rfl
    exact .bind_of_ok hget (hok (by rw [hfind]; rfl))

/-! ## The checks of `CreateTable` -/

/-- The database the table goes to. -/
def targetDatabase (catalog : SystemCatalog) (dbOid : Nat) : Nat :=
  if dbOid = invalidOid then catalog.currentDatabaseOid else dbOid

/-- The first step refuses: no database is in use, or the name is taken. -/
def Refuses (catalog : SystemCatalog) (tableName : String) (dbOid : Nat) : Prop :=
  (dbOid = invalidOid ∧ catalog.currentDatabaseOid = invalidOid) ∨
    catalog.oidManager.entryExists .table tableName = true

/-- Nothing after the first step throws: the id is not a user table's in the system database,
the table has a file, and the row of a new table fits into a `huadb_table` that is loaded. -/
def CanFinish (σ : Engine) (tableName schema : String) (oid dbOid : Nat) (newTable : Bool) : Prop :=
  let oid := if oid = invalidOid then σ.catalog.oidManager.nextOid else oid
  let dbOid := targetDatabase σ.catalog dbOid
  ¬ (oid > preservedOid ∧ dbOid = systemDatabaseOid) ∧
    (newTable = true ∨ (σ.disk.files ⟨dbOid, oid⟩).isSome) ∧
    (newTable = true →
      (oid = tableMetaOid ∨ (σ.catalog.oid2table.find? tableMetaOid).isSome) ∧
        systemRecordSize 12 [tableName, schema] % 2 ^ 16 ≤ maxRecordSize)

/-- The entries of the oid manager, the loaded tables, the system tables and the set of table
files are the same. -/
structure SameStores (σ σ' : Engine) : Prop where
  name2oid : σ'.catalog.oidManager.name2oid = σ.catalog.oidManager.name2oid
  oid2name : σ'.catalog.oidManager.oid2name = σ.catalog.oidManager.oid2name
  oid2table : σ'.catalog.oid2table = σ.catalog.oid2table
  rows : σ'.catalog.rows = σ.catalog.rows
  files : ∀ path, (σ'.disk.files path).isSome = (σ.disk.files path).isSome

theorem SameStores.refl (σ : Engine) : SameStores σ σ := ⟨rfl, rfl, rfl, rfl, fun _ => rfl⟩

variable {σ : Engine} {tableName schema : String} {oid dbOid : Nat} {newTable : Bool}

theorem entryFor_oid (manager : OidManager) (name : String) (oid : Nat) :
    (manager.entryFor .table name oid).1 = if oid = invalidOid then manager.nextOid else oid := by
  unfold OidManager.entryFor
  split <;> rfl

theorem entryExists_entryFor (manager : OidManager) (name : String) (oid : Nat) :
    (manager.entryFor .table name oid).2.entryExists .table name = true := by
  unfold OidManager.entryFor
  split
  · simp [OidManager.entryExists, OidManager.createEntry]
  · simp [OidManager.entryExists, OidManager.setEntryOid]

theorem emptyFile_ne_error {disk : Disk} {path : FilePath} {file : DataFile} {e : DbError}
    (h : disk.files path = some file) : disk.emptyFile path ≠ .error e := by
  rw [Disk.emptyFile, h]
  exact fun he => by cases he

theorem isSome_of_emptyFile {disk : Disk} {path : FilePath} {isEmpty : Bool}
    (h : disk.emptyFile path = .ok isEmpty) : (disk.files path).isSome := by
  rcases hfile : disk.files path with _ | file
  · rw [Disk.emptyFile, hfile] at h
    cases h
  · rfl

/-- `CreateTable` ends well, refuses without a change, or throws with the name entered. -/
theorem createTable_ends :
    Ends σ (createTable tableName schema oid dbOid newTable)
      (fun _ _ => CanFinish σ tableName schema oid dbOid newTable)
      (fun _ σ' => (Refuses σ.catalog tableName dbOid ∧ σ' = σ) ∨
        (¬ Refuses σ.catalog tableName dbOid ∧ ¬ CanFinish σ tableName schema oid dbOid newTable ∧
          σ'.catalog.oidManager.entryExists .table tableName = true)) := by
  unfold createTable
  refine .get_bind (Db.throwIf_ends (fun h => .inl ⟨.inl h, rfl⟩) fun hdb => ?_)
  refine Db.throwIf_ends (fun h => .inl ⟨.inr h, rfl⟩) fun hname => ?_
  have hpass : ¬ Refuses σ.catalog tableName dbOid := fun h => h.elim hdb hname
  have hentered := entryExists_entryFor σ.catalog.oidManager tableName oid
  have hoid := entryFor_oid σ.catalog.oidManager tableName oid
  generalize σ.catalog.oidManager.entryFor .table tableName oid = entry at hentered hoid
  refine .bind_of_ok rfl (Db.throwIf_ends (fun h => .inr ⟨hpass, fun hfinish => ?_, hentered⟩)
    fun hsystem => ?_)
  · exact hfinish.1 (hoid ▸ h)
  have hsystem' : ¬ ((if oid = invalidOid then σ.catalog.oidManager.nextOid else oid) >
      preservedOid ∧ targetDatabase σ.catalog dbOid = systemDatabaseOid) := hoid ▸ hsystem
  -- the file is there, or the table is not a new one
  refine .bind_of_ok rfl (.get_bind (Db.ofExcept_ends (fun e he => ?_) fun isEmpty hfile => ?_))
  · refine .inr ⟨hpass, fun hfinish => ?_, ?_⟩
    · rcases newTable
      · rcases hfinish.2.1 with h | h
        · cases h
        · rw [← hoid] at h
          rcases Option.isSome_iff_exists.mp h with ⟨file, hsome⟩
          exact absurd he (emptyFile_ne_error (by exact hsome))
      · exact absurd he (emptyFile_ne_error (if_pos rfl))
    · rcases newTable <;> exact hentered
  · have hexists : newTable = true ∨
        (σ.disk.files ⟨targetDatabase σ.catalog dbOid, entry.1⟩).isSome := by
      rcases newTable
      · exact .inr (isSome_of_emptyFile hfile)
      · exact .inl rfl
    rw [hoid] at hexists
    refine .bind_of_ok rfl ?_
    rcases newTable
    · exact .pure ⟨hsystem', hexists, fun h => by cases h⟩
    · refine requireTable_ends (fun e hnone => ?_) fun hmeta => ?_
      · refine .inr ⟨hpass, fun hfinish => ?_, hentered⟩
        refine absurd hnone (Option.isSome_iff_ne_none.mp (Assoc.find?_insert_isSome.mpr ?_))
        exact (hfinish.2.2 rfl).1.imp_left fun h => (hoid.trans h).symm
      · refine Db.throwIf_ends (fun hsize => ?_) fun hsize => .modify ?_
        · exact .inr ⟨hpass, fun hfinish => absurd (hfinish.2.2 rfl).2 (Nat.not_le.mpr hsize),
            hentered⟩
        · exact ⟨hsystem', hexists, fun _ =>
            ⟨(Assoc.find?_insert_isSome.mp hmeta).imp_left fun h => hoid.symm.trans h.symm,
              Nat.not_lt.mp hsize⟩⟩

end SystemCatalog

end HuaDB
