import HuaDB.Table

/-!
`database/database_engine.cpp`: start-up, shutdown, crash, and the statements
that reach the storage layer, as the operations a history is made of.

A history is a list of operations that return; where an operation stops with an
error, the history ends there.
-/

namespace HuaDB

namespace DatabaseEngine

/-- What the constructor reads where there is no control file yet. -/
def firstControl : Control := ⟨firstXid, firstLsn, preservedOid, true⟩

/-- The members as the control file has them, and the control file rewritten for
a running engine. -/
def restoreControl (control : Control) (σ : Engine) : Engine :=
  { σ with
    disk := { σ.disk with control := some { control with normalShutdown := false } }
    txn := { nextXid := control.nextXid }
    log := .new control.nextLsn
    catalog := { oidManager := { nextOid := control.nextOid } } }

/-- Load the system tables, or create them in a new data directory. -/
def initSystemTables : Db Unit := do
  if (← get).disk.init then
    SystemCatalog.loadSystemTables
  else
    SystemCatalog.createSystemTables
    modify fun σ => { σ with disk := { σ.disk with init := true } }

/-- The constructor up to the choice whether to recover. Returns whether the last
shutdown was normal. -/
def openDatabase : Db Bool := do
  let control := (← get).disk.control.getD firstControl
  modify (restoreControl control)
  initSystemTables
  return control.normalShutdown

/-- `DatabaseEngine::DatabaseEngine`. -/
def start : Db Unit := do
  let normalShutdown ← openDatabase
  if normalShutdown then
    pure ()
  else
    LogManager.recover

/-- `DatabaseEngine::CloseDatabase`. -/
def closeDatabase : Db Unit := do
  modify fun σ => σ.flushBuffers
  modify fun σ => σ.flushLog nullLsn
  let _ ← LogManager.checkpoint
  modify fun σ => { σ with
    disk := { σ.disk with
      control := some ⟨σ.txn.nextXid, σ.log.nextLsn, σ.catalog.oidManager.nextOid, true⟩ } }

/-- `DatabaseEngine::Begin`. -/
def begin : Db Nat := do
  let (xid, txn) := (← get).txn.begin
  modify fun σ => { σ with txn := txn }
  let _ ← LogManager.appendBeginLog xid
  return xid

/-- `DatabaseEngine::Commit`. -/
def commit (xid : Nat) : Db Unit := do
  let _ ← LogManager.appendCommitLog xid
  let txn ← Db.ofExcept ((← get).txn.commit xid)
  modify fun σ => { σ with txn := txn }

/-- `DatabaseEngine::Rollback`. -/
def rollback (xid : Nat) : Db Unit := do
  LogManager.rollback xid
  let _ ← LogManager.appendRollbackLog xid
  let txn ← Db.ofExcept ((← get).txn.rollback xid)
  modify fun σ => { σ with txn := txn }

end DatabaseEngine

/-! ## Histories -/

/-- One operation of a history. -/
inductive Op where
  | begin
  /-- `Table::InsertRecord` by an open transaction. -/
  | insert (xid : Nat) (oid : Nat) (cid : Nat) (data : List UInt8)
  /-- `Table::DeleteRecord` by an open transaction. -/
  | delete (xid : Nat) (oid : Nat) (rid : Rid)
  | commit (xid : Nat)
  | rollback (xid : Nat)
  | checkpoint
  /-- A scan fetching a page of a loaded table. -/
  | fetch (oid : Nat) (pageId : Nat)
  /-- The shell command `flush`. -/
  | flush
  | createTable (tableName schema : String)
  | dropTable (tableName : String)
  | createDatabase (databaseName : String)
  | dropDatabase (databaseName : String) (missingOk : Bool)
  | changeDatabase (databaseName : String)
  /-- Close the engine and start it again. -/
  | restart
  /-- Lose everything but the disk and start again; with `torn`, the crash comes
  inside a checkpoint, after its records and before the master record. -/
  | crash (torn : Bool)
deriving DecidableEq, Repr

namespace Op

/-- Start a new process on what is on disk. -/
def boot (disk : Disk) : EStateM.Result DbError Engine Unit :=
  DatabaseEngine.start (.ofDisk disk)

/-- What is left of a process that stops, with `torn` inside a checkpoint. -/
def stop (torn : Bool) : Db Unit :=
  if torn then do
    let _ ← LogManager.checkpointLog
  else
    pure ()

/-- Replace the process by a new one on the same disk. -/
def reboot : Db Unit := do
  set (Engine.ofDisk (← get).disk)
  DatabaseEngine.start

/-- The operations a running process serves. -/
def exec : Op → Db Unit
  | .begin => do let _ ← DatabaseEngine.begin
  | .insert xid oid cid data => do let _ ← Table.insertRecord oid { data := data } xid cid
  | .delete xid oid rid => Table.deleteRecord oid rid xid
  | .commit xid => DatabaseEngine.commit xid
  | .rollback xid => DatabaseEngine.rollback xid
  | .checkpoint => do let _ ← LogManager.checkpoint
  | .fetch oid pageId => do
      let table ← Db.ofExcept ((← get).catalog.getTable oid)
      let _ ← BufferPool.getPage table.dbOid oid pageId
  | .flush => modify fun σ => σ.flushBuffers
  | .createTable tableName schema =>
      SystemCatalog.createTable tableName schema invalidOid invalidOid true
  | .dropTable tableName => SystemCatalog.dropTable tableName
  | .createDatabase databaseName => SystemCatalog.createDatabase databaseName false invalidOid
  | .dropDatabase databaseName missingOk => SystemCatalog.dropDatabase databaseName missingOk
  | .changeDatabase databaseName => SystemCatalog.changeDatabase databaseName
  | .restart => do
      DatabaseEngine.closeDatabase
      reboot
  | .crash torn => do
      stop torn
      reboot

/-- Starting on an initialised data directory: restore, load, and recover after a
crash. -/
theorem boot_eq_ok {disk : Disk} {control : Control} {σ : Engine}
    (hcontrol : disk.control = some control) (hinit : disk.init = true)
    (run : boot disk = .ok () σ) :
    ∃ σ₁, SystemCatalog.loadSystemTables
        (DatabaseEngine.restoreControl control (.ofDisk disk)) = .ok () σ₁ ∧
      (if control.normalShutdown then pure () else LogManager.recover) σ₁ = .ok () σ := by
  obtain ⟨normalShutdown, σ₂, hopen, hrecover⟩ := EStateM.bind_eq_ok_iff.mp run
  unfold DatabaseEngine.openDatabase DatabaseEngine.initSystemTables at hopen
  rw [EStateM.bind_of_ok (EStateM.get_eq_ok_iff.mpr ⟨rfl, rfl⟩),
    show (Engine.ofDisk disk).disk.control = some control from hcontrol] at hopen
  obtain ⟨_, σ₁, hmodify, hopen⟩ := EStateM.bind_eq_ok_iff.mp hopen
  cases EStateM.modify_eq_ok_iff.mp hmodify
  obtain ⟨_, σ₁, hload, hopen⟩ := EStateM.bind_eq_ok_iff.mp hopen
  obtain ⟨rfl, rfl⟩ := EStateM.pure_eq_ok_iff.mp hopen
  rw [EStateM.bind_of_ok (EStateM.get_eq_ok_iff.mpr ⟨rfl, rfl⟩), if_pos (by exact hinit)] at hload
  exact ⟨σ₁, hload, hrecover⟩

/-- Starting on an empty data directory: create the system tables. -/
theorem boot_eq_ok_of_empty {disk : Disk} {σ : Engine} (hcontrol : disk.control = none)
    (hinit : disk.init = false) (run : boot disk = .ok () σ) :
    ∃ σ₁, SystemCatalog.createSystemTables
        (DatabaseEngine.restoreControl DatabaseEngine.firstControl (.ofDisk disk)) = .ok () σ₁ ∧
      σ = { σ₁ with disk := { σ₁.disk with init := true } } := by
  obtain ⟨normalShutdown, σ₂, hopen, hrecover⟩ := EStateM.bind_eq_ok_iff.mp run
  unfold DatabaseEngine.openDatabase DatabaseEngine.initSystemTables at hopen
  rw [EStateM.bind_of_ok (EStateM.get_eq_ok_iff.mpr ⟨rfl, rfl⟩),
    show (Engine.ofDisk disk).disk.control = none from hcontrol] at hopen
  obtain ⟨_, σ₁, hmodify, hopen⟩ := EStateM.bind_eq_ok_iff.mp hopen
  cases EStateM.modify_eq_ok_iff.mp hmodify
  obtain ⟨_, σ₁, hload, hopen⟩ := EStateM.bind_eq_ok_iff.mp hopen
  obtain ⟨rfl, rfl⟩ := EStateM.pure_eq_ok_iff.mp hopen
  rw [EStateM.bind_of_ok (EStateM.get_eq_ok_iff.mpr ⟨rfl, rfl⟩), if_neg (by
    rw [show (DatabaseEngine.restoreControl _ (Engine.ofDisk disk)).disk.init = false from hinit]
    decide)] at hload
  obtain ⟨_, σ₁, hcreate, hinit⟩ := EStateM.bind_eq_ok_iff.mp hload
  cases EStateM.modify_eq_ok_iff.mp hinit
  cases hrecover
  exact ⟨σ₁, hcreate, rfl⟩

end Op

/-- An empty data directory. -/
def freshDisk : Disk := {}

namespace Op

/-- The states of the histories that start in an empty data directory and whose
steps all meet `guard`. -/
inductive Reaches (guard : Engine → Op → Prop) : Engine → Prop
  | boot {σ : Engine} : boot freshDisk = .ok () σ → Reaches guard σ
  | step {σ σ' : Engine} {op : Op} :
      Reaches guard σ → guard σ op → op.exec σ = .ok () σ' → Reaches guard σ'

variable (guard : Engine → Op → Prop) [∀ σ op, Decidable (guard σ op)]

/-- Serve a list of operations, as long as they meet `guard` and return. -/
def serve : List Op → Engine → Option Engine
  | [], σ => some σ
  | op :: ops, σ =>
      if guard σ op then
        match op.exec σ with
        | .ok _ σ' => serve ops σ'
        | .error _ _ => none
      else
        none

/-- The state after a history in an empty data directory. -/
def history (ops : List Op) : Option Engine :=
  match boot freshDisk with
  | .ok _ σ => serve guard ops σ
  | .error _ _ => none

variable {guard}

theorem Reaches.serve {ops : List Op} {σ σ' : Engine} (reaches : Reaches guard σ)
    (h : serve guard ops σ = some σ') : Reaches guard σ' := by
  induction ops generalizing σ with
  | nil =>
      cases h
      exact reaches
  | cons op ops ih =>
      simp only [Op.serve] at h
      split at h
      · split at h
        · exact ih (reaches.step ‹_› ‹_›) h
        · cases h
      · cases h

theorem Reaches.history {ops : List Op} {σ : Engine} (h : history guard ops = some σ) :
    Reaches guard σ := by
  unfold Op.history at h
  split at h
  · exact (Reaches.boot ‹_›).serve h
  · cases h

/-- A state a list of operations leads to, with what it computes to. -/
theorem exists_history (guard : Engine → Op → Prop) [∀ σ op, Decidable (guard σ op)]
    (ops : List Op) (p : Engine → Bool)
    (h : (history guard ops).any p = true) : ∃ σ, history guard ops = some σ ∧ p σ = true :=
  (Option.any_eq_true_iff_get _ _).mp h |>.elim fun hsome hp =>
    ⟨_, (Option.some_get hsome).symm, hp⟩

/-- Any history at all. -/
abbrev unguarded (_ : Engine) (_ : Op) : Prop := True

end Op

end HuaDB
