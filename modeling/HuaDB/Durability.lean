import HuaDB.CatalogRel
import HuaDB.LogSession
import HuaDB.Xids

/-!
A commit that has returned is durable.

No operation takes a record out of the log file (`LogKept`), a restart and a crash
included. `AppendCommitLog` flushes the log up to its own record, the last one. So every
record up to that of the commit is in the log file of every later process
(`commit_durable`).
-/

namespace HuaDB

open EStateM (RunsFrom)

/-! ## What the operations of a history can do -/

/-- The effects of the storage layer and of the catalog, new members of the engine, and
new contents of the control files. -/
structure EngineRel (R : Engine → Engine → Prop) : Prop extends StorageRel R, CatalogRel R where
  log : ∀ (σ : Engine) log, R σ { σ with log := log }
  txn : ∀ (σ : Engine) txn, R σ { σ with txn := txn }
  control : ∀ (σ : Engine) control, R σ { σ with disk := { σ.disk with control := control } }
  masterRecord : ∀ (σ : Engine) lsn, R σ { σ with disk := { σ.disk with masterRecord := lsn } }
  init : ∀ (σ : Engine) init, R σ { σ with disk := { σ.disk with init := init } }
  ofDisk : ∀ σ : Engine, R σ (.ofDisk σ.disk)

namespace EngineRel

variable {R : Engine → Engine → Prop} (rel : EngineRel R)
include rel

theorem txnLog (σ : Engine) (txn : TransactionManager) (log : LogManager) :
    R σ { σ with txn := txn, log := log } :=
  rel.trans _ { σ with txn := txn } _ (rel.txn σ txn) (rel.log { σ with txn := txn } log)

theorem analyzeLoop (fuel lsn : Nat) (s : LogManager.AnalyzeState) (σ : Engine) :
    RunsFrom R σ (LogManager.analyzeLoop fuel lsn s) := by
  induction fuel generalizing lsn s σ with
  | zero =>
      unfold LogManager.analyzeLoop
      refine .get_bind ?_
      split
      · exact .throw _
      · exact .pure rel.refl _
  | succ fuel ih =>
      unfold LogManager.analyzeLoop
      refine .get_bind ?_
      split
      · exact .bind rel.trans (rel.readRecord _ _) fun _ _ => ih _ _ _
      · exact .pure rel.refl _

theorem analyze (σ : Engine) : RunsFrom R σ LogManager.analyze := by
  unfold LogManager.analyze
  refine .get_bind (.bind rel.trans (.modify (rel.log σ _)) fun _ _ => .get_bind (.get_bind ?_))
  refine Db.ofExcept_bind fun _ _ => ?_
  split
  · exact .throw_bind _ _
  · refine .get_bind (Db.ofExcept_bind fun _ _ => Db.ofExcept_bind fun _ _ => ?_)
    split
    · refine .bind rel.trans (rel.analyzeLoop _ _ _ _) fun _ σ' => ?_
      exact .modify (rel.txnLog σ' _ _)
    · exact .throw _

theorem recover (σ : Engine) : RunsFrom R σ LogManager.recover :=
  .bind rel.trans (rel.analyze σ) fun _ _ => .bind rel.trans (rel.redo _) fun _ _ => rel.undo _

theorem checkpointLog (σ : Engine) : RunsFrom R σ LogManager.checkpointLog := by
  intro σ' lsns run
  rw [LogManager.checkpointLog_eq] at run
  cases run
  exact rel.trans σ (LogManager.checkpointLogged σ) _ (rel.log σ _) (rel.flushLog _ _)

theorem checkpoint (σ : Engine) : RunsFrom R σ LogManager.checkpoint :=
  .bind rel.trans (rel.checkpointLog σ) fun _ σ' =>
    .bind rel.trans (.modify (rel.masterRecord σ' _)) fun _ _ => .pure rel.refl _

theorem begin (σ : Engine) : RunsFrom R σ DatabaseEngine.begin := by
  intro σ' xid run
  obtain ⟨-, -, rfl⟩ := DatabaseEngine.begin_eq_ok run
  exact rel.txnLog σ _ _

theorem commit (xid : Nat) (σ : Engine) : RunsFrom R σ (DatabaseEngine.commit xid) := by
  unfold DatabaseEngine.commit
  refine .bind rel.trans (rel.appendEndLog _ _ _ _) fun _ σ' => .get_bind ?_
  exact Db.ofExcept_bind fun _ _ => .modify (rel.txn σ' _)

theorem rollback (xid : Nat) (σ : Engine) : RunsFrom R σ (DatabaseEngine.rollback xid) := by
  unfold DatabaseEngine.rollback
  refine .bind rel.trans (rel.toUndoRel.rollback _ _) fun _ _ => ?_
  refine .bind rel.trans (rel.appendEndLog _ _ _ _) fun _ σ' => .get_bind ?_
  exact Db.ofExcept_bind fun _ _ => .modify (rel.txn σ' _)

theorem insertRecord (oid : Nat) (record : Record) (xid cid : Nat) (σ : Engine) :
    RunsFrom R σ (Table.insertRecord oid record xid cid) :=
  rel.toStorageRel.insertRecord (fun σ _ _ _ => rel.catalog σ _) oid record xid cid σ

theorem closeDatabase (σ : Engine) : RunsFrom R σ DatabaseEngine.closeDatabase := by
  unfold DatabaseEngine.closeDatabase
  refine .modify_bind rel.trans (rel.flushBuffers σ false) ?_
  refine .modify_bind rel.trans (rel.flushLog _ _) ?_
  exact .bind rel.trans (rel.checkpoint _) fun _ σ' => .modify (rel.control σ' _)

theorem stop (torn : Bool) (σ : Engine) : RunsFrom R σ (Op.stop torn) := by
  unfold Op.stop
  split
  · exact .bind rel.trans (rel.checkpointLog σ) fun _ _ => .pure rel.refl _
  · exact .pure rel.refl _

theorem restoreControl (control : Control) (σ : Engine) :
    R σ (DatabaseEngine.restoreControl control σ) :=
  rel.trans _ _ _ (rel.control σ _) (rel.trans _ _ _ (rel.txn _ _)
    (rel.trans _ _ _ (rel.log _ _) (rel.catalog _ _)))

theorem start (σ : Engine) : RunsFrom R σ DatabaseEngine.start := by
  unfold DatabaseEngine.start DatabaseEngine.openDatabase DatabaseEngine.initSystemTables
  refine .bind rel.trans (.get_bind ?_) fun normalShutdown _ => ?_
  · refine .modify_bind rel.trans (rel.restoreControl _ σ) (.bind rel.trans (.get_bind ?_)
      fun _ _ => .pure rel.refl _)
    split
    · exact rel.loadSystemTables _
    · exact .bind rel.trans (rel.createSystemTables _) fun _ σ' => .modify (rel.init σ' _)
  · split
    · exact .pure rel.refl _
    · exact rel.recover _

theorem reboot (σ : Engine) : RunsFrom R σ Op.reboot :=
  .get_bind (.bind rel.trans (.set (rel.ofDisk σ)) fun _ _ => rel.start _)

/-- Every operation of a history. -/
theorem exec (op : Op) (σ : Engine) : RunsFrom R σ op.exec := by
  cases op with
  | begin => exact .bind rel.trans (rel.begin σ) fun _ _ => .pure rel.refl _
  | insert xid oid cid data =>
      exact .bind rel.trans (rel.insertRecord _ _ _ _ σ) fun _ _ => .pure rel.refl _
  | delete xid oid rid => exact rel.deleteRecord _ _ _ σ
  | commit xid => exact rel.commit xid σ
  | rollback xid => exact rel.rollback xid σ
  | checkpoint => exact .bind rel.trans (rel.checkpoint σ) fun _ _ => .pure rel.refl _
  | fetch oid pageId =>
      refine .get_bind (Db.ofExcept_bind fun table _ => ?_)
      exact .bind rel.trans (rel.getPage _ _ _ σ) fun _ _ => .pure rel.refl _
  | flush => exact .modify (rel.flushBuffers σ false)
  | createTable tableName schema => exact rel.createTable _ _ _ _ _ σ
  | dropTable tableName => exact rel.dropTable tableName σ
  | createDatabase databaseName => exact rel.createDatabase _ _ _ σ
  | dropDatabase databaseName missingOk => exact rel.dropDatabase databaseName missingOk σ
  | changeDatabase databaseName => exact rel.changeDatabase databaseName σ
  | restart => exact .bind rel.trans (rel.closeDatabase σ) fun _ _ => rel.reboot _
  | crash torn => exact .bind rel.trans (rel.stop torn σ) fun _ _ => rel.reboot _

end EngineRel

/-- The states that operations lead to from a state. -/
inductive Op.Later (guard : Engine → Op → Prop) (σ₀ : Engine) : Engine → Prop
  | refl : Op.Later guard σ₀ σ₀
  | step {σ σ' : Engine} {op : Op} :
      Op.Later guard σ₀ σ → guard σ op → op.exec σ = .ok () σ' → Op.Later guard σ₀ σ'

theorem Op.Reaches.later {guard : Engine → Op → Prop} {σ₀ σ : Engine} (run : Op.Reaches guard σ₀)
    (later : Op.Later guard σ₀ σ) : Op.Reaches guard σ := by
  induction later with
  | refl => exact run
  | step _ hguard hexec ih => exact ih.step hguard hexec

theorem Op.Later.serve {guard : Engine → Op → Prop} [∀ σ op, Decidable (guard σ op)] {ops : List Op}
    {σ₀ σ σ' : Engine} (later : Op.Later guard σ₀ σ) (h : Op.serve guard ops σ = some σ') :
    Op.Later guard σ₀ σ' := by
  induction ops generalizing σ with
  | nil =>
      cases h
      exact later
  | cons op ops ih =>
      simp only [Op.serve] at h
      split at h
      · split at h
        · exact ih (later.step ‹_› ‹_›) h
        · cases h
      · cases h

theorem EngineRel.later {R guard} (rel : EngineRel R) {σ₀ σ : Engine}
    (later : Op.Later guard σ₀ σ) : R σ₀ σ := by
  induction later with
  | refl => exact rel.refl σ₀
  | step _ _ hexec ih => exact rel.trans _ _ _ ih (rel.exec _ _ _ _ hexec)

/-! ## The log file -/

/-- The log file only grows. -/
def LogKept (σ σ' : Engine) : Prop := σ.disk.log <+: σ'.disk.log

namespace LogKept

theorem refl (σ : Engine) : LogKept σ σ := List.prefix_rfl

theorem trans (σ₁ σ₂ σ₃ : Engine) (h : LogKept σ₁ σ₂) (h' : LogKept σ₂ σ₃) : LogKept σ₁ σ₃ :=
  List.IsPrefix.trans h h'

theorem flushLog (σ : Engine) (lsn : Nat) : LogKept σ (σ.flushLog lsn) := by
  rw [LogKept, Engine.flushLog_disk_log]
  exact List.prefix_append _ _

theorem poolRel : PoolRel LogKept :=
  .of_effects refl trans (fun σ _ => refl σ) flushLog (fun σ _ => refl σ)
    fun σ path pageId page pageWrites => by
      obtain ⟨files, hdisk⟩ := σ.disk.writePage_eq path pageId page
      rw [hdisk]
      exact refl σ

theorem engineRel : EngineRel LogKept where
  toPoolRel := poolRel
  tables σ _ _ := refl σ
  push σ _ _ _ := refl σ
  flushLog := flushLog
  catalog σ _ := refl σ
  createFile σ _ := refl σ
  removeFile σ _ := refl σ
  removeDirectory σ _ := refl σ
  flushBuffers := poolRel.flushBuffers fun σ _ => refl σ
  log σ _ := refl σ
  txn σ _ := refl σ
  control σ _ := refl σ
  masterRecord σ _ := refl σ
  init σ _ := refl σ
  ofDisk σ := refl σ

end LogKept

/-- A commit flushes the records up to its own, and forgets the transaction. -/
theorem commit_flushes {σ σ' : Engine} {xid : Nat} (ok : LogOk σ)
    (run : DatabaseEngine.commit xid σ = .ok () σ') : ∃ prevLsn,
      σ.log.att.find? xid = some prevLsn ∧
      σ'.disk.log = σ.appended ++ [σ.nextRecord xid prevLsn .commit] ∧ σ'.log.logBuffer = [] ∧
      σ'.log.att = σ.log.att.erase xid ∧ σ'.txn.xid2cid = σ.txn.xid2cid.erase xid := by
  obtain ⟨lsn, σ₁, txn, happend, hfinish, rfl⟩ := DatabaseEngine.commit_eq_ok run
  obtain ⟨prevLsn, hfind, rfl⟩ := LogOp.eq_ended happend
  obtain ⟨-, -, hxid2cid⟩ := TransactionManager.finish_eq_ok hfinish
  let logged := σ.appendedWith xid prevLsn .commit (σ.log.att.erase xid) σ.log.dpt
  have hdue : ∀ r ∈ logged.log.logBuffer, LogRecord.isDue σ.log.nextLsn r = true := by
    intro r hr
    rcases List.mem_append.mp hr with hr | hr
    · have hlt := ok.buffer.pos_lt LogRecord.getSize_pos hr
      simp [LogRecord.isDue, Nat.le_of_lt hlt]
    · cases List.mem_singleton.mp hr
      simp [LogRecord.isDue]
  refine ⟨prevLsn, hfind, ?_, ?_, Engine.flushLog_att _ _, ?_⟩
  · refine (Engine.flushLog_disk_log logged _).trans ?_
    rw [List.filter_eq_self.mpr hdue]
    exact (List.append_assoc _ _ _).symm
  · refine (Engine.flushLog_logBuffer logged _).trans (List.filter_eq_nil_iff.mpr fun r hr => ?_)
    rw [hdue r hr]
    decide
  · rw [hxid2cid]
    exact congrArg (fun t => t.xid2cid.erase xid) (Engine.flushLog_txn logged _)

/-- Transaction 1 can commit while transaction 2 is active, and after a crash only
transaction 2 is. -/
def commitsBeforeCrash (σ : Engine) : Bool :=
  (DatabaseEngine.commit 1 σ).okAnd fun _ σ₁ =>
    (Op.serve XidGuard [.crash false] σ₁).any fun σ' => σ'.log.att.keys = [2] ∧
      σ'.disk.logEnd < 2 ^ 32 ∧ ∀ r ∈ σ'.disk.log, r.getSize ≤ logSegmentSize

/-- Two transactions after a checkpoint. -/
def twoBegin : List Op := [.flush, .checkpoint, .begin, .begin]

theorem exists_commitsBeforeCrash : ∃ σ σ₁ σ', Op.Reaches XidGuard σ ∧
    DatabaseEngine.commit 1 σ = .ok () σ₁ ∧ Op.Later XidGuard σ₁ σ' ∧ σ'.log.att.keys = [2] ∧
      σ'.disk.logEnd < 2 ^ 32 ∧ ∀ r ∈ σ'.disk.log, r.getSize ≤ logSegmentSize := by
  obtain ⟨σ, hσ, hcommits⟩ := Op.exists_history XidGuard twoBegin commitsBeforeCrash
    (by decide +kernel)
  obtain ⟨⟨⟩, σ₁, hcommit, hcrash⟩ := EStateM.Result.okAnd_iff.mp hcommits
  obtain ⟨σ', hserve, hcheck⟩ := (Option.any_eq_true _ _).mp hcrash
  exact ⟨σ, σ₁, σ', .history hσ, hcommit, .serve .refl hserve, of_decide_eq_true hcheck⟩

/-- A record behind the end of a transaction: it is of another one, and where it is of a
checkpoint, the transaction was not active there. -/
def LogRecord.Behind (xid : Nat) (r : LogRecord) : Prop :=
  r.xid ≠ xid ∧ ∀ att dpt, r.body = .endCheckpoint att dpt → xid ∉ att.keys

/-- The end record of a transaction is in the log file, and what was appended since is
behind it. -/
def Engine.HasEnded (xid : Nat) (σ : Engine) : Prop :=
  ∃ before r after, σ.appended = before ++ r :: after ∧ before ++ [r] <+: σ.disk.log ∧
    r.xid = xid ∧ r.ends ∧ ∀ r' ∈ after, r'.Behind xid

/-- What a process that starts again finds. -/
theorem Engine.HasEnded.reopened {xid : Nat} {σ σ' : Engine} (h : σ.HasEnded xid)
    (hlog : σ'.disk.log = σ.disk.log) (hbuffer : σ'.log.logBuffer = []) : σ'.HasEnded xid := by
  obtain ⟨before, r, after, happ, ⟨rest, hdisk⟩, hxid, hends, hafter⟩ := h
  have hrest : rest ++ σ.log.logBuffer = after := by
    rw [Engine.appended, ← hdisk] at happ
    simpa using happ
  refine ⟨before, r, rest, ?_, ?_, hxid, hends, fun r' hr' => ?_⟩
  · rw [Engine.appended, hbuffer, List.append_nil, hlog, ← hdisk, List.append_assoc]
    rfl
  · rw [hlog, ← hdisk]
    exact List.prefix_append _ _
  · exact hafter r' (hrest ▸ List.mem_append_left _ hr')

/-- A transaction that has ended and is not active. No transaction has the id that DDL
statements log under. -/
structure Over (xid : Nat) (σ : Engine) : Prop where
  log : LogOk σ
  ended : σ.HasEnded xid
  att : ∀ x ∈ σ.log.att.keys, x ≠ xid ∧ x ≠ ddlXid
  opened : xid ∉ σ.txn.xid2cid.keys

namespace Over

variable {xid : Nat} {control : Control} {σ σ' : Engine}

theorem of_same (same : SameXids σ σ') (kept : LogKept σ σ') (ok : Over xid σ) : Over xid σ' where
  log := (same.log ok.log).1
  ended := by
    obtain ⟨before, r, after, happ, hdisk, h⟩ := ok.ended
    exact ⟨before, r, after, (same.log ok.log).2.trans happ, hdisk.trans kept, h⟩
  att := same.att ▸ ok.att
  opened := same.txn ▸ ok.opened

theorem poolRel (xid : Nat) : PoolRel fun σ σ' => Over xid σ → Over xid σ' where
  refl _ := id
  trans _ _ _ h h' := h' ∘ h
  pool σ pool := of_same (SameXids.poolRel.pool σ pool) (LogKept.refl σ)
  flushPage σ frame := of_same (SameXids.poolRel.flushPage σ frame) (LogKept.poolRel.flushPage σ frame)

theorem flushLog (ok : Over xid σ) (lsn : Nat) : Over xid (σ.flushLog lsn) :=
  of_same (.flushLog σ lsn) (.flushLog σ lsn) ok

theorem flushBuffers (ok : Over xid σ) (regularOnly : Bool) : Over xid (σ.flushBuffers regularOnly) :=
  of_same (SameXids.poolRel.flushBuffers SameXids.systemRows σ regularOnly)
    (LogKept.engineRel.flushBuffers σ regularOnly) ok

theorem catalogRel (xid : Nat) : CatalogRel fun σ σ' => Over xid σ → Over xid σ' where
  refl _ := id
  trans _ _ _ h h' := h' ∘ h
  catalog σ catalog := of_same (.catalog σ catalog) (LogKept.refl σ)
  createFile σ _ := of_same (.files σ _) (LogKept.refl σ)
  removeFile σ _ := of_same (.files σ _) (LogKept.refl σ)
  removeDirectory σ _ := of_same (.files σ _) (LogKept.refl σ)
  flushBuffers _ regularOnly ok := ok.flushBuffers regularOnly

/-- The other members may change. -/
theorem congr (ok : Over xid σ) (hdisk : σ'.disk = σ.disk) (hlog : σ'.log = σ.log)
    (hopened : xid ∉ σ'.txn.xid2cid.keys) : Over xid σ' where
  log := by
    refine ok.log.of_log_eq ?_ ?_ ?_ ?_ ?_ ?_ ?_ <;> first | rw [hdisk] | rw [hlog]
  ended := by
    rw [Engine.HasEnded, Engine.appended, hdisk, hlog]
    exact ok.ended
  att := hlog ▸ ok.att
  opened := hopened

/-- Appending a record. -/
theorem append (ok : Over xid σ) {xid' prevLsn : Nat} {body : LogBody} {att : Att} {dpt : Dpt}
    (hbehind : (σ.nextRecord xid' prevLsn body).Behind xid)
    (hatt : ∀ x ∈ att.keys, x ≠ xid ∧ x ≠ ddlXid) :
    Over xid (σ.appendedWith xid' prevLsn body att dpt) where
  log := ok.log.push xid' prevLsn body att dpt
  ended := by
    obtain ⟨before, r, after, happ, hdisk, hxid, hends, hafter⟩ := ok.ended
    refine ⟨before, r, after ++ [σ.nextRecord xid' prevLsn body], ?_, hdisk, hxid, hends, ?_⟩
    · rw [σ.appended_appendedWith, happ, List.append_assoc, List.cons_append]
    · exact List.forall_mem_append.mpr ⟨hafter, List.forall_mem_singleton.mpr hbehind⟩
  att := hatt
  opened := ok.opened

theorem ne_of_find? (ok : Over xid σ) {xid' lsn : Nat} (h : σ.log.att.find? xid' = some lsn) :
    xid' ≠ xid ∧ xid' ≠ ddlXid := ok.att xid' (Assoc.mem_keys_iff.mpr (h ▸ rfl))

theorem att_insert (ok : Over xid σ) {xid' : Nat} (hne : xid' ≠ xid ∧ xid' ≠ ddlXid) (lsn : Nat) :
    ∀ x ∈ (σ.log.att.insert xid' lsn).keys, x ≠ xid ∧ x ≠ ddlXid := by
  intro x hx
  rw [Assoc.keys_insert] at hx
  split at hx
  · exact ok.att x hx
  · rcases List.mem_append.mp hx with hx | hx
    · exact ok.att x hx
    · exact List.mem_singleton.mp hx ▸ hne

/-- A record of an active transaction. -/
theorem appendActive (ok : Over xid σ) {xid' lastLsn prevLsn : Nat} {body : LogBody} {dpt : Dpt}
    (hlast : σ.log.att.find? xid' = some lastLsn) (hbody : body.getType ≠ .endCheckpoint) :
    Over xid (σ.appendedWith xid' prevLsn body (σ.log.att.insert xid' σ.log.nextLsn) dpt) := by
  have hne := ok.ne_of_find? hlast
  refine ok.append ⟨hne.1, fun att dpt h => ?_⟩ (ok.att_insert hne _)
  exact absurd (congrArg LogBody.getType h) hbody

theorem find?_ddlXid (ok : Over xid σ) : σ.log.att.find? ddlXid = none :=
  Assoc.find?_eq_none_iff.mpr fun h => (ok.att _ h).2 rfl

/-! ### The operations on tables -/

theorem insertInto {oid pageId frame xid' cid : Nat} {record : Record} (σ : Engine) :
    RunsFrom (fun σ σ' => Over xid σ → Over xid σ') σ
      (Table.insertInto oid pageId frame record xid' cid) := by
  intro σ' rid run ok
  obtain ⟨entry, prevLsn, -, hprev, -, rfl⟩ := Table.insertInto_eq_ok run
  exact (ok.appendActive hprev LogType.noConfusion).congr rfl rfl ok.opened

theorem insertIntoNewPage {oid prevPageId pageId frame xid' cid : Nat} {record : Record} (σ : Engine) :
    RunsFrom (fun σ σ' => Over xid σ → Over xid σ') σ
      (Table.insertIntoNewPage oid prevPageId pageId frame record xid' cid) := by
  intro σ' rid run ok
  obtain ⟨entry, prevLsn, -, hprev, -, rfl⟩ := Table.insertIntoNewPage_eq_ok ok.find?_ddlXid run
  have created : Over xid { σ with
      log := Table.newPageLogged σ.log oid prevPageId pageId xid' prevLsn } :=
    ok.appendActive hprev LogType.noConfusion
  have inserted : Over xid { σ with
      log := Table.insertLogged (Table.newPageLogged σ.log oid prevPageId pageId xid' prevLsn) oid pageId
        (entry.page.init.insertRecord record xid' cid) xid' σ.log.nextLsn } :=
    created.appendActive (Assoc.find?_insert_self _ _ _) LogType.noConfusion
  exact inserted.congr rfl rfl ok.opened

theorem insertRecord (oid : Nat) (record : Record) (xid' cid : Nat) (σ : Engine) :
    RunsFrom (fun σ σ' => Over xid σ → Over xid σ') σ (Table.insertRecord oid record xid' cid) :=
  (poolRel xid).insertRecord (fun σ _ _ => (catalogRel xid).catalog σ _)
    (fun _ _ => insertInto) (fun _ _ _ => insertIntoNewPage) σ

theorem deleteRecord (oid : Nat) (rid : Rid) (xid' : Nat) (σ : Engine) :
    RunsFrom (fun σ σ' => Over xid σ → Over xid σ') σ (Table.deleteRecord oid rid xid') := by
  intro σ' _ run ok
  obtain ⟨table, frame, σ₁, entry, page, prevLsn, -, hget, -, -, hprev, rfl⟩ :=
    Table.deleteRecord_eq_ok run
  have ok₁ : Over xid σ₁ := (poolRel xid).getPage _ _ _ σ σ₁ frame hget ok
  have deleted : Over xid { σ₁ with
      log := Table.deleteLogged σ₁.log oid rid.pageId rid.slotId xid' prevLsn } :=
    ok₁.appendActive hprev LogType.noConfusion
  exact deleted.congr rfl rfl ok₁.opened

/-! ### Transactions and checkpoints -/

theorem begin (ok : Over xid σ) (hxid : xid < σ.txn.nextXid) (hpos : ddlXid < σ.txn.nextXid)
    {xid' : Nat} (run : DatabaseEngine.begin σ = .ok xid' σ') : Over xid σ' := by
  obtain ⟨rfl, -, rfl⟩ := DatabaseEngine.begin_eq_ok run
  have begun : Over xid (σ.appendedWith σ.txn.nextXid nullLsn .begin
      (σ.log.att.insert σ.txn.nextXid σ.log.nextLsn) σ.log.dpt) :=
    ok.append ⟨Nat.ne_of_gt hxid, fun _ _ h => by cases h⟩
      (ok.att_insert ⟨Nat.ne_of_gt hxid, Nat.ne_of_gt hpos⟩ _)
  refine begun.congr rfl rfl fun hopened => ?_
  have hkeys : xid ∈ (σ.txn.xid2cid.insert σ.txn.nextXid firstCid).keys := hopened
  rw [Assoc.keys_insert] at hkeys
  split at hkeys
  · exact ok.opened hkeys
  · rcases List.mem_append.mp hkeys with h | h
    · exact ok.opened h
    · exact absurd (List.mem_singleton.mp h) (Nat.ne_of_lt hxid)

/-- The end of another transaction. -/
theorem finish (ok : Over xid σ) {xid' lsn : Nat} {body : LogBody} {caller caller' : String}
    {txn : TransactionManager} {σ₁ : Engine} (hbody : body.getType ≠ .endCheckpoint)
    (happend : LogManager.appendEndLog xid' body caller σ = .ok lsn σ₁)
    (hfinish : σ₁.txn.finish xid' caller' = .ok txn) : Over xid { σ₁ with txn := txn } := by
  obtain ⟨lastLsn, hfind, rfl⟩ := LogOp.eq_ended happend
  obtain ⟨-, -, hxid2cid⟩ := TransactionManager.finish_eq_ok hfinish
  have logged : Over xid (σ.appendedWith xid' lastLsn body (σ.log.att.erase xid') σ.log.dpt) :=
    ok.append ⟨(ok.ne_of_find? hfind).1, fun _ _ h => absurd (congrArg LogBody.getType h) hbody⟩
      fun x hx => ok.att x (Assoc.keys_erase_subset _ _ hx)
  have flushed := logged.flushLog σ.log.nextLsn
  refine flushed.congr rfl rfl fun hopened => flushed.opened ?_
  have hkeys : xid ∈ txn.xid2cid.keys := hopened
  rw [hxid2cid] at hkeys
  exact Assoc.keys_erase_subset _ _ hkeys

theorem commit (ok : Over xid σ) {xid' : Nat} (run : DatabaseEngine.commit xid' σ = .ok () σ') :
    Over xid σ' := by
  obtain ⟨lsn, σ₁, txn, happend, hfinish, rfl⟩ := DatabaseEngine.commit_eq_ok run
  exact ok.finish LogType.noConfusion happend hfinish

/-- Undoing another transaction. -/
theorem undo (ok : Over xid σ) {xid' : Nat} (hne : xid' ≠ xid ∧ xid' ≠ ddlXid)
    (run : LogManager.rollback xid' σ = .ok () σ') : Over xid σ' := by
  obtain ⟨_, σ₁, hmodify, hloop⟩ := EStateM.bind_eq_ok_iff.mp run
  cases EStateM.modify_eq_ok_iff.mp hmodify
  rw [EStateM.bind_of_ok (EStateM.get_eq_ok_iff.mpr ⟨rfl, rfl⟩)] at hloop
  refine (poolRel xid).rollbackLoop _ _ _ σ' () hloop ?_
  have hatt : ∀ x ∈ (σ.log.att.insertNew xid' 0).keys, x ≠ xid ∧ x ≠ ddlXid := by
    intro x hx
    obtain ⟨lsn, hlsn⟩ := Option.isSome_iff_exists.mp (Assoc.mem_keys_iff.mp hx)
    rcases Assoc.find?_insertNew_cases hlsn with hlsn | ⟨rfl, -⟩
    · exact ok.ne_of_find? hlsn
    · exact hne
  exact ⟨ok.log.of_log_eq rfl rfl rfl rfl rfl rfl rfl, ok.ended, hatt, ok.opened⟩

theorem rollback (ok : Over xid σ) (known : XidsKnown σ) {xid' : Nat}
    (run : DatabaseEngine.rollback xid' σ = .ok () σ') : Over xid σ' := by
  obtain ⟨σ₁, lsn, σ₂, txn, hundo, happend, hfinish, rfl⟩ := DatabaseEngine.rollback_eq_ok run
  -- the transaction manager knows the transaction
  have hopened : xid' ∈ σ.txn.xid2cid.keys := by
    obtain ⟨hknown, -, -⟩ := TransactionManager.finish_eq_ok hfinish
    obtain ⟨lastLsn, -, rfl⟩ := LogOp.eq_ended happend
    have htxn : (LogOp.ended σ₁ xid' lastLsn .rollback).txn = σ₁.txn := Engine.flushLog_txn _ _
    rwa [htxn, (known.rollback_log hundo).2.2] at hknown
  have hne : xid' ≠ xid ∧ xid' ≠ ddlXid :=
    ⟨fun h => ok.opened (h ▸ hopened), known.core.ne_of_xidIn (known.core.opened xid' hopened)⟩
  exact (ok.undo hne hundo).finish LogType.noConfusion happend hfinish

theorem checkpointLogged (ok : Over xid σ) (hxid : xid ≠ nullXid) :
    Over xid (LogManager.checkpointLogged σ) := by
  have begun : Over xid (σ.appendedWith nullXid nullLsn .beginCheckpoint σ.log.att σ.log.dpt) :=
    ok.append ⟨hxid.symm, fun _ _ h => by cases h⟩ ok.att
  refine begun.append ⟨hxid.symm, fun att dpt h => ?_⟩ ok.att
  cases h
  exact fun hmem => (ok.att xid hmem).1 rfl

theorem checkpoint (ok : Over xid σ) (hxid : xid ≠ nullXid) {lsn : Nat}
    (run : LogManager.checkpoint σ = .ok lsn σ') : Over xid σ' := by
  rw [LogManager.checkpoint_eq] at run
  cases run
  exact of_same (.masterRecord _ _) (LogKept.refl _)
    ((ok.checkpointLogged hxid).flushLog (σ.log.nextLsn + LogRecord.headerSize))

theorem stop (ok : Over xid σ) (hxid : xid ≠ nullXid) {torn : Bool}
    (run : Op.stop torn σ = .ok () σ') : Over xid σ' := by
  cases torn with
  | false =>
      cases run
      exact ok
  | true =>
      obtain ⟨lsns, σ₁, hcheckpoint, hreturn⟩ := EStateM.bind_eq_ok_iff.mp run
      cases hreturn
      rw [LogManager.checkpointLog_eq] at hcheckpoint
      cases hcheckpoint
      exact (ok.checkpointLogged hxid).flushLog _

/-! ### Restarts and crashes -/

/-- The start after a clean shutdown. -/
theorem of_opened (ok : Over xid σ) {disk : Disk} (hlog : disk.log = σ.disk.log)
    (opened : Opened disk control σ') (log : LogOk σ') : Over xid σ' where
  log := log
  ended := ok.ended.reopened (opened.same.log.trans hlog) (by
    rw [opened.log]
    rfl)
  att x hx := by
    rw [opened.log] at hx
    cases hx
  opened := by
    rw [opened.txn]
    exact List.not_mem_nil

/-- The scan of `Analyze` meets the end record, or starts behind it. -/
theorem not_mem_keys_analyze {log before after scanned : List LogRecord} {e r : LogRecord} {att : Att}
    {dpt : Dpt} (hlog : log = before ++ r :: after) (hends : r.ends)
    (hafter : ∀ r' ∈ after, r'.Behind r.xid) {saved : List LogRecord}
    (hscan : log = saved ++ e :: scanned) (hbody : e.body = .endCheckpoint att dpt) :
    r.xid ∉ (scanned.foldl LogManager.AnalyzeState.step ⟨att, dpt, 0⟩).att.keys := by
  rw [← Assoc.find?_eq_none_iff, AnalyzeState.find?_att_foldl]
  have hne : e ≠ r := by
    rintro rfl
    simp [LogRecord.ends, LogRecord.getType, hbody, LogBody.getType] at hends
  rcases List.append_eq_append_iff.mp (hlog.symm.trans hscan) with ⟨l, hsaved, hl⟩ | ⟨l, hbefore, hl⟩
  · -- the checkpoint is behind the end record
    cases l with
    | nil => exact absurd (List.cons.inj hl).1.symm hne
    | cons r' l =>
        obtain ⟨rfl, rfl⟩ := List.cons.inj hl
        have hatt := (hafter e (by simp)).2 att dpt hbody
        rw [scanXid_foldl_of_forall_ne fun r' hr' => (hafter r' (by simp [hr'])).1]
        exact Assoc.find?_eq_none_iff.mpr hatt
  · cases l with
    | nil => exact absurd (List.cons.inj hl).1 hne
    | cons e' l =>
        have hscanned : scanned = l ++ r :: after := (List.cons.inj hl).2
        rw [hscanned, List.foldl_append, List.foldl_cons,
          scanXid_foldl_of_forall_ne fun r' hr' => (hafter r' hr').1, scanXid, if_pos rfl, if_pos hends]

theorem analyze (ok : Over xid σ) (known : XidsDisk σ.disk) (opened : Opened σ.disk control σ')
    (small : σ.disk.logEnd < 2 ^ 32) {τ : Engine} (run : LogManager.analyze σ' = .ok () τ)
    (log : LogOk τ) : Over xid τ := by
  have tiles : LogTiles 0 σ'.disk.log σ'.disk.logEnd := by
    rw [opened.same.log, opened.logEnd]
    exact known.tiles
  obtain ⟨saved, e, att, dpt, hscan, -, hbody, -, rfl⟩ :=
    LogManager.analyze_eq_ok tiles (opened.logEnd ▸ small) run
  have hbuffer : σ'.log.logBuffer = [] := by
    rw [opened.log]
    rfl
  have hended : σ'.HasEnded xid := ok.ended.reopened opened.same.log hbuffer
  refine ⟨log, hended, fun x hx => ⟨?_, ?_⟩, ?_⟩
  · rintro rfl
    obtain ⟨before, r, after, happ, -, rfl, hends, hafter⟩ := hended
    rw [Engine.appended, hbuffer, List.append_nil] at happ
    exact not_mem_keys_analyze happ hends hafter hscan hbody hx
  · rw [opened.same.log] at hscan
    rcases AnalyzeState.mem_keys_att_foldl hx with hx | ⟨r, hr, rfl⟩
    · rcases known.records.checkpoints saved e _ att dpt hscan hbody x hx with rfl | ⟨r, hr, rfl⟩
      · decide
      · exact known.ne r (hscan ▸ List.mem_append_left _ hr)
    · exact known.ne r (hscan ▸ List.mem_append_right _ (List.mem_cons_of_mem _ hr))
  · have htxn : (LogManager.analyzed σ' (σ'.disk.afterCheckpoint.foldl LogManager.AnalyzeState.step
        ⟨att, dpt, 0⟩)).txn.xid2cid = [] := by
      refine (TransactionManager.setNextXid_xid2cid _ _).trans ?_
      rw [opened.txn]
    rw [htxn]
    exact List.not_mem_nil

theorem undoLoop (ok : Over xid σ) {xids : List Nat} (hxids : ∀ x ∈ xids, x ≠ xid ∧ x ≠ ddlXid)
    (run : LogManager.undoLoop xids σ = .ok () σ') : Over xid σ' := by
  induction xids generalizing σ with
  | nil =>
      cases run
      exact ok
  | cons x xids ih =>
      obtain ⟨_, σ₁, hundo, hrest⟩ := EStateM.bind_eq_ok_iff.mp run
      exact ih (ok.undo (hxids x List.mem_cons_self) hundo)
        (fun x hx => hxids x (List.mem_cons_of_mem _ hx)) hrest

/-- A crash and the recovery after it. -/
theorem crash (ok : Over xid σ) (hxid : xid ≠ nullXid) (known : XidsOk σ) {torn : Bool}
    (guard : XidGuard σ (.crash torn)) (run : Op.exec (.crash torn) σ = .ok () σ') : Over xid σ' := by
  obtain ⟨_, σ₁, hstop, hboot⟩ := EStateM.bind_eq_ok_iff.mp run
  obtain ⟨stopped, small, control, hcontrol, hnormal, hpos, hlt, bounded⟩ := known.stopped guard hstop
  obtain ⟨σ₂, hload, hrecover⟩ := Op.boot_eq_ok hcontrol stopped.core.init hboot
  have opened : Opened σ₁.disk control σ₂ :=
    (Opened.catalogRel σ₁.disk control).loadSystemTables _ σ₂ () hload (.restore stopped.disk control)
  rw [hnormal] at hrecover
  obtain ⟨_, σ₃, hanalyze, hrest⟩ := EStateM.bind_eq_ok_iff.mp hrecover
  have log := (opened.analyze stopped.disk stopped.core.init small hpos hlt bounded hanalyze).1.core.log
  have ok₃ := (ok.stop hxid hstop).analyze stopped.disk opened small hanalyze log
  obtain ⟨_, σ₄, hredo, hundo⟩ := EStateM.bind_eq_ok_iff.mp hrest
  have ok₄ : Over xid σ₄ := (poolRel xid).redo σ₃ σ₄ () hredo ok₃
  unfold LogManager.undo at hundo
  rw [EStateM.bind_of_ok (EStateM.get_eq_ok_iff.mpr ⟨rfl, rfl⟩)] at hundo
  exact ok₄.undoLoop ok₄.att hundo

/-- A clean shutdown and the start after it. -/
theorem restart (ok : Over xid σ) (hxid : xid ≠ nullXid) (known : XidsOk σ)
    (run : Op.exec .restart σ = .ok () σ') : Over xid σ' := by
  have log := (known.restart run).core.log
  obtain ⟨_, σ₁, hclose, hboot⟩ := EStateM.bind_eq_ok_iff.mp run
  obtain ⟨_, σ₂, hflush, hclose⟩ := EStateM.bind_eq_ok_iff.mp hclose
  cases EStateM.modify_eq_ok_iff.mp hflush
  obtain ⟨_, σ₂, hlog, hclose⟩ := EStateM.bind_eq_ok_iff.mp hclose
  cases EStateM.modify_eq_ok_iff.mp hlog
  obtain ⟨lsn, σ₂, hcheckpoint, hclose⟩ := EStateM.bind_eq_ok_iff.mp hclose
  cases EStateM.modify_eq_ok_iff.mp hclose
  have closed := ((ok.flushBuffers false).flushLog nullLsn).checkpoint hxid hcheckpoint
  have known₂ := ((known.flushBuffers false).flushLog nullLsn).checkpoint hcheckpoint
  obtain ⟨σ₃, hload, hrecover⟩ := Op.boot_eq_ok (by rfl) (by exact known₂.core.init) hboot
  cases hrecover
  have hdisk := known₂.disk
  exact closed.of_opened rfl ((Opened.catalogRel _ _).loadSystemTables _ σ' () hload (.restore
    ⟨hdisk.tiles, hdisk.covers, hdisk.ne, hdisk.lt, hdisk.records, hdisk.images⟩ _)) log

/-- One step of a history. -/
theorem exec (ok : Over xid σ) (hxid : xid ≠ nullXid) (known : XidsOk σ) {op : Op}
    (guard : XidGuard σ op) (run : op.exec σ = .ok () σ') : Over xid σ' := by
  cases op with
  | begin =>
      obtain ⟨xid', σ₁, hbegin, hreturn⟩ := EStateM.bind_eq_ok_iff.mp run
      cases hreturn
      obtain ⟨before, r, after, happ, -, rfl, -⟩ := ok.ended
      exact ok.begin (known.core.fresh r (happ ▸ by simp) hxid) known.core.pos hbegin
  | insert xid' oid cid data =>
      obtain ⟨rid, σ₁, hinsert, hreturn⟩ := EStateM.bind_eq_ok_iff.mp run
      cases hreturn
      exact insertRecord oid _ xid' cid σ σ' rid hinsert ok
  | delete xid' oid rid => exact deleteRecord oid rid xid' σ σ' () run ok
  | commit xid' => exact ok.commit run
  | rollback xid' => exact ok.rollback known.known run
  | checkpoint =>
      obtain ⟨lsn, σ₁, hcheckpoint, hreturn⟩ := EStateM.bind_eq_ok_iff.mp run
      cases hreturn
      exact ok.checkpoint hxid hcheckpoint
  | fetch oid pageId =>
      have hfetch : RunsFrom (fun σ σ' => Over xid σ → Over xid σ') σ (Op.fetch oid pageId).exec :=
        .get_bind (Db.ofExcept_bind fun _ _ => .bind (poolRel xid).trans ((poolRel xid).getPage _ _ _ _)
          fun _ _ => .pure (poolRel xid).refl _)
      exact hfetch σ' () run ok
  | flush =>
      cases EStateM.modify_eq_ok_iff.mp run
      exact ok.flushBuffers false
  | createTable tableName schema => exact (catalogRel xid).createTable _ _ _ _ _ σ σ' () run ok
  | dropTable tableName => exact (catalogRel xid).dropTable _ σ σ' () run ok
  | createDatabase databaseName => exact (catalogRel xid).createDatabase _ _ _ σ σ' () run ok
  | dropDatabase databaseName missingOk => exact (catalogRel xid).dropDatabase _ _ σ σ' () run ok
  | changeDatabase databaseName => exact (catalogRel xid).changeDatabase _ σ σ' () run ok
  | restart => exact ok.restart hxid known run
  | crash torn => exact ok.crash hxid known guard run

end Over

/-- A transaction whose commit has returned is over. -/
theorem over_of_commit {σ σ' : Engine} {xid : Nat} (known : XidsOk σ)
    (run : DatabaseEngine.commit xid σ = .ok () σ') : Over xid σ' := by
  obtain ⟨prevLsn, -, hdisk, hbuffer, hatt, hxid2cid⟩ := commit_flushes known.core.log run
  refine ⟨(known.commit run).core.log,
    ⟨σ.appended, σ.nextRecord xid prevLsn .commit, [], ?_, ?_, rfl, rfl, ?_⟩, ?_, ?_⟩
  · rw [Engine.appended, hdisk, hbuffer, List.append_nil]
  · exact hdisk ▸ List.prefix_rfl
  · exact fun r hr => absurd hr List.not_mem_nil
  · intro x hx
    rw [hatt] at hx
    refine ⟨?_, known.core.ne_of_xidIn (known.core.att x (Assoc.keys_erase_subset _ _ hx))⟩
    rintro rfl
    rw [Assoc.mem_keys_iff, Assoc.find?_erase, if_pos rfl] at hx
    cases hx
  · rw [hxid2cid, ← Assoc.find?_eq_none_iff, Assoc.find?_erase, if_pos rfl]

end HuaDB
