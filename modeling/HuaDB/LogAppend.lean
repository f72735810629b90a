import HuaDB.DatabaseEngine
import HuaDB.LogInvariant

/-!
The successful runs of the operations that append log records, as equations
between the states before and after.
-/

namespace HuaDB

namespace LogManager

/-- The log manager after a record is appended with the given tables. -/
def appendedWith (log : LogManager) (xid prevLsn : Nat) (body : LogBody) (att : Att) (dpt : Dpt) :
    LogManager :=
  { (log.push xid prevLsn body).2 with att := att, dpt := dpt }

section Fields

variable (log : LogManager) (xid prevLsn : Nat) (body : LogBody) (att : Att) (dpt : Dpt)

@[simp] theorem appendedWith_att : (log.appendedWith xid prevLsn body att dpt).att = att := rfl

@[simp] theorem appendedWith_dpt : (log.appendedWith xid prevLsn body att dpt).dpt = dpt := rfl

@[simp] theorem appendedWith_flushedLsn :
    (log.appendedWith xid prevLsn body att dpt).flushedLsn = log.flushedLsn := rfl

@[simp] theorem appendedWith_logBuffer :
    (log.appendedWith xid prevLsn body att dpt).logBuffer =
      log.logBuffer ++ [⟨log.nextLsn, xid, prevLsn, body⟩] := rfl

@[simp] theorem appendedWith_nextLsn :
    (log.appendedWith xid prevLsn body att dpt).nextLsn =
      (⟨log.nextLsn, xid, prevLsn, body⟩ : LogRecord).endLsn := rfl

end Fields

variable {σ σ' : Engine} {xid oid pageId slotId lsn : Nat}

/-- `AppendInsertLog` and `AppendDeleteLog`: chain the record to the
transaction, and enter its page in the dirty page table. -/
theorem appendInsertLog_eq_ok_iff {offset size : Nat} {record : Record} :
    appendInsertLog xid oid pageId slotId offset size record σ = .ok lsn σ' ↔
      ∃ prevLsn, σ.log.att.find? xid = some prevLsn ∧ lsn = σ.log.nextLsn ∧
        σ' = { σ with
          log := σ.log.appendedWith xid prevLsn
            (.insert oid pageId slotId offset size record)
            (σ.log.att.insert xid σ.log.nextLsn)
            (σ.log.dpt.insertNew ⟨oid, pageId⟩ σ.log.nextLsn) } := by
  simp only [appendInsertLog]
  rw [EStateM.bind_of_ok (EStateM.get_eq_ok_iff.mpr ⟨rfl, rfl⟩)]
  cases hatt : σ.log.att.find? xid with
  | none => simp [EStateM.throw_eq_ok_iff]
  | some prevLsn =>
      constructor
      · intro run
        cases run
        exact ⟨prevLsn, rfl, rfl, rfl⟩
      · rintro ⟨_, hprev, rfl, rfl⟩
        cases hprev
        rfl

theorem appendDeleteLog_eq_ok_iff :
    appendDeleteLog xid oid pageId slotId σ = .ok lsn σ' ↔
      ∃ prevLsn, σ.log.att.find? xid = some prevLsn ∧ lsn = σ.log.nextLsn ∧
        σ' = { σ with
          log := σ.log.appendedWith xid prevLsn (.delete oid pageId slotId)
            (σ.log.att.insert xid σ.log.nextLsn)
            (σ.log.dpt.insertNew ⟨oid, pageId⟩ σ.log.nextLsn) } := by
  simp only [appendDeleteLog]
  rw [EStateM.bind_of_ok (EStateM.get_eq_ok_iff.mpr ⟨rfl, rfl⟩)]
  cases hatt : σ.log.att.find? xid with
  | none => simp [EStateM.throw_eq_ok_iff]
  | some prevLsn =>
      constructor
      · intro run
        cases run
        exact ⟨prevLsn, rfl, rfl, rfl⟩
      · rintro ⟨_, hprev, rfl, rfl⟩
        cases hprev
        rfl

/-- The dirty page table after a `NewPageLog`: the new page and, where there is
one, its predecessor. -/
def dptNewPage (dpt : Dpt) (oid prevPageId pageId lsn : Nat) : Dpt :=
  if prevPageId ≠ nullPageId then
    (dpt.insertNew ⟨oid, pageId⟩ lsn).insertNew ⟨oid, prevPageId⟩ lsn
  else
    dpt.insertNew ⟨oid, pageId⟩ lsn

theorem appendNewPageLog_eq_ok_iff {prevPageId : Nat} (hxid : xid ≠ ddlXid) :
    appendNewPageLog xid oid prevPageId pageId σ = .ok lsn σ' ↔
      ∃ lastLsn, σ.log.att.find? xid = some lastLsn ∧ lsn = σ.log.nextLsn ∧
        σ' = { σ with
          log := σ.log.appendedWith xid (lastLsn % 2 ^ 32) (.newPage oid prevPageId pageId)
            (σ.log.att.insert xid σ.log.nextLsn)
            (dptNewPage σ.log.dpt oid prevPageId pageId σ.log.nextLsn) } := by
  simp only [appendNewPageLog, if_neg hxid]
  rw [EStateM.bind_of_ok (EStateM.get_eq_ok_iff.mpr ⟨rfl, rfl⟩)]
  cases hatt : σ.log.att.find? xid with
  | none =>
      constructor
      · intro run
        cases run
      · rintro ⟨_, hprev, -⟩
        cases hprev
  | some prevLsn =>
      dsimp only
      simp only [pure_bind]
      by_cases hprevPage : prevPageId ≠ nullPageId
      · simp only [dptNewPage, if_pos hprevPage]
        constructor
        · intro run
          cases run
          exact ⟨prevLsn, rfl, rfl, rfl⟩
        · rintro ⟨_, hprev, rfl, rfl⟩
          cases hprev
          rfl
      · simp only [dptNewPage, if_neg hprevPage]
        constructor
        · intro run
          cases run
          exact ⟨prevLsn, rfl, rfl, rfl⟩
        · rintro ⟨_, hprev, rfl, rfl⟩
          cases hprev
          rfl

theorem appendBeginLog_eq_ok_iff :
    appendBeginLog xid σ = .ok lsn σ' ↔
      σ.log.att.find? xid = none ∧ lsn = σ.log.nextLsn ∧
        σ' = { σ with
          log := σ.log.appendedWith xid nullLsn .begin
            (σ.log.att.insert xid σ.log.nextLsn) σ.log.dpt } := by
  simp only [appendBeginLog]
  rw [EStateM.bind_of_ok (EStateM.get_eq_ok_iff.mpr ⟨rfl, rfl⟩)]
  cases hatt : σ.log.att.find? xid with
  | none =>
      constructor
      · intro run
        cases run
        exact ⟨rfl, rfl, rfl⟩
      · rintro ⟨-, rfl, rfl⟩
        rfl
  | some prevLsn =>
      constructor
      · intro run
        cases run
      · rintro ⟨h, -⟩
        cases h

/-- The state in which `AppendCommitLog` or `AppendRollbackLog` flushes. -/
def endLogged (σ : Engine) (xid prevLsn : Nat) (body : LogBody) : Engine :=
  { σ with log := σ.log.appendedWith xid prevLsn body σ.log.att σ.log.dpt }

theorem appendEndLog_eq_ok_iff {body : LogBody} {caller : String} :
    appendEndLog xid body caller σ = .ok lsn σ' ↔
      ∃ prevLsn, σ.log.att.find? xid = some prevLsn ∧ lsn = σ.log.nextLsn ∧
        σ' =
          let flushed := (endLogged σ xid prevLsn body).flushLog σ.log.nextLsn
          { flushed with log := { flushed.log with att := flushed.log.att.erase xid } } := by
  simp only [appendEndLog]
  rw [EStateM.bind_of_ok (EStateM.get_eq_ok_iff.mpr ⟨rfl, rfl⟩)]
  cases hatt : σ.log.att.find? xid with
  | none => simp [EStateM.throw_eq_ok_iff]
  | some prevLsn =>
      constructor
      · intro run
        cases run
        exact ⟨prevLsn, rfl, rfl, rfl⟩
      · rintro ⟨_, hprev, rfl, rfl⟩
        cases hprev
        rfl

/-- The state in which `Checkpoint` flushes: two records longer. -/
def checkpointLogged (σ : Engine) : Engine :=
  let begun := σ.log.appendedWith nullXid nullLsn .beginCheckpoint σ.log.att σ.log.dpt
  { σ with
    log := begun.appendedWith nullXid nullLsn (.endCheckpoint σ.log.att σ.log.dpt)
      σ.log.att σ.log.dpt }

theorem checkpointLog_eq (σ : Engine) :
    checkpointLog σ =
      .ok (σ.log.nextLsn, σ.log.nextLsn + LogRecord.headerSize)
        ((checkpointLogged σ).flushLog (σ.log.nextLsn + LogRecord.headerSize)) := rfl

theorem checkpoint_eq (σ : Engine) :
    checkpoint σ =
      let flushed := (checkpointLogged σ).flushLog (σ.log.nextLsn + LogRecord.headerSize)
      .ok (σ.log.nextLsn + LogRecord.headerSize)
        { flushed with disk := { flushed.disk with masterRecord := some σ.log.nextLsn } } := rfl

end LogManager

/-! ## Transactions -/

theorem TransactionManager.finish_eq_ok {txn txn' : TransactionManager} {xid : Nat} {caller : String}
    (h : txn.finish xid caller = .ok txn') :
    xid ∈ txn.xid2cid.keys ∧ txn'.nextXid = txn.nextXid ∧ txn'.xid2cid = txn.xid2cid.erase xid := by
  unfold finish at h
  split at h
  · cases h
  · rename_i hopen
    split at h
    · cases h
    · cases h
      refine ⟨Assoc.mem_keys_iff.mpr ?_, rfl, rfl⟩
      simpa [Option.isSome_iff_ne_none] using hopen

namespace DatabaseEngine

variable {σ σ' : Engine} {xid : Nat}

theorem begin_eq_ok (run : DatabaseEngine.begin σ = .ok xid σ') :
    xid = σ.txn.nextXid ∧ σ.log.att.find? σ.txn.nextXid = none ∧
      σ' = { σ with
        txn := σ.txn.begin.2
        log := σ.log.appendedWith σ.txn.nextXid nullLsn .begin
          (σ.log.att.insert σ.txn.nextXid σ.log.nextLsn) σ.log.dpt } := by
  unfold DatabaseEngine.begin at run
  rw [EStateM.bind_of_ok (EStateM.get_eq_ok_iff.mpr ⟨rfl, rfl⟩)] at run
  obtain ⟨_, _, hmodify, happend⟩ := EStateM.bind_eq_ok_iff.mp run
  cases EStateM.modify_eq_ok_iff.mp hmodify
  obtain ⟨_, _, happend, hreturn⟩ := EStateM.bind_eq_ok_iff.mp happend
  obtain ⟨hnew, -, rfl⟩ := LogManager.appendBeginLog_eq_ok_iff.mp happend
  obtain ⟨rfl, rfl⟩ := EStateM.pure_eq_ok_iff.mp hreturn
  exact ⟨rfl, hnew, rfl⟩

/-- What `DatabaseEngine::Commit` and `DatabaseEngine::Rollback` end with. -/
theorem finish_eq_ok (finish : TransactionManager → Except DbError TransactionManager)
    (run : (do
      let txn ← Db.ofExcept (finish (← get).txn)
      modify fun σ => { σ with txn := txn } : Db Unit) σ = .ok () σ') :
    ∃ txn, finish σ.txn = .ok txn ∧ σ' = { σ with txn := txn } := by
  rw [EStateM.bind_of_ok (EStateM.get_eq_ok_iff.mpr ⟨rfl, rfl⟩)] at run
  cases hfinish : finish σ.txn with
  | error e =>
      rw [hfinish] at run
      cases run
  | ok txn =>
      rw [hfinish, Db.ofExcept_ok, pure_bind] at run
      cases EStateM.modify_eq_ok_iff.mp run
      exact ⟨txn, rfl, rfl⟩

theorem commit_eq_ok (run : commit xid σ = .ok () σ') :
    ∃ lsn σ₁ txn, LogManager.appendCommitLog xid σ = .ok lsn σ₁ ∧ σ₁.txn.commit xid = .ok txn ∧
      σ' = { σ₁ with txn := txn } := by
  obtain ⟨lsn, σ₁, happend, hrest⟩ := EStateM.bind_eq_ok_iff.mp run
  obtain ⟨txn, hfinish, rfl⟩ := finish_eq_ok (·.commit xid) hrest
  exact ⟨lsn, σ₁, txn, happend, hfinish, rfl⟩

theorem rollback_eq_ok (run : rollback xid σ = .ok () σ') :
    ∃ σ₁ lsn σ₂ txn, LogManager.rollback xid σ = .ok () σ₁ ∧
      LogManager.appendRollbackLog xid σ₁ = .ok lsn σ₂ ∧ σ₂.txn.rollback xid = .ok txn ∧
      σ' = { σ₂ with txn := txn } := by
  obtain ⟨_, σ₁, hrollback, hrest⟩ := EStateM.bind_eq_ok_iff.mp run
  obtain ⟨lsn, σ₂, happend, hrest⟩ := EStateM.bind_eq_ok_iff.mp hrest
  obtain ⟨txn, hfinish, rfl⟩ := finish_eq_ok (·.rollback xid) hrest
  exact ⟨σ₁, lsn, σ₂, txn, hrollback, happend, hfinish, rfl⟩

end DatabaseEngine

end HuaDB
