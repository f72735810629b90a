import HuaDB.Analyze

/-!
The split of the log between disk and buffer.

A session is any sequence of `Append*`, `Checkpoint`, `Flush` and `FlushPage`
calls, also ones that throw, with the list of the records they append
(`LogSession`). At all times that list is cut by `flushed_lsn_` into what is on
disk and what is in the buffer (`LogSession.flushed_eq_filter`).
-/

namespace HuaDB

/-! ## What each call does -/

namespace LogOp

variable (σ : Engine)

/-- The state and the answer of a call that appends a record of an active
transaction, which `next` makes from the transaction's last LSN. -/
def ofActive (xid : Nat) (next : Nat → Engine) : Engine × Bool :=
  match σ.log.att.find? xid with
  | none => (σ, false)
  | some lastLsn => (next lastLsn, true)

theorem result_of_ok {σ σ' : Engine} {op : LogOp} {x : Db Nat} {lsn : Nat}
    (hexec : op.exec = do let _ ← x) (h : x σ = .ok lsn σ') : op.result σ = (σ', true) := by
  rw [result, hexec, EStateM.bind_of_ok h]
  rfl

theorem result_of_error {σ σ' : Engine} {op : LogOp} {x : Db Nat} {e : DbError}
    (hexec : op.exec = do let _ ← x) (h : x σ = .error e σ') : op.result σ = (σ', false) := by
  rw [result, hexec, EStateM.bind_of_error h]

theorem result_begin (xid : Nat) :
    (LogOp.begin xid).result σ =
      match σ.log.att.find? xid with
      | none => (σ.appendedWith xid nullLsn .begin (σ.log.att.insert xid σ.log.nextLsn) σ.log.dpt,
          true)
      | some _ => (σ, false) := by
  cases hatt : σ.log.att.find? xid with
  | none =>
      exact result_of_ok rfl (LogManager.appendBeginLog_eq_ok_iff.mpr ⟨hatt, rfl, rfl⟩)
  | some lastLsn =>
      have hthrow : LogManager.appendBeginLog xid σ =
          .error (.dbException s!"{xid} already exists in att") σ := by
        simp only [LogManager.appendBeginLog]
        rw [EStateM.bind_of_ok (EStateM.get_eq_ok_iff.mpr ⟨rfl, rfl⟩), hatt]
        rfl
      exact result_of_error rfl hthrow

theorem result_insert (xid oid pageId slotId offset size : Nat) (record : Record) :
    (LogOp.insert xid oid pageId slotId offset size record).result σ =
      ofActive σ xid fun lastLsn =>
        σ.appendedWith xid lastLsn (.insert oid pageId slotId offset size record)
          (σ.log.att.insert xid σ.log.nextLsn)
          (σ.log.dpt.insertNew ⟨oid, pageId⟩ σ.log.nextLsn) := by
  unfold ofActive
  cases hatt : σ.log.att.find? xid with
  | none =>
      have hthrow : LogManager.appendInsertLog xid oid pageId slotId offset size record σ =
          .error (LogManager.notInAtt xid "AppendInsertLog") σ := by
        simp only [LogManager.appendInsertLog]
        rw [EStateM.bind_of_ok (EStateM.get_eq_ok_iff.mpr ⟨rfl, rfl⟩), hatt]
        rfl
      exact result_of_error rfl hthrow
  | some lastLsn =>
      exact result_of_ok rfl (LogManager.appendInsertLog_eq_ok_iff.mpr ⟨lastLsn, hatt, rfl, rfl⟩)

theorem result_delete (xid oid pageId slotId : Nat) :
    (LogOp.delete xid oid pageId slotId).result σ =
      ofActive σ xid fun lastLsn =>
        σ.appendedWith xid lastLsn (.delete oid pageId slotId)
          (σ.log.att.insert xid σ.log.nextLsn)
          (σ.log.dpt.insertNew ⟨oid, pageId⟩ σ.log.nextLsn) := by
  unfold ofActive
  cases hatt : σ.log.att.find? xid with
  | none =>
      have hthrow : LogManager.appendDeleteLog xid oid pageId slotId σ =
          .error (LogManager.notInAtt xid "AppendDeleteLog") σ := by
        simp only [LogManager.appendDeleteLog]
        rw [EStateM.bind_of_ok (EStateM.get_eq_ok_iff.mpr ⟨rfl, rfl⟩), hatt]
        rfl
      exact result_of_error rfl hthrow
  | some lastLsn =>
      exact result_of_ok rfl (LogManager.appendDeleteLog_eq_ok_iff.mpr ⟨lastLsn, hatt, rfl, rfl⟩)

/-- A page creation of a transaction. -/
theorem result_newPage {xid : Nat} (hxid : xid ≠ ddlXid) (oid prevPageId pageId : Nat) :
    (LogOp.newPage xid oid prevPageId pageId).result σ =
      ofActive σ xid fun lastLsn =>
        σ.appendedWith xid (lastLsn % 2 ^ 32) (.newPage oid prevPageId pageId)
          (σ.log.att.insert xid σ.log.nextLsn)
          (LogManager.dptNewPage σ.log.dpt oid prevPageId pageId σ.log.nextLsn) := by
  unfold ofActive
  cases hatt : σ.log.att.find? xid with
  | none =>
      have hthrow : LogManager.appendNewPageLog xid oid prevPageId pageId σ =
          .error (LogManager.notInAtt xid "AppendNewPageLog") σ := by
        simp only [LogManager.appendNewPageLog, if_neg hxid]
        rw [EStateM.bind_of_ok (EStateM.get_eq_ok_iff.mpr ⟨rfl, rfl⟩), hatt]
        rfl
      exact result_of_error rfl hthrow
  | some lastLsn =>
      exact result_of_ok rfl
        ((LogManager.appendNewPageLog_eq_ok_iff hxid).mpr ⟨lastLsn, hatt, rfl, rfl⟩)

/-- A page creation without a transaction. -/
theorem result_newPage_ddlXid (oid prevPageId pageId : Nat) :
    (LogOp.newPage ddlXid oid prevPageId pageId).result σ =
      (σ.appendedWith ddlXid nullXid (.newPage oid prevPageId pageId) σ.log.att
        (LogManager.dptNewPage σ.log.dpt oid prevPageId pageId σ.log.nextLsn), true) := by
  have happend : LogManager.appendNewPageLog ddlXid oid prevPageId pageId σ =
      .ok σ.log.nextLsn (σ.appendedWith ddlXid nullXid (.newPage oid prevPageId pageId) σ.log.att
        (LogManager.dptNewPage σ.log.dpt oid prevPageId pageId σ.log.nextLsn)) := by
    simp only [LogManager.appendNewPageLog, ↓reduceIte]
    unfold LogManager.dptNewPage
    split <;> rfl
  exact result_of_ok rfl happend

/-- The state after the end record of a transaction is flushed. -/
def ended (xid lastLsn : Nat) (body : LogBody) : Engine :=
  (σ.appendedWith xid lastLsn body (σ.log.att.erase xid) σ.log.dpt).flushLog σ.log.nextLsn

theorem eq_ended {σ σ' : Engine} {xid lsn : Nat} {body : LogBody} {caller : String}
    (run : LogManager.appendEndLog xid body caller σ = .ok lsn σ') :
    ∃ lastLsn, σ.log.att.find? xid = some lastLsn ∧ σ' = ended σ xid lastLsn body := by
  obtain ⟨lastLsn, hfind, -, rfl⟩ := LogManager.appendEndLog_eq_ok_iff.mp run
  refine ⟨lastLsn, hfind, ?_⟩
  dsimp only
  rw [Engine.flushLog_with_att, Engine.flushLog_att]
  rfl

theorem result_end {op : LogOp} {xid : Nat} {body : LogBody} {caller : String}
    (hexec : op.exec = do let _ ← LogManager.appendEndLog xid body caller) :
    op.result σ = ofActive σ xid fun lastLsn => ended σ xid lastLsn body := by
  unfold ofActive
  cases hatt : σ.log.att.find? xid with
  | none =>
      have hthrow : LogManager.appendEndLog xid body caller σ =
          .error (LogManager.notInAtt xid caller) σ := by
        simp only [LogManager.appendEndLog]
        rw [EStateM.bind_of_ok (EStateM.get_eq_ok_iff.mpr ⟨rfl, rfl⟩), hatt]
        rfl
      exact result_of_error hexec hthrow
  | some lastLsn =>
      rw [result_of_ok hexec
        (LogManager.appendEndLog_eq_ok_iff.mpr ⟨lastLsn, hatt, rfl, rfl⟩)]
      dsimp only
      rw [Engine.flushLog_with_att, Engine.flushLog_att]
      rfl

theorem result_commit (xid : Nat) :
    (LogOp.commit xid).result σ = ofActive σ xid fun lastLsn => ended σ xid lastLsn .commit :=
  result_end σ rfl

theorem result_rollback (xid : Nat) :
    (LogOp.rollback xid).result σ = ofActive σ xid fun lastLsn => ended σ xid lastLsn .rollback :=
  result_end σ rfl

/-- The state after the records of a checkpoint are flushed. -/
def checkpointed : Engine :=
  (LogManager.checkpointLogged σ).flushLog (σ.log.nextLsn + LogRecord.headerSize)

theorem result_checkpoint :
    LogOp.checkpoint.result σ =
      ({ checkpointed σ with
        disk := { (checkpointed σ).disk with masterRecord := some σ.log.nextLsn } }, true) :=
  result_of_ok rfl (LogManager.checkpoint_eq σ)

theorem result_tornCheckpoint : LogOp.tornCheckpoint.result σ = (checkpointed σ, true) := by
  rw [result, exec, EStateM.bind_of_ok (LogManager.checkpointLog_eq σ)]
  rfl

/-! ## Sessions -/

/-- The records a call of a transaction in `att_` appends. -/
def activeRecords (xid : Nat) (body : LogBody) : List LogRecord :=
  match σ.log.att.find? xid with
  | none => []
  | some lastLsn => [σ.nextRecord xid lastLsn body]

/-- The `EndCheckpointLog` that follows a `BeginCheckpointLog`. -/
def endCheckpointRecord : LogRecord :=
  ⟨σ.log.nextLsn + LogRecord.headerSize, nullXid, nullLsn, .endCheckpoint σ.log.att σ.log.dpt⟩

/-- The records a call appends. -/
def records : LogOp → List LogRecord
  | .begin xid =>
      match σ.log.att.find? xid with
      | none => [σ.nextRecord xid nullLsn .begin]
      | some _ => []
  | .insert xid oid pageId slotId offset size record =>
      activeRecords σ xid (.insert oid pageId slotId offset size record)
  | .delete xid oid pageId slotId => activeRecords σ xid (.delete oid pageId slotId)
  | .newPage xid oid prevPageId pageId =>
      if xid = ddlXid then
        [σ.nextRecord xid nullXid (.newPage oid prevPageId pageId)]
      else
        match σ.log.att.find? xid with
        | none => []
        | some lastLsn =>
            [σ.nextRecord xid (lastLsn % 2 ^ 32) (.newPage oid prevPageId pageId)]
  | .commit xid => activeRecords σ xid .commit
  | .rollback xid => activeRecords σ xid .rollback
  | .checkpoint | .tornCheckpoint =>
      [σ.nextRecord nullXid nullLsn .beginCheckpoint, endCheckpointRecord σ]
  | .flush _ | .flushPage _ _ | .reopen => []

/-- A call of the interface of a running log manager. -/
def IsCall : LogOp → Prop
  | .tornCheckpoint | .reopen => False
  | _ => True

end LogOp

/-- Calls made from a state on, each returning or throwing: the records appended
so far, and the state reached. -/
inductive LogSession (σ₀ : Engine) : List LogRecord → Engine → Prop
  | start : LogSession σ₀ [] σ₀
  | call {l : List LogRecord} {σ : Engine} (session : LogSession σ₀ l σ) (op : LogOp)
      (hcall : op.IsCall) : LogSession σ₀ (l ++ op.records σ) (op.result σ).1

/-- A log manager with nothing in its buffer, as its constructor leaves it: every
LSN below `next_lsn_` counts as flushed, and the file `next_lsn` is not ahead. -/
structure LogStart (σ : Engine) : Prop where
  next : 0 < σ.log.nextLsn
  flushed : σ.log.flushedLsn = σ.log.nextLsn - 1
  buffer : σ.log.logBuffer = []
  file : σ.disk.logEnd ≤ σ.log.nextLsn

/-- Opening a log where it ends is such a start. -/
theorem LogOk.logStart {σ : Engine} (ok : LogOk σ) (hnext : 0 < σ.log.nextLsn) :
    LogStart { σ with log := .new σ.log.nextLsn } where
  next := hnext
  flushed := if_neg (Nat.ne_of_gt hnext)
  buffer := rfl
  file := ok.logEnd_le_nextLsn

/-! ## The invariant of a session -/

/-- The records appended are those flushed, then those in the buffer. -/
def LogSessionOk (σ₀ : Engine) (l : List LogRecord) (σ : Engine) : Prop :=
  ∃ done mid, l = done ++ σ.log.logBuffer ∧ σ.disk.log = σ₀.disk.log ++ done ∧
    LogSplit σ₀.log.nextLsn done mid σ

namespace LogSessionOk

variable {σ₀ σ : Engine} {l : List LogRecord}

theorem of_start (start : LogStart σ₀) : LogSessionOk σ₀ [] σ₀ := by
  refine ⟨[], σ₀.log.nextLsn, by rw [start.buffer]; rfl, (List.append_nil _).symm, ?_⟩
  refine { doneTiles := rfl, bufferTiles := ?_, le_flushed := fun _ hr => (nomatch hr),
           flushed_lt := .inl ?_, end_le := fun _ => start.file, end_eq := fun h => absurd rfl h }
  · rw [start.buffer]
    rfl
  · have := start.next
    have := start.flushed
    omega

/-- The tables and the master record play no part. -/
theorem congr (ok : LogSessionOk σ₀ l σ) {σ' : Engine} (hlog : σ'.disk.log = σ.disk.log)
    (hfile : σ'.disk.nextLsnFile = σ.disk.nextLsnFile)
    (hbuffer : σ'.log.logBuffer = σ.log.logBuffer) (hnext : σ'.log.nextLsn = σ.log.nextLsn)
    (hflushed : σ'.log.flushedLsn = σ.log.flushedLsn) : LogSessionOk σ₀ l σ' := by
  obtain ⟨done, mid, hl, hdisk, split⟩ := ok
  exact ⟨done, mid, hbuffer ▸ hl, hlog ▸ hdisk, split.congr hfile hbuffer hnext hflushed⟩

theorem append (ok : LogSessionOk σ₀ l σ) (xid prevLsn : Nat) (body : LogBody) (att : Att)
    (dpt : Dpt) :
    LogSessionOk σ₀ (l ++ [σ.nextRecord xid prevLsn body])
      (σ.appendedWith xid prevLsn body att dpt) := by
  obtain ⟨done, mid, hl, hdisk, split⟩ := ok
  refine ⟨done, mid, ?_, hdisk, ?_⟩
  · rw [hl, List.append_assoc]
    rfl
  · exact { split with bufferTiles := split.bufferTiles.concat rfl }

theorem flushLog (ok : LogSessionOk σ₀ l σ) (lsn : Nat) : LogSessionOk σ₀ l (σ.flushLog lsn) := by
  obtain ⟨done, mid, hl, hdisk, split⟩ := ok
  obtain ⟨mid', flushed⟩ := split.flushLog lsn
  refine ⟨done ++ σ.log.logBuffer.filter (LogRecord.isDue lsn), mid', ?_, ?_, flushed⟩
  · rw [Engine.flushLog_logBuffer, List.append_assoc, ← (split.due lsn).1]
    exact hl
  · rw [Engine.flushLog_disk_log, hdisk, List.append_assoc]

/-- A call that needs its transaction in `att_` appends its record or throws. -/
theorem ofActive (ok : LogSessionOk σ₀ l σ) {xid : Nat} {next : Nat → Engine}
    {record : Nat → LogRecord}
    (h : ∀ lastLsn, LogSessionOk σ₀ (l ++ [record lastLsn]) (next lastLsn)) :
    LogSessionOk σ₀
      (l ++ match σ.log.att.find? xid with
        | none => []
        | some lastLsn => [record lastLsn])
      (LogOp.ofActive σ xid next).1 := by
  unfold LogOp.ofActive
  cases σ.log.att.find? xid with
  | none =>
      rw [List.append_nil]
      exact ok
  | some lastLsn => exact h lastLsn

theorem ended (ok : LogSessionOk σ₀ l σ) (xid lastLsn : Nat) (body : LogBody) :
    LogSessionOk σ₀ (l ++ [σ.nextRecord xid lastLsn body]) (LogOp.ended σ xid lastLsn body) :=
  (ok.append xid lastLsn body _ _).flushLog _

/-- An end record takes the whole buffer to disk with it. -/
theorem ended_logBuffer (ok : LogSessionOk σ₀ l σ) (xid lastLsn : Nat) (body : LogBody) :
    (LogOp.ended σ xid lastLsn body).log.logBuffer = [] := by
  obtain ⟨done, mid, -, -, split⟩ := ok
  rw [LogOp.ended, Engine.flushLog_logBuffer]
  refine List.filter_eq_nil_iff.mpr fun r hr => ?_
  have hle : r.lsn ≤ σ.log.nextLsn := by
    rcases List.mem_append.mp hr with hold | hnew
    · exact Nat.le_of_lt (split.bufferTiles.pos_lt LogRecord.getSize_pos hold)
    · cases List.mem_singleton.mp hnew
      exact Nat.le_refl _
  simp [LogRecord.isDue, hle]

theorem checkpointed (ok : LogSessionOk σ₀ l σ) :
    LogSessionOk σ₀ (l ++ LogOp.checkpoint.records σ) (LogOp.checkpointed σ) := by
  have begun := ok.append nullXid nullLsn .beginCheckpoint σ.log.att σ.log.dpt
  have both := begun.append nullXid nullLsn (.endCheckpoint σ.log.att σ.log.dpt) σ.log.att
    σ.log.dpt
  rw [List.append_assoc] at both
  exact both.flushLog _

/-- Every call keeps the split. -/
theorem call (ok : LogSessionOk σ₀ l σ) {op : LogOp} (hcall : op.IsCall) :
    LogSessionOk σ₀ (l ++ op.records σ) (op.result σ).1 := by
  cases op with
  | begin xid =>
      rw [LogOp.result_begin, LogOp.records]
      cases σ.log.att.find? xid with
      | none => exact ok.append _ _ _ _ _
      | some lastLsn =>
          rw [List.append_nil]
          exact ok
  | insert xid oid pageId slotId offset size record =>
      rw [LogOp.result_insert]
      exact ok.ofActive fun lastLsn => ok.append _ _ _ _ _
  | delete xid oid pageId slotId =>
      rw [LogOp.result_delete]
      exact ok.ofActive fun lastLsn => ok.append _ _ _ _ _
  | newPage xid oid prevPageId pageId =>
      by_cases hxid : xid = ddlXid
      · subst hxid
        rw [LogOp.result_newPage_ddlXid, LogOp.records, if_pos rfl]
        exact ok.append _ _ _ _ _
      · rw [LogOp.result_newPage σ hxid, LogOp.records, if_neg hxid]
        exact ok.ofActive fun lastLsn => ok.append _ _ _ _ _
  | commit xid =>
      rw [LogOp.result_commit]
      exact ok.ofActive fun lastLsn => ok.ended xid lastLsn .commit
  | rollback xid =>
      rw [LogOp.result_rollback]
      exact ok.ofActive fun lastLsn => ok.ended xid lastLsn .rollback
  | flush lsn =>
      rw [LogOp.records, List.append_nil]
      exact ok.flushLog lsn
  | flushPage key pageLsn =>
      rw [LogOp.records, List.append_nil]
      exact (ok.flushLog pageLsn).congr rfl rfl rfl rfl rfl
  | checkpoint =>
      rw [LogOp.result_checkpoint]
      exact ok.checkpointed.congr rfl rfl rfl rfl rfl
  | tornCheckpoint => exact hcall.elim
  | reopen => exact hcall.elim

theorem tiles (ok : LogSessionOk σ₀ l σ) : LogTiles σ₀.log.nextLsn l σ.log.nextLsn := by
  obtain ⟨done, mid, rfl, -, split⟩ := ok
  exact split.doneTiles.append split.bufferTiles

/-- `flushed_lsn_` cuts the records appended. -/
theorem filter_flushed (ok : LogSessionOk σ₀ l σ) (hnext : 0 < σ₀.log.nextLsn) :
    σ.disk.log = σ₀.disk.log ++ l.filter (fun r => r.lsn ≤ σ.log.flushedLsn) ∧
      σ.log.logBuffer = l.filter (fun r => σ.log.flushedLsn < r.lsn) := by
  obtain ⟨done, mid, rfl, hdisk, split⟩ := ok
  have hlt : ∀ r ∈ σ.log.logBuffer, σ.log.flushedLsn < r.lsn := by
    intro r hr
    have hmid := split.bufferTiles.le_pos hr
    have hstart := split.doneTiles.le
    rcases split.flushed_lt with hflushed | ⟨-, hzero⟩
    · omega
    · omega
  have hdone : done.filter (fun r => r.lsn ≤ σ.log.flushedLsn) = done :=
    List.filter_eq_self.mpr fun r hr => decide_eq_true (split.le_flushed r hr)
  have hdone' : done.filter (fun r => σ.log.flushedLsn < r.lsn) = [] :=
    List.filter_eq_nil_iff.mpr fun r hr => by simpa using split.le_flushed r hr
  have hbuffer : σ.log.logBuffer.filter (fun r => σ.log.flushedLsn < r.lsn) = σ.log.logBuffer :=
    List.filter_eq_self.mpr fun r hr => decide_eq_true (hlt r hr)
  have hbuffer' : σ.log.logBuffer.filter (fun r => r.lsn ≤ σ.log.flushedLsn) = [] :=
    List.filter_eq_nil_iff.mpr fun r hr => by simpa using hlt r hr
  rw [List.filter_append, List.filter_append, hdone, hdone', hbuffer, hbuffer', List.append_nil,
    List.nil_append]
  exact ⟨hdisk, rfl⟩

/-- The file `next_lsn` follows the last record flushed. -/
theorem nextLsnFile_eq (ok : LogSessionOk σ₀ l σ) (hnext : 0 < σ₀.log.nextLsn) {r : LogRecord}
    (hlast : (l.filter fun r => r.lsn ≤ σ.log.flushedLsn).getLast? = some r) :
    σ.disk.nextLsnFile = some r.endLsn := by
  have hfilter := (ok.filter_flushed hnext).1
  obtain ⟨done, mid, -, hdisk, split⟩ := ok
  have hdone : l.filter (fun r => r.lsn ≤ σ.log.flushedLsn) = done :=
    List.append_cancel_left (hfilter.symm.trans hdisk)
  rw [hdone] at hlast
  obtain ⟨before, rfl⟩ := List.getLast?_eq_some_iff.mp hlast
  obtain ⟨_, -, hlsn, hend⟩ := Tiles.append_iff.mp split.doneTiles
  rw [split.end_eq (by simp), ← hend, LogRecord.endLsn, hlsn]

end LogSessionOk

namespace LogSession

variable {σ₀ σ : Engine} {l : List LogRecord}

theorem ok (start : LogStart σ₀) (session : LogSession σ₀ l σ) : LogSessionOk σ₀ l σ := by
  induction session with
  | start => exact .of_start start
  | call _ op hcall ih => exact ih.call hcall

end LogSession

end HuaDB
