import HuaDB.LogChain
import HuaDB.LogCodec

/-!
Which records a window of `MAX_LOG_SIZE` bytes holds.

`Redo`, `Analyze` and `Rollback` decode a record from the `MAX_LOG_SIZE` bytes at
its LSN. In every state of a log manager whose callers pass values of the source's
types (`WellTyped`), the record of any call decodes from its window, except for an
`EndCheckpointLog` of large tables (`LogHistory.decode_maxLogSize_iff`).
-/

namespace HuaDB

/-! ## Tables whose entries fit -/

/-- The entries of the active transaction table and the dirty page table fit their
types, one for each key. -/
structure TablesFit (att : Att) (dpt : Dpt) : Prop where
  attEntries : ∀ e ∈ att, LogBody.AttEntryFits e
  attKeys : att.keys.Nodup
  dptEntries : ∀ e ∈ dpt, LogBody.DptEntryFits e
  dptKeys : dpt.keys.Nodup

namespace TablesFit

variable {att : Att} {dpt : Dpt}

theorem nil : TablesFit [] [] where
  attEntries := fun _ h => nomatch h
  attKeys := .nil
  dptEntries := fun _ h => nomatch h
  dptKeys := .nil

theorem insertAtt (fits : TablesFit att dpt) {xid lsn : Nat} (hxid : xid < 2 ^ 32)
    (hlsn : lsn < 2 ^ 64) : TablesFit (att.insert xid lsn) dpt :=
  { fits with
    attEntries := Assoc.forall_mem_insert fits.attEntries ⟨hxid, hlsn⟩
    attKeys := Assoc.nodup_keys_insert fits.attKeys }

theorem eraseAtt (fits : TablesFit att dpt) (xid : Nat) : TablesFit (att.erase xid) dpt :=
  { fits with
    attEntries := fun e he => fits.attEntries e (List.mem_of_mem_filter he)
    attKeys := Assoc.nodup_keys_erase fits.attKeys }

theorem insertNewDpt (fits : TablesFit att dpt) {key : TablePageid} {lsn : Nat}
    (hoid : key.tableOid < 2 ^ 32) (hpage : key.pageId < 2 ^ 32) (hlsn : lsn < 2 ^ 64) :
    TablesFit att (dpt.insertNew key lsn) := by
  refine { fits with dptEntries := ?_, dptKeys := Assoc.nodup_keys_insertNew fits.dptKeys }
  unfold Assoc.insertNew
  split
  · exact fits.dptEntries
  · exact Assoc.forall_mem_insert fits.dptEntries ⟨hoid, hpage, hlsn⟩

theorem eraseDpt (fits : TablesFit att dpt) (key : TablePageid) :
    TablesFit att (dpt.erase key) :=
  { fits with
    dptEntries := fun e he => fits.dptEntries e (List.mem_of_mem_filter he)
    dptKeys := Assoc.nodup_keys_erase fits.dptKeys }

theorem dptNewPage (fits : TablesFit att dpt) {oid prevPageId pageId lsn : Nat}
    (hoid : oid < 2 ^ 32) (hprev : prevPageId < 2 ^ 32) (hpage : pageId < 2 ^ 32)
    (hlsn : lsn < 2 ^ 64) :
    TablesFit att (LogManager.dptNewPage dpt oid prevPageId pageId lsn) := by
  unfold LogManager.dptNewPage
  split
  · exact (fits.insertNewDpt hoid hpage hlsn).insertNewDpt hoid hprev hlsn
  · exact fits.insertNewDpt hoid hpage hlsn

/-- A record of the scan of `Analyze`. -/
theorem step {s : LogManager.AnalyzeState} (fits : TablesFit s.att s.dpt) {r : LogRecord}
    (hr : r.Fits) (hlsn : r.lsn < 2 ^ 64) : TablesFit (s.step r).att (s.step r).dpt := by
  have hatt : TablesFit (s.step r).att s.dpt := by
    unfold LogManager.AnalyzeState.step
    dsimp only
    split
    · exact fits.eraseAtt r.xid
    · exact fits.insertAtt hr.xid hlsn
  have hbody := hr.body
  unfold LogManager.AnalyzeState.step LogRecord.page?
  cases hr' : r.body with
  | insert oid pageId slotId pageOffset recordSize record =>
      rw [hr'] at hbody
      exact hatt.insertNewDpt hbody.1 hbody.2.1 hlsn
  | delete oid pageId slotId =>
      rw [hr'] at hbody
      exact hatt.insertNewDpt hbody.1 hbody.2.1 hlsn
  | newPage oid prevPageId pageId =>
      rw [hr'] at hbody
      exact hatt.insertNewDpt hbody.1 hbody.2.2 hlsn
  | _ => exact hatt

end TablesFit

/-! ## Well-typed log managers -/

/-- The arguments of a call have the types of the source; an insert passes the bytes
of its record, of which `Table` accepts `MAX_RECORD_SIZE`. -/
def LogOp.Typed : LogOp → Prop
  | .begin xid | .commit xid | .rollback xid => xid < 2 ^ 32
  | .insert xid oid pageId slotId offset size record =>
      xid < 2 ^ 32 ∧ (LogBody.insert oid pageId slotId offset size record).Fits ∧
        size ≤ maxRecordSize
  | .delete xid oid pageId slotId => xid < 2 ^ 32 ∧ (LogBody.delete oid pageId slotId).Fits
  | .newPage xid oid prevPageId pageId =>
      xid < 2 ^ 32 ∧ (LogBody.newPage oid prevPageId pageId).Fits
  | .flush _ | .flushPage _ _ | .checkpoint | .tornCheckpoint | .reopen => True

structure WellTyped (σ : Engine) : Prop where
  split : ∃ start done mid, LogSplit start done mid σ
  range : σ.log.nextLsn ≤ nullLsn
  fits : ∀ r ∈ σ.appended, r.Fits
  tables : TablesFit σ.log.att σ.log.dpt

namespace WellTyped

variable {σ : Engine}

theorem nullXid_lt : nullXid < 2 ^ 32 := by decide

theorem nullLsn_lt : nullLsn < 2 ^ 64 := by decide

theorem nextRecord_fits {xid prevLsn : Nat} {body : LogBody} (hxid : xid < 2 ^ 32)
    (hprev : prevLsn < 2 ^ 64) (hbody : body.Fits) : (σ.nextRecord xid prevLsn body).Fits :=
  ⟨hxid, hprev, hbody⟩

theorem of_opened (opened : LogOpened σ) : WellTyped σ := by
  have hbuffer : σ.log.logBuffer = [] := by rw [opened.log]; rfl
  have happ : σ.appended = [] := by rw [Engine.appended, opened.disk, hbuffer]; rfl
  refine { split := ⟨σ.log.nextLsn, [], σ.log.nextLsn, ?_⟩, range := opened.range, fits := ?_,
           tables := ?_ }
  · exact .of_new rfl (fun _ => opened.file) (fun h => absurd rfl h) opened.log
  · rw [happ]
    exact fun _ h => absurd h List.not_mem_nil
  · rw [opened.log]
    exact .nil

/-- The last LSN of an active transaction fits. -/
theorem lastLsn_lt (ok : WellTyped σ) {xid lastLsn : Nat}
    (hfind : σ.log.att.find? xid = some lastLsn) : lastLsn < 2 ^ 64 :=
  (ok.tables.attEntries _ (Assoc.mem_of_find? hfind)).2

theorem nextLsn_lt (ok : WellTyped σ) : σ.log.nextLsn < 2 ^ 64 :=
  Nat.lt_of_le_of_lt ok.range (by decide)

theorem append (ok : WellTyped σ) {xid prevLsn : Nat} {body : LogBody} {att : Att} {dpt : Dpt}
    (range : (σ.nextRecord xid prevLsn body).endLsn ≤ nullLsn)
    (fits : (σ.nextRecord xid prevLsn body).Fits) (tables : TablesFit att dpt) :
    WellTyped (σ.appendedWith xid prevLsn body att dpt) := by
  obtain ⟨start, done, mid, split⟩ := ok.split
  have happ : (σ.appendedWith xid prevLsn body att dpt).appended =
      σ.appended ++ [σ.nextRecord xid prevLsn body] := (List.append_assoc _ _ _).symm
  refine { split := ⟨start, done, mid, ?_⟩, range := range, fits := fun r hr => ?_,
           tables := tables }
  · exact { split with bufferTiles := split.bufferTiles.concat rfl }
  · rw [happ] at hr
    rcases List.mem_append.mp hr with hr | hr
    · exact ok.fits r hr
    · cases List.mem_singleton.mp hr
      exact fits

theorem flushLog (ok : WellTyped σ) (lsn : Nat) : WellTyped (σ.flushLog lsn) := by
  obtain ⟨start, done, mid, split⟩ := ok.split
  obtain ⟨mid', flushed⟩ := split.flushLog lsn
  refine { split := ⟨start, _, mid', flushed⟩, range := ?_, fits := fun r hr => ?_,
           tables := ?_ }
  · rw [Engine.flushLog_nextLsn]
    exact ok.range
  · rw [Engine.appended, Engine.flushLog_disk_log, Engine.flushLog_logBuffer] at hr
    refine ok.fits r ?_
    rw [List.append_assoc] at hr
    rcases List.mem_append.mp hr with hr | hr
    · exact List.mem_append_left _ hr
    · rw [← (split.due lsn).1] at hr
      exact List.mem_append_right _ hr
  · rw [Engine.flushLog_att, Engine.flushLog_dpt]
    exact ok.tables

/-- A flushed page leaves the dirty page table. -/
theorem logFlushPage (ok : WellTyped σ) (key : TablePageid) (pageLsn : Nat) :
    WellTyped (σ.logFlushPage key pageLsn) := by
  have flushed := ok.flushLog pageLsn
  obtain ⟨start, done, mid, split⟩ := flushed.split
  exact { flushed with
    split := ⟨start, done, mid, split.congr rfl rfl rfl rfl⟩
    tables := flushed.tables.eraseDpt key }

/-- The master record plays no part. -/
theorem setMaster (ok : WellTyped σ) (masterRecord : Option Nat) :
    WellTyped { σ with disk := { σ.disk with masterRecord := masterRecord } } := by
  obtain ⟨start, done, mid, split⟩ := ok.split
  exact { ok with split := ⟨start, done, mid, split.congr rfl rfl rfl rfl⟩ }

theorem reopen (ok : WellTyped σ) : WellTyped { σ with log := .new σ.log.nextLsn } := by
  obtain ⟨start, done, mid, split⟩ := ok.split
  refine { split := ⟨σ.log.nextLsn, [], σ.log.nextLsn, ?_⟩, range := ok.range,
           fits := fun r hr => ?_, tables := .nil }
  · refine .of_new rfl (fun _ => ?_) (fun h => absurd rfl h) rfl
    exact Nat.le_trans split.logEnd_le split.bufferTiles.le
  · rcases List.mem_append.mp hr with hr | hr
    · exact ok.fits r (List.mem_append_left _ hr)
    · cases hr

/-- `Analyze` rebuilds the tables from records of the log. -/
theorem recovered (ok : WellTyped σ) {τ σ' : Engine} (hdisk : τ.disk = σ.disk)
    (hbuffer : τ.log.logBuffer = []) (run : LogManager.analyze τ = .ok () σ') :
    WellTyped σ' := by
  obtain ⟨start, done, mid, split⟩ := ok.split
  obtain ⟨e, he, lsn, att, dpt, s, -, -, -, hbody, hloop, rfl⟩ := LogManager.analyze_run run
  have hend : τ.disk.logEnd ≤ nullLsn := by
    rw [hdisk]
    exact Nat.le_trans split.logEnd_le (Nat.le_trans split.bufferTiles.le ok.range)
  have hfits : ∀ r ∈ τ.disk.log, r.Fits := by
    rw [hdisk]
    exact fun r hr => ok.fits r (List.mem_append_left _ hr)
  have hsaved : TablesFit att dpt := by
    have hfits := (hfits e he).body
    rw [hbody] at hfits
    obtain ⟨-, -, hatt, hdpt, hattKeys, hdptKeys⟩ := hfits
    exact ⟨hatt, hattKeys, hdpt, hdptKeys⟩
  have hscan : TablesFit s.att s.dpt := by
    refine (LogManager.analyzeLoop_induct (P := fun s => TablesFit s.att s.dpt)
      (fun r hr lsn hlsn s hs => ?_) hsaved hloop).2
    have hr' : LogRecord.Fits { r with lsn := lsn } :=
      ⟨(hfits r hr).xid, (hfits r hr).prevLsn, (hfits r hr).body⟩
    have hlt : lsn < τ.disk.logEnd := hlsn
    exact hs.step hr' (Nat.lt_of_lt_of_le hlt (Nat.le_trans hend (by decide)))
  refine { split := ⟨τ.disk.logEnd, [], τ.disk.logEnd, ?_⟩, range := hend,
           fits := fun r hr => ?_, tables := hscan }
  · have opened : LogSplit τ.disk.logEnd [] τ.disk.logEnd
        { τ with log := .new τ.disk.logEnd } :=
      .of_new rfl (fun _ => Nat.le_refl _) (fun h => absurd rfl h) rfl
    exact opened.congr rfl hbuffer rfl rfl
  · rcases List.mem_append.mp hr with hr | hr
    · exact hfits r hr
    · have hnil : r ∈ τ.log.logBuffer := hr
      rw [hbuffer] at hnil
      cases hnil

/-- The records of a checkpoint fit: the second would not lie below `2 ^ 64`
otherwise. -/
theorem endCheckpoint_fits (ok : WellTyped σ)
    (range : (LogOp.endCheckpointRecord σ).endLsn ≤ nullLsn) :
    (LogOp.endCheckpointRecord σ).Fits := by
  refine ⟨nullXid_lt, nullLsn_lt, ?_, ?_, ok.tables.attEntries, ok.tables.dptEntries,
    ok.tables.attKeys, ok.tables.dptKeys⟩
  all_goals
    simp only [LogRecord.endLsn, LogRecord.getSize, LogOp.endCheckpointRecord,
      LogBody.extraSize, nullLsn] at range
    omega

/-- The two records of a checkpoint. -/
theorem checkpointed (ok : WellTyped σ) (range : (LogOp.checkpointed σ).log.nextLsn ≤ nullLsn) :
    WellTyped (LogOp.checkpointed σ) := by
  rw [LogOp.checkpointed, Engine.flushLog_nextLsn] at range
  have begun : WellTyped (σ.appendedWith nullXid nullLsn .beginCheckpoint σ.log.att σ.log.dpt) :=
    ok.append (Nat.le_trans (Nat.le_add_right _ _) range)
      (nextRecord_fits nullXid_lt nullLsn_lt trivial) ok.tables
  have both : WellTyped (LogManager.checkpointLogged σ) :=
    begun.append range (ok.endCheckpoint_fits range) ok.tables
  exact both.flushLog _

theorem ofActive (ok : WellTyped σ) {xid : Nat} {next : Nat → Engine}
    (range : (LogOp.ofActive σ xid next).1.log.nextLsn ≤ nullLsn)
    (h : ∀ lastLsn, lastLsn < 2 ^ 64 → (next lastLsn).log.nextLsn ≤ nullLsn →
      WellTyped (next lastLsn)) : WellTyped (LogOp.ofActive σ xid next).1 := by
  unfold LogOp.ofActive at range ⊢
  cases hfind : σ.log.att.find? xid with
  | none => exact ok
  | some lastLsn =>
      rw [hfind] at range
      exact h lastLsn (ok.lastLsn_lt hfind) range

theorem ended (ok : WellTyped σ) {xid lastLsn : Nat} {body : LogBody}
    (range : (LogOp.ended σ xid lastLsn body).log.nextLsn ≤ nullLsn)
    (fits : (σ.nextRecord xid lastLsn body).Fits) : WellTyped (LogOp.ended σ xid lastLsn body) := by
  rw [LogOp.ended, Engine.flushLog_nextLsn] at range
  exact (ok.append range fits (ok.tables.eraseAtt xid)).flushLog _

/-- Every call keeps the types. -/
theorem call (ok : WellTyped σ) {op : LogOp} (typed : op.Typed)
    (range : (op.result σ).1.log.nextLsn ≤ nullLsn) : WellTyped (op.result σ).1 := by
  have hnext := ok.nextLsn_lt
  cases op with
  | begin xid =>
      rw [LogOp.result_begin] at range ⊢
      cases hfind : σ.log.att.find? xid with
      | none =>
          rw [hfind] at range
          exact ok.append range (nextRecord_fits typed nullLsn_lt trivial)
            (ok.tables.insertAtt typed hnext)
      | some lastLsn => exact ok
  | insert xid oid pageId slotId offset size record =>
      obtain ⟨hxid, hbody, -⟩ := typed
      rw [LogOp.result_insert] at range ⊢
      exact ok.ofActive range fun lastLsn hlast range =>
        ok.append range (nextRecord_fits hxid hlast hbody)
          ((ok.tables.insertAtt hxid hnext).insertNewDpt hbody.1 hbody.2.1 hnext)
  | delete xid oid pageId slotId =>
      obtain ⟨hxid, hbody⟩ := typed
      rw [LogOp.result_delete] at range ⊢
      exact ok.ofActive range fun lastLsn hlast range =>
        ok.append range (nextRecord_fits hxid hlast hbody)
          ((ok.tables.insertAtt hxid hnext).insertNewDpt hbody.1 hbody.2.1 hnext)
  | newPage xid oid prevPageId pageId =>
      obtain ⟨hxid, hbody⟩ := typed
      obtain ⟨hoid, hprev, hpage⟩ := hbody
      by_cases hddl : xid = ddlXid
      · subst hddl
        rw [LogOp.result_newPage_ddlXid] at range ⊢
        exact ok.append range
          (nextRecord_fits hxid (Nat.lt_trans nullXid_lt (by decide)) ⟨hoid, hprev, hpage⟩)
          (ok.tables.dptNewPage hoid hprev hpage hnext)
      · rw [LogOp.result_newPage σ hddl] at range ⊢
        exact ok.ofActive range fun lastLsn hlast range =>
          ok.append range (nextRecord_fits hxid (by omega) ⟨hoid, hprev, hpage⟩)
            ((ok.tables.insertAtt hxid hnext).dptNewPage hoid hprev hpage hnext)
  | commit xid =>
      rw [LogOp.result_commit] at range ⊢
      exact ok.ofActive range fun lastLsn hlast range => 
        ok.ended range (nextRecord_fits typed hlast trivial)
  | rollback xid =>
      rw [LogOp.result_rollback] at range ⊢
      exact ok.ofActive range fun lastLsn hlast range => 
        ok.ended range (nextRecord_fits typed hlast trivial)
  | flush lsn => exact ok.flushLog lsn
  | flushPage key pageLsn => exact ok.logFlushPage key pageLsn
  | checkpoint =>
      rw [LogOp.result_checkpoint] at range ⊢
      exact (ok.checkpointed range).setMaster _
  | tornCheckpoint =>
      rw [LogOp.result_tornCheckpoint] at range ⊢
      exact ok.checkpointed range
  | reopen => exact ok.reopen

end WellTyped

/-! ## The window of a record -/

/-- The fields of a record other than `EndCheckpointLog`, within the size that
`MAX_LOG_SIZE` allows for. -/
structure LogBody.Small (body : LogBody) : Prop where
  fits : body.Fits
  type : body.getType ≠ .endCheckpoint
  size : LogRecord.headerSize + body.extraSize ≤ maxLogSize

namespace LogBody.Small

theorem begin : Small .begin := ⟨trivial, nofun, by decide⟩

theorem commit : Small .commit := ⟨trivial, nofun, by decide⟩

theorem rollback : Small .rollback := ⟨trivial, nofun, by decide⟩

theorem beginCheckpoint : Small .beginCheckpoint := ⟨trivial, nofun, by decide⟩

theorem insert {oid pageId slotId offset size : Nat} {record : Record}
    (fits : (LogBody.insert oid pageId slotId offset size record).Fits)
    (hsize : size ≤ maxRecordSize) : Small (.insert oid pageId slotId offset size record) := by
  refine ⟨fits, nofun, ?_⟩
  change 13 + (14 + size) ≤ 269
  have hmax : maxRecordSize = 230 := rfl
  omega

theorem delete {oid pageId slotId : Nat} (fits : (LogBody.delete oid pageId slotId).Fits) :
    Small (.delete oid pageId slotId) := by
  refine ⟨fits, nofun, ?_⟩
  change 23 ≤ 269
  omega

theorem newPage {oid prevPageId pageId : Nat}
    (fits : (LogBody.newPage oid prevPageId pageId).Fits) :
    Small (.newPage oid prevPageId pageId) := by
  refine ⟨fits, nofun, ?_⟩
  change 25 ≤ 269
  omega

end LogBody.Small

/-- A record whose fields fit, other than an `EndCheckpointLog`. -/
def SmallRecord (r : LogRecord) : Prop := r.xid < 2 ^ 32 ∧ r.prevLsn < 2 ^ 64 ∧ r.body.Small

namespace WellTyped

variable {σ : Engine}

theorem smallRecord_of_mem_activeRecords (ok : WellTyped σ) {xid : Nat} {body : LogBody}
    (hxid : xid < 2 ^ 32) (small : body.Small) {r : LogRecord}
    (hr : r ∈ LogOp.activeRecords σ xid body) : SmallRecord r := by
  unfold LogOp.activeRecords at hr
  cases hfind : σ.log.att.find? xid with
  | none =>
      rw [hfind] at hr
      cases hr
  | some lastLsn =>
      rw [hfind] at hr
      cases List.mem_singleton.mp hr
      exact ⟨hxid, ok.lastLsn_lt hfind, small⟩

theorem checkpointRecords_cases (ok : WellTyped σ)
    (range : (LogOp.checkpointed σ).log.nextLsn ≤ nullLsn) {r : LogRecord}
    (hr : r ∈ LogOp.checkpoint.records σ) :
    SmallRecord r ∨ r = LogOp.endCheckpointRecord σ ∧ r.Fits := by
  rcases List.mem_cons.mp hr with rfl | hr
  · exact .inl ⟨nullXid_lt, nullLsn_lt, .beginCheckpoint⟩
  · cases List.mem_singleton.mp hr
    rw [LogOp.checkpointed, Engine.flushLog_nextLsn] at range
    exact .inr ⟨rfl, ok.endCheckpoint_fits range⟩

/-- What a call appends: a small record, or the `EndCheckpointLog` of the tables. -/
theorem records_cases (ok : WellTyped σ) {op : LogOp} (typed : op.Typed)
    (range : (op.result σ).1.log.nextLsn ≤ nullLsn) {r : LogRecord} (hr : r ∈ op.records σ) :
    SmallRecord r ∨ r = LogOp.endCheckpointRecord σ ∧ r.Fits := by
  cases op with
  | begin xid =>
      rw [LogOp.records] at hr
      cases hfind : σ.log.att.find? xid with
      | none =>
          rw [hfind] at hr
          cases List.mem_singleton.mp hr
          exact .inl ⟨typed, nullLsn_lt, .begin⟩
      | some lastLsn =>
          rw [hfind] at hr
          cases hr
  | insert xid oid pageId slotId offset size record =>
      obtain ⟨hxid, hbody, hsize⟩ := typed
      exact .inl (ok.smallRecord_of_mem_activeRecords hxid (.insert hbody hsize) hr)
  | delete xid oid pageId slotId =>
      obtain ⟨hxid, hbody⟩ := typed
      exact .inl (ok.smallRecord_of_mem_activeRecords hxid (.delete hbody) hr)
  | newPage xid oid prevPageId pageId =>
      obtain ⟨hxid, hbody⟩ := typed
      rw [LogOp.records] at hr
      split at hr
      · cases List.mem_singleton.mp hr
        exact .inl ⟨hxid, Nat.lt_trans nullXid_lt (by decide), .newPage hbody⟩
      · cases hfind : σ.log.att.find? xid with
        | none =>
            rw [hfind] at hr
            cases hr
        | some lastLsn =>
            rw [hfind] at hr
            cases List.mem_singleton.mp hr
            have hlast : lastLsn % 2 ^ 32 < 2 ^ 64 := by omega
            exact .inl ⟨hxid, hlast, .newPage hbody⟩
  | commit xid => exact .inl (ok.smallRecord_of_mem_activeRecords typed .commit hr)
  | rollback xid => exact .inl (ok.smallRecord_of_mem_activeRecords typed .rollback hr)
  | checkpoint =>
      rw [LogOp.result_checkpoint] at range
      exact ok.checkpointRecords_cases range hr
  | tornCheckpoint =>
      rw [LogOp.result_tornCheckpoint] at range
      exact ok.checkpointRecords_cases range hr
  | flush lsn => cases hr
  | flushPage key pageLsn => cases hr
  | reopen => cases hr

end WellTyped

theorem SmallRecord.fits {r : LogRecord} (small : SmallRecord r) : r.Fits :=
  ⟨small.1, small.2.1, small.2.2.fits⟩

theorem endCheckpointRecord_getSize (σ : Engine) :
    (LogOp.endCheckpointRecord σ).getSize =
      29 + 12 * σ.log.att.length + 16 * σ.log.dpt.length := by
  simp only [LogRecord.getSize, LogRecord.headerSize, LogOp.endCheckpointRecord, LogBody.extraSize]
  omega

namespace LogHistory

variable {σ : Engine}

theorem wellTyped (history : LogHistory (fun _ op => op.Typed) (fun _ => True) σ) :
    WellTyped σ := by
  induction history with
  | opened opened => exact .of_opened opened
  | call _ op typed range ih => exact ih.call typed range
  | recovered _ _ hdisk hbuffer run ih => exact ih.recovered hdisk hbuffer run

/-- In every reachable state, a record that a call appends decodes from the first
`MAX_LOG_SIZE` bytes at its LSN, whatever follows it, if and only if it is no
`EndCheckpointLog` or the tables it saves are small. -/
theorem decode_maxLogSize_iff
    (history : LogHistory (fun _ op => op.Typed) (fun _ => True) σ) {op : LogOp}
    (typed : op.Typed) (range : (op.result σ).1.log.nextLsn ≤ nullLsn) {r : LogRecord}
    (hr : r ∈ op.records σ) (rest : List UInt8) :
    (LogRecord.decode r.lsn ((r.serializeTo ++ rest).take maxLogSize)).map Prod.fst = some r ↔
      (r.getType = .endCheckpoint → 12 * σ.log.att.length + 16 * σ.log.dpt.length ≤ 240) := by
  rcases history.wellTyped.records_cases typed range hr with small | ⟨rfl, fits⟩
  · rw [LogRecord.decode_window_eq_some_iff small.fits]
    exact iff_of_true small.2.2.size fun htype => absurd htype small.2.2.type
  · have hmax : maxLogSize = 269 := rfl
    have htype : (LogOp.endCheckpointRecord σ).getType = .endCheckpoint := rfl
    rw [LogRecord.decode_window_eq_some_iff fits, endCheckpointRecord_getSize, hmax]
    constructor
    · intro hle _
      omega
    · intro hle
      have := hle htype
      omega

/-- A checkpoint while one transaction is active. -/
theorem decode_maxLogSize_iff_oneActive :
    let σ := ((LogOp.begin 1).result (openedAt 0)).1
    (LogRecord.decode 26
        (((LogOp.endCheckpointRecord σ).serializeTo ++ [0]).take maxLogSize)).map Prod.fst =
      some ⟨26, nullXid, nullLsn, .endCheckpoint [(1, 0)] []⟩ := by
  intro σ
  have hxid : 1 < 2 ^ 32 := by decide
  have history : LogHistory (fun _ op => op.Typed) (fun _ => True) σ :=
    .call (.opened ⟨rfl, by decide, rfl, by decide⟩) (.begin 1) hxid (by decide)
  have typed : LogOp.Typed .checkpoint := trivial
  exact (history.decode_maxLogSize_iff typed (by decide)
    (r := LogOp.endCheckpointRecord σ) (by decide) [0]).mpr (by decide)

/-- A log manager with the transactions `1` to `n` active. -/
def begun : Nat → Engine
  | 0 => openedAt 0
  | n + 1 => ((LogOp.begin (n + 1)).result (begun n)).1

theorem begun_nextLsn_le (n : Nat) : (begun n).log.nextLsn ≤ 13 * n := by
  induction n with
  | zero => exact Nat.le_refl 0
  | succ n ih =>
      rw [begun, LogOp.result_begin]
      cases (begun n).log.att.find? (n + 1) with
      | none =>
          change (begun n).log.nextLsn + 13 ≤ 13 * (n + 1)
          omega
      | some lastLsn =>
          change (begun n).log.nextLsn ≤ 13 * (n + 1)
          omega

theorem of_begun {n : Nat} (hn : n < 2 ^ 32) :
    LogHistory (fun _ op => op.Typed) (fun _ => True) (begun n) := by
  induction n with
  | zero => exact .opened ⟨rfl, by decide, rfl, by decide⟩
  | succ n ih =>
      refine .call (ih (by omega)) (.begin (n + 1)) hn ?_
      have hnull : nullLsn = 2 ^ 64 - 1 := rfl
      have hle := begun_nextLsn_le (n + 1)
      rw [begun] at hle
      omega

/-- Twenty-one active transactions: the table alone takes 252 bytes. -/
theorem not_decode_maxLogSize_manyActive :
    ¬ ∀ σ, LogHistory (fun _ op => op.Typed) (fun _ => True) σ → ∀ op : LogOp, op.Typed →
      (op.result σ).1.log.nextLsn ≤ nullLsn → ∀ r ∈ op.records σ, ∀ rest : List UInt8,
        (LogRecord.decode r.lsn ((r.serializeTo ++ rest).take maxLogSize)).map Prod.fst =
          some r := by
  intro h
  have hdecode := h (begun 21) (of_begun (by decide)) .checkpoint trivial (by decide +kernel)
    (LogOp.endCheckpointRecord (begun 21)) (by decide +kernel) []
  revert hdecode
  decide +kernel

end LogHistory

end HuaDB
