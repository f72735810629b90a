import HuaDB.LogAppend
import Mathlib.Data.List.Induction

/-!
What `LogManager::Analyze` finds after one uninterrupted run of the log manager.

A run is any sequence of `Append*`, `Flush`, `FlushPage` and `Checkpoint` calls
(`LogRun`). Its invariant (`LogRunOk`) says that `att_` and `dpt_` are, at all
times, what a scan of every record appended so far would compute, and that the
checkpoint of the master record saved them as they were; the scan of `Analyze`
then completes the saved tables.
-/

namespace HuaDB

/-! ## What the tables should be -/

namespace LogRecord

/-- A `CommitLog` or `RollbackLog`. -/
def ends (r : LogRecord) : Bool := r.getType = .commit ∨ r.getType = .rollback

/-- A record of a checkpoint. -/
def isCheckpoint (r : LogRecord) : Bool :=
  r.getType = .beginCheckpoint ∨ r.getType = .endCheckpoint

/-- An `InsertLog` or `DeleteLog` on a page. -/
def changes (r : LogRecord) (key : TablePageid) : Bool :=
  (r.getType = .insert ∨ r.getType = .delete) ∧ r.page? = some key

end LogRecord

/-- The last LSN of a transaction that has a record in the log but neither a
`CommitLog` nor a `RollbackLog`. Checkpoint records carry `NULL_XID`, which is
no transaction. -/
def activeLsn? (log : List LogRecord) (xid : Nat) : Option Nat :=
  if xid = nullXid ∨ ∃ r ∈ log, r.xid = xid ∧ r.ends then
    none
  else
    (log.reverse.find? fun r => r.xid = xid).map LogRecord.lsn

/-- Which changes of a page its image on disk contains. -/
abbrev Stored := TablePageid → LogRecord → Prop

/-- Every change of a page that its image lacks is covered by the page's entry. -/
def DptCovers (dpt : Dpt) (log : List LogRecord) (stored : Stored) : Prop :=
  ∀ r ∈ log, ∀ key, r.changes key → ¬ stored key r → ∃ recLsn ≤ r.lsn, dpt.find? key = some recLsn

/-- `LogManager::Analyze` returns, with the end of the log, the active
transactions and a dirty page table that covers every missing change. -/
def AnalyzeExact (disk : Disk) (stored : Stored) (τ : Engine) : Prop :=
  ∃ τ', LogManager.analyze τ = .ok () τ' ∧
    LogTiles 0 disk.log τ'.log.nextLsn ∧
    (∀ xid, τ'.log.att.find? xid = activeLsn? disk.log xid) ∧
    DptCovers τ'.log.dpt disk.log stored

/-! ## Runs -/

/-- A call of the log manager. -/
inductive LogOp where
  | begin (xid : Nat)
  | insert (xid oid pageId slotId offset size : Nat) (record : Record)
  | delete (xid oid pageId slotId : Nat)
  | newPage (xid oid prevPageId pageId : Nat)
  | commit (xid : Nat)
  | rollback (xid : Nat)
  | flush (lsn : Nat)
  | flushPage (key : TablePageid) (pageLsn : Nat)
  | checkpoint
  /-- A checkpoint of which only the records reach the disk. -/
  | tornCheckpoint
  /-- A new log manager after a shutdown that left nothing active or dirty. -/
  | reopen
deriving DecidableEq, Repr

namespace LogOp

def exec : LogOp → Db Unit
  | .begin xid => do let _ ← LogManager.appendBeginLog xid
  | .insert xid oid pageId slotId offset size record => do
      let _ ← LogManager.appendInsertLog xid oid pageId slotId offset size record
  | .delete xid oid pageId slotId => do
      let _ ← LogManager.appendDeleteLog xid oid pageId slotId
  | .newPage xid oid prevPageId pageId => do
      let _ ← LogManager.appendNewPageLog xid oid prevPageId pageId
  | .commit xid => do let _ ← LogManager.appendCommitLog xid
  | .rollback xid => do let _ ← LogManager.appendRollbackLog xid
  | .flush lsn => modify fun σ => σ.flushLog lsn
  | .flushPage key pageLsn => modify fun σ => σ.logFlushPage key pageLsn
  | .checkpoint => do let _ ← LogManager.checkpoint
  | .tornCheckpoint => do let _ ← LogManager.checkpointLog
  | .reopen => LogManager.modifyLog fun log => .new log.nextLsn

/-- The state a call leaves, and whether it returned. -/
def result (op : LogOp) (σ : Engine) : Engine × Bool :=
  match op.exec σ with
  | .ok _ σ' => (σ', true)
  | .error _ σ' => (σ', false)

/-- What the callers see to: `TransactionManager::Begin` hands out an id that no
record carries, `Table` checks the size of a record and logs page creations for
a transaction only. -/
def Allowed (σ : Engine) : LogOp → Prop
  | .begin xid => xid ≠ nullXid ∧ xid ≠ ddlXid ∧ ∀ r ∈ σ.appended, r.xid ≠ xid
  | .insert _ _ _ _ _ size _ => size ≤ maxRecordSize
  | .newPage xid _ _ _ => xid ≠ ddlXid
  | .reopen => σ.log.logBuffer = [] ∧ σ.log.att = [] ∧ σ.log.dpt = []
  | _ => True

instance (σ : Engine) (op : LogOp) : Decidable (op.Allowed σ) := by
  cases op <;> unfold Allowed <;> infer_instance

/-- The image `FlushPage` is called for contains every change logged so far. -/
def stores (σ : Engine) (stored : Stored) : LogOp → Stored
  | .flushPage key _ => fun k r => (k = key ∧ r ∈ σ.appended) ∨ stored k r
  | _ => stored

end LogOp

/-- The states of one uninterrupted run, from an empty log on. -/
inductive LogRun : Engine → Stored → Prop
  | start : LogRun (.ofDisk {}) fun _ _ => False
  | step {σ σ' : Engine} {stored : Stored} {op : LogOp} :
      LogRun σ stored → op.Allowed σ → op.exec σ = .ok () σ' → LogRun σ' (op.stores σ stored)

namespace LogRun

/-- The state after a list of calls. -/
def serve : List LogOp → Engine → Stored → Engine × Stored
  | [], σ, stored => (σ, stored)
  | op :: ops, σ, stored => serve ops (op.result σ).1 (op.stores σ stored)

/-- Whether every call of a list is allowed and returns. -/
def serves : List LogOp → Engine → Bool
  | [], _ => true
  | op :: ops, σ => op.Allowed σ && (op.result σ).2 && serves ops (op.result σ).1

theorem of_serves (ops : List LogOp) {σ : Engine} {stored : Stored} (run : LogRun σ stored)
    (h : serves ops σ) : LogRun (serve ops σ stored).1 (serve ops σ stored).2 := by
  induction ops generalizing σ stored with
  | nil => exact run
  | cons op ops ih =>
      simp only [serves, Bool.and_eq_true, decide_eq_true_eq] at h
      obtain ⟨⟨hallowed, hok⟩, hrest⟩ := h
      refine ih (run.step hallowed ?_) hrest
      simp only [LogOp.result] at hok ⊢
      cases hexec : op.exec σ with
      | ok u σ' => rfl
      | error e σ' =>
          rw [hexec] at hok
          cases hok

/-- The state after a list of calls on an empty log. -/
def first (ops : List LogOp) : Engine × Stored := serve ops (.ofDisk {}) fun _ _ => False

end LogRun

/-! ## The scan, one transaction or page at a time -/

/-- What one record does to the entry of a transaction. -/
def scanXid (xid : Nat) (lsn? : Option Nat) (r : LogRecord) : Option Nat :=
  if r.xid = xid then if r.ends then none else some r.lsn else lsn?

theorem AnalyzeState.find?_att_step (s : LogManager.AnalyzeState) (r : LogRecord) (xid : Nat) :
    (s.step r).att.find? xid = scanXid xid (s.att.find? xid) r := by
  simp only [LogManager.AnalyzeState.step, scanXid, LogRecord.ends, decide_eq_true_eq]
  by_cases hends : r.getType = .commit ∨ r.getType = .rollback
  · simp only [if_pos hends, Assoc.find?_erase]
  · simp only [if_neg hends, Assoc.find?_insert]

theorem AnalyzeState.find?_att_foldl (s : LogManager.AnalyzeState) (l : List LogRecord)
    (xid : Nat) :
    (l.foldl LogManager.AnalyzeState.step s).att.find? xid =
      l.foldl (scanXid xid) (s.att.find? xid) := by
  induction l generalizing s with
  | nil => rfl
  | cons r l ih => rw [List.foldl_cons, List.foldl_cons, ih, find?_att_step]

/-- No record follows the end record of its transaction. -/
def EndsLast (log : List LogRecord) : Prop :=
  log.Pairwise fun r r' => r.ends → r'.xid ≠ r.xid

theorem scanXid_foldl_of_forall_ne {xid : Nat} {l : List LogRecord} (h : ∀ r ∈ l, r.xid ≠ xid)
    (lsn? : Option Nat) : l.foldl (scanXid xid) lsn? = lsn? := by
  induction l generalizing lsn? with
  | nil => rfl
  | cons r l ih =>
      rw [List.foldl_cons, scanXid, if_neg (h r List.mem_cons_self)]
      exact ih (fun r' hr' => h r' (List.mem_cons_of_mem _ hr')) _

/-- Scanning the whole log gives the active transactions. -/
theorem scanXid_foldl_eq_activeLsn? {log : List LogRecord} (ends : EndsLast log) {xid : Nat}
    (hxid : xid ≠ nullXid) : log.foldl (scanXid xid) none = activeLsn? log xid := by
  induction log using List.reverseRecOn with
  | nil => simp [activeLsn?]
  | append_singleton log r ih =>
      obtain ⟨ends, -, hr⟩ := List.pairwise_append.mp ends
      rw [List.foldl_append, List.foldl_cons, List.foldl_nil, ih ends]
      simp only [scanXid, activeLsn?, hxid, false_or]
      by_cases hrx : r.xid = xid
      · subst hrx
        -- `r` is the last record of its transaction, and no earlier one ended it
        have hnone : ¬ ∃ r' ∈ log, r'.xid = r.xid ∧ r'.ends := by
          rintro ⟨r', hr', hxid', hends'⟩
          exact hr r' hr' r (List.mem_singleton_self r) hends' hxid'.symm
        simp [hnone, List.reverse_append]
      · simp [hrx, List.reverse_append]

theorem activeLsn?_concat {log : List LogRecord} {r : LogRecord} (ends : EndsLast (log ++ [r]))
    {xid : Nat} (hxid : xid ≠ nullXid) :
    activeLsn? (log ++ [r]) xid = scanXid xid (activeLsn? log xid) r := by
  rw [← scanXid_foldl_eq_activeLsn? ends hxid,
    ← scanXid_foldl_eq_activeLsn? (List.pairwise_append.mp ends).1 hxid, List.foldl_append]
  rfl

@[simp] theorem activeLsn?_nullXid (log : List LogRecord) : activeLsn? log nullXid = none := by
  simp [activeLsn?]

/-- An active transaction has not ended. -/
theorem ne_xid_of_activeLsn? {log : List LogRecord} {xid lsn : Nat}
    (h : activeLsn? log xid = some lsn) {r : LogRecord} (hr : r ∈ log) (hends : r.ends) :
    xid ≠ r.xid := by
  rintro rfl
  rw [activeLsn?, if_pos (.inr ⟨r, hr, rfl, hends⟩)] at h
  cases h

theorem AnalyzeState.dpt_step (s : LogManager.AnalyzeState) (r : LogRecord) :
    (s.step r).dpt =
      match r.page? with
      | none => s.dpt
      | some key => s.dpt.insertNew key r.lsn := rfl

/-- Entries of the dirty page table survive the scan. -/
theorem AnalyzeState.find?_dpt_step {s : LogManager.AnalyzeState} {key : TablePageid}
    {recLsn : Nat} (h : s.dpt.find? key = some recLsn) (r : LogRecord) :
    (s.step r).dpt.find? key = some recLsn := by
  rw [dpt_step]
  cases r.page? with
  | none => exact h
  | some key' => exact Assoc.find?_insertNew_of_some h key' r.lsn

theorem AnalyzeState.find?_dpt_foldl {s : LogManager.AnalyzeState} {key : TablePageid}
    {recLsn : Nat} (h : s.dpt.find? key = some recLsn) (l : List LogRecord) :
    (l.foldl LogManager.AnalyzeState.step s).dpt.find? key = some recLsn := by
  induction l generalizing s with
  | nil => exact h
  | cons r l ih => exact ih (find?_dpt_step h r)

/-- A scanned record finds, or makes, an entry for its page at or below it. -/
theorem AnalyzeState.find?_dpt_foldl_of_mem {s : LogManager.AnalyzeState} {l : List LogRecord}
    {lo hi : Nat} (tiles : LogTiles lo l hi)
    (low : ∀ key recLsn, s.dpt.find? key = some recLsn → recLsn ≤ lo) {r : LogRecord} (hr : r ∈ l)
    {key : TablePageid} (hkey : r.page? = some key) :
    ∃ recLsn ≤ r.lsn,
      (l.foldl LogManager.AnalyzeState.step s).dpt.find? key = some recLsn := by
  induction l generalizing s lo with
  | nil => cases hr
  | cons r' l ih =>
      obtain ⟨hlsn, tiles⟩ := tiles
      cases hlsn
      rcases List.mem_cons.mp hr with rfl | hr
      · have hentry : ∃ recLsn ≤ r.lsn, (s.step r).dpt.find? key = some recLsn := by
          simp only [dpt_step, hkey, Assoc.find?_insertNew_self]
          cases hfind : s.dpt.find? key with
          | none => exact ⟨r.lsn, Nat.le_refl _, rfl⟩
          | some recLsn => exact ⟨recLsn, low key recLsn hfind, rfl⟩
        obtain ⟨recLsn, hle, hfind⟩ := hentry
        exact ⟨recLsn, hle, find?_dpt_foldl hfind l⟩
      · refine ih tiles (fun key' recLsn hfind => ?_) hr
        rw [dpt_step] at hfind
        cases hpage : r'.page? with
        | none =>
            rw [hpage] at hfind
            exact Nat.le_trans (low key' recLsn hfind) (Nat.le_add_right _ _)
        | some key'' =>
            rw [hpage] at hfind
            rcases Assoc.find?_insertNew_cases hfind with hfind | ⟨-, rfl⟩
            · exact Nat.le_trans (low key' recLsn hfind) (Nat.le_add_right _ _)
            · exact Nat.le_add_right _ _

/-! ## The invariant of a run -/

/-- The checkpoint a master record points at, with the tables it saved. -/
def Checkpointed (log : List LogRecord) (checkpointLsn : Nat) (stored : Stored) : Prop :=
  ∃ before b e after att dpt, log = before ++ b :: e :: after ∧ b.lsn = checkpointLsn ∧
    b.body = .beginCheckpoint ∧ e.body = .endCheckpoint att dpt ∧
    (∀ xid, att.find? xid = activeLsn? before xid) ∧
    (∀ key recLsn, dpt.find? key = some recLsn → recLsn ≤ checkpointLsn) ∧
    DptCovers dpt before stored

structure LogRunOk (σ : Engine) (stored : Stored) : Prop where
  log : LogOk σ
  ends : EndsLast σ.appended
  xids : ∀ r ∈ σ.appended, r.xid = nullXid ↔ r.isCheckpoint
  sizes : ∀ r ∈ σ.appended, ¬ r.isCheckpoint → r.getSize ≤ maxLogSize
  att : ∀ xid, σ.log.att.find? xid = activeLsn? σ.appended xid
  dptLe : ∀ key recLsn, σ.log.dpt.find? key = some recLsn → recLsn ≤ σ.log.nextLsn
  dpt : DptCovers σ.log.dpt σ.appended stored
  master : ∀ checkpointLsn, σ.disk.masterRecord = some checkpointLsn →
    Checkpointed σ.disk.log checkpointLsn stored

theorem DptCovers.mono {dpt : Dpt} {log : List LogRecord} {stored stored' : Stored}
    (covers : DptCovers dpt log stored) (h : ∀ key r, stored key r → stored' key r) :
    DptCovers dpt log stored' :=
  fun r hr key hchanges hstored => covers r hr key hchanges fun hst => hstored (h key r hst)

theorem Checkpointed.append {log : List LogRecord} {checkpointLsn : Nat} {stored : Stored}
    (h : Checkpointed log checkpointLsn stored) (l : List LogRecord) :
    Checkpointed (log ++ l) checkpointLsn stored := by
  obtain ⟨before, b, e, after, att, dpt, rfl, rest⟩ := h
  exact ⟨before, b, e, after ++ l, att, dpt, by simp, rest⟩

theorem Checkpointed.mono {log : List LogRecord} {checkpointLsn : Nat} {stored stored' : Stored}
    (hck : Checkpointed log checkpointLsn stored) (h : ∀ key r, stored key r → stored' key r) :
    Checkpointed log checkpointLsn stored' := by
  obtain ⟨before, b, e, after, att, dpt, hlog, hb, hbody, hebody, hatt, hdpt, hcov⟩ := hck
  exact ⟨before, b, e, after, att, dpt, hlog, hb, hbody, hebody, hatt, hdpt, hcov.mono h⟩

/-- The record appended next, and the log with it. -/
def Engine.nextRecord (σ : Engine) (xid prevLsn : Nat) (body : LogBody) : LogRecord :=
  ⟨σ.log.nextLsn, xid, prevLsn, body⟩

@[simp] theorem Engine.nextRecord_xid (σ : Engine) (xid prevLsn : Nat) (body : LogBody) :
    (σ.nextRecord xid prevLsn body).xid = xid := rfl

/-- The state with a record appended and the tables replaced. -/
def Engine.appendedWith (σ : Engine) (xid prevLsn : Nat) (body : LogBody) (att : Att) (dpt : Dpt) :
    Engine :=
  { σ with log := σ.log.appendedWith xid prevLsn body att dpt }

theorem Engine.appended_appendedWith (σ : Engine) (xid prevLsn : Nat) (body : LogBody) (att : Att)
    (dpt : Dpt) :
    (σ.appendedWith xid prevLsn body att dpt).appended =
      σ.appended ++ [σ.nextRecord xid prevLsn body] := by
  simp [appended, appendedWith, nextRecord]

namespace LogRunOk

variable {σ : Engine} {stored : Stored}

/-- Appending a record, with tables that account for it. -/
theorem appendedWith (inv : LogRunOk σ stored) {xid prevLsn : Nat} {body : LogBody} {att : Att}
    {dpt : Dpt} (hends : ∀ r ∈ σ.appended, r.ends → xid ≠ r.xid)
    (hxid : xid = nullXid ↔ (σ.nextRecord xid prevLsn body).isCheckpoint)
    (hsize : ¬ (σ.nextRecord xid prevLsn body).isCheckpoint →
      (σ.nextRecord xid prevLsn body).getSize ≤ maxLogSize)
    (hatt : ∀ x, att.find? x =
      if x = nullXid then none
      else scanXid x (σ.log.att.find? x) (σ.nextRecord xid prevLsn body))
    (hold : ∀ key recLsn, σ.log.dpt.find? key = some recLsn → dpt.find? key = some recLsn)
    (hnew : ∀ key recLsn, dpt.find? key = some recLsn →
      σ.log.dpt.find? key = some recLsn ∨ recLsn = σ.log.nextLsn)
    (hdirty : ∀ key, (σ.nextRecord xid prevLsn body).changes key →
      ∃ recLsn ≤ σ.log.nextLsn, dpt.find? key = some recLsn) :
    LogRunOk (σ.appendedWith xid prevLsn body att dpt) stored := by
  have hends' : EndsLast (σ.appended ++ [σ.nextRecord xid prevLsn body]) := by
    refine List.pairwise_append.mpr ⟨inv.ends, List.pairwise_singleton _ _, fun r hr r' hr' => ?_⟩
    cases List.mem_singleton.mp hr'
    exact hends r hr
  have hlt : σ.log.nextLsn < (σ.nextRecord xid prevLsn body).endLsn :=
    (σ.nextRecord xid prevLsn body).lsn_lt_endLsn
  refine { log := inv.log.push xid prevLsn body att dpt, ends := ?_, xids := ?_, sizes := ?_,
           att := ?_, dptLe := ?_, dpt := ?_, master := inv.master }
  · rw [Engine.appended_appendedWith]
    exact hends'
  · rw [Engine.appended_appendedWith]
    exact List.forall_mem_append.mpr ⟨inv.xids, List.forall_mem_singleton.mpr hxid⟩
  · rw [Engine.appended_appendedWith]
    exact List.forall_mem_append.mpr ⟨inv.sizes, List.forall_mem_singleton.mpr hsize⟩
  · intro x
    rw [Engine.appended_appendedWith]
    change att.find? x = _
    rw [hatt x]
    by_cases hx : x = nullXid
    · simp [hx]
    · rw [if_neg hx, activeLsn?_concat hends' hx, inv.att x]
  · intro key recLsn hfind
    rcases hnew key recLsn hfind with hfind | rfl
    · exact Nat.le_trans (inv.dptLe key recLsn hfind) (Nat.le_of_lt hlt)
    · exact Nat.le_of_lt hlt
  · rw [Engine.appended_appendedWith]
    refine List.forall_mem_append.mpr ⟨fun r hr key hchanges hstored => ?_,
      List.forall_mem_singleton.mpr fun key hchanges _ => hdirty key hchanges⟩
    obtain ⟨recLsn, hle, hfind⟩ := inv.dpt r hr key hchanges hstored
    exact ⟨recLsn, hle, hold key recLsn hfind⟩

/-- Flushing the log. -/
theorem flushLog (inv : LogRunOk σ stored) (lsn : Nat) : LogRunOk (σ.flushLog lsn) stored := by
  have happ := inv.log.appended_flushLog lsn
  refine { log := inv.log.flushLog lsn, ends := ?_, xids := ?_, sizes := ?_, att := ?_,
           dptLe := ?_, dpt := ?_, master := ?_ }
  · rw [happ]
    exact inv.ends
  · rw [happ]
    exact inv.xids
  · rw [happ]
    exact inv.sizes
  · rw [happ, Engine.flushLog_att]
    exact inv.att
  · rw [Engine.flushLog_dpt, Engine.flushLog_nextLsn]
    exact inv.dptLe
  · rw [happ, Engine.flushLog_dpt]
    exact inv.dpt
  · intro checkpointLsn hmaster
    rw [Engine.flushLog_masterRecord] at hmaster
    rw [Engine.flushLog_disk_log]
    exact (inv.master checkpointLsn hmaster).append _

/-- Writing a page back: its image is now complete. -/
theorem logFlushPage (inv : LogRunOk σ stored) (key : TablePageid) (pageLsn : Nat) :
    LogRunOk (σ.logFlushPage key pageLsn)
      fun k r => (k = key ∧ r ∈ σ.appended) ∨ stored k r := by
  have flushed := inv.flushLog pageLsn
  have happ := inv.log.appended_flushLog pageLsn
  refine { log := flushed.log.of_log_eq rfl rfl rfl rfl rfl rfl rfl, ends := flushed.ends,
           xids := flushed.xids, sizes := flushed.sizes, att := flushed.att, dptLe := ?_,
           dpt := ?_, master := ?_ }
  · intro k recLsn hfind
    change Assoc.find? k ((σ.flushLog pageLsn).log.dpt.erase key) = some recLsn at hfind
    rw [Assoc.find?_erase] at hfind
    split at hfind
    · cases hfind
    · exact flushed.dptLe k recLsn hfind
  · intro r hr k hchanges hstored
    have hr' : r ∈ σ.appended := happ ▸ hr
    have hne : key ≠ k := fun hk => hstored (.inl ⟨hk.symm, hr'⟩)
    obtain ⟨recLsn, hle, hfind⟩ :=
      flushed.dpt r hr k hchanges fun hst => hstored (.inr hst)
    exact ⟨recLsn, hle, (Assoc.find?_erase_ne hne _).trans hfind⟩
  · exact fun checkpointLsn hmaster =>
      (flushed.master checkpointLsn hmaster).mono fun _ _ hst => .inr hst

/-- A transaction in the table has a real id and no end record. -/
theorem active (inv : LogRunOk σ stored) {xid prevLsn : Nat}
    (h : σ.log.att.find? xid = some prevLsn) :
    xid ≠ nullXid ∧ ∀ r ∈ σ.appended, r.ends → xid ≠ r.xid := by
  rw [inv.att xid] at h
  refine ⟨?_, fun r hr => ne_xid_of_activeLsn? h hr⟩
  rintro rfl
  rw [activeLsn?_nullXid] at h
  cases h

/-- Appending a record of an active transaction that changes a page. -/
theorem chained (inv : LogRunOk σ stored) {xid lastLsn prevLsn : Nat} {body : LogBody}
    {dpt : Dpt} (hlast : σ.log.att.find? xid = some lastLsn)
    (hends : (σ.nextRecord xid prevLsn body).ends = false)
    (hcheckpoint : (σ.nextRecord xid prevLsn body).isCheckpoint = false)
    (hsize : (σ.nextRecord xid prevLsn body).getSize ≤ maxLogSize)
    (hold : ∀ key recLsn, σ.log.dpt.find? key = some recLsn → dpt.find? key = some recLsn)
    (hnew : ∀ key recLsn, dpt.find? key = some recLsn →
      σ.log.dpt.find? key = some recLsn ∨ recLsn = σ.log.nextLsn)
    (hdirty : ∀ key, (σ.nextRecord xid prevLsn body).page? = some key →
      ∃ recLsn, dpt.find? key = some recLsn) :
    LogRunOk
      (σ.appendedWith xid prevLsn body (σ.log.att.insert xid σ.log.nextLsn) dpt) stored := by
  obtain ⟨hnull, hactive⟩ := inv.active hlast
  refine inv.appendedWith hactive (by simp [hnull, hcheckpoint]) (fun _ => hsize) ?_ hold hnew ?_
  · intro x
    rw [Assoc.find?_insert, scanXid, hends]
    by_cases hx : x = nullXid
    · subst hx
      rw [if_neg hnull, if_pos rfl, inv.att, activeLsn?_nullXid]
    · rw [if_neg hx]
      rfl
  · intro key hchanges
    simp only [LogRecord.changes, decide_eq_true_eq] at hchanges
    obtain ⟨recLsn, hfind⟩ := hdirty key hchanges.2
    refine ⟨recLsn, ?_, hfind⟩
    rcases hnew key recLsn hfind with hfind | rfl
    · exact inv.dptLe key recLsn hfind
    · exact Nat.le_refl _

/-- `AppendInsertLog` and `AppendDeleteLog`. -/
theorem chainedOnPage (inv : LogRunOk σ stored) {xid prevLsn : Nat} {body : LogBody}
    {key : TablePageid} (hprev : σ.log.att.find? xid = some prevLsn)
    (hends : (σ.nextRecord xid prevLsn body).ends = false)
    (hcheckpoint : (σ.nextRecord xid prevLsn body).isCheckpoint = false)
    (hsize : (σ.nextRecord xid prevLsn body).getSize ≤ maxLogSize)
    (hpage : (σ.nextRecord xid prevLsn body).page? = some key) :
    LogRunOk
      (σ.appendedWith xid prevLsn body (σ.log.att.insert xid σ.log.nextLsn)
        (σ.log.dpt.insertNew key σ.log.nextLsn)) stored := by
  refine inv.chained hprev hends hcheckpoint hsize
    (fun k recLsn hfind => Assoc.find?_insertNew_of_some hfind _ _)
    (fun k recLsn hfind => (Assoc.find?_insertNew_cases hfind).imp_right And.right)
    fun k hk => ?_
  cases hpage.symm.trans hk
  exact ⟨_, Assoc.find?_insertNew_self _ _ _⟩

/-- `AppendNewPageLog`, which may enter two pages. -/
theorem chainedNewPage (inv : LogRunOk σ stored)
    {xid lastLsn prevLsn oid prevPageId pageId : Nat}
    (hlast : σ.log.att.find? xid = some lastLsn) :
    LogRunOk
      (σ.appendedWith xid prevLsn (.newPage oid prevPageId pageId)
        (σ.log.att.insert xid σ.log.nextLsn)
        (LogManager.dptNewPage σ.log.dpt oid prevPageId pageId σ.log.nextLsn)) stored := by
  refine inv.chained hlast rfl rfl (Nat.le_of_ble_eq_true rfl) ?_ ?_ ?_
  · intro k recLsn hfind
    unfold LogManager.dptNewPage
    split
    · exact Assoc.find?_insertNew_of_some (Assoc.find?_insertNew_of_some hfind _ _) _ _
    · exact Assoc.find?_insertNew_of_some hfind _ _
  · intro k recLsn hfind
    unfold LogManager.dptNewPage at hfind
    split at hfind
    · rcases Assoc.find?_insertNew_cases hfind with hfind | ⟨-, rfl⟩
      · exact (Assoc.find?_insertNew_cases hfind).imp_right And.right
      · exact .inr rfl
    · exact (Assoc.find?_insertNew_cases hfind).imp_right And.right
  · intro k hk
    cases hk
    unfold LogManager.dptNewPage
    split
    · exact ⟨_, Assoc.find?_insertNew_of_some (Assoc.find?_insertNew_self _ _ _) _ _⟩
    · exact ⟨_, Assoc.find?_insertNew_self _ _ _⟩

theorem appendBegin (inv : LogRunOk σ stored) {xid : Nat} (hnull : xid ≠ nullXid)
    (hfresh : ∀ r ∈ σ.appended, r.xid ≠ xid) :
    LogRunOk (σ.appendedWith xid nullLsn .begin (σ.log.att.insert xid σ.log.nextLsn) σ.log.dpt)
      stored := by
  refine inv.appendedWith (fun r hr _ => (hfresh r hr).symm) ?_
    (fun _ => Nat.le_of_ble_eq_true rfl) ?_
    (fun _ _ hfind => hfind) (fun _ _ hfind => .inl hfind) ?_
  · simp [hnull, LogRecord.isCheckpoint, Engine.nextRecord, LogRecord.getType, LogBody.getType]
  · intro x
    rw [Assoc.find?_insert]
    by_cases hx : x = nullXid
    · subst hx
      rw [if_neg hnull, if_pos rfl, inv.att, activeLsn?_nullXid]
    · rw [if_neg hx]
      rfl
  · intro key hchanges
    cases hchanges

/-- The end record of a transaction, which then leaves the table. -/
theorem appendEnd (inv : LogRunOk σ stored) {xid prevLsn : Nat} {body : LogBody}
    (hbody : body = .commit ∨ body = .rollback) (hprev : σ.log.att.find? xid = some prevLsn) :
    LogRunOk (σ.appendedWith xid prevLsn body (σ.log.att.erase xid) σ.log.dpt) stored := by
  obtain ⟨hnull, hactive⟩ := inv.active hprev
  have hends : (σ.nextRecord xid prevLsn body).ends = true := by
    rcases hbody with rfl | rfl <;> rfl
  have hcheckpoint : (σ.nextRecord xid prevLsn body).isCheckpoint = false := by
    rcases hbody with rfl | rfl <;> rfl
  refine inv.appendedWith hactive (by simp [hnull, hcheckpoint]) (fun _ => ?_) ?_
    (fun _ _ hfind => hfind) (fun _ _ hfind => .inl hfind) ?_
  · rcases hbody with rfl | rfl <;> exact Nat.le_of_ble_eq_true rfl
  · intro x
    rw [Assoc.find?_erase, scanXid, hends]
    by_cases hx : x = nullXid
    · subst hx
      rw [if_neg hnull, if_pos rfl, inv.att, activeLsn?_nullXid]
    · rw [if_neg hx]
      rfl
  · intro key hchanges
    rcases hbody with rfl | rfl <;> cases hchanges

/-- A record of a checkpoint, which leaves the tables alone. -/
theorem appendCheckpoint (inv : LogRunOk σ stored) (body : LogBody)
    (hbody : (σ.nextRecord nullXid nullLsn body).isCheckpoint) :
    LogRunOk (σ.appendedWith nullXid nullLsn body σ.log.att σ.log.dpt) stored := by
  refine inv.appendedWith (fun r hr hends => ?_) (by simp [hbody]) (fun h => absurd hbody h) ?_
    (fun _ _ hfind => hfind) (fun _ _ hfind => .inl hfind) ?_
  · intro hxid
    have hcheckpoint := (inv.xids r hr).mp hxid.symm
    simp only [LogRecord.ends, LogRecord.isCheckpoint, decide_eq_true_eq] at hends hcheckpoint
    rcases hends with h | h <;> simp [h] at hcheckpoint
  · intro x
    by_cases hx : x = nullXid
    · rw [if_pos hx, hx, inv.att, activeLsn?_nullXid]
    · rw [if_neg hx, scanXid, Engine.nextRecord_xid, if_neg (Ne.symm hx)]
  · intro key hchanges
    simp only [LogRecord.changes, LogRecord.isCheckpoint, decide_eq_true_eq] at hbody hchanges
    rcases hbody with h | h <;> simp [h] at hchanges

/-- A new log manager where nothing is buffered, active or dirty. -/
theorem reopen (inv : LogRunOk σ stored) (hbuffer : σ.log.logBuffer = []) (hatt : σ.log.att = [])
    (hdpt : σ.log.dpt = []) : LogRunOk { σ with log := .new σ.log.nextLsn } stored := by
  have hend : σ.disk.logEnd = σ.log.nextLsn := by
    have := inv.log.buffer
    rwa [hbuffer] at this
  have happ : ({ σ with log := .new σ.log.nextLsn } : Engine).appended = σ.appended := by
    simp [Engine.appended, hbuffer, LogManager.new]
  refine { log := ⟨inv.log.disk, hend, ?_, inv.log.covers⟩, ends := happ ▸ inv.ends,
           xids := happ ▸ inv.xids, sizes := happ ▸ inv.sizes, att := ?_, dptLe := ?_, dpt := ?_,
           master := inv.master }
  · simp only [LogManager.new]
    have hdisk := inv.log.disk
    by_cases hzero : σ.log.nextLsn = 0
    · rw [if_pos hzero]
      refine .inl ⟨rfl, List.eq_nil_iff_forall_not_mem.mpr fun r hr => ?_⟩
      have := hdisk.pos_lt LogRecord.getSize_pos hr
      omega
    · rw [if_neg hzero]
      refine .inr ⟨by omega, fun r hr => ?_⟩
      have := hdisk.pos_lt LogRecord.getSize_pos hr
      omega
  · intro xid
    rw [happ, ← inv.att, hatt]
    rfl
  · intro key recLsn hfind
    cases hfind
  · rw [happ]
    have hcovers := inv.dpt
    rw [hdpt] at hcovers
    exact hcovers

end LogRunOk

/-- The flush of an end record and the removal of its transaction commute. -/
theorem Engine.flushLog_with_att (σ : Engine) (lsn : Nat) (att : Att) :
    { σ.flushLog lsn with log := { (σ.flushLog lsn).log with att := att } } =
      ({ σ with log := { σ.log with att := att } } : Engine).flushLog lsn := by
  simp only [flushLog]
  cases (σ.log.logBuffer.filter (LogRecord.isDue lsn)).foldl maxRecord none with
  | none => rfl
  | some m =>
      dsimp only
      by_cases h : σ.log.flushedLsn = nullLsn ∨ m.lsn > σ.log.flushedLsn
      · rw [if_pos h, if_pos h]
      · rw [if_neg h, if_neg h]

namespace LogRunOk

variable {σ : Engine} {stored : Stored}

/-- The two records of a checkpoint, on disk. -/
theorem checkpointLogged (inv : LogRunOk σ stored) :
    LogRunOk (LogManager.checkpointLogged σ) stored :=
  (inv.appendCheckpoint .beginCheckpoint rfl).appendCheckpoint
    (.endCheckpoint σ.log.att σ.log.dpt) rfl

theorem checkpointLog (inv : LogRunOk σ stored) :
    LogRunOk ((LogManager.checkpointLogged σ).flushLog (σ.log.nextLsn + LogRecord.headerSize))
      stored :=
  inv.checkpointLogged.flushLog _

/-- After a checkpoint the whole log is on disk, the checkpoint last. -/
theorem checkpointLog_disk_log (inv : LogRunOk σ stored) :
    ((LogManager.checkpointLogged σ).flushLog
        (σ.log.nextLsn + LogRecord.headerSize)).disk.log =
      σ.appended ++
        [⟨σ.log.nextLsn, nullXid, nullLsn, .beginCheckpoint⟩,
          ⟨σ.log.nextLsn + LogRecord.headerSize, nullXid, nullLsn,
            .endCheckpoint σ.log.att σ.log.dpt⟩] := by
  have hbuffer : (LogManager.checkpointLogged σ).log.logBuffer =
      σ.log.logBuffer ++
        [⟨σ.log.nextLsn, nullXid, nullLsn, .beginCheckpoint⟩,
          ⟨σ.log.nextLsn + LogRecord.headerSize, nullXid, nullLsn,
            .endCheckpoint σ.log.att σ.log.dpt⟩] := by
    simp only [LogManager.checkpointLogged, LogManager.appendedWith_logBuffer,
      LogManager.appendedWith_nextLsn, List.append_assoc]
    rfl
  rw [Engine.flushLog_disk_log, hbuffer, List.filter_eq_self.mpr, Engine.appended,
    List.append_assoc]
  · rfl
  · intro r hr
    simp only [LogRecord.isDue, decide_eq_true_eq]
    refine .inr ?_
    simp only [List.mem_append, List.mem_cons, List.not_mem_nil, or_false] at hr
    rcases hr with hr | rfl | rfl
    · have := inv.log.buffer.pos_lt LogRecord.getSize_pos hr
      omega
    · exact Nat.le_add_right _ _
    · exact Nat.le_refl _

theorem checkpoint (inv : LogRunOk σ stored) {τ : Engine}
    (hτ : τ = (LogManager.checkpointLogged σ).flushLog (σ.log.nextLsn + LogRecord.headerSize)) :
    LogRunOk { τ with disk := { τ.disk with masterRecord := some σ.log.nextLsn } } stored := by
  have flushed : LogRunOk τ stored := hτ ▸ inv.checkpointLog
  refine { log := flushed.log.of_log_eq rfl rfl rfl rfl rfl rfl rfl, ends := flushed.ends,
           xids := flushed.xids, sizes := flushed.sizes, att := flushed.att,
           dptLe := flushed.dptLe, dpt := flushed.dpt, master := ?_ }
  intro checkpointLsn hmaster
  cases hmaster
  refine ⟨σ.appended, _, _, [], σ.log.att, σ.log.dpt,
    (congrArg (fun τ => τ.disk.log) hτ).trans inv.checkpointLog_disk_log, rfl, rfl, rfl, inv.att,
    inv.dptLe, inv.dpt⟩

/-- The end record, flushed, after which the transaction leaves the table. -/
theorem endLogged (inv : LogRunOk σ stored) {xid prevLsn lsn : Nat} {body : LogBody}
    (hbody : body = .commit ∨ body = .rollback) (hprev : σ.log.att.find? xid = some prevLsn) :
    let flushed := (LogManager.endLogged σ xid prevLsn body).flushLog lsn
    LogRunOk { flushed with log := { flushed.log with att := flushed.log.att.erase xid } }
      stored := by
  dsimp only
  rw [Engine.flushLog_with_att, Engine.flushLog_att]
  exact (inv.appendEnd hbody hprev).flushLog lsn

/-- Every step of a run keeps the invariant. -/
theorem step (inv : LogRunOk σ stored) {op : LogOp} {σ' : Engine} (allowed : op.Allowed σ)
    (run : op.exec σ = .ok () σ') : LogRunOk σ' (op.stores σ stored) := by
  cases op with
  | begin xid =>
      obtain ⟨lsn, τ, happend, hτ⟩ := EStateM.bind_eq_ok_iff.mp run
      obtain ⟨-, rfl⟩ := EStateM.pure_eq_ok_iff.mp hτ
      obtain ⟨-, -, rfl⟩ := LogManager.appendBeginLog_eq_ok_iff.mp happend
      exact inv.appendBegin allowed.1 allowed.2.2
  | insert xid oid pageId slotId offset size record =>
      obtain ⟨lsn, τ, happend, hτ⟩ := EStateM.bind_eq_ok_iff.mp run
      obtain ⟨-, rfl⟩ := EStateM.pure_eq_ok_iff.mp hτ
      obtain ⟨prevLsn, hprev, -, rfl⟩ := LogManager.appendInsertLog_eq_ok_iff.mp happend
      refine inv.chainedOnPage hprev rfl rfl ?_ rfl
      have hsize : size ≤ maxRecordSize := allowed
      simp only [Engine.nextRecord, LogRecord.getSize, LogRecord.headerSize, LogBody.extraSize,
        maxLogSize]
      omega
  | delete xid oid pageId slotId =>
      obtain ⟨lsn, τ, happend, hτ⟩ := EStateM.bind_eq_ok_iff.mp run
      obtain ⟨-, rfl⟩ := EStateM.pure_eq_ok_iff.mp hτ
      obtain ⟨prevLsn, hprev, -, rfl⟩ := LogManager.appendDeleteLog_eq_ok_iff.mp happend
      exact inv.chainedOnPage hprev rfl rfl (Nat.le_of_ble_eq_true rfl) rfl
  | newPage xid oid prevPageId pageId =>
      obtain ⟨lsn, τ, happend, hτ⟩ := EStateM.bind_eq_ok_iff.mp run
      obtain ⟨-, rfl⟩ := EStateM.pure_eq_ok_iff.mp hτ
      obtain ⟨lastLsn, hlast, -, rfl⟩ := (LogManager.appendNewPageLog_eq_ok_iff allowed).mp happend
      exact inv.chainedNewPage hlast
  | commit xid =>
      obtain ⟨lsn, τ, happend, hτ⟩ := EStateM.bind_eq_ok_iff.mp run
      obtain ⟨-, rfl⟩ := EStateM.pure_eq_ok_iff.mp hτ
      obtain ⟨prevLsn, hprev, -, rfl⟩ := LogManager.appendEndLog_eq_ok_iff.mp happend
      exact inv.endLogged (.inl rfl) hprev
  | rollback xid =>
      obtain ⟨lsn, τ, happend, hτ⟩ := EStateM.bind_eq_ok_iff.mp run
      obtain ⟨-, rfl⟩ := EStateM.pure_eq_ok_iff.mp hτ
      obtain ⟨prevLsn, hprev, -, rfl⟩ := LogManager.appendEndLog_eq_ok_iff.mp happend
      exact inv.endLogged (.inr rfl) hprev
  | flush lsn =>
      cases EStateM.modify_eq_ok_iff.mp run
      exact inv.flushLog lsn
  | flushPage key pageLsn =>
      cases EStateM.modify_eq_ok_iff.mp run
      exact inv.logFlushPage key pageLsn
  | checkpoint =>
      obtain ⟨lsn, τ, hcheckpoint, hτ⟩ := EStateM.bind_eq_ok_iff.mp run
      obtain ⟨-, rfl⟩ := EStateM.pure_eq_ok_iff.mp hτ
      rw [LogManager.checkpoint_eq] at hcheckpoint
      cases hcheckpoint
      exact inv.checkpoint rfl
  | tornCheckpoint =>
      obtain ⟨lsn, τ, hcheckpoint, hτ⟩ := EStateM.bind_eq_ok_iff.mp run
      obtain ⟨-, rfl⟩ := EStateM.pure_eq_ok_iff.mp hτ
      rw [LogManager.checkpointLog_eq] at hcheckpoint
      cases hcheckpoint
      exact inv.checkpointLog
  | reopen =>
      cases EStateM.modify_eq_ok_iff.mp run
      exact inv.reopen allowed.1 allowed.2.1 allowed.2.2

end LogRunOk

/-- The invariant holds throughout a run. -/
theorem LogRun.inv {σ : Engine} {stored : Stored} (run : LogRun σ stored) :
    LogRunOk σ stored := by
  induction run with
  | start =>
      have hnil : (Engine.ofDisk {}).appended = [] := rfl
      have hatt (xid : Nat) : activeLsn? [] xid = none := by simp [activeLsn?]
      exact {
        log := ⟨rfl, rfl, .inl ⟨rfl, rfl⟩, fun _ _ => ⟨(Nat.one_mul _).symm, Nat.zero_le _⟩⟩
        ends := .nil
        xids := fun r hr => absurd hr (by simp [hnil])
        sizes := fun r hr => absurd hr (by simp [hnil])
        att := fun xid => (hatt xid).symm
        dptLe := fun _ _ hfind => nomatch hfind
        dpt := fun r hr => absurd hr (by simp [hnil])
        master := fun _ hmaster => nomatch hmaster }
  | step _ allowed exec ih => exact ih.step allowed exec

/-! ## What `Analyze` computes -/

namespace LogManager

/-- The state in which the scan of `Analyze` starts. -/
def analyzeStart (σ : Engine) : Engine :=
  { σ with log := { σ.log with
    nextLsn := σ.disk.logEnd
    flushedLsn := if σ.disk.logEnd = 0 then nullLsn else σ.disk.logEnd - 1 } }

/-- What `Analyze` makes of the scan. -/
def analyzeEnd (s : AnalyzeState) : Db Unit :=
  modify fun σ => { σ with
    txn := σ.txn.setNextXid ((s.xidMax + 1) % 2 ^ 32)
    log := { σ.log with att := s.att, dpt := s.dpt } }

/-- With a completed checkpoint `Analyze` is the scan of the records after it. -/
theorem analyze_of_checkpoint {σ : Engine} {lo : Nat}
    (tiles : LogTiles lo σ.disk.log σ.disk.logEnd)
    (small : σ.disk.logEnd < 2 ^ 32) (covers : σ.disk.logEnd ≤ σ.disk.logFileSize)
    {before after : List LogRecord} {b e : LogRecord} {att : Att} {dpt : Dpt}
    (hlog : σ.disk.log = before ++ b :: e :: after)
    (hmaster : σ.disk.masterRecord.getD 0 = b.lsn) (hb : b.body = .beginCheckpoint)
    (he : e.body = .endCheckpoint att dpt) :
    analyze σ = (analyzeLoop σ.disk.logEnd e.endLsn ⟨att, dpt, 0⟩ >>= analyzeEnd)
      (analyzeStart σ) := by
  have hbmem : b ∈ σ.disk.log := by simp [hlog]
  have hemem : e ∈ σ.disk.log := by simp [hlog]
  have hbsize : b.getSize = LogRecord.headerSize := by simp [LogRecord.getSize, hb, LogBody.extraSize]
  have helsn : e.lsn = b.lsn + LogRecord.headerSize := by
    rw [hlog] at tiles
    obtain ⟨_, -, hbpos, hepos, -⟩ := Tiles.append_iff.mp tiles
    rw [hepos, hbsize, ← hbpos]
  have hbend := tiles.end_le hbmem
  have heend := tiles.end_le hemem
  have hepos := e.getSize_pos
  have hbread : σ.disk.readLog b.lsn (σ.disk.logEnd - b.lsn) = .ok (some b) :=
    Disk.readLog_of_mem tiles small hbmem (by omega) (by omega)
  have heread : σ.disk.readLog e.lsn (σ.disk.logEnd - e.lsn) = .ok (some e) :=
    Disk.readLog_of_mem tiles small hemem (by omega) (by omega)
  have hlen : ¬ σ.disk.logEnd - b.lsn < LogRecord.headerSize := by omega
  have hedecode : LogRecord.deserializeFrom e.lsn ((σ.disk.logEnd - e.lsn) % 2 ^ 32) (some e) =
      .ok e := by
    rw [LogRecord.deserializeFrom, Nat.mod_eq_of_lt (by omega), if_pos (by omega)]
  unfold analyze
  rw [EStateM.bind_of_ok (EStateM.get_eq_ok_iff.mpr ⟨rfl, rfl⟩)]
  dsimp only
  rw [EStateM.bind_of_ok (show modifyLog _ σ = .ok () (analyzeStart σ) from rfl),
    EStateM.bind_of_ok (EStateM.get_eq_ok_iff.mpr ⟨rfl, rfl⟩),
    EStateM.bind_of_ok (EStateM.get_eq_ok_iff.mpr ⟨rfl, rfl⟩),
    show (analyzeStart σ).disk = σ.disk from rfl,
    show σ.disk.nextLsnFile.getD firstLsn = σ.disk.logEnd from rfl, hmaster, hbread,
    Db.ofExcept_ok, pure_bind, if_neg hlen,
    EStateM.bind_of_ok (EStateM.get_eq_ok_iff.mpr ⟨rfl, rfl⟩),
    show (analyzeStart σ).disk = σ.disk from rfl, ← helsn, heread, Db.ofExcept_ok, pure_bind,
    hedecode, Db.ofExcept_ok, pure_bind, he]
  rfl

end LogManager

/-- The flushed records after the completed checkpoint. -/
def Disk.afterCheckpoint (disk : Disk) : List LogRecord :=
  disk.log.filter fun r => r.lsn > disk.masterRecord.getD 0 + LogRecord.headerSize

theorem Disk.afterCheckpoint_of_end {disk : Disk} {lo hi : Nat} (tiles : LogTiles lo disk.log hi)
    {before after : List LogRecord} {e : LogRecord} (hlog : disk.log = before ++ e :: after)
    (hmaster : e.lsn = disk.masterRecord.getD 0 + LogRecord.headerSize) :
    disk.afterCheckpoint = after := by
  rw [hlog] at tiles
  obtain ⟨_, hbefore, hepos, hafter⟩ := Tiles.append_iff.mp tiles
  cases hepos
  have hesize := e.getSize_pos
  rw [afterCheckpoint, hlog, ← hmaster, List.filter_append, List.filter_cons,
    List.filter_eq_nil_iff.mpr, List.filter_eq_self.mpr]
  · simp
  · intro r hr
    have := hafter.le_pos hr
    simp only [gt_iff_lt, decide_eq_true_eq]
    omega
  · intro r hr
    have := hbefore.pos_lt LogRecord.getSize_pos hr
    simp only [gt_iff_lt, decide_eq_true_eq]
    omega

theorem Disk.afterCheckpoint_eq {disk : Disk} {lo hi : Nat} (tiles : LogTiles lo disk.log hi)
    {before after : List LogRecord} {b e : LogRecord} (hlog : disk.log = before ++ b :: e :: after)
    (hmaster : disk.masterRecord.getD 0 = b.lsn) (hb : b.body = .beginCheckpoint) :
    disk.afterCheckpoint = after := by
  have hbsize : b.getSize = LogRecord.headerSize := by
    simp [LogRecord.getSize, hb, LogBody.extraSize]
  have helsn : e.lsn = disk.masterRecord.getD 0 + LogRecord.headerSize := by
    rw [hlog] at tiles
    obtain ⟨_, -, hbpos, hepos, -⟩ := Tiles.append_iff.mp tiles
    rw [hmaster, hepos, hbsize, ← hbpos]
  have hlog' : disk.log = (before ++ [b]) ++ e :: after := by simp [hlog]
  exact afterCheckpoint_of_end tiles hlog' helsn

namespace LogManager

/-- The state `Analyze` leaves, from what its scan accumulated. -/
def analyzed (σ : Engine) (s : AnalyzeState) : Engine :=
  { analyzeStart σ with
    txn := σ.txn.setNextXid ((s.xidMax + 1) % 2 ^ 32)
    log := { (analyzeStart σ).log with att := s.att, dpt := s.dpt } }

/-- Where `Analyze` returns, it decoded an `EndCheckpointLog` behind the checkpoint
and scanned the log from there. -/
theorem analyze_run {σ σ' : Engine} (run : analyze σ = .ok () σ') :
    ∃ e ∈ σ.disk.log, ∃ lsn att dpt s,
      lsn = σ.disk.masterRecord.getD 0 + LogRecord.headerSize ∧ lsn ≤ σ.disk.logEnd ∧
      Disk.logOffset e.lsn = Disk.logOffset lsn ∧ e.body = .endCheckpoint att dpt ∧
      analyzeLoop σ.disk.logEnd (lsn + e.getSize) ⟨att, dpt, 0⟩ (analyzeStart σ) =
        .ok s (analyzeStart σ) ∧
      σ' = analyzed σ s := by
  unfold analyze at run
  rw [EStateM.bind_of_ok (EStateM.get_eq_ok_iff.mpr ⟨rfl, rfl⟩)] at run
  dsimp only at run
  rw [EStateM.bind_of_ok (show modifyLog _ σ = .ok () (analyzeStart σ) from rfl),
    EStateM.bind_of_ok (EStateM.get_eq_ok_iff.mpr ⟨rfl, rfl⟩),
    EStateM.bind_of_ok (EStateM.get_eq_ok_iff.mpr ⟨rfl, rfl⟩),
    show (analyzeStart σ).disk = σ.disk from rfl,
    show σ.disk.nextLsnFile.getD firstLsn = σ.disk.logEnd from rfl] at run
  cases hbread : σ.disk.readLog (σ.disk.masterRecord.getD 0)
      (σ.disk.logEnd - σ.disk.masterRecord.getD 0) with
  | error e =>
      rw [hbread] at run
      cases run
  | ok bytes =>
      rw [hbread, Db.ofExcept_ok, pure_bind] at run
      by_cases hlen : σ.disk.logEnd - σ.disk.masterRecord.getD 0 < LogRecord.headerSize
      · rw [if_pos hlen] at run
        cases run
      rw [if_neg hlen, EStateM.bind_of_ok (EStateM.get_eq_ok_iff.mpr ⟨rfl, rfl⟩),
        show (analyzeStart σ).disk = σ.disk from rfl] at run
      generalize hlsn : σ.disk.masterRecord.getD 0 + LogRecord.headerSize = lsn at run
      cases heread : σ.disk.readLog lsn (σ.disk.logEnd - lsn) with
      | error e =>
          rw [heread] at run
          cases run
      | ok bytes =>
          rw [heread, Db.ofExcept_ok, pure_bind] at run
          cases hdecode : LogRecord.deserializeFrom lsn ((σ.disk.logEnd - lsn) % 2 ^ 32) bytes with
          | error e =>
              rw [hdecode] at run
              cases run
          | ok r =>
              rw [hdecode, Db.ofExcept_ok, pure_bind] at run
              obtain ⟨e, rfl, rfl⟩ := LogRecord.deserializeFrom_eq_ok hdecode
              obtain ⟨hmem, hoffset⟩ := Disk.mem_of_readLog heread
              cases he : e.body with
              | endCheckpoint att dpt =>
                  simp only [he] at run
                  obtain ⟨s, σ₁, hloop, hend⟩ := EStateM.bind_eq_ok_iff.mp run
                  obtain ⟨rfl, -⟩ := analyzeLoop_induct (P := fun _ => True)
                    (fun _ _ _ _ _ _ => trivial) trivial hloop
                  cases EStateM.modify_eq_ok_iff.mp hend
                  have hend' : LogRecord.endLsn ⟨lsn, e.xid, e.prevLsn, .endCheckpoint att dpt⟩ =
                      lsn + e.getSize := by
                    rw [LogRecord.endLsn, LogRecord.getSize, LogRecord.getSize, he]
                  have hheader : LogRecord.headerSize = 13 := rfl
                  rw [hend'] at hloop
                  exact ⟨e, hmem, lsn, att, dpt, s, rfl, by omega, hoffset, he, hloop, rfl⟩
              | _ =>
                  simp only [he] at run
                  cases run

/-- On a log below 4 GiB, where `Analyze` returns it read every record after the
`EndCheckpointLog`. -/
theorem analyze_eq_ok {σ σ' : Engine} {lo : Nat}
    (tiles : LogTiles lo σ.disk.log σ.disk.logEnd)
    (small : σ.disk.logEnd < 2 ^ 32) (run : analyze σ = .ok () σ') :
    ∃ before e att dpt, σ.disk.log = before ++ e :: σ.disk.afterCheckpoint ∧
      e.lsn = σ.disk.masterRecord.getD 0 + LogRecord.headerSize ∧
      e.body = .endCheckpoint att dpt ∧ (∀ r ∈ σ.disk.afterCheckpoint, σ.disk.Readable r) ∧
      σ' = analyzed σ (σ.disk.afterCheckpoint.foldl AnalyzeState.step ⟨att, dpt, 0⟩) := by
  obtain ⟨e, hmem, lsn, att, dpt, s, hlsn, hle, hoffset, hbody, hloop, rfl⟩ := analyze_run run
  have helsn : e.lsn = lsn := by
    have hlt := Nat.lt_trans (tiles.pos_lt LogRecord.getSize_pos hmem) small
    rwa [logOffset_of_lt hlt, logOffset_of_lt (Nat.lt_of_le_of_lt hle small)] at hoffset
  subst helsn
  obtain ⟨before, after, hlog⟩ := List.append_of_mem hmem
  have hafter := Disk.afterCheckpoint_of_end tiles hlog hlsn
  subst hafter
  have range : LogTiles e.endLsn σ.disk.afterCheckpoint σ.disk.logEnd := by
    have htiles := hlog ▸ tiles
    obtain ⟨_, -, hepos, hrest⟩ := Tiles.append_iff.mp htiles
    rwa [← hepos] at hrest
  have hsub : ∀ r ∈ σ.disk.afterCheckpoint, r ∈ σ.disk.log := fun r hr =>
    List.mem_of_mem_filter hr
  have readable := readable_of_analyzeLoop (σ := analyzeStart σ) tiles small hsub range hloop
  have hscan : analyzeLoop σ.disk.logEnd e.endLsn ⟨att, dpt, 0⟩ (analyzeStart σ) =
      .ok (σ.disk.afterCheckpoint.foldl AnalyzeState.step ⟨att, dpt, 0⟩) (analyzeStart σ) :=
    analyzeLoop_of_readable (σ := analyzeStart σ) tiles small hsub readable range
      (Nat.le_add_left _ _) _
  cases hscan.symm.trans hloop
  exact ⟨before, e, att, dpt, hlog, hlsn, hbody, readable, rfl⟩

end LogManager

/-- The parts of the disk that `Analyze` reads. -/
structure Disk.SameLog (disk disk' : Disk) : Prop where
  log : disk.log = disk'.log
  logFileSize : disk.logFileSize = disk'.logFileSize
  nextLsnFile : disk.nextLsnFile = disk'.nextLsnFile
  masterRecord : disk.masterRecord = disk'.masterRecord

theorem scanXid_foldl_isSome (xid : Nat) {l : List LogRecord}
    (active : ∀ r ∈ l, r.xid = xid → ¬ r.ends) {r : LogRecord} (hr : r ∈ l) (hxid : r.xid = xid)
    (lsn? : Option Nat) : (l.foldl (scanXid xid) lsn?).isSome := by
  have keeps (l : List LogRecord) (active : ∀ r ∈ l, r.xid = xid → ¬ r.ends) (lsn : Nat) :
      (l.foldl (scanXid xid) (some lsn)).isSome := by
    induction l generalizing lsn with
    | nil => rfl
    | cons r l ih =>
        have hr := active r List.mem_cons_self
        have hl := ih fun r' hr' => active r' (List.mem_cons_of_mem _ hr')
        rw [List.foldl_cons, scanXid]
        split
        · rw [if_neg (hr ‹_›)]
          exact hl _
        · exact hl _
  obtain ⟨l₁, l₂, rfl⟩ := List.append_of_mem hr
  rw [List.foldl_append, List.foldl_cons, scanXid, if_pos hxid, if_neg (active r hr hxid)]
  exact keeps l₂ (fun r' hr' => active r' (by simp [hr'])) _

theorem LogRecord.not_ends_of_isCheckpoint {r : LogRecord} (h : r.isCheckpoint) : ¬ r.ends := by
  simp only [isCheckpoint, ends, decide_eq_true_eq] at h ⊢
  rcases h with h | h <;> simp [h]

theorem LogRecord.not_changes_of_isCheckpoint {r : LogRecord} (h : r.isCheckpoint)
    (key : TablePageid) : ¬ r.changes key := by
  simp only [isCheckpoint, changes, decide_eq_true_eq] at h ⊢
  rcases h with h | h <;> simp [h]

section AnalyzeExact

variable {σ τ : Engine} {stored : Stored} {before after : List LogRecord} {b e : LogRecord}
  {att : Att} {dpt : Dpt}

/-- The scan after the checkpoint completes the saved transaction table, unless a
checkpoint record stands in its way. -/
theorem LogRunOk.att_scan (inv : LogRunOk σ stored)
    (hlog : σ.disk.log = before ++ b :: e :: after) (hb : b.isCheckpoint) (he : e.isCheckpoint)
    (hatt : ∀ xid, att.find? xid = activeLsn? before xid)
    (hafter : ∀ r ∈ after, ¬ r.isCheckpoint) (xid : Nat) :
    after.foldl (scanXid xid) (att.find? xid) = activeLsn? σ.disk.log xid := by
  have hmem : ∀ r ∈ σ.disk.log, r ∈ σ.appended := fun r hr => List.mem_append_left _ hr
  have hnull {r : LogRecord} (hr : r ∈ σ.disk.log) : r.xid = nullXid ↔ r.isCheckpoint :=
    inv.xids r (hmem r hr)
  have hbxid : b.xid = nullXid := (hnull (by simp [hlog])).mpr hb
  have hexid : e.xid = nullXid := (hnull (by simp [hlog])).mpr he
  by_cases hxid : xid = nullXid
  · subst hxid
    rw [hatt, activeLsn?_nullXid, activeLsn?_nullXid]
    exact scanXid_foldl_of_forall_ne
      (fun r hr hr' => hafter r hr ((hnull (by simp [hlog, hr])).mp hr')) none
  · have hends : EndsLast σ.disk.log := (List.pairwise_append.mp inv.ends).1
    have hbefore : EndsLast before := by
      rw [hlog] at hends
      exact (List.pairwise_append.mp hends).1
    rw [← scanXid_foldl_eq_activeLsn? hends hxid, hatt,
      ← scanXid_foldl_eq_activeLsn? hbefore hxid, hlog, List.foldl_append, List.foldl_cons,
      List.foldl_cons, scanXid, scanXid, if_neg (hexid ▸ Ne.symm hxid),
      if_neg (hbxid ▸ Ne.symm hxid)]

/-- The scan after the checkpoint completes the saved dirty page table. -/
theorem LogRunOk.dpt_scan (inv : LogRunOk σ stored)
    (hlog : σ.disk.log = before ++ b :: e :: after) (hb : b.isCheckpoint) (he : e.isCheckpoint)
    (hdpt : ∀ key recLsn, dpt.find? key = some recLsn → recLsn ≤ b.lsn)
    (hcovers : DptCovers dpt before stored) :
    DptCovers (after.foldl LogManager.AnalyzeState.step ⟨att, dpt, 0⟩).dpt σ.disk.log stored := by
  have tiles := inv.log.disk
  rw [hlog] at tiles ⊢
  obtain ⟨_, -, hbpos, hepos, hafter⟩ := Tiles.append_iff.mp tiles
  have hlow (key : TablePageid) (recLsn : Nat) (hfind : dpt.find? key = some recLsn) :
      recLsn ≤ b.lsn + b.getSize + e.getSize := by
    have := hdpt key recLsn hfind
    omega
  rw [hbpos] at hlow
  intro r hr key hchanges hstored
  simp only [List.mem_append, List.mem_cons] at hr
  rcases hr with hr | rfl | rfl | hr
  · obtain ⟨recLsn, hle, hfind⟩ := hcovers r hr key hchanges hstored
    exact ⟨recLsn, hle, AnalyzeState.find?_dpt_foldl hfind after⟩
  · exact absurd hchanges (LogRecord.not_changes_of_isCheckpoint hb key)
  · exact absurd hchanges (LogRecord.not_changes_of_isCheckpoint he key)
  · have hpage : r.page? = some key := by
      simp only [LogRecord.changes, decide_eq_true_eq] at hchanges
      exact hchanges.2
    exact AnalyzeState.find?_dpt_foldl_of_mem hafter hlow hr hpage

end AnalyzeExact

/-- **`Analyze` after one uninterrupted run.** With a completed checkpoint, on a
log below 4 GiB whose records each fit a segment, `Analyze` is exact for
transactions and conservative for pages if and only if no record of another
checkpoint follows, and the `MAX_LOG_SIZE` bytes it reads for each record that
follows lie within the log file. -/
theorem analyze_exact_iff {σ τ : Engine} {stored : Stored} {checkpointLsn : Nat}
    (run : LogRun σ stored) (master : σ.disk.masterRecord = some checkpointLsn)
    (small : σ.disk.logEnd < 2 ^ 32) (fits : ∀ r ∈ σ.disk.log, r.getSize ≤ logSegmentSize)
    (same : τ.disk.SameLog σ.disk) :
    AnalyzeExact σ.disk stored τ ↔
      ∀ r ∈ σ.disk.afterCheckpoint,
        ¬ r.isCheckpoint ∧ r.lsn + maxLogSize ≤ σ.disk.logFileSize := by
  have inv := run.inv
  obtain ⟨before, b, e, after, att, dpt, hlog, hblsn, hb, he, hatt, hdpt, hcovers⟩ :=
    inv.master checkpointLsn master
  have hend : τ.disk.logEnd = σ.disk.logEnd := by
    rw [Disk.logEnd, Disk.logEnd, same.nextLsnFile]
  have hmasterσ : σ.disk.masterRecord.getD 0 = b.lsn := by rw [master, ← hblsn]; rfl
  have tilesσ := inv.log.disk
  have tiles : LogTiles 0 τ.disk.log τ.disk.logEnd := by
    rw [same.log, hend]
    exact tilesσ
  have hlogτ : τ.disk.log = before ++ b :: e :: after := same.log.trans hlog
  have hmaster : τ.disk.masterRecord.getD 0 = b.lsn := by rw [same.masterRecord, hmasterσ]
  have hsmall : τ.disk.logEnd < 2 ^ 32 := hend ▸ small
  have hsize : τ.disk.logEnd ≤ τ.disk.logFileSize := by
    rw [hend, same.logFileSize]
    exact (inv.log.covers fits small).2
  have hafter : LogTiles e.endLsn after τ.disk.logEnd := by
    rw [hlogτ] at tiles
    obtain ⟨_, -, hbpos, hepos, hafter⟩ := Tiles.append_iff.mp tiles
    rwa [← hepos] at hafter
  have hmem : ∀ r ∈ after, r ∈ τ.disk.log := fun r hr => by simp [hlogτ, hr]
  have hb' : b.isCheckpoint := by simp [LogRecord.isCheckpoint, LogRecord.getType, hb, LogBody.getType]
  have he' : e.isCheckpoint := by simp [LogRecord.isCheckpoint, LogRecord.getType, he, LogBody.getType]
  rw [Disk.afterCheckpoint_eq tilesσ hlog hmasterσ hb, AnalyzeExact,
    LogManager.analyze_of_checkpoint tiles hsmall hsize hlogτ hmaster hb he]
  -- what the scan returns when it returns
  have hscan (readable : ∀ r ∈ after, τ.disk.Readable r) :
      LogManager.analyzeLoop τ.disk.logEnd e.endLsn ⟨att, dpt, 0⟩ (LogManager.analyzeStart τ) =
        .ok (after.foldl LogManager.AnalyzeState.step ⟨att, dpt, 0⟩)
          (LogManager.analyzeStart τ) :=
    LogManager.analyzeLoop_of_readable (σ := LogManager.analyzeStart τ) tiles hsmall hmem readable
      hafter (Nat.le_add_left _ _) _
  constructor
  · rintro ⟨τ', hrun, -, hattτ, -⟩
    obtain ⟨s, τ₁, hloop, hset⟩ := EStateM.bind_eq_ok_iff.mp hrun
    have readable : ∀ r ∈ after, τ.disk.Readable r :=
      LogManager.readable_of_analyzeLoop (σ := LogManager.analyzeStart τ) tiles hsmall hmem hafter
        hloop
    rw [hscan readable] at hloop
    cases hloop
    cases EStateM.modify_eq_ok_iff.mp hset
    refine fun r hr => ⟨fun hcheckpoint => ?_, same.logFileSize ▸ (readable r hr).2⟩
    -- a checkpoint record enters `NULL_XID`, which nothing removes
    have hnull {r : LogRecord} (hr : r ∈ after) : r.xid = nullXid ↔ r.isCheckpoint :=
      inv.xids r (List.mem_append_left _ (same.log ▸ hmem r hr))
    have hsome := scanXid_foldl_isSome nullXid
      (fun r' hr' hxid => LogRecord.not_ends_of_isCheckpoint ((hnull hr').mp hxid)) hr
      ((hnull hr).mpr hcheckpoint) (att.find? nullXid)
    rw [← AnalyzeState.find?_att_foldl ⟨att, dpt, 0⟩] at hsome
    have hnone := hattτ nullXid
    rw [activeLsn?_nullXid] at hnone
    rw [show Assoc.find? nullXid (after.foldl LogManager.AnalyzeState.step ⟨att, dpt, 0⟩).att = none
      from hnone] at hsome
    cases hsome
  · intro hcond
    have readable : ∀ r ∈ after, τ.disk.Readable r := fun r hr =>
      ⟨inv.sizes r (List.mem_append_left _ (same.log ▸ hmem r hr)) (hcond r hr).1,
        same.logFileSize ▸ (hcond r hr).2⟩
    refine ⟨_, by rw [EStateM.bind_of_ok (hscan readable)]; rfl, ?_, fun xid => ?_, ?_⟩
    · change LogTiles 0 σ.disk.log τ.disk.logEnd
      rw [hend]
      exact tilesσ
    · change Assoc.find? xid (after.foldl LogManager.AnalyzeState.step ⟨att, dpt, 0⟩).att = _
      rw [AnalyzeState.find?_att_foldl]
      exact inv.att_scan hlog hb' he' hatt (fun r hr => (hcond r hr).1) xid
    · exact inv.dpt_scan hlog hb' he' (hblsn ▸ hdpt) hcovers

/-- A change, its page written back, a checkpoint, another change, a commit. -/
def commitAfterCheckpoint : List LogOp :=
  [.begin 1, .insert 1 10001 0 0 226 30 { data := [] }, .flushPage ⟨10001, 0⟩ 13, .checkpoint,
    .delete 1 10001 0 0, .commit 1]

theorem analyze_exact_iff_commitAfterCheckpoint :
    let run := LogRun.first commitAfterCheckpoint
    AnalyzeExact run.1.disk run.2 (.ofDisk run.1.disk) :=
  (analyze_exact_iff (LogRun.start.of_serves commitAfterCheckpoint (by decide +kernel))
    rfl (by decide +kernel) (by decide +kernel) ⟨rfl, rfl, rfl, rfl⟩).mpr (by decide +kernel)

/-- The crash comes before the master record of the second checkpoint is written. -/
def tornSecondCheckpoint : List LogOp := [.checkpoint, .begin 1, .tornCheckpoint]

/-- `NULL_XID` then counts as an active transaction. -/
theorem not_analyzeExact_tornSecondCheckpoint :
    let run := LogRun.first tornSecondCheckpoint
    LogRun run.1 run.2 ∧ run.1.disk.masterRecord = some 0 ∧
      ¬ AnalyzeExact run.1.disk run.2 (.ofDisk run.1.disk) := by
  refine ⟨LogRun.start.of_serves tornSecondCheckpoint (by decide +kernel), rfl, ?_⟩
  rintro ⟨τ, hrun, -, hatt, -⟩
  have hnull :
      (match LogManager.analyze (.ofDisk (LogRun.first tornSecondCheckpoint).1.disk) with
        | .ok _ τ => τ.log.att.find? nullXid
        | .error _ _ => none) = some 68 := by
    decide +kernel
  rw [hrun] at hnull
  simp only [hatt, activeLsn?_nullXid] at hnull
  cases hnull

end HuaDB
