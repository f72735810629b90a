import HuaDB.Analyze
import HuaDB.CatalogRel
import HuaDB.DatabaseEngine
import HuaDB.PageXids
import HuaDB.UndoRedo

/-!
Transaction ids over whole histories: when `TransactionManager::Begin` can hand
out an id that a log record or a page still names.

The counter is above every id of the log (`XidCore.fresh`), and every id on a
page is one of the log (`flushedXids`). Running transactions keeps this. After a
crash the counter is what the control file and the records behind the last
checkpoint make of it, so the invariant survives exactly when no flushed record
before the checkpoint names an id above both.
-/

namespace HuaDB

open EStateM (RunsFrom)

/-! ## The invariant -/

/-- An `InsertLog` carries its record as the transaction stamped it. -/
def LogRecord.Stamped (r : LogRecord) : Prop :=
  match r.body with
  | .insert _ _ _ _ _ record => record.header.xmin = r.xid ∧ record.header.xmax = nullXid
  | _ => True

/-- What the log of a run says about its own ids; prefixes inherit it. -/
structure XidRecords (log : List LogRecord) : Prop where
  stamped : ∀ r ∈ log, r.Stamped
  checkpoints : ∀ before e after att dpt, log = before ++ e :: after →
    e.body = .endCheckpoint att dpt → ∀ xid ∈ att.keys, XidIn before xid

/-- The invariant, pages apart. -/
structure XidCore (σ : Engine) : Prop where
  log : LogOk σ
  control : ∃ control, σ.disk.control = some control ∧ control.normalShutdown = false ∧
    ddlXid < control.nextXid ∧ control.nextXid < 2 ^ 32
  init : σ.disk.init = true
  pos : ddlXid < σ.txn.nextXid
  lt : σ.txn.nextXid < 2 ^ 32
  fresh : ∀ r ∈ σ.appended, r.xid ≠ nullXid → r.xid < σ.txn.nextXid
  ne : ∀ r ∈ σ.appended, r.xid ≠ ddlXid
  records : XidRecords σ.appended
  att : ∀ xid ∈ σ.log.att.keys, XidIn σ.appended xid
  opened : ∀ xid ∈ σ.txn.xid2cid.keys, XidIn σ.appended xid

/-- The pages between operations. -/
abbrev FlushedXids : Engine → Prop :=
  PagesOk (fun σ entry => entry.page.XidsIn (σ.flushedUpTo entry.page.pageLsn))
    fun σ _ _ page => page.XidsIn σ.disk.log

/-- The pages at all times. -/
abbrev AppendedXids : Engine → Prop :=
  PagesOk (fun σ entry => entry.page.XidsIn σ.appended) fun σ _ _ page => page.XidsIn σ.appended

/-- The invariant between operations. -/
structure XidsOk (σ : Engine) : Prop where
  core : XidCore σ
  pages : FlushedXids σ

theorem FlushedXids.appended {σ : Engine} (pages : FlushedXids σ) : AppendedXids σ where
  frames entry hmem := (pages.frames entry hmem).mono (σ.flushedUpTo_subset_appended _)
  images path file hfile pageId :=
    (pages.images path file hfile pageId).mono (List.subset_append_left _ _)

/-- With nothing buffered every id is that of a flushed record. -/
theorem AppendedXids.flushed {σ : Engine} (pages : AppendedXids σ) (hempty : σ.log.logBuffer = []) :
    FlushedXids σ := by
  have happ : σ.appended = σ.disk.log := by rw [Engine.appended, hempty, List.append_nil]
  refine ⟨fun entry hmem => ?_, fun path file hfile pageId => ?_⟩
  · refine (pages.frames entry hmem).mono ?_
    rw [happ]
    exact List.subset_append_left _ _
  · exact happ ▸ pages.images path file hfile pageId

theorem XidRecords.of_prefix {log rest : List LogRecord} (ok : XidRecords (log ++ rest)) :
    XidRecords log where
  stamped r hr := ok.stamped r (List.mem_append_left _ hr)
  checkpoints before e after att dpt hlog :=
    ok.checkpoints before e (after ++ rest) att dpt (by simp [hlog])

/-- Appending a record that keeps what the log says. -/
theorem XidRecords.concat {log : List LogRecord} (ok : XidRecords log) {r : LogRecord}
    (hstamped : r.Stamped)
    (hcheckpoint : ∀ att dpt, r.body = .endCheckpoint att dpt → ∀ xid ∈ att.keys, XidIn log xid) :
    XidRecords (log ++ [r]) where
  stamped := List.forall_mem_append.mpr ⟨ok.stamped, List.forall_mem_singleton.mpr hstamped⟩
  checkpoints before e after att dpt hlog he := by
    rcases List.eq_nil_or_concat after with rfl | ⟨after', r', rfl⟩
    · obtain ⟨rfl, h⟩ := List.append_inj' hlog rfl
      cases h
      exact hcheckpoint att dpt he
    · rw [List.concat_eq_append, ← List.cons_append, ← List.append_assoc] at hlog
      obtain ⟨rfl, -⟩ := List.append_inj' hlog rfl
      exact ok.checkpoints before e after' att dpt rfl he

/-! ## What keeps the invariant -/

/-- What the buffer pool leaves alone. -/
structure SameXids (σ σ' : Engine) : Prop where
  log : LogOk σ → LogOk σ' ∧ σ'.appended = σ.appended
  empty : σ.log.logBuffer = [] → σ'.log.logBuffer = []
  txn : σ'.txn = σ.txn
  control : σ'.disk.control = σ.disk.control
  init : σ'.disk.init = σ.disk.init
  att : σ'.log.att = σ.log.att

namespace SameXids

theorem refl (σ : Engine) : SameXids σ σ := ⟨fun ok => ⟨ok, rfl⟩, id, rfl, rfl, rfl, rfl⟩

theorem trans (σ₁ σ₂ σ₃ : Engine) (h : SameXids σ₁ σ₂) (h' : SameXids σ₂ σ₃) : SameXids σ₁ σ₃ where
  log ok := ⟨(h'.log (h.log ok).1).1, (h'.log (h.log ok).1).2.trans (h.log ok).2⟩
  empty := h'.empty ∘ h.empty
  txn := h'.txn.trans h.txn
  control := h'.control.trans h.control
  init := h'.init.trans h.init
  att := h'.att.trans h.att

/-- A state with the same log, counters and control file. -/
theorem of_eq {σ σ' : Engine} (hlog : σ'.disk.log = σ.disk.log)
    (hnext : σ'.disk.nextLsnFile = σ.disk.nextLsnFile)
    (hsegments : σ'.disk.logSegments = σ.disk.logSegments)
    (hsize : σ'.disk.logFileSize = σ.disk.logFileSize)
    (hbuffer : σ'.log.logBuffer = σ.log.logBuffer) (hlsn : σ'.log.nextLsn = σ.log.nextLsn)
    (hflushed : σ'.log.flushedLsn = σ.log.flushedLsn) (htxn : σ'.txn = σ.txn)
    (hcontrol : σ'.disk.control = σ.disk.control) (hinit : σ'.disk.init = σ.disk.init)
    (hatt : σ'.log.att = σ.log.att) : SameXids σ σ' where
  log ok := ⟨ok.of_log_eq hlog hnext hsegments hsize hbuffer hlsn hflushed, by
    rw [Engine.appended, hlog, hbuffer]; rfl⟩
  empty h := hbuffer.trans h
  txn := htxn
  control := hcontrol
  init := hinit
  att := hatt

theorem catalog (σ : Engine) (catalog : SystemCatalog) :
    SameXids σ { σ with catalog := catalog } :=
  .of_eq rfl rfl rfl rfl rfl rfl rfl rfl rfl rfl rfl

theorem files (σ : Engine) (files : FilePath → Option DataFile) :
    SameXids σ { σ with disk := { σ.disk with files := files } } :=
  .of_eq rfl rfl rfl rfl rfl rfl rfl rfl rfl rfl rfl

theorem systemRows (σ : Engine) (rows : SystemRows) :
    SameXids σ { σ with disk := { σ.disk with systemRows := rows } } :=
  .of_eq rfl rfl rfl rfl rfl rfl rfl rfl rfl rfl rfl

theorem masterRecord (σ : Engine) (lsn : Nat) :
    SameXids σ { σ with disk := { σ.disk with masterRecord := some lsn } } :=
  .of_eq rfl rfl rfl rfl rfl rfl rfl rfl rfl rfl rfl

theorem flushLog (σ : Engine) (lsn : Nat) : SameXids σ (σ.flushLog lsn) where
  log ok := ⟨ok.flushLog lsn, ok.appended_flushLog lsn⟩
  empty h := by simp [h]
  txn := σ.flushLog_txn lsn
  control := σ.flushLog_control lsn
  init := σ.flushLog_init lsn
  att := σ.flushLog_att lsn

theorem poolRel : PoolRel SameXids :=
  .of_effects refl trans (fun _ _ => .of_eq rfl rfl rfl rfl rfl rfl rfl rfl rfl rfl rfl) flushLog
    (fun _ _ => .of_eq rfl rfl rfl rfl rfl rfl rfl rfl rfl rfl rfl)
    fun σ path pageId page _ => by
      obtain ⟨files, heq⟩ := σ.disk.writePage_eq path pageId page
      rw [heq]
      exact .of_eq rfl rfl rfl rfl rfl rfl rfl rfl rfl rfl rfl

/-- The invariant, pages apart, is kept. -/
theorem core {σ σ' : Engine} (same : SameXids σ σ') (ok : XidCore σ) : XidCore σ' := by
  obtain ⟨hlog, happ⟩ := same.log ok.log
  exact {
    log := hlog
    control := same.control ▸ ok.control
    init := same.init ▸ ok.init
    pos := same.txn ▸ ok.pos
    lt := same.txn ▸ ok.lt
    ne := happ ▸ ok.ne
    fresh := by rw [happ, same.txn]; exact ok.fresh
    records := happ ▸ ok.records
    att := by rw [happ, same.att]; exact ok.att
    opened := by rw [happ, same.txn]; exact ok.opened }

end SameXids

namespace XidCore

variable {σ : Engine}

/-- An id the log knows is null or below the counter. -/
theorem lt_of_xidIn (ok : XidCore σ) {xid : Nat} (h : XidIn σ.appended xid) (hnull : xid ≠ nullXid) :
    xid < σ.txn.nextXid := by
  rcases h with h | ⟨r, hr, rfl⟩
  · exact absurd h hnull
  · exact ok.fresh r hr hnull

theorem ne_of_xidIn (ok : XidCore σ) {xid : Nat} (h : XidIn σ.appended xid) : xid ≠ ddlXid := by
  rcases h with rfl | ⟨r, hr, rfl⟩
  · decide
  · exact ok.ne r hr

theorem find?_ddlXid (ok : XidCore σ) : σ.log.att.find? ddlXid = none :=
  Assoc.find?_eq_none_iff.mpr fun hmem => ok.ne_of_xidIn (ok.att _ hmem) rfl

/-- Appending a record, with tables and a counter that account for it. -/
theorem append (ok : XidCore σ) {xid prevLsn : Nat} {body : LogBody} {att : Att} {dpt : Dpt}
    {txn : TransactionManager} (hnext : σ.txn.nextXid ≤ txn.nextXid) (hlt : txn.nextXid < 2 ^ 32)
    (hxid : xid ≠ nullXid → xid < txn.nextXid) (hne : xid ≠ ddlXid)
    (hstamped : (σ.nextRecord xid prevLsn body).Stamped)
    (hcheckpoint : ∀ att' dpt', body = .endCheckpoint att' dpt' →
      ∀ x ∈ att'.keys, XidIn σ.appended x)
    (hatt : ∀ x ∈ att.keys, x = xid ∨ x ∈ σ.log.att.keys)
    (hopened : ∀ x ∈ txn.xid2cid.keys, x = xid ∨ x ∈ σ.txn.xid2cid.keys) :
    XidCore { σ.appendedWith xid prevLsn body att dpt with txn := txn } := by
  have happ : ({ σ.appendedWith xid prevLsn body att dpt with txn := txn } : Engine).appended =
      σ.appended ++ [σ.nextRecord xid prevLsn body] := σ.appended_appendedWith _ _ _ _ _
  have hold {x : Nat} (h : XidIn σ.appended x) :
      XidIn (σ.appended ++ [σ.nextRecord xid prevLsn body]) x :=
    h.mono (List.subset_append_left _ _)
  have hnew : XidIn (σ.appended ++ [σ.nextRecord xid prevLsn body]) xid :=
    .inr ⟨σ.nextRecord xid prevLsn body, by simp, rfl⟩
  refine { log := (ok.log.push xid prevLsn body att dpt).of_log_eq rfl rfl rfl rfl rfl rfl rfl,
           control := ok.control, init := ok.init, pos := Nat.lt_of_lt_of_le ok.pos hnext, lt := hlt,
           fresh := ?_, ne := ?_, records := ?_, att := ?_, opened := ?_ }
  · rw [happ]
    refine List.forall_mem_append.mpr ⟨fun r hr hnull => ?_, List.forall_mem_singleton.mpr hxid⟩
    exact Nat.lt_of_lt_of_le (ok.fresh r hr hnull) hnext
  · rw [happ]
    exact List.forall_mem_append.mpr ⟨ok.ne, List.forall_mem_singleton.mpr hne⟩
  · exact happ ▸ ok.records.concat hstamped hcheckpoint
  · intro x hx
    rw [happ]
    rcases hatt x hx with rfl | hx
    · exact hnew
    · exact hold (ok.att x hx)
  · intro x hx
    rw [happ]
    rcases hopened x hx with rfl | hx
    · exact hnew
    · exact hold (ok.opened x hx)

/-- The transaction of `att_` that appends a record of its own. -/
theorem appendChained (ok : XidCore σ) {xid lastLsn prevLsn : Nat} {body : LogBody} {dpt : Dpt}
    (hlast : σ.log.att.find? xid = some lastLsn)
    (hstamped : (σ.nextRecord xid prevLsn body).Stamped)
    (hbody : body.getType ≠ .endCheckpoint) :
    XidCore (σ.appendedWith xid prevLsn body (σ.log.att.insert xid σ.log.nextLsn) dpt) := by
  have hmem : xid ∈ σ.log.att.keys := Assoc.mem_keys_iff.mpr (by simp [hlast])
  refine ok.append (Nat.le_refl _) ok.lt (ok.lt_of_xidIn (ok.att xid hmem))
    (ok.ne_of_xidIn (ok.att xid hmem)) hstamped (fun att dpt h => absurd (congrArg LogBody.getType h) hbody)
    (fun x hx => ?_) fun x hx => .inr hx
  rw [Assoc.keys_insert, if_pos hmem] at hx
  exact .inr hx

end XidCore

/-- Records appended leave the pages alone. -/
theorem FlushedXids.of_subset {σ σ' : Engine} (pages : FlushedXids σ)
    (hlog : σ'.disk.log = σ.disk.log) (hbuffer : σ.log.logBuffer ⊆ σ'.log.logBuffer)
    (hfiles : σ'.disk.files = σ.disk.files)
    (hframes : ∀ entry ∈ σ'.pool.buffers, entry ∈ σ.pool.buffers ∨
      entry.page.XidsIn (σ'.flushedUpTo entry.page.pageLsn)) : FlushedXids σ' where
  frames entry hmem := by
    rcases hframes entry hmem with hold | hnew
    · refine (pages.frames entry hold).mono fun r hr => ?_
      rw [Engine.mem_flushedUpTo] at hr ⊢
      rw [hlog]
      exact hr.imp_right fun ⟨hbuf, hle⟩ => ⟨hbuffer hbuf, hle⟩
    · exact hnew
  images path file hfile pageId := hlog ▸ pages.images path file (hfiles ▸ hfile) pageId

namespace XidsOk

variable {σ σ' : Engine}

/-- What the pool does by itself. -/
theorem getPage (ok : XidsOk σ) {dbOid tableOid pageId frame : Nat}
    (run : BufferPool.getPage dbOid tableOid pageId σ = .ok frame σ') : XidsOk σ' :=
  ⟨(SameXids.poolRel.getPage _ _ _ σ σ' frame run).core ok.core, flushedXids.getPage ok.pages run⟩

theorem newPage (ok : XidsOk σ) {dbOid tableOid pageId frame : Nat}
    (run : BufferPool.newPage dbOid tableOid pageId σ = .ok frame σ') : XidsOk σ' :=
  ⟨(SameXids.poolRel.newPage _ _ _ σ σ' frame run).core ok.core, flushedXids.newPage ok.pages run⟩

theorem setNextPageId (ok : XidsOk σ) {frame pageId : Nat}
    (run : BufferPool.modifyPage frame (fun p => p.setNextPageId pageId) σ = .ok () σ') :
    XidsOk σ' :=
  ⟨(SameXids.poolRel.modifyPage _ _ σ σ' () run).core ok.core,
    flushedXids.modifyPage ok.pages (fun _ h => h) run⟩

theorem catalog (ok : XidsOk σ) (catalog : SystemCatalog) :
    XidsOk { σ with catalog := catalog } :=
  ⟨(SameXids.catalog σ catalog).core ok.core,
    flushedXids.congr ok.pages rfl rfl rfl fun _ hmem => .inl hmem⟩

theorem findRoom (ok : XidsOk σ) {dbOid oid size fuel lastPageId nextPageId : Nat}
    {found : Option Nat × Nat}
    (run : Table.findRoom dbOid oid size fuel lastPageId nextPageId σ = .ok found σ') :
    XidsOk σ' :=
  ⟨(SameXids.poolRel.findRoom _ _ _ _ _ _ σ σ' found run).core ok.core,
    flushedXids.findRoom (fun _ h => h) ok.pages run⟩

/-- A record of an active transaction. -/
theorem appendChained (ok : XidsOk σ) {xid lastLsn prevLsn : Nat} {body : LogBody} {dpt : Dpt}
    (hlast : σ.log.att.find? xid = some lastLsn)
    (hstamped : (σ.nextRecord xid prevLsn body).Stamped)
    (hbody : body.getType ≠ .endCheckpoint) :
    XidsOk (σ.appendedWith xid prevLsn body (σ.log.att.insert xid σ.log.nextLsn) dpt) :=
  ⟨ok.core.appendChained hlast hstamped hbody,
    ok.pages.of_subset rfl (List.subset_append_left _ _) rfl fun _ hmem => .inl hmem⟩

/-- A record of an active transaction, with the change of the page it describes. -/
theorem appendOnPage (ok : XidsOk σ) {xid prevLsn frame : Nat} {body : LogBody} {dpt : Dpt}
    {entry : BufferPoolEntry} {page : TablePage} (hentry : σ.pool.buffers[frame]? = some entry)
    (hprev : σ.log.att.find? xid = some prevLsn)
    (hstamped : (σ.nextRecord xid prevLsn body).Stamped)
    (hbody : body.getType ≠ .endCheckpoint)
    (hpage : ∀ log, entry.page.XidsIn log → XidIn log xid → page.XidsIn log) :
    XidsOk { σ.appendedWith xid prevLsn body (σ.log.att.insert xid σ.log.nextLsn) dpt with
      pool := σ.pool.withPage frame (page.setPageLsn σ.log.nextLsn) } := by
  have logged : XidsOk
      (σ.appendedWith xid prevLsn body (σ.log.att.insert xid σ.log.nextLsn) dpt) :=
    ok.appendChained hprev hstamped hbody
  refine ⟨(SameXids.poolRel.pool _ _).core logged.core,
    logged.pages.of_subset rfl (List.Subset.refl _) rfl fun e hmem => ?_⟩
  refine (BufferPool.mem_withPage hmem).imp_right ?_
  rintro ⟨entry', hentry', rfl⟩
  cases hentry.symm.trans hentry'
  -- every record appended so far lies below the new LSN of the page
  have hall : σ.appended ++ [σ.nextRecord xid prevLsn body] ⊆
      Engine.flushedUpTo (σ.appendedWith xid prevLsn body (σ.log.att.insert xid σ.log.nextLsn) dpt)
        σ.log.nextLsn := by
    intro r hr
    rw [Engine.mem_flushedUpTo]
    rw [List.mem_append, Engine.mem_appended, List.mem_singleton] at hr
    rcases hr with (hr | hr) | rfl
    · exact .inl hr
    · have hlt := ok.core.log.buffer.pos_lt LogRecord.getSize_pos hr
      exact .inr ⟨List.mem_append_left _ hr, Nat.le_of_lt hlt⟩
    · exact .inr ⟨List.mem_append_right _ (List.mem_singleton_self _), Nat.le_refl _⟩
  refine hpage _ ((ok.pages.appended.frames entry (List.mem_of_getElem? hentry)).mono ?_) ?_
  · exact fun r hr => hall (List.mem_append_left _ hr)
  · exact .inr ⟨σ.nextRecord xid prevLsn body, hall (by simp), rfl⟩

theorem insertInto (ok : XidsOk σ) {oid pageId frame xid cid : Nat} {data : List UInt8} {rid : Rid}
    (run : Table.insertInto oid pageId frame { data := data } xid cid σ = .ok rid σ') :
    XidsOk σ' := by
  obtain ⟨entry, prevLsn, hentry, hprev, -, rfl⟩ := Table.insertInto_eq_ok run
  exact ok.appendOnPage hentry hprev ⟨rfl, rfl⟩ LogType.noConfusion
    fun _ hpage hxid => hpage.insertRecord hxid

theorem insertIntoNewPage (ok : XidsOk σ) {oid prevPageId pageId frame xid cid : Nat}
    {data : List UInt8} {rid : Rid}
    (run : Table.insertIntoNewPage oid prevPageId pageId frame { data := data } xid cid σ =
      .ok rid σ') : XidsOk σ' := by
  obtain ⟨entry, lastLsn, hentry, hlast, -, rfl⟩ :=
    Table.insertIntoNewPage_eq_ok ok.core.find?_ddlXid run
  have created : XidsOk (σ.appendedWith xid (lastLsn % 2 ^ 32) (.newPage oid prevPageId pageId)
      (σ.log.att.insert xid σ.log.nextLsn)
      (LogManager.dptNewPage σ.log.dpt oid prevPageId pageId σ.log.nextLsn)) :=
    ok.appendChained hlast trivial LogType.noConfusion
  refine created.appendOnPage hentry (Assoc.find?_insert_self _ _ _) ⟨rfl, rfl⟩
    LogType.noConfusion fun log hpage hxid => ?_
  exact hpage.init.insertRecord hxid

theorem insertRecord (ok : XidsOk σ) {oid xid cid : Nat} {data : List UInt8} {rid : Rid}
    (run : Table.insertRecord oid { data := data } xid cid σ = .ok rid σ') : XidsOk σ' := by
  obtain ⟨table, -, -, ⟨-, frame, σ₁, hnew, hinsert⟩ | ⟨-, first, σ₁, entry, hget, -, h⟩⟩ :=
    Table.insertRecord_eq_ok run
  · exact ((ok.newPage hnew).catalog _).insertIntoNewPage hinsert
  have ok₁ := ok.getPage hget
  rcases h with ⟨-, hinsert⟩ | ⟨-, found, σ₂, hfind, ⟨frame, -, hinsert⟩ | ⟨-, frame, σ₃, σ₄, h⟩⟩
  · exact ok₁.insertInto hinsert
  · exact (ok₁.findRoom hfind).insertInto hinsert
  · obtain ⟨hlink, hnew, hinsert⟩ := h
    have ok₃ : XidsOk σ₃ := by
      rcases hlink with ⟨-, hlink⟩ | ⟨-, rfl⟩
      · exact (ok₁.findRoom hfind).setNextPageId hlink
      · exact ok₁.findRoom hfind
    exact (ok₃.newPage hnew).insertIntoNewPage hinsert

theorem deleteRecord (ok : XidsOk σ) {oid xid : Nat} {rid : Rid}
    (run : Table.deleteRecord oid rid xid σ = .ok () σ') : XidsOk σ' := by
  obtain ⟨table, frame, σ₁, entry, page, prevLsn, -, hget, hentry, hpage, hprev, rfl⟩ :=
    Table.deleteRecord_eq_ok run
  exact (ok.getPage hget).appendOnPage hentry hprev trivial LogType.noConfusion
    fun _ hold hxid => hold.deleteRecord hxid hpage

theorem flushBuffers (ok : XidsOk σ) (regularOnly : Bool) : XidsOk (σ.flushBuffers regularOnly) :=
  ⟨(SameXids.poolRel.flushBuffers SameXids.systemRows σ regularOnly).core ok.core,
    flushedXids.flushBuffers ok.pages regularOnly⟩

theorem flushLog (ok : XidsOk σ) (lsn : Nat) : XidsOk (σ.flushLog lsn) :=
  ⟨(SameXids.flushLog σ lsn).core ok.core, flushedXids.flushLog ok.pages lsn⟩

/-- Table files may go, and empty ones may come. -/
theorem changeFiles (ok : XidsOk σ) {files : FilePath → Option DataFile}
    (hfiles : ∀ path file, files path = some file →
      σ.disk.files path = some file ∨ file = DataFile.empty) :
    XidsOk { σ with disk := { σ.disk with files := files } } :=
  ⟨(SameXids.files σ files).core ok.core, flushedXids.changeFiles ok.pages hfiles⟩

/-- Statements on databases and tables keep the invariant. -/
theorem catalogRel : CatalogRel fun σ σ' => XidsOk σ → XidsOk σ' where
  refl _ := id
  trans _ _ _ h h' := h' ∘ h
  catalog _ catalog ok := ok.catalog catalog
  createFile σ path ok := ok.changeFiles fun p file hfile => by
    split at hfile
    · exact .inr (Option.some.inj hfile).symm
    · exact .inl hfile
  removeFile σ path ok := ok.changeFiles fun p file hfile => by
    split at hfile
    · cases hfile
    · exact .inl hfile
  removeDirectory σ dbOid ok := ok.changeFiles fun p file hfile => by
    split at hfile
    · cases hfile
    · exact .inl hfile
  flushBuffers _ regularOnly ok := ok.flushBuffers regularOnly

/-- `TransactionManager::Begin` with its `BeginLog`. -/
theorem begin (ok : XidsOk σ) (hwrap : σ.txn.nextXid + 1 < 2 ^ 32) {xid : Nat}
    (run : DatabaseEngine.begin σ = .ok xid σ') : XidsOk σ' := by
  obtain ⟨rfl, -, rfl⟩ := DatabaseEngine.begin_eq_ok run
  have hnext : (σ.txn.begin).2.nextXid = σ.txn.nextXid + 1 := Nat.mod_eq_of_lt hwrap
  have hkeys {m : Assoc Nat Nat} {v x : Nat} (hx : x ∈ (m.insert σ.txn.nextXid v).keys) :
      x = σ.txn.nextXid ∨ x ∈ m.keys := by
    rw [Assoc.keys_insert] at hx
    split at hx
    · exact .inr hx
    · rw [List.mem_append, List.mem_singleton] at hx
      exact hx.symm
  have hcore : XidCore { σ.appendedWith σ.txn.nextXid nullLsn .begin
      (σ.log.att.insert σ.txn.nextXid σ.log.nextLsn) σ.log.dpt with txn := (σ.txn.begin).2 } := by
    refine ok.core.append ?_ ?_ (fun _ => ?_) (Nat.ne_of_gt ok.core.pos) trivial
      (fun _ _ h => nomatch h) (fun _ hx => hkeys hx) fun _ hx => hkeys hx
    · omega
    · omega
    · rw [hnext]
      exact Nat.lt_succ_self _
  exact ⟨hcore,
    ok.pages.of_subset rfl (List.subset_append_left _ _) rfl fun _ hmem => .inl hmem⟩

end XidsOk

/-! ## Rolling back -/

/-- The invariant at all times. -/
structure XidsKnown (σ : Engine) : Prop where
  core : XidCore σ
  pages : AppendedXids σ

theorem XidsOk.known {σ : Engine} (ok : XidsOk σ) : XidsKnown σ := ⟨ok.core, ok.pages.appended⟩

namespace XidsKnown

variable {σ σ' : Engine}

theorem getPage (known : XidsKnown σ) {dbOid tableOid pageId frame : Nat}
    (run : BufferPool.getPage dbOid tableOid pageId σ = .ok frame σ') : XidsKnown σ' :=
  ⟨(SameXids.poolRel.getPage _ _ _ σ σ' frame run).core known.core,
    appendedXids.getPage known.pages run⟩

theorem newPage (known : XidsKnown σ) {dbOid tableOid pageId frame : Nat}
    (run : BufferPool.newPage dbOid tableOid pageId σ = .ok frame σ') : XidsKnown σ' :=
  ⟨(SameXids.poolRel.newPage _ _ _ σ σ' frame run).core known.core,
    appendedXids.newPage known.pages run⟩

/-- A page replaced by one that names no other transactions. -/
theorem withPage (known : XidsKnown σ) {frame : Nat} {page : TablePage}
    (hpage : page.XidsIn σ.appended) :
    XidsKnown { σ with pool := σ.pool.withPage frame page } :=
  ⟨(SameXids.poolRel.pool σ _).core known.core,
    appendedXids.withPage known.pages fun _ _ => hpage⟩

theorem pageChanged (known : XidsKnown σ) {oid pageId : Nat} {f : TablePage → Option TablePage}
    (hf : ∀ page page', page.XidsIn σ.appended → f page = some page' → page'.XidsIn σ.appended)
    (h : PageChanged σ σ' oid pageId f) : XidsKnown σ' := by
  obtain ⟨dbOid, frame, σ₁, entry, page, -, hget, hentry, hpage, rfl⟩ := h
  have known₁ := known.getPage hget
  have happ : σ₁.appended = σ.appended :=
    ((SameXids.poolRel.getPage _ _ _ σ σ₁ frame hget).log known.core.log).2
  refine known₁.withPage ?_
  rw [happ]
  exact hf _ _ (happ ▸ known₁.pages.frames entry (List.mem_of_getElem? hentry)) hpage

/-- Undoing a record of a known transaction. -/
theorem undoRecord (known : XidsKnown σ) {r : LogRecord} (hxid : XidIn σ.appended r.xid)
    (run : LogManager.undoRecord r σ = .ok () σ') : XidsKnown σ' := by
  have hundo := LogManager.undoRecord_eq_ok run
  split at hundo
  · exact known.pageChanged (fun _ _ hold hdelete => hold.deleteRecord hxid hdelete) hundo
  · exact known.pageChanged (fun _ _ hold hdelete => hold.undoDeleteRecord hdelete) hundo
  · obtain ⟨dbOid, prevFrame, σ₁, frame, σ₂, entry, prevEntry, -, hprev, hget, -, hprevEntry, rfl⟩ :=
      hundo
    have known₂ := (known.getPage hprev).getPage hget
    exact known₂.withPage (known₂.pages.frames prevEntry (List.mem_of_getElem? hprevEntry))
  · exact hundo ▸ known

theorem rollbackLoop (known : XidsKnown σ) {fuel lsn : Nat}
    (run : LogManager.rollbackLoop fuel lsn σ = .ok () σ') : XidsKnown σ' := by
  induction fuel generalizing lsn σ with
  | zero =>
      unfold LogManager.rollbackLoop at run
      split at run
      · cases run
        exact known
      · cases run
  | succ fuel ih =>
      rcases LogManager.rollbackLoop_succ_eq_ok run with
        ⟨-, rfl⟩ | ⟨-, r, σ₁, hfound, hundo, hrest⟩
      · exact known
      refine ih (known.undoRecord ?_ hundo) hrest
      rcases hfound with ⟨-, hfind⟩ | ⟨-, hread⟩
      · exact .of_mem (List.mem_append_right _ (List.mem_of_find?_eq_some hfind))
      · obtain ⟨-, r', hr', rfl⟩ := LogManager.readRecord_eq_ok hread
        exact .inr ⟨r', List.mem_append_left _ hr', rfl⟩

/-- New tables, all of whose transactions are known. -/
theorem tables (known : XidsKnown σ) {att : Att} {dpt : Dpt}
    (hatt : ∀ x ∈ att.keys, XidIn σ.appended x) :
    XidsKnown { σ with log := { σ.log with att := att, dpt := dpt } } where
  core := {
    log := known.core.log.of_log_eq rfl rfl rfl rfl rfl rfl rfl
    control := known.core.control
    init := known.core.init
    pos := known.core.pos
    lt := known.core.lt
    fresh := known.core.fresh
    ne := known.core.ne
    records := known.core.records
    att := hatt
    opened := known.core.opened }
  pages := appendedXids.congr known.pages rfl rfl rfl fun _ hmem => .inl hmem

theorem rollback (known : XidsKnown σ) {xid : Nat} (hxid : XidIn σ.appended xid)
    (run : LogManager.rollback xid σ = .ok () σ') : XidsKnown σ' := by
  obtain ⟨_, σ₁, hmodify, hloop⟩ := EStateM.bind_eq_ok_iff.mp run
  cases EStateM.modify_eq_ok_iff.mp hmodify
  rw [EStateM.bind_of_ok (EStateM.get_eq_ok_iff.mpr ⟨rfl, rfl⟩)] at hloop
  refine (known.tables fun x hx => ?_).rollbackLoop hloop
  unfold Assoc.insertNew at hx
  split at hx
  · exact known.core.att x hx
  · rw [Assoc.keys_insert] at hx
    split at hx
    · exact known.core.att x hx
    · rcases List.mem_append.mp hx with hx | hx
      · exact known.core.att x hx
      · exact List.mem_singleton.mp hx ▸ hxid

/-- Redoing a record as it was stamped. -/
theorem redoRecord (known : XidsKnown σ) {r : LogRecord} (hxid : XidIn σ.appended r.xid)
    (hstamped : r.Stamped) (run : LogManager.redoRecord r σ = .ok () σ') : XidsKnown σ' := by
  have hredo := LogManager.redoRecord_eq_ok run
  unfold LogRecord.Stamped at hstamped
  split at hredo
  · rename_i hbody
    rw [hbody] at hstamped
    rcases hredo with ⟨-, rfl⟩ | ⟨-, hchange⟩
    · exact known
    · refine known.pageChanged (fun _ _ hold hinsert => ?_) hchange
      refine TablePage.Headers.redoInsertRecord hold ?_ hinsert
      rw [hstamped.1, hstamped.2]
      exact ⟨hxid, .null _⟩
  · rcases hredo with ⟨-, rfl⟩ | ⟨-, hchange⟩
    · exact known
    · exact known.pageChanged (fun _ _ hold hdelete => hold.deleteRecord hxid hdelete) hchange
  · rcases hredo with ⟨-, rfl⟩ | ⟨-, hchange⟩
    · exact known
    split at hchange
    · obtain ⟨dbOid, prevFrame, σ₁, frame, σ₂, entry, prevEntry, prevEntry', -, hprev, hnew, hentry,
        -, hprevEntry', rfl⟩ := hchange
      have known₂ := (known.getPage hprev).newPage hnew
      have hinit : entry.page.init.XidsIn σ₂.appended :=
        TablePage.XidsIn.init (known₂.pages.frames entry (List.mem_of_getElem? hentry))
      have known₃ : XidsKnown { σ₂ with
          pool := σ₂.pool.withPage frame
            (entry.page.init.setNextPageId prevEntry.page.nextPageId) } :=
        known₂.withPage hinit
      exact known₃.withPage (known₃.pages.frames prevEntry' (List.mem_of_getElem? hprevEntry'))
    · exact known.pageChanged
        (fun _ _ hold hinit => Option.some.inj hinit ▸ TablePage.XidsIn.init hold) hchange
  · exact hredo ▸ known

/-- Rolling back appends nothing. -/
theorem rollback_log (known : XidsKnown σ) {xid : Nat}
    (run : LogManager.rollback xid σ = .ok () σ') :
    σ'.appended = σ.appended ∧ (σ.log.logBuffer = [] → σ'.log.logBuffer = []) ∧
      σ'.txn = σ.txn := by
  obtain ⟨_, σ₁, hmodify, hloop⟩ := EStateM.bind_eq_ok_iff.mp run
  cases EStateM.modify_eq_ok_iff.mp hmodify
  rw [EStateM.bind_of_ok (EStateM.get_eq_ok_iff.mpr ⟨rfl, rfl⟩)] at hloop
  have same := SameXids.poolRel.rollbackLoop _ _ _ σ' () hloop
  exact ⟨(same.log (known.core.log.of_log_eq rfl rfl rfl rfl rfl rfl rfl)).2, same.empty, same.txn⟩

theorem redoFlushed (known : XidsKnown σ) {r : LogRecord} (hxid : XidIn σ.appended r.xid)
    (hstamped : r.Stamped) (run : LogManager.redoFlushed r σ = .ok () σ') : XidsKnown σ' := by
  rcases LogManager.redoFlushed_eq_ok run with
    ⟨rfl, -⟩ | ⟨key, recLsn, -, -, -, ⟨-, hredo⟩ | ⟨-, dbOid, frame, σ₁, entry, -, hget, -, h⟩⟩
  · exact known
  · exact known.redoRecord hxid hstamped hredo
  have known₁ := known.getPage hget
  rcases h with ⟨-, rfl⟩ | ⟨-, hredo⟩
  · exact known₁
  · have happ := ((SameXids.poolRel.getPage _ _ _ σ σ₁ frame hget).log known.core.log).2
    exact known₁.redoRecord (happ ▸ hxid) hstamped hredo

theorem redoLoop (known : XidsKnown σ) (hempty : σ.log.logBuffer = []) {fuel lsn : Nat}
    (run : LogManager.redoLoop fuel lsn σ = .ok () σ') : XidsKnown σ' := by
  induction fuel generalizing lsn σ with
  | zero =>
      unfold LogManager.redoLoop at run
      rw [EStateM.bind_of_ok (EStateM.get_eq_ok_iff.mpr ⟨rfl, rfl⟩)] at run
      split at run
      · cases run
      · cases run
        exact known
  | succ fuel ih =>
      rcases LogManager.redoLoop_succ_eq_ok hempty run with
        ⟨-, rfl⟩ | ⟨-, -, r, σ₁, hread, hredo, hrest⟩
      · exact known
      obtain ⟨-, r', hr', rfl⟩ := LogManager.readRecord_eq_ok hread
      have hmem : r' ∈ σ.appended := List.mem_append_left _ hr'
      refine ih (known.redoFlushed ?_ ?_ hredo) ?_ hrest
      · exact .inr ⟨r', hmem, rfl⟩
      · exact known.core.records.stamped r' hmem
      · exact (SameXids.poolRel.redoFlushed _ σ σ₁ () hredo).empty hempty

theorem undoLoop (known : XidsKnown σ) {xids : List Nat}
    (hxids : ∀ xid ∈ xids, XidIn σ.appended xid)
    (run : LogManager.undoLoop xids σ = .ok () σ') :
    XidsKnown σ' ∧ (σ.log.logBuffer = [] → σ'.log.logBuffer = []) := by
  induction xids generalizing σ with
  | nil =>
      cases run
      exact ⟨known, id⟩
  | cons xid xids ih =>
      obtain ⟨_, σ₁, hrollback, hrest⟩ := EStateM.bind_eq_ok_iff.mp run
      obtain ⟨happ, hempty, -⟩ := known.rollback_log hrollback
      have known₁ := known.rollback (hxids xid List.mem_cons_self) hrollback
      obtain ⟨known', hempty'⟩ :=
        ih known₁ (fun x hx => happ ▸ hxids x (List.mem_cons_of_mem _ hx)) hrest
      exact ⟨known', hempty' ∘ hempty⟩

/-- `Redo` and `Undo` after a crash: nothing is buffered, so every id on a page is
that of a flushed record again. -/
theorem redo_undo (known : XidsKnown σ) (hempty : σ.log.logBuffer = [])
    (run : (do LogManager.redo; LogManager.undo : Db Unit) σ = .ok () σ') : XidsOk σ' := by
  obtain ⟨_, σ₁, hredo, hundo⟩ := EStateM.bind_eq_ok_iff.mp run
  have hempty₁ := (SameXids.poolRel.redo σ σ₁ () hredo).empty hempty
  unfold LogManager.redo at hredo
  rw [EStateM.bind_of_ok (EStateM.get_eq_ok_iff.mpr ⟨rfl, rfl⟩)] at hredo
  have known₁ := known.redoLoop hempty hredo
  unfold LogManager.undo at hundo
  rw [EStateM.bind_of_ok (EStateM.get_eq_ok_iff.mpr ⟨rfl, rfl⟩)] at hundo
  obtain ⟨known', hempty'⟩ := known₁.undoLoop known₁.core.att hundo
  exact ⟨known'.core, known'.pages.flushed (hempty' hempty₁)⟩

end XidsKnown

/-! ## Ending transactions and checkpoints -/

namespace XidsOk

variable {σ σ' : Engine}

/-- Fewer transactions in the tables. -/
theorem shrink (ok : XidsOk σ) {att : Att} {txn : TransactionManager}
    (hatt : att.keys ⊆ σ.log.att.keys) (hnext : txn.nextXid = σ.txn.nextXid)
    (hopened : txn.xid2cid.keys ⊆ σ.txn.xid2cid.keys) :
    XidsOk { σ with log := { σ.log with att := att }, txn := txn } where
  core := {
    log := ok.core.log.of_log_eq rfl rfl rfl rfl rfl rfl rfl
    control := ok.core.control
    init := ok.core.init
    pos := hnext ▸ ok.core.pos
    lt := hnext ▸ ok.core.lt
    fresh := by
      dsimp only
      rw [hnext]
      exact ok.core.fresh
    ne := ok.core.ne
    records := ok.core.records
    att := fun x hx => ok.core.att x (hatt hx)
    opened := fun x hx => ok.core.opened x (hopened hx) }
  pages := flushedXids.congr ok.pages rfl rfl rfl fun _ hmem => .inl hmem

/-- Everything buffered is due at the record appended last. -/
theorem flushLog_logBuffer_eq_nil {lsn : Nat} (h : ∀ r ∈ σ.log.logBuffer, r.lsn ≤ lsn) :
    (σ.flushLog lsn).log.logBuffer = [] := by
  rw [Engine.flushLog_logBuffer, List.filter_eq_nil_iff]
  intro r hr
  simp [LogRecord.isDue_of_le (h r hr)]

end XidsOk

theorem Assoc.keys_erase_subset {κ υ : Type} [DecidableEq κ] (k : κ) (m : Assoc κ υ) :
    (m.erase k).keys ⊆ m.keys :=
  List.map_subset _ (List.filter_subset_self _)

/-- The end record of a transaction, flushed with all records before it. -/
theorem XidsKnown.endLogged {σ : Engine} (known : XidsKnown σ) {xid prevLsn : Nat} {body : LogBody}
    (hprev : σ.log.att.find? xid = some prevLsn)
    (hbody : body.getType ≠ .endCheckpoint) (hstamped : (σ.nextRecord xid prevLsn body).Stamped) :
    XidsOk ((LogManager.endLogged σ xid prevLsn body).flushLog σ.log.nextLsn) := by
  have hmem : xid ∈ σ.log.att.keys := Assoc.mem_keys_iff.mpr (by simp [hprev])
  have hcore : XidCore (LogManager.endLogged σ xid prevLsn body) :=
    known.core.append (Nat.le_refl _) known.core.lt
      (known.core.lt_of_xidIn (known.core.att xid hmem))
      (known.core.ne_of_xidIn (known.core.att xid hmem)) hstamped
      (fun _ _ h => absurd (congrArg LogBody.getType h) hbody) (fun _ hx => .inr hx)
      fun _ hx => .inr hx
  have hpages : AppendedXids (LogManager.endLogged σ xid prevLsn body) := by
    have hsub : σ.appended ⊆ (LogManager.endLogged σ xid prevLsn body).appended := by
      rw [show (LogManager.endLogged σ xid prevLsn body).appended = _ from
        σ.appended_appendedWith _ _ _ _ _]
      exact List.subset_append_left _ _
    exact ⟨fun entry hmem => (known.pages.frames entry hmem).mono hsub,
      fun path file hfile pageId => (known.pages.images path file hfile pageId).mono hsub⟩
  refine ⟨(SameXids.flushLog _ _).core hcore,
    AppendedXids.flushed (appendedXids.flushLog hpages _) (XidsOk.flushLog_logBuffer_eq_nil ?_)⟩
  intro r hr
  rcases List.mem_append.mp hr with hr | hr
  · exact Nat.le_of_lt (known.core.log.buffer.pos_lt LogRecord.getSize_pos hr)
  · cases List.mem_singleton.mp hr
    exact Nat.le_refl _

theorem XidsKnown.finish {σ σ₁ : Engine} (known : XidsKnown σ) {xid lsn : Nat} {body : LogBody}
    {caller caller' : String} {txn : TransactionManager}
    (run : LogManager.appendEndLog xid body caller σ = .ok lsn σ₁)
    (hfinish : σ₁.txn.finish xid caller' = .ok txn) (hbody : body.getType ≠ .endCheckpoint)
    (hstamped : ∀ prevLsn, (σ.nextRecord xid prevLsn body).Stamped) :
    XidsOk { σ₁ with txn := txn } := by
  obtain ⟨prevLsn, hprev, -, rfl⟩ := LogManager.appendEndLog_eq_ok_iff.mp run
  obtain ⟨-, hnext, hopened⟩ := TransactionManager.finish_eq_ok hfinish
  refine (known.endLogged hprev hbody (hstamped prevLsn)).shrink (Assoc.keys_erase_subset _ _)
    hnext ?_
  rw [hopened]
  exact Assoc.keys_erase_subset _ _

namespace XidsOk

variable {σ σ' : Engine}

theorem commit (ok : XidsOk σ) {xid : Nat} (run : DatabaseEngine.commit xid σ = .ok () σ') :
    XidsOk σ' := by
  obtain ⟨lsn, σ₁, txn, happend, hfinish, rfl⟩ := DatabaseEngine.commit_eq_ok run
  exact ok.known.finish happend hfinish LogType.noConfusion fun _ => trivial

theorem rollback (ok : XidsOk σ) {xid : Nat} (run : DatabaseEngine.rollback xid σ = .ok () σ') :
    XidsOk σ' := by
  obtain ⟨σ₁, lsn, σ₂, txn, hrollback, happend, hfinish, rfl⟩ := DatabaseEngine.rollback_eq_ok run
  -- the transaction manager knows the transaction, so it has begun
  have hopened : xid ∈ σ.txn.xid2cid.keys := by
    obtain ⟨prevLsn, -, -, rfl⟩ := LogManager.appendEndLog_eq_ok_iff.mp happend
    have hmem := (TransactionManager.finish_eq_ok hfinish).1
    rwa [Engine.flushLog_txn, show (LogManager.endLogged σ₁ xid prevLsn .rollback).txn = σ₁.txn
      from rfl, (ok.known.rollback_log hrollback).2.2] at hmem
  have known₁ := ok.known.rollback (ok.core.opened xid hopened) hrollback
  exact known₁.finish happend hfinish LogType.noConfusion fun _ => trivial

/-- The records of a checkpoint. -/
theorem checkpointLogged (ok : XidsOk σ) : XidsOk (LogManager.checkpointLogged σ) := by
  have begun : XidsOk (σ.appendedWith nullXid nullLsn .beginCheckpoint σ.log.att σ.log.dpt) :=
    ⟨ok.core.append (Nat.le_refl _) ok.core.lt (fun h => absurd rfl h) (by decide) trivial
      (fun _ _ h => nomatch h) (fun _ hx => .inr hx) fun _ hx => .inr hx,
      ok.pages.of_subset rfl (List.subset_append_left _ _) rfl fun _ hmem => .inl hmem⟩
  refine ⟨begun.core.append (Nat.le_refl _) begun.core.lt (fun h => absurd rfl h) (by decide)
    trivial (fun att dpt h => ?_) (fun _ hx => .inr hx) fun _ hx => .inr hx,
    begun.pages.of_subset rfl (List.subset_append_left _ _) rfl fun _ hmem => .inl hmem⟩
  cases h
  exact begun.core.att

theorem checkpointLog (ok : XidsOk σ) {lsns : Nat × Nat}
    (run : LogManager.checkpointLog σ = .ok lsns σ') : XidsOk σ' := by
  rw [LogManager.checkpointLog_eq] at run
  cases run
  exact ok.checkpointLogged.flushLog _

theorem checkpoint (ok : XidsOk σ) {lsn : Nat}
    (run : LogManager.checkpoint σ = .ok lsn σ') : XidsOk σ' := by
  rw [LogManager.checkpoint_eq] at run
  cases run
  have flushed := ok.checkpointLogged.flushLog (σ.log.nextLsn + LogRecord.headerSize)
  exact ⟨(SameXids.masterRecord _ _).core flushed.core,
    flushedXids.congr flushed.pages rfl rfl rfl fun _ hmem => .inl hmem⟩

end XidsOk

/-! ## Starting again -/

/-- What the invariant leaves on disk. -/
structure XidsDisk (disk : Disk) : Prop where
  tiles : LogTiles 0 disk.log disk.logEnd
  covers : (∀ r ∈ disk.log, r.getSize ≤ logSegmentSize) → disk.logEnd < 2 ^ 32 →
    disk.LogFileCovers disk.logEnd
  ne : ∀ r ∈ disk.log, r.xid ≠ ddlXid
  lt : ∀ r ∈ disk.log, r.xid < 2 ^ 32
  records : XidRecords disk.log
  images : ∀ path file, disk.files path = some file → ∀ pageId, (file.page pageId).XidsIn disk.log

theorem XidsOk.disk {σ : Engine} (ok : XidsOk σ) : XidsDisk σ.disk where
  tiles := ok.core.log.disk
  covers := ok.core.log.covers
  ne r hr := ok.core.ne r (List.mem_append_left _ hr)
  lt r hr := by
    by_cases hnull : r.xid = nullXid
    · rw [hnull]
      decide
    · exact Nat.lt_trans (ok.core.fresh r (List.mem_append_left _ hr) hnull) ok.core.lt
  records := ok.core.records.of_prefix
  images := ok.pages.images

/-- A process that has opened its files and not yet recovered. -/
structure Opened (disk : Disk) (control : Control) (σ : Engine) : Prop where
  same : σ.disk.SameLog disk
  segments : σ.disk.logSegments = disk.logSegments
  controlFile : σ.disk.control = some { control with normalShutdown := false }
  init : σ.disk.init = disk.init
  images : ∀ path file, σ.disk.files path = some file → ∀ pageId,
    (file.page pageId).XidsIn disk.log
  log : σ.log = .new control.nextLsn
  frames : σ.pool.buffers = []
  txn : σ.txn = { nextXid := control.nextXid }

namespace Opened

variable {disk : Disk} {control : Control} {σ σ' : Engine}

theorem restore (ok : XidsDisk disk) (control : Control) :
    Opened disk control (DatabaseEngine.restoreControl control (.ofDisk disk)) :=
  ⟨⟨rfl, rfl, rfl, rfl⟩, rfl, rfl, rfl, ok.images, rfl, rfl, rfl⟩

theorem changeFiles (opened : Opened disk control σ) {files : FilePath → Option DataFile}
    (hfiles : ∀ path file, files path = some file →
      σ.disk.files path = some file ∨ file = DataFile.empty) :
    Opened disk control { σ with disk := { σ.disk with files := files } } where
  same := ⟨opened.same.log, opened.same.logFileSize, opened.same.nextLsnFile,
    opened.same.masterRecord⟩
  segments := opened.segments
  controlFile := opened.controlFile
  init := opened.init
  images path file hfile pageId := by
    rcases hfiles path file hfile with hold | rfl
    · exact opened.images path file hold pageId
    · exact .zero
  log := opened.log
  frames := opened.frames
  txn := opened.txn

theorem catalogRel (disk : Disk) (control : Control) :
    CatalogRel fun σ σ' => Opened disk control σ → Opened disk control σ' where
  refl _ := id
  trans _ _ _ h h' := h' ∘ h
  catalog _ _ opened := ⟨opened.same, opened.segments, opened.controlFile, opened.init, opened.images,
    opened.log, opened.frames, opened.txn⟩
  createFile σ path opened := opened.changeFiles fun p file hfile => by
    split at hfile
    · exact .inr (Option.some.inj hfile).symm
    · exact .inl hfile
  removeFile σ path opened := opened.changeFiles fun p file hfile => by
    split at hfile
    · cases hfile
    · exact .inl hfile
  removeDirectory σ dbOid opened := opened.changeFiles fun p file hfile => by
    split at hfile
    · cases hfile
    · exact .inl hfile
  flushBuffers σ regularOnly opened := by
    have hflush : (List.range σ.pool.buffers.length).foldl Engine.flushPage σ = σ := by
      rw [opened.frames]
      rfl
    unfold Engine.flushBuffers
    rw [hflush]
    cases regularOnly with
    | true => exact ⟨opened.same, opened.segments, opened.controlFile, opened.init, opened.images,
        opened.log, rfl, opened.txn⟩
    | false => exact ⟨⟨opened.same.log, opened.same.logFileSize, opened.same.nextLsnFile,
        opened.same.masterRecord⟩, opened.segments, opened.controlFile, opened.init, opened.images,
        opened.log, rfl, opened.txn⟩

end Opened

/-! ## The counter after a crash -/

/-- Every flushed id is below the counter, or at most that of a record behind the
checkpoint. Behind a torn checkpoint the scan meets `NULL_XID`, and the ids it
finds count for nothing. -/
def Disk.XidsBounded (disk : Disk) (nextXid : Nat) : Prop :=
  ∀ r ∈ disk.log, r.xid ≠ nullXid → r.xid < nextXid ∨
    ((∀ r' ∈ disk.afterCheckpoint, r'.xid ≠ nullXid) ∧
      ∃ r' ∈ disk.afterCheckpoint, r.xid ≤ r'.xid)

instance (disk : Disk) (nextXid : Nat) : Decidable (disk.XidsBounded nextXid) := by
  unfold Disk.XidsBounded
  infer_instance

theorem AnalyzeState.xidMax_step (s : LogManager.AnalyzeState) (r : LogRecord) :
    (s.step r).xidMax = max s.xidMax r.xid := by
  simp only [LogManager.AnalyzeState.step]
  split <;> omega

/-- The scan keeps the largest id it meets. -/
theorem AnalyzeState.le_xidMax_foldl (s : LogManager.AnalyzeState) (l : List LogRecord) :
    s.xidMax ≤ (l.foldl LogManager.AnalyzeState.step s).xidMax ∧
      ∀ r ∈ l, r.xid ≤ (l.foldl LogManager.AnalyzeState.step s).xidMax := by
  induction l generalizing s with
  | nil => exact ⟨Nat.le_refl _, by simp⟩
  | cons r l ih =>
      obtain ⟨hle, hall⟩ := ih (s.step r)
      rw [xidMax_step] at hle
      rw [List.foldl_cons]
      refine ⟨by omega, List.forall_mem_cons.mpr ⟨by omega, hall⟩⟩

theorem AnalyzeState.xidMax_foldl_lt {s : LogManager.AnalyzeState} {l : List LogRecord} {n : Nat}
    (hs : s.xidMax < n) (hl : ∀ r ∈ l, r.xid < n) :
    (l.foldl LogManager.AnalyzeState.step s).xidMax < n := by
  induction l generalizing s with
  | nil => exact hs
  | cons r l ih =>
      have hr := hl r List.mem_cons_self
      refine ih ?_ fun r' hr' => hl r' (List.mem_cons_of_mem _ hr')
      rw [xidMax_step]
      omega

/-- The scan enters the transactions of the records it meets. -/
theorem AnalyzeState.mem_keys_att_foldl {s : LogManager.AnalyzeState} {l : List LogRecord}
    {xid : Nat} (h : xid ∈ (l.foldl LogManager.AnalyzeState.step s).att.keys) :
    xid ∈ s.att.keys ∨ ∃ r ∈ l, r.xid = xid := by
  induction l generalizing s with
  | nil => exact .inl h
  | cons r l ih =>
      rcases ih h with hstep | ⟨r', hr', hxid⟩
      · simp only [LogManager.AnalyzeState.step] at hstep
        split at hstep
        · exact .inl (Assoc.keys_erase_subset _ _ hstep)
        · rw [Assoc.keys_insert] at hstep
          split at hstep
          · exact .inl hstep
          · rcases List.mem_append.mp hstep with hold | hnew
            · exact .inl hold
            · exact .inr ⟨r, List.mem_cons_self, (List.mem_singleton.mp hnew).symm⟩
      · exact .inr ⟨r', List.mem_cons_of_mem _ hr', hxid⟩

theorem TransactionManager.setNextXid_nextXid (txn : TransactionManager) (nextXid : Nat) :
    (txn.setNextXid nextXid).nextXid = max txn.nextXid nextXid := by
  unfold setNextXid
  split
  · exact (Nat.max_eq_right (Nat.le_of_lt ‹_›)).symm
  · exact (Nat.max_eq_left (Nat.le_of_not_lt ‹_›)).symm

theorem TransactionManager.setNextXid_xid2cid (txn : TransactionManager) (nextXid : Nat) :
    (txn.setNextXid nextXid).xid2cid = txn.xid2cid := by
  unfold setNextXid
  split <;> rfl

namespace Opened

variable {disk : Disk} {control : Control} {σ σ' : Engine}

theorem logEnd (opened : Opened disk control σ) : σ.disk.logEnd = disk.logEnd := by
  rw [Disk.logEnd, Disk.logEnd, opened.same.nextLsnFile]

theorem afterCheckpoint (opened : Opened disk control σ) :
    σ.disk.afterCheckpoint = disk.afterCheckpoint := by
  rw [Disk.afterCheckpoint, Disk.afterCheckpoint, opened.same.log, opened.same.masterRecord]

/-- The log of a process whose counters are at the end of the flushed log. -/
theorem logOk (opened : Opened disk control σ) (ok : XidsDisk disk) {log : LogManager}
    (hnext : log.nextLsn = disk.logEnd) (hbuffer : log.logBuffer = [])
    (hflushed : log.flushedLsn = if disk.logEnd = 0 then nullLsn else disk.logEnd - 1) :
    LogOk { σ with log := log } where
  disk := by
    rw [opened.same.log, opened.logEnd]
    exact ok.tiles
  buffer := by
    rw [opened.logEnd, hbuffer, hnext]
    rfl
  flushed := by
    rw [hflushed, opened.same.log, opened.logEnd]
    by_cases hzero : disk.logEnd = 0
    · rw [if_pos hzero]
      refine .inl ⟨rfl, List.eq_nil_iff_forall_not_mem.mpr fun r hr => ?_⟩
      have := ok.tiles.pos_lt LogRecord.getSize_pos hr
      omega
    · rw [if_neg hzero]
      refine .inr ⟨by omega, fun r hr => ?_⟩
      have := ok.tiles.pos_lt LogRecord.getSize_pos hr
      omega
  covers := by
    rw [opened.same.log, opened.logEnd, Disk.LogFileCovers, opened.same.logFileSize,
      opened.segments]
    exact ok.covers

/-- Analysis after a crash restores the invariant where the flushed ids are
bounded. -/
theorem analyze (opened : Opened disk control σ) (ok : XidsDisk disk) (hinit : disk.init = true)
    (small : disk.logEnd < 2 ^ 32) (hpos : ddlXid < control.nextXid)
    (hlt : control.nextXid < 2 ^ 32) (bounded : disk.XidsBounded control.nextXid)
    (run : LogManager.analyze σ = .ok () σ') : XidsKnown σ' ∧ σ'.log.logBuffer = [] := by
  have tiles : LogTiles 0 σ.disk.log σ.disk.logEnd := by
    rw [opened.same.log, opened.logEnd]
    exact ok.tiles
  obtain ⟨before, e, att, dpt, hlog, -, he, -, rfl⟩ :=
    LogManager.analyze_eq_ok tiles (opened.logEnd ▸ small) run
  rw [opened.same.log, opened.afterCheckpoint] at hlog
  rw [opened.afterCheckpoint]
  generalize hs : disk.afterCheckpoint.foldl LogManager.AnalyzeState.step ⟨att, dpt, 0⟩ = s
  have hbuffer : (LogManager.analyzed σ s).log.logBuffer = [] := by
    rw [show (LogManager.analyzed σ s).log.logBuffer = σ.log.logBuffer from rfl, opened.log]
    rfl
  have happ : (LogManager.analyzed σ s).appended = disk.log := by
    rw [Engine.appended, hbuffer, List.append_nil]
    exact opened.same.log
  have hnext : (LogManager.analyzed σ s).txn.nextXid =
      max control.nextXid ((s.xidMax + 1) % 2 ^ 32) := by
    rw [show (LogManager.analyzed σ s).txn = σ.txn.setNextXid _ from rfl,
      TransactionManager.setNextXid_nextXid, opened.txn]
  have hsub : ∀ r ∈ disk.afterCheckpoint, r ∈ disk.log := fun r hr => List.mem_of_mem_filter hr
  refine ⟨⟨{ log := ?_, control := ?_, init := ?_, pos := ?_, lt := ?_, fresh := ?_, ne := ?_,
             records := ?_, att := ?_, opened := ?_ }, ?_⟩, hbuffer⟩
  · have hflushed : (LogManager.analyzed σ s).log.flushedLsn =
        if disk.logEnd = 0 then nullLsn else disk.logEnd - 1 := by
      rw [← opened.logEnd]
      rfl
    exact (opened.logOk ok opened.logEnd hbuffer hflushed).of_log_eq rfl rfl rfl rfl rfl rfl rfl
  · exact ⟨_, opened.controlFile, rfl, hpos, hlt⟩
  · exact opened.init.trans hinit
  · rw [hnext]
    exact Nat.lt_of_lt_of_le hpos (Nat.le_max_left _ _)
  · rw [hnext]
    exact Nat.max_lt.mpr ⟨hlt, Nat.mod_lt _ (by decide)⟩
  · rw [happ, hnext]
    intro r hr hnull
    rcases bounded r hr hnull with hbelow | ⟨hall, r', hr', hle⟩
    · exact Nat.lt_of_lt_of_le hbelow (Nat.le_max_left _ _)
    · -- no checkpoint record follows, so the largest id of the scan is a real one
      have hmax : s.xidMax < nullXid := by
        rw [← hs]
        refine AnalyzeState.xidMax_foldl_lt (show 0 < nullXid by decide) fun r'' hr'' => ?_
        have hlt' : r''.xid < nullXid + 1 := ok.lt r'' (hsub r'' hr'')
        have hne := hall r'' hr''
        omega
      have hle' : r'.xid ≤ s.xidMax := hs ▸ (AnalyzeState.le_xidMax_foldl _ _).2 r' hr'
      have hmod : (s.xidMax + 1) % 2 ^ 32 = s.xidMax + 1 :=
        Nat.mod_eq_of_lt (Nat.succ_lt_succ hmax)
      rw [hmod]
      omega
  · rw [happ]
    exact ok.ne
  · rw [happ]
    exact ok.records
  · rw [happ]
    intro x hx
    rw [show (LogManager.analyzed σ s).log.att = s.att from rfl, ← hs] at hx
    rcases AnalyzeState.mem_keys_att_foldl hx with hold | ⟨r, hr, rfl⟩
    · refine (ok.records.checkpoints _ e _ att dpt hlog he x hold).mono fun r hr => ?_
      rw [hlog]
      exact List.mem_append_left _ hr
    · exact .of_mem (hsub r hr)
  · intro x hx
    rw [show (LogManager.analyzed σ s).txn = σ.txn.setNextXid _ from rfl,
      TransactionManager.setNextXid_xid2cid, opened.txn] at hx
    cases hx
  · refine ⟨fun entry hmem => ?_, fun path file hfile pageId => ?_⟩
    · rw [show (LogManager.analyzed σ s).pool = σ.pool from rfl, opened.frames] at hmem
      cases hmem
    · rw [happ]
      exact opened.images path file hfile pageId

/-- Without recovery the counter is that of the control file. -/
theorem xidsOk (opened : Opened disk control σ) (ok : XidsDisk disk)
    (hnext : control.nextLsn = disk.logEnd) (hpos : ddlXid < control.nextXid)
    (hlt : control.nextXid < 2 ^ 32)
    (hfresh : ∀ r ∈ disk.log, r.xid ≠ nullXid → r.xid < control.nextXid) {init : Bool}
    (hinit : init = true) : XidsOk { σ with disk := { σ.disk with init := init } } := by
  have hbuffer : σ.log.logBuffer = [] := by
    rw [opened.log]
    rfl
  have happ : σ.appended = disk.log := by
    rw [Engine.appended, hbuffer, List.append_nil]
    exact opened.same.log
  refine ⟨{ log := ?_, control := ⟨_, opened.controlFile, rfl, hpos, hlt⟩, init := hinit,
            pos := ?_, lt := ?_, fresh := ?_, ne := ?_, records := ?_, att := ?_, opened := ?_ },
    ⟨fun entry hmem => ?_, fun path file hfile pageId => ?_⟩⟩
  · have hlsn : σ.log.nextLsn = disk.logEnd := by
      rw [opened.log, ← hnext]
      rfl
    have hflushed : σ.log.flushedLsn = if disk.logEnd = 0 then nullLsn else disk.logEnd - 1 := by
      rw [opened.log, ← hnext]
      rfl
    exact (opened.logOk ok hlsn hbuffer hflushed).of_log_eq rfl rfl rfl rfl rfl rfl rfl
  · exact opened.txn ▸ hpos
  · exact opened.txn ▸ hlt
  · change ∀ r ∈ σ.appended, r.xid ≠ nullXid → r.xid < σ.txn.nextXid
    rw [happ, opened.txn]
    exact hfresh
  · change ∀ r ∈ σ.appended, r.xid ≠ ddlXid
    exact happ ▸ ok.ne
  · change XidRecords σ.appended
    exact happ ▸ ok.records
  · intro x hx
    rw [opened.log] at hx
    cases hx
  · intro x hx
    rw [opened.txn] at hx
    cases hx
  · rw [opened.frames] at hmem
    cases hmem
  · change (file.page pageId).XidsIn σ.disk.log
    rw [opened.same.log]
    exact opened.images path file hfile pageId

end Opened

/-! ## Histories -/

/-- What a step must not do: let the counter wrap around, or crash with a log that
ends beyond 4 GiB or names an id above both the counter of the control file and
the ids behind the checkpoint. A crash inside a checkpoint leaves two records
that hide the ids before them. -/
def XidGuard (σ : Engine) : Op → Prop
  | .begin => σ.txn.nextXid + 1 < 2 ^ 32
  | .crash false => σ.disk.logEnd < 2 ^ 32 ∧
      σ.disk.XidsBounded (σ.disk.control.getD DatabaseEngine.firstControl).nextXid
  | .crash true => (LogManager.checkpointLogged σ).log.nextLsn < 2 ^ 32 ∧
      ∀ r ∈ σ.appended, r.xid ≠ nullXid →
        r.xid < (σ.disk.control.getD DatabaseEngine.firstControl).nextXid
  | _ => True

instance (σ : Engine) (op : Op) : Decidable (XidGuard σ op) := by
  unfold XidGuard
  split <;> infer_instance

/-- A crash that the invariant survives. -/
theorem XidsOk.boot {disk : Disk} {control : Control} {σ : Engine} (ok : XidsDisk disk)
    (hinit : disk.init = true) (hcontrol : disk.control = some control)
    (hnormal : control.normalShutdown = false) (hpos : ddlXid < control.nextXid)
    (hlt : control.nextXid < 2 ^ 32) (small : disk.logEnd < 2 ^ 32)
    (bounded : disk.XidsBounded control.nextXid) (run : Op.boot disk = .ok () σ) : XidsOk σ := by
  obtain ⟨σ₁, hload, hrecover⟩ := Op.boot_eq_ok hcontrol hinit run
  have opened : Opened disk control σ₁ :=
    (Opened.catalogRel disk control).loadSystemTables _ σ₁ () hload (.restore ok control)
  rw [hnormal] at hrecover
  obtain ⟨_, σ₂, hanalyze, hrest⟩ := EStateM.bind_eq_ok_iff.mp hrecover
  obtain ⟨known, hempty⟩ := opened.analyze ok hinit small hpos hlt bounded hanalyze
  exact known.redo_undo hempty hrest

/-- The start after a clean shutdown. -/
theorem XidsOk.boot_normal {disk : Disk} {control : Control} {σ : Engine} (ok : XidsDisk disk)
    (hinit : disk.init = true) (hcontrol : disk.control = some control)
    (hnormal : control.normalShutdown = true) (hnext : control.nextLsn = disk.logEnd)
    (hpos : ddlXid < control.nextXid) (hlt : control.nextXid < 2 ^ 32)
    (hfresh : ∀ r ∈ disk.log, r.xid ≠ nullXid → r.xid < control.nextXid)
    (run : Op.boot disk = .ok () σ) : XidsOk σ := by
  obtain ⟨σ₁, hload, hrecover⟩ := Op.boot_eq_ok hcontrol hinit run
  rw [hnormal] at hrecover
  cases hrecover
  have opened : Opened disk control σ :=
    (Opened.catalogRel disk control).loadSystemTables _ σ () hload (.restore ok control)
  exact opened.xidsOk ok hnext hpos hlt hfresh (opened.init.trans hinit)

/-- The system tables of an empty data directory. -/
theorem XidsOk.boot_freshDisk {σ : Engine} (run : Op.boot freshDisk = .ok () σ) : XidsOk σ := by
  have ok : XidsDisk freshDisk :=
    { tiles := rfl
      covers := fun _ _ => ⟨(Nat.one_mul _).symm, Nat.zero_le _⟩
      ne := fun _ hr => nomatch hr
      lt := fun _ hr => nomatch hr
      records :=
        { stamped := fun _ hr => nomatch hr
          checkpoints := fun before _ _ _ _ hlog =>
            absurd (congrArg List.length hlog) (by simp [freshDisk]) }
      images := fun _ _ hfile => nomatch hfile }
  obtain ⟨σ₁, hcreate, rfl⟩ := Op.boot_eq_ok_of_empty rfl rfl run
  have opened : Opened freshDisk DatabaseEngine.firstControl σ₁ :=
    (Opened.catalogRel freshDisk DatabaseEngine.firstControl).createSystemTables _ σ₁ () hcreate
      (.restore ok _)
  exact opened.xidsOk ok rfl (by decide) (by decide) (fun _ hr => nomatch hr) rfl

/-- A checkpoint leaves nothing buffered. -/
theorem LogOk.checkpointLog_logBuffer {σ : Engine} (ok : LogOk σ) :
    ((LogManager.checkpointLogged σ).flushLog
      (σ.log.nextLsn + LogRecord.headerSize)).log.logBuffer = [] := by
  refine XidsOk.flushLog_logBuffer_eq_nil fun r hr => ?_
  simp only [LogManager.checkpointLogged, LogManager.appendedWith_logBuffer,
    LogManager.appendedWith_nextLsn, List.mem_append, List.mem_singleton] at hr
  rcases hr with (hr | rfl) | rfl
  · have := ok.buffer.pos_lt LogRecord.getSize_pos hr
    omega
  · exact Nat.le_add_right _ _
  · exact Nat.le_refl _

/-- A clean shutdown and the start after it. -/
theorem XidsOk.restart {σ σ' : Engine} (ok : XidsOk σ)
    (run : Op.exec .restart σ = .ok () σ') : XidsOk σ' := by
  obtain ⟨_, σ₄, hclose, hboot⟩ := EStateM.bind_eq_ok_iff.mp run
  obtain ⟨_, σ₁, hflush, hclose⟩ := EStateM.bind_eq_ok_iff.mp hclose
  cases EStateM.modify_eq_ok_iff.mp hflush
  obtain ⟨_, σ₂, hlog, hclose⟩ := EStateM.bind_eq_ok_iff.mp hclose
  cases EStateM.modify_eq_ok_iff.mp hlog
  obtain ⟨_, σ₃, hcheckpoint, hclose⟩ := EStateM.bind_eq_ok_iff.mp hclose
  cases EStateM.modify_eq_ok_iff.mp hclose
  have flushed : XidsOk (σ.flushBuffers.flushLog nullLsn) := (ok.flushBuffers false).flushLog nullLsn
  have closed := flushed.checkpoint hcheckpoint
  have hbuffer : σ₃.log.logBuffer = [] := by
    rw [LogManager.checkpoint_eq] at hcheckpoint
    cases hcheckpoint
    exact flushed.core.log.checkpointLog_logBuffer
  have hnext : σ₃.log.nextLsn = σ₃.disk.logEnd := by
    have htiles := closed.core.log.buffer
    rw [hbuffer] at htiles
    exact htiles.symm
  have hdisk := closed.disk
  refine .boot_normal ?_ ?_ rfl rfl hnext closed.core.pos closed.core.lt ?_ hboot
  · exact ⟨hdisk.tiles, hdisk.covers, hdisk.ne, hdisk.lt, hdisk.records, hdisk.images⟩
  · exact closed.core.init
  · exact fun r hr => closed.core.fresh r (List.mem_append_left _ hr)

/-- The statements a running process serves. -/
theorem XidsOk.exec {σ σ' : Engine} (ok : XidsOk σ) {op : Op} (guard : XidGuard σ op)
    (hrestart : op ≠ .restart) (hcrash : ∀ torn, op ≠ .crash torn)
    (run : op.exec σ = .ok () σ') : XidsOk σ' := by
  cases op with
  | begin =>
      obtain ⟨xid, τ, hbegin, hτ⟩ := EStateM.bind_eq_ok_iff.mp run
      obtain ⟨-, rfl⟩ := EStateM.pure_eq_ok_iff.mp hτ
      exact ok.begin guard hbegin
  | insert xid oid cid data =>
      obtain ⟨rid, τ, hinsert, hτ⟩ := EStateM.bind_eq_ok_iff.mp run
      obtain ⟨-, rfl⟩ := EStateM.pure_eq_ok_iff.mp hτ
      exact ok.insertRecord hinsert
  | delete xid oid rid => exact ok.deleteRecord run
  | commit xid => exact ok.commit run
  | rollback xid => exact ok.rollback run
  | checkpoint =>
      obtain ⟨lsn, τ, hcheckpoint, hτ⟩ := EStateM.bind_eq_ok_iff.mp run
      obtain ⟨-, rfl⟩ := EStateM.pure_eq_ok_iff.mp hτ
      exact ok.checkpoint hcheckpoint
  | fetch oid pageId =>
      simp only [Op.exec] at run
      rw [EStateM.bind_of_ok (EStateM.get_eq_ok_iff.mpr ⟨rfl, rfl⟩)] at run
      cases htable : σ.catalog.getTable oid with
      | error e =>
          rw [htable] at run
          cases run
      | ok table =>
          rw [htable, Db.ofExcept_ok, pure_bind] at run
          obtain ⟨frame, τ, hget, hτ⟩ := EStateM.bind_eq_ok_iff.mp run
          obtain ⟨-, rfl⟩ := EStateM.pure_eq_ok_iff.mp hτ
          exact ok.getPage hget
  | flush =>
      cases EStateM.modify_eq_ok_iff.mp run
      exact ok.flushBuffers false
  | createTable tableName schema =>
      exact XidsOk.catalogRel.createTable tableName schema _ _ _ σ σ' () run ok
  | dropTable tableName => exact XidsOk.catalogRel.dropTable tableName σ σ' () run ok
  | createDatabase databaseName =>
      exact XidsOk.catalogRel.createDatabase databaseName _ _ σ σ' () run ok
  | dropDatabase databaseName missingOk =>
      exact XidsOk.catalogRel.dropDatabase databaseName missingOk σ σ' () run ok
  | changeDatabase databaseName =>
      exact XidsOk.catalogRel.changeDatabase databaseName σ σ' () run ok
  | restart => exact absurd rfl hrestart
  | crash torn => exact absurd rfl (hcrash torn)

/-- What a process that stops leaves, where the flushed ids are bounded. -/
theorem XidsOk.stopped {σ σ₁ : Engine} (ok : XidsOk σ) {torn : Bool}
    (guard : XidGuard σ (.crash torn)) (run : Op.stop torn σ = .ok () σ₁) :
    XidsOk σ₁ ∧ σ₁.disk.logEnd < 2 ^ 32 ∧ ∃ control, σ₁.disk.control = some control ∧
      control.normalShutdown = false ∧ ddlXid < control.nextXid ∧ control.nextXid < 2 ^ 32 ∧
        σ₁.disk.XidsBounded control.nextXid := by
  obtain ⟨control, hcontrol, hnormal, hpos, hlt⟩ := ok.core.control
  cases torn with
  | false =>
      cases run
      obtain ⟨small, bounded⟩ := guard
      rw [hcontrol] at bounded
      exact ⟨ok, small, control, hcontrol, hnormal, hpos, hlt, bounded⟩
  | true =>
      obtain ⟨small, bounded⟩ := guard
      rw [hcontrol] at bounded
      obtain ⟨lsns, τ, hcheckpoint, hτ⟩ := EStateM.bind_eq_ok_iff.mp run
      obtain ⟨-, rfl⟩ := EStateM.pure_eq_ok_iff.mp hτ
      rw [LogManager.checkpointLog_eq] at hcheckpoint
      cases hcheckpoint
      have flushed := ok.checkpointLogged.flushLog (σ.log.nextLsn + LogRecord.headerSize)
      have hend := flushed.core.log.logEnd_le_nextLsn
      rw [Engine.flushLog_nextLsn] at hend
      refine ⟨flushed, Nat.lt_of_le_of_lt hend small, control, ?_, hnormal, hpos, hlt, ?_⟩
      · rw [Engine.flushLog_control]
        exact hcontrol
      · intro r hr hnull
        have happ : r ∈ ((LogManager.checkpointLogged σ).flushLog
            (σ.log.nextLsn + LogRecord.headerSize)).appended := List.mem_append_left _ hr
        rw [Engine.mem_appended_flushLog, Engine.mem_appended] at happ
        simp only [LogManager.checkpointLogged, LogManager.appendedWith_logBuffer,
          LogManager.appendedWith_nextLsn, List.mem_append, List.mem_singleton] at happ
        refine .inl ?_
        rcases happ with happ | (happ | rfl) | rfl
        · exact bounded r (List.mem_append_left _ happ) hnull
        · exact bounded r (List.mem_append_right _ happ) hnull
        · exact absurd rfl hnull
        · exact absurd rfl hnull

/-- A crash at which the flushed ids are bounded. -/
theorem XidsOk.crash {σ σ' : Engine} (ok : XidsOk σ) {torn : Bool}
    (guard : XidGuard σ (.crash torn)) (run : Op.exec (.crash torn) σ = .ok () σ') : XidsOk σ' := by
  obtain ⟨_, σ₁, hstop, hboot⟩ := EStateM.bind_eq_ok_iff.mp run
  obtain ⟨stopped, small, control, hcontrol, hnormal, hpos, hlt, bounded⟩ := ok.stopped guard hstop
  exact .boot stopped.disk stopped.core.init hcontrol hnormal hpos hlt small bounded hboot

theorem XidsOk.of_reaches {σ : Engine} (run : Op.Reaches XidGuard σ) : XidsOk σ := by
  induction run with
  | boot hboot => exact .boot_freshDisk hboot
  | @step σ σ' op _ guard exec ih =>
      by_cases hrestart : op = .restart
      · subst hrestart
        exact ih.restart exec
      by_cases hcrash : ∃ torn, op = .crash torn
      · obtain ⟨torn, rfl⟩ := hcrash
        exact ih.crash guard exec
      · exact ih.exec guard hrestart (fun torn htorn => hcrash ⟨torn, htorn⟩) exec

/-- A transaction after the checkpoint, and then a crash. -/
def beginThenCrash : List Op := [.flush, .checkpoint, .begin, .commit 1, .crash false]

/-- A transaction before the checkpoint. -/
def checkpointThenCrash : List Op := [.flush, .begin, .commit 1, .checkpoint, .crash false]

end HuaDB
