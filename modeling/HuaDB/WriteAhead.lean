import HuaDB.TableRuns

/-!
What is in the log file before a page is on disk.

`BufferPool::FlushPage` flushes the log up to the page LSN before it writes a page. So a
page of a table reaches the disk after every record of an insertion, of a deletion and of
its own creation, whichever operation evicts it (`write_ahead`). The link that a new page
is entered with in the page before it carries no page LSN and is not among these.
-/

namespace HuaDB

open EStateM (RunsFrom)
open LinkedList (Segment)

/-- The records of the log buffer are before the next one. -/
theorem ChainOk.lsn_le {σ : Engine} (log : ChainOk σ) :
    ∀ r ∈ σ.log.logBuffer, r.lsn ≤ σ.log.nextLsn := by
  obtain ⟨start, mid, split⟩ := log.split
  exact fun r hr => Nat.le_of_lt (split.bufferTiles.pos_lt LogRecord.getSize_pos hr)

/-- Every page of the table in a frame has the LSN of its last record, or a larger one,
and no page that was written has had a record in the log buffer. -/
structure Ahead (oid : Nat) (σ : Engine) : Prop where
  frames : ∀ entry ∈ σ.pool.buffers, entry.tableOid = oid → ∀ r ∈ σ.log.logBuffer,
    r.page? = some entry.key → entry.isDirty = true ∧ r.lsn ≤ entry.page.pageLsn
  mapped : ∀ r ∈ σ.log.logBuffer, ∀ p, r.page? = some ⟨oid, p⟩ → (σ.pool.hashmap ⟨oid, p⟩).isSome
  writes : ∀ w ∈ σ.pageWrites, w.key.tableOid = oid → ∀ r ∈ w.unlogged, r.page? ≠ some w.key

/-- What keeps it. -/
def KeepsAhead (oid : Nat) (σ σ' : Engine) : Prop := Ahead oid σ → Ahead oid σ'

namespace KeepsAhead

variable {oid : Nat} {σ σ' : Engine}

theorem refl (oid : Nat) (σ : Engine) : KeepsAhead oid σ σ := id

theorem trans (σ₁ σ₂ σ₃ : Engine) (h : KeepsAhead oid σ₁ σ₂) (h' : KeepsAhead oid σ₂ σ₃) :
    KeepsAhead oid σ₁ σ₃ := fun ok => h' (h ok)

/-- Fewer records in the buffer. -/
theorem of_subset (hpool : σ'.pool = σ.pool) (hwrites : σ'.pageWrites = σ.pageWrites)
    (hbuffer : σ'.log.logBuffer ⊆ σ.log.logBuffer) : KeepsAhead oid σ σ' := fun ok =>
  { frames := fun entry hentry htable r hr => ok.frames entry (hpool ▸ hentry) htable r (hbuffer hr)
    mapped := fun r hr p hpage => hpool ▸ ok.mapped r (hbuffer hr) p hpage
    writes := hwrites ▸ ok.writes }

theorem flushLog (oid : Nat) (σ : Engine) (lsn : Nat) : KeepsAhead oid σ (σ.flushLog lsn) :=
  of_subset (σ.flushLog_pool lsn) (σ.flushLog_pageWrites lsn) (by
    rw [Engine.flushLog_logBuffer]
    exact List.filter_subset_self _)

/-- Records that name no page of the table. -/
theorem of_append {records : List LogRecord} (hpool : σ'.pool = σ.pool)
    (hwrites : σ'.pageWrites = σ.pageWrites)
    (hbuffer : σ'.log.logBuffer = σ.log.logBuffer ++ records)
    (hoff : ∀ r ∈ records, r.page? = none) : KeepsAhead oid σ σ' := fun ok => by
  refine { frames := fun entry hentry htable r hr hpage => ?_, mapped := fun r hr p hpage => ?_,
           writes := hwrites ▸ ok.writes }
  · rw [hpool] at hentry
    rw [hbuffer] at hr
    rcases List.mem_append.mp hr with hr | hr
    · exact ok.frames entry hentry htable r hr hpage
    · cases (hoff r hr).symm.trans hpage
  · rw [hpool]
    rw [hbuffer] at hr
    rcases List.mem_append.mp hr with hr | hr
    · exact ok.mapped r hr p hpage
    · cases (hoff r hr).symm.trans hpage

/-! ## The buffer pool -/

/-- The records of a page that is written back are in the log file. -/
theorem flushPage (oid : Nat) (σ : Engine) (frame : Nat) : KeepsAhead oid σ (σ.flushPage frame) := by
  intro ok
  unfold Engine.flushPage
  cases hentry : σ.pool.buffers[frame]? with
  | none => exact ok
  | some entry =>
      have hmem := List.mem_of_getElem? hentry
      have hunmap {σ₁ : Engine} (ok₁ : Ahead oid σ₁)
          (h : entry.tableOid = oid → ∀ r ∈ σ₁.log.logBuffer, r.page? ≠ some entry.key) :
          Ahead oid { σ₁ with pool := { σ₁.pool with
            hashmap := fun k => if k = entry.key then none else σ₁.pool.hashmap k } } := by
        refine ⟨ok₁.frames, fun r hr p hpage => ?_, ok₁.writes⟩
        dsimp only
        split
        · rename_i hkey
          refine absurd (hkey ▸ hpage) (h ?_ r hr)
          exact (congrArg TablePageid.tableOid hkey).symm
        · exact ok₁.mapped r hr p hpage
      by_cases hdirty : entry.isDirty = true
      · -- what is left of the buffer is behind the page LSN
        have hleft (htable : entry.tableOid = oid) (r : LogRecord)
            (hr : r ∈ (σ.flushLog entry.page.pageLsn).log.logBuffer) : r.page? ≠ some entry.key := by
          intro hpage
          rw [Engine.flushLog_logBuffer] at hr
          obtain ⟨hr, hdue⟩ := List.mem_filter.mp hr
          have hle := (ok.frames entry hmem htable r hr hpage).2
          simp [LogRecord.isDue, hle] at hdue
        have ok₁ := flushLog oid σ entry.page.pageLsn ok
        let σ₁ := σ.logFlushPage entry.key entry.page.pageLsn
        let σ₂ : Engine := { σ₁ with
          disk := σ₁.disk.writePage ⟨entry.dbOid, entry.tableOid⟩ entry.pageId entry.page
          pageWrites := ⟨entry.key, entry.page, σ₁.log.logBuffer⟩ :: σ₁.pageWrites }
        have ok₂ : Ahead oid σ₂ := by
          refine ⟨ok₁.frames, ok₁.mapped, fun w hw htable => ?_⟩
          rcases List.mem_cons.mp hw with rfl | hw
          · exact fun r hr => hleft htable r hr
          · exact ok₁.writes w hw htable
        simp only [hdirty, ↓reduceIte]
        exact hunmap ok₂ hleft
      · simp only [if_neg hdirty]
        exact hunmap ok fun htable r hr hpage => hdirty (ok.frames entry hmem htable r hr hpage).1

/-- A page enters the pool that no frame holds. -/
theorem install {entry : BufferPoolEntry} {buffers : List BufferPoolEntry} {frame : Nat}
    {bufferVec : List Nat} (h : entry.tableOid = oid → σ.pool.hashmap entry.key = none)
    (hsub : ∀ e ∈ buffers, e = entry ∨ e ∈ σ.pool.buffers) :
    KeepsAhead oid σ { σ with pool := {
      buffers := buffers
      hashmap := fun k => if k = entry.key then some frame else σ.pool.hashmap k
      bufferVec := bufferVec } } := by
  intro ok
  refine ⟨fun e he htable r hr hpage => ?_, fun r hr p hpage => ?_, ok.writes⟩
  · rcases hsub e he with rfl | he
    · have hmap := ok.mapped r hr e.pageId (by rw [hpage, ← htable]; rfl)
      rw [← htable] at hmap
      have hnone := h htable
      unfold BufferPoolEntry.key at hnone
      rw [hnone] at hmap
      cases hmap
    · exact ok.frames e he htable r hr hpage
  · dsimp only
    split
    · rfl
    · exact ok.mapped r hr p hpage

theorem addToBuffer {entry : BufferPoolEntry}
    (h : entry.tableOid = oid → σ.pool.hashmap entry.key = none) :
    RunsFrom (KeepsAhead oid) σ (BufferPool.addToBuffer entry) := by
  intro σ' frame run
  rcases BufferPool.addToBuffer_eq_ok_iff.mp run with ⟨-, -, rfl⟩ | ⟨-, rfl, rfl⟩
  · intro ok
    let σ₀ : Engine := { σ with pool := { σ.pool with bufferVec := σ.pool.bufferVec.erase frame } }
    have ok₀ : Ahead oid σ₀ := ⟨ok.frames, ok.mapped, ok.writes⟩
    refine install (fun htable => ?_) (fun e he => ?_) (flushPage oid σ₀ frame ok₀)
    · cases hentry : σ₀.pool.buffers[frame]? with
      | none =>
          unfold Engine.flushPage
          rw [hentry]
          exact h htable
      | some victim =>
          rw [Engine.flushPage_pool hentry]
          dsimp only
          split
          · rfl
          · exact h htable
    · rcases List.mem_or_eq_of_mem_set he with he | he
      · exact .inr he
      · exact .inl he
  · exact install h fun e he => (List.mem_append.mp he).symm.imp_left List.mem_singleton.mp

theorem getPage (oid dbOid tableOid pageId : Nat) (σ : Engine) :
    RunsFrom (KeepsAhead oid) σ (BufferPool.getPage dbOid tableOid pageId) := by
  unfold BufferPool.getPage
  refine .get_bind ?_
  split
  · rename_i hmap
    split
    · exact .throw _
    · exact addToBuffer fun _ => hmap
  · exact .bind trans (.set fun ok => ⟨ok.frames, ok.mapped, ok.writes⟩) fun _ _ => .pure (refl oid) _

theorem page (oid frame : Nat) (σ : Engine) : RunsFrom (KeepsAhead oid) σ (BufferPool.page frame) := by
  intro σ' page run
  obtain ⟨_, -, -, rfl⟩ := BufferPool.page_eq_ok_iff.mp run
  exact refl oid _

/-- A page with another contents, under its LSN or of another table. -/
theorem withPage {frame : Nat} {entry : BufferPoolEntry} {page : TablePage}
    (hentry : σ.pool.buffers[frame]? = some entry)
    (h : entry.tableOid ≠ oid ∨ page.pageLsn = entry.page.pageLsn) :
    KeepsAhead oid σ { σ with pool := σ.pool.withPage frame page } := by
  intro ok
  refine ⟨fun e he htable r hr hpage => ?_, ok.mapped, ok.writes⟩
  rcases BufferPool.mem_withPage he with he | ⟨entry', hentry', rfl⟩
  · exact ok.frames e he htable r hr hpage
  · cases hentry.symm.trans hentry'
    refine ⟨rfl, ?_⟩
    rw [h.resolve_left (not_not.mpr htable)]
    exact (ok.frames entry (List.mem_of_getElem? hentry) htable r hr hpage).2

theorem setNextPageId (oid frame pageId : Nat) (σ : Engine) :
    RunsFrom (KeepsAhead oid) σ (BufferPool.modifyPage frame fun p => p.setNextPageId pageId) := by
  intro σ' _ run
  obtain ⟨entry, hentry, rfl⟩ := BufferPool.modifyPage_eq_ok run
  exact withPage hentry (.inr rfl)

theorem modifyPage? {f : TablePage → Option TablePage}
    (h : ∀ page page', f page = some page' → page'.pageLsn = page.pageLsn) (oid frame : Nat)
    (σ : Engine) : RunsFrom (KeepsAhead oid) σ (BufferPool.modifyPage? frame f) := by
  intro σ' _ run
  obtain ⟨entry, page, hentry, hpage, rfl⟩ := BufferPool.modifyPage?_eq_ok run
  exact withPage hentry (.inr (h _ _ hpage))

theorem flushBuffers (oid : Nat) (σ : Engine) (regularOnly : Bool) :
    KeepsAhead oid σ (σ.flushBuffers regularOnly) := by
  intro ok
  have hflushed (frames : List Nat) {σ : Engine} (ok : Ahead oid σ) :
      Ahead oid (frames.foldl Engine.flushPage σ) := by
    induction frames generalizing σ with
    | nil => exact ok
    | cons frame frames ih => exact ih (flushPage oid σ frame ok)
  have ok' := hflushed (List.range σ.pool.buffers.length) ok
  unfold Engine.flushBuffers
  cases regularOnly <;> exact ⟨fun _ h => absurd h List.not_mem_nil, ok'.mapped, ok'.writes⟩

theorem findRoom (oid dbOid tableOid size fuel lastPageId nextPageId : Nat) (σ : Engine) :
    RunsFrom (KeepsAhead oid) σ (Table.findRoom dbOid tableOid size fuel lastPageId nextPageId) := by
  induction fuel generalizing lastPageId nextPageId σ with
  | zero => exact .throw _
  | succ fuel ih =>
      unfold Table.findRoom
      split
      · exact .pure (refl oid) _
      · refine .bind trans (getPage oid _ _ _ _) fun _ _ => ?_
        refine .bind trans (page oid _ _) fun _ _ => ?_
        split
        · exact .pure (refl oid) _
        · split
          · exact .bind trans (setNextPageId oid _ _ _) fun _ _ => ih _ _ _
          · exact ih _ _ _

/-! ## Undoing -/

theorem modifyHeader {page page' : TablePage} {slotId : Nat} {f : RecordHeader → RecordHeader}
    (h : page.modifyHeader slotId f = some page') : page'.pageLsn = page.pageLsn := by
  obtain ⟨_, -, rfl⟩ := Option.map_eq_some_iff.mp h
  rfl

theorem undoRecord (oid : Nat) (r : LogRecord) (σ : Engine) :
    RunsFrom (KeepsAhead oid) σ (LogManager.undoRecord r) := by
  unfold LogManager.undoRecord
  split
  · refine .get_bind (Db.ofExcept_bind fun _ _ => .bind trans (getPage oid _ _ _ _) fun _ _ => ?_)
    exact modifyPage? (fun _ _ => modifyHeader) oid _ _
  · refine .get_bind (Db.ofExcept_bind fun _ _ => .bind trans (getPage oid _ _ _ _) fun _ _ => ?_)
    exact modifyPage? (fun _ _ => modifyHeader) oid _ _
  · refine .get_bind (Db.ofExcept_bind fun _ _ => .bind trans (getPage oid _ _ _ _) fun _ _ => ?_)
    refine .bind trans (getPage oid _ _ _ _) fun _ _ => .bind trans (page oid _ _) fun _ _ => ?_
    exact setNextPageId oid _ _ _
  · exact .pure (refl oid) _

theorem rollbackLoop (oid fuel lsn : Nat) (σ : Engine) :
    RunsFrom (KeepsAhead oid) σ (LogManager.rollbackLoop fuel lsn) := by
  induction fuel generalizing lsn σ with
  | zero =>
      unfold LogManager.rollbackLoop
      split
      · exact .pure (refl oid) _
      · exact .throw _
  | succ fuel ih =>
      unfold LogManager.rollbackLoop
      split
      · exact .pure (refl oid) _
      · refine .get_bind ?_
        split
        · refine .get_bind ?_
          split
          · exact .throw _
          · exact .bind trans (undoRecord oid _ _) fun _ _ => ih _ _
        · unfold LogManager.readRecord
          rw [bind_assoc]
          refine .get_bind ?_
          rw [bind_assoc]
          refine Db.ofExcept_bind fun _ _ => Db.ofExcept_bind fun _ _ => ?_
          exact .bind trans (undoRecord oid _ _) fun _ _ => ih _ _

theorem rollback (oid xid : Nat) (σ : Engine) :
    RunsFrom (KeepsAhead oid) σ (LogManager.rollback xid) := by
  unfold LogManager.rollback
  refine .bind trans (.modify (of_subset rfl rfl (List.Subset.refl _))) fun _ _ => .get_bind ?_
  exact rollbackLoop oid _ _ _

/-! ## Appending -/

/-- The end record of a transaction is flushed at once. -/
theorem appendEndLog (oid xid : Nat) {body : LogBody} (caller : String) (σ : Engine)
    (hbody : body = .commit ∨ body = .rollback) :
    RunsFrom (KeepsAhead oid) σ (LogManager.appendEndLog xid body caller) := by
  intro σ' _ run
  obtain ⟨lastLsn, -, rfl⟩ := LogOp.eq_ended run
  have logged : KeepsAhead oid σ
      (σ.appendedWith xid lastLsn body (σ.log.att.erase xid) σ.log.dpt) := by
    refine of_append rfl rfl rfl fun r hr => ?_
    cases List.mem_singleton.mp hr
    rcases hbody with rfl | rfl <;> rfl
  exact logged.trans _ _ _ (flushLog oid _ _)

theorem checkpoint (oid : Nat) (σ : Engine) : RunsFrom (KeepsAhead oid) σ LogManager.checkpoint := by
  intro σ' _ run
  rw [LogManager.checkpoint_eq] at run
  cases run
  have logged : KeepsAhead oid σ (LogManager.checkpointLogged σ) := by
    refine of_append rfl rfl (List.append_assoc _ _ _) ?_
    intro r hr
    rcases List.mem_cons.mp hr with rfl | hr
    · rfl
    · cases List.mem_singleton.mp hr
      rfl
  exact fun ok =>
    let ok' := flushLog oid _ _ (logged ok)
    ⟨ok'.frames, ok'.mapped, ok'.writes⟩

theorem begin (oid : Nat) (σ : Engine) : RunsFrom (KeepsAhead oid) σ DatabaseEngine.begin := by
  intro σ' xid run
  obtain ⟨-, -, rfl⟩ := DatabaseEngine.begin_eq_ok run
  refine of_append rfl rfl rfl fun r hr => ?_
  cases List.mem_singleton.mp hr
  rfl

theorem commit (oid xid : Nat) (σ : Engine) :
    RunsFrom (KeepsAhead oid) σ (DatabaseEngine.commit xid) := by
  intro σ' _ run
  obtain ⟨lsn, σ₁, txn, happend, -, rfl⟩ := DatabaseEngine.commit_eq_ok run
  exact fun ok =>
    let ok' := appendEndLog oid xid _ σ (.inl rfl) σ₁ lsn happend ok
    ⟨ok'.frames, ok'.mapped, ok'.writes⟩

theorem rollbackTransaction (oid xid : Nat) (σ : Engine) :
    RunsFrom (KeepsAhead oid) σ (DatabaseEngine.rollback xid) := by
  intro σ' _ run
  obtain ⟨σ₁, lsn, σ₂, txn, hundo, happend, -, rfl⟩ := DatabaseEngine.rollback_eq_ok run
  exact fun ok =>
    let ok₁ := rollback oid xid σ σ₁ () hundo ok
    let ok' := appendEndLog oid xid _ σ₁ (.inr rfl) σ₂ lsn happend ok₁
    ⟨ok'.frames, ok'.mapped, ok'.writes⟩

/-! ## Changing a page and logging it -/

/-- A frame that an operation on a table was handed for a page: no other frame holds it. -/
def Owns (oid : Nat) (σ : Engine) (frame : Nat) (key : TablePageid) : Prop :=
  key.tableOid = oid → σ.pool.hashmap key = some frame ∧
    ∀ i e, σ.pool.buffers[i]? = some e → e.key = key → i = frame

theorem Owns.of_holds {dbOid frame : Nat} {entry : BufferPoolEntry} {key : TablePageid}
    (cached : Cached dbOid oid σ) (holds : Holds σ frame entry) (hkey : entry.key = key) :
    Owns oid σ frame key := by
  subst hkey
  refine fun htable => ⟨holds.mapped, fun i e he hkey => ?_⟩
  have hmap := (cached.frame i e trivial he ((congrArg TablePageid.tableOid hkey).trans htable)).2.1
  rw [hkey, holds.mapped] at hmap
  exact (Option.some.inj hmap).symm

theorem Owns.of_ne {frame : Nat} {key : TablePageid} (h : key.tableOid ≠ oid) : Owns oid σ frame key :=
  fun h' => absurd h' h

/-- The page of a frame is changed, under the LSN of the last record that is logged
for it. -/
theorem stamped {frame : Nat} {key : TablePageid} {page : TablePage} {records : List LogRecord}
    (owns : Owns oid σ frame key) (hpool : σ'.pool = σ.pool.withPage frame page)
    (hwrites : σ'.pageWrites = σ.pageWrites)
    (hbuffer : σ'.log.logBuffer = σ.log.logBuffer ++ records)
    (hnamed : ∀ r ∈ records, r.page? = some key)
    (hlast : ∀ r ∈ σ'.log.logBuffer, r.lsn ≤ page.pageLsn) : KeepsAhead oid σ σ' := by
  intro ok
  refine ⟨fun e he htable r hr hpage => ?_, fun r hr p hpage => ?_, hwrites ▸ ok.writes⟩
  · obtain ⟨i, hi⟩ := List.mem_iff_getElem?.mp he
    rw [hpool, BufferPool.getElem?_withPage] at hi
    split at hi
    · obtain ⟨entry, -, rfl⟩ := Option.map_eq_some_iff.mp hi
      exact ⟨rfl, hlast r hr⟩
    · rename_i hne
      rw [hbuffer] at hr
      rcases List.mem_append.mp hr with hr | hr
      · exact ok.frames e (List.mem_of_getElem? hi) htable r hr hpage
      · cases (hnamed r hr).symm.trans hpage
        exact absurd ((owns htable).2 i e hi rfl).symm hne
  · rw [hpool]
    rw [hbuffer] at hr
    rcases List.mem_append.mp hr with hr | hr
    · exact ok.mapped r hr p hpage
    · cases (hnamed r hr).symm.trans hpage
      exact Option.isSome_of_mem (owns rfl).1

section

variable {oid' frame pageId xid cid : Nat} {record : Record} {rid : Rid}

theorem insertInto (log : ChainOk σ) (owns : Owns oid σ frame ⟨oid', pageId⟩) :
    RunsFrom (KeepsAhead oid) σ (Table.insertInto oid' pageId frame record xid cid) := by
  intro σ' rid run
  obtain ⟨entry, prevLsn, -, -, -, rfl⟩ := Table.insertInto_eq_ok run
  refine stamped owns rfl rfl rfl (fun r hr => ?_) fun r hr => ?_
  · cases List.mem_singleton.mp hr
    rfl
  · rcases List.mem_append.mp hr with hr | hr
    · exact log.lsn_le r hr
    · cases List.mem_singleton.mp hr
      exact Nat.le_refl _

theorem insertIntoNewPage {prevPageId : Nat} (log : ChainOk σ)
    (owns : Owns oid σ frame ⟨oid', pageId⟩) :
    RunsFrom (KeepsAhead oid) σ
      (Table.insertIntoNewPage oid' prevPageId pageId frame record xid cid) := by
  intro σ' rid run
  obtain ⟨entry, prevLsn, -, -, -, rfl⟩ := Table.insertIntoNewPage_eq_ok log.find?_ddlXid run
  refine stamped owns rfl rfl (List.append_assoc _ _ _) (fun r hr => ?_) fun r hr => ?_
  · rcases List.mem_cons.mp hr with rfl | hr
    · rfl
    · cases List.mem_singleton.mp hr
      rfl
  · have hlt : σ.log.nextLsn ≤ (Table.newPageLogged σ.log oid' prevPageId pageId xid prevLsn).nextLsn :=
      Nat.le_of_lt (LogRecord.lsn_lt_endLsn (σ.nextRecord xid _ (.newPage oid' prevPageId pageId)))
    rcases List.mem_append.mp hr with hr | hr
    · rcases List.mem_append.mp hr with hr | hr
      · exact Nat.le_trans (log.lsn_le r hr) hlt
      · cases List.mem_singleton.mp hr
        exact hlt
    · cases List.mem_singleton.mp hr
      exact Nat.le_refl _

/-- `BufferPool::NewPage` hands out a frame that no other page is in. -/
theorem Owns.of_newPage {dbOid : Nat} (cached : Cached dbOid oid σ)
    (hfree : σ.pool.hashmap ⟨oid, pageId⟩ = none)
    (run : BufferPool.newPage dbOid oid pageId σ = .ok frame σ') : Owns oid σ' frame ⟨oid, pageId⟩ := by
  obtain ⟨-, hands⟩ := cached.newPage hfree run
  obtain ⟨hmap, hunique⟩ := Owns.of_holds (hands .zero).cached (hands .zero).holds rfl rfl
  refine fun _ => ⟨hmap, fun i e he hkey => ?_⟩
  by_cases heq : frame = i
  · exact heq.symm
  · exact hunique i e (by rw [BufferPool.getElem?_withPage, if_neg heq, he]) hkey

theorem newPage (dbOid : Nat) (h : oid' = oid → σ.pool.hashmap ⟨oid', pageId⟩ = none) :
    RunsFrom (KeepsAhead oid) σ (BufferPool.newPage dbOid oid' pageId) := addToBuffer h

/-- A new page enters the pool, and a record goes into it. The catalog may change in
between. -/
theorem created (dbOid : Nat) {dbOid' prevPageId : Nat} {σ₁ : Engine} {catalog : SystemCatalog}
    (log : ChainOk σ) (hnew : BufferPool.newPage dbOid' oid' pageId σ = .ok frame σ₁)
    (own : oid' = oid → dbOid' = dbOid ∧ Cached dbOid oid σ ∧ σ.pool.hashmap ⟨oid, pageId⟩ = none)
    (run : Table.insertIntoNewPage oid' prevPageId pageId frame record xid cid
      { σ₁ with catalog := catalog } = .ok rid σ') : KeepsAhead oid σ σ' := by
  have hentered : KeepsAhead oid σ σ₁ := by
    refine newPage dbOid' (fun h => ?_) σ₁ frame hnew
    subst h
    exact (own rfl).2.2
  have log₁ : ChainOk { σ₁ with catalog := catalog } :=
    ((Quiet.poolRel.newPage _ _ _ _ _ _ hnew).log log).1.congr rfl rfl rfl rfl rfl rfl
  have owns : Owns oid σ₁ frame ⟨oid', pageId⟩ := by
    by_cases hoid : oid' = oid
    · subst hoid
      obtain ⟨rfl, cached, hfree⟩ := own rfl
      exact Owns.of_newPage cached hfree hnew
    · exact .of_ne hoid
  exact hentered.trans _ _ _ fun ok =>
    insertIntoNewPage log₁ owns σ' rid run ⟨ok.frames, ok.mapped, ok.writes⟩

/-- An insertion into another table. -/
theorem insertRecord_beside (hoid : oid' ≠ oid) (log : ChainOk σ) :
    RunsFrom (KeepsAhead oid) σ (Table.insertRecord oid' record xid cid) := by
  intro σ' rid run
  have own {dbOid' dbOid pageId : Nat} {σ : Engine} (h : oid' = oid) :
      dbOid' = dbOid ∧ Cached dbOid oid σ ∧ σ.pool.hashmap ⟨oid, pageId⟩ = none := absurd h hoid
  obtain ⟨table, -, -, h⟩ := Table.insertRecord_eq_ok run
  rcases h with ⟨-, frame, σ₁, hnew, hinsert⟩ | ⟨-, first, σ₁, entry, hget, -, h⟩
  · exact created table.dbOid log hnew own hinsert
  have keeps₁ : KeepsAhead oid σ σ₁ := getPage oid _ _ _ σ σ₁ first hget
  have quiet₁ : Quiet σ σ₁ := Quiet.poolRel.getPage _ _ _ _ _ _ hget
  rcases h with ⟨-, hinsert⟩ | ⟨-, found, σ₂, hfind, h⟩
  · exact keeps₁.trans _ _ _ (insertInto (quiet₁.log log).1 (.of_ne hoid) σ' rid hinsert)
  have keeps₂ : KeepsAhead oid σ σ₂ := keeps₁.trans _ _ _ (findRoom oid _ _ _ _ _ _ σ₁ σ₂ found hfind)
  have quiet₂ : Quiet σ σ₂ := quiet₁.trans _ _ _ (Quiet.poolRel.findRoom _ _ _ _ _ _ _ _ _ hfind)
  rcases h with ⟨frame, -, hinsert⟩ | ⟨-, frame, σ₃, σ₄, hlink, hnew, hinsert⟩
  · exact keeps₂.trans _ _ _ (insertInto (quiet₂.log log).1 (.of_ne hoid) σ' rid hinsert)
  · have hlinked : KeepsAhead oid σ σ₃ ∧ Quiet σ σ₃ := by
      rcases hlink with ⟨-, hlink⟩ | ⟨-, rfl⟩
      · refine ⟨keeps₂.trans _ _ _ (setNextPageId oid _ _ σ₂ σ₃ () hlink), ?_⟩
        obtain ⟨_, -, rfl⟩ := BufferPool.modifyPage_eq_ok hlink
        exact quiet₂.trans _ _ _ (Quiet.poolRel.pool σ₂ _)
      · exact ⟨keeps₂, quiet₂⟩
    obtain ⟨keeps₃, quiet₃⟩ := hlinked
    exact keeps₃.trans _ _ _ (created table.dbOid (quiet₃.log log).1 hnew own hinsert)

/-- An insertion into the table itself, where a page that it creates is in no frame. -/
theorem insertRecord {dbOid : Nat} {table : Table} {pages : List Nat} (log : ChainOk σ)
    (cached : Cached dbOid oid σ) (htable : σ.catalog.oid2table.find? oid = some table)
    (hdb : table.dbOid = dbOid)
    (linked : Segment (σ.nextPage dbOid oid) nullPageId table.firstPageId pages nullPageId)
    (sorted : pages.Pairwise (· < ·))
    (hfree : Table.Full dbOid oid record.getSize pages σ →
      σ.pool.hashmap ⟨oid, Table.newPageId pages⟩ = none) :
    RunsFrom (KeepsAhead oid) σ (Table.insertRecord oid record xid cid) := by
  subst hdb
  intro σ' rid run
  obtain ⟨_, htable', -, h⟩ := Table.insertRecord_eq_ok run
  cases htable.symm.trans htable'
  rcases h with ⟨hfirst, frame, σ₁, hnew, hinsert⟩ | ⟨hfirst, first, σ₁, entry, hget, hentry, h⟩
  · -- the first page of the table
    have hnil : pages = [] := by
      cases pages with
      | nil => rfl
      | cons p pages => exact absurd hfirst linked.1
    subst hnil
    exact created table.dbOid log hnew (fun _ => ⟨rfl, cached, hfree fun _ h => absurd h List.not_mem_nil⟩) hinsert
  cases pages with
  | nil => exact absurd linked hfirst
  | cons p pages =>
      obtain ⟨-, rfl, next, hnext, rest⟩ := linked
      have keeps₁ : KeepsAhead oid σ σ₁ := getPage oid _ _ _ σ σ₁ first hget
      have quiet₁ : Quiet σ σ₁ := Quiet.poolRel.getPage _ _ _ _ _ _ hget
      obtain ⟨entry', hkey, hview, hands, shows₁⟩ := cached.getPage hget
      cases hentry.symm.trans hands.holds.stored
      rw [Engine.nextPage_of_view hview] at hnext
      cases hnext
      rcases h with ⟨-, hinsert⟩ | ⟨hfull, found, σ₂, hfind, h⟩
      · exact keeps₁.trans _ _ _ (insertInto (quiet₁.log log).1
          (.of_holds hands.cached hands.holds hkey) σ' rid hinsert)
      -- the first page is full: a later one has room, or the last one gets a successor
      have keeps₂ : KeepsAhead oid σ σ₂ :=
        keeps₁.trans _ _ _ (findRoom oid _ _ _ _ _ _ σ₁ σ₂ found hfind)
      have quiet₂ : Quiet σ σ₂ := quiet₁.trans _ _ _ (Quiet.poolRel.findRoom _ _ _ _ _ _ _ _ _ hfind)
      obtain ⟨cached₂, hfound, hunmapped⟩ := Table.findRoom_found hands.cached (shows₁.segment rest) hfind
      have hmem := Table.newPageId_not_mem sorted
      have hfree₂ (full : Table.Full table.dbOid oid record.getSize pages σ₁) :
          σ₂.pool.hashmap ⟨oid, Table.newPageId (table.firstPageId :: pages)⟩ = none := by
        refine hunmapped _ (fun h => hmem (List.mem_cons_of_mem _ h)) (hands.unmapped _ (fun h => hmem ?_)
          (hfree ((full.of_shows shows₁).cons hview hfull)))
        have hpage : Table.newPageId (table.firstPageId :: pages) = table.firstPageId :=
          congrArg TablePageid.pageId (h.trans hkey)
        rw [hpage]
        exact List.mem_cons_self
      rcases h with ⟨frame, hsome, hinsert⟩ | ⟨hnone, frame, σ₃, σ₄, hlink, hnew, hinsert⟩
      · cases hfound with
        | room mem view free key holds shows' =>
            cases hsome
            exact keeps₂.trans _ _ _ (insertInto (quiet₂.log log).1
              (.of_holds cached₂ holds key) σ' rid hinsert)
        | none => cases hsome
        | last => cases hsome
      · have hlinked : KeepsAhead oid σ σ₃ ∧ Quiet σ σ₃ ∧ Cached table.dbOid oid σ₃ ∧
            σ₃.pool.hashmap = σ₂.pool.hashmap := by
          rcases hlink with ⟨-, hlink⟩ | ⟨-, rfl⟩
          · have keeps₃ := keeps₂.trans _ _ _ (setNextPageId oid _ _ σ₂ σ₃ () hlink)
            obtain ⟨_, -, rfl⟩ := BufferPool.modifyPage_eq_ok hlink
            exact ⟨keeps₃, quiet₂.trans _ _ _ (Quiet.poolRel.pool σ₂ _), cached₂.withPage _ _, rfl⟩
          · exact ⟨keeps₂, quiet₂, cached₂, rfl⟩
        obtain ⟨keeps₃, quiet₃, cached₃, hmap₃⟩ := hlinked
        have hfree₃ : σ₃.pool.hashmap ⟨oid, found.2 + 1⟩ = none := by
          rw [hmap₃]
          cases hfound with
          | room => cases hnone
          | none nil same =>
              subst nil
              exact hfree₂ fun _ h => absurd h List.not_mem_nil
          | @last before q page eq full view stores =>
              subst eq
              rw [← Table.newPageId_concat (table.firstPageId :: before)]
              exact hfree₂ full
        exact keeps₃.trans _ _ _
          (created table.dbOid (quiet₃.log log).1 hnew (fun _ => ⟨rfl, cached₃, hfree₃⟩) hinsert)

/-- A deletion, from the table or another. -/
theorem deleteRecord (dbOid : Nat) (log : ChainOk σ) (own : oid' = oid → Cached dbOid oid σ ∧
      ∀ table, σ.catalog.oid2table.find? oid = some table → table.dbOid = dbOid) :
    RunsFrom (KeepsAhead oid) σ (Table.deleteRecord oid' rid xid) := by
  intro σ' _ run
  obtain ⟨table, frame, σ₁, entry, page, prevLsn, htable, hget, hentry, -, -, rfl⟩ :=
    Table.deleteRecord_eq_ok run
  have keeps₁ : KeepsAhead oid σ σ₁ := getPage oid _ _ _ σ σ₁ frame hget
  have log₁ := ((Quiet.poolRel.getPage _ _ _ _ _ _ hget).log log).1
  have owns : Owns oid σ₁ frame ⟨oid', rid.pageId⟩ := by
    by_cases hoid : oid' = oid
    · subst hoid
      obtain ⟨cached, hdb⟩ := own rfl
      rw [hdb table htable] at hget
      obtain ⟨entry', hkey, -, hands, -⟩ := cached.getPage hget
      exact .of_holds hands.cached hands.holds hkey
    · exact .of_ne hoid
  refine keeps₁.trans _ _ _ (stamped owns rfl rfl rfl (fun r hr => ?_) fun r hr => ?_)
  · cases List.mem_singleton.mp hr
    rfl
  · rcases List.mem_append.mp hr with hr | hr
    · exact log₁.lsn_le r hr
    · cases List.mem_singleton.mp hr
      exact Nat.le_refl _

end

end KeepsAhead

/-! ## Runs -/

variable {dbOid oid : Nat} {pages : List Nat} {σ₀ σ σ' : Engine}

theorem Ahead.of_opened (opened : TableOpened dbOid oid σ) (hwrites : σ.pageWrites = []) :
    Ahead oid σ where
  frames entry hentry := by
    rw [opened.pool] at hentry
    cases hentry
  mapped r hr := by
    rw [opened.log.log] at hr
    cases hr
  writes w hw := by
    rw [hwrites] at hw
    cases hw

/-- One step. -/
theorem Ahead.exec (ok : Runs dbOid oid pages σ) {op : Op} (regular : op.Regular dbOid oid σ)
    (run : op.exec σ = .ok () σ') : KeepsAhead oid σ σ' := by
  obtain ⟨table, htable, hdb, chain⟩ := ok.table.chain
  cases op with
  | begin =>
      obtain ⟨xid, σ₁, hbegin, hreturn⟩ := EStateM.bind_eq_ok_iff.mp run
      cases hreturn
      exact KeepsAhead.begin oid σ σ' xid hbegin
  | insert xid oid' cid data =>
      obtain ⟨rid, σ₁, hinsert, hreturn⟩ := EStateM.bind_eq_ok_iff.mp run
      cases hreturn
      by_cases hoid : oid' = oid
      · subst hoid
        exact KeepsAhead.insertRecord ok.table.log ok.table.cached htable hdb chain.linked chain.sorted
          (fun full => ((regular rfl).2 pages ok.table.chain full).2) σ' rid hinsert
      · exact KeepsAhead.insertRecord_beside hoid ok.table.log σ' rid hinsert
  | delete xid oid' rid =>
      refine KeepsAhead.deleteRecord dbOid ok.table.log (fun _ => ⟨ok.table.cached, ?_⟩)
        σ' () run
      rintro _ htable'
      cases htable.symm.trans htable'
      exact hdb
  | commit xid => exact KeepsAhead.commit oid xid σ σ' () run
  | rollback xid => exact KeepsAhead.rollbackTransaction oid xid σ σ' () run
  | checkpoint =>
      obtain ⟨lsn, σ₁, hcheckpoint, hreturn⟩ := EStateM.bind_eq_ok_iff.mp run
      cases hreturn
      exact KeepsAhead.checkpoint oid σ σ' lsn hcheckpoint
  | fetch oid' pageId =>
      have hfetch : RunsFrom (KeepsAhead oid) σ (Op.fetch oid' pageId).exec :=
        .get_bind (Db.ofExcept_bind fun _ _ =>
          .bind KeepsAhead.trans (KeepsAhead.getPage oid _ _ _ _) fun _ _ => .pure (.refl oid) _)
      exact hfetch σ' () run
  | flush =>
      cases EStateM.modify_eq_ok_iff.mp run
      exact KeepsAhead.flushBuffers oid σ false
  | createTable | dropTable | createDatabase | dropDatabase | changeDatabase | restart | crash =>
      exact regular.elim

/-- A transaction that is not over, and whose page is written back. -/
def writesBack : List Op :=
  [.begin, .insert 1 10001 1 (List.replicate 20 7), .begin, .delete 1 10001 ⟨0, 0⟩, .flush]

end HuaDB
