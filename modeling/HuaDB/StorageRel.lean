import HuaDB.LogAppend
import HuaDB.Table

/-!
What the storage operations can do to the engine, as relations between states.

A relation that contains every primitive effect of the buffer pool (`PoolRel`)
contains every successful run of what is built from them: fetching and modifying
pages, undoing and redoing records. One that also contains the changes of the
tables of the log manager (`UndoRel`) contains the runs of `Rollback` and `Undo`,
and one that contains appending a record (`StorageRel`) those of
`Table::InsertRecord` and `Table::DeleteRecord`. A fact about those operations
is then proved for the primitive effects only.
-/

namespace HuaDB

open EStateM (RunsFrom)

/-- The effects of the buffer pool. -/
structure PoolRel (R : Engine → Engine → Prop) : Prop where
  refl : ∀ σ, R σ σ
  trans : ∀ σ₁ σ₂ σ₃, R σ₁ σ₂ → R σ₂ σ₃ → R σ₁ σ₃
  pool : ∀ (σ : Engine) pool, R σ { σ with pool := pool }
  flushPage : ∀ (σ : Engine) frame, R σ (σ.flushPage frame)

/-- These effects, and new contents of `att_` and `dpt_`. -/
structure UndoRel (R : Engine → Engine → Prop) : Prop extends PoolRel R where
  tables : ∀ (σ : Engine) att dpt, R σ { σ with log := { σ.log with att := att, dpt := dpt } }

/-- These effects, appending, and flushing the log. -/
structure StorageRel (R : Engine → Engine → Prop) : Prop extends UndoRel R where
  push : ∀ (σ : Engine) xid prevLsn body,
    R σ { σ with log := (σ.log.push xid prevLsn body).2 }
  flushLog : ∀ (σ : Engine) lsn, R σ (σ.flushLog lsn)

/-- Writing a page back flushes the log, erases the page's entry, writes the image
and unmaps the frame. -/
theorem PoolRel.of_effects {R : Engine → Engine → Prop} (refl : ∀ σ, R σ σ)
    (trans : ∀ σ₁ σ₂ σ₃, R σ₁ σ₂ → R σ₂ σ₃ → R σ₁ σ₃)
    (pool : ∀ (σ : Engine) pool, R σ { σ with pool := pool })
    (flushLog : ∀ (σ : Engine) lsn, R σ (σ.flushLog lsn))
    (dpt : ∀ (σ : Engine) dpt, R σ { σ with log := { σ.log with dpt := dpt } })
    (write : ∀ (σ : Engine) path pageId page pageWrites,
      R σ { σ with disk := σ.disk.writePage path pageId page, pageWrites := pageWrites }) :
    PoolRel R where
  refl := refl
  trans := trans
  pool := pool
  flushPage σ frame := by
    unfold Engine.flushPage
    split
    · exact refl σ
    · dsimp only
      split
      · rename_i entry _ _
        have hlog : R σ (σ.logFlushPage entry.key entry.page.pageLsn) :=
          trans _ _ _ (flushLog σ entry.page.pageLsn) (dpt (σ.flushLog entry.page.pageLsn) _)
        refine trans _ _ _ hlog (trans _ _ _ ?_ (pool _ _))
        exact write (σ.logFlushPage entry.key entry.page.pageLsn) _ _ _ _
      · exact pool σ _

namespace PoolRel

variable {R : Engine → Engine → Prop} (rel : PoolRel R)
include rel

/-! ## The buffer pool -/

theorem ofExcept {α : Type} (x : Except DbError α) (σ : Engine) : RunsFrom R σ (Db.ofExcept x) := by
  cases x with
  | ok a => exact .pure rel.refl a
  | error e => exact .throw e

theorem addToBuffer (entry : BufferPoolEntry) (σ : Engine) :
    RunsFrom R σ (BufferPool.addToBuffer entry) := by
  unfold BufferPool.addToBuffer
  refine .get_bind ?_
  split
  · split
    · exact .throw _
    · refine .bind rel.trans (.set ?_) fun _ _ => .pure rel.refl _
      exact rel.trans _ _ _ (rel.pool σ _) (rel.trans _ _ _ (rel.flushPage _ _) (rel.pool _ _))
  · exact .bind rel.trans (.set (rel.pool σ _)) fun _ _ => .pure rel.refl _

theorem getPage (dbOid tableOid pageId : Nat) (σ : Engine) :
    RunsFrom R σ (BufferPool.getPage dbOid tableOid pageId) := by
  unfold BufferPool.getPage
  refine .get_bind ?_
  split
  · split
    · exact .throw _
    · exact rel.addToBuffer _ σ
  · exact .bind rel.trans (.set (rel.pool σ _)) fun _ _ => .pure rel.refl _

theorem newPage (dbOid tableOid pageId : Nat) (σ : Engine) :
    RunsFrom R σ (BufferPool.newPage dbOid tableOid pageId) :=
  rel.addToBuffer _ σ

theorem page (frame : Nat) (σ : Engine) : RunsFrom R σ (BufferPool.page frame) := by
  unfold BufferPool.page
  refine .get_bind ?_
  split
  · exact .throw _
  · exact .pure rel.refl _

theorem setPage (frame : Nat) (page : TablePage) (σ : Engine) :
    RunsFrom R σ (BufferPool.setPage frame page) :=
  .modify (rel.pool σ _)

theorem modifyPage (frame : Nat) (f : TablePage → TablePage) (σ : Engine) :
    RunsFrom R σ (BufferPool.modifyPage frame f) :=
  .bind rel.trans (rel.page frame σ) fun _ _ => rel.setPage _ _ _

theorem modifyPage? (frame : Nat) (f : TablePage → Option TablePage) (σ : Engine) :
    RunsFrom R σ (BufferPool.modifyPage? frame f) := by
  refine .bind rel.trans (rel.page frame σ) fun page σ' => ?_
  split
  · exact .throw _
  · exact rel.setPage _ _ _

theorem flushBuffers
    (systemRows : ∀ (σ : Engine) rows, R σ { σ with disk := { σ.disk with systemRows := rows } })
    (σ : Engine) (regularOnly : Bool) : R σ (σ.flushBuffers regularOnly) := by
  have hflushed (frames : List Nat) (σ : Engine) : R σ (frames.foldl Engine.flushPage σ) := by
    induction frames generalizing σ with
    | nil => exact rel.refl σ
    | cons frame frames ih => exact rel.trans _ _ _ (rel.flushPage σ frame) (ih _)
  have hempty := rel.trans _ _ _ (hflushed (List.range σ.pool.buffers.length) σ) (rel.pool _
    { ((List.range σ.pool.buffers.length).foldl Engine.flushPage σ).pool with buffers := [] })
  unfold Engine.flushBuffers
  cases regularOnly with
  | true => exact hempty
  | false => exact rel.trans _ _ _ hempty (systemRows _ _)

/-! ## Undo and redo -/

theorem undoRecord (r : LogRecord) (σ : Engine) : RunsFrom R σ (LogManager.undoRecord r) := by
  unfold LogManager.undoRecord
  split
  · refine .get_bind (.bind rel.trans (rel.ofExcept _ σ) fun _ _ => ?_)
    exact .bind rel.trans (rel.getPage _ _ _ _) fun _ _ => rel.modifyPage? _ _ _
  · refine .get_bind (.bind rel.trans (rel.ofExcept _ σ) fun _ _ => ?_)
    exact .bind rel.trans (rel.getPage _ _ _ _) fun _ _ => rel.modifyPage? _ _ _
  · refine .get_bind (.bind rel.trans (rel.ofExcept _ σ) fun _ _ => ?_)
    refine .bind rel.trans (rel.getPage _ _ _ _) fun _ _ => ?_
    refine .bind rel.trans (rel.getPage _ _ _ _) fun _ _ => ?_
    exact .bind rel.trans (rel.page _ _) fun _ _ => rel.modifyPage _ _ _
  · exact .pure rel.refl _

theorem redoRecord (r : LogRecord) (σ : Engine) : RunsFrom R σ (LogManager.redoRecord r) := by
  unfold LogManager.redoRecord
  split
  · refine .get_bind ?_
    split
    · refine .get_bind (.bind rel.trans (rel.ofExcept _ σ) fun _ _ => ?_)
      exact .bind rel.trans (rel.getPage _ _ _ _) fun _ _ => rel.modifyPage? _ _ _
    · exact .pure rel.refl _
  · refine .get_bind ?_
    split
    · refine .get_bind (.bind rel.trans (rel.ofExcept _ σ) fun _ _ => ?_)
      exact .bind rel.trans (rel.getPage _ _ _ _) fun _ _ => rel.modifyPage? _ _ _
    · exact .pure rel.refl _
  · refine .get_bind ?_
    split
    · refine .get_bind (.bind rel.trans (rel.ofExcept _ σ) fun _ _ => ?_)
      split
      · refine .bind rel.trans (rel.getPage _ _ _ _) fun _ _ => ?_
        refine .bind rel.trans (rel.newPage _ _ _ _) fun _ _ => ?_
        refine .bind rel.trans (rel.modifyPage _ _ _) fun _ _ => ?_
        refine .bind rel.trans (rel.page _ _) fun _ _ => ?_
        refine .bind rel.trans (rel.modifyPage _ _ _) fun _ _ => ?_
        exact rel.modifyPage _ _ _
      · refine .bind rel.trans (rel.getPage _ _ _ _) fun _ _ => ?_
        exact rel.modifyPage _ _ _
    · exact .pure rel.refl _
  · exact .pure rel.refl _

theorem readRecord (lsn : Nat) (σ : Engine) : RunsFrom R σ (LogManager.readRecord lsn) := by
  unfold LogManager.readRecord
  exact .get_bind (.bind rel.trans (rel.ofExcept _ _) fun _ _ => rel.ofExcept _ _)

theorem rollbackLoop (fuel lsn : Nat) (σ : Engine) :
    RunsFrom R σ (LogManager.rollbackLoop fuel lsn) := by
  induction fuel generalizing lsn σ with
  | zero =>
      unfold LogManager.rollbackLoop
      split
      · exact .pure rel.refl _
      · exact .throw _
  | succ fuel ih =>
      unfold LogManager.rollbackLoop
      split
      · exact .pure rel.refl _
      · refine .get_bind ?_
        split
        · refine .get_bind ?_
          split
          · exact .throw _
          · exact .bind rel.trans (rel.undoRecord _ _) fun _ _ => ih _ _
        · refine .bind rel.trans (rel.readRecord _ _) fun _ _ => ?_
          exact .bind rel.trans (rel.undoRecord _ _) fun _ _ => ih _ _

theorem redoFlushed (r : LogRecord) (σ : Engine) : RunsFrom R σ (LogManager.redoFlushed r) := by
  unfold LogManager.redoFlushed
  split
  · exact .pure rel.refl _
  · refine .get_bind ?_
    split
    · exact .pure rel.refl _
    · split
      · exact .pure rel.refl _
      · split
        · exact rel.redoRecord _ _
        · refine .get_bind (.bind rel.trans (rel.ofExcept _ _) fun _ _ => ?_)
          refine .bind rel.trans (rel.getPage _ _ _ _) fun _ _ => ?_
          refine .bind rel.trans (rel.page _ _) fun _ _ => ?_
          split
          · exact .pure rel.refl _
          · exact rel.redoRecord _ _

theorem redoBuffered (r : LogRecord) (σ : Engine) : RunsFrom R σ (LogManager.redoBuffered r) := by
  unfold LogManager.redoBuffered
  split
  · exact .pure rel.refl _
  · split
    · intro σ' u run
      cases run
    · refine .get_bind ?_
      split
      · exact .pure rel.refl _
      · split
        · exact .pure rel.refl _
        · refine .get_bind (.bind rel.trans (rel.ofExcept _ _) fun _ _ => ?_)
          refine .bind rel.trans (rel.getPage _ _ _ _) fun _ _ => ?_
          refine .bind rel.trans (rel.page _ _) fun _ _ => ?_
          split
          · exact .pure rel.refl _
          · exact rel.redoRecord _ _

theorem redoLoop (fuel lsn : Nat) (σ : Engine) :
    RunsFrom R σ (LogManager.redoLoop fuel lsn) := by
  induction fuel generalizing lsn σ with
  | zero =>
      unfold LogManager.redoLoop
      refine .get_bind ?_
      split
      · exact .throw _
      · exact .pure rel.refl _
  | succ fuel ih =>
      unfold LogManager.redoLoop
      refine .get_bind ?_
      split
      · refine .get_bind ?_
        split
        · refine .get_bind ?_
          split
          · exact .throw _
          · exact .bind rel.trans (rel.redoBuffered _ _) fun _ _ => ih _ _
        · refine .bind rel.trans (rel.readRecord _ _) fun _ _ => ?_
          exact .bind rel.trans (rel.redoFlushed _ _) fun _ _ => ih _ _
      · exact .pure rel.refl _

theorem redo (σ : Engine) : RunsFrom R σ LogManager.redo := by
  unfold LogManager.redo
  exact .get_bind (rel.redoLoop _ _ _)

theorem findRoom (dbOid oid size fuel lastPageId nextPageId : Nat) (σ : Engine) :
    RunsFrom R σ (Table.findRoom dbOid oid size fuel lastPageId nextPageId) := by
  induction fuel generalizing lastPageId nextPageId σ with
  | zero => exact .throw _
  | succ fuel ih =>
      unfold Table.findRoom
      split
      · exact .pure rel.refl _
      · refine .bind rel.trans (rel.getPage _ _ _ _) fun _ _ => ?_
        refine .bind rel.trans (rel.page _ _) fun _ _ => ?_
        split
        · exact .pure rel.refl _
        · split
          · exact .bind rel.trans (rel.modifyPage _ _ _) fun _ _ => ih _ _ _
          · exact ih _ _ _

end PoolRel

namespace UndoRel

variable {R : Engine → Engine → Prop} (rel : UndoRel R)
include rel

theorem rollback (xid : Nat) (σ : Engine) : RunsFrom R σ (LogManager.rollback xid) := by
  unfold LogManager.rollback
  refine .bind rel.trans (.modify (rel.tables σ _ _)) fun _ _ => .get_bind ?_
  exact rel.rollbackLoop _ _ _

theorem undoLoop (xids : List Nat) (σ : Engine) : RunsFrom R σ (LogManager.undoLoop xids) := by
  induction xids generalizing σ with
  | nil => exact .pure rel.refl _
  | cons xid xids ih => exact .bind rel.trans (rel.rollback _ _) fun _ _ => ih _

theorem undo (σ : Engine) : RunsFrom R σ LogManager.undo := by
  unfold LogManager.undo
  exact .get_bind (rel.undoLoop _ _)

end UndoRel

namespace StorageRel

variable {R : Engine → Engine → Prop} (rel : StorageRel R)
include rel

/-! ## Appending -/

theorem appendedWith (σ : Engine) (xid prevLsn : Nat) (body : LogBody) (att : Att) (dpt : Dpt) :
    R σ { σ with log := σ.log.appendedWith xid prevLsn body att dpt } :=
  rel.trans _ _ _ (rel.push σ xid prevLsn body) (rel.tables _ att dpt)

theorem appendInsertLog (xid oid pageId slotId offset size : Nat) (record : Record) (σ : Engine) :
    RunsFrom R σ (LogManager.appendInsertLog xid oid pageId slotId offset size record) := by
  intro σ' lsn run
  obtain ⟨_, -, -, rfl⟩ := LogManager.appendInsertLog_eq_ok_iff.mp run
  exact rel.appendedWith σ _ _ _ _ _

theorem appendDeleteLog (xid oid pageId slotId : Nat) (σ : Engine) :
    RunsFrom R σ (LogManager.appendDeleteLog xid oid pageId slotId) := by
  intro σ' lsn run
  obtain ⟨_, -, -, rfl⟩ := LogManager.appendDeleteLog_eq_ok_iff.mp run
  exact rel.appendedWith σ _ _ _ _ _

theorem appendNewPageLog (xid oid prevPageId pageId : Nat) (σ : Engine) :
    RunsFrom R σ (LogManager.appendNewPageLog xid oid prevPageId pageId) := by
  intro σ' lsn run
  by_cases hxid : xid = ddlXid
  · simp only [LogManager.appendNewPageLog, if_pos hxid] at run
    cases run
    split <;> exact rel.appendedWith σ _ _ _ _ _
  · obtain ⟨_, -, -, rfl⟩ := (LogManager.appendNewPageLog_eq_ok_iff hxid).mp run
    exact rel.appendedWith σ _ _ _ _ _

theorem appendEndLog (xid : Nat) (body : LogBody) (caller : String) (σ : Engine) :
    RunsFrom R σ (LogManager.appendEndLog xid body caller) := by
  intro σ' lsn run
  obtain ⟨_, -, -, rfl⟩ := LogManager.appendEndLog_eq_ok_iff.mp run
  exact rel.trans _ _ _ (rel.appendedWith σ _ _ _ _ _)
    (rel.trans _ _ _ (rel.flushLog _ _) (rel.tables _ _ _))

/-! ## Tables -/

theorem insertInto (oid pageId frame : Nat) (record : Record) (xid cid : Nat) (σ : Engine) :
    RunsFrom R σ (Table.insertInto oid pageId frame record xid cid) := by
  unfold Table.insertInto
  refine .bind rel.trans (rel.page _ _) fun _ _ => ?_
  refine .bind rel.trans (rel.setPage _ _ _) fun _ _ => ?_
  refine .bind rel.trans (rel.appendInsertLog _ _ _ _ _ _ _ _) fun _ _ => ?_
  exact .bind rel.trans (rel.modifyPage _ _ _) fun _ _ => .pure rel.refl _

theorem insertIntoNewPage (oid prevPageId pageId frame : Nat) (record : Record) (xid cid : Nat)
    (σ : Engine) :
    RunsFrom R σ (Table.insertIntoNewPage oid prevPageId pageId frame record xid cid) := by
  unfold Table.insertIntoNewPage
  refine .bind rel.trans (rel.page _ _) fun _ _ => ?_
  refine .bind rel.trans (rel.setPage _ _ _) fun _ _ => ?_
  refine .bind rel.trans (rel.appendNewPageLog _ _ _ _ _) fun _ _ => ?_
  refine .bind rel.trans (rel.modifyPage _ _ _) fun _ _ => ?_
  refine .bind rel.trans (rel.appendInsertLog _ _ _ _ _ _ _ _) fun _ _ => ?_
  exact .bind rel.trans (rel.modifyPage _ _ _) fun _ _ => .pure rel.refl _

theorem deleteRecord (oid : Nat) (rid : Rid) (xid : Nat) (σ : Engine) :
    RunsFrom R σ (Table.deleteRecord oid rid xid) := by
  unfold Table.deleteRecord
  refine .get_bind (.bind rel.trans (rel.ofExcept _ _) fun _ _ => ?_)
  refine .bind rel.trans (rel.getPage _ _ _ _) fun _ _ => ?_
  refine .bind rel.trans (rel.modifyPage? _ _ _) fun _ _ => ?_
  exact .bind rel.trans (rel.appendDeleteLog _ _ _ _ _) fun _ _ => rel.modifyPage _ _ _

end StorageRel

/-- A page write-back leaves everything but the log, one page and the pool. -/
theorem Engine.flushPage_catalog (σ : Engine) (frame : Nat) :
    (σ.flushPage frame).catalog = σ.catalog := by
  unfold flushPage
  split
  · rfl
  · dsimp only
    split
    · exact σ.flushLog_catalog _
    · rfl

/-- None of the primitive effects touches the catalog. -/
theorem StorageRel.catalog : StorageRel fun σ σ' => σ'.catalog = σ.catalog where
  refl _ := rfl
  trans _ _ _ h h' := h'.trans h
  pool _ _ := rfl
  flushPage := Engine.flushPage_catalog
  push _ _ _ _ := rfl
  tables _ _ _ := rfl
  flushLog := Engine.flushLog_catalog

/-- `Table::InsertRecord` looks for a page, and puts the record there. -/
theorem PoolRel.insertRecord {R : Engine → Engine → Prop} (rel : PoolRel R) {oid xid cid : Nat}
    {record : Record}
    (firstPage : ∀ (σ : Engine) table, σ.catalog.oid2table.find? oid = some table →
      R σ { σ with catalog := { σ.catalog with
        oid2table := σ.catalog.oid2table.insert oid { table with firstPageId := 0 } } })
    (insertInto : ∀ pageId frame σ,
      RunsFrom R σ (Table.insertInto oid pageId frame record xid cid))
    (insertIntoNewPage : ∀ prevPageId pageId frame σ,
      RunsFrom R σ (Table.insertIntoNewPage oid prevPageId pageId frame record xid cid))
    (σ : Engine) : RunsFrom R σ (Table.insertRecord oid record xid cid) := by
  unfold Table.insertRecord
  refine .get_bind ?_
  cases htable : σ.catalog.oid2table.find? oid with
  | none =>
      intro σ' rid run
      simp only [SystemCatalog.getTable, htable] at run
      cases run
  | some table =>
      simp only [SystemCatalog.getTable, htable, Db.ofExcept_ok, pure_bind]
      split
      · exact .throw_bind _ _
      · split
        · -- the table has no page yet
          intro σ'' rid run
          obtain ⟨frame, σ', hnew, run⟩ := EStateM.bind_eq_ok_iff.mp run
          have hcatalog : σ'.catalog = σ.catalog := StorageRel.catalog.newPage _ _ _ σ σ' frame hnew
          refine rel.trans _ _ _ (rel.newPage _ _ _ _ _ _ hnew)
            (RunsFrom.bind rel.trans (.modify ?_) (fun _ _ => ?_) _ _ run)
          · exact firstPage σ' table (hcatalog ▸ htable)
          · exact insertIntoNewPage _ _ _ _
        · refine .bind rel.trans (rel.getPage _ _ _ _) fun _ _ => ?_
          refine .bind rel.trans (rel.page _ _) fun _ _ => ?_
          split
          · exact insertInto _ _ _
          · refine .bind rel.trans (rel.findRoom _ _ _ _ _ _ _) fun found _ => ?_
            obtain ⟨frame?, pageId⟩ := found
            dsimp only
            split
            · exact insertInto _ _ _
            · split
              · refine .bind rel.trans (rel.modifyPage _ _ _) fun _ _ => ?_
                refine .bind rel.trans (rel.newPage _ _ _ _) fun _ _ => ?_
                exact insertIntoNewPage _ _ _ _
              · refine .bind rel.trans (rel.newPage _ _ _ _) fun _ _ => ?_
                exact insertIntoNewPage _ _ _ _

theorem StorageRel.insertRecord {R : Engine → Engine → Prop} (rel : StorageRel R)
    (firstPage : ∀ (σ : Engine) oid table, σ.catalog.oid2table.find? oid = some table →
      R σ { σ with catalog := { σ.catalog with
        oid2table := σ.catalog.oid2table.insert oid { table with firstPageId := 0 } } })
    (oid : Nat) (record : Record) (xid cid : Nat) (σ : Engine) :
    RunsFrom R σ (Table.insertRecord oid record xid cid) :=
  rel.toPoolRel.insertRecord (fun σ => firstPage σ oid) (fun _ _ _ => rel.insertInto _ _ _ _ _ _ _)
    (fun _ _ _ _ => rel.insertIntoNewPage _ _ _ _ _ _ _ _) σ

end HuaDB
