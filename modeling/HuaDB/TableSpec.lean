import HuaDB.LogAppend
import HuaDB.Table

/-!
The successful runs of the last steps of `Table::InsertRecord` and of
`Table::DeleteRecord`, as equations between states: the page in its frame and
the log change together.
-/

namespace HuaDB

namespace Table

variable {σ σ' : Engine} {oid pageId frame xid cid : Nat} {record : Record} {rid : Rid}

/-- The log after an `InsertLog` on a page. -/
def insertLogged (log : LogManager) (oid pageId : Nat) (placed : Nat × Record × TablePage)
    (xid prevLsn : Nat) : LogManager :=
  log.appendedWith xid prevLsn
    (.insert oid pageId placed.1 placed.2.2.upper placed.2.1.getSize placed.2.1)
    (log.att.insert xid log.nextLsn) (log.dpt.insertNew ⟨oid, pageId⟩ log.nextLsn)

/-- The log after a `NewPageLog` of a transaction whose last LSN is `lastLsn`. -/
def newPageLogged (log : LogManager) (oid prevPageId pageId xid lastLsn : Nat) : LogManager :=
  log.appendedWith xid (lastLsn % 2 ^ 32) (.newPage oid prevPageId pageId)
    (log.att.insert xid log.nextLsn)
    (LogManager.dptNewPage log.dpt oid prevPageId pageId log.nextLsn)

/-- The log after a `DeleteLog`. -/
def deleteLogged (log : LogManager) (oid pageId slotId xid prevLsn : Nat) : LogManager :=
  log.appendedWith xid prevLsn (.delete oid pageId slotId)
    (log.att.insert xid log.nextLsn) (log.dpt.insertNew ⟨oid, pageId⟩ log.nextLsn)

/-- A record goes into a page with room. -/
theorem insertInto_eq_ok (run : insertInto oid pageId frame record xid cid σ = .ok rid σ') :
    ∃ entry prevLsn, σ.pool.buffers[frame]? = some entry ∧ σ.log.att.find? xid = some prevLsn ∧
      let placed := entry.page.insertRecord record xid cid
      rid = ⟨pageId, placed.1⟩ ∧
      σ' = { σ with
        log := insertLogged σ.log oid pageId placed xid prevLsn
        pool := σ.pool.withPage frame (placed.2.2.setPageLsn σ.log.nextLsn) } := by
  unfold insertInto at run
  obtain ⟨_, _, hpage, hplace⟩ := EStateM.bind_eq_ok_iff.mp run
  obtain ⟨entry, hentry, rfl, rfl⟩ := BufferPool.page_eq_ok_iff.mp hpage
  dsimp only at hplace
  rw [EStateM.bind_of_ok (BufferPool.setPage_eq _ _ _)] at hplace
  obtain ⟨lsn, _, happend, run⟩ := EStateM.bind_eq_ok_iff.mp hplace
  obtain ⟨prevLsn, hprev, rfl, rfl⟩ := LogManager.appendInsertLog_eq_ok_iff.mp happend
  obtain ⟨_, _, hmodify, run⟩ := EStateM.bind_eq_ok_iff.mp run
  obtain ⟨_, hentry', rfl⟩ := BufferPool.modifyPage_eq_ok hmodify
  cases (BufferPool.getElem?_withPage_self hentry _).symm.trans hentry'
  obtain ⟨rfl, rfl⟩ := EStateM.pure_eq_ok_iff.mp run
  refine ⟨entry, prevLsn, hentry, hprev, rfl, ?_⟩
  dsimp only
  rw [BufferPool.withPage_withPage]
  rfl

/-- Without a record of its own a transaction creates no page: the `InsertLog`
that follows would not find it. -/
theorem insertIntoNewPage_ne_ddlXid {prevPageId : Nat} (hddl : σ.log.att.find? ddlXid = none)
    (run : insertIntoNewPage oid prevPageId pageId frame record xid cid σ = .ok rid σ') :
    xid ≠ ddlXid := by
  rintro rfl
  unfold insertIntoNewPage at run
  obtain ⟨_, _, hpage, hplace⟩ := EStateM.bind_eq_ok_iff.mp run
  obtain ⟨entry, -, rfl, rfl⟩ := BufferPool.page_eq_ok_iff.mp hpage
  dsimp only at hplace
  rw [EStateM.bind_of_ok (BufferPool.setPage_eq _ _ _)] at hplace
  obtain ⟨lsn, σ₁, hnew, hrest⟩ := EStateM.bind_eq_ok_iff.mp hplace
  have hatt : σ₁.log.att.find? ddlXid = none := by
    simp only [LogManager.appendNewPageLog, ↓reduceIte] at hnew
    cases hnew
    split <;> exact hddl
  obtain ⟨_, _, hmodify, hrest⟩ := EStateM.bind_eq_ok_iff.mp hrest
  obtain ⟨_, -, rfl⟩ := BufferPool.modifyPage_eq_ok hmodify
  obtain ⟨_, _, happend, -⟩ := EStateM.bind_eq_ok_iff.mp hrest
  obtain ⟨_, hprev, -, -⟩ := LogManager.appendInsertLog_eq_ok_iff.mp happend
  cases hatt.symm.trans hprev

/-- A record goes into a new page. -/
theorem insertIntoNewPage_eq_ok {prevPageId : Nat} (hddl : σ.log.att.find? ddlXid = none)
    (run : insertIntoNewPage oid prevPageId pageId frame record xid cid σ = .ok rid σ') :
    ∃ entry prevLsn, σ.pool.buffers[frame]? = some entry ∧ σ.log.att.find? xid = some prevLsn ∧
      let placed := entry.page.init.insertRecord record xid cid
      let log := newPageLogged σ.log oid prevPageId pageId xid prevLsn
      rid = ⟨pageId, placed.1⟩ ∧
      σ' = { σ with
        log := insertLogged log oid pageId placed xid σ.log.nextLsn
        pool := σ.pool.withPage frame (placed.2.2.setPageLsn log.nextLsn) } := by
  have hxid := insertIntoNewPage_ne_ddlXid hddl run
  unfold insertIntoNewPage at run
  obtain ⟨_, _, hpage, hplace⟩ := EStateM.bind_eq_ok_iff.mp run
  obtain ⟨entry, hentry, rfl, rfl⟩ := BufferPool.page_eq_ok_iff.mp hpage
  dsimp only at hplace
  rw [EStateM.bind_of_ok (BufferPool.setPage_eq _ _ _)] at hplace
  obtain ⟨lsn, _, happend, run⟩ := EStateM.bind_eq_ok_iff.mp hplace
  obtain ⟨prevLsn, hprev, rfl, rfl⟩ := (LogManager.appendNewPageLog_eq_ok_iff hxid).mp happend
  obtain ⟨_, _, hmodify, run⟩ := EStateM.bind_eq_ok_iff.mp run
  obtain ⟨_, hentry', rfl⟩ := BufferPool.modifyPage_eq_ok hmodify
  cases (BufferPool.getElem?_withPage_self hentry _).symm.trans hentry'
  dsimp only at run
  rw [BufferPool.withPage_withPage] at run
  obtain ⟨lsn, _, happend, run⟩ := EStateM.bind_eq_ok_iff.mp run
  obtain ⟨_, hchain, rfl, rfl⟩ := LogManager.appendInsertLog_eq_ok_iff.mp happend
  cases (Assoc.find?_insert_self _ _ _).symm.trans hchain
  obtain ⟨_, _, hmodify, run⟩ := EStateM.bind_eq_ok_iff.mp run
  obtain ⟨_, hentry', rfl⟩ := BufferPool.modifyPage_eq_ok hmodify
  cases (BufferPool.getElem?_withPage_self hentry _).symm.trans hentry'
  obtain ⟨rfl, rfl⟩ := EStateM.pure_eq_ok_iff.mp run
  refine ⟨entry, prevLsn, hentry, hprev, rfl, ?_⟩
  dsimp only
  rw [BufferPool.withPage_withPage]
  rfl

/-- `Table::DeleteRecord`: fetch the page, mark the record, log the deletion. -/
theorem deleteRecord_eq_ok {rid : Rid} (run : deleteRecord oid rid xid σ = .ok () σ') :
    ∃ table frame σ₁ entry page prevLsn, σ.catalog.oid2table.find? oid = some table ∧
      BufferPool.getPage table.dbOid oid rid.pageId σ = .ok frame σ₁ ∧
      σ₁.pool.buffers[frame]? = some entry ∧ entry.page.deleteRecord rid.slotId xid = some page ∧
      σ₁.log.att.find? xid = some prevLsn ∧
      σ' = { σ₁ with
        log := deleteLogged σ₁.log oid rid.pageId rid.slotId xid prevLsn
        pool := σ₁.pool.withPage frame (page.setPageLsn σ₁.log.nextLsn) } := by
  unfold deleteRecord SystemCatalog.getTable at run
  rw [EStateM.bind_of_ok (EStateM.get_eq_ok_iff.mpr ⟨rfl, rfl⟩)] at run
  cases htable : σ.catalog.oid2table.find? oid with
  | none =>
      rw [htable] at run
      cases run
  | some table =>
      simp only [htable, Db.ofExcept_ok, pure_bind] at run
      obtain ⟨frame, σ₁, hget, run⟩ := EStateM.bind_eq_ok_iff.mp run
      obtain ⟨_, _, hmodify, run⟩ := EStateM.bind_eq_ok_iff.mp run
      obtain ⟨entry, page, hentry, hpage, rfl⟩ := BufferPool.modifyPage?_eq_ok hmodify
      obtain ⟨lsn, _, happend, run⟩ := EStateM.bind_eq_ok_iff.mp run
      obtain ⟨prevLsn, hprev, rfl, rfl⟩ := LogManager.appendDeleteLog_eq_ok_iff.mp happend
      obtain ⟨_, hentry', rfl⟩ := BufferPool.modifyPage_eq_ok run
      cases (BufferPool.getElem?_withPage_self hentry _).symm.trans hentry'
      refine ⟨table, frame, σ₁, entry, page, prevLsn, rfl, hget, hentry, hpage, hprev, ?_⟩
      dsimp only
      rw [BufferPool.withPage_withPage]
      rfl

/-- The state in which `Table::InsertRecord` goes on from a page without room. -/
def linked (σ : Engine) (frame : Nat) (page : TablePage) (pageId : Nat) : Engine :=
  if page.nextPageId = nullPageId then
    { σ with pool := σ.pool.withPage frame (page.setNextPageId (pageId + 1)) }
  else
    σ

/-- One round of the walk over the pages of a table. -/
theorem findRoom_succ_eq_ok {dbOid size fuel lastPageId nextPageId : Nat} {found : Option Nat × Nat}
    (run : findRoom dbOid oid size (fuel + 1) lastPageId nextPageId σ = .ok found σ') :
    (nextPageId = nullPageId ∧ found = (none, lastPageId) ∧ σ' = σ) ∨
      (nextPageId ≠ nullPageId ∧ ∃ frame σ₁ entry,
        BufferPool.getPage dbOid oid nextPageId σ = .ok frame σ₁ ∧
        σ₁.pool.buffers[frame]? = some entry ∧
        ((size ≤ entry.page.getFreeSpaceSize ∧ found = (some frame, nextPageId) ∧ σ' = σ₁) ∨
          (entry.page.getFreeSpaceSize < size ∧
            findRoom dbOid oid size fuel nextPageId entry.page.nextPageId
              (linked σ₁ frame entry.page nextPageId) = .ok found σ'))) := by
  unfold findRoom at run
  by_cases hnull : nextPageId = nullPageId
  · rw [if_pos hnull] at run
    cases run
    exact .inl ⟨hnull, rfl, rfl⟩
  rw [if_neg hnull] at run
  obtain ⟨frame, σ₁, hget, hwalk⟩ := EStateM.bind_eq_ok_iff.mp run
  obtain ⟨_, _, hpage, hroom⟩ := EStateM.bind_eq_ok_iff.mp hwalk
  obtain ⟨entry, hentry, rfl, rfl⟩ := BufferPool.page_eq_ok_iff.mp hpage
  refine .inr ⟨hnull, frame, _, entry, hget, hentry, ?_⟩
  by_cases hsize : size ≤ entry.page.getFreeSpaceSize
  · rw [if_pos hsize] at hroom
    cases hroom
    exact .inl ⟨hsize, rfl, rfl⟩
  rw [if_neg hsize] at hroom
  refine .inr ⟨Nat.lt_of_not_le hsize, ?_⟩
  unfold linked
  by_cases hlast : entry.page.nextPageId = nullPageId
  · simp only [if_pos hlast] at hroom ⊢
    obtain ⟨_, _, hmodify, hrest⟩ := EStateM.bind_eq_ok_iff.mp hroom
    obtain ⟨_, hentry', rfl⟩ := BufferPool.modifyPage_eq_ok hmodify
    cases hentry.symm.trans hentry'
    exact hrest
  · simp only [if_neg hlast] at hroom ⊢
    exact hroom

/-- `Table::InsertRecord`: the first page of a table, a page with room, or a new
last page. -/
theorem insertRecord_eq_ok (run : insertRecord oid record xid cid σ = .ok rid σ') :
    ∃ table, σ.catalog.oid2table.find? oid = some table ∧ record.getSize ≤ maxRecordSize ∧
      ((table.firstPageId = nullPageId ∧ ∃ frame σ₁,
          BufferPool.newPage table.dbOid oid 0 σ = .ok frame σ₁ ∧
          insertIntoNewPage oid nullPageId 0 frame record xid cid
            { σ₁ with catalog := { σ₁.catalog with
              oid2table := σ₁.catalog.oid2table.insert oid { table with firstPageId := 0 } } } =
            .ok rid σ') ∨
        (table.firstPageId ≠ nullPageId ∧ ∃ first σ₁ entry,
          BufferPool.getPage table.dbOid oid table.firstPageId σ = .ok first σ₁ ∧
          σ₁.pool.buffers[first]? = some entry ∧
          ((record.getSize ≤ entry.page.getFreeSpaceSize ∧
              insertInto oid table.firstPageId first record xid cid σ₁ = .ok rid σ') ∨
            (entry.page.getFreeSpaceSize < record.getSize ∧ ∃ found σ₂,
              findRoom table.dbOid oid record.getSize (2 ^ 32) table.firstPageId
                entry.page.nextPageId σ₁ = .ok found σ₂ ∧
              ((∃ frame, found.1 = some frame ∧
                  insertInto oid found.2 frame record xid cid σ₂ = .ok rid σ') ∨
                (found.1 = none ∧ ∃ frame σ₃ σ₄,
                  (found.2 = table.firstPageId ∧ BufferPool.modifyPage first
                      (fun p => p.setNextPageId (table.firstPageId + 1)) σ₂ = .ok () σ₃ ∨
                    found.2 ≠ table.firstPageId ∧ σ₃ = σ₂) ∧
                  BufferPool.newPage table.dbOid oid (found.2 + 1) σ₃ = .ok frame σ₄ ∧
                  insertIntoNewPage oid found.2 (found.2 + 1) frame record xid cid σ₄ =
                    .ok rid σ')))))) := by
  unfold insertRecord SystemCatalog.getTable at run
  rw [EStateM.bind_of_ok (EStateM.get_eq_ok_iff.mpr ⟨rfl, rfl⟩)] at run
  cases htable : σ.catalog.oid2table.find? oid with
  | none =>
      rw [htable] at run
      cases run
  | some table =>
      simp only [htable, Db.ofExcept_ok, pure_bind] at run
      by_cases hsize : record.getSize > maxRecordSize
      · rw [if_pos hsize] at run
        cases run
      simp only [if_neg hsize] at run
      refine ⟨table, rfl, Nat.le_of_not_lt hsize, ?_⟩
      by_cases hfirst : table.firstPageId = nullPageId
      · rw [if_pos hfirst] at run
        obtain ⟨frame, σ₁, hnew, hmodify⟩ := EStateM.bind_eq_ok_iff.mp run
        obtain ⟨_, _, hcatalog, hinsert⟩ := EStateM.bind_eq_ok_iff.mp hmodify
        cases EStateM.modify_eq_ok_iff.mp hcatalog
        exact .inl ⟨hfirst, frame, σ₁, hnew, hinsert⟩
      rw [if_neg hfirst] at run
      obtain ⟨first, σ₁, hget, hpage⟩ := EStateM.bind_eq_ok_iff.mp run
      obtain ⟨_, _, hpage, hroom⟩ := EStateM.bind_eq_ok_iff.mp hpage
      obtain ⟨entry, hentry, rfl, rfl⟩ := BufferPool.page_eq_ok_iff.mp hpage
      refine .inr ⟨hfirst, first, _, entry, hget, hentry, ?_⟩
      by_cases hfree : record.getSize ≤ entry.page.getFreeSpaceSize
      · rw [if_pos hfree] at hroom
        exact .inl ⟨hfree, hroom⟩
      rw [if_neg hfree] at hroom
      obtain ⟨⟨frame?, pageId⟩, σ₂, hfind, hplace⟩ := EStateM.bind_eq_ok_iff.mp hroom
      refine .inr ⟨Nat.lt_of_not_le hfree, (frame?, pageId), σ₂, hfind, ?_⟩
      cases frame? with
      | some frame => exact .inl ⟨frame, rfl, hplace⟩
      | none =>
          dsimp only at hplace ⊢
          by_cases hlast : pageId = table.firstPageId
          · rw [if_pos hlast] at hplace
            obtain ⟨_, σ₃, hlink, hnew⟩ := EStateM.bind_eq_ok_iff.mp hplace
            obtain ⟨frame, σ₄, hnew, hinsert⟩ := EStateM.bind_eq_ok_iff.mp hnew
            exact .inr ⟨rfl, frame, σ₃, σ₄, .inl ⟨hlast, hlink⟩, hnew, hinsert⟩
          · rw [if_neg hlast] at hplace
            obtain ⟨frame, σ₄, hnew, hinsert⟩ := EStateM.bind_eq_ok_iff.mp hplace
            exact .inr ⟨rfl, frame, σ₂, σ₄, .inr ⟨hlast, rfl⟩, hnew, hinsert⟩

end Table

end HuaDB
