import HuaDB.LogInvariant

/-!
The successful runs of `LogRecord::Undo` and `LogRecord::Redo`, by record type,
as equations between states.
-/

namespace HuaDB

/-- A page of a table fetched, and changed by `f`. -/
def PageChanged (σ σ' : Engine) (oid pageId : Nat) (f : TablePage → Option TablePage) : Prop :=
  ∃ dbOid frame σ₁ entry page, σ.catalog.getDatabaseOid oid = .ok dbOid ∧
    BufferPool.getPage dbOid oid pageId σ = .ok frame σ₁ ∧
    σ₁.pool.buffers[frame]? = some entry ∧ f entry.page = some page ∧
    σ' = { σ₁ with pool := σ₁.pool.withPage frame page }

/-- Two pages of a table fetched, and the link of the second copied to the first. -/
def LinkUndone (σ σ' : Engine) (oid prevPageId pageId : Nat) : Prop :=
  ∃ dbOid prevFrame σ₁ frame σ₂ entry prevEntry, σ.catalog.getDatabaseOid oid = .ok dbOid ∧
    BufferPool.getPage dbOid oid prevPageId σ = .ok prevFrame σ₁ ∧
    BufferPool.getPage dbOid oid pageId σ₁ = .ok frame σ₂ ∧
    σ₂.pool.buffers[frame]? = some entry ∧ σ₂.pool.buffers[prevFrame]? = some prevEntry ∧
    σ' = { σ₂ with
      pool := σ₂.pool.withPage prevFrame (prevEntry.page.setNextPageId entry.page.nextPageId) }

/-- A page created again behind its predecessor, whose link moves to it. -/
def PageRecreated (σ σ' : Engine) (oid prevPageId pageId : Nat) : Prop :=
  ∃ dbOid prevFrame σ₁ frame σ₂ entry prevEntry prevEntry',
    σ.catalog.getDatabaseOid oid = .ok dbOid ∧
    BufferPool.getPage dbOid oid prevPageId σ = .ok prevFrame σ₁ ∧
    BufferPool.newPage dbOid oid pageId σ₁ = .ok frame σ₂ ∧
    σ₂.pool.buffers[frame]? = some entry ∧
    (σ₂.pool.withPage frame entry.page.init).buffers[prevFrame]? = some prevEntry ∧
    let pool := σ₂.pool.withPage frame (entry.page.init.setNextPageId prevEntry.page.nextPageId)
    pool.buffers[prevFrame]? = some prevEntry' ∧
    σ' = { σ₂ with pool := pool.withPage prevFrame (prevEntry'.page.setNextPageId pageId) }

namespace BufferPool

theorem pageChanged {σ σ' : Engine} {oid pageId : Nat} {f : TablePage → Option TablePage}
    (run : (do
      let dbOid ← Db.ofExcept ((← get).catalog.getDatabaseOid oid)
      let page ← getPage dbOid oid pageId
      modifyPage? page f : Db Unit) σ = .ok () σ') : PageChanged σ σ' oid pageId f := by
  rw [EStateM.bind_of_ok (EStateM.get_eq_ok_iff.mpr ⟨rfl, rfl⟩)] at run
  cases hdb : σ.catalog.getDatabaseOid oid with
  | error e =>
      rw [hdb] at run
      cases run
  | ok dbOid =>
      rw [hdb, Db.ofExcept_ok, pure_bind] at run
      obtain ⟨frame, σ₁, hget, hmodify⟩ := EStateM.bind_eq_ok_iff.mp run
      obtain ⟨entry, page, hentry, hpage, rfl⟩ := modifyPage?_eq_ok hmodify
      exact ⟨dbOid, frame, σ₁, entry, page, hdb, hget, hentry, hpage, rfl⟩

end BufferPool

namespace LogManager

variable {σ σ' : Engine} {r : LogRecord}

theorem undoRecord_eq_ok (run : undoRecord r σ = .ok () σ') :
    match r.body with
    | .insert oid pageId slotId _ _ _ =>
        PageChanged σ σ' oid pageId fun p => p.deleteRecord slotId r.xid
    | .delete oid pageId slotId => PageChanged σ σ' oid pageId fun p => p.undoDeleteRecord slotId
    | .newPage oid prevPageId pageId => LinkUndone σ σ' oid prevPageId pageId
    | _ => σ' = σ := by
  unfold undoRecord at run
  cases hbody : r.body with
  | insert oid pageId slotId pageOffset recordSize record =>
      simp only [hbody] at run
      exact BufferPool.pageChanged run
  | delete oid pageId slotId =>
      simp only [hbody] at run
      exact BufferPool.pageChanged run
  | newPage oid prevPageId pageId =>
      simp only [hbody] at run
      rw [EStateM.bind_of_ok (EStateM.get_eq_ok_iff.mpr ⟨rfl, rfl⟩)] at run
      cases hdb : σ.catalog.getDatabaseOid oid with
      | error e =>
          rw [hdb] at run
          cases run
      | ok dbOid =>
          rw [hdb, Db.ofExcept_ok, pure_bind] at run
          obtain ⟨prevFrame, σ₁, hprev, hrest⟩ := EStateM.bind_eq_ok_iff.mp run
          obtain ⟨frame, σ₂, hget, hpage⟩ := EStateM.bind_eq_ok_iff.mp hrest
          obtain ⟨_, _, hpage, hlink⟩ := EStateM.bind_eq_ok_iff.mp hpage
          obtain ⟨entry, hentry, rfl, rfl⟩ := BufferPool.page_eq_ok_iff.mp hpage
          obtain ⟨prevEntry, hprevEntry, rfl⟩ := BufferPool.modifyPage_eq_ok hlink
          exact ⟨dbOid, prevFrame, σ₁, frame, _, entry, prevEntry, hdb, hprev, hget, hentry,
            hprevEntry, rfl⟩
  | _ =>
      simp only [hbody] at run
      cases run
      rfl

/-- A table that no longer exists is skipped. -/
theorem skipped_or {oid : Nat} {x : Db Unit}
    (run : (do if (← get).catalog.tableExists oid then x : Db Unit) σ = .ok () σ') :
    (σ.catalog.tableExists oid = false ∧ σ' = σ) ∨
      (σ.catalog.tableExists oid = true ∧ x σ = .ok () σ') := by
  rw [EStateM.bind_of_ok (EStateM.get_eq_ok_iff.mpr ⟨rfl, rfl⟩)] at run
  cases hexists : σ.catalog.tableExists oid with
  | false =>
      rw [hexists] at run
      cases run
      exact .inl ⟨rfl, rfl⟩
  | true =>
      rw [hexists] at run
      exact .inr ⟨rfl, run⟩

theorem redoRecord_eq_ok (run : redoRecord r σ = .ok () σ') :
    match r.body with
    | .insert oid pageId slotId _ recordSize record =>
        (σ.catalog.tableExists oid = false ∧ σ' = σ) ∨ (σ.catalog.tableExists oid = true ∧
          PageChanged σ σ' oid pageId fun p => p.redoInsertRecord slotId record recordSize)
    | .delete oid pageId slotId =>
        (σ.catalog.tableExists oid = false ∧ σ' = σ) ∨ (σ.catalog.tableExists oid = true ∧
          PageChanged σ σ' oid pageId fun p => p.deleteRecord slotId r.xid)
    | .newPage oid prevPageId pageId =>
        (σ.catalog.tableExists oid = false ∧ σ' = σ) ∨ (σ.catalog.tableExists oid = true ∧
          if prevPageId ≠ nullPageId then
            PageRecreated σ σ' oid prevPageId pageId
          else
            PageChanged σ σ' oid pageId fun p => some (p.init.setNextPageId nullPageId))
    | _ => σ' = σ := by
  unfold redoRecord at run
  cases hbody : r.body with
  | insert oid pageId slotId pageOffset recordSize record =>
      simp only [hbody] at run
      exact (skipped_or run).imp_right fun ⟨hexists, hchange⟩ =>
        ⟨hexists, BufferPool.pageChanged hchange⟩
  | delete oid pageId slotId =>
      simp only [hbody] at run
      exact (skipped_or run).imp_right fun ⟨hexists, hchange⟩ =>
        ⟨hexists, BufferPool.pageChanged hchange⟩
  | newPage oid prevPageId pageId =>
      simp only [hbody] at run
      refine (skipped_or run).imp_right fun ⟨hexists, hchange⟩ => ⟨hexists, ?_⟩
      rw [EStateM.bind_of_ok (EStateM.get_eq_ok_iff.mpr ⟨rfl, rfl⟩)] at hchange
      cases hdb : σ.catalog.getDatabaseOid oid with
      | error e =>
          rw [hdb] at hchange
          cases hchange
      | ok dbOid =>
          rw [hdb, Db.ofExcept_ok, pure_bind] at hchange
          by_cases hprev : prevPageId ≠ nullPageId
          · rw [if_pos hprev] at hchange ⊢
            obtain ⟨prevFrame, σ₁, hget, hrest⟩ := EStateM.bind_eq_ok_iff.mp hchange
            obtain ⟨frame, σ₂, hnew, hrest⟩ := EStateM.bind_eq_ok_iff.mp hrest
            obtain ⟨_, _, hinit, hrest⟩ := EStateM.bind_eq_ok_iff.mp hrest
            obtain ⟨entry, hentry, rfl⟩ := BufferPool.modifyPage_eq_ok hinit
            obtain ⟨_, _, hpage, hlink⟩ := EStateM.bind_eq_ok_iff.mp hrest
            obtain ⟨prevEntry, hprevEntry, rfl, rfl⟩ := BufferPool.page_eq_ok_iff.mp hpage
            obtain ⟨_, _, hnext, hlink⟩ := EStateM.bind_eq_ok_iff.mp hlink
            obtain ⟨_, hentry', rfl⟩ := BufferPool.modifyPage_eq_ok hnext
            cases (BufferPool.getElem?_withPage_self hentry _).symm.trans hentry'
            obtain ⟨prevEntry', hprevEntry', rfl⟩ := BufferPool.modifyPage_eq_ok hlink
            dsimp only at hprevEntry'
            rw [BufferPool.withPage_withPage] at hprevEntry'
            refine ⟨dbOid, prevFrame, σ₁, frame, σ₂, entry, prevEntry, prevEntry', hdb, hget, hnew,
              hentry, hprevEntry, hprevEntry', ?_⟩
            dsimp only
            rw [BufferPool.withPage_withPage]
          · rw [if_neg hprev] at hchange ⊢
            obtain ⟨frame, σ₁, hget, hmodify⟩ := EStateM.bind_eq_ok_iff.mp hchange
            obtain ⟨entry, hentry, rfl⟩ := BufferPool.modifyPage_eq_ok hmodify
            exact ⟨dbOid, frame, σ₁, entry, _, hdb, hget, hentry, rfl, rfl⟩
  | _ =>
      simp only [hbody] at run
      cases run
      rfl

/-! ## The loops -/

/-- One round of `LogManager::Rollback`. -/
theorem rollbackLoop_succ_eq_ok {fuel lsn : Nat}
    (run : rollbackLoop (fuel + 1) lsn σ = .ok () σ') :
    (lsn = nullLsn ∧ σ' = σ) ∨ (lsn ≠ nullLsn ∧ ∃ r σ₁,
      ((σ.log.flushedLsn < lsn ∧ σ.log.logBuffer.find? (fun r => r.lsn = lsn) = some r) ∨
        (lsn ≤ σ.log.flushedLsn ∧ readRecord lsn σ = .ok r σ)) ∧
      undoRecord r σ = .ok () σ₁ ∧ rollbackLoop fuel r.prevLsn σ₁ = .ok () σ') := by
  unfold rollbackLoop at run
  by_cases hnull : lsn = nullLsn
  · rw [if_pos hnull] at run
    cases run
    exact .inl ⟨hnull, rfl⟩
  simp only [if_neg hnull] at run
  refine .inr ⟨hnull, ?_⟩
  rw [EStateM.bind_of_ok (EStateM.get_eq_ok_iff.mpr ⟨rfl, rfl⟩)] at run
  by_cases hflushed : lsn > σ.log.flushedLsn
  · rw [if_pos hflushed, EStateM.bind_of_ok (EStateM.get_eq_ok_iff.mpr ⟨rfl, rfl⟩)] at run
    cases hfind : σ.log.logBuffer.find? fun r => r.lsn = lsn with
    | none =>
        rw [hfind] at run
        cases run
    | some r =>
        rw [hfind] at run
        obtain ⟨_, σ₁, hundo, hrest⟩ := EStateM.bind_eq_ok_iff.mp run
        exact ⟨r, σ₁, .inl ⟨hflushed, rfl⟩, hundo, hrest⟩
  · rw [if_neg hflushed] at run
    obtain ⟨r, σ₀, hread, hrest⟩ := EStateM.bind_eq_ok_iff.mp run
    obtain ⟨_, σ₁, hundo, hrest⟩ := EStateM.bind_eq_ok_iff.mp hrest
    obtain ⟨rfl, -⟩ := readRecord_eq_ok hread
    exact ⟨r, σ₁, .inr ⟨Nat.le_of_not_lt hflushed, hread⟩, hundo, hrest⟩

/-- The body of the loop of `LogManager::Redo` for a record read from disk. -/
theorem redoFlushed_eq_ok (run : redoFlushed r σ = .ok () σ') :
    (σ' = σ ∧ ∀ key, r.page? = some key → ∀ recLsn, σ.log.dpt.find? key = some recLsn →
        r.lsn < recLsn) ∨
      ∃ key recLsn, r.page? = some key ∧ σ.log.dpt.find? key = some recLsn ∧ recLsn ≤ r.lsn ∧
        ((r.getType = .newPage ∧ redoRecord r σ = .ok () σ') ∨
          (r.getType ≠ .newPage ∧ ∃ dbOid frame σ₁ entry,
            σ.catalog.getDatabaseOid key.tableOid = .ok dbOid ∧
            BufferPool.getPage dbOid key.tableOid key.pageId σ = .ok frame σ₁ ∧
            σ₁.pool.buffers[frame]? = some entry ∧
            ((r.lsn ≤ entry.page.pageLsn ∧ σ' = σ₁) ∨
              (entry.page.pageLsn < r.lsn ∧ redoRecord r σ₁ = .ok () σ')))) := by
  unfold redoFlushed at run
  cases hpage : r.page? with
  | none =>
      simp only [hpage] at run
      cases run
      exact .inl ⟨rfl, fun key h => nomatch h⟩
  | some key =>
      simp only [hpage] at run
      rw [EStateM.bind_of_ok (EStateM.get_eq_ok_iff.mpr ⟨rfl, rfl⟩)] at run
      cases hfind : σ.log.dpt.find? key with
      | none =>
          rw [hfind] at run
          cases run
          refine .inl ⟨rfl, fun key' hkey recLsn hfind' => ?_⟩
          cases hkey
          cases hfind.symm.trans hfind'
      | some recLsn =>
          simp only [hfind] at run
          by_cases hlt : r.lsn < recLsn
          · rw [if_pos hlt] at run
            cases run
            refine .inl ⟨rfl, fun key' hkey recLsn' hfind' => ?_⟩
            cases hkey
            cases hfind.symm.trans hfind'
            exact hlt
          rw [if_neg hlt] at run
          refine .inr ⟨key, recLsn, rfl, hfind, Nat.le_of_not_lt hlt, ?_⟩
          by_cases hnew : r.getType = .newPage
          · rw [if_pos hnew] at run
            exact .inl ⟨hnew, run⟩
          rw [if_neg hnew, EStateM.bind_of_ok (EStateM.get_eq_ok_iff.mpr ⟨rfl, rfl⟩)] at run
          refine .inr ⟨hnew, ?_⟩
          cases hdb : σ.catalog.getDatabaseOid key.tableOid with
          | error e =>
              rw [hdb] at run
              cases run
          | ok dbOid =>
              rw [hdb, Db.ofExcept_ok, pure_bind] at run
              obtain ⟨frame, σ₁, hget, hrest⟩ := EStateM.bind_eq_ok_iff.mp run
              obtain ⟨_, _, hread, hredo⟩ := EStateM.bind_eq_ok_iff.mp hrest
              obtain ⟨entry, hentry, rfl, rfl⟩ := BufferPool.page_eq_ok_iff.mp hread
              refine ⟨dbOid, frame, _, entry, rfl, hget, hentry, ?_⟩
              by_cases hle : r.lsn ≤ entry.page.pageLsn
              · rw [if_pos hle] at hredo
                cases hredo
                exact .inl ⟨hle, rfl⟩
              · rw [if_neg hle] at hredo
                exact .inr ⟨Nat.lt_of_not_le hle, hredo⟩

/-- One round of `LogManager::Redo` where nothing is buffered. -/
theorem redoLoop_succ_eq_ok {fuel lsn : Nat} (hempty : σ.log.logBuffer = [])
    (run : redoLoop (fuel + 1) lsn σ = .ok () σ') :
    (σ.log.nextLsn ≤ lsn ∧ σ' = σ) ∨ (lsn < σ.log.nextLsn ∧ lsn ≤ σ.log.flushedLsn ∧ ∃ r σ₁,
      readRecord lsn σ = .ok r σ ∧ redoFlushed r σ = .ok () σ₁ ∧
      redoLoop fuel r.endLsn σ₁ = .ok () σ') := by
  unfold redoLoop at run
  rw [EStateM.bind_of_ok (EStateM.get_eq_ok_iff.mpr ⟨rfl, rfl⟩)] at run
  by_cases hlt : lsn < σ.log.nextLsn
  · rw [if_pos hlt, EStateM.bind_of_ok (EStateM.get_eq_ok_iff.mpr ⟨rfl, rfl⟩)] at run
    refine .inr ⟨hlt, ?_⟩
    by_cases hflushed : lsn > σ.log.flushedLsn
    · rw [if_pos hflushed, EStateM.bind_of_ok (EStateM.get_eq_ok_iff.mpr ⟨rfl, rfl⟩), hempty] at run
      cases run
    · rw [if_neg hflushed] at run
      obtain ⟨r, σ₀, hread, hrest⟩ := EStateM.bind_eq_ok_iff.mp run
      obtain ⟨_, σ₁, hredo, hrest⟩ := EStateM.bind_eq_ok_iff.mp hrest
      obtain ⟨rfl, -⟩ := readRecord_eq_ok hread
      exact ⟨Nat.le_of_not_lt hflushed, r, σ₁, hread, hredo, hrest⟩
  · rw [if_neg hlt] at run
    cases run
    exact .inl ⟨Nat.le_of_not_lt hlt, rfl⟩

end LogManager

end HuaDB
