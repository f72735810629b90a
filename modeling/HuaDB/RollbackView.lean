import HuaDB.TableView

/-!
What rolling a transaction back does to the pages that are seen of a table.

The loop of `LogManager::Rollback` undoes the records of the transaction from the
newest to the oldest (`Undone`, `rollback_undone`). Undoing rewrites headers of the
records that the transaction inserted or deleted (`TablePage.Undoes`), and it takes
out of the list of pages those that the transaction created behind a page which is
still linked (`keptPages`).
-/

namespace HuaDB

open LinkedList (Segment)

/-! ## Undoing a list of records -/

/-- Undoing records one after the other. -/
inductive Undone : List LogRecord → Engine → Engine → Prop
  | nil (σ : Engine) : Undone [] σ σ
  | cons {r : LogRecord} {records : List LogRecord} {σ σ₁ σ' : Engine}
      (step : LogManager.undoRecord r σ = .ok () σ₁) (rest : Undone records σ₁ σ') :
      Undone (r :: records) σ σ'

namespace Undone

variable {records : List LogRecord} {σ σ' : Engine}

theorem quiet (undone : Undone records σ σ') : Quiet σ σ' := by
  induction undone with
  | nil σ => exact .refl σ
  | cons step _ ih => exact (Quiet.poolRel.undoRecord _ _ _ _ step).trans _ _ _ ih

end Undone

namespace LogManager

variable {σ σ' : Engine}

/-- A record is found where it was appended, in the buffer or on disk. -/
theorem eq_of_readRecord (ok : ChainOk σ) (small : σ.log.nextLsn ≤ 2 ^ 32) {r r' : LogRecord}
    {σ₁ : Engine} (hr : r ∈ σ.appended) (run : readRecord r.lsn σ = .ok r' σ₁) :
    r' = r ∧ σ₁ = σ := by
  obtain ⟨start, tiles⟩ := ok.tiles
  rw [readRecord_eq] at run
  cases hread : σ.disk.readLog r.lsn maxLogSize with
  | error e =>
      rw [hread] at run
      cases run
  | ok bytes =>
      simp only [hread] at run
      cases hdecode : LogRecord.deserializeFrom r.lsn maxLogSize bytes with
      | error e =>
          rw [hdecode] at run
          cases run
      | ok r₁ =>
          rw [hdecode] at run
          cases run
          obtain ⟨r₂, rfl, rfl⟩ := LogRecord.deserializeFrom_eq_ok hdecode
          obtain ⟨hmem, hoffset⟩ := Disk.mem_of_readLog hread
          have hr₂ : r₂ ∈ σ.appended := List.mem_append_left _ hmem
          have hlt (a : LogRecord) (ha : a ∈ σ.appended) : a.lsn < 2 ^ 32 :=
            Nat.lt_of_lt_of_le (tiles.pos_lt LogRecord.getSize_pos ha) small
          rw [logOffset_of_lt (hlt r₂ hr₂), logOffset_of_lt (hlt r hr)] at hoffset
          have heq := tiles.eq_of_pos_eq LogRecord.getSize_pos hr₂ hr hoffset
          subst heq
          exact ⟨rfl, rfl⟩

/-- The loop of `LogManager::Rollback` undoes the chain it starts at. -/
theorem rollbackLoop_undone {fuel lsn : Nat} {records : List LogRecord} (ok : ChainOk σ)
    (small : σ.log.nextLsn ≤ 2 ^ 32)
    (chain : BackChain LogRecord.lsn LogRecord.prevLsn nullLsn lsn records)
    (mem : ∀ r ∈ records, r ∈ σ.appended) (run : rollbackLoop fuel lsn σ = .ok () σ') :
    Undone records σ σ' := by
  induction records generalizing fuel lsn σ with
  | nil =>
      have hnull : lsn = nullLsn := chain
      cases fuel <;> (unfold rollbackLoop at run; rw [if_pos hnull] at run; cases run; exact .nil _)
  | cons r records ih =>
      obtain ⟨hne, rfl, rest⟩ := chain
      cases fuel with
      | zero =>
          unfold rollbackLoop at run
          rw [if_neg hne] at run
          cases run
      | succ fuel =>
          have hr := mem r List.mem_cons_self
          -- the record, and its undo, whichever way it is read
          have hstep : ∃ σ₁, undoRecord r σ = .ok () σ₁ ∧ rollbackLoop fuel r.prevLsn σ₁ = .ok () σ' := by
            unfold rollbackLoop at run
            rw [if_neg hne, EStateM.bind_of_ok (EStateM.get_eq_ok_iff.mpr ⟨rfl, rfl⟩)] at run
            split at run
            · rw [EStateM.bind_of_ok (EStateM.get_eq_ok_iff.mpr ⟨rfl, rfl⟩)] at run
              cases hfind : σ.log.logBuffer.find? fun r' => r'.lsn = r.lsn with
              | none =>
                  rw [hfind] at run
                  cases run
              | some r' =>
                  rw [hfind] at run
                  obtain ⟨start, tiles⟩ := ok.tiles
                  have hr' : r' ∈ σ.appended :=
                    List.mem_append_right _ (List.mem_of_find?_eq_some hfind)
                  have heq := tiles.eq_of_pos_eq LogRecord.getSize_pos hr' hr
                    (of_decide_eq_true (List.find?_some hfind :))
                  subst heq
                  obtain ⟨_, σ₁, hundo, hrest⟩ := EStateM.bind_eq_ok_iff.mp run
                  exact ⟨σ₁, hundo, hrest⟩
            · obtain ⟨r', σ₀, hread, hundo⟩ := EStateM.bind_eq_ok_iff.mp run
              obtain ⟨rfl, rfl⟩ := eq_of_readRecord ok small hr hread
              obtain ⟨_, σ₁, hundo, hrest⟩ := EStateM.bind_eq_ok_iff.mp hundo
              exact ⟨σ₁, hundo, hrest⟩
          obtain ⟨σ₁, hundo, hrest⟩ := hstep
          have quiet : Quiet σ σ₁ := Quiet.poolRel.undoRecord _ _ _ _ hundo
          obtain ⟨ok₁, happ⟩ := quiet.log ok
          exact .cons hundo (ih ok₁ (quiet.nextLsn ▸ small) rest
            (fun a ha => happ ▸ mem a (List.mem_cons_of_mem _ ha)) hrest)

/-- `LogManager::Rollback` of an active transaction undoes its records, newest first. -/
theorem rollback_undone {xid : Nat} (ok : ChainOk σ) (small : σ.log.nextLsn ≤ 2 ^ 32)
    (active : (σ.log.att.find? xid).isSome) (run : rollback xid σ = .ok () σ') :
    Undone (transactionLog σ.appended xid).reverse σ σ' := by
  obtain ⟨lsn, hfind⟩ := Option.isSome_iff_exists.mp active
  unfold rollback at run
  obtain ⟨_, σ₁, hmodify, hloop⟩ := EStateM.bind_eq_ok_iff.mp run
  have hatt : σ.log.att.insertNew xid 0 = σ.log.att := by simp [Assoc.insertNew, active]
  have hσ₁ : σ₁ = σ := by
    cases EStateM.modify_eq_ok_iff.mp hmodify
    simp only [hatt]
  subst hσ₁
  rw [EStateM.bind_of_ok (EStateM.get_eq_ok_iff.mpr ⟨rfl, rfl⟩), hfind] at hloop
  obtain ⟨hnull, hddl, hlast⟩ := ok.att xid lsn hfind
  obtain ⟨start, tiles⟩ := ok.tiles
  have range : ∀ r ∈ σ₁.appended, r.lsn < nullLsn := fun r hr =>
    Nat.lt_of_lt_of_le (tiles.pos_lt LogRecord.getSize_pos hr) ok.range
  obtain ⟨chain, -⟩ := backChain_transactionLog ok.chained range hnull hddl hlast
  exact rollbackLoop_undone ok small chain
    (fun r hr => (transactionLog_sublist _ _).subset (List.mem_reverse.mp hr)) hloop

end LogManager

/-! ## Headers -/

/-- What undoing a record makes of the header of the record in a slot. -/
def undoHeader (oid pageId slotId : Nat) (header : RecordHeader) (r : LogRecord) : RecordHeader :=
  match r.body with
  | .insert oid' pageId' slotId' _ _ _ =>
      if oid' = oid ∧ pageId' = pageId ∧ slotId' = slotId then
        { header with deleted := true, xmax := r.xid }
      else
        header
  | .delete oid' pageId' slotId' =>
      if oid' = oid ∧ pageId' = pageId ∧ slotId' = slotId then
        { header with deleted := false, xmax := nullXid }
      else
        header
  | _ => header

/-- A stored record after the undo of a list of records. -/
def undoStored (oid pageId slotId : Nat) (records : List LogRecord) (stored : StoredRecord) :
    StoredRecord :=
  { stored with record := { stored.record with
      header := records.foldl (undoHeader oid pageId slotId) stored.record.header } }

/-- A page after the undo of a list of records: other headers. -/
structure TablePage.Undoes (oid pageId : Nat) (records : List LogRecord) (page page' : TablePage) :
    Prop where
  lower : page'.lower = page.lower
  upper : page'.upper = page.upper
  slots : ∀ s, page'.slots s = (page.slots s).map (undoStored oid pageId s records)

namespace TablePage.Undoes

variable {oid pageId : Nat} {records records' : List LogRecord} {page page₁ page' : TablePage}

theorem nil (page : TablePage) : page.Undoes oid pageId [] page where
  lower := rfl
  upper := rfl
  slots s := by
    have hid : undoStored oid pageId s [] = id := rfl
    rw [hid, Option.map_id_fun, id]

theorem append (h : page.Undoes oid pageId records page₁) (h' : page₁.Undoes oid pageId records' page') :
    page.Undoes oid pageId (records ++ records') page' where
  lower := h'.lower.trans h.lower
  upper := h'.upper.trans h.upper
  slots s := by
    rw [h'.slots, h.slots, Option.map_map]
    refine congrArg (Option.map · _) (funext fun stored => ?_)
    simp only [Function.comp, undoStored, List.foldl_append]

/-- A record that leaves the headers of a page alone. -/
theorem of_eq {r : LogRecord} (hr : ∀ s header, undoHeader oid pageId s header r = header)
    (page : TablePage) (nextPageId : Nat) :
    page.Undoes oid pageId [r] (page.setNextPageId nextPageId) where
  lower := rfl
  upper := rfl
  slots s := by
    have hid : undoStored oid pageId s [r] = id := by
      funext stored
      simp only [undoStored, List.foldl_cons, List.foldl_nil, hr, id]
    rw [hid, Option.map_id_fun]
    rfl

/-- A record that rewrites one header of the page. -/
theorem of_modifyHeader {r : LogRecord} {slotId : Nat} {f : RecordHeader → RecordHeader}
    (hself : ∀ header, undoHeader oid pageId slotId header r = f header)
    (hother : ∀ s header, s ≠ slotId → undoHeader oid pageId s header r = header)
    (run : page.modifyHeader slotId f = some page') : page.Undoes oid pageId [r] page' := by
  obtain ⟨stored, hslot, rfl⟩ := Option.map_eq_some_iff.mp run
  refine ⟨rfl, rfl, fun s => ?_⟩
  dsimp only [setSlot]
  by_cases hs : s = slotId
  · subst hs
    rw [if_pos rfl, hslot]
    simp only [Option.map_some, undoStored, List.foldl_cons, List.foldl_nil, hself]
  · have hid : undoStored oid pageId s [r] = id := by
      funext stored
      simp only [undoStored, List.foldl_cons, List.foldl_nil, hother s _ hs, id]
    rw [if_neg hs, hid, Option.map_id_fun, id]

theorem wellFormed (h : page.Undoes oid pageId records page') (wf : page.WellFormed) :
    page'.WellFormed :=
  wf.congr h.lower h.upper fun s => by rw [h.slots, Option.isSome_map]

end TablePage.Undoes

/-! ## One record -/

/-- What undoing one record does to the pages that are seen of a table. -/
structure UndoneOnce (dbOid oid : Nat) (r : LogRecord) (σ σ' : Engine) : Prop where
  cached : Cached dbOid oid σ'
  pages : ∀ p page, σ.view dbOid ⟨oid, p⟩ = some page → ∃ page', σ'.view dbOid ⟨oid, p⟩ = some page' ∧
    page.Undoes oid p [r] page' ∧
    ((∀ q, r.body ≠ .newPage oid p q) → page'.nextPageId = page.nextPageId) ∧
    ∀ q next, r.body = .newPage oid p q → σ.nextPage dbOid oid q = some next →
      page'.nextPageId = next

namespace UndoneOnce

variable {dbOid oid : Nat} {r : LogRecord} {σ σ₁ σ' : Engine}

/-- A record that does not name the table. -/
theorem of_shows (cached : Cached dbOid oid σ') (shows' : Shows dbOid oid σ σ') (hr : r.body.Off oid) :
    UndoneOnce dbOid oid r σ σ' where
  cached := cached
  pages p page hview := by
    refine ⟨page, shows' _ _ hview, .of_eq (fun s header => ?_) page page.nextPageId, fun _ => rfl,
      fun q _ hq => ?_⟩
    · unfold LogBody.Off at hr
      unfold undoHeader
      split
      · rename_i hbody
        rw [hbody] at hr
        exact if_neg fun h => hr h.1
      · rename_i hbody
        rw [hbody] at hr
        exact if_neg fun h => hr h.1
      · rfl
    · rw [hq] at hr
      exact absurd rfl hr

/-- A record whose undo rewrites one header of one page of the table. -/
theorem of_modifyHeader {p slotId frame : Nat} {f : RecordHeader → RecordHeader}
    (ok : Cached dbOid oid σ)
    (hself : ∀ header, undoHeader oid p slotId header r = f header)
    (hother : ∀ q s header, (q, s) ≠ (p, slotId) → undoHeader oid q s header r = header)
    (hbody : ∀ q q', r.body ≠ .newPage oid q q')
    (hget : BufferPool.getPage dbOid oid p σ = .ok frame σ₁)
    (run : BufferPool.modifyPage? frame (fun page => page.modifyHeader slotId f) σ₁ = .ok () σ') :
    UndoneOnce dbOid oid r σ σ' := by
  obtain ⟨entry, page', hentry, hpage, rfl⟩ := BufferPool.modifyPage?_eq_ok run
  obtain ⟨entry', hkey, hview, hands, shows₁⟩ := ok.getPage hget
  cases hands.holds.stored.symm.trans hentry
  have stores := (Stores.withPage hands.cached hands.holds hkey page').of_shows shows₁
  refine ⟨hands.cached.withPage frame page', fun q page hq => ?_⟩
  by_cases heq : q = p
  · subst heq
    cases hview.symm.trans hq
    refine ⟨page', stores.1, ?_, fun _ => ?_, fun q' _ hq' => absurd hq' (hbody _ _)⟩
    · exact .of_modifyHeader hself (fun s header hs => hother q s header (by simp [hs])) hpage
    · obtain ⟨stored, -, rfl⟩ := Option.map_eq_some_iff.mp hpage
      rfl
  · refine ⟨page, stores.2 q page heq hq, ?_, fun _ => rfl, fun q' _ hq' => absurd hq' (hbody _ _)⟩
    exact .of_eq (fun s header => hother q s header (by simp [heq])) page page.nextPageId

/-- The undo of a page creation links its predecessor to its successor. -/
theorem of_newPage {prev p frame frame' : Nat} {entry : BufferPoolEntry} {σ₂ : Engine}
    (ok : Cached dbOid oid σ) (hne : prev ≠ p) (hbody : r.body = .newPage oid prev p)
    (hprev : BufferPool.getPage dbOid oid prev σ = .ok frame σ₁)
    (hget : BufferPool.getPage dbOid oid p σ₁ = .ok frame' σ₂)
    (hentry : σ₂.pool.buffers[frame']? = some entry)
    (run : BufferPool.modifyPage frame (fun page => page.setNextPageId entry.page.nextPageId) σ₂ =
      .ok () σ') : UndoneOnce dbOid oid r σ σ' := by
  obtain ⟨prevEntry, hprevEntry, rfl⟩ := BufferPool.modifyPage_eq_ok run
  obtain ⟨entry₁, hkey₁, hview₁, hands₁, shows₁⟩ := ok.getPage hprev
  obtain ⟨entry₂, hkey₂, hview₂, hands₂, shows₂⟩ := hands₁.cached.getPage hget
  cases hands₂.holds.stored.symm.trans hentry
  -- the frame of the predecessor was handed out just before, so it is still there
  have htable : entry₁.tableOid = oid := congrArg TablePageid.tableOid hkey₁
  have hkey : entry₁.key ≠ entry.key := fun h =>
    hne (congrArg TablePageid.pageId (hkey₁.symm.trans (h.trans hkey₂)))
  have holds := hands₂.keeps frame entry₁ hands₁.holds hands₁.recent htable hkey
  cases holds.stored.symm.trans hprevEntry
  have stores := (Stores.withPage hands₂.cached holds hkey₁
    (prevEntry.page.setNextPageId entry.page.nextPageId)).of_shows (shows₁.trans shows₂)
  have hsame (q s : Nat) (header : RecordHeader) : undoHeader oid q s header r = header := by
    unfold undoHeader
    rw [hbody]
  refine ⟨hands₂.cached.withPage frame _, fun q page hq => ?_⟩
  by_cases heq : q = prev
  · subst heq
    cases hview₁.symm.trans hq
    refine ⟨_, stores.1, .of_eq (hsame q) _ _, fun h => absurd hbody (h p), fun q' next hq' hnext => ?_⟩
    cases hbody.symm.trans hq'
    obtain ⟨page, hview, rfl⟩ := Engine.exists_view_of_nextPage hnext
    cases (shows₁ _ _ hview).symm.trans hview₂
    rfl
  · refine ⟨page, stores.2 q page heq hq, .of_eq (hsame q) page page.nextPageId, fun _ => rfl,
      fun q' _ hq' => ?_⟩
    cases hbody.symm.trans hq'
    exact absurd rfl heq

end UndoneOnce

namespace LogManager

variable {dbOid oid : Nat} {σ σ' : Engine}

theorem getDatabaseOid_bind_eq_ok {α : Type} {oid' : Nat} {f : Nat → Db α} {a : α}
    (run : (do f (← Db.ofExcept ((← get).catalog.getDatabaseOid oid')) : Db α) σ = .ok a σ') :
    ∃ dbOid', σ.catalog.getDatabaseOid oid' = .ok dbOid' ∧ f dbOid' σ = .ok a σ' := by
  rw [EStateM.bind_of_ok (EStateM.get_eq_ok_iff.mpr ⟨rfl, rfl⟩)] at run
  cases hdb : σ.catalog.getDatabaseOid oid' with
  | error e =>
      rw [hdb] at run
      cases run
  | ok dbOid' =>
      rw [hdb, Db.ofExcept_ok, pure_bind] at run
      exact ⟨dbOid', rfl, run⟩

/-- Undoing the record of an insertion or deletion in another table. -/
theorem undoPage_beside {oid' pageId dbOid' : Nat} {f : TablePage → Option TablePage}
    (ok : Cached dbOid oid σ) (hoid : oid' ≠ oid)
    (run : (do BufferPool.modifyPage? (← BufferPool.getPage dbOid' oid' pageId) f : Db Unit) σ =
      .ok () σ') : Beside dbOid oid σ σ' := by
  obtain ⟨frame, σ₁, hget, hmodify⟩ := EStateM.bind_eq_ok_iff.mp run
  obtain ⟨beside₁, hframe⟩ := Beside.getPage ok hoid hget
  obtain ⟨entry, page, -, -, rfl⟩ := BufferPool.modifyPage?_eq_ok hmodify
  exact beside₁.trans (.withPage beside₁.cached hframe page)

theorem undoRecord_once {r : LogRecord} (ok : Cached dbOid oid σ)
    (hdb : σ.catalog.getDatabaseOid oid = .ok dbOid)
    (hprev : ∀ prev p, r.body = .newPage oid prev p → prev ≠ p)
    (run : undoRecord r σ = .ok () σ') : UndoneOnce dbOid oid r σ σ' := by
  unfold undoRecord at run
  cases hbody : r.body with
  | insert oid' pageId slotId offset size record =>
      rw [hbody] at run
      obtain ⟨dbOid', hdb', run⟩ := getDatabaseOid_bind_eq_ok run
      by_cases hoid : oid' = oid
      · subst hoid
        cases hdb.symm.trans hdb'
        obtain ⟨frame, σ₁, hget, hmodify⟩ := EStateM.bind_eq_ok_iff.mp run
        refine .of_modifyHeader (f := fun header => { header with deleted := true, xmax := r.xid })
          ok (fun header => ?_) (fun q s header hne => ?_) (by simp [hbody]) hget hmodify
        · simp [undoHeader, hbody]
        · unfold undoHeader
          rw [hbody]
          exact if_neg fun h => hne (by rw [h.2.1, h.2.2])
      · have beside := undoPage_beside ok hoid run
        exact .of_shows beside.cached beside.shows' (by rw [hbody]; exact hoid)
  | delete oid' pageId slotId =>
      rw [hbody] at run
      obtain ⟨dbOid', hdb', run⟩ := getDatabaseOid_bind_eq_ok run
      by_cases hoid : oid' = oid
      · subst hoid
        cases hdb.symm.trans hdb'
        obtain ⟨frame, σ₁, hget, hmodify⟩ := EStateM.bind_eq_ok_iff.mp run
        refine .of_modifyHeader (f := fun header => { header with deleted := false, xmax := nullXid })
          ok (fun header => ?_) (fun q s header hne => ?_) (by simp [hbody]) hget hmodify
        · simp [undoHeader, hbody]
        · unfold undoHeader
          rw [hbody]
          exact if_neg fun h => hne (by rw [h.2.1, h.2.2])
      · have beside := undoPage_beside ok hoid run
        exact .of_shows beside.cached beside.shows' (by rw [hbody]; exact hoid)
  | newPage oid' prev p =>
      rw [hbody] at run
      obtain ⟨dbOid', hdb', hundo⟩ := getDatabaseOid_bind_eq_ok run
      obtain ⟨frame, σ₁, hget₁, hundo₁⟩ := EStateM.bind_eq_ok_iff.mp hundo
      obtain ⟨frame', σ₂, hget₂, hundo₂⟩ := EStateM.bind_eq_ok_iff.mp hundo₁
      obtain ⟨_, _, hpage, hmodify⟩ := EStateM.bind_eq_ok_iff.mp hundo₂
      obtain ⟨entry, hentry, rfl, rfl⟩ := BufferPool.page_eq_ok_iff.mp hpage
      by_cases hoid : oid' = oid
      · subst hoid
        cases hdb.symm.trans hdb'
        exact .of_newPage ok (hprev prev p hbody) hbody hget₁ hget₂ hentry hmodify
      · obtain ⟨beside₁, hframe⟩ := Beside.getPage ok hoid hget₁
        obtain ⟨beside₂, -⟩ := Beside.getPage beside₁.cached hoid hget₂
        obtain ⟨prevEntry, -, rfl⟩ := BufferPool.modifyPage_eq_ok hmodify
        have beside := (beside₁.trans beside₂).trans (.withPage beside₂.cached
          (beside₂.foreign _ hframe) (prevEntry.page.setNextPageId entry.page.nextPageId))
        exact .of_shows beside.cached beside.shows' (by rw [hbody]; exact hoid)
  | _ =>
      rw [hbody] at run
      cases run
      exact .of_shows ok (Shows.refl _ _ _) (by rw [hbody]; trivial)

end LogManager

/-! ## The list of pages -/

/-- The page of a table that a record creates. -/
def LogBody.creates? (oid : Nat) : LogBody → Option Nat
  | .newPage oid' _ p => if oid' = oid then some p else none
  | _ => none

/-- The pages of a table that records create. -/
def createdPages (oid : Nat) (records : List LogRecord) : List Nat :=
  records.filterMap fun r => r.body.creates? oid

theorem createdPages_append (oid : Nat) (records records' : List LogRecord) :
    createdPages oid (records ++ records') = createdPages oid records ++ createdPages oid records' :=
  List.filterMap_append

/-- The pages that stay when created pages are taken out: the undo of a creation
works through the page before it, where that is linked. -/
def keptPages (pages created : List Nat) : List Nat :=
  pages.filter fun p => ¬ (p ∈ created ∧ 0 < p ∧ p - 1 ∈ pages)

theorem keptPages_nil (pages : List Nat) : keptPages pages [] = pages := by
  refine List.filter_eq_self.mpr fun p _ => decide_eq_true ?_
  exact fun h => List.not_mem_nil h.1

/-- A creation whose predecessor is not linked has no effect. -/
theorem keptPages_cons_of_not {pages created : List Nat} {q : Nat}
    (hq : ¬ (0 < q ∧ q - 1 ∈ pages)) : keptPages pages (q :: created) = keptPages pages created := by
  refine List.filter_congr fun p _ => decide_eq_decide.mpr (not_congr ?_)
  rw [List.mem_cons]
  constructor
  · rintro ⟨rfl | hp, h⟩
    · exact absurd h hq
    · exact ⟨hp, h⟩
  · exact fun ⟨hp, h⟩ => ⟨.inr hp, h⟩

/-- The newest creation is undone first. -/
theorem keptPages_cons {pages created : List Nat} {q : Nat} (hpos : 0 < q) (hprev : q - 1 ∈ pages)
    (hlt : ∀ p ∈ created, p < q) :
    keptPages pages (q :: created) = keptPages (pages.filter (· ≠ q)) created := by
  rw [keptPages, keptPages, List.filter_filter]
  refine List.filter_congr fun p _ => ?_
  rw [← Bool.decide_and]
  refine decide_eq_decide.mpr ?_
  simp only [List.mem_cons, List.mem_filter, decide_eq_true_eq]
  by_cases hp : p = q
  · subst hp
    simp [hpos, hprev]
  · by_cases hcreated : p ∈ created
    · have := hlt p hcreated
      have hne : p - 1 ≠ q := by omega
      simp [hp, hcreated, hne]
    · simp [hp, hcreated]

namespace PageChain

variable {dbOid oid : Nat} {σ σ' : Engine} {first : Nat} {pages : List Nat} {r : LogRecord}

/-- An undo that changes no link of the list. -/
theorem undone_same (chain : PageChain dbOid oid σ first pages) (undone : UndoneOnce dbOid oid r σ σ')
    (hbody : ∀ p ∈ pages, ∀ q, r.body ≠ .newPage oid p q) : PageChain dbOid oid σ' first pages where
  linked := chain.linked.congr fun p hp => by
    obtain ⟨page, hview, -⟩ := chain.wellFormed p hp
    obtain ⟨page', hview', -, hnext, -⟩ := undone.pages p page hview
    rw [Engine.nextPage_of_view hview, Engine.nextPage_of_view hview', hnext (hbody p hp)]
  sorted := chain.sorted
  wellFormed p hp :=
    let ⟨page, hview, wf⟩ := chain.wellFormed p hp
    let ⟨page', hview', undoes, _⟩ := undone.pages p page hview
    ⟨page', hview', undoes.wellFormed wf⟩

/-- The undo of the creation of a page behind a linked one takes the page out. -/
theorem undone_unlink (chain : PageChain dbOid oid σ first pages)
    (undone : UndoneOnce dbOid oid r σ σ') {prev : Nat} (hbody : r.body = .newPage oid prev (prev + 1))
    (hprev : prev ∈ pages) (hp : prev + 1 ∈ pages) :
    PageChain dbOid oid σ' first (pages.filter (· ≠ prev + 1)) := by
  -- in a sorted list the two pages stand next to each other
  obtain ⟨before, rest, rfl⟩ := List.append_of_mem hprev
  have sorted := chain.sorted
  obtain ⟨-, hrest, hbefore⟩ := List.pairwise_append.mp sorted
  obtain ⟨hgt, hrest⟩ := List.pairwise_cons.mp hrest
  have hmem : prev + 1 ∈ rest := by
    rcases List.mem_append.mp hp with h | h
    · have := hbefore _ h prev List.mem_cons_self
      omega
    · exact (List.mem_cons.mp h).resolve_left (Nat.succ_ne_self prev)
  obtain ⟨after, rfl⟩ : ∃ after, rest = (prev + 1) :: after := by
    cases rest with
    | nil => cases hmem
    | cons q after =>
        have hq := hgt q List.mem_cons_self
        rcases List.mem_cons.mp hmem with rfl | h
        · exact ⟨after, rfl⟩
        · have := (List.pairwise_cons.mp hrest).1 _ h
          omega
  have hfilter : (before ++ prev :: (prev + 1) :: after).filter (· ≠ prev + 1) =
      before ++ prev :: after := by
    have hleft : before.filter (· ≠ prev + 1) = before := List.filter_eq_self.mpr fun q hq => by
      have := hbefore q hq prev List.mem_cons_self
      exact decide_eq_true (by omega)
    have hright : after.filter (· ≠ prev + 1) = after := List.filter_eq_self.mpr fun q hq => by
      have := (List.pairwise_cons.mp hrest).1 q hq
      exact decide_eq_true (by omega)
    rw [List.filter_append, List.filter_cons_of_pos (by simp), List.filter_cons_of_neg (by simp),
      hleft, hright]
  have hsub : (before ++ prev :: after).Sublist (before ++ prev :: (prev + 1) :: after) :=
    (List.Sublist.refl before).append ((List.sublist_cons_self _ _).cons_cons _)
  rw [hfilter]
  refine { linked := chain.linked.unlink (fun q hq => ?_) ?_, sorted := sorted.sublist hsub,
           wellFormed := fun q hq => ?_ }
  · have hq' : q ∈ before ++ prev :: (prev + 1) :: after := by
      rcases List.mem_append.mp hq with h | h
      · exact List.mem_append_left _ h
      · exact List.mem_append_right _ (List.mem_cons_of_mem _ (List.mem_cons_of_mem _ h))
    have hne : q ≠ prev := by
      rcases List.mem_append.mp hq with h | h
      · exact Nat.ne_of_lt (hbefore q h prev List.mem_cons_self)
      · exact Nat.ne_of_gt (hgt q (List.mem_cons_of_mem _ h))
    obtain ⟨page, hview, -⟩ := chain.wellFormed q hq'
    obtain ⟨page', hview', -, hnext, -⟩ := undone.pages q page hview
    rw [Engine.nextPage_of_view hview, Engine.nextPage_of_view hview', hnext fun q' h => hne ?_]
    cases hbody.symm.trans h
    rfl
  · obtain ⟨page, hview, -⟩ := chain.wellFormed prev hprev
    obtain ⟨page', hview', -, -, hnext⟩ := undone.pages prev page hview
    obtain ⟨next, hnext'⟩ := chain.linked.exists_next hp
    rw [Engine.nextPage_of_view hview', hnext', hnext _ next hbody hnext']
  · obtain ⟨page, hview, wf⟩ := chain.wellFormed q (hsub.subset hq)
    obtain ⟨page', hview', undoes, -⟩ := undone.pages q page hview
    exact ⟨page', hview', undoes.wellFormed wf⟩

end PageChain

/-- A record of a page creation in the table: the first page, or the page after another. -/
def LogRecord.CreatesAfter (oid : Nat) (r : LogRecord) : Prop :=
  ∀ prev p, r.body = .newPage oid prev p → prev = nullPageId ∧ p = 0 ∨ prev + 1 = p

/-- What undoing a list of records does to a table whose created pages come off from
the last to the first. -/
theorem Undone.pages {dbOid oid : Nat} {records : List LogRecord} {σ σ' : Engine} {first : Nat}
    {pages : List Nat} (undone : Undone records σ σ') (ok : Cached dbOid oid σ)
    (hdb : σ.catalog.getDatabaseOid oid = .ok dbOid) (chain : PageChain dbOid oid σ first pages)
    (sorted : (createdPages oid records).Pairwise (· > ·))
    (mem : ∀ p ∈ createdPages oid records, p ∈ pages)
    (after : ∀ r ∈ records, r.CreatesAfter oid) :
    Cached dbOid oid σ' ∧
      PageChain dbOid oid σ' first (keptPages pages (createdPages oid records)) ∧
      ∀ p page, σ.view dbOid ⟨oid, p⟩ = some page →
        ∃ page', σ'.view dbOid ⟨oid, p⟩ = some page' ∧ page.Undoes oid p records page' := by
  induction undone generalizing pages with
  | nil σ =>
      have hnil : createdPages oid [] = [] := rfl
      rw [hnil, keptPages_nil]
      exact ⟨ok, chain, fun p page hview => ⟨page, hview, .nil page⟩⟩
  | @cons r records σ σ₁ σ' step rest ih =>
      have hafter := after r List.mem_cons_self
      have once := LogManager.undoRecord_once ok hdb (fun prev p hbody => by
        rcases hafter prev p hbody with ⟨rfl, rfl⟩ | rfl
        · decide
        · omega) step
      have hdb₁ : σ₁.catalog.getDatabaseOid oid = .ok dbOid := by
        rw [(Quiet.poolRel.undoRecord _ _ _ _ step).catalog, hdb]
      have hcontents (pages' : List Nat) (ih' : Cached dbOid oid σ' ∧
          PageChain dbOid oid σ' first pages' ∧ ∀ p page, σ₁.view dbOid ⟨oid, p⟩ = some page →
            ∃ page', σ'.view dbOid ⟨oid, p⟩ = some page' ∧ page.Undoes oid p records page') :
          Cached dbOid oid σ' ∧ PageChain dbOid oid σ' first pages' ∧
            ∀ p page, σ.view dbOid ⟨oid, p⟩ = some page →
              ∃ page', σ'.view dbOid ⟨oid, p⟩ = some page' ∧ page.Undoes oid p (r :: records) page' := by
        refine ⟨ih'.1, ih'.2.1, fun p page hview => ?_⟩
        obtain ⟨page₁, hview₁, undoes₁, -⟩ := once.pages p page hview
        obtain ⟨page', hview', undoes'⟩ := ih'.2.2 p page₁ hview₁
        exact ⟨page', hview', undoes₁.append undoes'⟩
      have after' : ∀ r' ∈ records, r'.CreatesAfter oid := fun r' hr' =>
        after r' (List.mem_cons_of_mem _ hr')
      by_cases hcreates : ∃ prev p, r.body = .newPage oid prev p
      · obtain ⟨prev, p, hbody⟩ := hcreates
        have hcons : createdPages oid (r :: records) = p :: createdPages oid records := by
          simp [createdPages, LogBody.creates?, hbody]
        rw [hcons] at sorted mem ⊢
        obtain ⟨hlt, sorted'⟩ := List.pairwise_cons.mp sorted
        have hp := mem p List.mem_cons_self
        by_cases hprev : prev ∈ pages
        · -- the page comes off
          have hprev' : prev + 1 = p := (hafter prev p hbody).resolve_left fun h =>
            chain.linked.ne_stop hprev h.1
          subst hprev'
          have chain₁ := chain.undone_unlink once hbody hprev hp
          rw [keptPages_cons (Nat.succ_pos _) (by simpa using hprev) hlt]
          refine hcontents _ (ih once.cached hdb₁ chain₁ sorted' (fun q hq => ?_) after')
          have := hlt q hq
          refine List.mem_filter.mpr ⟨mem q (List.mem_cons_of_mem _ hq), decide_eq_true (by omega)⟩
        · have chain₁ := chain.undone_same once fun q hq q' h => by
            cases hbody.symm.trans h
            exact hprev hq
          have hkept : keptPages pages (p :: createdPages oid records) =
              keptPages pages (createdPages oid records) := by
            refine keptPages_cons_of_not fun h => hprev ?_
            rcases hafter prev p hbody with ⟨-, rfl⟩ | rfl
            · exact absurd h.1 (Nat.lt_irrefl 0)
            · simpa using h.2
          rw [hkept]
          exact hcontents _ (ih once.cached hdb₁ chain₁ sorted'
            (fun q hq => mem q (List.mem_cons_of_mem _ hq)) after')
      · have hcons : createdPages oid (r :: records) = createdPages oid records := by
          unfold createdPages
          rw [List.filterMap_cons_none]
          unfold LogBody.creates?
          split
          · rename_i oid' prev p hbody
            exact if_neg fun h : oid' = oid => hcreates ⟨prev, p, h ▸ hbody⟩
          · rfl
        rw [hcons] at sorted mem ⊢
        have chain₁ := chain.undone_same once fun q _ q' h => hcreates ⟨q, q', h⟩
        exact hcontents _ (ih once.cached hdb₁ chain₁ sorted mem after')

end HuaDB
