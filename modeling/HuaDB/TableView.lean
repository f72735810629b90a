import HuaDB.Lib.LinkedList
import HuaDB.LogChain
import HuaDB.PageView
import HuaDB.StorageRel
import HuaDB.TableSpec

/-!
What the operations of a table do to the pages that are seen.

The pages of a table are a linked list from its first page (`PageChain`). An
insertion places its record in a page of the list with room, or links a new page
after the last one; a deletion rewrites the header of one record. Everything else
that is seen stays, and all that the buffer pool does to the log is to flush it
(`Quiet`).
-/

namespace HuaDB

open LinkedList (Segment)

/-! ## The log under the buffer pool -/

/-- What the buffer pool leaves alone. -/
structure Quiet (σ σ' : Engine) : Prop where
  log : ChainOk σ → ChainOk σ' ∧ σ'.appended = σ.appended
  nextLsn : σ'.log.nextLsn = σ.log.nextLsn
  att : σ'.log.att = σ.log.att
  catalog : σ'.catalog = σ.catalog
  txn : σ'.txn = σ.txn

theorem ChainOk.appended_flushLog {σ : Engine} (ok : ChainOk σ) (lsn : Nat) :
    (σ.flushLog lsn).appended = σ.appended := by
  obtain ⟨start, mid, split⟩ := ok.split
  rw [Engine.appended, Engine.flushLog_disk_log, Engine.flushLog_logBuffer, List.append_assoc,
    ← (split.due lsn).1]
  rfl

namespace Quiet

theorem refl (σ : Engine) : Quiet σ σ := ⟨fun ok => ⟨ok, rfl⟩, rfl, rfl, rfl, rfl⟩

theorem trans (σ₁ σ₂ σ₃ : Engine) (h : Quiet σ₁ σ₂) (h' : Quiet σ₂ σ₃) : Quiet σ₁ σ₃ where
  log ok :=
    let ⟨ok₂, happ⟩ := h.log ok
    let ⟨ok₃, happ'⟩ := h'.log ok₂
    ⟨ok₃, happ'.trans happ⟩
  nextLsn := h'.nextLsn.trans h.nextLsn
  att := h'.att.trans h.att
  catalog := h'.catalog.trans h.catalog
  txn := h'.txn.trans h.txn

/-- A state with the same log records. -/
theorem of_eq {σ σ' : Engine} (hlog : σ'.disk.log = σ.disk.log)
    (hfile : σ'.disk.nextLsnFile = σ.disk.nextLsnFile)
    (hbuffer : σ'.log.logBuffer = σ.log.logBuffer) (hnext : σ'.log.nextLsn = σ.log.nextLsn)
    (hflushed : σ'.log.flushedLsn = σ.log.flushedLsn) (hatt : σ'.log.att = σ.log.att)
    (hcatalog : σ'.catalog = σ.catalog) (htxn : σ'.txn = σ.txn) : Quiet σ σ' where
  log ok := ⟨ok.congr hlog hfile hbuffer hnext hflushed hatt, by
    rw [Engine.appended, hlog, hbuffer]
    rfl⟩
  nextLsn := hnext
  att := hatt
  catalog := hcatalog
  txn := htxn

theorem flushLog (σ : Engine) (lsn : Nat) : Quiet σ (σ.flushLog lsn) where
  log ok := ⟨ok.flushLog lsn, ok.appended_flushLog lsn⟩
  nextLsn := σ.flushLog_nextLsn lsn
  att := σ.flushLog_att lsn
  catalog := σ.flushLog_catalog lsn
  txn := σ.flushLog_txn lsn

theorem poolRel : PoolRel Quiet :=
  .of_effects refl trans (fun _ _ => .of_eq rfl rfl rfl rfl rfl rfl rfl rfl) flushLog
    (fun _ _ => .of_eq rfl rfl rfl rfl rfl rfl rfl rfl) fun σ path pageId page pageWrites => by
      obtain ⟨files, hdisk⟩ := σ.disk.writePage_eq path pageId page
      rw [hdisk]
      exact .of_eq rfl rfl rfl rfl rfl rfl rfl rfl

end Quiet

theorem Quiet.find? {σ σ' : Engine} (quiet : Quiet σ σ') (xid : Nat) :
    σ'.log.att.find? xid = σ.log.att.find? xid := by rw [quiet.att]

/-! ## The records of an operation -/

/-- A body that `Table::InsertRecord` or `Table::DeleteRecord` logs. -/
def LogBody.OnPage : LogBody → Prop
  | .insert _ _ _ _ size _ => size < 2 ^ 16
  | .delete .. => True
  | .newPage .. => True
  | _ => False

/-- An active transaction appends records of the given bodies. -/
structure Logs (xid : Nat) (bodies : List LogBody) (σ σ' : Engine) : Prop where
  chain : ChainOk σ'
  appended : ∃ records : List LogRecord, σ'.appended = σ.appended ++ records ∧
    records.map (fun r => (r.xid, r.body)) = bodies.map (xid, ·)
  active : (σ.log.att.find? xid).isSome
  att : ∃ lsn, σ'.log.att = σ.log.att.insert xid lsn
  txn : σ'.txn = σ.txn
  onPage : ∀ body ∈ bodies, body.OnPage

namespace Logs

variable {xid : Nat} {bodies : List LogBody} {σ σ₁ σ' : Engine}

theorem after_quiet (ok : ChainOk σ) (quiet : Quiet σ σ₁) (logs : Logs xid bodies σ₁ σ') :
    Logs xid bodies σ σ' where
  chain := logs.chain
  appended := (quiet.log ok).2 ▸ logs.appended
  active := quiet.find? xid ▸ logs.active
  att := quiet.att ▸ logs.att
  txn := logs.txn.trans quiet.txn
  onPage := logs.onPage

theorem append {bodies' : List LogBody} (logs : Logs xid bodies σ σ₁) (logs' : Logs xid bodies' σ₁ σ') :
    Logs xid (bodies ++ bodies') σ σ' where
  chain := logs'.chain
  appended := by
    obtain ⟨records, happ, hmap⟩ := logs.appended
    obtain ⟨records', happ', hmap'⟩ := logs'.appended
    refine ⟨records ++ records', ?_, ?_⟩
    · rw [happ', happ, List.append_assoc]
    · rw [List.map_append, List.map_append, hmap, hmap']
  active := logs.active
  att := by
    obtain ⟨lsn, hatt⟩ := logs.att
    obtain ⟨lsn', hatt'⟩ := logs'.att
    exact ⟨lsn', by rw [hatt', hatt, Assoc.insert_insert]⟩
  txn := logs'.txn.trans logs.txn
  onPage body hbody := (List.mem_append.mp hbody).elim (logs.onPage body) (logs'.onPage body)

end Logs

/-- The last LSN of an active transaction is that of a record. -/
theorem ChainOk.find?_lt {σ : Engine} (ok : ChainOk σ) {xid lsn : Nat}
    (hfind : σ.log.att.find? xid = some lsn) : lsn < σ.log.nextLsn := by
  obtain ⟨start, tiles⟩ := ok.tiles
  obtain ⟨r, hr, rfl⟩ := Option.map_eq_some_iff.mp (ok.att xid lsn hfind).2.2
  exact tiles.pos_lt LogRecord.getSize_pos
    ((transactionLog_sublist _ _).subset (List.mem_of_getLast? hr))

theorem ChainOk.find?_ddlXid {σ : Engine} (ok : ChainOk σ) : σ.log.att.find? ddlXid = none := by
  cases hfind : σ.log.att.find? ddlXid with
  | none => rfl
  | some lsn => exact absurd rfl (ok.att ddlXid lsn hfind).2.1

theorem ChainOk.find?_nullXid {σ : Engine} (ok : ChainOk σ) : σ.log.att.find? nullXid = none := by
  cases hfind : σ.log.att.find? nullXid with
  | none => rfl
  | some lsn => exact absurd rfl (ok.att nullXid lsn hfind).1

/-- A body that does not name the table. -/
def LogBody.Off (oid : Nat) : LogBody → Prop
  | .insert oid' .. => oid' ≠ oid
  | .delete oid' .. => oid' ≠ oid
  | .newPage oid' .. => oid' ≠ oid
  | _ => True

/-- One record of an active transaction, linked to its last, while LSNs are far from
the end of their range. -/
theorem Logs.one {σ σ' : Engine} (ok : ChainOk σ) {xid prevLsn : Nat} {body : LogBody} {dpt : Dpt}
    (hfind : σ.log.att.find? xid = some prevLsn) (small : σ.log.nextLsn < 2 ^ 33)
    (hbody : body.OnPage)
    (hlog : σ'.log = σ.log.appendedWith xid prevLsn body (σ.log.att.insert xid σ.log.nextLsn) dpt)
    (hdisk : σ'.disk = σ.disk) (htxn : σ'.txn = σ.txn) : Logs xid [body] σ σ' := by
  have hsize : body.extraSize < 2 ^ 17 := by
    unfold LogBody.OnPage at hbody
    cases body <;> simp only [LogBody.extraSize] at * <;> omega
  have range : (σ.nextRecord xid prevLsn body).endLsn ≤ nullLsn := by
    change σ.log.nextLsn + (LogRecord.headerSize + body.extraSize) ≤ nullLsn
    simp only [LogRecord.headerSize, nullLsn]
    omega
  have hchain : ChainOk (σ.appendedWith xid prevLsn body (σ.log.att.insert xid σ.log.nextLsn) dpt) :=
      ok.appendActive dpt hfind rfl range fun h => by
    unfold LogBody.OnPage at hbody
    unfold Chained Engine.nextRecord
    cases body <;> first | exact hbody.elim | exact fun _ => h
  refine { chain := hchain.congr ?_ ?_ ?_ ?_ ?_ ?_,
           appended := ⟨[σ.nextRecord xid prevLsn body], ?_, rfl⟩,
           active := hfind ▸ rfl, att := ⟨σ.log.nextLsn, by rw [hlog]; rfl⟩, txn := htxn,
           onPage := fun body' hbody' => List.mem_singleton.mp hbody' ▸ hbody } <;>
    first | rw [hdisk]; rfl | rw [hlog]; rfl | skip
  rw [Engine.appended, hdisk, hlog]
  exact (List.append_assoc _ _ _).symm

/-! ## Well formed pages -/

namespace TablePage

/-- The slot array ends where the free space starts, the records start where it
ends, and the slots are those counted. -/
structure WellFormed (page : TablePage) : Prop where
  header : pageHeaderSize ≤ page.lower
  aligned : (page.lower - pageHeaderSize) % sizeofSlot = 0
  room : page.lower ≤ page.upper
  bound : page.upper ≤ dbPageSize
  slots : ∀ s, (page.slots s).isSome ↔ s < page.getRecordCount

theorem getRecordCount_eq {page : TablePage} (header : pageHeaderSize ≤ page.lower)
    (bound : page.lower ≤ dbPageSize) :
    page.getRecordCount = (page.lower - pageHeaderSize) / sizeofSlot := by
  simp only [getRecordCount, pageHeaderSize, sizeofSlot, dbPageSize] at header bound ⊢
  omega

/-- A new page. -/
theorem wellFormed_init_zero : TablePage.zero.init.WellFormed where
  header := Nat.le_refl _
  aligned := rfl
  room := by decide
  bound := Nat.le_refl _
  slots s := by
    have hcount : TablePage.zero.init.getRecordCount = 0 := by decide
    rw [hcount]
    exact ⟨nofun, nofun⟩

/-- A new page has room for any record. -/
theorem maxRecordSize_le_init_zero : maxRecordSize ≤ TablePage.zero.init.getFreeSpaceSize := by
  have hfree : TablePage.zero.init.getFreeSpaceSize = 236 := rfl
  rw [hfree]
  decide

namespace WellFormed

variable {page page' : TablePage}

theorem getRecordCount (wf : page.WellFormed) :
    page.getRecordCount = (page.lower - pageHeaderSize) / sizeofSlot :=
  getRecordCount_eq wf.header (Nat.le_trans wf.room wf.bound)

/-- The fields that matter. -/
theorem congr (wf : page.WellFormed) (hlower : page'.lower = page.lower)
    (hupper : page'.upper = page.upper)
    (hslots : ∀ s, (page'.slots s).isSome = (page.slots s).isSome) : page'.WellFormed where
  header := hlower ▸ wf.header
  aligned := hlower ▸ wf.aligned
  room := by rw [hlower, hupper]; exact wf.room
  bound := hupper ▸ wf.bound
  slots s := by
    rw [hslots, TablePage.getRecordCount, hlower]
    exact wf.slots s

theorem setNextPageId (wf : page.WellFormed) (pageId : Nat) : (page.setNextPageId pageId).WellFormed :=
  wf.congr rfl rfl fun _ => rfl

theorem setPageLsn (wf : page.WellFormed) (lsn : Nat) : (page.setPageLsn lsn).WellFormed :=
  wf.congr rfl rfl fun _ => rfl

/-- A record that fits takes the next slot. -/
theorem insertRecord (wf : page.WellFormed) {record : Record} (hpos : 0 < record.getSize)
    (hfree : record.getSize ≤ page.getFreeSpaceSize) (xid cid : Nat) :
    (page.insertRecord record xid cid).2.2.WellFormed ∧
      (page.insertRecord record xid cid).1 = page.getRecordCount ∧
      (page.insertRecord record xid cid).2.2.getRecordCount = page.getRecordCount + 1 := by
  obtain ⟨header, aligned, room, bound, slots⟩ := wf
  have hcount := getRecordCount_eq header (Nat.le_trans room bound)
  have hfree' : page.lower + sizeofSlot + record.getSize ≤ page.upper := by
    unfold getFreeSpaceSize at hfree
    split at hfree <;> omega
  generalize hsize : record.getSize = size at hpos hfree'
  have hlower : (page.insertRecord record xid cid).2.2.lower = page.lower + sizeofSlot := by
    simp only [TablePage.insertRecord, setSlot, sizeofSlot, dbPageSize] at bound hfree' ⊢
    omega
  have hupper : (page.insertRecord record xid cid).2.2.upper = page.upper - size := by
    simp only [TablePage.insertRecord, setSlot, hsize, dbPageSize] at bound ⊢
    omega
  have hcount' : (page.insertRecord record xid cid).2.2.getRecordCount = page.getRecordCount + 1 := by
    rw [getRecordCount_eq (hlower ▸ Nat.le_trans header (Nat.le_add_right _ _))
      (hlower ▸ by omega), hlower, hcount]
    simp only [pageHeaderSize, sizeofSlot] at header ⊢
    omega
  refine ⟨⟨?_, ?_, ?_, ?_, fun s => ?_⟩, ?_, hcount'⟩
  · rw [hlower]
    exact Nat.le_trans header (Nat.le_add_right _ _)
  · rw [hlower]
    simp only [pageHeaderSize, sizeofSlot] at header aligned ⊢
    omega
  · rw [hlower, hupper]
    omega
  · rw [hupper]
    omega
  · rw [hcount']
    simp only [TablePage.insertRecord, setSlot]
    by_cases hs : s = page.getRecordCount
    · simp [hs]
    · rw [if_neg hs, slots s]
      omega
  · change ((page.insertRecord record xid cid).2.2.getRecordCount + 2 ^ 16 - 1) % 2 ^ 16 = _
    rw [hcount', hcount]
    simp only [pageHeaderSize, sizeofSlot, dbPageSize] at *
    omega

/-- The slots after an insertion. -/
theorem slots_insertRecord (wf : page.WellFormed) {record : Record} (hpos : 0 < record.getSize)
    (hfree : record.getSize ≤ page.getFreeSpaceSize) (xid cid : Nat) :
    ∃ slot, ∀ s, (page.insertRecord record xid cid).2.2.slots s =
      if s = (page.insertRecord record xid cid).1 then
        some ⟨slot, (page.insertRecord record xid cid).2.1⟩
      else
        page.slots s := by
  rw [(wf.insertRecord hpos hfree xid cid).2.1]
  exact ⟨_, fun _ => rfl⟩

/-- Rewriting a header. -/
theorem modifyHeader (wf : page.WellFormed) {slotId : Nat} {f : RecordHeader → RecordHeader}
    (run : page.modifyHeader slotId f = some page') : page'.WellFormed := by
  obtain ⟨stored, hslot, rfl⟩ := Option.map_eq_some_iff.mp run
  refine wf.congr rfl rfl fun s => ?_
  simp only [setSlot]
  split
  · rename_i hs
    rw [hs, hslot]
    rfl
  · rfl

end WellFormed

end TablePage

/-! ## The pages of a table -/

/-- The link of a page, as it is seen. -/
def Engine.nextPage (σ : Engine) (dbOid oid pageId : Nat) : Option Nat :=
  (σ.view dbOid ⟨oid, pageId⟩).map TablePage.nextPageId

theorem Engine.nextPage_of_view {σ : Engine} {dbOid oid pageId : Nat} {page : TablePage}
    (h : σ.view dbOid ⟨oid, pageId⟩ = some page) :
    σ.nextPage dbOid oid pageId = some page.nextPageId := by
  rw [nextPage, h]
  rfl

theorem Engine.exists_view_of_nextPage {σ : Engine} {dbOid oid pageId next : Nat}
    (h : σ.nextPage dbOid oid pageId = some next) :
    ∃ page, σ.view dbOid ⟨oid, pageId⟩ = some page ∧ page.nextPageId = next :=
  Option.map_eq_some_iff.mp h

/-- A page with a link that is seen in both states is the same in both. -/
theorem Shows.view_eq {σ σ' : Engine} {dbOid oid pageId next : Nat} {page : TablePage}
    (shows' : Shows dbOid oid σ σ') (hnext : σ.nextPage dbOid oid pageId = some next)
    (hview : σ'.view dbOid ⟨oid, pageId⟩ = some page) : σ.view dbOid ⟨oid, pageId⟩ = some page := by
  obtain ⟨page', hview', -⟩ := Engine.exists_view_of_nextPage hnext
  rw [hview', ← hview, shows' _ _ hview']

theorem Shows.segment {σ σ' : Engine} {dbOid oid first last : Nat} {pages : List Nat}
    (shows' : Shows dbOid oid σ σ')
    (linked : Segment (σ.nextPage dbOid oid) nullPageId first pages last) :
    Segment (σ'.nextPage dbOid oid) nullPageId first pages last :=
  linked.congr fun p hp => by
    obtain ⟨next, hnext⟩ := linked.exists_next hp
    obtain ⟨page, hview, rfl⟩ := Engine.exists_view_of_nextPage hnext
    rw [hnext, Engine.nextPage_of_view (shows' _ _ hview)]

/-- The pages of a table from its first page on, in the order of their links and
of their numbers. -/
structure PageChain (dbOid oid : Nat) (σ : Engine) (firstPageId : Nat) (pages : List Nat) :
    Prop where
  linked : Segment (σ.nextPage dbOid oid) nullPageId firstPageId pages nullPageId
  sorted : pages.Pairwise (· < ·)
  wellFormed : ∀ p ∈ pages, ∃ page, σ.view dbOid ⟨oid, p⟩ = some page ∧ page.WellFormed

/-- One page of a table is seen with new contents, the others as before. -/
def Stores (dbOid oid : Nat) (pageId : Nat) (page : TablePage) (σ σ' : Engine) : Prop :=
  σ'.view dbOid ⟨oid, pageId⟩ = some page ∧ ∀ pageId' page', pageId' ≠ pageId →
    σ.view dbOid ⟨oid, pageId'⟩ = some page' → σ'.view dbOid ⟨oid, pageId'⟩ = some page'

namespace Stores

variable {dbOid oid pageId : Nat} {page : TablePage} {σ σ₁ σ' : Engine}

theorem of_shows (shows₁ : Shows dbOid oid σ σ₁) (h : Stores dbOid oid pageId page σ₁ σ') :
    Stores dbOid oid pageId page σ σ' :=
  ⟨h.1, fun pageId' page' hne hview => h.2 pageId' page' hne (shows₁ pageId' page' hview)⟩

theorem shows_after (h : Stores dbOid oid pageId page σ σ₁) (shows' : Shows dbOid oid σ₁ σ') :
    Stores dbOid oid pageId page σ σ' :=
  ⟨shows' _ _ h.1, fun pageId' page' hne hview => shows' _ _ (h.2 pageId' page' hne hview)⟩

/-- Modifying the page of a frame. -/
theorem withPage (ok : Cached dbOid oid σ) {frame : Nat} {entry : BufferPoolEntry}
    (holds : Holds σ frame entry) (hkey : entry.key = ⟨oid, pageId⟩) (page : TablePage) :
    Stores dbOid oid pageId page σ { σ with pool := σ.pool.withPage frame page } := by
  refine ⟨hkey ▸ Cached.view_withPage_self holds page, fun pageId' page' hne hview => ?_⟩
  rw [ok.view_withPage_of_ne holds.stored page (fun h => hne ?_)]
  · exact hview
  · exact congrArg TablePageid.pageId (h.trans hkey)

/-- The same for a state with that pool. -/
theorem withPage_eq (ok : Cached dbOid oid σ) {frame : Nat} {entry : BufferPoolEntry}
    (holds : Holds σ frame entry) (hkey : entry.key = ⟨oid, pageId⟩)
    (hpool : σ'.pool = σ.pool.withPage frame page) (hdisk : σ'.disk = σ.disk) :
    Cached dbOid oid σ' ∧ Stores dbOid oid pageId page σ σ' := by
  have hfiles : σ'.disk.files = σ.disk.files := by rw [hdisk]
  refine ⟨(ok.withPage frame page).congr hpool hfiles, ?_⟩
  refine (withPage ok holds hkey page).shows_after fun pageId' page' hview => ?_
  rw [Engine.view_congr (σ := { σ with pool := σ.pool.withPage frame page }) (congrArg _ hpool)
    (congrArg _ hpool) hfiles]
  exact hview

end Stores

namespace PageChain

variable {dbOid oid : Nat} {σ σ' : Engine} {firstPageId : Nat} {pages : List Nat}

/-- A state that shows the pages of the table. -/
theorem of_shows (chain : PageChain dbOid oid σ firstPageId pages) (shows' : Shows dbOid oid σ σ') :
    PageChain dbOid oid σ' firstPageId pages where
  linked := shows'.segment chain.linked
  sorted := chain.sorted
  wellFormed p hp :=
    let ⟨page, hview, wf⟩ := chain.wellFormed p hp
    ⟨page, shows' _ _ hview, wf⟩

/-- A page of the table with the same link and other records. -/
theorem of_stores (chain : PageChain dbOid oid σ firstPageId pages) {pageId : Nat}
    {page page' : TablePage} (hview : σ.view dbOid ⟨oid, pageId⟩ = some page)
    (hnext : page'.nextPageId = page.nextPageId) (wf : page'.WellFormed)
    (stores : Stores dbOid oid pageId page' σ σ') : PageChain dbOid oid σ' firstPageId pages where
  linked := chain.linked.congr fun p hp => by
    by_cases heq : p = pageId
    · subst heq
      rw [Engine.nextPage_of_view hview, Engine.nextPage_of_view stores.1, hnext]
    · obtain ⟨page₁, hview₁, -⟩ := chain.wellFormed p hp
      rw [Engine.nextPage_of_view hview₁, Engine.nextPage_of_view (stores.2 _ _ heq hview₁)]
  sorted := chain.sorted
  wellFormed p hp := by
    by_cases heq : p = pageId
    · subst heq
      exact ⟨page', stores.1, wf⟩
    · obtain ⟨page₁, hview₁, wf₁⟩ := chain.wellFormed p hp
      exact ⟨page₁, stores.2 _ _ heq hview₁, wf₁⟩

end PageChain

/-! ## Looking for room -/

namespace Table

variable {dbOid oid : Nat} {σ σ' : Engine}

/-- No page of a list has room for a record of a size. -/
def Full (dbOid oid size : Nat) (pages : List Nat) (σ : Engine) : Prop :=
  ∀ p ∈ pages, ∀ page, σ.view dbOid ⟨oid, p⟩ = some page → page.getFreeSpaceSize < size

theorem Full.cons {size p : Nat} {pages : List Nat} {page : TablePage}
    (hview : σ.view dbOid ⟨oid, p⟩ = some page) (hfree : page.getFreeSpaceSize < size)
    (full : Full dbOid oid size pages σ) : Full dbOid oid size (p :: pages) σ := by
  intro q hq page' hview'
  rcases List.mem_cons.mp hq with rfl | hq
  · cases hview.symm.trans hview'
    exact hfree
  · exact full q hq page' hview'

theorem Full.of_shows {size : Nat} {pages : List Nat} {σ₁ : Engine} (shows₁ : Shows dbOid oid σ σ₁)
    (full : Full dbOid oid size pages σ₁) : Full dbOid oid size pages σ :=
  fun q hq page hview => full q hq page (shows₁ q page hview)

/-- What the walk over the pages after the first comes to: a page with room in a
frame, no page at all, or the last page, which is linked to the page after it. -/
inductive Found (dbOid oid size : Nat) (lastPageId : Nat) (pages : List Nat) (σ σ' : Engine) :
    Option Nat × Nat → Prop
  | room {frame pageId : Nat} {entry : BufferPoolEntry} (mem : pageId ∈ pages)
      (view : σ.view dbOid ⟨oid, pageId⟩ = some entry.page)
      (free : size ≤ entry.page.getFreeSpaceSize) (key : entry.key = ⟨oid, pageId⟩)
      (holds : Holds σ' frame entry) (shows' : Shows dbOid oid σ σ') :
      Found dbOid oid size lastPageId pages σ σ' (some frame, pageId)
  | none (nil : pages = []) (same : σ' = σ) :
      Found dbOid oid size lastPageId pages σ σ' (none, lastPageId)
  | last {before : List Nat} {pageId : Nat} {page : TablePage} (eq : pages = before ++ [pageId])
      (full : Full dbOid oid size pages σ) (view : σ.view dbOid ⟨oid, pageId⟩ = some page)
      (stores : Stores dbOid oid pageId (page.setNextPageId (pageId + 1)) σ σ') :
      Found dbOid oid size lastPageId pages σ σ' (none, pageId)

theorem findRoom_found {size fuel lastPageId nextPageId : Nat} {pages : List Nat}
    {found : Option Nat × Nat} (ok : Cached dbOid oid σ)
    (linked : Segment (σ.nextPage dbOid oid) nullPageId nextPageId pages nullPageId)
    (run : findRoom dbOid oid size fuel lastPageId nextPageId σ = .ok found σ') :
    Cached dbOid oid σ' ∧ Found dbOid oid size lastPageId pages σ σ' found ∧
      ∀ p, p ∉ pages → σ.pool.hashmap ⟨oid, p⟩ = none → σ'.pool.hashmap ⟨oid, p⟩ = none := by
  induction fuel generalizing lastPageId nextPageId pages σ with
  | zero => cases run
  | succ fuel ih =>
      rcases findRoom_succ_eq_ok run with ⟨hnull, rfl, rfl⟩ | ⟨hnull, frame, σ₁, entry, hget, hentry, h⟩
      · cases pages with
        | nil => exact ⟨ok, .none rfl rfl, fun _ _ h => h⟩
        | cons p pages => exact absurd hnull linked.1
      cases pages with
      | nil => exact absurd linked hnull
      | cons p pages =>
          obtain ⟨-, rfl, next, hnext, rest⟩ := linked
          obtain ⟨entry', hkey, hview, hands, shows₁⟩ := ok.getPage hget
          cases hentry.symm.trans hands.holds.stored
          rw [Engine.nextPage_of_view hview] at hnext
          cases hnext
          have hunmapped (q : Nat) (hq : q ∉ p :: pages) (hmap : σ.pool.hashmap ⟨oid, q⟩ = none) :
              σ₁.pool.hashmap ⟨oid, q⟩ = none := by
            refine hands.unmapped _ (fun h => hq ?_) hmap
            have hpage : q = p := congrArg TablePageid.pageId (h.trans hkey)
            exact hpage ▸ List.mem_cons_self
          rcases h with ⟨hfree, rfl, rfl⟩ | ⟨hfull, hrest⟩
          · exact ⟨hands.cached,
              .room List.mem_cons_self hview hfree hkey hands.holds shows₁, hunmapped⟩
          unfold linked at hrest
          by_cases hlast : entry.page.nextPageId = nullPageId
          · -- the last page: its link is set, and the walk ends
            rw [if_pos hlast] at hrest
            have hnil : pages = [] := by
              cases pages with
              | nil => rfl
              | cons q pages => exact absurd hlast rest.1
            subst hnil
            obtain ⟨ok', found', hrest'⟩ := ih (hands.cached.withPage frame _)
              (show Segment _ nullPageId entry.page.nextPageId [] nullPageId from hlast) hrest
            have stores := Stores.withPage hands.cached hands.holds hkey
              (entry.page.setNextPageId (p + 1))
            refine ⟨ok', ?_, fun q hq hmap => hrest' q List.not_mem_nil (hunmapped q hq hmap)⟩
            cases found' with
            | room mem => cases mem
            | none _ same =>
                subst same
                exact .last (List.nil_append [p]).symm
                  (.cons hview hfull fun _ h => absurd h List.not_mem_nil) hview
                  (stores.of_shows shows₁)
            | @last before _ _ eq => exact absurd eq (by simp)
          · rw [if_neg hlast] at hrest
            obtain ⟨ok', found', hrest'⟩ := ih hands.cached (shows₁.segment rest) hrest
            refine ⟨ok', ?_, fun q hq hmap =>
              hrest' q (fun h => hq (List.mem_cons_of_mem _ h)) (hunmapped q hq hmap)⟩
            have hback {q : Nat} {page : TablePage} (hq : q ∈ pages)
                (h : σ₁.view dbOid ⟨oid, q⟩ = some page) : σ.view dbOid ⟨oid, q⟩ = some page := by
              obtain ⟨next, hnext⟩ := rest.exists_next hq
              exact shows₁.view_eq hnext h
            cases found' with
            | room mem view free key holds shows' =>
                exact .room (List.mem_cons_of_mem _ mem) (hback mem view) free key holds
                  (shows₁.trans shows')
            | none nil _ =>
                subst nil
                exact absurd rest hlast
            | @last before q page eq full view stores =>
                have hq : q ∈ pages := by rw [eq]; simp
                have hpages : p :: pages = (p :: before) ++ [q] := by
                  rw [eq]
                  rfl
                exact .last hpages (.cons hview hfull (full.of_shows shows₁)) (hback hq view)
                  (stores.of_shows shows₁)

/-! ## Inserting and deleting -/

section

variable {record : Record} {xid cid frame pageId : Nat} {rid : Rid}

/-- The `InsertLog` of a record placed in a page. -/
def insertBody (oid pageId : Nat) (placed : Nat × Record × TablePage) : LogBody :=
  .insert oid pageId placed.1 placed.2.2.upper placed.2.1.getSize placed.2.1

theorem onPage_insertBody (placed : Nat × Record × TablePage) :
    (insertBody oid pageId placed).OnPage := Nat.mod_lt _ (by decide)

theorem insertInto_logs (ok : ChainOk σ) (small : σ.log.nextLsn < 2 ^ 32)
    (run : insertInto oid pageId frame record xid cid σ = .ok rid σ') :
    ∃ entry, σ.pool.buffers[frame]? = some entry ∧
      let placed := entry.page.insertRecord record xid cid
      rid = ⟨pageId, placed.1⟩ ∧ Logs xid [insertBody oid pageId placed] σ σ' ∧
      σ'.pool = σ.pool.withPage frame (placed.2.2.setPageLsn σ.log.nextLsn) ∧
      σ'.disk = σ.disk ∧ σ'.catalog = σ.catalog := by
  obtain ⟨entry, prevLsn, hentry, hprev, hrid, rfl⟩ := insertInto_eq_ok run
  refine ⟨entry, hentry, hrid, ?_, rfl, rfl, rfl⟩
  exact .one ok hprev (by omega) (onPage_insertBody _) rfl rfl rfl

theorem insertIntoNewPage_logs {prevPageId : Nat} (ok : ChainOk σ) (small : σ.log.nextLsn < 2 ^ 32)
    (run : insertIntoNewPage oid prevPageId pageId frame record xid cid σ = .ok rid σ') :
    ∃ entry lsn, σ.pool.buffers[frame]? = some entry ∧
      let placed := entry.page.init.insertRecord record xid cid
      rid = ⟨pageId, placed.1⟩ ∧
      Logs xid [.newPage oid prevPageId pageId, insertBody oid pageId placed] σ σ' ∧
      σ'.pool = σ.pool.withPage frame (placed.2.2.setPageLsn lsn) ∧
      σ'.disk = σ.disk ∧ σ'.catalog = σ.catalog := by
  obtain ⟨entry, prevLsn, hentry, hprev, hrid, rfl⟩ := insertIntoNewPage_eq_ok ok.find?_ddlXid run
  refine ⟨entry, _, hentry, hrid, ?_, rfl, rfl, rfl⟩
  -- the link of the first record passes through 32 bits, which hold it
  have hmod : prevLsn % 2 ^ 32 = prevLsn :=
    Nat.mod_eq_of_lt (Nat.lt_trans (ok.find?_lt hprev) small)
  let σ₁ : Engine := { σ with log := newPageLogged σ.log oid prevPageId pageId xid prevLsn }
  have created : Logs xid [.newPage oid prevPageId pageId] σ σ₁ :=
    .one ok hprev (by omega) trivial (by rw [← hmod]; rfl) rfl rfl
  have hsmall : σ₁.log.nextLsn < 2 ^ 33 := by
    change σ.log.nextLsn + (LogRecord.headerSize + (4 + 4 + 4)) < 2 ^ 33
    simp only [LogRecord.headerSize]
    omega
  exact created.append (.one created.chain (Assoc.find?_insert_self _ _ _) hsmall
    (onPage_insertBody _) rfl rfl rfl)

/-- What `Table::InsertRecord` does to the table: a page with room gets the record,
or a new page after the last one, or a first page. -/
inductive Inserted (dbOid oid : Nat) (record : Record) (xid cid : Nat) (pages : List Nat)
    (σ σ' : Engine) : Rid → Prop
  | room {p lsn : Nat} {page : TablePage} (mem : p ∈ pages) (view : σ.view dbOid ⟨oid, p⟩ = some page)
      (free : record.getSize ≤ page.getFreeSpaceSize)
      (stores : Stores dbOid oid p ((page.insertRecord record xid cid).2.2.setPageLsn lsn) σ σ')
      (logs : Logs xid [insertBody oid p (page.insertRecord record xid cid)] σ σ')
      (catalog : σ'.catalog = σ.catalog) :
      Inserted dbOid oid record xid cid pages σ σ' ⟨p, (page.insertRecord record xid cid).1⟩
  | last {before : List Nat} {p lsn : Nat} {page : TablePage} (eq : pages = before ++ [p])
      (full : Full dbOid oid record.getSize pages σ) (view : σ.view dbOid ⟨oid, p⟩ = some page)
      (linked : σ'.view dbOid ⟨oid, p⟩ = some (page.setNextPageId (p + 1)))
      (created : σ'.view dbOid ⟨oid, p + 1⟩ =
        some ((TablePage.zero.init.insertRecord record xid cid).2.2.setPageLsn lsn))
      (others : ∀ q page', q ≠ p → q ≠ p + 1 → σ.view dbOid ⟨oid, q⟩ = some page' →
        σ'.view dbOid ⟨oid, q⟩ = some page')
      (logs : Logs xid [.newPage oid p (p + 1),
        insertBody oid (p + 1) (TablePage.zero.init.insertRecord record xid cid)] σ σ')
      (catalog : σ'.catalog = σ.catalog) :
      Inserted dbOid oid record xid cid pages σ σ'
        ⟨p + 1, (TablePage.zero.init.insertRecord record xid cid).1⟩
  | first {lsn : Nat} {table : Table} (nil : pages = [])
      (created : σ'.view dbOid ⟨oid, 0⟩ =
        some ((TablePage.zero.init.insertRecord record xid cid).2.2.setPageLsn lsn))
      (others : ∀ q page', q ≠ 0 → σ.view dbOid ⟨oid, q⟩ = some page' →
        σ'.view dbOid ⟨oid, q⟩ = some page')
      (logs : Logs xid [.newPage oid nullPageId 0,
        insertBody oid 0 (TablePage.zero.init.insertRecord record xid cid)] σ σ')
      (hfind : σ.catalog.oid2table.find? oid = some table)
      (catalog : σ'.catalog = { σ.catalog with
        oid2table := σ.catalog.oid2table.insert oid { table with firstPageId := 0 } }) :
      Inserted dbOid oid record xid cid pages σ σ'
        ⟨0, (TablePage.zero.init.insertRecord record xid cid).1⟩

/-- Placing a record in a page of the table that a frame holds. -/
theorem Inserted.of_room {pages : List Nat} {σ₁ : Engine} {entry : BufferPoolEntry}
    (ok : ChainOk σ) (small : σ.log.nextLsn < 2 ^ 32) (quiet : Quiet σ σ₁)
    (cached : Cached dbOid oid σ₁)
    (shows₁ : Shows dbOid oid σ σ₁) (holds : Holds σ₁ frame entry) (hkey : entry.key = ⟨oid, pageId⟩)
    (hview : σ.view dbOid ⟨oid, pageId⟩ = some entry.page) (hmem : pageId ∈ pages)
    (hfree : record.getSize ≤ entry.page.getFreeSpaceSize)
    (run : insertInto oid pageId frame record xid cid σ₁ = .ok rid σ') :
    Cached dbOid oid σ' ∧ Inserted dbOid oid record xid cid pages σ σ' rid := by
  obtain ⟨entry', hentry, rfl, logs, hpool, hdisk, hcatalog⟩ :=
    insertInto_logs (quiet.log ok).1 (quiet.nextLsn ▸ small) run
  cases holds.stored.symm.trans hentry
  obtain ⟨cached', stores⟩ := Stores.withPage_eq cached holds hkey hpool hdisk
  exact ⟨cached', .room hmem hview hfree (stores.of_shows shows₁) (logs.after_quiet ok quiet)
    (hcatalog.trans quiet.catalog)⟩

/-- Creating a page that is in no frame, with its first record. The state may change
outside the pool, the disk and the log in between. -/
theorem created {prevPageId : Nat} {σ₁ σ₂ : Engine} (ok : ChainOk σ)
    (small : σ.log.nextLsn < 2 ^ 32) (cached : Cached dbOid oid σ)
    (hnew : BufferPool.newPage dbOid oid pageId σ = .ok frame σ₁)
    (hfree : σ.pool.hashmap ⟨oid, pageId⟩ = none)
    (run : insertIntoNewPage oid prevPageId pageId frame record xid cid σ₂ = .ok rid σ')
    (hpool : σ₂.pool = σ₁.pool) (hdisk : σ₂.disk = σ₁.disk) (hlog : σ₂.log = σ₁.log)
    (htxn : σ₂.txn = σ₁.txn) :
    let placed := TablePage.zero.init.insertRecord record xid cid
    rid = ⟨pageId, placed.1⟩ ∧ Cached dbOid oid σ' ∧ (∃ lsn,
      Stores dbOid oid pageId (placed.2.2.setPageLsn lsn) σ σ') ∧
      Logs xid [.newPage oid prevPageId pageId, insertBody oid pageId placed] σ σ' ∧
      σ'.catalog = σ₂.catalog := by
  have quiet : Quiet σ σ₁ := Quiet.poolRel.newPage _ _ _ _ _ _ hnew
  have quiet₂ : Quiet σ { σ₂ with catalog := σ.catalog } := by
    refine quiet.trans _ _ _ (.of_eq ?_ ?_ ?_ ?_ ?_ ?_ ?_ ?_)
    · exact congrArg Disk.log hdisk
    · exact congrArg Disk.nextLsnFile hdisk
    · exact congrArg LogManager.logBuffer hlog
    · exact congrArg LogManager.nextLsn hlog
    · exact congrArg LogManager.flushedLsn hlog
    · exact congrArg LogManager.att hlog
    · exact quiet.catalog.symm
    · exact htxn
  have ok₂ : ChainOk σ₂ := (quiet₂.log ok).1.congr rfl rfl rfl rfl rfl rfl
  have small₂ : σ₂.log.nextLsn < 2 ^ 32 := quiet₂.nextLsn ▸ small
  obtain ⟨entry, lsn, hentry, hrid, logs, hpool', hdisk', hcatalog⟩ :=
    insertIntoNewPage_logs ok₂ small₂ run
  obtain ⟨hstored, hands⟩ := cached.newPage hfree hnew
  rw [hpool] at hentry hpool'
  cases hstored.symm.trans hentry
  have hands' := hands ((TablePage.zero.init.insertRecord record xid cid).2.2.setPageLsn lsn)
  have hfiles : σ'.disk.files = σ₁.disk.files := by rw [hdisk', hdisk]
  let σ₃ : Engine := { σ₁ with pool := σ'.pool }
  have hfiles₃ : σ'.disk.files = σ₃.disk.files := hfiles
  have hview (key : TablePageid) : σ'.view dbOid key = σ₃.view dbOid key :=
    Engine.view_congr (σ := σ₃) (by rfl) (by rfl) hfiles₃ dbOid key
  simp only [σ₃, hpool'] at hview
  have logs₂ : Logs xid _ { σ₂ with catalog := σ.catalog } σ' :=
    ⟨logs.chain, logs.appended, logs.active, logs.att, logs.txn, logs.onPage⟩
  refine ⟨hrid, hands'.cached.congr hpool' hfiles, ⟨lsn, ?_, ?_⟩, logs₂.after_quiet ok quiet₂, hcatalog⟩
  · rw [hview]
    exact Engine.view_of_frame hands'.holds.mapped hands'.holds.stored
  · intro q page hq hq'
    rw [hview]
    exact hands'.others q page (fun h => hq (congrArg TablePageid.pageId h)) hq'

/-- Linking a new page with the record after the last one. -/
theorem Inserted.of_last {pages before : List Nat} {page : TablePage} {σ₁ σ₂ : Engine}
    (ok : ChainOk σ) (small : σ.log.nextLsn < 2 ^ 32) (quiet : Quiet σ σ₁)
    (cached : Cached dbOid oid σ₁) (hpages : pages = before ++ [pageId])
    (full : Full dbOid oid record.getSize pages σ) (hview : σ.view dbOid ⟨oid, pageId⟩ = some page)
    (stores : Stores dbOid oid pageId (page.setNextPageId (pageId + 1)) σ σ₁)
    (hfree : σ₁.pool.hashmap ⟨oid, pageId + 1⟩ = none)
    (hnew : BufferPool.newPage dbOid oid (pageId + 1) σ₁ = .ok frame σ₂)
    (run : insertIntoNewPage oid pageId (pageId + 1) frame record xid cid σ₂ = .ok rid σ') :
    Cached dbOid oid σ' ∧ Inserted dbOid oid record xid cid pages σ σ' rid := by
  have hcatalog : σ₂.catalog = σ₁.catalog := (Quiet.poolRel.newPage _ _ _ _ _ _ hnew).catalog
  obtain ⟨rfl, cached', ⟨lsn, stores'⟩, logs, hcatalog'⟩ :=
    created (quiet.log ok).1 (quiet.nextLsn ▸ small) cached hnew hfree run rfl rfl rfl rfl
  refine ⟨cached', .last hpages full hview ?_ stores'.1 (fun q page' hq hq' h => ?_)
    (logs.after_quiet ok quiet) ?_⟩
  · exact stores'.2 _ _ (Nat.ne_of_lt (Nat.lt_succ_self _)) stores.1
  · exact stores'.2 q page' hq' (stores.2 q page' hq h)
  · rw [hcatalog', hcatalog, quiet.catalog]

/-- The page that an insertion without room creates. -/
def newPageId (pages : List Nat) : Nat :=
  match pages.getLast? with
  | none => 0
  | some p => p + 1

theorem newPageId_concat (before : List Nat) (p : Nat) : newPageId (before ++ [p]) = p + 1 := by
  rw [newPageId, List.getLast?_concat]

theorem lt_newPageId {pages : List Nat} (sorted : pages.Pairwise (· < ·)) {q : Nat} (hq : q ∈ pages) :
    q < newPageId pages := by
  rcases List.eq_nil_or_concat pages with rfl | ⟨before, p, rfl⟩
  · cases hq
  · rw [List.concat_eq_append] at sorted hq ⊢
    rw [newPageId_concat]
    rcases List.mem_append.mp hq with hmem | hmem
    · have hlt := (List.pairwise_append.mp sorted).2.2 _ hmem p List.mem_cons_self
      omega
    · have heq := List.mem_singleton.mp hmem
      omega

theorem newPageId_not_mem {pages : List Nat} (sorted : pages.Pairwise (· < ·)) :
    newPageId pages ∉ pages := fun hmem => Nat.lt_irrefl _ (lt_newPageId sorted hmem)

/-- `Table::InsertRecord`, where a page that it creates is in no frame. -/
theorem insertRecord_inserted {table : Table} {pages : List Nat} (ok : ChainOk σ)
    (small : σ.log.nextLsn < 2 ^ 32) (cached : Cached dbOid oid σ)
    (htable : σ.catalog.oid2table.find? oid = some table) (hdb : table.dbOid = dbOid)
    (linked : Segment (σ.nextPage dbOid oid) nullPageId table.firstPageId pages nullPageId)
    (sorted : pages.Pairwise (· < ·))
    (hfree : Full dbOid oid record.getSize pages σ → σ.pool.hashmap ⟨oid, newPageId pages⟩ = none)
    (run : insertRecord oid record xid cid σ = .ok rid σ') :
    Cached dbOid oid σ' ∧ record.getSize ≤ maxRecordSize ∧
      Inserted dbOid oid record xid cid pages σ σ' rid := by
  subst hdb
  obtain ⟨_, htable', hsize, h⟩ := insertRecord_eq_ok run
  cases htable.symm.trans htable'
  rcases h with ⟨hfirst, frame, σ₁, hnew, hinsert⟩ | ⟨hfirst, first, σ₁, entry, hget, hentry, h⟩
  · -- the first page of the table
    have hnil : pages = [] := by
      cases pages with
      | nil => rfl
      | cons p pages => exact absurd hfirst linked.1
    subst hnil
    have hcatalog : σ₁.catalog = σ.catalog := (Quiet.poolRel.newPage _ _ _ _ _ _ hnew).catalog
    obtain ⟨rfl, cached', ⟨lsn, stores⟩, logs, hcatalog'⟩ :=
      created ok small cached hnew (hfree fun _ h => absurd h List.not_mem_nil) hinsert rfl rfl rfl rfl
    refine ⟨cached', hsize, .first rfl stores.1 stores.2 logs htable ?_⟩
    rw [hcatalog', hcatalog]
  cases pages with
  | nil => exact absurd linked hfirst
  | cons p pages =>
      obtain ⟨-, rfl, next, hnext, rest⟩ := linked
      have quiet₁ : Quiet σ σ₁ := Quiet.poolRel.getPage _ _ _ _ _ _ hget
      obtain ⟨entry', hkey, hview, hands, shows₁⟩ := cached.getPage hget
      cases hentry.symm.trans hands.holds.stored
      rw [Engine.nextPage_of_view hview] at hnext
      cases hnext
      rcases h with ⟨hroom, hinsert⟩ | ⟨hfull, found, σ₂, hfind, h⟩
      · obtain ⟨cached', inserted⟩ := Inserted.of_room ok small quiet₁ hands.cached shows₁ hands.holds
          hkey hview List.mem_cons_self hroom hinsert
        exact ⟨cached', hsize, inserted⟩
      -- the first page is full: a later one has room, or the last one gets a successor
      have quiet₂ : Quiet σ σ₂ := quiet₁.trans _ _ _ (Quiet.poolRel.findRoom _ _ _ _ _ _ _ _ _ hfind)
      obtain ⟨cached₂, hfound, hunmapped⟩ := findRoom_found hands.cached (shows₁.segment rest) hfind
      have hmem := newPageId_not_mem sorted
      have hfree₁ (full : Full table.dbOid oid record.getSize (table.firstPageId :: pages) σ) :
          σ₁.pool.hashmap ⟨oid, newPageId (table.firstPageId :: pages)⟩ = none := by
        refine hands.unmapped _ (fun h => hmem ?_) (hfree full)
        have hpage : newPageId (table.firstPageId :: pages) = table.firstPageId :=
          congrArg TablePageid.pageId (h.trans hkey)
        rw [hpage]
        exact List.mem_cons_self
      have hback {q : Nat} {page : TablePage} (hq : q ∈ pages)
          (h : σ₁.view table.dbOid ⟨oid, q⟩ = some page) : σ.view table.dbOid ⟨oid, q⟩ = some page := by
        obtain ⟨next, hnext⟩ := rest.exists_next hq
        exact shows₁.view_eq hnext h
      rcases h with ⟨frame, hsome, hinsert⟩ | ⟨hnone, frame, σ₃, σ₄, hlink, hnew, hinsert⟩
      · cases hfound with
        | room mem view free key holds shows' =>
            cases hsome
            obtain ⟨cached', inserted⟩ := Inserted.of_room ok small quiet₂ cached₂
              (shows₁.trans shows') holds key (hback mem view) (List.mem_cons_of_mem _ mem) free hinsert
            exact ⟨cached', hsize, inserted⟩
        | none => cases hsome
        | last => cases hsome
      · cases hfound with
        | room => cases hnone
        | none nil same =>
            -- the first page is the only one
            subst nil
            subst same
            have full : Full table.dbOid oid record.getSize [table.firstPageId] σ :=
              .cons hview hfull fun _ h => absurd h List.not_mem_nil
            rcases hlink with ⟨-, hlink⟩ | ⟨hne, -⟩
            · obtain ⟨_, hentry', rfl⟩ := BufferPool.modifyPage_eq_ok hlink
              cases hentry.symm.trans hentry'
              have stores := Stores.withPage hands.cached hands.holds hkey
                (entry.page.setNextPageId (table.firstPageId + 1))
              have quiet₃ := quiet₁.trans _ _ _ (Quiet.poolRel.pool σ₂
                (σ₂.pool.withPage first (entry.page.setNextPageId (table.firstPageId + 1))))
              obtain ⟨cached', inserted⟩ := Inserted.of_last ok small quiet₃
                (hands.cached.withPage first _) (List.nil_append [table.firstPageId]).symm full hview
                (stores.of_shows shows₁) (hfree₁ full) hnew hinsert
              exact ⟨cached', hsize, inserted⟩
            · exact absurd rfl hne
        | @last before q page eq full view stores =>
            have full₁ := (full.of_shows shows₁).cons hview hfull
            have hfree₂ := hunmapped _ (fun h => hmem (List.mem_cons_of_mem _ h)) (hfree₁ full₁)
            have hq : q ∈ pages := by rw [eq]; simp
            rcases hlink with ⟨heq, -⟩ | ⟨-, rfl⟩
            · exact absurd heq.symm (Nat.ne_of_lt ((List.pairwise_cons.mp sorted).1 q hq))
            have hpages : table.firstPageId :: pages = (table.firstPageId :: before) ++ [q] := by
              rw [eq]
              rfl
            rw [hpages, newPageId_concat] at hfree₂
            obtain ⟨cached', inserted⟩ := Inserted.of_last ok small quiet₂ cached₂ hpages full₁
              (hback hq view) (stores.of_shows shows₁) hfree₂ hnew hinsert
            exact ⟨cached', hsize, inserted⟩

/-- `Table::DeleteRecord` marks one record of one page. -/
theorem deleteRecord_deleted {table : Table} (ok : ChainOk σ) (small : σ.log.nextLsn < 2 ^ 32)
    (cached : Cached dbOid oid σ) (htable : σ.catalog.oid2table.find? oid = some table)
    (hdb : table.dbOid = dbOid) (run : deleteRecord oid rid xid σ = .ok () σ') :
    Cached dbOid oid σ' ∧ σ'.catalog = σ.catalog ∧
      Logs xid [.delete oid rid.pageId rid.slotId] σ σ' ∧ ∃ page page' lsn,
        σ.view dbOid ⟨oid, rid.pageId⟩ = some page ∧ page.deleteRecord rid.slotId xid = some page' ∧
        Stores dbOid oid rid.pageId (page'.setPageLsn lsn) σ σ' := by
  subst hdb
  obtain ⟨_, frame, σ₁, entry, page, prevLsn, htable', hget, hentry, hpage, hprev, hσ'⟩ :=
    deleteRecord_eq_ok run
  cases htable.symm.trans htable'
  have quiet : Quiet σ σ₁ := Quiet.poolRel.getPage _ _ _ _ _ _ hget
  obtain ⟨entry', hkey, hview, hands, shows₁⟩ := cached.getPage hget
  cases hentry.symm.trans hands.holds.stored
  have small₁ : σ₁.log.nextLsn < 2 ^ 33 := by
    rw [quiet.nextLsn]
    omega
  have hpool : σ'.pool = σ₁.pool.withPage frame (page.setPageLsn σ₁.log.nextLsn) := by rw [hσ']
  have hlog : σ'.log = deleteLogged σ₁.log oid rid.pageId rid.slotId xid prevLsn := by rw [hσ']
  obtain ⟨cached', stores⟩ := Stores.withPage_eq hands.cached hands.holds hkey hpool (by rw [hσ'])
  have logs : Logs xid [.delete oid rid.pageId rid.slotId] σ₁ σ' :=
    .one (quiet.log ok).1 hprev small₁ trivial hlog (by rw [hσ']) (by rw [hσ'])
  refine ⟨cached', ?_, logs.after_quiet ok quiet, entry.page, page, _, hview, hpage,
    stores.of_shows shows₁⟩
  rw [hσ']
  exact quiet.catalog

/-! ## Other tables -/

variable {oid' : Nat}

theorem findRoom_beside (hoid : oid' ≠ oid) {dbOid' size fuel lastPageId nextPageId : Nat}
    {found : Option Nat × Nat} (ok : Cached dbOid oid σ)
    (run : findRoom dbOid' oid' size fuel lastPageId nextPageId σ = .ok found σ') :
    Beside dbOid oid σ σ' ∧ ∀ frame, found.1 = some frame → Foreign oid σ' frame := by
  induction fuel generalizing lastPageId nextPageId σ with
  | zero => cases run
  | succ fuel ih =>
      rcases findRoom_succ_eq_ok run with ⟨-, rfl, rfl⟩ | ⟨-, frame, σ₁, entry, hget, -, h⟩
      · exact ⟨.refl ok, nofun⟩
      obtain ⟨beside₁, hframe⟩ := Beside.getPage ok hoid hget
      rcases h with ⟨-, rfl, rfl⟩ | ⟨-, hrest⟩
      · refine ⟨beside₁, fun frame' h => ?_⟩
        cases h
        exact hframe
      have beside₂ : Beside dbOid oid σ₁ (linked σ₁ frame entry.page nextPageId) := by
        unfold linked
        split
        · exact .withPage beside₁.cached hframe _
        · exact .refl beside₁.cached
      obtain ⟨beside₃, hfound⟩ := ih beside₂.cached hrest
      exact ⟨(beside₁.trans beside₂).trans beside₃, hfound⟩

theorem insertIntoNewPage_beside {prevPageId : Nat} (hoid : oid' ≠ oid) (chain : ChainOk σ)
    (small : σ.log.nextLsn < 2 ^ 32) (ok : Cached dbOid oid σ) (hframe : Foreign oid σ frame)
    (run : insertIntoNewPage oid' prevPageId pageId frame record xid cid σ = .ok rid σ') :
    Beside dbOid oid σ σ' ∧ σ'.catalog = σ.catalog ∧
      ∃ bodies, Logs xid bodies σ σ' ∧ ∀ body ∈ bodies, body.Off oid := by
  obtain ⟨entry, lsn, -, -, logs, hpool, hdisk, hcatalog⟩ := insertIntoNewPage_logs chain small run
  have hfiles : σ'.disk.files = σ.disk.files := by rw [hdisk]
  refine ⟨(Beside.withPage ok hframe _).congr hpool hfiles, hcatalog, _, logs, ?_⟩
  intro body hbody
  rcases List.mem_cons.mp hbody with rfl | hbody
  · exact hoid
  · exact List.mem_singleton.mp hbody ▸ hoid

theorem insertInto_beside (hoid : oid' ≠ oid) (chain : ChainOk σ) (small : σ.log.nextLsn < 2 ^ 32)
    (ok : Cached dbOid oid σ) (hframe : Foreign oid σ frame)
    (run : insertInto oid' pageId frame record xid cid σ = .ok rid σ') :
    Beside dbOid oid σ σ' ∧ σ'.catalog = σ.catalog ∧
      ∃ bodies, Logs xid bodies σ σ' ∧ ∀ body ∈ bodies, body.Off oid := by
  obtain ⟨entry, -, -, logs, hpool, hdisk, hcatalog⟩ := insertInto_logs chain small run
  have hfiles : σ'.disk.files = σ.disk.files := by rw [hdisk]
  refine ⟨(Beside.withPage ok hframe _).congr hpool hfiles, hcatalog, _, logs, ?_⟩
  intro body hbody
  exact List.mem_singleton.mp hbody ▸ hoid

/-- An insertion into another table. -/
theorem insertRecord_beside (hoid : oid' ≠ oid) (chain : ChainOk σ) (small : σ.log.nextLsn < 2 ^ 32)
    (ok : Cached dbOid oid σ) (run : insertRecord oid' record xid cid σ = .ok rid σ') :
    Beside dbOid oid σ σ' ∧
      (σ'.catalog.oid2table.find? oid = σ.catalog.oid2table.find? oid ∧
        σ'.catalog.currentDatabaseOid = σ.catalog.currentDatabaseOid) ∧
      ∃ bodies, Logs xid bodies σ σ' ∧ ∀ body ∈ bodies, body.Off oid := by
  obtain ⟨table, -, -, h⟩ := insertRecord_eq_ok run
  rcases h with ⟨-, frame, σ₁, hnew, hinsert⟩ | ⟨-, first, σ₁, entry, hget, -, h⟩
  · have quiet : Quiet σ σ₁ := Quiet.poolRel.newPage _ _ _ _ _ _ hnew
    have hentry : (⟨table.dbOid, oid', 0, .zero, false⟩ : BufferPoolEntry).tableOid ≠ oid := hoid
    obtain ⟨beside₁, hframe⟩ := Beside.addToBuffer ok hentry hnew
    let σ₂ : Engine := { σ₁ with catalog := { σ₁.catalog with
      oid2table := σ₁.catalog.oid2table.insert oid' { table with firstPageId := 0 } } }
    have chain₂ : ChainOk σ₂ := (quiet.log chain).1.congr rfl rfl rfl rfl rfl rfl
    have small₂ : σ₂.log.nextLsn < 2 ^ 32 := quiet.nextLsn ▸ small
    have beside₂ : Beside dbOid oid σ σ₂ := beside₁.congr rfl rfl
    obtain ⟨beside₃, hcatalog, bodies, logs, hoff⟩ :=
      insertIntoNewPage_beside hoid chain₂ small₂ beside₂.cached hframe hinsert
    have logs₁ : Logs xid bodies σ₁ σ' :=
      ⟨logs.chain, logs.appended, logs.active, logs.att, logs.txn, logs.onPage⟩
    refine ⟨beside₂.trans beside₃, ⟨?_, ?_⟩, bodies, logs₁.after_quiet chain quiet, hoff⟩
    · rw [hcatalog, ← quiet.catalog]
      exact Assoc.find?_insert_ne hoid _ _
    · rw [hcatalog, ← quiet.catalog]
  have quiet₁ : Quiet σ σ₁ := Quiet.poolRel.getPage _ _ _ _ _ _ hget
  obtain ⟨beside₁, hfirst⟩ := Beside.getPage ok hoid hget
  rcases h with ⟨-, hinsert⟩ | ⟨-, found, σ₂, hfind, h⟩
  · obtain ⟨beside₂, hcatalog, bodies, logs, hoff⟩ := insertInto_beside hoid (quiet₁.log chain).1
      (quiet₁.nextLsn ▸ small) beside₁.cached hfirst hinsert
    rw [quiet₁.catalog] at hcatalog
    exact ⟨beside₁.trans beside₂, ⟨by rw [hcatalog], by rw [hcatalog]⟩, bodies,
      logs.after_quiet chain quiet₁, hoff⟩
  have quiet₂ : Quiet σ σ₂ := quiet₁.trans _ _ _ (Quiet.poolRel.findRoom _ _ _ _ _ _ _ _ _ hfind)
  obtain ⟨beside₂, hfound⟩ := findRoom_beside hoid beside₁.cached hfind
  have beside₂ : Beside dbOid oid σ σ₂ := beside₁.trans beside₂
  rcases h with ⟨frame, hsome, hinsert⟩ | ⟨-, frame, σ₃, σ₄, hlink, hnew, hinsert⟩
  · obtain ⟨beside₃, hcatalog, bodies, logs, hoff⟩ := insertInto_beside hoid (quiet₂.log chain).1
      (quiet₂.nextLsn ▸ small) beside₂.cached (hfound frame hsome) hinsert
    rw [quiet₂.catalog] at hcatalog
    exact ⟨beside₂.trans beside₃, ⟨by rw [hcatalog], by rw [hcatalog]⟩, bodies,
      logs.after_quiet chain quiet₂, hoff⟩
  · have hlinked : Quiet σ σ₃ ∧ Beside dbOid oid σ σ₃ := by
      rcases hlink with ⟨-, hlink⟩ | ⟨-, rfl⟩
      · obtain ⟨entry', -, rfl⟩ := BufferPool.modifyPage_eq_ok hlink
        have hfirst₂ : Foreign oid σ₂ first := by
          obtain ⟨beside, -⟩ := findRoom_beside hoid beside₁.cached hfind
          exact beside.foreign first hfirst
        exact ⟨quiet₂.trans _ _ _ (Quiet.poolRel.pool σ₂ _),
          beside₂.trans (.withPage beside₂.cached hfirst₂ _)⟩
      · exact ⟨quiet₂, beside₂⟩
    obtain ⟨quiet₃, beside₃⟩ := hlinked
    have quiet₄ : Quiet σ σ₄ := quiet₃.trans _ _ _ (Quiet.poolRel.newPage _ _ _ _ _ _ hnew)
    have hentry : (⟨table.dbOid, oid', found.2 + 1, .zero, false⟩ : BufferPoolEntry).tableOid ≠ oid :=
      hoid
    obtain ⟨beside₄, hframe⟩ := Beside.addToBuffer beside₃.cached hentry hnew
    have beside₄ : Beside dbOid oid σ σ₄ := beside₃.trans beside₄
    obtain ⟨beside₅, hcatalog, bodies, logs, hoff⟩ := insertIntoNewPage_beside hoid
      (quiet₄.log chain).1 (quiet₄.nextLsn ▸ small) beside₄.cached hframe hinsert
    rw [quiet₄.catalog] at hcatalog
    exact ⟨beside₄.trans beside₅, ⟨by rw [hcatalog], by rw [hcatalog]⟩, bodies,
      logs.after_quiet chain quiet₄, hoff⟩

/-- A deletion from another table. -/
theorem deleteRecord_beside (hoid : oid' ≠ oid) (chain : ChainOk σ) (small : σ.log.nextLsn < 2 ^ 32)
    (ok : Cached dbOid oid σ) (run : deleteRecord oid' rid xid σ = .ok () σ') :
    Beside dbOid oid σ σ' ∧ σ'.catalog = σ.catalog ∧ ∃ bodies, Logs xid bodies σ σ' ∧
      ∀ body ∈ bodies, body.Off oid := by
  obtain ⟨table, frame, σ₁, entry, page, prevLsn, -, hget, hentry, hpage, hprev, hσ'⟩ :=
    deleteRecord_eq_ok run
  have quiet : Quiet σ σ₁ := Quiet.poolRel.getPage _ _ _ _ _ _ hget
  obtain ⟨beside₁, hframe⟩ := Beside.getPage ok hoid hget
  have small₁ : σ₁.log.nextLsn < 2 ^ 33 := by
    rw [quiet.nextLsn]
    omega
  have hlog : σ'.log = deleteLogged σ₁.log oid' rid.pageId rid.slotId xid prevLsn := by rw [hσ']
  have logs : Logs xid [.delete oid' rid.pageId rid.slotId] σ₁ σ' :=
    .one (quiet.log chain).1 hprev small₁ trivial hlog (by rw [hσ']) (by rw [hσ'])
  have beside₂ := Beside.withPage beside₁.cached hframe (page.setPageLsn σ₁.log.nextLsn)
  refine ⟨beside₁.trans (beside₂.congr (by rw [hσ']) (by rw [hσ'])), ?_, _,
    logs.after_quiet chain quiet, fun body hbody => List.mem_singleton.mp hbody ▸ hoid⟩
  rw [hσ']
  exact quiet.catalog

end

end Table

end HuaDB
