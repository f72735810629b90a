import HuaDB.TableHistory

/-!
What rolling a transaction back does to the rows of a table.

`Undoes` is the effect of `LogManager::Rollback`: pages that the transaction created
leave the list, and the headers of the rows it inserted or deleted are rewritten. It
keeps the invariants of a table unless a page that leaves holds a row of another
transaction (`TableOk.rolledBack`, `RowsOk.rolledBack`).
-/

namespace HuaDB

/-! ## Rolling back -/

/-- Only which pages were created matters. -/
theorem keptPages_congr {pages created created' : List Nat}
    (h : ∀ p, p ∈ created ↔ p ∈ created') : keptPages pages created = keptPages pages created' :=
  List.filter_congr fun p _ => decide_eq_decide.mpr (by rw [h p])

theorem mem_keptPages_iff {pages created : List Nat} {p : Nat} :
    p ∈ keptPages pages created ↔ p ∈ pages ∧ ¬ (p ∈ created ∧ 0 < p ∧ p - 1 ∈ pages) := by
  rw [keptPages, List.mem_filter, decide_eq_true_eq]

theorem keptPages_subset (pages created : List Nat) : keptPages pages created ⊆ pages :=
  fun _ hp => (mem_keptPages_iff.mp hp).1

theorem mem_keptPages_of_not_mem {pages created : List Nat} {p : Nat} (hp : p ∈ pages)
    (hcreated : p ∉ created) : p ∈ keptPages pages created :=
  mem_keptPages_iff.mpr ⟨hp, fun h => hcreated h.1⟩

theorem createdPages_reverse (oid : Nat) (records : List LogRecord) :
    createdPages oid records.reverse = (createdPages oid records).reverse :=
  List.filterMap_reverse

section undo

variable {oid : Nat} {rid : Rid} {r : LogRecord}

theorem undoHeader_of_inserts (h : r.body.Inserts oid rid) (header : RecordHeader) :
    undoHeader oid rid.pageId rid.slotId header r = header.deletedBy r.xid := by
  obtain ⟨_, _, _, hbody⟩ := h
  unfold undoHeader
  rw [hbody]
  exact if_pos ⟨rfl, rfl, rfl⟩

theorem undoHeader_of_deletes (h : r.body.Deletes oid rid) (header : RecordHeader) :
    undoHeader oid rid.pageId rid.slotId header r =
      { header with deleted := false, xmax := nullXid } := by
  unfold undoHeader
  rw [h]
  exact if_pos ⟨rfl, rfl, rfl⟩

theorem undoHeader_of_not_names (h : ¬ r.body.Names oid rid) (header : RecordHeader) :
    undoHeader oid rid.pageId rid.slotId header r = header := by
  unfold undoHeader
  split
  · rename_i hbody
    refine if_neg fun heq => h (.inl ?_)
    obtain ⟨rfl, rfl, rfl⟩ := heq
    exact ⟨_, _, _, hbody⟩
  · rename_i hbody
    refine if_neg fun heq => h (.inr ?_)
    obtain ⟨rfl, rfl, rfl⟩ := heq
    exact hbody
  · rfl

/-- Records that name other rows. -/
theorem foldl_undoHeader_of_not_names {records : List LogRecord}
    (h : ∀ r ∈ records, ¬ r.body.Names oid rid) (header : RecordHeader) :
    records.foldl (undoHeader oid rid.pageId rid.slotId) header = header := by
  induction records generalizing header with
  | nil => rfl
  | cons r records ih =>
      rw [List.foldl_cons, undoHeader_of_not_names (h r List.mem_cons_self)]
      exact ih (fun r' hr' => h r' (List.mem_cons_of_mem _ hr')) header

theorem foldl_undoHeader_xmin (p s : Nat) (records : List LogRecord) (header : RecordHeader) :
    (records.foldl (undoHeader oid p s) header).xmin = header.xmin := by
  induction records generalizing header with
  | nil => rfl
  | cons r records ih =>
      rw [List.foldl_cons, ih]
      unfold undoHeader
      split <;> (try split) <;> rfl

theorem foldl_undoHeader_cid (p s : Nat) (records : List LogRecord) (header : RecordHeader) :
    (records.foldl (undoHeader oid p s) header).cid = header.cid := by
  induction records generalizing header with
  | nil => rfl
  | cons r records ih =>
      rw [List.foldl_cons, ih]
      unfold undoHeader
      split <;> (try split) <;> rfl

/-- What a transaction only deleted is not deleted any more once its records are undone. -/
theorem foldl_undoHeader_xmax_of_deletes {records : List LogRecord}
    (hins : ∀ r ∈ records, ¬ r.body.Inserts oid rid) (hdel : ∃ r ∈ records, r.body.Deletes oid rid)
    (header : RecordHeader) :
    (records.foldl (undoHeader oid rid.pageId rid.slotId) header).xmax = nullXid := by
  induction records using List.reverseRecOn with
  | nil =>
      obtain ⟨r, hr, -⟩ := hdel
      cases hr
  | append_singleton records r ih =>
      rw [List.foldl_append, List.foldl_cons, List.foldl_nil]
      by_cases hr : r.body.Deletes oid rid
      · rw [undoHeader_of_deletes hr]
      · have hnames : ¬ r.body.Names oid rid := by
          rintro (h | h)
          · exact hins r (List.mem_append_right _ (List.mem_singleton_self r)) h
          · exact hr h
        rw [undoHeader_of_not_names hnames]
        refine ih (fun r' hr' => hins r' (List.mem_append_left _ hr')) ?_
        obtain ⟨r', hr', hdel'⟩ := hdel
        rcases List.mem_append.mp hr' with hr' | hr'
        · exact ⟨r', hr', hdel'⟩
        · rw [List.mem_singleton.mp hr'] at hdel'
          exact absurd hdel' hr

/-- The undo of a transaction leaves the id that was there, none, or its own. -/
theorem foldl_undoHeader_xmax {xid : Nat} {records : List LogRecord} (hxid : ∀ r ∈ records, r.xid = xid)
    (p s : Nat) (header : RecordHeader) :
    (records.foldl (undoHeader oid p s) header).xmax = header.xmax ∨
      (records.foldl (undoHeader oid p s) header).xmax = nullXid ∨
      (records.foldl (undoHeader oid p s) header).xmax = xid := by
  induction records generalizing header with
  | nil => exact .inl rfl
  | cons r records ih =>
      rw [List.foldl_cons]
      have hr := hxid r List.mem_cons_self
      rcases ih (fun r' hr' => hxid r' (List.mem_cons_of_mem _ hr')) (undoHeader oid p s header r) with
        h | h | h
      · rw [h]
        unfold undoHeader
        split <;> (try split) <;> simp [hr]
      · exact .inr (.inl h)
      · exact .inr (.inr h)

/-- What a transaction inserted first is deleted by it once its records are undone. -/
theorem FirstInserts.undo_xmax {xid : Nat} {records : List LogRecord}
    (h : FirstInserts oid rid records) (hxid : ∀ r ∈ records, r.xid = xid) (header : RecordHeader) :
    (records.reverse.foldl (undoHeader oid rid.pageId rid.slotId) header).xmax = xid := by
  obtain ⟨before, r, after, rfl, hins, hbefore⟩ := h
  rw [List.reverse_append, List.reverse_cons, List.append_assoc, List.foldl_append, List.foldl_append,
    List.foldl_cons, List.foldl_nil, undoHeader_of_inserts hins,
    hxid r (List.mem_append_right _ List.mem_cons_self)]
  -- the records before it delete nothing
  generalize after.reverse.foldl (undoHeader oid rid.pageId rid.slotId) header = header'
  have hkeeps : ∀ (l : List LogRecord) (header : RecordHeader), l ⊆ before → header.xmax = xid →
      (l.foldl (undoHeader oid rid.pageId rid.slotId) header).xmax = xid := by
    intro l
    induction l with
    | nil => exact fun header _ h => h
    | cons r' l ih =>
        intro header hsub h
        rw [List.foldl_cons]
        refine ih _ (List.subset_of_cons_subset hsub) ?_
        have hr' := hsub List.mem_cons_self
        by_cases hnames : r'.body.Names oid rid
        · have hins' := hnames.resolve_right (hbefore r' hr')
          rw [undoHeader_of_inserts hins']
          exact hxid r' (List.mem_append_left _ hr')
        · rw [undoHeader_of_not_names hnames]
          exact h
  exact hkeeps _ _ (fun r' hr' => List.mem_reverse.mp hr') rfl

end undo

/-- The transactions stay as they are while log and pool work. -/
theorem sameTxn : StorageRel fun σ σ' => σ'.txn = σ.txn where
  toPoolRel := .of_effects (fun _ => rfl) (fun _ _ _ h h' => h'.trans h) (fun _ _ => rfl)
    (fun _ _ => Engine.flushLog_txn _ _) (fun _ _ => rfl) fun _ _ _ _ _ => rfl
  tables _ _ _ := rfl
  push _ _ _ _ := rfl
  flushLog _ _ := Engine.flushLog_txn _ _

/-- The records of an active transaction can be undone on a table: the pages it created
are linked, and it created them one after another. -/
structure Undoable (dbOid oid xid : Nat) (pages : List Nat) (σ : Engine) : Prop where
  log : ChainOk σ
  small : σ.log.nextLsn < 2 ^ 32
  active : (σ.log.att.find? xid).isSome
  cached : Cached dbOid oid σ
  database : σ.catalog.getDatabaseOid oid = .ok dbOid
  chain : σ.Pages dbOid oid pages
  sorted : (createdPages oid (transactionLog σ.appended xid)).Pairwise (· < ·)
  created : ∀ p ∈ createdPages oid (transactionLog σ.appended xid), p ∈ pages
  after : ∀ r ∈ transactionLog σ.appended xid, r.CreatesAfter oid

/-- The linked pages that stay when a transaction is rolled back. -/
abbrev Engine.pagesLeft (oid xid : Nat) (pages : List Nat) (σ : Engine) : List Nat :=
  keptPages pages (createdPages oid (transactionLog σ.appended xid))

/-- What `LogManager::Rollback` does to a table: the pages that the transaction created
behind a linked page are taken out, and the headers of its rows are rewritten. -/
structure Undoes (dbOid oid xid : Nat) (pages : List Nat) (σ σ' : Engine) : Prop where
  quiet : Quiet σ σ'
  cached : Cached dbOid oid σ'
  chain : σ'.Pages dbOid oid (σ.pagesLeft oid xid pages)
  rows : ∀ rid, rid.pageId ∈ σ.pagesLeft oid xid pages →
    σ'.rows dbOid oid (σ.pagesLeft oid xid pages) rid =
      (σ.rows dbOid oid pages rid).map
        (undoStored oid rid.pageId rid.slotId (transactionLog σ.appended xid).reverse)

theorem Undoable.undoes {dbOid oid xid : Nat} {pages : List Nat} {σ σ' : Engine}
    (h : Undoable dbOid oid xid pages σ) (run : LogManager.rollback xid σ = .ok () σ') :
    Undoes dbOid oid xid pages σ σ' := by
  have undone := LogManager.rollback_undone h.log (Nat.le_of_lt h.small) h.active run
  have quiet := undone.quiet
  have hcreated := createdPages_reverse oid (transactionLog σ.appended xid)
  obtain ⟨table, htable, hdb, chain⟩ := h.chain
  obtain ⟨cached, chain', contents⟩ := undone.pages h.cached h.database chain
    (by rw [hcreated]; exact List.pairwise_reverse.mpr h.sorted)
    (fun p hp => h.created p (List.mem_reverse.mp (hcreated ▸ hp)))
    (fun r hr => h.after r (List.mem_reverse.mp hr))
  have hkept : keptPages pages (createdPages oid (transactionLog σ.appended xid).reverse) =
      σ.pagesLeft oid xid pages :=
    keptPages_congr fun p => by rw [hcreated, List.mem_reverse]
  rw [hkept] at chain'
  refine ⟨quiet, cached, ⟨table, by rw [quiet.catalog]; exact htable, hdb, chain'⟩, fun rid hrid => ?_⟩
  have hmem := keptPages_subset _ _ hrid
  obtain ⟨page, hview, -⟩ := chain.wellFormed _ hmem
  obtain ⟨page', hview', undoes⟩ := contents _ page hview
  rw [Engine.rows_of_view hrid hview', Engine.rows_of_view hmem hview, undoes.slots]

/-- Rolling one transaction back leaves another to be rolled back. -/
theorem Undoes.undoable {dbOid oid xid xid' : Nat} {pages : List Nat} {σ σ' : Engine}
    (undoes : Undoes dbOid oid xid pages σ σ') (h : Undoable dbOid oid xid' pages σ)
    (apart : ∀ p ∈ createdPages oid (transactionLog σ.appended xid'),
      p ∉ createdPages oid (transactionLog σ.appended xid)) :
    Undoable dbOid oid xid'
      (σ.pagesLeft oid xid pages) σ' := by
  obtain ⟨log, happ⟩ := undoes.quiet.log h.log
  refine { log, small := undoes.quiet.nextLsn ▸ h.small, active := ?_, cached := undoes.cached,
           database := ?_, chain := undoes.chain, sorted := happ ▸ h.sorted, created := ?_,
           after := happ ▸ h.after }
  · rw [undoes.quiet.att]
    exact h.active
  · rw [undoes.quiet.catalog]
    exact h.database
  · rw [happ]
    exact fun p hp => mem_keptPages_of_not_mem (h.created p hp) (apart p hp)

namespace TableOk

variable {dbOid oid xid : Nat} {pages : List Nat} {σ σ₁ σ' : Engine}

theorem undoable (ok : TableOk dbOid oid pages σ) (hactive : (σ.log.att.find? xid).isSome) :
    Undoable dbOid oid xid pages σ where
  log := ok.log
  small := ok.small
  active := hactive
  cached := ok.cached
  database := ok.getDatabaseOid
  chain := ok.chain
  sorted := ok.created xid hactive
  created _ hp := ok.mem_of_created hactive hp
  after r hr prev p hbody := ((ok.records xid hactive r hr).created prev p hbody).2

/-- A rolled back transaction was active, and its end is recorded once its records are
undone. -/
theorem exists_undoes (ok : TableOk dbOid oid pages σ)
    (run : DatabaseEngine.rollback xid σ = .ok () σ') :
    ∃ σ₁, (σ.log.att.find? xid).isSome ∧ LogManager.rollback xid σ = .ok () σ₁ ∧
      Undoes dbOid oid xid pages σ σ₁ ∧ Ends xid σ₁ σ' := by
  obtain ⟨σ₁, lsn, σ₂, txn, hundo, happend, hfinish, rfl⟩ := DatabaseEngine.rollback_eq_ok run
  have htxn : σ₁.txn = σ.txn := sameTxn.toUndoRel.rollback xid σ σ₁ () hundo
  -- the transaction manager knows the transaction, so its last record is known
  have hactive : (σ.log.att.find? xid).isSome := by
    obtain ⟨hknown, -, -⟩ := TransactionManager.finish_eq_ok hfinish
    obtain ⟨prevLsn, -, -, hσ₂⟩ := LogManager.appendEndLog_eq_ok_iff.mp happend
    have htxn₂ : σ₂.txn = σ₁.txn := by
      rw [hσ₂]
      exact Engine.flushLog_txn _ _
    rw [htxn₂, htxn] at hknown
    exact ok.active xid (Assoc.mem_keys_iff.mp hknown)
  have undoes := (ok.undoable hactive).undoes hundo
  obtain ⟨log₁, -⟩ := undoes.quiet.log ok.log
  have range : σ₂.log.nextLsn ≤ nullLsn := by
    obtain ⟨lastLsn, -, rfl⟩ := LogOp.eq_ended happend
    have hnext : (LogOp.ended σ₁ xid lastLsn .rollback).log.nextLsn =
        σ₁.log.nextLsn + LogRecord.headerSize := Engine.flushLog_nextLsn _ _
    have small := ok.small
    rw [hnext, undoes.quiet.nextLsn]
    simp only [LogRecord.headerSize, nullLsn]
    omega
  exact ⟨σ₁, hactive, hundo, undoes, Ends.of_run log₁ happend (.inr rfl) hfinish range⟩

end TableOk

/-- The rows of pages that a rollback takes out are those of the transaction. -/
def OwnPages (dbOid oid xid : Nat) (pages : List Nat) (σ : Engine) : Prop :=
  ∀ rid stored, rid.pageId ∉ σ.pagesLeft oid xid pages →
    σ.rows dbOid oid pages rid = some stored → stored.record.header.xmin = xid

section rollback

variable {dbOid oid xid : Nat} {pages : List Nat} {σ σ₁ σ' : Engine}

/-- A row that another active transaction inserted or deleted stays. -/
theorem RowsOk.mem_kept (rows : RowsOk dbOid oid pages σ) (own : OwnPages dbOid oid xid pages σ)
    (hactive : (σ.log.att.find? xid).isSome) {xid' : Nat} (hne : xid' ≠ xid)
    (hactive' : (σ.log.att.find? xid').isSome) {r : LogRecord}
    (hr : r ∈ transactionLog σ.appended xid') {rid : Rid} (hnames : r.body.Names oid rid)
    {stored : StoredRecord} (hrow : σ.rows dbOid oid pages rid = some stored) :
    rid.pageId ∈ σ.pagesLeft oid xid pages := by
  by_contra hnot
  have hxmin := own rid stored hnot hrow
  -- the row was inserted by the transaction that is rolled back, so it is locked
  have hfirst := rows.inserted rid stored hrow (hxmin ▸ hactive)
  rw [hxmin] at hfirst
  obtain ⟨before, r', after, hlog, hins, -⟩ := hfirst
  have hr' : r' ∈ transactionLog σ.appended xid := by rw [hlog]; simp
  exact rows.locked xid xid' (Ne.symm hne) hactive hactive' r' hr' r hr rid (.inl hins) hnames

/-- Who is said to have deleted a row once the records of a transaction are undone, by
what the row was before. -/
theorem RowsOk.undo_xmax (rows : RowsOk dbOid oid pages σ) (table : TableOk dbOid oid pages σ)
    (hactive : (σ.log.att.find? xid).isSome) {rid : Rid} {stored : StoredRecord}
    (hrow : σ.rows dbOid oid pages rid = some stored) (header : RecordHeader) :
    ((transactionLog σ.appended xid).reverse.foldl
        (undoHeader oid rid.pageId rid.slotId) header).xmax =
      if stored.record.header.xmin = xid then xid
      else if stored.record.header.xmax = xid then nullXid else header.xmax := by
  have hxid : ∀ r ∈ transactionLog σ.appended xid, r.xid = xid := fun r hr =>
    xid_of_mem_transactionLog hr
  by_cases hxmin : stored.record.header.xmin = xid
  · rw [if_pos hxmin]
    have hfirst := rows.inserted rid stored hrow (hxmin ▸ hactive)
    rw [hxmin] at hfirst
    exact hfirst.undo_xmax hxid header
  · rw [if_neg hxmin]
    have hins : ∀ r ∈ transactionLog σ.appended xid, ¬ r.body.Inserts oid rid := by
      intro r hr hins
      obtain ⟨stored', hrow', hxmin'⟩ := (table.records xid hactive r hr).inserted rid hins
      cases hrow.symm.trans hrow'
      exact hxmin (hxmin'.trans (hxid r hr))
    by_cases hxmax : stored.record.header.xmax = xid
    · rw [if_pos hxmax]
      obtain ⟨r, hr, hdel⟩ := rows.deleter rid stored hrow (hxmax ▸ hactive)
      rw [hxmax] at hr
      exact foldl_undoHeader_xmax_of_deletes (fun r hr => hins r (List.mem_reverse.mp hr))
        ⟨r, List.mem_reverse.mpr hr, hdel⟩ header
    · rw [if_neg hxmax, foldl_undoHeader_of_not_names]
      rintro r hr (h | h)
      · exact hins r (List.mem_reverse.mp hr) h
      · exact hxmax (rows.deleted xid hactive r (List.mem_reverse.mp hr) rid stored h hrow)

theorem Ends.rows_eq (ends : Ends xid σ₁ σ') (dbOid oid : Nat) (pages : List Nat) :
    σ'.rows dbOid oid pages = σ₁.rows dbOid oid pages := by
  funext rid
  unfold Engine.rows
  rw [ends.view_eq]

theorem Ends.pages_of (ends : Ends xid σ₁ σ') (h : σ₁.Pages dbOid oid pages) :
    σ'.Pages dbOid oid pages := by
  obtain ⟨table, htable, hdb, chain⟩ := h
  refine ⟨table, by rw [ends.catalog]; exact htable, hdb, chain.of_shows fun p page hview => ?_⟩
  exact (ends.view_eq _ _).trans hview

/-- What is recorded of the other transactions once one is rolled back. -/
theorem Undoes.transactionLog_eq (undoes : Undoes dbOid oid xid pages σ σ₁) (log : ChainOk σ)
    (ends : Ends xid σ₁ σ') {xid' : Nat} (hactive : (σ'.log.att.find? xid').isSome) :
    xid' ≠ xid ∧ (σ.log.att.find? xid').isSome ∧
      transactionLog σ'.appended xid' = transactionLog σ.appended xid' := by
  obtain ⟨hne, hactive₁, hlog⟩ := ends.transactionLog_eq hactive
  rw [undoes.quiet.att] at hactive₁
  exact ⟨hne, hactive₁, hlog.trans (by rw [(undoes.quiet.log log).2])⟩

/-- The rows of a state after a rollback are those before with other headers. -/
theorem Undoes.exists_row (undoes : Undoes dbOid oid xid pages σ σ₁) {rid : Rid}
    {stored' : StoredRecord}
    (hrow' : σ₁.rows dbOid oid
      (σ.pagesLeft oid xid pages) rid = some stored') :
    ∃ stored, σ.rows dbOid oid pages rid = some stored ∧
      stored' = undoStored oid rid.pageId rid.slotId (transactionLog σ.appended xid).reverse stored := by
  rw [undoes.rows rid (Engine.mem_of_rows hrow')] at hrow'
  obtain ⟨stored, hrow, heq⟩ := Option.map_eq_some_iff.mp hrow'
  exact ⟨stored, hrow, heq.symm⟩

theorem TableOk.rolledBack (ok : TableOk dbOid oid pages σ) (rows : RowsOk dbOid oid pages σ)
    (own : OwnPages dbOid oid xid pages σ) (hactive : (σ.log.att.find? xid).isSome)
    (undoes : Undoes dbOid oid xid pages σ σ₁) (ends : Ends xid σ₁ σ')
    (small : σ'.log.nextLsn < 2 ^ 32) :
    TableOk dbOid oid (σ.pagesLeft oid xid pages) σ' := by
  have keeps (rid : Rid) (stored : StoredRecord) (hrow : σ.rows dbOid oid pages rid = some stored)
      (hkept : rid.pageId ∈ σ.pagesLeft oid xid pages) :
      ∃ stored', σ'.rows dbOid oid (σ.pagesLeft oid xid pages)
        rid = some stored' ∧ stored'.record.header.xmin = stored.record.header.xmin := by
    refine ⟨undoStored oid rid.pageId rid.slotId (transactionLog σ.appended xid).reverse stored, ?_,
      foldl_undoHeader_xmin _ _ _ _⟩
    rw [ends.rows_eq, undoes.rows rid hkept, hrow]
    rfl
  refine { log := ends.log, small, active := ?_, cached := undoes.cached.congr ends.pool ends.files,
           database := ?_, chain := ends.pages_of undoes.chain, records := fun xid' hactive' r hr => ?_,
           created := fun xid' hactive' => ?_, apart := fun a b hab ha hb => ?_ }
  · exact ends.active (by rw [undoes.quiet.txn, undoes.quiet.att]; exact ok.active)
  · rw [ends.catalog, undoes.quiet.catalog]
    exact ok.database
  · obtain ⟨hne, hactive', hlog⟩ := undoes.transactionLog_eq ok.log ends hactive'
    rw [hlog] at hr
    have hplaced := ok.records xid' hactive' r hr
    refine ⟨fun rid hins => ?_, fun rid hdel => ?_, fun prev p hbody => ?_⟩
    · obtain ⟨stored, hrow, hxmin⟩ := hplaced.inserted rid hins
      obtain ⟨stored', hrow', hxmin'⟩ := keeps rid stored hrow
        (rows.mem_kept own hactive hne hactive' hr (.inl hins) hrow)
      exact ⟨stored', hrow', hxmin'.trans hxmin⟩
    · obtain ⟨stored, hrow⟩ := hplaced.deleted rid hdel
      obtain ⟨stored', hrow', -⟩ := keeps rid stored hrow
        (rows.mem_kept own hactive hne hactive' hr (.inr hdel) hrow)
      exact ⟨stored', hrow'⟩
    · obtain ⟨hp, hprev⟩ := hplaced.created prev p hbody
      refine ⟨mem_keptPages_of_not_mem hp (ok.apart xid' xid hne hactive' hactive p ?_), hprev⟩
      exact List.mem_filterMap.mpr ⟨r, hr, by simp [LogBody.creates?, hbody]⟩
  · obtain ⟨-, hactive', hlog⟩ := undoes.transactionLog_eq ok.log ends hactive'
    rw [hlog]
    exact ok.created xid' hactive'
  · obtain ⟨-, ha', hloga⟩ := undoes.transactionLog_eq ok.log ends ha
    obtain ⟨-, hb', hlogb⟩ := undoes.transactionLog_eq ok.log ends hb
    rw [hloga, hlogb]
    exact ok.apart a b hab ha' hb'

theorem RowsOk.rolledBack (rows : RowsOk dbOid oid pages σ) (log : ChainOk σ)
    (hactive : (σ.log.att.find? xid).isSome) (undoes : Undoes dbOid oid xid pages σ σ₁)
    (ends : Ends xid σ₁ σ') :
    RowsOk dbOid oid (σ.pagesLeft oid xid pages) σ' := by
  have hnext : σ'.txn.nextXid = σ.txn.nextXid := by rw [ends.nextXid, undoes.quiet.txn]
  have hold {rid : Rid} {stored' : StoredRecord}
      (hrow' : σ'.rows dbOid oid
        (σ.pagesLeft oid xid pages) rid = some stored') :=
    undoes.exists_row (ends.rows_eq dbOid oid _ ▸ hrow')
  refine { first := hnext ▸ rows.first, xids := fun xid' hactive' => ?_,
           born := fun rid stored' hrow' => ?_, inserted := fun rid stored' hrow' hactive' => ?_,
           deleted := fun xid' hactive' r hr rid stored' hdel hrow' => ?_,
           deleter := fun rid stored' hrow' hactive' => ?_,
           locked := fun a b hab ha hb => ?_ }
  · rw [hnext]
    exact rows.xids xid' (undoes.transactionLog_eq log ends hactive').2.1
  · obtain ⟨stored, hrow, rfl⟩ := hold hrow'
    obtain ⟨hxmin, hxmax⟩ := rows.born rid stored hrow
    rw [hnext]
    refine ⟨(foldl_undoHeader_xmin _ _ _ _).symm ▸ hxmin, ?_⟩
    have hxid : ∀ r ∈ (transactionLog σ.appended xid).reverse, r.xid = xid := fun r hr =>
      xid_of_mem_transactionLog (List.mem_reverse.mp hr)
    change ((transactionLog σ.appended xid).reverse.foldl _ stored.record.header).xmax = _ ∨
      ((transactionLog σ.appended xid).reverse.foldl _ stored.record.header).xmax < _
    rcases foldl_undoHeader_xmax hxid rid.pageId rid.slotId stored.record.header with h | h | h
    · rw [h]
      exact hxmax
    · exact .inl h
    · rw [h]
      exact .inr (rows.xids xid hactive)
  · obtain ⟨stored, hrow, rfl⟩ := hold hrow'
    have hxmin : (undoStored oid rid.pageId rid.slotId (transactionLog σ.appended xid).reverse
        stored).record.header.xmin = stored.record.header.xmin := foldl_undoHeader_xmin _ _ _ _
    rw [hxmin] at hactive' ⊢
    obtain ⟨-, hactive', hlog⟩ := undoes.transactionLog_eq log ends hactive'
    rw [hlog]
    exact rows.inserted rid stored hrow hactive'
  · obtain ⟨hne, hactive', hlog⟩ := undoes.transactionLog_eq log ends hactive'
    rw [hlog] at hr
    obtain ⟨stored, hrow, rfl⟩ := hold hrow'
    have hsame : (transactionLog σ.appended xid).reverse.foldl (undoHeader oid rid.pageId rid.slotId)
        stored.record.header = stored.record.header :=
      foldl_undoHeader_of_not_names (fun r' hr' => rows.locked xid' xid hne hactive' hactive r hr r'
        (List.mem_reverse.mp hr') rid (.inr hdel)) _
    change ((transactionLog σ.appended xid).reverse.foldl _ stored.record.header).xmax = xid'
    rw [hsame]
    exact rows.deleted xid' hactive' r hr rid stored hdel hrow
  · obtain ⟨stored, hrow, rfl⟩ := hold hrow'
    have hxid : ∀ r ∈ (transactionLog σ.appended xid).reverse, r.xid = xid := fun r hr =>
      xid_of_mem_transactionLog (List.mem_reverse.mp hr)
    obtain ⟨hne, hactive', hlog⟩ := undoes.transactionLog_eq log ends hactive'
    rw [hlog]
    -- neither the undo nor its transaction put that id there
    have hxmax : (undoStored oid rid.pageId rid.slotId (transactionLog σ.appended xid).reverse
        stored).record.header.xmax = stored.record.header.xmax := by
      rcases foldl_undoHeader_xmax hxid rid.pageId rid.slotId stored.record.header with h | h | h
      · exact h
      · have hnone := log.find?_nullXid
        rw [← h] at hnone
        exact absurd hactive' (by rw [Option.not_isSome_iff_eq_none]; exact hnone)
      · exact absurd h hne
    rw [hxmax] at hactive' ⊢
    exact rows.deleter rid stored hrow hactive'
  · obtain ⟨-, ha', hloga⟩ := undoes.transactionLog_eq log ends ha
    obtain ⟨-, hb', hlogb⟩ := undoes.transactionLog_eq log ends hb
    rw [hloga, hlogb]
    exact rows.locked a b hab ha' hb'

end rollback

end HuaDB
